import SourceStepper.Proofs.Source.Selection
import SourceStepper.Proofs.SourceMap.Inheritance

/-!
The numbers of an element fit in 64 bits with their signs, but their sum may not. That is the only
number that can overflow when the element of a source map is located.
-/
namespace SourceStepper.Source

open SourceMap (Element)

variable {raw : String} {elements : List Element} {e : Element} {path text : String}

theorem locate?_eq_none {file : File} (offset : e.offset < 2 ^ 63) (length : e.length < 2 ^ 63)
    (overflows : 2 ^ 63 ≤ e.offset + e.length) : locate? file e = none := by
  have high : checked? (e.offset + e.length : Int) = none := checked?_eq_none (by omega)
  rw [locate?, position_eq offset, position_eq length, high]
  rfl

theorem lt_of_inherits {field : SourceMap.Field} {text? : Option (List Char)} {before n : Nat}
    (inherits : field.Inherits (.number before) text? (.number n)) (signed : before < 2 ^ 63) :
    n < 2 ^ 63 := by
  cases inherits with
  | kept => exact signed
  | given means =>
    cases means with
    | offset number | length number | modifierDepth number =>
      have := number.2.2
      omega

theorem signed_of_decoded (decoded : SourceMap.decode raw = .ok elements) (mem : e ∈ elements) :
    e.offset < 2 ^ 63 ∧ e.length < 2 ^ 63 := by
  obtain ⟨k, at_k⟩ := List.mem_iff_getElem?.mp mem
  have inherits := (SourceMap.decodeFrom_eq_ok decoded).2 k e at_k
  exact ⟨lt_of_inherits (inherits .offset) (by decide),
    lt_of_inherits (inherits .length) (by decide)⟩

/-- Whatever source map an element is from, no cast changes a number when it is located in a file,
and no number overflows exactly if the end of the element is a signed number of 64 bits. -/
theorem locate?_decoded (decoded : SourceMap.decode raw = .ok elements) (mem : e ∈ elements)
    (fits : Text.byteLength text + 2 < 2 ^ 63) :
    let file := File.ofText path text
    (position e.offset = e.offset ∧ position e.length = e.length ∧
        position file.byteLength = file.byteLength) ∧
      locate? file e = if e.offset + e.length < 2 ^ 63 then some (around file e) else none := by
  intro file
  obtain ⟨offset, length⟩ := signed_of_decoded decoded mem
  have size : file.byteLength ≤ Text.byteLength text + 1 := byteLength_ofText_le path text
  refine ⟨⟨position_eq offset, position_eq length, position_eq (by omega)⟩, ?_⟩
  split
  · next signed => exact locate?_of_signed (laid_ofText path text) (by omega) signed
  · next overflows => exact locate?_eq_none offset length (Nat.le_of_not_lt overflows)

theorem locate?_decoded_largest :
    let raw := "5:1;:9223372036854775802"
    let text := "pragma\nx"
    let e : Element := { offset := 5, length := 9223372036854775802 }
    (SourceMap.decode raw = .ok [{ offset := 5, length := 1 }, e] ∧
        Text.byteLength text + 2 < 2 ^ 63) ∧
      locate? (File.ofText "F.sol" text) e = some (around (File.ofText "F.sol" text) e) := by
  intro raw text e
  have decoded : SourceMap.decode "5:1;:9223372036854775802" =
      .ok [{ offset := 5, length := 1 }, { offset := 5, length := 9223372036854775802 }] := by rfl
  have fits : Text.byteLength text + 2 < 2 ^ 63 := by decide
  have signed : e.offset + e.length < 2 ^ 63 := by decide
  have among : e ∈ [{ offset := 5, length := 1 }, e] := List.mem_cons_of_mem _ List.mem_cons_self
  exact ⟨⟨decoded, fits⟩, (locate?_decoded decoded among fits).2.trans (if_pos signed)⟩

/-- The end of the element overflows, although both lines of the text lie in it. -/
theorem locate?_overflows :
    let file := File.ofText "S0.sol" "ab\ncd\n"
    let e : Element := { offset := 1, length := 9223372036854775807 }
    SourceMap.decode "1:9223372036854775807" = .ok [e] ∧ locate? file e = none ∧
      render? file e = none := by
  refine ⟨by rfl, ?_, ?_⟩ <;> decide +kernel

end SourceStepper.Source
