import SourceStepper.Breakpoint
import SourceStepper.Proofs.Text.Blank
import SourceStepper.Proofs.Text.Numeral
import SourceStepper.Proofs.Text.Split

namespace SourceStepper

namespace Breakpoint

variable {b : Breakpoint} {text : String}

theorem toList_text (b : Breakpoint) :
    b.text.toList = b.path.toList ++ ':' :: Nat.toDigits 10 b.line := by
  simp [Breakpoint.text]
  rfl

theorem parse_eq_ok :
    parse text = .ok b ↔ ∃ line, Text.trim text.toList = b.path.toList ++ ':' :: line ∧ ':' ∉ line ∧
      b.path.toList ≠ [] ∧ b.line ≠ 0 ∧ Text.readNat Text.maxUnsigned (Text.trim line) =
        .ok b.line := by
  constructor
  · intro parsed
    unfold parse at parsed
    split at parsed
    · contradiction
    next path line cut =>
    split at parsed
    · contradiction
    next named =>
    split at parsed
    · contradiction
    · contradiction
    next n positive read =>
    cases parsed
    obtain ⟨written, last⟩ := Text.cutLast?_eq_some.mp cut
    rw [String.toList_ofList]
    exact ⟨line, written, last, by simpa using named, positive, read⟩
  · rintro ⟨line, written, last, named, positive, read⟩
    unfold parse
    rw [Text.cutLast?_eq_some.mpr ⟨written, last⟩]
    simp only [List.isEmpty_iff, named, if_false, read]
    cases number : b.line with
    | zero => exact absurd number positive
    | succ n => rw [← number]; simp

structure Writable (b : Breakpoint) : Prop where
  named : b.path.toList ≠ []
  front : ∀ c ∈ b.path.toList.head?, Text.isBlank c = false
  positive : b.line ≠ 0
  fits : b.line ≤ Text.maxUnsigned

theorem writable_of_parse (parsed : parse text = .ok b) : b.Writable := by
  obtain ⟨line, written, -, named, positive, read⟩ := parse_eq_ok.mp parsed
  refine ⟨named, fun c first => ?_, positive, Text.readNat_le read⟩
  apply (Text.trim_eq_self_iff.mp (Text.trim_trim text.toList)).1
  rw [written]
  exact List.mem_head?_append_of_mem_head? first

theorem notBlank_toDigits {n : Nat} {c : Char} (within : c ∈ Nat.toDigits 10 n) :
    Text.isBlank c = false :=
  Text.notBlank_of_isDigit ((Text.allDigits_toDigits n).2 c within)

theorem trim_toDigits (n : Nat) : Text.trim (Nat.toDigits 10 n) = Nat.toDigits 10 n :=
  Text.trim_eq_self_iff.mpr ⟨fun _ first => notBlank_toDigits (List.mem_of_mem_head? first),
    fun _ last => notBlank_toDigits (List.mem_of_getLast? last)⟩

theorem trim_text (writable : b.Writable) : Text.trim b.text.toList = b.text.toList := by
  rw [Text.trim_eq_self_iff, toList_text]
  constructor
  · intro c first
    rw [List.head?_append_of_ne_nil _ writable.named] at first
    exact writable.front c first
  · intro c last
    rw [List.getLast?_append_of_ne_nil _ (by simp),
      List.getLast?_cons_of_ne_nil Nat.toDigits_ne_nil] at last
    exact notBlank_toDigits (List.mem_of_getLast? last)

theorem parse_text_iff : parse b.text = .ok b ↔ b.Writable := by
  refine ⟨writable_of_parse, fun writable => parse_eq_ok.mpr ⟨Nat.toDigits 10 b.line, ?_, ?_, ?_⟩⟩
  · rw [trim_text writable, toList_text]
  · intro colon
    exact absurd ((Text.allDigits_toDigits b.line).2 ':' colon) (by decide)
  · rw [trim_toDigits]
    exact ⟨writable.named, writable.positive, Text.readNat_toDigits writable.fits⟩

end Breakpoint

end SourceStepper
