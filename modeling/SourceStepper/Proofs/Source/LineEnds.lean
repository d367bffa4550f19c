import SourceStepper.Proofs.Source.Selection

/-!
The selected lines against the line feeds of the text. Positions count one byte for every line end,
so they fall behind the bytes of the text by each carriage return that has been dropped with a line
end.
-/
namespace SourceStepper.Source

open SourceMap (Element)
open Text (utf8 lineFeed lineEnd returns)

/-- The line of a position in the bytes of a text, and where it ends once the carriage returns of
the line ends have been dropped. -/
theorem exists_line_at (n start : Nat) {cs : List Char} {position : Nat}
    (inside : position < (utf8 cs).length) :
    ∃ p ∈ placeFrom start (number n (Text.lines cs)),
      p.number = n + ((utf8 cs).take position).count lineFeed ∧ p.start ≤ start + position ∧
        p.stop + returns ((utf8 cs).take (lineEnd (utf8 cs) position + 1)) =
          start + lineEnd (utf8 cs) position := by
  induction cs using Text.lines_induction generalizing n start position with
  | last cs unbroken =>
    have bytes : lineFeed ∉ utf8 cs := mt Text.lineFeed_mem_utf8.mp unbroken
    have line : Text.lines cs = [cs] := by
      rw [Text.lines_unbroken unbroken, if_neg]
      rintro nothing
      simp [List.isEmpty_iff.mp nothing] at inside
    have ends : lineEnd (utf8 cs ++ []) position = (utf8 cs).length :=
      Text.lineEnd_line bytes inside.le nofun
    rw [List.append_nil] at ends
    refine ⟨⟨n, start, String.ofList cs⟩, by simp [line, number, placeFrom], ?_,
      Nat.le_add_right .., ?_⟩
    · rw [List.count_eq_zero.mpr fun among => bytes (List.mem_of_mem_take among), Nat.add_zero]
    · rw [ends, List.take_of_length_le (Nat.le_succ _), Text.returns_unbroken bytes, Placed.stop,
        ← Text.length_utf8, Nat.add_zero]
  | step line rest unbroken ih =>
    have bytes : lineFeed ∉ utf8 line := mt Text.lineFeed_mem_utf8.mp unbroken
    have split : utf8 (line ++ '\n' :: rest) = utf8 line ++ lineFeed :: utf8 rest := by
      simp [String.utf8EncodeChar]
    have kept := Text.length_dropReturn line
    rw [Text.lines_cons unbroken, number, placeFrom, split]
    rw [split, List.length_append, List.length_cons] at inside
    by_cases here : position ≤ (utf8 line).length
    · have ends : lineEnd (utf8 line ++ lineFeed :: utf8 rest) position = (utf8 line).length :=
        Text.lineEnd_line bytes here (by simp)
      refine ⟨_, List.mem_cons_self, ?_, Nat.le_add_right .., ?_⟩
      · rw [List.take_append_of_le_length here,
          List.count_eq_zero.mpr fun among => bytes (List.mem_of_mem_take among), Nat.add_zero]
      · rw [ends, List.take_length_add_append, List.take_succ_cons, Text.returns_line bytes,
          Placed.stop, ← Text.length_utf8]
        simp only [List.take_zero, returns]
        omega
    · obtain ⟨behind, rfl⟩ : ∃ behind, position = (utf8 line).length + (1 + behind) :=
        ⟨position - (utf8 line).length - 1, by omega⟩
      obtain ⟨p, among, number, starts, ends⟩ := ih (n + 1)
        (start + Text.byteLength (String.ofList (Text.dropReturn line)) + 1)
          (show behind < _ by omega)
      rw [← Text.length_utf8] at starts ends
      refine ⟨p, List.mem_cons_of_mem _ among, ?_, by omega, ?_⟩
      · rw [number, List.take_length_add_append, Nat.add_comm 1 behind, List.take_succ_cons,
          List.count_append, List.count_eq_zero.mpr bytes, List.count_cons_self]
        omega
      · rw [Text.lineEnd_behind, Nat.add_assoc (utf8 line).length, List.take_length_add_append,
          Nat.add_comm 1 (lineEnd _ _), List.take_succ_cons, Text.returns_line bytes]
        omega

section Physical

variable {path text : String} {e : Element}

/-- The first selected line is the line of the text in which the element starts, exactly when from
there to the end of that line there are at least as many bytes as carriage returns have been dropped
up to there. So it always is if no line end has a carriage return. -/
theorem firstSelected_eq_line_iff (nonempty : 1 ≤ e.length)
    (inside : e.offset + e.length ≤ Text.byteLength text) (fits : Text.byteLength text < 2 ^ 63) :
    let bytes := utf8 text.toList
    let stop := lineEnd bytes e.offset
    let line := 1 + (bytes.take e.offset).count lineFeed
    (Text.byteLength text + 2 < 2 ^ 63 → (render? (File.ofText path text) e).isSome) ∧
      ∀ r, render? (File.ofText path text) e = some r →
        (r.firstSelected.1 = line ↔ e.offset + returns (bytes.take (stop + 1)) ≤ stop) ∧
          (returns bytes = 0 → r.firstSelected.1 = line) := by
  intro bytes stop line
  refine ⟨fun small => ?_, fun r rendered => ?_⟩
  · rw [render?_ofText small (by omega), Option.isSome_some]
  have size : bytes.length = Text.byteLength text := by rw [Text.length_utf8, String.ofList_toList]
  have within : e.offset < bytes.length := by omega
  obtain ⟨p, mem, number, starts, ends⟩ : ∃ p ∈ (File.ofText path text).placed,
      p.number = line ∧ p.start ≤ 0 + e.offset ∧
        p.stop + returns (bytes.take (stop + 1)) = 0 + stop := exists_line_at 1 0 within
  have first :=
    firstSelected_eq_number_iff (laid_ofText path text) nonempty (by omega) mem (by omega)
  have few := Text.returns_take_le bytes (stop + 1)
  have behind : e.offset ≤ stop := Nat.le_add_right ..
  rw [← number, eq_rendering rendered, first]
  omega

/-- The second line reaches far enough behind the element, although two carriage returns
are missing. -/
theorem firstSelected_eq_line_of_crlf :
    let text := "aé\r\nbcd\r\n"
    let e : Element := { offset := 5, length := 2 }
    (1 ≤ e.length ∧ e.offset + e.length ≤ Text.byteLength text ∧ Text.byteLength text < 2 ^ 63) ∧
      ∃ r, render? (File.ofText "F.sol" text) e = some r ∧
        r.firstSelected.1 = 1 + ((utf8 text.toList).take e.offset).count lineFeed := by
  intro text e
  have nonempty : 1 ≤ e.length := by decide
  have inside : e.offset + e.length ≤ Text.byteLength text := by decide
  have fits : Text.byteLength text < 2 ^ 63 := by decide
  have reaches :
      e.offset + returns ((utf8 text.toList).take (lineEnd (utf8 text.toList) e.offset + 1)) ≤
      lineEnd (utf8 text.toList) e.offset := by decide
  obtain ⟨returned, first⟩ := @firstSelected_eq_line_iff "F.sol" text e nonempty inside fits
  obtain ⟨r, rendered⟩ := Option.isSome_iff_exists.mp (returned (by decide))
  exact ⟨⟨nonempty, inside, fits⟩, r, rendered, (first r rendered).1.mpr reaches⟩

/-- The element is the one letter of the third line, and the fourth line is selected. -/
theorem firstSelected_behind_line :
    let text := "a\r\nb\r\nc\r\nd\r\n"
    let e : Element := { offset := 6, length := 1 }
    (1 ≤ e.length ∧ e.offset + e.length ≤ Text.byteLength text) ∧
      1 + ((utf8 text.toList).take e.offset).count lineFeed = 3 ∧
      (render? (File.ofText "S0.sol" text) e).map (·.firstSelected.1) = some 4 := by
  refine ⟨⟨by decide, by decide⟩, by decide, by decide +kernel⟩

end Physical

end SourceStepper.Source
