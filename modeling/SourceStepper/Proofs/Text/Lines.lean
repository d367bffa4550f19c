import Mathlib.Data.List.Basic
import SourceStepper.Proofs.SourceMap.Segments
import SourceStepper.Proofs.Text.Utf8

namespace SourceStepper.Text

abbrev lineFeed : UInt8 := 10

abbrev carriageReturn : UInt8 := 13

/-- How many line feeds there are with a carriage return in front of them. -/
def returns : List UInt8 → Nat
  | [] => 0
  | b :: bytes =>
    (if b = carriageReturn ∧ bytes.head? = some lineFeed then 1 else 0) + returns bytes

/-- Where the line feed stands that ends the line of a position; without one, where the
text ends. -/
def lineEnd (bytes : List UInt8) (position : Nat) : Nat :=
  position + ((bytes.drop position).takeWhile (· ≠ lineFeed)).length

section Characters

variable {cs line : List Char}

theorem lines_unbroken (unbroken : '\n' ∉ cs) : lines cs = if cs.isEmpty then [] else [cs] := by
  simp [lines, fields_eq_splitOn, List.splitOn_eq_singleton unbroken]

theorem lines_cons (unbroken : '\n' ∉ line) (rest : List Char) :
    lines (line ++ '\n' :: rest) = dropReturn line :: lines rest := by
  obtain ⟨first, others, split⟩ := List.exists_cons_of_ne_nil (List.splitOn_ne_nil '\n' rest)
  simp [lines, fields_eq_splitOn, List.splitOn_append_cons_self_of_not_mem unbroken, split]

/-- A text is one line without an end, or a line with its end in front of another text. -/
theorem lines_induction {motive : List Char → Prop} (last : ∀ cs, '\n' ∉ cs → motive cs)
    (step : ∀ line rest, '\n' ∉ line → motive rest → motive (line ++ '\n' :: rest))
    (cs : List Char) :
    motive cs := by
  by_cases broken : '\n' ∈ cs
  · obtain ⟨line, rest, split, unbroken⟩ := List.eq_append_cons_of_mem broken
    have shorter : rest.length < cs.length := by
      rw [split, List.length_append, List.length_cons]
      omega
    exact split ▸ step line rest unbroken (lines_induction last step rest)
  · exact last cs broken
termination_by cs.length

theorem lineFeed_mem_utf8 : lineFeed ∈ utf8 cs ↔ '\n' ∈ cs := by
  rw [mem_utf8_ascii (by decide)]
  constructor
  · rintro ⟨c, among, same⟩
    obtain rfl : c = '\n' := Char.toNat_inj.mp same
    exact among
  · exact fun among => ⟨'\n', among, rfl⟩

theorem getLast?_utf8 : (utf8 line).getLast? = some carriageReturn ↔ line.getLast? = some '\r' := by
  rcases List.eq_nil_or_concat line with rfl | ⟨front, c, rfl⟩
  · simp
  · have bytes : String.utf8EncodeChar c ≠ [] := by
      rw [← List.length_pos_iff, String.length_utf8EncodeChar]
      exact c.utf8Size_pos
    rw [List.concat_eq_append, utf8_append, utf8_cons, utf8_nil, List.append_nil,
      List.getLast?_append_of_ne_nil _ bytes, List.getLast?_concat, Option.some.injEq]
    constructor
    · intro last
      exact Char.toNat_inj.mp ((mem_encode_ascii (by decide)).mp (List.mem_of_getLast? last))
    · rintro rfl
      rfl

/-- A line and the carriage return that its line end has. -/
theorem length_dropReturn (line : List Char) :
    (utf8 (dropReturn line)).length +
      (if (utf8 line).getLast? = some carriageReturn then 1 else 0) =
      (utf8 line).length := by
  simp only [getLast?_utf8]
  by_cases back : line.getLast? = some '\r'
  · obtain ⟨front, rfl⟩ := List.getLast?_eq_some_iff.mp back
    simp [dropReturn, dropSuffix?, String.utf8EncodeChar]
  · have kept : dropSuffix? ['\r'] line = none := by
      refine if_neg fun ends => back ?_
      obtain ⟨front, rfl⟩ := List.isSuffixOf_iff_suffix.mp ends
      exact List.getLast?_concat
    rw [dropReturn, kept, Option.getD_none, if_neg back, Nat.add_zero]

end Characters

section Bytes

variable {bytes line : List UInt8} {position : Nat}

theorem returns_unbroken (unbroken : lineFeed ∉ bytes) : returns bytes = 0 := by
  induction bytes with
  | nil => rfl
  | cons b bytes ih =>
    obtain ⟨-, later⟩ := not_or.mp (mt List.mem_cons.mpr unbroken)
    rw [returns, ih later, if_neg]
    exact fun h => later (List.mem_of_head? h.2)

theorem returns_line (unbroken : lineFeed ∉ line) (rest : List UInt8) :
    returns (line ++ lineFeed :: rest) =
      (if line.getLast? = some carriageReturn then 1 else 0) + returns rest := by
  induction line with
  | nil => simp [returns, show lineFeed ≠ carriageReturn by decide]
  | cons b line ih =>
    obtain ⟨-, later⟩ := not_or.mp (mt List.mem_cons.mpr unbroken)
    rw [List.cons_append, returns, ih later]
    cases line with
    | nil => simp
    | cons c line =>
      have other : c ≠ lineFeed := fun same => later (same ▸ List.mem_cons_self)
      simp [other]

theorem returns_take_le (bytes : List UInt8) (n : Nat) :
    returns (bytes.take n) ≤ returns bytes := by
  induction bytes generalizing n with
  | nil => simp [returns]
  | cons b bytes ih =>
    cases n with
    | zero => exact Nat.zero_le _
    | succ n =>
      rw [List.take_succ_cons, returns, returns]
      refine Nat.add_le_add ?_ (ih n)
      rw [List.head?_take]
      cases n <;> simp

theorem lineEnd_line (unbroken : lineFeed ∉ line) (inside : position ≤ line.length)
    {rest : List UInt8} (ends : ∀ b ∈ rest.head?, b = lineFeed) :
    lineEnd (line ++ rest) position = line.length := by
  have within : ∀ b ∈ line.drop position, decide (b ≠ lineFeed) = true := fun b behind =>
    decide_eq_true fun same => unbroken (same ▸ List.mem_of_mem_drop behind)
  have behind : rest.takeWhile (· ≠ lineFeed) = [] := by
    cases rest with
    | nil => rfl
    | cons b rest => exact List.takeWhile_cons_of_neg (by simpa using ends b rfl)
  rw [lineEnd, List.drop_append_of_le_length inside, List.takeWhile_append_of_pos within, behind,
    List.append_nil, List.length_drop]
  omega

theorem lineEnd_behind (line rest : List UInt8) (position : Nat) :
    lineEnd (line ++ lineFeed :: rest) (line.length + (1 + position)) =
      line.length + (1 + lineEnd rest position) := by
  rw [lineEnd, List.drop_length_add_append, Nat.add_comm 1 position, List.drop_succ_cons, lineEnd]
  omega

end Bytes

end SourceStepper.Text
