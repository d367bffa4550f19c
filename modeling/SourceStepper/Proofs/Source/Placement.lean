import Mathlib.Tactic.Common
import SourceStepper.Source.Locate

namespace SourceStepper.Source

namespace File

def lengthOf (file : File) (n : Nat) : Nat :=
  ((file.lines.get? n).map (Text.byteLength ·.text)).getD 0

/-- The position of the first byte of a line. -/
def startOf (file : File) : Nat → Nat
  | 0 | 1 => 0
  | n + 2 => file.startOf (n + 1) + file.lengthOf (n + 1) + 1

end File

/-- Lines that follow each other without a gap, from number `n` and position `start` up to
position `stop`. -/
inductive Laid : Nat → Nat → List Placed → Nat → Prop
  | nil (n start : Nat) : Laid n start [] start
  | cons {line : Placed} {rest : List Placed} {stop : Nat}
    (later : Laid (line.number + 1) (line.stop + 1) rest stop) :
    Laid line.number line.start (line :: rest) stop

theorem laid_placeFrom (n start : Nat) (texts : List (List Char)) :
    Laid n start (placeFrom start (number n texts)) (start +
      ((number n texts).map Prod.snd).foldr (fun line size =>
        Text.byteLength line.text + 1 + size) 0) := by
  induction texts generalizing n start with
  | nil => exact .nil n start
  | cons text rest ih =>
    let first : Placed := ⟨n, start, String.ofList text⟩
    have later : Laid (first.number + 1) (first.stop + 1) _ _ := ih (n + 1) (first.stop + 1)
    rw [Placed.stop, Nat.add_assoc start, Nat.add_assoc start] at later
    exact .cons later

theorem laid_ofText (path text : String) :
    Laid 1 0 (File.ofText path text).placed (File.ofText path text).byteLength := by
  have laid := laid_placeFrom 1 0 (Text.lines text.toList)
  rwa [Nat.zero_add] at laid

namespace Laid

variable {n start stop : Nat} {lines : List Placed} {line other : Placed}

theorem number_le (laid : Laid n start lines stop) (mem : line ∈ lines) : n ≤ line.number := by
  induction laid with
  | nil => contradiction
  | cons later ih =>
    rcases List.mem_cons.mp mem with rfl | mem
    · exact Nat.le_refl _
    · have := ih mem
      omega

theorem start_le (laid : Laid n start lines stop) (mem : line ∈ lines) : start ≤ line.start := by
  induction laid with
  | nil => contradiction
  | cons later ih =>
    rcases List.mem_cons.mp mem with rfl | mem
    · exact Nat.le_refl _
    · have := ih mem
      grind [Placed.stop]

theorem start_le_stop (laid : Laid n start lines stop) : start ≤ stop := by
  induction laid with
  | nil => exact Nat.le_refl _
  | cons later ih => grind [Placed.stop]

theorem stop_lt (laid : Laid n start lines stop) (mem : line ∈ lines) : line.stop < stop := by
  induction laid with
  | nil => contradiction
  | cons later ih =>
    rcases List.mem_cons.mp mem with rfl | mem
    · exact later.start_le_stop
    · exact ih mem

theorem before (laid : Laid n start lines stop) (mem : line ∈ lines) (mem' : other ∈ lines)
    (lt : line.number < other.number) : line.stop < other.start := by
  induction laid with
  | nil => contradiction
  | cons later ih =>
    rcases List.mem_cons.mp mem with rfl | among <;> rcases List.mem_cons.mp mem' with rfl | among'
    · omega
    · exact later.start_le among'
    · have := later.number_le among
      omega
    · exact ih among among'

theorem increasing (laid : Laid n start lines stop) : lines.Pairwise (·.number < ·.number) := by
  induction laid with
  | nil => exact .nil
  | cons later ih => exact .cons (fun other mem => later.number_le mem) ih

theorem exists_at (laid : Laid n start lines stop) {position : Nat} (behind : start ≤ position)
    (inside : position < stop) : ∃ line ∈ lines, line.start ≤ position ∧ position ≤ line.stop := by
  induction laid with
  | nil => omega
  | @cons line rest stop later ih =>
    by_cases here : position ≤ line.stop
    · exact ⟨line, by simp, behind, here⟩
    · obtain ⟨found, mem, range⟩ := ih (by omega) inside
      exact ⟨found, by simp [mem], range⟩

theorem filter_lt (laid : Laid n start lines stop) (h : Nat) :
    lines.filter (·.number < n + h) = lines.take h := by
  induction laid generalizing h with
  | nil => simp
  | @cons line rest stop later ih =>
    cases h with
    | zero =>
      simp only [List.take_zero, List.filter_eq_nil_iff, List.mem_cons]
      rintro other (rfl | mem)
      · simp
      · have := later.number_le mem
        simp
        omega
    | succ h =>
      rw [List.take_succ_cons, ← ih h, List.filter_cons_of_pos (by simp)]
      simp only [Nat.add_assoc, Nat.add_comm 1]

theorem filter_ge (laid : Laid n start lines stop) (h : Nat) :
    lines.filter (n + h ≤ ·.number) = lines.drop h := by
  induction laid generalizing h with
  | nil => simp
  | @cons line rest stop later ih =>
    cases h with
    | zero =>
      simp only [List.drop_zero, List.filter_eq_self, List.mem_cons]
      rintro other (rfl | mem)
      · simp
      · have := later.number_le mem
        simp
        omega
    | succ h =>
      rw [List.drop_succ_cons, ← ih h, List.filter_cons_of_neg (by simp)]
      simp only [Nat.add_assoc, Nat.add_comm 1]

theorem getElem?_eq_some (laid : Laid n start lines stop) {i : Nat} :
    lines[i]? = some line ↔ line ∈ lines ∧ line.number = n + i := by
  induction laid generalizing i with
  | nil => simp
  | @cons first rest stop later ih =>
    cases i with
    | zero =>
      have behind (mem : line ∈ rest) : first.number < line.number := later.number_le mem
      grind
    | succ i =>
      rw [List.getElem?_cons_succ, ih]
      grind

theorem number_lt (laid : Laid n start lines stop) (mem : line ∈ lines) :
    line.number < n + lines.length := by
  have from_n := laid.number_le mem
  have at_line := laid.getElem?_eq_some.mpr ⟨mem, (Nat.add_sub_cancel' from_n).symm⟩
  have := (List.getElem?_eq_some_iff.mp at_line).1
  omega

theorem eq_of_number (laid : Laid n start lines stop) (mem : line ∈ lines) (mem' : other ∈ lines)
    (same : line.number = other.number) : line = other := by
  have from_n := laid.number_le mem
  have at_line := laid.getElem?_eq_some.mpr ⟨mem, (Nat.add_sub_cancel' from_n).symm⟩
  have at_other : lines[line.number - n]? = some other :=
    laid.getElem?_eq_some.mpr ⟨mem', by omega⟩
  exact Option.some.inj (at_line.symm.trans at_other)

theorem compare (laid : Laid n start lines stop) (mem : line ∈ lines) (mem' : other ∈ lines) :
    (line.number < other.number ∧ line.stop < other.start) ∨ line = other ∨
      (other.number < line.number ∧ other.stop < line.start) := by
  rcases Nat.lt_trichotomy line.number other.number with lt | same | gt
  · exact .inl ⟨lt, laid.before mem mem' lt⟩
  · exact .inr (.inl (laid.eq_of_number mem mem' same))
  · exact .inr (.inr ⟨gt, laid.before mem' mem gt⟩)

theorem number_eq (laid : Laid n start lines stop) (mem : line ∈ lines)
    (starts : line.start = start) :
    line.number = n := by
  cases laid with
  | nil => contradiction
  | cons later =>
    rcases List.mem_cons.mp mem with rfl | mem
    · rfl
    · have := later.start_le mem
      grind [Placed.stop]

theorem number_succ (laid : Laid n start lines stop) (mem : line ∈ lines) (mem' : other ∈ lines)
    (adjacent : other.start = line.stop + 1) : other.number = line.number + 1 := by
  induction laid with
  | nil => contradiction
  | cons later ih =>
    rcases List.mem_cons.mp mem with rfl | among <;> rcases List.mem_cons.mp mem' with rfl | among'
    · grind [Placed.stop]
    · exact later.number_eq among' adjacent
    · have := later.start_le among
      grind [Placed.stop]
    · exact ih among among'

theorem mem_last (laid : Laid n start lines stop) {h : Nat} (c : Nat) (few : h ≤ lines.length) :
    line ∈ ((lines.filter (·.number < n + h)).reverse.take c).reverse ↔
      line ∈ lines ∧ line.number < n + h ∧ n + h ≤ line.number + c := by
  rw [laid.filter_lt, List.take_reverse, List.reverse_reverse, List.length_take,
    Nat.min_eq_left few]
  simp only [List.mem_iff_getElem?, List.getElem?_drop, List.getElem?_take]
  constructor
  · rintro ⟨i, found⟩
    split at found
    · obtain ⟨mem, number⟩ := laid.getElem?_eq_some.mp found
      exact ⟨List.mem_iff_getElem?.mp mem, by omega, by omega⟩
    · contradiction
  · -- a line stands at the index that its number says
    rintro ⟨mem, below, near⟩
    have from_n := laid.number_le (List.mem_iff_getElem?.mpr mem)
    refine ⟨line.number - n - (h - c), ?_⟩
    rw [if_pos (by omega), laid.getElem?_eq_some]
    exact ⟨List.mem_iff_getElem?.mpr mem, by omega⟩

theorem mem_first (laid : Laid n start lines stop) (h c : Nat) :
    line ∈ (lines.filter (n + h ≤ ·.number)).take c ↔
      line ∈ lines ∧ n + h ≤ line.number ∧ line.number < n + h + c := by
  rw [laid.filter_ge]
  simp only [List.mem_iff_getElem?, List.getElem?_drop, List.getElem?_take]
  constructor
  · rintro ⟨i, found⟩
    split at found
    · obtain ⟨mem, number⟩ := laid.getElem?_eq_some.mp found
      exact ⟨List.mem_iff_getElem?.mp mem, by omega, by omega⟩
    · contradiction
  · rintro ⟨mem, above, near⟩
    refine ⟨line.number - n - h, ?_⟩
    rw [if_pos (by omega), laid.getElem?_eq_some]
    exact ⟨List.mem_iff_getElem?.mpr mem, by omega⟩

theorem startOf_number (laid : Laid n start lines stop) {file : File} (positive : 1 ≤ n)
    (here : file.startOf n = start)
    (known : ∀ line ∈ lines, file.lengthOf line.number = Text.byteLength line.text)
    (mem : line ∈ lines) : file.startOf line.number = line.start := by
  induction laid with
  | nil => contradiction
  | @cons first rest stop later ih =>
    rcases List.mem_cons.mp mem with rfl | among
    · exact here
    · refine ih (by omega) ?_ (fun other mem => known other (by simp [mem])) among
      obtain ⟨m, succ⟩ := Nat.exists_eq_add_of_le' positive
      have length := known first (by simp)
      rw [succ] at here length ⊢
      rw [File.startOf, here, length, Placed.stop]

end Laid

theorem map_placeFrom (start : Nat) (entries : List (Nat × Line)) :
    (placeFrom start entries).map (fun p => (p.number, p.text)) = entries.map fun (n, line) =>
      (n, line.text) := by
  induction entries generalizing start with
  | nil => rfl
  | cons entry rest ih =>
    rw [placeFrom, List.map_cons, List.map_cons, ih]

theorem exists_placed {file : File} {n : Nat} {text : String} :
    (∃ p ∈ file.placed, p.number = n ∧ p.text = text) ↔
      ∃ line, file.lines.get? n = some line ∧ line.text = text := by
  have same := congrArg ((n, text) ∈ ·) (map_placeFrom 0 file.lines.entries)
  simpa [OrderedMap.mem_entries_iff, File.placed] using same

theorem lengthOf_placed {file : File} {p : Placed} (mem : p ∈ file.placed) :
    file.lengthOf p.number = Text.byteLength p.text := by
  obtain ⟨line, found, text⟩ := exists_placed.mp ⟨p, mem, rfl, rfl⟩
  simp [File.lengthOf, found, text]

theorem startOf_placed {path text : String} {p : Placed}
    (mem : p ∈ (File.ofText path text).placed) :
    (File.ofText path text).startOf p.number = p.start :=
  (laid_ofText path text).startOf_number (Nat.le_refl _) rfl (fun _ => lengthOf_placed) mem

end SourceStepper.Source
