import Mathlib.Data.List.Sort
import SourceStepper.Proofs.Source.Locate
import SourceStepper.Proofs.Text.Lines

/-!
Which lines are selected: the ones that overlap the element, whatever is shown of them and around
them. For an element of at least one byte these start with the line in which it starts. An element
without bytes selects the line in which it stands and, where a line begins, the one in front of it
too.
-/
namespace SourceStepper.Source

open SourceMap (Element)

namespace Rendering

theorem selectedLines_increasing (r : Rendering) : r.selectedLines.Pairwise (· < ·) :=
  List.pairwise_map.mpr (r.lines.increasing.sublist List.filter_sublist)

theorem mem_selectedLines {r : Rendering} {k : Nat} :
    k ∈ r.selectedLines ↔ ∃ line, r.lines.get? k = some line ∧ line.selected = true := by
  simp only [selectedLines, selected, List.mem_map, List.mem_filter, Prod.exists,
    OrderedMap.mem_entries_iff]
  constructor
  · rintro ⟨n, line, shown, rfl⟩
    exact ⟨line, shown⟩
  · rintro ⟨line, shown⟩
    exact ⟨k, line, shown, rfl⟩

theorem firstSelected_fst (r : Rendering) : r.firstSelected.1 = r.selectedLines.headD 0 := by
  rw [firstSelected, selectedLines]
  cases r.selected <;> rfl

theorem firstSelected_mem {r : Rendering} (selected : r.selectedLines ≠ []) :
    r.firstSelected.1 ∈ r.selectedLines := by
  rw [firstSelected_fst]
  cases lines : r.selectedLines with
  | nil => exact absurd lines selected
  | cons n rest => exact List.mem_cons_self

theorem firstSelected_eq_iff {r : Rendering} {n : Nat} (positive : 1 ≤ n) :
    r.firstSelected.1 = n ↔ n ∈ r.selectedLines ∧ ∀ k ∈ r.selectedLines, n ≤ k := by
  have increasing := r.selectedLines_increasing
  rw [firstSelected_fst]
  generalize r.selectedLines = lines at increasing
  cases lines with
  | nil => simpa using fun zero => absurd zero (by omega)
  | cons first rest =>
    have behind := (List.pairwise_cons.mp increasing).1
    rw [List.headD_cons]
    constructor
    · rintro rfl
      refine ⟨List.mem_cons_self, fun k among => ?_⟩
      rcases List.mem_cons.mp among with rfl | later
      · exact Nat.le_refl _
      · exact (behind k later).le
    · rintro ⟨among, least⟩
      rcases List.mem_cons.mp among with rfl | later
      · rfl
      · exact absurd (least first List.mem_cons_self) (Nat.not_le_of_lt (behind n later))

end Rendering

section Selected

variable {file : File} {e : Element} {p : Placed} {k : Nat}

/-- Whether a line overlaps an element, as its positions are computed. -/
def Placed.overlaps (e : Element) (p : Placed) : Bool :=
  p.meets (position e.offset) (position e.offset + position e.length - 1)

theorem selected_appendSelected (text : String) (former : Option Line) :
    (appendSelected text former).any (·.selected) = true := by
  cases former <;> rfl

theorem selected_appendContext (text : String) (former : Option Line) :
    (appendContext text former).any (·.selected) = former.any (·.selected) := by
  cases former <;> rfl

theorem selected_front (laid : Laid 1 0 file.placed file.byteLength) (mem : p ∈ file.placed)
    {lines : List Placed} (sublist : lines.Sublist file.placed) (text : Placed → String) :
    ((lines.foldl (fun (shown : Lines) line =>
      shown.alter line.number fun _ => some ⟨text line, false, 0⟩) .empty).get? p.number).any
        (·.selected) = false := by
  rw [get?_foldl_alter_sublist laid sublist mem .empty]
  split <;> rfl

/-- What is in front of an element and behind it is shown, but selects no line and takes no line out
of the selection. -/
theorem selected_around (laid : Laid 1 0 file.placed file.byteLength) (mem : p ∈ file.placed) :
    ((around file e).get? p.number).any (·.selected) = p.overlaps e := by
  have body : p ∈ file.placed.filter (Placed.overlaps e) ↔ p.overlaps e = true := by
    simp [List.mem_filter, mem]
  rw [around_eq, get?_foldl_alter_sublist laid (take_filter_sublist ..) mem,
    get?_foldl_alter_sublist laid List.filter_sublist mem, apply_ite (Option.any _),
    selected_appendContext, ite_self, apply_ite (Option.any _), selected_appendSelected,
    selected_front laid mem (reverse_take_filter_sublist ..)]
  by_cases overlaps : p.overlaps e = true
  · exact (if_pos (body.mpr overlaps)).trans overlaps.symm
  · exact (if_neg fun among => overlaps (body.mp among)).trans (Bool.eq_false_iff.mpr overlaps).symm

theorem mem_selectedLines_rendering (laid : Laid 1 0 file.placed file.byteLength) :
    k ∈ (rendering file e).selectedLines ↔
      ∃ p ∈ file.placed, p.number = k ∧ p.overlaps e = true := by
  rw [Rendering.mem_selectedLines, ← Option.any_eq_true]
  constructor
  · intro selected
    by_cases known : ∃ p ∈ file.placed, p.number = k
    · obtain ⟨p, mem, rfl⟩ := known
      exact ⟨p, mem, rfl, (selected_around laid mem).symm.trans selected⟩
    · have absent := get?_around_absent (e := e) fun p mem same => known ⟨p, mem, same⟩
      rw [rendering, absent] at selected
      contradiction
  · rintro ⟨p, mem, rfl, overlaps⟩
    exact (selected_around laid mem).trans overlaps

theorem positive_of_mem_selectedLines {path text : String}
    (among : k ∈ (rendering (.ofText path text) e).selectedLines) : 1 ≤ k := by
  have laid := laid_ofText path text
  obtain ⟨p, mem, rfl, -⟩ := (mem_selectedLines_rendering laid).mp among
  exact laid.number_le mem

theorem overlaps_eq (signed : e.offset + e.length < 2 ^ 63) :
    p.overlaps e = p.meets e.offset (e.offset + e.length - 1) := by
  rw [Placed.overlaps, position_eq (n := e.offset) (by omega),
    position_eq (n := e.length) (by omega)]

theorem overlaps_iff (nonempty : 1 ≤ e.length) (signed : e.offset + e.length < 2 ^ 63) :
    p.overlaps e = true ↔ p.start < e.offset + e.length ∧ e.offset ≤ p.stop := by
  rw [overlaps_eq signed, Placed.meets_iff (by omega)]
  omega

theorem firstSelected_eq_number_iff (laid : Laid 1 0 file.placed file.byteLength)
    (nonempty : 1 ≤ e.length) (signed : e.offset + e.length < 2 ^ 63) (mem : p ∈ file.placed)
    (starts : p.start ≤ e.offset) :
    (rendering file e).firstSelected.1 = p.number ↔ e.offset ≤ p.stop := by
  have reaches : e.offset ≤ p.stop ↔ p.overlaps e = true := by
    rw [overlaps_iff nonempty signed]
    omega
  rw [reaches, Rendering.firstSelected_eq_iff (laid.number_le mem),
    mem_selectedLines_rendering laid]
  constructor
  · rintro ⟨⟨q, mem', same, overlaps⟩, -⟩
    rwa [laid.eq_of_number mem' mem same] at overlaps
  · intro overlaps
    refine ⟨⟨p, mem, rfl, overlaps⟩, fun k selected => ?_⟩
    obtain ⟨q, mem', rfl, overlaps'⟩ := (mem_selectedLines_rendering laid).mp selected
    rw [overlaps_iff nonempty signed] at overlaps'
    rcases laid.compare mem' mem with ⟨-, before⟩ | rfl | ⟨lt, -⟩
    · omega
    · exact Nat.le_refl _
    · exact lt.le

/-- An element without bytes overlaps the line of its position and that of the one in front of it,
which is where the range of its bytes is thought to end. -/
theorem overlaps_empty_iff (empty : e.length = 0) (signed : e.offset < 2 ^ 63) :
    p.overlaps e = true ↔
      p.start ≤ e.offset ∧ e.offset ≤ p.stop ∨ p.start < e.offset ∧ e.offset ≤ p.stop + 1 := by
  have nonempty : p.start ≤ p.stop := Nat.le_add_right ..
  rw [overlaps_eq (by omega), empty]
  simp only [Placed.meets, Bool.or_eq_true, Bool.and_eq_true, decide_eq_true_eq]
  omega

end Selected

theorem byteLength_number (n : Nat) (cs : List Char) :
    ((number n (Text.lines cs)).map Prod.snd).foldr
      (fun line size => Text.byteLength line.text + 1 + size) 0 ≤
      (Text.utf8 cs).length + 1 := by
  induction cs using Text.lines_induction generalizing n with
  | last cs unbroken =>
    rw [Text.lines_unbroken unbroken]
    split
    · exact Nat.zero_le _
    · simp [number, Text.length_utf8]
  | step line rest unbroken ih =>
    have kept := Text.length_dropReturn line
    have later := ih (n + 1)
    rw [Text.lines_cons unbroken, number, List.map_cons, List.foldr_cons, ← Text.length_utf8,
      Text.utf8_append, List.length_append, Text.utf8_cons, List.length_append,
      String.length_utf8EncodeChar]
    have := '\n'.utf8Size_pos
    omega

/-- A file counts no more bytes than its text has, and one for a line end that is missing. -/
theorem byteLength_ofText_le (path text : String) :
    (File.ofText path text).byteLength ≤ Text.byteLength text + 1 := by
  have size := byteLength_number 1 text.toList
  rwa [Text.length_utf8, String.ofList_toList] at size

theorem render?_ofText {path text : String} {e : Element}
    (small : Text.byteLength text + 2 < 2 ^ 63) (signed : e.offset + e.length < 2 ^ 63) :
    render? (File.ofText path text) e = some (rendering (File.ofText path text) e) := by
  have size := byteLength_ofText_le path text
  exact render?_of_signed (laid_ofText path text) (by omega) signed

def File.HasAt (file : File) (k position : Nat) : Prop :=
  file.lines.contains k ∧ file.startOf k ≤ position ∧ position ≤ file.startOf k + file.lengthOf k

theorem hasAt_iff {path text : String} {k position : Nat} :
    (File.ofText path text).HasAt k position ↔
      ∃ p ∈ (File.ofText path text).placed, p.number = k ∧ p.start ≤ position ∧
        position ≤ p.stop := by
  constructor
  · rintro ⟨known, starts, stops⟩
    obtain ⟨line, found⟩ := Option.isSome_iff_exists.mp known
    obtain ⟨p, mem, rfl, -⟩ := exists_placed.mpr ⟨line, found, rfl⟩
    rw [startOf_placed mem] at starts stops
    rw [lengthOf_placed mem] at stops
    exact ⟨p, mem, rfl, starts, stops⟩
  · rintro ⟨p, mem, rfl, starts, stops⟩
    obtain ⟨line, found, -⟩ := exists_placed.mp ⟨p, mem, rfl, rfl⟩
    refine ⟨OrderedMap.contains_of_get? found, ?_⟩
    rw [startOf_placed mem, lengthOf_placed mem]
    exact ⟨starts, stops⟩

theorem hasAt_iff_eq_number {path text : String} {k position : Nat} {p : Placed}
    (mem : p ∈ (File.ofText path text).placed) (starts : p.start ≤ position)
    (stops : position ≤ p.stop) :
    (File.ofText path text).HasAt k position ↔ k = p.number := by
  rw [hasAt_iff]
  constructor
  · rintro ⟨q, mem', rfl, starts', stops'⟩
    rcases (laid_ofText path text).compare mem' mem with ⟨-, before⟩ | rfl | ⟨-, behind⟩
    · omega
    · rfl
    · omega
  · rintro rfl
    exact ⟨p, mem, rfl, starts, stops⟩

section Empty

variable {path text : String} {e : Element} {p : Placed}

theorem mem_selectedLines_empty (empty : e.length = 0) (signed : e.offset < 2 ^ 63)
    (mem : p ∈ (File.ofText path text).placed) (starts : p.start ≤ e.offset)
    (stops : e.offset ≤ p.stop) {k : Nat} :
    k ∈ (rendering (File.ofText path text) e).selectedLines ↔
      k = p.number ∨ e.offset = p.start ∧ 1 ≤ k ∧ k + 1 = p.number := by
  have laid := laid_ofText path text
  have nonempty : p.start ≤ p.stop := Nat.le_add_right ..
  rw [mem_selectedLines_rendering laid]
  constructor
  · rintro ⟨q, mem', rfl, overlaps⟩
    rw [overlaps_empty_iff empty signed] at overlaps
    rcases laid.compare mem' mem with ⟨-, before⟩ | rfl | ⟨-, behind⟩
    · have adjacent : p.start = q.stop + 1 := by omega
      exact .inr ⟨by omega, laid.number_le mem', (laid.number_succ mem' mem adjacent).symm⟩
    · exact .inl rfl
    · omega
  · rintro (rfl | ⟨first, positive, next⟩)
    · exact ⟨p, mem, rfl, (overlaps_empty_iff empty signed).mpr (.inl ⟨starts, stops⟩)⟩
    · -- the position in front of the element is that of the byte which ends a line
      have behind : 0 < e.offset := by
        by_contra top
        have := laid.number_eq mem (by omega)
        omega
      have inside := laid.stop_lt mem
      obtain ⟨q, mem', starts', stops'⟩ := laid.exists_at (Nat.zero_le (e.offset - 1)) (by omega)
      have adjacent : p.start = q.stop + 1 := by
        rcases laid.compare mem' mem with ⟨-, before⟩ | rfl | ⟨-, after⟩ <;> omega
      have number := laid.number_succ mem' mem adjacent
      exact ⟨q, mem', by omega, (overlaps_empty_iff empty signed).mpr (.inr ⟨by omega, by omega⟩)⟩

/-- An element without bytes selects the line that has its position. If that is the first position
of the line, the line in front of it is selected as well, and is the first selected one. -/
theorem selectedLines_empty (empty : e.length = 0)
    (inside : e.offset < (File.ofText path text).byteLength)
    (fits : Text.byteLength text < 2 ^ 63) :
    let file := File.ofText path text
    (Text.byteLength text + 2 < 2 ^ 63 → (render? file e).isSome) ∧
      ∃ n, (∀ k, file.HasAt k e.offset ↔ k = n) ∧ ∀ r, render? file e = some r →
        r.selectedLines = (if e.offset = file.startOf n ∧ 1 < n then [n - 1, n] else [n]) ∧
        r.firstSelected.1 = if e.offset = file.startOf n ∧ 1 < n then n - 1 else n := by
  intro file
  have laid : Laid 1 0 file.placed file.byteLength := laid_ofText path text
  have size := byteLength_ofText_le path text
  have signed : e.offset + e.length < 2 ^ 63 := by omega
  refine ⟨fun small => ?_, ?_⟩
  · rw [render?_ofText small signed, Option.isSome_some]
  obtain ⟨p, mem, starts, stops⟩ := laid.exists_at (Nat.zero_le e.offset) inside
  refine ⟨p.number, fun k => hasAt_iff_eq_number mem starts stops, fun r rendered => ?_⟩
  have lines : (rendering file e).selectedLines =
      if e.offset = p.start ∧ 1 < p.number then [p.number - 1, p.number] else [p.number] := by
    refine (rendering file e).selectedLines_increasing.eq_of_mem_iff ?_ fun k => ?_
    · split
      · simp
        omega
      · simp
    · rw [mem_selectedLines_empty empty (by omega) mem starts stops]
      split <;> simp <;> omega
  rw [startOf_placed mem, Rendering.firstSelected_fst, eq_rendering rendered, lines]
  exact ⟨rfl, by split <;> rfl⟩

theorem selectedLines_empty_within_line :
    let text := "a\nbc\nd"
    let file := File.ofText "F.sol" text
    let e : Element := { offset := 3 }
    (e.length = 0 ∧ e.offset < file.byteLength ∧ Text.byteLength text < 2 ^ 63) ∧
      ∃ n r, (∀ k, file.HasAt k e.offset ↔ k = n) ∧ n = 2 ∧ render? file e = some r ∧
        r.selectedLines = [n] ∧ r.firstSelected.1 = n := by
  intro text file e
  have inside : e.offset < file.byteLength := by decide
  have fits : Text.byteLength text < 2 ^ 63 := by decide
  obtain ⟨returned, n, here, exact_lines⟩ := selectedLines_empty rfl inside fits
  obtain ⟨r, rendered⟩ := Option.isSome_iff_exists.mp (returned (by decide))
  obtain ⟨lines, first⟩ := exact_lines r rendered
  obtain rfl : 2 = n := (here 2).mp ⟨by decide, by decide, by decide⟩
  have within : ¬ (e.offset = file.startOf 2 ∧ 1 < 2) := by decide
  rw [if_neg within] at lines first
  exact ⟨⟨rfl, inside, fits⟩, 2, r, here, rfl, rendered, lines, first⟩

/-- An element without bytes at the first letter of the second line selects the first line too. -/
theorem empty_selects_line_in_front :
    let file := File.ofText "S0.sol" "a\nb\nc\n"
    let e : Element := { offset := 2 }
    e.length = 0 ∧ e.offset < file.byteLength ∧ file.HasAt 2 e.offset ∧
      (render? file e).map (fun r => (r.selectedLines, r.firstSelected)) =
        some ([1, 2], (1, 1)) := by
  refine ⟨rfl, by decide, ⟨by decide, by decide, by decide⟩, ?_⟩
  decide +kernel

end Empty

end SourceStepper.Source
