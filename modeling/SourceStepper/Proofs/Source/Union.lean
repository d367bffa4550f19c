import SourceStepper.Proofs.Source.Selection

namespace SourceStepper

namespace OrderedMap

variable {κ α β : Type} [LT κ] [DecidableLT κ] [DecidableEq κ] [KeyOrder κ]

theorem get?_foldl_alter {entries : List (κ × α)}
    (increasing : entries.Pairwise fun a b => a.1 < b.1)
    {g : OrderedMap κ β → κ × α → OrderedMap κ β} {f : α → Option β → Option β}
    (alters : ∀ m entry, g m entry = m.alter entry.1 (f entry.2)) (m : OrderedMap κ β) (k : κ) :
    (entries.foldl g m).get? k =
      match (entries.find? (·.1 = k)).map Prod.snd with
      | some a => f a (m.get? k)
      | none => m.get? k := by
  induction entries generalizing m with
  | nil => rfl
  | cons entry rest ih =>
    obtain ⟨below, tail⟩ := List.pairwise_cons.mp increasing
    rw [List.foldl_cons, ih tail, alters, get?_alter]
    by_cases here : entry.1 = k
    · -- the keys that follow are greater
      have absent : rest.find? (·.1 = k) = none := by
        rw [List.find?_eq_none]
        intro later mem
        have greater := below later mem
        rw [here] at greater
        intro same
        exact KeyOrder.irrefl k (of_decide_eq_true same ▸ greater)
      simp [absent, here]
    · simp [here, Ne.symm here]

end OrderedMap

namespace Source

open SourceMap (Element)

namespace Rendering

theorem get?_merge (first second : Rendering) (k : Nat) :
    (first.merge second).lines.get? k = Option.merge Line.merge (first.lines.get? k)
    (second.lines.get? k) := by
  rw [merge]
  refine (OrderedMap.get?_foldl_alter second.lines.increasing (f := fun line former =>
    some (former.elim line (·.merge line))) (fun lines entry => ?_) first.lines k).trans ?_
  · refine congrArg (lines.alter entry.1) (funext fun former => ?_)
    cases former <;> rfl
  · rw [← OrderedMap.get?]
    cases first.lines.get? k <;> cases second.lines.get? k <;> rfl

theorem mem_selected {r : Rendering} {k : Nat} {line : Line} :
    (k, line) ∈ r.selected ↔ r.lines.get? k = some line ∧ line.selected = true := by
  rw [selected, List.mem_filter, OrderedMap.mem_entries_iff]

theorem selected_eq {r s : Rendering}
    (same : ∀ k, (r.lines.get? k).filter (·.selected) = (s.lines.get? k).filter (·.selected)) :
    r.selected = s.selected := by
  apply OrderedMap.eq_of_mem_iff (r.lines.increasing.sublist List.filter_sublist)
    (s.lines.increasing.sublist List.filter_sublist)
  rintro ⟨k, line⟩
  have here := congrArg (· = some line) (same k)
  simp only [Option.filter_eq_some_iff, eq_iff_iff] at here
  exact mem_selected.trans (here.trans mem_selected.symm)

end Rendering

/-- Whether an element takes any byte of a line or the one that ends it. -/
def Placed.Touched (p : Placed) (e : Element) : Prop :=
  p.start < e.offset + e.length ∧ e.offset ≤ p.stop

instance (p : Placed) (e : Element) : Decidable (p.Touched e) :=
  inferInstanceAs (Decidable (_ ∧ _))

theorem File.Holds.exists_pieces {path text : String} {e : Element} {p : Placed}
    (holds : (File.ofText path text).Holds e) (mem : p ∈ (File.ofText path text).placed) :
    let file := File.ofText path text
    Laid 1 0 file.placed file.byteLength ∧
      ∃ first last, Range file.placed e.offset (e.offset + e.length) first last ∧
        ∃ front part back,
          p.Pieces e.offset (e.offset + e.length) file.byteLength front part back := by
  intro file
  have laid : Laid 1 0 file.placed file.byteLength := laid_ofText path text
  have ordered : e.offset < e.offset + e.length := Nat.lt_add_of_pos_right holds.nonempty
  obtain ⟨first, last, range⟩ := exists_range laid ordered holds.inside
  have pieces := Placed.exists_pieces (Nat.le_of_lt ordered) (boundary_of_cuts holds.starts mem)
    (boundary_of_cuts holds.ends mem) (Nat.le_of_lt (laid.stop_lt mem))
  exact ⟨laid, first, last, range, pieces⟩

theorem File.Holds.render?_eq {path text : String} {e : Element}
    (holds : (File.ofText path text).Holds e) :
    render? (File.ofText path text) e = some (rendering (File.ofText path text) e) :=
  render?_of_signed (laid_ofText path text) holds.small holds.signed

section Shown

variable {path text : String} {e : Element} {p : Placed} (holds : (File.ofText path text).Holds e)
  (mem : p ∈ (File.ofText path text).placed)

include holds mem

theorem get?_around_touched (touched : p.Touched e) :
    (around (File.ofText path text) e).get? p.number = some ⟨p.text, true, e.offset - p.start⟩ := by
  obtain ⟨laid, first, last, range, front, part, back, pieces⟩ := holds.exists_pieces mem
  obtain ⟨from_first, to_last⟩ := (range.overlaps_iff laid mem).mp touched
  rw [around_selected holds.signed holds.small laid range mem pieces from_first to_last]
  have first_start := range.first_start
  rcases laid.compare mem range.first_mem with ⟨before, -⟩ | rfl | ⟨behind, apart⟩
  · omega
  · rw [if_pos rfl]
  · -- the element starts in a line further up
    have first_stop := range.first_stop
    rw [if_neg behind.ne', Nat.sub_eq_zero_of_le (by omega)]

theorem get?_around_untouched (untouched : ¬ p.Touched e) :
    (around (File.ofText path text) e).get? p.number = none ∨
      (around (File.ofText path text) e).get? p.number = some ⟨p.text, false, 0⟩ := by
  obtain ⟨laid, first, last, range, front, part, back, pieces⟩ := holds.exists_pieces mem
  have outside := mt (range.overlaps_iff laid mem).mpr untouched
  rcases Nat.lt_or_ge p.number first.number with before | from_first
  · rw [around_before holds.signed holds.small laid range mem pieces before]
    exact (ite_eq_or_eq ..).symm
  · have behind : last.number < p.number :=
      Nat.lt_of_not_le fun to_last => outside ⟨from_first, to_last⟩
    rw [around_behind holds.signed holds.small laid range mem pieces behind]
    exact (ite_eq_or_eq ..).symm

theorem merge_touched {e' : Element} (holds' : (File.ofText path text).Holds e')
    (touched : p.Touched e ∨ p.Touched e') :
    Option.merge Line.merge ((around (File.ofText path text) e).get? p.number)
        ((around (File.ofText path text) e').get? p.number) =
      some ⟨p.text, true, if p.Touched e then e.offset - p.start else e'.offset - p.start⟩ := by
  by_cases first : p.Touched e
  · rw [get?_around_touched holds mem first, if_pos first]
    by_cases second : p.Touched e'
    · rw [get?_around_touched holds' mem second]
      simp [Line.merge]
    · rcases get?_around_untouched holds' mem second with shown | shown <;> rw [shown]
      · rfl
      · simp [Line.merge]
  · have second := touched.resolve_left first
    rw [get?_around_touched holds' mem second, if_neg first]
    rcases get?_around_untouched holds mem first with shown | shown <;> rw [shown]
    · rfl
    · simp [Line.merge]

theorem merge_untouched {e' : Element} (holds' : (File.ofText path text).Holds e')
    (first : ¬ p.Touched e) (second : ¬ p.Touched e') :
    (Option.merge Line.merge ((around (File.ofText path text) e).get? p.number)
      ((around (File.ofText path text) e').get? p.number)).filter (·.selected) = none := by
  rcases get?_around_untouched holds mem first with shown | shown <;>
    rcases get?_around_untouched holds' mem second with shown' | shown' <;>
      rw [shown, shown'] <;> rfl

end Shown

/-- The range from the start of one element to the later one of its end and the end of
another one. -/
def through (first second : Element) : Element :=
  { first with
    length :=
      max (first.offset + first.length) (second.offset + second.length) - first.offset }

section Union

variable {path text : String} {first second : Element} {p : Placed}

@[simp] theorem through_offset (first second : Element) :
    (through first second).offset = first.offset := rfl

theorem through_end (first second : Element) :
    first.offset + (through first second).length =
      max (first.offset + first.length) (second.offset + second.length) :=
  Nat.add_sub_of_le (Nat.le_trans (Nat.le_add_right ..) (Nat.le_max_left ..))

theorem File.Holds.through {file : File} (holds : file.Holds first) (holds' : file.Holds second) :
    file.Holds (through first second) := by
  have same_end := through_end first second
  refine ⟨?_, holds.inside, ?_, holds.small, holds.starts, ?_⟩
  · have nonempty := holds.nonempty
    omega
  · rw [through_offset, same_end]
    exact max_lt holds.signed holds'.signed
  · rw [through_offset, same_end, max_def]
    split
    · exact holds'.ends
    · exact holds.ends

/-- Whether an element starts in another one, at its end, or one byte further on if that end is the
line end of a line which the other one selects. -/
def File.Meets (file : File) (first second : Element) : Prop :=
  second.offset ≤ first.offset + first.length ∨
    second.offset = first.offset + first.length + 1 ∧
      ∃ r k, render? file first = some r ∧ k ∈ r.selectedLines ∧
        first.offset + first.length = file.startOf k + file.lengthOf k

theorem File.Meets.le_start (meets : (File.ofText path text).Meets first second)
    (holds : (File.ofText path text).Holds first) (mem : p ∈ (File.ofText path text).placed)
    (behind : first.offset + first.length ≤ p.start) : second.offset ≤ p.start := by
  rcases meets with inside | ⟨adjacent, r, k, rendered, among, ends⟩
  · exact Nat.le_trans inside behind
  · have laid := laid_ofText path text
    rw [eq_rendering rendered] at among
    obtain ⟨q, mem', rfl, overlaps⟩ := (mem_selectedLines_rendering laid).mp among
    rw [overlaps_iff holds.nonempty holds.signed] at overlaps
    rw [startOf_placed mem', lengthOf_placed mem', ← Placed.stop] at ends
    have starts : p.start ≤ p.stop := Nat.le_add_right ..
    rcases laid.compare mem mem' with ⟨-, before⟩ | rfl | ⟨-, after⟩ <;> omega

theorem selected_merge_rendering (holds : (File.ofText path text).Holds first)
    (holds' : (File.ofText path text).Holds second) (ordered : first.offset ≤ second.offset)
    (meets : (File.ofText path text).Meets first second) :
    let file := File.ofText path text
    ((rendering file first).merge (rendering file second)).selected =
      (rendering file (through first second)).selected := by
  intro file
  apply Rendering.selected_eq
  intro k
  rw [Rendering.get?_merge]
  simp only [rendering]
  by_cases known : ∃ p ∈ file.placed, p.number = k
  · obtain ⟨p, mem, rfl⟩ := known
    have union := holds.through holds'
    have starts : p.start ≤ p.stop := Nat.le_add_right ..
    have behind := meets.le_start holds mem
    have touched_iff : p.Touched (through first second) ↔ p.Touched first ∨ p.Touched second := by
      simp only [Placed.Touched, through_offset, through_end]
      omega
    by_cases touched : p.Touched (through first second)
    · rw [merge_touched holds mem holds' (touched_iff.mp touched),
        get?_around_touched union mem touched, through_offset]
      -- a line that only the second element touches starts behind the start of both
      have same_offset :
          (if p.Touched first then first.offset - p.start else second.offset - p.start) =
          first.offset - p.start := by
        split
        · rfl
        · next apart =>
          have other := (touched_iff.mp touched).resolve_left apart
          simp only [Placed.Touched] at apart other
          omega
      rw [same_offset]
    · obtain ⟨apart, apart'⟩ := not_or.mp (mt touched_iff.mpr touched)
      rw [merge_untouched holds mem holds' apart apart']
      rcases get?_around_untouched union mem touched with shown | shown <;> rw [shown] <;> rfl
  · have absent (p : Placed) (mem : p ∈ file.placed) : p.number ≠ k :=
      fun same => known ⟨p, mem, same⟩
    simp only [get?_around_absent absent]
    rfl

/-- The renderings of two elements that meet select together what the range from the start of the
first one to the later end selects. -/
theorem selected_merge (holds : (File.ofText path text).Holds first)
    (holds' : (File.ofText path text).Holds second) (ordered : first.offset ≤ second.offset)
    (meets : (File.ofText path text).Meets first second) :
    let file := File.ofText path text
    ∃ r s union, render? file first = some r ∧ render? file second = some s ∧
      render? file (through first second) = some union ∧ (r.merge s).selected = union.selected := by
  intro file
  exact ⟨_, _, _, holds.render?_eq, holds'.render?_eq, (holds.through holds').render?_eq,
    selected_merge_rendering holds holds' ordered meets⟩

theorem cuts_of_boundary {position : Nat} (mem : p ∈ (File.ofText path text).placed)
    (starts : p.start ≤ position) (stops : position ≤ p.stop)
    (boundary : Text.IsBoundary p.text.toList (position - p.start)) :
    (File.ofText path text).Cuts position := by
  intro k line found from_start to_stop
  obtain ⟨q, mem', rfl, same⟩ := exists_placed.mpr ⟨line, found, rfl⟩
  rw [startOf_placed mem'] at from_start to_stop ⊢
  rw [lengthOf_placed mem', ← Placed.stop] at to_stop
  rcases (laid_ofText path text).compare mem mem' with ⟨-, before⟩ | rfl | ⟨-, behind⟩
  · omega
  · rwa [← same]
  · omega

/-- The first element ends with the first line, of which it leaves out a letter of two bytes, and
the second element is the second line. -/
theorem selected_merge_lines :
    let file := File.ofText "F.sol" "é=1\nf\n\ng"
    let first : Element := { offset := 2, length := 2 }
    let second : Element := { offset := 5, length := 1 }
    file.Holds first ∧ file.Holds second ∧ first.offset ≤ second.offset ∧ file.Meets first second ∧
      ∃ r s union, render? file first = some r ∧ render? file second = some s ∧
        render? file (through first second) = some union ∧
        (r.merge s).selected = union.selected := by
  intro file first second
  have first_line : ⟨1, 0, "é=1"⟩ ∈ file.placed := by decide
  have second_line : ⟨2, 5, "f"⟩ ∈ file.placed := by decide
  have holds : file.Holds first := ⟨by decide, by decide, by decide, by decide,
    cuts_of_boundary first_line (by decide) (by decide) ⟨['é'], ['=', '1'], by decide, by decide⟩,
    cuts_of_boundary first_line (by decide) (by decide) ⟨['é', '=', '1'], [], by decide, by decide⟩⟩
  have holds' : file.Holds second := ⟨by decide, by decide, by decide, by decide,
    cuts_of_boundary second_line (by decide) (by decide) ⟨[], ['f'], by decide, by decide⟩,
    cuts_of_boundary second_line (by decide) (by decide) ⟨['f'], [], by decide, by decide⟩⟩
  have meets : file.Meets first second :=
    .inr ⟨rfl, _, 1, holds.render?_eq, by decide +kernel, by decide⟩
  exact ⟨holds, holds', by decide, meets, selected_merge holds holds' (by decide) meets⟩

end Union

end Source

end SourceStepper
