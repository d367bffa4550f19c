import Mathlib.Algebra.Ring.Nat
import Mathlib.Order.Bounds.Basic
import SourceStepper.Proofs.Source.Around
import SourceStepper.Proofs.Text.Utf8

namespace SourceStepper.Source

open SourceMap (Element)

section Maps

variable {lines : List Placed} {f : Placed → Option Line → Option Line} {p : Placed}

theorem get?_foldl_alter_absent {k : Nat} (absent : ∀ line ∈ lines, line.number ≠ k)
    (shown : Lines) :
    (lines.foldl (fun shown line => shown.alter line.number (f line)) shown).get? k =
      shown.get? k := by
  induction lines generalizing shown with
  | nil => rfl
  | cons line rest ih =>
    have other : k ≠ line.number := Ne.symm (absent line (by simp))
    rw [List.foldl_cons, ih (fun later mem => absent later (by simp [mem])), OrderedMap.get?_alter,
      if_neg other]

theorem get?_foldl_alter (distinct : lines.Pairwise (·.number < ·.number)) (mem : p ∈ lines)
    (shown : Lines) :
    (lines.foldl (fun shown line => shown.alter line.number (f line)) shown).get? p.number =
      f p (shown.get? p.number) := by
  induction lines generalizing shown with
  | nil => contradiction
  | cons line rest ih =>
    obtain ⟨below, tail⟩ := List.pairwise_cons.mp distinct
    rw [List.foldl_cons]
    rcases List.mem_cons.mp mem with rfl | among
    · rw [get?_foldl_alter_absent fun later mem => (below later mem).ne', OrderedMap.get?_alter,
        if_pos rfl]
    · rw [ih tail among, OrderedMap.get?_alter, if_neg (below p among).ne']

theorem get?_foldl_alter_sublist {all : List Placed} {n start stop : Nat}
    (laid : Laid n start all stop) (sublist : lines.Sublist all) (mem : p ∈ all) (shown : Lines) :
    (lines.foldl (fun shown line => shown.alter line.number (f line)) shown).get? p.number =
      if p ∈ lines then f p (shown.get? p.number) else shown.get? p.number := by
  split
  · next among => exact get?_foldl_alter (laid.increasing.sublist sublist) among shown
  · next absent =>
    refine get?_foldl_alter_absent (fun line among same => absent ?_) shown
    exact laid.eq_of_number (sublist.subset among) mem same ▸ among

end Maps

namespace Placed

def upTo (line : Placed) (position : Nat) : Nat :=
  min (position - line.start) (Text.byteLength line.text)

theorem meets_iff {low high : Int} (ordered : low ≤ high) (line : Placed) :
    line.meets low high = true ↔ line.start ≤ high ∧ low ≤ line.stop := by
  have nonempty : line.start ≤ line.stop := Nat.le_add_right line.start (Text.byteLength line.text)
  simp only [meets, Bool.or_eq_true, Bool.and_eq_true, decide_eq_true_eq]
  omega

/-- The part of a line between two positions, the second one excluded. -/
theorem part_eq {line : Placed} {low high : Nat} {front part back : List Char}
    (split : line.text.toList = front ++ part ++ back)
    (here : Text.byteLength (String.ofList front) = line.upTo low)
    (there : Text.byteLength (String.ofList (front ++ part)) = line.upTo high) :
    line.part low (high - 1) = String.ofList part := by
  have from_low : line.clamp (low - line.start) = line.upTo low := by
    rw [upTo, clamp]
    omega
  have to_high : line.clamp (high - 1 - line.start + 1) = line.upTo high := by
    rw [upTo, clamp]
    omega
  have text : line.text = String.ofList (front ++ part ++ back) := by
    rw [← split, String.ofList_toList]
  have length := congrArg Text.byteLength text
  simp only [Text.byteLength_append] at there length
  simp only [Placed.part, from_low, to_high, slice]
  split
  · next nothing =>
    have empty : part = [] := Text.byteLength_eq_zero (by omega)
    rw [empty]
  · split
    · next whole =>
      have no_front : front = [] := Text.byteLength_eq_zero (by omega)
      have no_back : back = [] := Text.byteLength_eq_zero (by omega)
      rw [text, no_front, no_back, List.nil_append, List.append_nil]
    · rw [← here, ← there, ← Text.byteLength_append, split, Text.lossy_slice]

/-- What stands in front of a range, in it and behind it makes up the line. -/
structure Pieces (line : Placed) (low high size : Nat) (front part back : String) : Prop where
  text : line.text = front ++ part ++ back
  front_length : Text.byteLength front = line.upTo low
  part_length : Text.byteLength front + Text.byteLength part = line.upTo high
  front_eq : line.part 0 (low - 1) = front
  part_eq : line.part low (high - 1) = part
  back_eq : line.part high size = back

theorem exists_pieces {line : Placed} {low high size : Nat} (ordered : low ≤ high)
    (first : Text.IsBoundary line.text.toList (line.upTo low))
    (second : Text.IsBoundary line.text.toList (line.upTo high))
    (inside : line.stop ≤ size) :
    ∃ front part back, Pieces line low high size front part back := by
  have starts : line.start ≤ line.stop := Nat.le_add_right ..
  have nested : line.upTo low ≤ line.upTo high := by
    rw [upTo, upTo]
    omega
  -- the piece behind the range goes up to the end of the file, which the line does not reach
  have all : line.upTo (size + 1) = Text.byteLength line.text := by
    rw [upTo]
    rw [stop] at inside
    omega
  obtain ⟨front, part, back, split, here, there⟩ := first.parts second nested
  have text : line.text = String.ofList (front ++ part ++ back) := by
    rw [← split, String.ofList_toList]
  refine ⟨String.ofList front, String.ofList part, String.ofList back, ?_, here, ?_, ?_, ?_, ?_⟩
  · simpa only [String.ofList_append] using text
  · rw [← Text.byteLength_append, there]
  · have split' : line.text.toList = [] ++ front ++ (part ++ back) := by simpa using split
    have none : Text.byteLength (String.ofList []) = line.upTo 0 := by simp [upTo, Text.byteLength]
    exact part_eq split' none here
  · exact part_eq split here there
  · have split' : line.text.toList = (front ++ part) ++ back ++ [] := by simpa using split
    have whole : Text.byteLength (String.ofList (front ++ part ++ back)) =
        line.upTo (size + 1) := by
      rw [all, text]
    simpa using part_eq split' there whole

end Placed

/-- The lines of a range of positions: the one in which the range starts, and the last one that
starts in front of its end. -/
structure Range (lines : List Placed) (low high : Nat) (first last : Placed) : Prop where
  ordered : low < high
  first_mem : first ∈ lines
  first_start : first.start ≤ low
  first_stop : low ≤ first.stop
  last_mem : last ∈ lines
  last_start : last.start < high
  last_greatest : ∀ line ∈ lines, line.start < high → line.number ≤ last.number

namespace Range

variable {lines : List Placed} {low high size : Nat} {first last p : Placed}

theorem overlaps_iff (range : Range lines low high first last) (laid : Laid 1 0 lines size)
    (mem : p ∈ lines) :
    p.start < high ∧ low ≤ p.stop ↔ first.number ≤ p.number ∧ p.number ≤ last.number := by
  have ordered := range.ordered
  have starts : p.start ≤ p.stop := Nat.le_add_right ..
  have greatest := range.last_greatest p mem
  have first_start := range.first_start
  have first_stop := range.first_stop
  have last_start := range.last_start
  rcases laid.compare mem range.first_mem with ⟨lt, before⟩ | rfl | ⟨gt, behind⟩ <;>
    rcases laid.compare mem range.last_mem with ⟨lt', before'⟩ | rfl | ⟨gt', behind'⟩ <;> omega

theorem first_le_last (range : Range lines low high first last) : first.number ≤ last.number :=
  range.last_greatest first range.first_mem (Nat.lt_of_le_of_lt range.first_start range.ordered)

/-- The lines in front of a range end with its first line, unless the range starts with that line;
an empty part of the very first line counts. -/
def lastBefore (_ : Range lines low high first last) : Nat :=
  if first.start < low ∨ low = 0 then first.number else first.number - 1

/-- The lines behind a range start with its last line, unless the range takes that line whole. -/
def firstBehind (_ : Range lines low high first last) : Nat :=
  if high ≤ last.stop then last.number else last.number + 1

theorem meets_before (range : Range lines low high first last) (laid : Laid 1 0 lines size)
    (mem : p ∈ lines) : p.meets 0 (low - 1) = true ↔ p.number < 1 + range.lastBefore := by
  have positive := laid.number_le range.first_mem
  have starts : p.start ≤ p.stop := Nat.le_add_right ..
  have first_start := range.first_start
  have first_stop := range.first_stop
  have order := laid.compare mem range.first_mem
  rw [lastBefore]
  by_cases top : low = 0
  · -- the range in front of position zero is empty, but position zero lies in a line
    rw [if_pos (.inr top)]
    simp only [Placed.meets, Bool.or_eq_true, Bool.and_eq_true, decide_eq_true_eq]
    rcases order with ⟨lt, before⟩ | rfl | ⟨gt, behind⟩ <;> omega
  · rw [Placed.meets_iff (by omega)]
    split <;> rcases order with ⟨lt, before⟩ | rfl | ⟨gt, behind⟩ <;> omega

theorem meets_behind (range : Range lines low high first last) (laid : Laid 1 0 lines size)
    (mem : p ∈ lines) : p.meets high size = true ↔ 1 + (range.firstBehind - 1) ≤ p.number := by
  have positive := laid.number_le range.last_mem
  have starts : p.start ≤ p.stop := Nat.le_add_right ..
  have inside := laid.stop_lt mem
  have greatest := range.last_greatest p mem
  have last_start := range.last_start
  have reaches : p.meets high size = true ↔ high ≤ p.stop := by
    simp only [Placed.meets, Bool.or_eq_true, Bool.and_eq_true, decide_eq_true_eq]
    omega
  rw [reaches, firstBehind]
  split <;> rcases laid.compare mem range.last_mem with ⟨lt, before⟩ | rfl | ⟨gt, behind⟩ <;> omega

theorem mem_before (range : Range lines low high first last) (laid : Laid 1 0 lines size)
    (mem : p ∈ lines) :
    p ∈ ((lines.filter (Placed.meets 0 (low - 1))).reverse.take contextLines).reverse ↔
      p.number ≤ range.lastBefore ∧ range.lastBefore < p.number + contextLines := by
  have few : range.lastBefore ≤ lines.length := by
    have := laid.number_lt range.first_mem
    rw [lastBefore]
    split <;> omega
  rw [List.filter_congr fun q among => Bool.eq_iff_iff.mpr
    ((range.meets_before laid among).trans decide_eq_true_iff.symm), laid.mem_last contextLines few]
  simp only [mem, true_and]
  omega

theorem mem_behind (range : Range lines low high first last) (laid : Laid 1 0 lines size)
    (mem : p ∈ lines) :
    p ∈ (lines.filter (Placed.meets high size)).take contextLines ↔
      range.firstBehind ≤ p.number ∧ p.number < range.firstBehind + contextLines := by
  have positive : 1 ≤ range.firstBehind := by
    have := laid.number_le range.last_mem
    rw [firstBehind]
    split <;> omega
  rw [List.filter_congr fun q among => Bool.eq_iff_iff.mpr
    ((range.meets_behind laid among).trans decide_eq_true_iff.symm), laid.mem_first]
  simp only [mem, true_and]
  omega

theorem mem_selected (range : Range lines low high first last) (laid : Laid 1 0 lines size)
    (mem : p ∈ lines) :
    p ∈ lines.filter (Placed.meets low (high - 1)) ↔
      first.number ≤ p.number ∧ p.number ≤ last.number := by
  have ordered := range.ordered
  rw [List.mem_filter, Placed.meets_iff (by omega), ← range.overlaps_iff laid mem]
  simp only [mem, true_and]
  omega

end Range

theorem empty_of_byteLength {s : String} (empty : Text.byteLength s = 0) : s = "" :=
  String.utf8ByteSize_eq_zero_iff.mp empty

theorem Placed.Pieces.length {line : Placed} {low high size : Nat} {front part back : String}
    (pieces : line.Pieces low high size front part back) :
    Text.byteLength line.text = Text.byteLength front + Text.byteLength part +
      Text.byteLength back := by
  simp only [pieces.text, Text.byteLength, String.utf8ByteSize_append]

theorem take_filter_sublist (lines : List Placed) (shown : Placed → Bool) (c : Nat) :
    ((lines.filter shown).take c).Sublist lines :=
  (List.take_sublist ..).trans List.filter_sublist

theorem reverse_take_filter_sublist (lines : List Placed) (shown : Placed → Bool) (c : Nat) :
    ((lines.filter shown).reverse.take c).reverse.Sublist lines := by
  rw [List.take_reverse, List.reverse_reverse]
  exact (List.drop_sublist ..).trans List.filter_sublist

theorem get?_around_absent {file : File} {e : Element} {k : Nat}
    (absent : ∀ p ∈ file.placed, p.number ≠ k) : (around file e).get? k = none := by
  rw [around_eq,
    get?_foldl_alter_absent fun p among => absent p ((take_filter_sublist ..).subset among),
    get?_foldl_alter_absent fun p among => absent p (List.filter_sublist.subset among),
    get?_foldl_alter_absent fun p among => absent p ((reverse_take_filter_sublist ..).subset among)]
  rfl

section Shown

variable {file : File} {e : Element} {first last p : Placed}

/-- What is shown of a line in the three steps, one for each piece of it. -/
theorem get?_around (signed : e.offset + e.length < 2 ^ 63) (small : file.byteLength + 1 < 2 ^ 63)
    (laid : Laid 1 0 file.placed file.byteLength)
    (range : Range file.placed e.offset (e.offset + e.length) first last) (mem : p ∈ file.placed) :
    let low : Int := e.offset
    let high : Int := (e.offset + e.length : Nat)
    let head : Option Line :=
      if p.number ≤ range.lastBefore ∧ range.lastBefore < p.number + contextLines then
        some ⟨p.part 0 (low - 1), false, 0⟩ else none
    let body := if first.number ≤ p.number ∧ p.number ≤ last.number then
      appendSelected (p.part low (high - 1)) head else head
    (around file e).get? p.number =
      if range.firstBehind ≤ p.number ∧ p.number < range.firstBehind + contextLines then
        appendContext (p.part high file.byteLength) body else body := by
  intro low high head body
  have sum : position e.offset + position e.length = high := by
    rw [position_eq (by omega), position_eq (by omega)]
    exact (Int.natCast_add _ _).symm
  rw [around_eq, sum, position_eq (n := e.offset) (by omega),
    position_eq (n := file.byteLength) (by omega),
    get?_foldl_alter_sublist laid (take_filter_sublist ..) mem,
    get?_foldl_alter_sublist laid List.filter_sublist mem,
    get?_foldl_alter_sublist laid (reverse_take_filter_sublist ..) mem,
    if_congr (range.mem_before laid mem) rfl rfl, if_congr (range.mem_selected laid mem) rfl rfl,
    if_congr (range.mem_behind laid mem) rfl rfl]
  rfl

variable {front part back : String} (signed : e.offset + e.length < 2 ^ 63)
  (small : file.byteLength + 1 < 2 ^ 63)
  (laid : Laid 1 0 file.placed file.byteLength)
  (range : Range file.placed e.offset (e.offset + e.length) first last) (mem : p ∈ file.placed)
  (pieces : p.Pieces e.offset (e.offset + e.length) file.byteLength front part back)

include signed small laid range mem pieces

theorem around_before (before : p.number < first.number) :
    (around file e).get? p.number =
      if first.number ≤ p.number + (if first.start < e.offset then 1 else 2) then
        some ⟨p.text, false, 0⟩
      else none := by
  have apart := laid.before mem range.first_mem before
  have length := pieces.length
  have front_length := pieces.front_length
  have first_start := range.first_start
  have first_last := range.first_le_last
  rw [Placed.upTo, Nat.min_eq_right (by rw [Placed.stop] at apart; omega)] at front_length
  -- the range starts behind the line, so there is nothing of it but the first piece
  have whole : p.text = front := by
    rw [pieces.text, empty_of_byteLength (s := part) (by omega),
      empty_of_byteLength (s := back) (by omega)]
    simp
  have not_behind :
      ¬ (range.firstBehind ≤ p.number ∧ p.number < range.firstBehind + contextLines) := by
    rw [Range.firstBehind]
    split <;> omega
  have not_selected : ¬ (first.number ≤ p.number ∧ p.number ≤ last.number) := by omega
  rw [get?_around signed small laid range mem, if_neg not_behind, if_neg not_selected,
    pieces.front_eq, whole]
  refine if_congr ?_ rfl rfl
  rw [Range.lastBefore, contextLines]
  split <;> split <;> omega

theorem around_behind (behind : last.number < p.number) :
    (around file e).get? p.number =
      if p.number ≤ last.number + (if e.offset + e.length ≤ last.stop then 1 else 2) then
        some ⟨p.text, false, 0⟩
      else none := by
  have apart : e.offset + e.length ≤ p.start := by
    by_contra starts
    have := range.last_greatest p mem (by omega)
    omega
  have length := pieces.length
  have part_length := pieces.part_length
  have first_last := range.first_le_last
  rw [Placed.upTo, Nat.sub_eq_zero_of_le apart, Nat.zero_min] at part_length
  have whole : p.text = back := by
    rw [pieces.text, empty_of_byteLength (s := front) (by omega),
      empty_of_byteLength (s := part) (by omega)]
    simp
  have not_before :
      ¬ (p.number ≤ range.lastBefore ∧ range.lastBefore < p.number + contextLines) := by
    rw [Range.lastBefore]
    split <;> omega
  have not_selected : ¬ (first.number ≤ p.number ∧ p.number ≤ last.number) := by omega
  rw [get?_around signed small laid range mem, if_neg not_before, if_neg not_selected,
    pieces.back_eq, whole]
  refine if_congr ?_ rfl rfl
  rw [Range.firstBehind, contextLines]
  split <;> omega

theorem around_selected (from_first : first.number ≤ p.number) (to_last : p.number ≤ last.number) :
    (around file e).get? p.number =
      some ⟨p.text, true, if p.number = first.number then e.offset - first.start else 0⟩ := by
  have front_length := pieces.front_length
  have part_length := pieces.part_length
  have length := pieces.length
  have first_start := range.first_start
  have first_stop := range.first_stop
  have order := laid.compare mem range.first_mem
  have order' := laid.compare mem range.last_mem
  have offset :
      Text.byteLength front = if p.number = first.number then e.offset - first.start else 0 := by
    rw [front_length, Placed.upTo]
    rcases order with ⟨lt, -⟩ | rfl | ⟨gt, behind⟩
    · omega
    · rw [if_pos rfl]
      exact Nat.min_eq_left (Nat.sub_le_iff_le_add'.mpr first_stop)
    · rw [if_neg (by omega), Nat.sub_eq_zero_of_le (by omega), Nat.zero_min]
  -- if nothing of the line is in front of the range, it does not matter whether an empty piece was
  -- shown
  have opened : appendSelected part
      (if p.number ≤ range.lastBefore ∧ range.lastBefore < p.number + contextLines then
        some ⟨front, false, 0⟩ else none) = some ⟨front ++ part, true, Text.byteLength front⟩ := by
    split
    · rfl
    · next outside =>
      have empty : front = "" := by
        apply empty_of_byteLength
        rw [offset]
        rw [Range.lastBefore, contextLines] at outside
        split <;> split at outside <;> omega
      rw [empty]
      simp [appendSelected, Text.byteLength]
  have selected : first.number ≤ p.number ∧ p.number ≤ last.number := ⟨from_first, to_last⟩
  rw [get?_around signed small laid range mem, if_pos selected, pieces.front_eq, pieces.part_eq,
    pieces.back_eq, opened, ← offset]
  split
  · rw [pieces.text]
    rfl
  · next outside =>
    have empty : back = "" := by
      apply empty_of_byteLength
      have passed : p.stop < e.offset + e.length := by
        have last_start := range.last_start
        rw [Range.firstBehind, contextLines] at outside
        rcases order' with ⟨lt, before⟩ | rfl | ⟨gt, -⟩ <;> split at outside <;> omega
      rw [Placed.upTo, Nat.min_eq_right (by rw [Placed.stop] at passed; omega)] at part_length
      omega
    rw [pieces.text, empty, String.append_empty]

end Shown

theorem exists_range {lines : List Placed} {low high size : Nat} (laid : Laid 1 0 lines size)
    (ordered : low < high) (inside : low < size) :
    ∃ first last, Range lines low high first last := by
  obtain ⟨first, first_mem, first_start, first_stop⟩ := laid.exists_at (Nat.zero_le low) inside
  -- a range that goes beyond the end of the file ends with its last line
  obtain ⟨last, last_mem, last_start, last_stop⟩ :=
    laid.exists_at (Nat.zero_le (min (high - 1) (size - 1))) (by omega)
  refine ⟨first, last, ordered, first_mem, first_start, first_stop, last_mem, by omega, ?_⟩
  intro line mem starts
  have inside := laid.stop_lt mem
  have nonempty : line.start ≤ line.stop := Nat.le_add_right ..
  rcases laid.compare mem last_mem with ⟨lt, -⟩ | rfl | ⟨-, behind⟩ <;> omega

namespace File

/-- Whether an element takes any byte of a line or the one that ends it. -/
def Covers (file : File) (e : Element) (k : Nat) : Prop :=
  file.lines.contains k ∧ ∃ position, file.startOf k ≤ position ∧
    position ≤ file.startOf k + file.lengthOf k ∧ e.offset ≤ position ∧
      position < e.offset + e.length

/-- A position is not inside of a character of the line in which it lies. -/
def Cuts (file : File) (position : Nat) : Prop :=
  ∀ k line, file.lines.get? k = some line → file.startOf k ≤ position →
    position ≤ file.startOf k + file.lengthOf k →
      Text.IsBoundary line.text.toList (position - file.startOf k)

/-- An element of at least one byte that starts in a file. All positions are signed numbers of
64 bits. -/
structure Holds (file : File) (e : Element) : Prop where
  nonempty : 1 ≤ e.length
  inside : e.offset < file.byteLength
  signed : e.offset + e.length < 2 ^ 63
  small : file.byteLength + 1 < 2 ^ 63
  starts : file.Cuts e.offset
  ends : file.Cuts (e.offset + e.length)

end File

section Exact

variable {path text : String} {e : Element} {p : Placed} {position : Nat}

theorem boundary_of_cuts (cuts : (File.ofText path text).Cuts position)
    (mem : p ∈ (File.ofText path text).placed) :
    Text.IsBoundary p.text.toList (p.upTo position) := by
  obtain ⟨line, found, same⟩ := exists_placed.mp ⟨p, mem, rfl, rfl⟩
  have here := cuts p.number line found
  rw [startOf_placed mem, lengthOf_placed mem, same] at here
  rw [Placed.upTo]
  by_cases before : position ≤ p.start
  · rw [Nat.sub_eq_zero_of_le before, Nat.zero_min]
    exact Text.isBoundary_zero _
  · by_cases within : position ≤ p.start + Text.byteLength p.text
    · rw [Nat.min_eq_left (by omega)]
      exact here (by omega) within
    · rw [Nat.min_eq_right (by omega)]
      simpa using Text.isBoundary_end p.text.toList

theorem covers_placed (mem : p ∈ (File.ofText path text).placed) (nonempty : 1 ≤ e.length) :
    (File.ofText path text).Covers e p.number ↔
      p.start < e.offset + e.length ∧ e.offset ≤ p.stop := by
  obtain ⟨line, found, -⟩ := exists_placed.mp ⟨p, mem, rfl, rfl⟩
  rw [File.Covers, startOf_placed mem, lengthOf_placed mem, ← Placed.stop]
  have nonempty : p.start ≤ p.stop := Nat.le_add_right ..
  constructor
  · rintro ⟨-, position, _⟩
    omega
  · intro _
    exact ⟨OrderedMap.contains_of_get? found, max p.start e.offset, by omega⟩

/-- The lines that an element covers are shown and selected, the first one from where the element
starts. One line in front of them is shown as well and one line behind, or two if the element starts
where its first line does, or goes beyond the text of its last line. Every line is complete. -/
theorem locate?_exact (holds : (File.ofText path text).Holds e) :
    let file := File.ofText path text
    ∃ lines n m, locate? file e = some lines ∧
      IsLeast {k | file.Covers e k} n ∧ IsGreatest {k | file.Covers e k} m ∧
      ∀ k, lines.get? k =
        if n ≤ k + (if file.startOf n < e.offset then 1 else 2) ∧
            k ≤ m + (if e.offset + e.length ≤ file.startOf m + file.lengthOf m then 1 else 2) then
          (file.lines.get? k).map fun line =>
            ⟨line.text, n ≤ k ∧ k ≤ m, if k = n then e.offset - file.startOf n else 0⟩
        else none := by
  intro file
  have laid : Laid 1 0 file.placed file.byteLength := laid_ofText path text
  have ordered : e.offset < e.offset + e.length := Nat.lt_add_of_pos_right holds.nonempty
  obtain ⟨first, last, range⟩ := exists_range laid ordered holds.inside
  have covers {p : Placed} (mem : p ∈ file.placed) :
      file.Covers e p.number ↔ first.number ≤ p.number ∧ p.number ≤ last.number :=
    (covers_placed mem holds.nonempty).trans (range.overlaps_iff laid mem)
  have bounded {k : Nat} (covered : file.Covers e k) : first.number ≤ k ∧ k ≤ last.number := by
    obtain ⟨line, found⟩ := Option.isSome_iff_exists.mp covered.1
    obtain ⟨p, mem, rfl, -⟩ := exists_placed.mpr ⟨line, found, rfl⟩
    exact (covers mem).mp covered
  refine ⟨_, first.number, last.number, locate?_of_signed laid holds.small holds.signed,
    ⟨(covers range.first_mem).mpr ⟨Nat.le_refl _, range.first_le_last⟩,
      fun k covered => (bounded covered).1⟩,
    ⟨(covers range.last_mem).mpr ⟨range.first_le_last, Nat.le_refl _⟩,
      fun k covered => (bounded covered).2⟩, fun k => ?_⟩
  rw [startOf_placed range.first_mem, startOf_placed range.last_mem, lengthOf_placed range.last_mem,
    ← Placed.stop]
  cases found : file.lines.get? k with
  | none =>
    have absent : ∀ p ∈ file.placed, p.number ≠ k := by
      rintro p mem rfl
      obtain ⟨line, found', -⟩ := exists_placed.mp ⟨p, mem, rfl, rfl⟩
      simp [found] at found'
    simp [get?_around_absent absent]
  | some line =>
    obtain ⟨p, mem, rfl, same⟩ := exists_placed.mpr ⟨line, found, rfl⟩
    obtain ⟨front, part, back, pieces⟩ := Placed.exists_pieces (Nat.le_of_lt ordered)
      (boundary_of_cuts holds.starts mem) (boundary_of_cuts holds.ends mem)
      (Nat.le_of_lt (laid.stop_lt mem))
    have first_last := range.first_le_last
    rw [Option.map_some, ← same]
    rcases Nat.lt_or_ge p.number first.number with before | from_first
    · rw [around_before holds.signed holds.small laid range mem pieces before]
      refine if_congr ⟨fun near => ⟨near, by omega⟩, And.left⟩ ?_ rfl
      simp [Nat.not_le_of_lt before, before.ne]
    · rcases Nat.lt_or_ge last.number p.number with behind | to_last
      · rw [around_behind holds.signed holds.small laid range mem pieces behind]
        refine if_congr ⟨fun near => ⟨by omega, near⟩, And.right⟩ ?_ rfl
        have not_first : p.number ≠ first.number := by omega
        simp [Nat.not_le_of_lt behind, not_first]
      · have in_front : first.number ≤ p.number + (if first.start < e.offset then 1 else 2) := by
          omega
        have behind :
            p.number ≤ last.number + (if e.offset + e.length ≤ last.stop then 1 else 2) := by omega
        rw [around_selected holds.signed holds.small laid range mem pieces from_first to_last]
        simp [in_front, behind, from_first, to_last]

end Exact

/-- An element behind a letter of two bytes takes the rest of the first line and the whole
second one. -/
theorem locate?_exact_cut_line :
    let file := File.ofText "F.sol" "é=1\nf\n\ng"
    let e : Element := { offset := 2, length := 4 }
    file.Holds e ∧ ∃ lines n m, locate? file e = some lines ∧
      IsLeast {k | file.Covers e k} n ∧ IsGreatest {k | file.Covers e k} m ∧
      lines.entries = [(1, ⟨"é=1", true, 2⟩), (2, ⟨"f", true, 0⟩), (3, ⟨"", false, 0⟩)] := by
  intro file e
  have entries : file.lines.entries =
      [(1, ⟨"é=1", false, 0⟩), (2, ⟨"f", false, 0⟩), (3, ⟨"", false, 0⟩),
        (4, ⟨"g", false, 0⟩)] := by decide
  have listed {k : Nat} {line : Line} (found : file.lines.get? k = some line) :
      (k, line) ∈ file.lines.entries := OrderedMap.mem_entries_iff.mpr found
  simp only [entries, List.mem_cons, Prod.mk.injEq, List.not_mem_nil, or_false] at listed
  have starts : file.Cuts e.offset := by
    intro k line found from_start to_stop
    rcases listed found with ⟨rfl, rfl⟩ | ⟨rfl, rfl⟩ | ⟨rfl, rfl⟩ | ⟨rfl, rfl⟩
    · exact ⟨['é'], ['=', '1'], by decide, by decide⟩
    all_goals exact absurd from_start (by decide)
  have ends : file.Cuts (e.offset + e.length) := by
    intro k line found from_start to_stop
    rcases listed found with ⟨rfl, rfl⟩ | ⟨rfl, rfl⟩ | ⟨rfl, rfl⟩ | ⟨rfl, rfl⟩
    · exact absurd to_stop (by decide)
    · exact ⟨['f'], [], by decide, by decide⟩
    all_goals exact absurd from_start (by decide)
  have holds : file.Holds e := ⟨by decide, by decide, by decide, by decide, starts, ends⟩
  obtain ⟨lines, n, m, located, least, greatest, -⟩ := locate?_exact holds
  have shown : (locate? file e).map (·.entries) =
      some [(1, ⟨"é=1", true, 2⟩), (2, ⟨"f", true, 0⟩), (3, ⟨"", false, 0⟩)] := by decide +kernel
  rw [located] at shown
  exact ⟨holds, lines, n, m, located, least, greatest, Option.some.inj shown⟩

end SourceStepper.Source
