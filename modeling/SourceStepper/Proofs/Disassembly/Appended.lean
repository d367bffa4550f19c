import Mathlib.Algebra.Ring.Nat
import SourceStepper.Artifact
import SourceStepper.PcIndex
import SourceStepper.Proofs.Text.Hex
import SourceStepper.Proofs.Text.Spelling
import SourceStepper.Proofs.Text.Utf8

namespace SourceStepper

open SourceMap (Element)
open Text (utf8)

namespace Groups

/-- What is put behind a group extends it and starts new ones, and leaves the earlier
groups alone. -/
theorem add_behind (last : List Char) (earlier : List (List Char)) (remaining : Nat)
    (pieces : List (List Char)) :
    ∃ more absorbed, (pieces.foldl Cut.add ⟨last :: earlier, remaining⟩).groups =
      more ++ (last ++ absorbed) :: earlier := by
  induction pieces generalizing last earlier remaining with
  | nil => exact ⟨[], [], by simp⟩
  | cons piece pieces ih =>
    rw [List.foldl_cons]
    cases remaining with
    | zero =>
      obtain ⟨more, absorbed, grown⟩ := ih piece (last :: earlier) (width piece - 1)
      refine ⟨more ++ [piece ++ absorbed], [], ?_⟩
      rw [Cut.add, grown]
      · simp
      · exact fun _ _ _ => nofun
    | succ remaining =>
      obtain ⟨more, absorbed, grown⟩ := ih (last ++ piece) earlier remaining
      exact ⟨more, piece ++ absorbed, by rw [Cut.add, grown, List.append_assoc]⟩

theorem group_append {front : List (List Char)} (notEmpty : front ≠ []) (back : List (List Char)) :
    ∃ earlier last absorbed more, group front = earlier ++ [last] ∧
      group (front ++ back) = earlier ++ (last ++ absorbed) :: more := by
  have started : ∃ last earlier remaining, front.foldl Cut.add {} =
      ⟨last :: earlier, remaining⟩ := by
    cases front with
    | nil => contradiction
    | cons piece front =>
      obtain ⟨more, absorbed, grown⟩ := add_behind piece [] (width piece - 1) front
      cases more with
      | nil => exact ⟨_, _, _, Cut.ext grown rfl⟩
      | cons last more => exact ⟨_, _, _, Cut.ext grown rfl⟩
  obtain ⟨last, earlier, remaining, cut⟩ := started
  obtain ⟨more, absorbed, grown⟩ := add_behind last earlier remaining back
  refine ⟨earlier.reverse, last, absorbed, more.reverse, ?_, ?_⟩
  · rw [group, cut, List.reverse_cons]
  · rw [group, List.foldl_append, cut, grown]
    simp

def widths (groups : List (List Char)) : Nat := (groups.map PcIndex.groupWidth).sum

@[simp] theorem widths_cons (group : List Char) (groups : List (List Char)) :
    widths (group :: groups) = PcIndex.groupWidth group + widths groups := by
  simp [widths]

theorem widths_add (cut : Cut) {piece : List Char} (wide : (utf8 piece).length = 2) :
    widths (cut.add piece).groups = widths cut.groups + 1 := by
  unfold Cut.add
  split
  · simp only [widths_cons, PcIndex.groupWidth, Text.utf8_append, List.length_append, wide]
    omega
  · simp only [widths_cons, PcIndex.groupWidth, wide]
    omega

theorem widths_group {pieces : List (List Char)}
    (wide : ∀ piece ∈ pieces, (utf8 piece).length = 2) :
    widths (group pieces) = pieces.length := by
  have total (cut : Cut) :
      widths (pieces.foldl Cut.add cut).groups = widths cut.groups + pieces.length := by
    induction pieces generalizing cut with
    | nil => rfl
    | cons piece pieces ih =>
      rw [List.forall_mem_cons] at wide
      rw [List.foldl_cons, ih wide.2, widths_add cut wide.1, List.length_cons]
      omega
  rw [group, widths, List.map_reverse, List.sum_reverse, ← widths, total]
  exact Nat.zero_add _

theorem pieces_append {front : List UInt8} (even : front.length % 2 = 0) (back : List UInt8) :
    pieces (front ++ back) = pieces front ++ pieces back := by
  induction front using pieces.induct with
  | case1 a b rest ih =>
    rw [List.cons_append, List.cons_append, pieces, pieces,
      ih (by simp only [List.length_cons] at even; omega), List.cons_append]
  | case2 a => simp at even
  | case3 => rfl

/-- Two digits make a piece of two bytes. -/
theorem pieces_pair {a b : Char} (first : (Text.hexValue? a).isSome = true)
    (second : (Text.hexValue? b).isSome = true) (rest : List Char) :
    pieces (utf8 (a :: b :: rest)) = [a, b] :: pieces (utf8 rest) := by
  obtain ⟨x, hx⟩ := Text.utf8_digit first
  obtain ⟨y, hy⟩ := Text.utf8_digit second
  have pair : Text.lossy [x, y] = [a, b] := by
    have whole := Text.lossy_utf8 [a, b]
    rwa [Text.utf8_cons, Text.utf8_cons, hx, hy] at whole
  rw [Text.utf8_cons, Text.utf8_cons, hx, hy, List.singleton_append, List.singleton_append,
    pieces, pair]

structure Bytewise (digits : List Char) : Prop where
  even : (utf8 digits).length % 2 = 0
  count : (pieces (utf8 digits)).length = digits.length / 2
  wide : ∀ piece ∈ pieces (utf8 digits), (utf8 piece).length = 2

theorem bytewise : ∀ {digits : List Char}, (∀ c ∈ digits, (Text.hexValue? c).isSome = true) →
    digits.length % 2 = 0 → Bytewise digits
  | [], _, _ => ⟨rfl, rfl, nofun⟩
  | [_], _, odd => by simp at odd
  | a :: b :: rest, digits, even => by
    simp only [List.forall_mem_cons] at digits
    obtain ⟨first, second, digits⟩ := digits
    have later : Bytewise rest := bytewise digits (by simp only [List.length_cons] at even; omega)
    obtain ⟨x, hx⟩ := Text.utf8_digit first
    obtain ⟨y, hy⟩ := Text.utf8_digit second
    have cut := pieces_pair first second rest
    have pair : (utf8 [a, b]).length = 2 := by
      rw [Text.utf8_cons, Text.utf8_cons, hx, hy]
      rfl
    refine ⟨?_, ?_, ?_⟩
    · have := later.even
      rw [Text.utf8_cons, Text.utf8_cons, hx, hy]
      simp only [List.singleton_append, List.length_cons]
      omega
    · have := later.count
      rw [cut]
      simp only [List.length_cons]
      omega
    · rw [cut, List.forall_mem_cons]
      exact ⟨pair, later.wide⟩

end Groups

namespace PcIndex

theorem buildFrom_append (pc : Nat) (elements : List Element) (front back : List (List Char)) :
    buildFrom pc elements (front ++ back) =
      buildFrom pc elements front ++ buildFrom (pc + Groups.widths front)
      (elements.drop front.length) back := by
  induction front generalizing pc elements with
  | nil => cases elements <;> cases back <;> rfl
  | cons group front ih =>
    cases elements with
    | nil => simp [buildFrom]
    | cons e elements =>
      rw [List.cons_append, buildFrom, ih, buildFrom, List.cons_append, List.length_cons,
        List.drop_succ_cons, Groups.widths_cons, Nat.add_assoc]

theorem lookup_buildFrom_before {pc start : Nat} (before : pc < start) (elements : List Element)
    (groups : List (List Char)) : (buildFrom start elements groups).lookup pc = none := by
  induction groups generalizing start elements with
  | nil => cases elements <;> rfl
  | cons group groups ih =>
    cases elements with
    | nil => rfl
    | cons e elements =>
      have elsewhere : (pc == start) = false := by simpa using Nat.ne_of_lt before
      rw [buildFrom, List.lookup_cons, elsewhere]
      exact ih (Nat.lt_of_lt_of_le before (Nat.le_add_right ..)) elements

theorem groupWidth_le (last absorbed : List Char) :
    groupWidth last ≤ groupWidth (last ++ absorbed) := by
  rw [groupWidth, groupWidth, Text.utf8_append, List.length_append]
  omega

/-- Below the end of the groups in front, the elements do not depend on what is appended to the last
of them and behind it. -/
theorem lookup_build_extended (elements : List Element) (earlier : List (List Char))
    (last absorbed : List Char) (more : List (List Char)) {pc : Nat}
    (within : pc < Groups.widths (earlier ++ [last])) :
    (build elements (earlier ++ (last ++ absorbed) :: more)).lookup pc =
      (build elements (earlier ++ [last])).lookup pc := by
  rw [build, build, lookup, lookup, buildFrom_append, buildFrom_append, List.lookup_append,
    List.lookup_append, Nat.zero_add]
  congr 1
  have stop : Groups.widths (earlier ++ [last]) = Groups.widths earlier + groupWidth last := by
    simp [Groups.widths]
  have wider := groupWidth_le last absorbed
  cases elements.drop earlier.length with
  | nil => rfl
  | cons e elements =>
    rw [buildFrom, buildFrom, List.lookup_cons, List.lookup_cons,
      lookup_buildFrom_before (by omega), lookup_buildFrom_before (by omega)]

end PcIndex

/-- The text of whole bytes, in digits of either case; an `0x` can stand in front of them. -/
structure HexText (mark digits : List Char) : Prop where
  marks : mark = [] ∨ mark = ['0', 'x']
  hex : ∀ c ∈ digits, (Text.hexValue? c).isSome = true
  even : digits.length % 2 = 0

namespace HexText

variable {mark digits : List Char}

theorem dropHexMark (text : HexText mark digits) (notEmpty : digits ≠ []) (tail : List Char) :
    Text.dropHexMark (mark ++ digits ++ tail) = digits ++ tail := by
  rcases text.marks with rfl | rfl
  · match digits, notEmpty, text.hex, text.even with
    | [_], _, _, odd => simp at odd
    | a :: b :: rest, _, hex, _ =>
      have noMark : b ≠ 'x' := by
        rintro rfl
        exact absurd (hex 'x' (by simp)) (by decide)
      simp [Text.dropHexMark, Text.dropPrefix?, noMark.symm]
  · rfl

theorem trim (text : HexText mark digits) (notEmpty : digits ≠ []) (tail : List Char) :
    Text.trim (mark ++ digits ++ tail) = mark ++ digits ++ Text.trimEnd tail := by
  have last : ∀ c ∈ (mark ++ digits).getLast?, Text.isBlank c = false := by
    intro c back
    rw [List.getLast?_append, List.getLast?_eq_some_getLast notEmpty, Option.some_or] at back
    obtain rfl := Option.some.inj back
    exact Text.digit_notBlank (text.hex _ (List.getLast_mem notEmpty))
  have first : ∀ c ∈ (mark ++ digits ++ tail).head?, Text.isBlank c = false := by
    intro c front
    rcases text.marks with rfl | rfl
    · cases digits with
      | nil => contradiction
      | cons =>
        cases front
        exact Text.digit_notBlank (text.hex c (List.mem_cons_self ..))
    · cases front
      rfl
  have start : ([] ++ (mark ++ digits ++ tail)).dropWhile Text.isBlank = mark ++ digits ++ tail :=
    Text.dropWhile_blanks nofun first
  rw [List.nil_append] at start
  rw [Text.trim, Text.trimStart, start, Text.trimEnd_append last]

theorem normalHex (text : HexText mark digits) (notEmpty : digits ≠ []) (tail : List Char) :
    Text.normalHex (mark ++ digits ++ tail) =
      digits.map Char.toLower ++ (Text.trimEnd tail).map Char.toLower := by
  rw [Text.normalHex, text.trim notEmpty, text.dropHexMark notEmpty, List.map_append]

end HexText

theorem Contract.matchesCode_longer {c : Contract} {code longer : CodeText}
    (front : code.digits.toList <+: longer.digits.toList) (fits : c.matchesCode code = true) :
    c.matchesCode longer = true := by
  rw [matchesCode, List.any_eq_true] at fits ⊢
  obtain ⟨own, listed, starts⟩ := fits
  rw [CodeText.startsWith, List.isPrefixOf_iff_prefix] at starts
  refine ⟨own, listed, ?_⟩
  rw [CodeText.startsWith, List.isPrefixOf_iff_prefix]
  exact starts.trans front

theorem HexText.ofText_append {mark digits : List Char} (text : HexText mark digits)
    (tail : List Char) :
    (CodeText.ofText (String.ofList (mark ++ digits))).digits.toList <+:
      (CodeText.ofText (String.ofList (mark ++ digits ++ tail))).digits.toList := by
  simp only [CodeText.ofText, String.toList_ofList]
  by_cases empty : digits = []
  · subst empty
    have nothing : Text.normalHex (mark ++ []) = [] := by
      rcases text.marks with rfl | rfl <;> rfl
    rw [nothing]
    exact List.nil_prefix
  · have whole := text.normalHex empty []
    rw [List.append_nil] at whole
    rw [whole, text.normalHex empty tail, Text.trimEnd]
    simp

theorem appended_keeps_mapping {mark digits : List Char} (text : HexText mark digits)
    (appended : List Char) :
    (∀ (elements : List Element) (pc : Nat), pc < digits.length / 2 →
      (PcIndex.build elements (Groups.ofHex (mark ++ digits ++ appended))).lookup pc =
        (PcIndex.build elements (Groups.ofHex (mark ++ digits))).lookup pc) ∧
    ∀ contract : Contract,
      (contract.matchesCode ⟨String.ofList (mark ++ digits)⟩ = true →
        contract.matchesCode ⟨String.ofList (mark ++ digits ++ appended)⟩ = true) ∧
      (contract.matchesCode (.ofText (String.ofList (mark ++ digits))) = true →
        contract.matchesCode (.ofText (String.ofList (mark ++ digits ++ appended))) = true) := by
  refine ⟨fun elements pc within => ?_, fun contract => ⟨fun fits => ?_, fun fits => ?_⟩⟩
  · have notEmpty : digits ≠ [] := by
      rintro rfl
      exact absurd within (Nat.not_lt_zero pc)
    have cut := Groups.bytewise text.hex text.even
    have somePieces : Groups.pieces (utf8 digits) ≠ [] := by
      intro none
      have := cut.count
      rw [none] at this
      exact absurd within (by simp only [List.length_nil] at this; omega)
    have plain := text.dropHexMark notEmpty []
    rw [List.append_nil, List.append_nil] at plain
    obtain ⟨earlier, last, absorbed, more, own, longer⟩ :=
      Groups.group_append somePieces (Groups.pieces (utf8 appended))
    have total := Groups.widths_group cut.wide
    rw [Groups.ofHex, Groups.ofHex, text.dropHexMark notEmpty, plain, Text.utf8_append,
      Groups.pieces_append cut.even, longer, own]
    refine PcIndex.lookup_build_extended elements earlier last absorbed more ?_
    rwa [← own, total, cut.count]
  · refine contract.matchesCode_longer ?_ fits
    simp
  · exact contract.matchesCode_longer (text.ofText_append appended) fits

/-- The data that a last PUSH lacks is taken from what is appended, and its element stays. -/
theorem truncated_push_keeps_element :
    Groups.ofHex "61aa".toList = ["61aa".toList] ∧
      Groups.ofHex "61aabb5b".toList = ["61aabb".toList, "5b".toList] ∧
      (PcIndex.build [{ offset := 3 }, { offset := 7 }] (Groups.ofHex "61aabb5b".toList)).lookup 0 =
        (PcIndex.build [{ offset := 3 }, { offset := 7 }]
          (Groups.ofHex "61aa".toList)).lookup 0 := by
  have digits : "61aa".toList.all (fun c => (Text.hexValue? c).isSome) = true := by decide
  have text : HexText [] "61aa".toList := ⟨.inl rfl, List.all_eq_true.mp digits, rfl⟩
  refine ⟨by decide +kernel, by decide +kernel, ?_⟩
  exact (appended_keeps_mapping text "bb5b".toList).1 _ 0 (by decide)

end SourceStepper
