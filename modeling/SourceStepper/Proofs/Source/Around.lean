import Mathlib.Algebra.Ring.Int.Defs
import Mathlib.Algebra.Ring.Nat
import SourceStepper.Proofs.Source.Placement

namespace SourceStepper.Source

open SourceMap (Element)

theorem position_eq {n : Nat} (small : n < 2 ^ 63) : position n = n :=
  Int.bmod_eq_of_le (by omega) (by omega)

theorem checked?_of_signed {n : Int} (low : -(2 ^ 63) ≤ n) (high : n < 2 ^ 63) :
    checked? n = some n :=
  if_pos (by omega)

theorem checked?_eq_none {n : Int} (high : 2 ^ 63 ≤ n) : checked? n = none := if_neg (by omega)

theorem eq_of_checked? {n m : Int} (fits : checked? n = some m) : m = n := by
  rw [checked?] at fits
  split at fits
  · exact (Option.some.inj fits).symm
  · contradiction

namespace Placed

/-- The part of a line between two positions, both included, by numbers of any size. -/
def part (low high : Int) (line : Placed) : String :=
  line.slice (line.clamp (low - line.start)) (line.clamp (high - line.start + 1))

variable {low high : Int} {line : Placed}

theorem eq_part {text : String} (found : line.part? low high = some text) :
    text = line.part low high := by
  simp only [part?, Option.bind_eq_bind, Option.bind_eq_some_iff] at found
  obtain ⟨front, front_eq, last, last_eq, back, back_eq, same⟩ := found
  rw [← Option.some.inj same, part, eq_of_checked? front_eq, eq_of_checked? back_eq,
    eq_of_checked? last_eq]

theorem part?_of_signed (small : line.start < 2 ^ 63 - 1) (from_zero : 0 ≤ low)
    (low_small : low < 2 ^ 63) (behind : -1 ≤ high) (high_small : high + 1 < 2 ^ 63) :
    line.part? low high = some (line.part low high) := by
  rw [part?, checked?_of_signed (by omega) (by omega), checked?_of_signed (by omega) (by omega)]
  exact congrArg (Option.bind · _) (checked?_of_signed (by omega) (by omega))

end Placed

def parts (low high : Int) (lines : List Placed) : List (Nat × String) :=
  (lines.filter (Placed.meets low high)).map fun line => (line.number, line.part low high)

section Parts

variable {low high : Int}

theorem parts_cons (line : Placed) (rest : List Placed) :
    parts low high (line :: rest) =
      (if line.meets low high then [(line.number, line.part low high)] else []) ++
        parts low high rest := by
  rw [parts, List.filter_cons]
  split <;> rfl

theorem eq_parts {lines : List Placed} {found : List (Nat × String)}
    (computed : parts? low high lines = some found) : found = parts low high lines := by
  induction lines generalizing found with
  | nil => exact (Option.some.inj computed).symm
  | cons line rest ih =>
    simp only [parts?, Option.bind_eq_bind, Option.bind_eq_some_iff] at computed
    obtain ⟨_, -, part, here, _, -, later, behind, same⟩ := computed
    rw [parts_cons, ← ih behind, ← Option.some.inj same]
    split at here
    · next meets =>
      obtain ⟨text, taken, rfl⟩ := Option.map_eq_some_iff.mp here
      rw [if_pos meets, Placed.eq_part taken]
    · next apart => rw [if_neg apart, ← Option.some.inj here]

theorem parts?_of_signed {lines : List Placed} (small : ∀ line ∈ lines, line.stop + 1 < 2 ^ 63)
    (from_zero : 0 ≤ low) (low_small : low < 2 ^ 63) (behind : -1 ≤ high)
    (high_small : high + 1 < 2 ^ 63) :
    parts? low high lines = some (parts low high lines) := by
  induction lines with
  | nil => rfl
  | cons line rest ih =>
    have here := small line List.mem_cons_self
    rw [Placed.stop] at here
    have part : line.part? low high = some (line.part low high) :=
      Placed.part?_of_signed (by omega) from_zero low_small behind high_small
    have stop : checked? (line.start + Text.byteLength line.text) = some _ :=
      checked?_of_signed (by omega) (by omega)
    have next : checked? (line.start + Text.byteLength line.text + 1) = some _ :=
      checked?_of_signed (by omega) (by omega)
    have later := ih fun other mem => small other (List.mem_cons_of_mem _ mem)
    simp only [parts?, stop, part, later, Option.bind_eq_bind, Option.bind_some, next, parts_cons]
    split <;> rfl

end Parts

/-- The lines of a file around an element, where sums may be of any size. -/
def around (file : File) (e : Element) : Lines :=
  let low := position e.offset
  let high := low + position e.length
  assemble (parts 0 (low - 1) file.placed) (parts low (high - 1) file.placed)
    (parts high (position file.byteLength) file.placed)

def rendering (file : File) (e : Element) : Rendering := ⟨some file.path, around file e⟩

section Located

variable {file : File} {e : Element}

theorem around_eq (file : File) (e : Element) :
    let low := position e.offset
    let high := low + position e.length
    let size := position file.byteLength
    around file e =
      ((file.placed.filter (Placed.meets high size)).take contextLines).foldl
        (fun shown line => shown.alter line.number (appendContext (line.part high size)))
        ((file.placed.filter (Placed.meets low (high - 1))).foldl
          (fun shown line => shown.alter line.number (appendSelected (line.part low (high - 1))))
          (((file.placed.filter (Placed.meets 0 (low - 1))).reverse.take contextLines).reverse.foldl
            (fun shown line => shown.alter line.number fun _ =>
              some ⟨line.part 0 (low - 1), false, 0⟩)
            .empty)) := by
  simp only [around, assemble, parts, ← List.map_reverse, ← List.map_take, List.foldl_map]
  rfl

theorem eq_around {lines : Lines} (located : locate? file e = some lines) :
    lines = around file e := by
  simp only [locate?, Option.bind_eq_bind, Option.bind_eq_some_iff] at located
  obtain ⟨high, high_eq, first, first_eq, head, in_front, last, last_eq, body, within, tail, behind,
    same⟩ := located
  rw [← Option.some.inj same, around, eq_parts in_front, eq_parts within, eq_parts behind,
    eq_of_checked? first_eq, eq_of_checked? last_eq, eq_of_checked? high_eq]

theorem locate?_of_signed (laid : Laid 1 0 file.placed file.byteLength)
    (small : file.byteLength + 1 < 2 ^ 63) (signed : e.offset + e.length < 2 ^ 63) :
    locate? file e = some (around file e) := by
  have inside : ∀ line ∈ file.placed, line.stop + 1 < 2 ^ 63 := fun line mem => by
    have := laid.stop_lt mem
    omega
  have high : checked? (e.offset + e.length : Int) = some _ :=
    checked?_of_signed (by omega) (by omega)
  have beforeLow : checked? (e.offset - 1 : Int) = some _ :=
    checked?_of_signed (by omega) (by omega)
  have beforeHigh : checked? (e.offset + e.length - 1 : Int) = some _ :=
    checked?_of_signed (by omega) (by omega)
  rw [locate?, around, position_eq (n := file.byteLength) (by omega),
    position_eq (n := e.offset) (by omega), position_eq (n := e.length) (by omega), high]
  simp only [beforeLow, beforeHigh, Option.bind_eq_bind, Option.bind_some]
  rw [parts?_of_signed inside (by omega) (by omega) (by omega) (by omega),
    parts?_of_signed inside (by omega) (by omega) (by omega) (by omega),
    parts?_of_signed inside (by omega) (by omega) (by omega) (by omega)]
  rfl

theorem eq_rendering {r : Rendering} (rendered : render? file e = some r) :
    r = rendering file e := by
  obtain ⟨lines, located, rfl⟩ := Option.map_eq_some_iff.mp rendered
  rw [eq_around located, rendering]

theorem render?_of_signed (laid : Laid 1 0 file.placed file.byteLength)
    (small : file.byteLength + 1 < 2 ^ 63) (signed : e.offset + e.length < 2 ^ 63) :
    render? file e = some (rendering file e) := by
  rw [render?, locate?_of_signed laid small signed, Option.map_some, rendering]

end Located

end SourceStepper.Source
