import SourceStepper.Source.Rendering
import SourceStepper.SourceMap.Element

/-!
The lines around the bytes of a source map element: up to two lines in front of them, every line
that overlaps them, marked as selected, and up to two lines behind them. A line that the ends of the
element cut is put together from its parts, and a selected line knows where the selection starts.
-/
namespace SourceStepper.Source

open SourceMap (Element)

def contextLines : Nat := 2

/-- A number of a source map or a file as a signed one of 64 bits. -/
def position (n : Nat) : Int := (n : Int).bmod 0x10000000000000000

/-- What has been computed from positions. It has to be a signed number of 64 bits again: with any
other one the program fails, here and wherever there is `none` further down. -/
def checked? (n : Int) : Option Int :=
  if -0x8000000000000000 ≤ n ∧ n < 0x8000000000000000 then some n else none

structure Placed where
  number : Nat
  start : Nat
  text : String
  deriving DecidableEq, Repr

namespace Placed

def stop (line : Placed) : Nat := line.start + Text.byteLength line.text

/-- Whether the line with its end overlaps the positions between `low` and `high`, or one of these
two lies in it. -/
def meets (low high : Int) (line : Placed) : Bool :=
  let inRange (n : Nat) : Bool := low ≤ n && n ≤ high
  let inLine (n : Int) : Bool := line.start ≤ n && n ≤ line.stop
  inRange line.start || inRange line.stop || inLine low || inLine high

/-- The place in the line that is nearest to a position, which counts from the start of the line. -/
def clamp (line : Placed) (n : Int) : Nat := (max 0 (min n (Text.byteLength line.text))).toNat

def slice (line : Placed) (front back : Nat) : String :=
  if back ≤ front then ""
  else if front = 0 ∧ back = Text.byteLength line.text then line.text
  else String.ofList (Text.lossy (((Text.utf8 line.text.toList).take back).drop front))

/-- The part of the line between the positions `low` and `high`, both included. -/
def part? (low high : Int) (line : Placed) : Option String := do
  let front ← checked? (low - line.start)
  let last ← checked? (high - line.start)
  let back ← checked? (last + 1)
  return line.slice (line.clamp front) (line.clamp back)

end Placed

def placeFrom (start : Nat) : List (Nat × Line) → List Placed
  | [] => []
  | (n, line) :: rest =>
    ⟨n, start, line.text⟩ :: placeFrom (start + Text.byteLength line.text + 1) rest

def File.placed (file : File) : List Placed := placeFrom 0 file.lines.entries

/-- The parts of the lines that meet a range, with the numbers of the lines. The end of a line and
the start of the next one are computed for every line. -/
def parts? (low high : Int) : List Placed → Option (List (Nat × String))
  | [] => some []
  | line :: rest => do
    let stop ← checked? (line.start + Text.byteLength line.text)
    let part ← (if line.meets low high then
      (line.part? low high).map fun text => [(line.number, text)] else some [])
    let _ ← checked? (stop + 1)
    let parts ← parts? low high rest
    return part ++ parts

/-- The line of a part behind what is there of it; the selection starts there, unless the line is
selected already. -/
def appendSelected (text : String) : Option Line → Option Line
  | some line =>
    some ⟨line.text ++ text, true, if line.selected then line.offset else Text.byteLength line.text⟩
  | none => some ⟨text, true, 0⟩

def appendContext (text : String) : Option Line → Option Line
  | some line => some { line with text := line.text ++ text }
  | none => some ⟨text, false, 0⟩

def assemble (head body tail : List (Nat × String)) : Lines :=
  let shown := (head.reverse.take contextLines).reverse.foldl
    (fun shown (n, text) => shown.insert n ⟨text, false, 0⟩) .empty
  let shown := body.foldl (fun shown (n, text) => shown.alter n (appendSelected text)) shown
  (tail.take contextLines).foldl (fun shown (n, text) => shown.alter n (appendContext text)) shown

/-- The lines of a file around an element. -/
def locate? (file : File) (e : Element) : Option Lines := do
  let size := position file.byteLength
  let low := position e.offset
  let high ← checked? (low + position e.length)
  let beforeLow ← checked? (low - 1)
  let head ← parts? 0 beforeLow file.placed
  let beforeHigh ← checked? (high - 1)
  let body ← parts? low beforeHigh file.placed
  let tail ← parts? high size file.placed
  return assemble head body tail

def render? (file : File) (e : Element) : Option Rendering :=
  (locate? file e).map fun lines => ⟨some file.path, lines⟩

/-- The rendering of the file that an element points into; nothing if that file is not loaded. -/
def renderIn? (sources : OrderedMap Nat File) (e : Element) : Option Rendering :=
  match e.fileIndex.bind sources.get? with
  | some file => render? file e
  | none => some {}

end SourceStepper.Source
