import SourceStepper.Source.File

namespace SourceStepper.Source

/-- Lines of a file, of which some are selected. Without a path they stand for a place that could
not be mapped to any file. -/
structure Rendering where
  path : Option String := none
  lines : Lines := .empty
  deriving DecidableEq, Repr

namespace Rendering

instance : Inhabited Rendering := ⟨{}⟩

def placeholder : Rendering :=
  { lines := OrderedMap.empty.insert 0 ⟨"No source available", false, 0⟩ }

def isPlaceholder (r : Rendering) : Bool := r.path.isNone

def isEmpty (r : Rendering) : Bool := r.lines.isEmpty

def selected (r : Rendering) : List (Nat × Line) := r.lines.entries.filter (·.2.selected)

def selectedLines (r : Rendering) : List Nat := r.selected.map Prod.fst

/-- The number of the first selected line and where in it the selection starts; zero for both if
no line is selected. -/
def firstSelected (r : Rendering) : Nat × Nat :=
  match r.selected.head? with
  | some (n, line) => (n, line.offset)
  | none => (0, 0)

def lastSelected (r : Rendering) : Nat := r.selectedLines.getLastD 0

end Rendering

/-- A line that two renderings show. It is selected if either selects it, from where the first
that does says, and has the longer of the two texts, the first one if they are equally long. -/
def Line.merge (first second : Line) : Line where
  text :=
    if Text.byteLength first.text < Text.byteLength second.text then second.text else first.text
  selected := first.selected || second.selected
  offset := if second.selected && !first.selected then second.offset else first.offset

def Rendering.merge (first second : Rendering) : Rendering where
  path := first.path.or second.path
  lines := second.lines.entries.foldl (fun lines (n, line) => lines.alter n fun
    | some former => some (former.merge line)
    | none => some line) first.lines

end SourceStepper.Source
