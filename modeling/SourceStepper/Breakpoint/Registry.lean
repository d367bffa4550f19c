import SourceStepper.Breakpoint
import SourceStepper.Breakpoint.PathNormalizer

/-!
The breakpoints of a session. Paths are normalized whenever they come in. A breakpoint can be
skipped, which keeps it registered but lets execution run over it.
-/
namespace SourceStepper

/-- Lines of files, by normalized path. -/
abbrev LinesByFile := OrderedMap String (OrderedMap Nat Unit)

namespace LinesByFile

def has (m : LinesByFile) (path : String) (line : Nat) : Bool := (m.get? path).any (·.contains line)

def insertLine (m : LinesByFile) (path : String) (line : Nat) : LinesByFile :=
  m.alter path fun lines => some ((lines.getD .empty).insert line ())

/-- Without a line. Its file stays, even with no line left. -/
def eraseLine (m : LinesByFile) (path : String) (line : Nat) : LinesByFile :=
  m.alter path fun lines => lines.map (·.erase line)

/-- Without the files that have no line, as far as one file is concerned. -/
def sweep (m : LinesByFile) (path : String) : LinesByFile :=
  m.alter path fun lines => lines.filter (!·.isEmpty)

def all (m : LinesByFile) : List Breakpoint :=
  m.entries.flatMap fun (path, lines) => lines.keys.map (Breakpoint.mk path)

def count (m : LinesByFile) : Nat := m.values.foldr (fun lines n => lines.size + n) 0

end LinesByFile

/-- The registered breakpoints and the skip marks, all with normalized paths. A skip mark may stand
where no breakpoint is. -/
structure Registry.Marks where
  breakpoints : LinesByFile := .empty
  skipped : LinesByFile := .empty
  deriving DecidableEq, Repr

structure Registry where
  normalizer : PathNormalizer
  marks : Registry.Marks
  deriving DecidableEq, Repr

namespace Registry

def has (r : Registry) (path : String) (line : Nat) : Bool :=
  r.marks.breakpoints.has (r.normalizer.normalize path) line

def add (r : Registry) (path : String) (line : Nat) : Bool × Registry :=
  (!r.has path line,
    { r with
      marks.breakpoints := r.marks.breakpoints.insertLine (r.normalizer.normalize path) line })

/-- Remove a breakpoint with its skip mark, and tell whether it was there. -/
def remove (r : Registry) (path : String) (line : Nat) : Bool × Registry :=
  let file := r.normalizer.normalize path
  (r.has path line,
    { r with
      marks.breakpoints := (r.marks.breakpoints.eraseLine file line).sweep file
      marks.skipped := r.marks.skipped.eraseLine file line })

def toggle (r : Registry) (path : String) (line : Nat) : Bool × Registry :=
  if r.has path line then (false, (r.remove path line).2) else r.add path line

def skip (r : Registry) (path : String) (line : Nat) : Registry :=
  { r with marks.skipped := r.marks.skipped.insertLine (r.normalizer.normalize path) line }

def unskip (r : Registry) (path : String) (line : Nat) : Registry :=
  { r with marks.skipped := r.marks.skipped.eraseLine (r.normalizer.normalize path) line }

/-- Whether execution stops at a line. If the file is not known, a breakpoint on that line of any
file counts. -/
def shouldStop (r : Registry) (path : Option String) (line : Nat) : Bool :=
  match path with
  | some path => r.has path line && !r.marks.skipped.has (r.normalizer.normalize path) line
  | none =>
    r.marks.breakpoints.entries.any fun (file, lines) =>
      lines.contains line && !r.marks.skipped.has file line

def all (r : Registry) : List Breakpoint := r.marks.breakpoints.all

def count (r : Registry) : Nat := r.marks.breakpoints.count

def clear (r : Registry) : Registry := { r with marks := {} }

inductive Edit
  | add (path : String) (line : Nat)
  | remove (path : String) (line : Nat)
  | toggle (path : String) (line : Nat)
  | skip (path : String) (line : Nat)
  | unskip (path : String) (line : Nat)
  | clear
  deriving DecidableEq, Repr

def edit (r : Registry) : Edit → Registry
  | .add path line => (r.add path line).2
  | .remove path line => (r.remove path line).2
  | .toggle path line => (r.toggle path line).2
  | .skip path line => r.skip path line
  | .unskip path line => r.unskip path line
  | .clear => r.clear

end Registry

end SourceStepper
