import SourceStepper.Text.Blank
import SourceStepper.Text.Numeral
import SourceStepper.Text.Split
import SourceStepper.OrderedMap

namespace SourceStepper

/-- A line of a source file at which execution shall stop. The first line has number one. -/
@[ext] structure Breakpoint where
  path : String
  line : Nat
  deriving DecidableEq, Repr

inductive BreakpointError
  | noColon (text : String)
  | emptyPath (text : String)
  | badLine (cause : Text.NumeralError)
  | lineZero
  deriving DecidableEq, Repr

def BreakpointError.message : BreakpointError → String
  | .noColon text => s!"Invalid breakpoint format. Expected <path>:<line>, got: {text}"
  | .emptyPath text => s!"Breakpoint path is empty: {text}"
  | .badLine cause => s!"Invalid line number: {cause.message}"
  | .lineZero => "Line numbers are 1-based, got 0"

namespace Breakpoint

def text (b : Breakpoint) : String := s!"{b.path}:{b.line}"

/-- Read a breakpoint. The last colon stands in front of the line number, so that the path may have
colons of its own. -/
def parse (text : String) : Except BreakpointError Breakpoint :=
  match Text.cutLast? ':' (Text.trim text.toList) with
  | none => .error (.noColon text)
  | some (path, line) =>
    if path.isEmpty then .error (.emptyPath text)
    else
      match Text.readNat Text.maxUnsigned (Text.trim line) with
      | .error cause => .error (.badLine cause)
      | .ok 0 => .error .lineZero
      | .ok line => .ok ⟨String.ofList path, line⟩

/-- Breakpoints are listed by path, those of one path by line. -/
instance : LT Breakpoint := ⟨fun a b => a.path < b.path ∨ (a.path = b.path ∧ a.line < b.line)⟩

theorem lt_def {a b : Breakpoint} :
    a < b ↔ a.path < b.path ∨ (a.path = b.path ∧ a.line < b.line) := Iff.rfl

end Breakpoint

end SourceStepper
