import SourceStepper.Controller.Trace
import SourceStepper.Evm.Machine

/-!
The observer that shows a controller what the machine does. It knows for every open frame whether it
creates a contract and, from its first instruction on, its code. When the session has ended, it lets
the machine run.
-/
namespace SourceStepper

structure OpenFrame where
  isCreation : Bool
  /-- The code of the frame, once an instruction of it has been seen. -/
  code : Option CodeText := none
  deriving DecidableEq, Repr

structure Moment where
  pc : Nat
  opcode : Opcode
  /-- The code as the machine executes it. -/
  code : ByteArray
  stack : List Nat
  memory : ByteArray

/-- A controller with the frames of the machine that it observes, the innermost first. -/
structure Inspector where
  controller : Controller
  frames : List OpenFrame := []
  terminated : Bool := false

namespace Inspector

def depth (i : Inspector) : Nat := i.frames.length

def openFrame (i : Inspector) (isCreation : Bool) : Inspector :=
  { i with frames := { isCreation } :: i.frames }

def closeFrame (i : Inspector) : Inspector :=
  { i with
    frames := i.frames.tail
    controller := if i.terminated then i.controller else i.controller.leaveFrame }

def signal (i : Inspector) : Evm.Signal → Inspector
  | .opened isCreation => i.openFrame isCreation
  | .closed => i.closeFrame

def stepOf (f : OpenFrame) (moment : Moment) : Step where
  pc := moment.pc
  opcode := moment.opcode
  isCreation := f.isCreation
  code := f.code
  stack := moment.stack
  memory := moment.memory

/-- The frame with its code, which is taken from the first instruction that is seen of it. -/
def OpenFrame.see (f : OpenFrame) (moment : Moment) : OpenFrame :=
  match f.code with
  | some _ => f
  | none => { f with code := some (CodeText.ofBytes moment.code.toList) }

inductive Seen
  | passed (i : Inspector)
  | parked (i : Inspector) (p : Parked)

def settle (i : Inspector) : Traced → Seen
  | .passed c => .passed { i with controller := c }
  | .ended c => .passed { i with controller := c, terminated := true }
  | .starved c => .passed { i with controller := c }
  | .parked p => .parked i p

/-- Show an instruction to the controller before it is executed. -/
def step (i : Inspector) (files : FileTree) (moment : Moment) : Seen :=
  if i.terminated then .passed i
  else
    match i.frames with
    | [] => .passed i
    | f :: outer =>
      let f := OpenFrame.see f moment
      let i := { i with frames := f :: outer }
      i.settle (i.controller.trace files (stepOf f moment))

end Inspector

end SourceStepper
