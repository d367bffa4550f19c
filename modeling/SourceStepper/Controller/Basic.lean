import SourceStepper.Breakpoint.Registry
import SourceStepper.Command.Channel
import SourceStepper.Frame
import SourceStepper.JumpSkip
import SourceStepper.Loader

namespace SourceStepper

open SourceMap (Element)

structure Step where
  pc : Nat
  opcode : Opcode
  /-- Whether the code creates a contract. -/
  isCreation : Bool := false
  /-- The code that is executed, if it is known. -/
  code : Option CodeText := none
  /-- The operand stack, from the top on. -/
  stack : List Nat := []
  memory : ByteArray := .empty

structure Location where
  pc : Nat
  /-- What the source map says, if the instruction is mapped. -/
  element : Option Element
  /-- The lines around the executing range. -/
  source : Source.Rendering
  /-- The first selected line, and where in it the range starts; zero for both if no line
  is selected. -/
  line : Nat
  column : Nat
  mapping : Mapping

namespace Location

/-- Whether an instruction is a jump that may enter a function. One that the source map marks as
leaving a function does not. -/
def isCallJump (l : Location) (step : Step) : Bool :=
  step.opcode.isJump && l.element.map (·.jump) ≠ some .out

/-- The instruction as a line of a listing, or at least what its opcode is called. -/
def instruction (l : Location) (step : Step) : String :=
  match l.mapping.disassembly.at? l.pc with
  | some instruction => instruction.text
  | none => step.opcode.name

end Location

structure Controller where
  loader : Loader
  registry : Registry
  channel : Channel := {}
  /-- How many frames are recorded; the oldest ones are dropped first. -/
  maxFrames : Nat := 1024
  jump : JumpSkip := {}
  /-- The recorded frames, the oldest first. -/
  history : List Frame := []
  /-- What an observer sees. -/
  phase : Phase := .running
  /-- The last rendering in which a line was selected. -/
  lastGood : Option Source.Rendering := none
  /-- The line of the last stop. -/
  lastSelectedLine : Nat := 0
  /-- Whether the next stop is wherever another line is reached. -/
  runTillNextLine : Bool := false
  /-- The skip that starts at the next call on the line. -/
  armed : Option SkipKind := none
  /-- The line from which execution has been resumed, until it is left. -/
  resumedFrom : Option Nat := none
  terminated : Bool := false
  /-- Whether a number has overflowed at some instruction. There the program fails: what a
  controller does from then on, as if that instruction had no source, no one gets to see. -/
  failed : Bool := false

namespace Controller

/-- A new controller. At least one frame is recorded. -/
def ofParts (loader : Loader) (registry : Registry) (maxFrames : Nat) : Controller :=
  { loader, registry, maxFrames := max maxFrames 1 }

def mappingFor (c : Controller) (files : FileTree) (step : Step) : Mapping × Controller :=
  match step.code with
  | none => ({}, c)
  | some code =>
    let (mapping, loader) := c.loader.resolve files code step.isCreation
    (mapping, { c with loader })

def selectedRendering? (mapping : Mapping) (element : Option Element) : Option Source.Rendering :=
  (element.bind mapping.render?).filter fun r => !r.selected.isEmpty

def overflows (mapping : Mapping) (element : Option Element) : Bool :=
  element.any fun e => (mapping.render? e).isNone

/-- The place of an instruction. Where nothing is selected, the last rendering stays. -/
def resolve (c : Controller) (files : FileTree) (step : Step) : Location × Controller :=
  let (mapping, c) := c.mappingFor files step
  let element := mapping.lookup step.pc
  let good := (selectedRendering? mapping element).or c.lastGood
  let source := good.getD .placeholder
  let (line, column) := source.firstSelected
  (⟨step.pc, element, source, line, column, mapping⟩,
    { c with lastGood := good, failed := c.failed || overflows mapping element })

def frameAt (c : Controller) (step : Step) (l : Location) : Frame where
  file := l.source.path.map (Path.join c.loader.projectRoot)
  line := l.line
  column := l.column
  pc := l.pc
  opcode := l.instruction step
  values := stackValues step.stack ++ memoryValues step.memory.toList

def record (c : Controller) (frame : Frame) : Controller :=
  { c with history := c.history.drop (c.history.length + 1 - c.maxFrames) ++ [frame] }

def topFrame? (c : Controller) : Option Frame := c.history.getLast?

end Controller

end SourceStepper
