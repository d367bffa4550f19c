import SourceStepper.Controller.Basic

/-!
How a controller handles an instruction. It puts a pulse of its own into the queue and obeys the
commands that are queued until the pulse has been handled. A controller that stops is parked: it
goes on when a host has sent a command. While a jump skip is active, neither the queue nor anything
else is touched.
-/
namespace SourceStepper

/-- An instruction with its place, for as long as it is being handled. -/
structure Visit where
  step : Step
  location : Location

/-- What a command amounts to. -/
inductive Obeyed
  /-- The command has been carried out. -/
  | handled (c : Controller)
  /-- Execution stops at the instruction. -/
  | stops (c : Controller)
  /-- The session ends. -/
  | ends (c : Controller)

/-- A controller that has stopped and waits for a host. Its last frame belongs to the stop. -/
structure Parked where
  controller : Controller
  visit : Visit

/-- How far the handling of an instruction has come. -/
inductive Traced
  /-- The instruction can be executed. -/
  | passed (c : Controller)
  /-- The session has just ended. -/
  | ended (c : Controller)
  | parked (p : Parked)
  /-- The queue ran empty before the pulse had been handled. -/
  | starved (c : Controller)

namespace Controller

/-- Skip at a call, or else wait for a call on the line. -/
def armOrSkip (c : Controller) (v : Visit) (kind : SkipKind) : Controller :=
  if v.location.isCallJump v.step then { c with armed := none, jump := c.jump.start kind }
  else { c with armed := some kind }

/-- Whether execution stops at an instruction if nobody asks for it. -/
def shouldStop (c : Controller) (l : Location) : Bool :=
  if c.runTillNextLine then l.line ≠ c.lastSelectedLine
  else c.resumedFrom ≠ some l.line && c.registry.shouldStop l.source.path l.line

/-- The controller that goes on without a stop: on the line of the last stop, a call starts the skip
that waits for it. -/
def goOn (c : Controller) (v : Visit) : Controller :=
  if c.runTillNextLine && v.location.isCallJump v.step then
    match c.armed with
    | some kind => { c with armed := none, jump := c.jump.start kind }
    | none => c
  else c

def obey (c : Controller) (v : Visit) : Command → Obeyed
  | .execute =>
    if c.shouldStop v.location then .stops { c with runTillNextLine := false }
    else .handled (c.goOn v)
  | .suspend => .stops c
  | .stepInto => .handled c
  | .stepOver => .handled (c.armOrSkip v .stepOver)
  | .stepOut => .handled (c.armOrSkip v .stepOut)
  | .resume =>
    .handled { c with
      runTillNextLine := false
      armed := none
      resumedFrom := some v.location.line }
  | .stop => .ends { c with terminated := true, runTillNextLine := false, jump := c.jump.cancel }

/-- Stop at an instruction: the frame is recorded before a host sees that the controller
is suspended. -/
def park (c : Controller) (v : Visit) : Parked where
  controller :=
    { c.record (c.frameAt v.step v.location) with
      lastSelectedLine := v.location.line
      runTillNextLine := true
      armed := none
      phase := .suspended }
  visit := v

def leave (c : Controller) : Controller := { c with phase := .running }

/-- Obey the queued commands up to the pulse. -/
def consume (c : Controller) (v : Visit) : List Envelope → Traced
  | [] => .starved { c with channel := { c.channel with queue := [] } }
  | e :: rest =>
    match { c with channel := { c.channel with queue := rest } }.obey v e.command with
    | .handled c =>
      if e = ⟨.execute, .harness⟩ then .passed c.leave else c.consume v rest
    | .stops c => .parked (c.park v)
    | .ends c => .ended c.leave

/-- The controller at a line: the line that execution was resumed from counts until it is left. -/
def arrive (c : Controller) (l : Location) : Controller :=
  if c.resumedFrom = some l.line then c else { c with resumedFrom := none }

def passOver (c : Controller) (step : Step) : Controller :=
  if step.opcode.isJumpdest then { c with jump := c.jump.passJumpdest } else c

/-- Handle an instruction that is about to be executed. -/
def trace (c : Controller) (files : FileTree) (step : Step) : Traced :=
  if c.terminated then .passed c
  else if c.jump.isActive then .passed (c.passOver step)
  else
    let (location, c) := c.resolve files step
    let c := { c.arrive location with phase := .awaitingCommand }
    let c := { c with channel := c.channel.push .execute }
    c.consume ⟨step, location⟩ c.channel.queue

def leaveFrame (c : Controller) : Controller :=
  { c with runTillNextLine := false, armed := none, jump := c.jump.cancel }

end Controller

namespace Parked

def frame (p : Parked) : Frame := p.controller.frameAt p.visit.step p.visit.location

def line (p : Parked) : Nat := p.visit.location.line

/-- Obey the oldest command of a host; without one, the controller stays parked. The pulse of the
instruction does not count any more, so that any command but a further stop leads on. -/
def answer? (p : Parked) : Option Traced := do
  let (command, channel) ← p.controller.channel.takeFromHost?
  let c := { p.controller with channel, phase := .awaitingCommand }
  return match c.obey p.visit command with
  | .handled c => .passed c.leave
  | .stops c => .parked (c.park p.visit)
  | .ends c => .ended c.leave

end Parked

end SourceStepper
