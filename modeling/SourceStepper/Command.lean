import SourceStepper.Text.Blank

namespace SourceStepper

inductive Command
  /-- Keep running. The controller tells itself so before every instruction. -/
  | execute
  /-- Stop at the instruction. -/
  | suspend
  /-- Stop at the next line, also within a function that is called. -/
  | stepInto
  /-- Stop at the next line outside of functions that are called. -/
  | stepOver
  /-- Leave the function. -/
  | stepOut
  /-- Run up to the next breakpoint. -/
  | resume
  | stop
  deriving DecidableEq, Repr

namespace Command

def all : List Command := [.execute, .suspend, .stepInto, .stepOver, .stepOut, .resume, .stop]

def name : Command → String
  | .execute => "execute"
  | .suspend => "suspend"
  | .stepInto => "stepInto"
  | .stepOver => "stepOver"
  | .stepOut => "stepOut"
  | .resume => "resume"
  | .stop => "stop"

def isStep : Command → Bool
  | .stepInto | .stepOver | .stepOut => true
  | _ => false

/-- The command of a name, where ASCII letters of either case are the same. -/
def ofName? (name : List Char) : Option Command :=
  all.find? fun c => c.name.toList.map Char.toLower = name.map Char.toLower

structure Unknown where
  text : String
  deriving DecidableEq, Repr

def Unknown.message (u : Unknown) : String := s!"Unknown debugger command: {u.text}"

def parse (text : String) : Except Unknown Command :=
  match ofName? (Text.trim text.toList) with
  | some c => .ok c
  | none => .error ⟨text⟩

end Command

/-- What an observer sees of a controller. -/
inductive Phase
  /-- The machine runs. -/
  | running
  /-- The commands for an instruction are taken from the queue. -/
  | awaitingCommand
  /-- The machine stands still at a source line. -/
  | suspended
  deriving DecidableEq, Repr

def Phase.name : Phase → String
  | .running => "running"
  | .awaitingCommand => "awaiting command"
  | .suspended => "suspended"

end SourceStepper
