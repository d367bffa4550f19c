import SourceStepper.Controller.Trace

namespace SourceStepper

inductive HostAction
  | send (command : Command)
  | edit (change : Registry.Edit)
  deriving DecidableEq, Repr

abbrev HostAnswer := List HostAction

namespace HostAction

def isSend : HostAction → Bool
  | .send _ => true
  | .edit _ => false

def apply (c : Controller) : HostAction → Controller
  | .send command => { c with channel := c.channel.enqueue ⟨command, .host⟩ }
  | .edit change => { c with registry := c.registry.edit change }

end HostAction

/-- The answers of a host to its next stops. When they are used up, it only resumes. -/
abbrev Script := List HostAnswer

namespace Script

/-- The actions at a stop and the script for the stops behind it. An answer without a command ends
with one that resumes. -/
def next (s : Script) : HostAnswer × Script :=
  let answer := s.headD []
  (if answer.any HostAction.isSend then answer else answer ++ [.send .resume], s.tail)

/-- An upper bound for the number of commands that a host with this script can send before it
only resumes. -/
def commands (s : Script) : Nat := s.foldr (fun answer n => answer.length + 1 + n) 0

end Script

/-- Whether an instruction has been handled to its end. -/
inductive Settled
  | passed (c : Controller)
  | ended (c : Controller)
  /-- The controller waits, and its host has nothing to send. -/
  | stuck (c : Controller)

def answerStops : Nat → Script → Traced → Settled × Script × List Parked
  | _, script, .passed c => (.passed c, script, [])
  | _, script, .ended c => (.ended c, script, [])
  | _, script, .starved c => (.stuck c, script, [])
  | 0, script, .parked p => (.stuck p.controller, script, [p])
  | fuel + 1, script, .parked p =>
    let (actions, script) := script.next
    let answered := { p with controller := actions.foldl HostAction.apply p.controller }
    match answered.answer? with
    | none => (.stuck answered.controller, script, [p])
    | some traced =>
      let (settled, script, stops) := answerStops fuel script traced
      (settled, script, p :: stops)

/-- Answer stops by a script until the instruction has been handled. Every stop takes a command from
the queue or the script, so there are not more stops than commands. -/
def Traced.settle (t : Traced) (script : Script) : Settled × Script × List Parked :=
  let queued := match t with
    | .parked p => p.controller.channel.queue.length
    | _ => 0
  answerStops (queued + script.commands + 2) script t

namespace Settled

def controller : Settled → Controller
  | .passed c => c
  | .ended c => c
  | .stuck c => c

end Settled

end SourceStepper
