import SourceStepper.Command

/-!
Which typed commands are sent, and when. Commands that are typed while the machine runs wait for the
stops to come, one for each stop; only those to suspend and to end the session do not wait. Whatever
happens, at most one command is sent.
-/
namespace SourceStepper.Terminal

structure Steering where
  /-- Whether the last stop still waits for a command. -/
  parked : Bool := false
  /-- Commands that wait for a stop, the oldest first. -/
  pending : List Command := []
  inputClosed : Bool := false
  /-- Whether the end of the session has been asked for. -/
  stopping : Bool := false
  deriving DecidableEq, Repr

namespace Steering

/-- End the session; once more, this sends nothing. -/
def stop (s : Steering) : Steering × Option Command :=
  if s.stopping then (s, none) else ({ s with stopping := true, pending := [] }, some .stop)

def command (s : Steering) (command : Command) : Steering × Option Command :=
  if command = .suspend then (s, some command)
  else if s.parked then ({ s with parked := false }, some command)
  else ({ s with pending := s.pending ++ [command] }, none)

/-- The machine has stopped. The oldest command that waits is sent; without one, the session ends if
the input has ended. -/
def suspended (s : Steering) : Steering × Option Command :=
  match s.pending with
  | command :: rest => ({ s with parked := false, pending := rest }, some command)
  | [] =>
    let s := { s with parked := true }
    if s.inputClosed then s.stop else (s, none)

/-- The input has ended. A machine that stands still would wait for ever, so the session ends. -/
def close (s : Steering) : Steering × Option Command :=
  let s := { s with inputClosed := true }
  if s.parked && s.pending.isEmpty then s.stop else (s, none)

end Steering

end SourceStepper.Terminal
