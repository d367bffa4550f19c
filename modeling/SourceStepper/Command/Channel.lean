import SourceStepper.Command

/-!
The queue of commands between hosts and a controller. Any number of senders feed it, and the
controller, its only consumer, adds one pulse of its own for every instruction. Every command knows
where it comes from, so that a controller that waits for a host can pass over its own pulses and
keep the order of what hosts have sent. When the last sender is dropped, a `stop` follows.
-/
namespace SourceStepper

inductive Origin
  /-- The controller, on its own behalf. -/
  | harness
  | host
  deriving DecidableEq, Repr

structure Envelope where
  command : Command
  origin : Origin
  deriving DecidableEq, Repr

def Envelope.isHost (e : Envelope) : Bool := e.origin = .host

/-- What stands in the queue, the oldest first, and who can add to it. -/
structure Channel where
  queue : List Envelope := []
  /-- The senders that have not been dropped. -/
  senders : List Nat := [0]
  /-- How many senders there have been; the next one gets this number. -/
  issued : Nat := 1
  /-- Whether the consumer is still there. -/
  isOpen : Bool := true
  deriving DecidableEq, Repr

inductive SendError
  /-- There is no such sender, or it has been dropped. -/
  | noSender
  /-- The consumer is gone. -/
  | closed
  deriving DecidableEq, Repr

def SendError.message : SendError → String
  | .noSender => "no sender"
  | .closed => "command channel closed"

namespace Channel

def liveSenders (c : Channel) : Nat := c.senders.length

/-- Put an envelope behind all others, if somebody is there to take it. -/
def enqueue (c : Channel) (e : Envelope) : Channel :=
  if c.isOpen then { c with queue := c.queue ++ [e] } else c

def push (c : Channel) (command : Command) : Channel := c.enqueue ⟨command, .harness⟩

def send (c : Channel) (sender : Nat) (command : Command) : Except SendError Channel :=
  if !c.senders.contains sender then .error .noSender
  else if !c.isOpen then .error .closed
  else .ok (c.enqueue ⟨command, .host⟩)

def issue (c : Channel) : Nat × Channel :=
  (c.issued, { c with senders := c.senders ++ [c.issued], issued := c.issued + 1 })

/-- A further sender, made from one that has not been dropped. -/
def clone? (c : Channel) (sender : Nat) : Option (Nat × Channel) :=
  if c.senders.contains sender then some c.issue else none

/-- Drop a sender. With the last one, a host's `stop` enters the queue. -/
def drop? (c : Channel) (sender : Nat) : Option Channel :=
  if c.senders.contains sender then
    let c := { c with senders := c.senders.erase sender }
    some (if c.senders.isEmpty then c.enqueue ⟨.stop, .host⟩ else c)
  else none

def close (c : Channel) : Channel := { c with queue := [], isOpen := false }

/-- Take the oldest envelope; nothing to take means to wait. -/
def take? (c : Channel) : Option (Envelope × Channel) :=
  match c.queue with
  | [] => none
  | e :: rest => some (e, { c with queue := rest })

/-- Take the oldest command of a host and drop the controller's own in front of it; no command of a
host means to wait. -/
def takeFromHost? (c : Channel) : Option (Command × Channel) :=
  match c.queue.dropWhile (!·.isHost) with
  | [] => none
  | e :: rest => some (e.command, { c with queue := rest })

end Channel

end SourceStepper
