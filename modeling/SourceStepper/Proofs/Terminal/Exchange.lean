import SourceStepper.Proofs.Controller.Conservation
import SourceStepper.Proofs.Controller.History
import SourceStepper.Proofs.Terminal.Lines
import SourceStepper.Terminal.Dialogue

/-! A terminal and a controller as two parties. The commands of the terminal stand in the queue
until the controller takes them, and the stops of the controller are in flight until the terminal is
told of them. Lines are typed at any moment in between. -/
namespace SourceStepper

def Thread.isParked : Thread → Bool
  | .parked _ => true
  | _ => false

@[simp] theorem isParked_update (f : Controller → Controller) (t : Thread) :
    (t.update f).isParked = t.isParked := by cases t <;> rfl

def stopsIn (es : History) : List Visit := (es.filterMap Event.stop?).reverse.map (·.visit)

namespace Terminal

/-- What the terminal does on behalf of a line. -/
def Steering.heed (s : Steering) : Option Input → Steering × Option Command
  | some .quit => s.stop
  | some (.debug command) => s.command command
  | _ => (s, none)

theorem send_changes {c : Controller} (isOpen : c.channel.isOpen = true)
    (command : Option Command) :
    ∃ channel, send c command = { c with channel } ∧
      channel.queue = c.channel.queue ++ command.toList.map (⟨·, .host⟩) ∧
        channel.isOpen = true := by
  cases command with
  | none => exact ⟨c.channel, rfl, (List.append_nil _).symm, isOpen⟩
  | some command =>
    exact ⟨_, rfl, by simp [Channel.enqueue_open isOpen],
      by simp [Channel.enqueue_open isOpen, isOpen]⟩

theorem sayAll_steering (d : Dialogue) (lines : List String) :
    (d.sayAll lines).steering = d.steering := by
  induction lines generalizing d with
  | nil => rfl
  | cons line lines ih => exact ih (d.say line)

/-- Of all that a line does, only its command and the breakpoints that it edits reach
the controller. -/
theorem enter_steers (d : Dialogue) (c : Controller) (line : String) :
    ∃ registry, (d.enter c line).1.steering = (d.steering.heed (asked? line)).1 ∧
      (d.enter c line).2 = { send c (d.steering.heed (asked? line)).2 with registry } := by
  unfold Dialogue.enter asked?
  split
  · exact ⟨c.registry, rfl, rfl⟩
  · cases Input.parse line with
    | error e => exact ⟨c.registry, rfl, rfl⟩
    | ok input =>
      cases input with
      | quit => exact ⟨_, rfl, rfl⟩
      | debug command => exact ⟨_, rfl, rfl⟩
      | _ => exact ⟨_, sayAll_steering _ _, rfl⟩

theorem suspended_steers (d : Dialogue) (files : FileTree) (p : Parked) :
    (d.suspended files p).1.steering = d.steering.suspended.1 ∧
      (d.suspended files p).2 = send p.controller d.steering.suspended.2 := by
  have same := sayAll_steering d (stopLines files p.line p.frame ++
    (d.steering.pending.head?.map fun command => s!"> {command.name}").toList)
  rw [← same]
  exact ⟨rfl, rfl⟩

/-- A terminal, a controller, and the stops that the terminal has not been told of, the
oldest first. -/
structure Exchange where
  dialogue : Dialogue := {}
  thread : Thread
  inFlight : List Visit := []

namespace Exchange

def steering (x : Exchange) : Steering := x.dialogue.steering

def converse (f : Dialogue → Controller → Dialogue × Controller) (x : Exchange) : Exchange :=
  { x with
    dialogue := (f x.dialogue x.thread.controller).1
    thread := x.thread.update fun _ => (f x.dialogue x.thread.controller).2 }

/-- One move of an exchange, with the lines that are typed in it. The controller has no
other host. -/
inductive Move : Exchange → List String → Exchange → Prop
  | machine {x : Exchange} {es : History} {t : Thread} (move : x.thread.Move es t)
      (alone : sentCommands es = []) :
      Move x [] { x with thread := t, inFlight := x.inFlight ++ stopsIn es }
  | told {x : Exchange} {v : Visit} {later : List Visit} (files : FileTree)
      (first : x.inFlight = v :: later) :
      Move x [] ({ x with inFlight := later }.converse fun d c => d.suspended files ⟨c, v⟩)
  | typed {x : Exchange} (line : String) (isOpen : x.steering.inputClosed = false) :
      Move x [line] (x.converse fun d c => d.enter c line)
  | closed {x : Exchange} (isOpen : x.steering.inputClosed = false) :
      Move x [] (x.converse Dialogue.close)

/-- A run of an exchange, with the lines that have been typed so far. -/
inductive Run (x : Exchange) : Exchange → List String → Prop
  | start : Run x x []
  | move {y z : Exchange} {lines typed : List String} (run : Run x y lines)
      (move : y.Move typed z) : Run x z (lines ++ typed)

def fresh (loader : Loader) (registry : Registry) (maxFrames : Nat) : Exchange :=
  { thread := .fresh loader registry maxFrames }

theorem Run.append {x y z : Exchange} {lines typed : List String} (first : Run x y lines)
    (second : Run y z typed) : Run x z (lines ++ typed) := by
  induction second with
  | start => rwa [List.append_nil]
  | move _ move ih =>
    rw [← List.append_assoc]
    exact ih.move move

structure Steered (x y : Exchange) (steered : Steering × Option Command) : Prop where
  steering : y.steering = steered.1
  thread : ∃ channel registry, y.thread = x.thread.update ({ · with channel, registry }) ∧
    channel.queue = x.thread.controller.channel.queue ++ steered.2.toList.map (⟨·, .host⟩) ∧
    channel.isOpen = true

theorem converse_steered {x : Exchange} {f : Dialogue → Controller → Dialogue × Controller}
    {steered : Steering × Option Command} (isOpen : x.thread.controller.channel.isOpen = true)
    (steering : (f x.dialogue x.thread.controller).1.steering = steered.1)
    (sends : ∃ registry, (f x.dialogue x.thread.controller).2 =
      { send x.thread.controller steered.2 with registry }) : Steered x (x.converse f) steered := by
  refine ⟨steering, ?_⟩
  obtain ⟨registry, sends⟩ := sends
  obtain ⟨channel, same, queue, stays⟩ := send_changes isOpen steered.2
  refine ⟨channel, registry, ?_, queue, stays⟩
  rw [converse, sends, same]
  cases x.thread <;> rfl

theorem told_steered {x : Exchange} (isOpen : x.thread.controller.channel.isOpen = true)
    (files : FileTree) (v : Visit) (later : List Visit) :
    Steered x ({ x with inFlight := later }.converse fun d c => d.suspended files ⟨c, v⟩)
      x.steering.suspended := by
  obtain ⟨steering, sends⟩ := suspended_steers x.dialogue files ⟨x.thread.controller, v⟩
  have steered := converse_steered (x := { x with inFlight := later })
    (f := fun d c => d.suspended files ⟨c, v⟩) isOpen steering ⟨_, sends⟩
  exact ⟨steered.steering, steered.thread⟩

theorem typed_steered {x : Exchange} (isOpen : x.thread.controller.channel.isOpen = true)
    (line : String) :
    Steered x (x.converse fun d c => d.enter c line) (x.steering.heed (asked? line)) := by
  obtain ⟨registry, steering, sends⟩ := enter_steers x.dialogue x.thread.controller line
  exact converse_steered isOpen steering ⟨registry, sends⟩

theorem closed_steered {x : Exchange} (isOpen : x.thread.controller.channel.isOpen = true) :
    Steered x (x.converse Dialogue.close) x.steering.close :=
  converse_steered isOpen rfl ⟨_, rfl⟩

section Steered

variable {x y : Exchange} {steered : Steering × Option Command} (steers : Steered x y steered)

include steers

theorem Steered.isParked : y.thread.isParked = x.thread.isParked := by
  obtain ⟨_, _, thread, _⟩ := steers.thread
  rw [thread, isParked_update]

theorem Steered.terminated : y.thread.controller.terminated = x.thread.controller.terminated := by
  obtain ⟨_, _, thread, _⟩ := steers.thread
  rw [thread, Thread.controller_update]

theorem Steered.commands : y.thread.controller.channel.commands =
    x.thread.controller.channel.commands ++ steered.2.toList := by
  obtain ⟨channel, _, thread, queue, _⟩ := steers.thread
  rw [thread, Thread.controller_update]
  exact Channel.commands_of_sent queue

theorem Steered.wellformed (wellformed : x.thread.Wellformed) : y.thread.Wellformed := by
  obtain ⟨channel, _, thread, queue, isOpen⟩ := steers.thread
  rw [thread]
  exact update_wellformed wellformed (Channel.sent_tended wellformed.tended queue isOpen)
    fun _ => ⟨rfl, rfl, rfl, rfl⟩

end Steered

theorem move_keeps_wellformed {x y : Exchange} {typed : List String}
    (wellformed : x.thread.Wellformed) (move : x.Move typed y) : y.thread.Wellformed := by
  have isOpen := wellformed.tended.isOpen
  cases move with
  | machine move _ => exact move_wellformed wellformed move
  | told files first => exact (told_steered isOpen files _ _).wellformed wellformed
  | typed line _ => exact (typed_steered isOpen line).wellformed wellformed
  | closed _ => exact (closed_steered isOpen).wellformed wellformed

end Exchange

end Terminal

end SourceStepper
