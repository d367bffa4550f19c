import SourceStepper.Proofs.Terminal.Pairing

/-! The end of the input. A terminal that has been told of every stop knows when the machine stands
still, and does not leave it waiting for a line that cannot come any more. -/
namespace SourceStepper.Terminal.Exchange

variable {x y : Exchange}

def Awaits (x : Exchange) : Prop :=
  x.thread.isParked = true ∧ x.thread.controller.channel.commands = []

/-- A terminal that has been told of every stop knows of the one that waits for it, has nothing in
hand that it could send, and can still be typed at. -/
def Minded (x : Exchange) : Prop :=
  x.Awaits → x.inFlight = [] →
    x.steering.parked = true ∧ x.steering.pending = [] ∧ x.steering.inputClosed = false

theorem Awaits.live (awaits : x.Awaits) (wellformed : x.thread.Wellformed) :
    x.thread.controller.terminated = false := by
  apply wellformed.live
  have parked := awaits.1
  cases thread : x.thread with
  | parked p => rfl
  | _ => simp [thread, Thread.isParked] at parked

theorem Awaits.going (awaits : x.Awaits) (wellformed : x.thread.Wellformed)
    (due : x.steering.stopping = true → x.StopDue) : x.steering.stopping = false := by
  cases stopping : x.steering.stopping with
  | false => rfl
  | true =>
    rcases due stopping with terminated | queued
    · rw [awaits.live wellformed] at terminated
      contradiction
    · have command := Channel.mem_commands.mpr queued
      simp [awaits.2] at command

theorem Steered.awaits {steered : Steering × Option Command} (steers : Steered x y steered)
    (awaits : y.Awaits) : x.Awaits ∧ steered.2 = none := by
  obtain ⟨parked, silent⟩ := awaits
  rw [steers.commands] at silent
  rw [steers.isParked] at parked
  have both := List.append_eq_nil_iff.mp silent
  exact ⟨⟨parked, both.1⟩, by simpa using both.2⟩

theorem stop_sends {s : Steering} (going : s.stopping = false) : s.stop.2 = some .stop := by
  simp [Steering.stop, going]

theorem suspended_silent {s : Steering} (going : s.stopping = false)
    (silent : s.suspended.2 = none) :
    s.suspended.1.parked = true ∧ s.suspended.1.pending = [] ∧
      s.suspended.1.inputClosed = false := by
  unfold Steering.suspended at silent ⊢
  cases pending : s.pending with
  | cons command later => simp [pending] at silent
  | nil =>
    cases closed : s.inputClosed with
    | false => simp
    | true => simp [pending, closed, Steering.stop, going] at silent

theorem heed_silent {s : Steering} {asked : Option Input} (going : s.stopping = false)
    (parked : s.parked = true) (silent : (s.heed asked).2 = none) : (s.heed asked).1 = s := by
  cases asked with
  | none => rfl
  | some input =>
    cases input with
    | quit => simp [Steering.heed, stop_sends going] at silent
    | debug command =>
      simp only [Steering.heed, Steering.command, parked, if_true] at silent
      split at silent <;> contradiction
    | _ => rfl

theorem close_sends {s : Steering} (going : s.stopping = false) (parked : s.parked = true)
    (pending : s.pending = []) : s.close.2 = some .stop := by
  simp [Steering.close, parked, pending, Steering.stop, going]

theorem machine_minded {es : History} (wellformed : x.thread.Wellformed)
    (move : x.thread.Move es y.thread) (alone : sentCommands es = [])
    (dialogue : y.dialogue = x.dialogue) (flight : y.inFlight = x.inFlight ++ stopsIn es)
    (minded : x.Minded) : y.Minded := by
  intro awaits told
  rw [flight, List.append_eq_nil_iff] at told
  have live := awaits.live (move_wellformed wellformed move)
  rcases machine_due wellformed.tended.isOpen move alone live with ⟨same, stops⟩ |
    ⟨_, _, _, stops, _⟩
  · have before : x.thread.isParked = true := by simpa [told.2, awaits.1] using stops
    rw [steering, dialogue]
    exact minded ⟨before, same.symm.trans awaits.2⟩ told.1
  · simp [told.2, awaits.1] at stops

theorem move_minded {lines typed : List String} (tracked : x.Tracked lines) (minded : x.Minded)
    (move : x.Move typed y) : y.Minded := by
  have isOpen := tracked.wellformed.tended.isOpen
  have going (awaits : x.Awaits) := awaits.going tracked.wellformed tracked.stopping
  -- whatever the terminal does, a controller that awaits behind it has awaited in front of it
  cases move with
  | machine move alone => exact machine_minded tracked.wellformed move alone rfl rfl minded
  | @told v later files first =>
    have steers := told_steered isOpen files v later
    intro awaits _
    obtain ⟨before, silent⟩ := steers.awaits awaits
    rw [steers.steering]
    exact suspended_silent (going before) silent
  | typed line _ =>
    have steers := typed_steered isOpen line
    intro awaits told
    obtain ⟨before, silent⟩ := steers.awaits awaits
    have knows := minded before told
    rw [steers.steering, heed_silent (going before) knows.1 silent]
    exact knows
  | closed _ =>
    have steers := closed_steered isOpen
    intro awaits told
    obtain ⟨before, silent⟩ := steers.awaits awaits
    have knows := minded before told
    rw [close_sends (going before) knows.1 knows.2.1] at silent
    contradiction

theorem run_minded {loader : Loader} {registry : Registry} {maxFrames : Nat} {lines : List String}
    (run : Run (fresh loader registry maxFrames) x lines) : x.Minded := by
  induction run with
  | start =>
    rintro ⟨parked, _⟩
    contradiction
  | move run move ih => exact move_minded (run_tracked run) ih move

/-- Whatever lines are typed in front of the end of the input, and however terminal and machine take
turns: once the terminal has seen the end and has been told of every stop, a parked controller has a
command to take. -/
theorem end_of_input_strands_nobody {loader : Loader} {registry : Registry} {maxFrames : Nat}
    {lines : List String} (run : Run (fresh loader registry maxFrames) x lines)
    (closed : x.steering.inputClosed = true) (told : x.inFlight = []) :
    ∀ p, x.thread = .parked p → p.controller.channel.commands ≠ [] := by
  intro p parked silent
  have awaits : x.Awaits := by simp [Awaits, parked, Thread.isParked, Thread.controller, silent]
  have isOpen := (run_minded run awaits told).2.2
  rw [closed] at isOpen
  contradiction

theorem told_last {p : Parked} (parked : x.thread = .parked p) (stands : p.Stands [])
    (idle : x.steering.pending = [] ∧ x.steering.inputClosed = false)
    (one : x.inFlight.length = 1) :
    ∃ y q, Run x y [] ∧ y.thread = .parked q ∧ q.Stands [] ∧ y.inFlight = [] ∧
      y.steering = { x.steering with parked := true } := by
  obtain ⟨v, first⟩ := List.length_eq_one_iff.mp one
  obtain ⟨y, told, steers, flight⟩ := told_move (by rw [parked]; exact stands.isOpen) first
  have waits : x.steering.suspended = ({ x.steering with parked := true }, none) := by
    simp [Steering.suspended, idle]
  rw [waits] at steers
  obtain ⟨q, parked, _, stands⟩ := steers.stands parked stands
  exact ⟨y, q, told, parked, stands, flight, steers.steering⟩

/-- The pause answers the stop at the breakpoint, so that the terminal is told of two stops before
the input ends. -/
theorem end_of_input_behind_pause :
    ∃ x p, Run atFirstLine x ["p"] ∧ x.steering.inputClosed = true ∧ x.inFlight = [] ∧
      x.thread = .parked p ∧ p.controller.channel.commands ≠ [] := by
  obtain ⟨x, _, stopped, parked, stands, fresh, one⟩ := first_line_stops
  obtain ⟨y, _, told, parked, stands, none, steering⟩ :=
    told_last parked stands (by rw [fresh]; exact ⟨rfl, rfl⟩) one
  rw [fresh] at steering
  have pause : y.steering.heed (asked? "p") = (y.steering, some .suspend) := by
    rw [show asked? "p" = some (.debug .suspend) by decide +kernel]
    rfl
  have typed := Run.start.move (x := y) (.typed "p" (by rw [steering]))
  have steers := typed_steered (x := y) (by rw [parked]; exact stands.isOpen) "p"
  rw [pause] at steers
  obtain ⟨_, parked, _, stands⟩ := steers.stands parked stands
  obtain ⟨z, _, stops, again, parked, stands, still, flight, one⟩ :=
    pauses_answered parked stands (by simp)
  rw [steers.steering, steering] at still
  have two : z.inFlight.length = 1 := by
    rw [flight, List.length_append, one]
    exact congrArg (·.length + 1) none
  obtain ⟨x, q, last, parked, stands, all, steering⟩ :=
    told_last parked stands (by rw [still]; exact ⟨rfl, rfl⟩) two
  have closed := Run.start.move (x := x) (.closed (by rw [steering, still]))
  have steers := closed_steered (x := x) (by rw [parked]; exact stands.isOpen)
  obtain ⟨r, parked, _, _⟩ := steers.stands parked stands
  have ends : (x.converse Dialogue.close).steering.inputClosed = true := by
    rw [steers.steering, steering, still]
    rfl
  have run := ((((stopped.append told).append typed).append again).append last).append closed
  exact ⟨_, r, run, ends, all, parked, end_of_input_strands_nobody run ends all r parked⟩

end SourceStepper.Terminal.Exchange
