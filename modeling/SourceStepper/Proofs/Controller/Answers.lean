import SourceStepper.Host
import SourceStepper.Proofs.Controller.Run

namespace SourceStepper

def HostAction.command? : HostAction → Option Command
  | .send command => some command
  | .edit _ => none

def Parked.after (p : Parked) (actions : List HostAction) : Parked :=
  { p with controller := actions.foldl HostAction.apply p.controller }

/-- The controller behind an instruction that has been handled to its end. -/
def Traced.returned? : Traced → Option Controller
  | .passed c => some c
  | .ended c => some c
  | .parked _ => none
  | .starved _ => none

/-- How far an instruction has come when hosts have answered `n` stops, the first one by `answers
0`. Nothing, if the controller still waits at one of them. -/
def Traced.answered? : (Nat → HostAnswer) → Nat → Traced → Option Traced
  | answers, n + 1, .parked p =>
    (p.after (answers 0)).answer?.bind (answered? (fun i => answers (i + 1)) n)
  | _, _, t => some t

def Traced.Returns (t : Traced) (answers : Nat → HostAnswer) : Prop :=
  ∃ n u c, t.answered? answers n = some u ∧ u.returned? = some c

theorem apply_changes (c : Controller) (actions : List HostAction) :
    ∃ channel registry, actions.foldl HostAction.apply c = { c with channel, registry } := by
  induction actions generalizing c with
  | nil => exact ⟨_, _, rfl⟩
  | cons action actions ih =>
    obtain ⟨_, _, same⟩ := ih (HostAction.apply c action)
    rw [List.foldl_cons, same]
    cases action <;> exact ⟨_, _, rfl⟩

theorem apply_queue (c : Controller) (isOpen : c.channel.isOpen = true)
    (actions : List HostAction) :
    (actions.foldl HostAction.apply c).channel.queue =
        c.channel.queue ++ (actions.filterMap HostAction.command?).map (⟨·, .host⟩) ∧
      (actions.foldl HostAction.apply c).channel.isOpen = true := by
  induction actions generalizing c with
  | nil => exact ⟨(List.append_nil _).symm, isOpen⟩
  | cons action actions ih =>
    cases action with
    | edit change => exact ih _ isOpen
    | send command =>
      have sent : (HostAction.apply c (.send command)).channel =
          { c.channel with queue := c.channel.queue ++ [⟨command, .host⟩] } :=
        Channel.enqueue_open isOpen _
      have later := ih (HostAction.apply c (.send command)) (by rw [sent]; exact isOpen)
      rw [List.foldl_cons, later.1, sent]
      exact ⟨by simp [HostAction.command?], later.2⟩

theorem commands_after {p : Parked} (isOpen : p.controller.channel.isOpen = true)
    (actions : List HostAction) :
    (p.after actions).controller.channel.commands =
      p.controller.channel.commands ++ actions.filterMap HostAction.command? :=
  Channel.commands_of_sent (apply_queue p.controller isOpen actions).1

theorem after_wellformed {p : Parked} (wellformed : (Thread.parked p).Wellformed)
    (actions : List HostAction) : (Thread.parked (p.after actions)).Wellformed := by
  obtain ⟨queue, isOpen⟩ := apply_queue p.controller wellformed.tended.isOpen actions
  have tended := Channel.sent_tended wellformed.tended queue isOpen
  obtain ⟨channel, registry, same⟩ := apply_changes p.controller actions
  have updated : Thread.parked (p.after actions) =
      (Thread.parked p).update fun c => { c with channel, registry } := by
    rw [Thread.update, ← same, Parked.after]
  rw [updated]
  rw [same] at tended
  exact update_wellformed wellformed tended fun _ => ⟨rfl, rfl, rfl, rfl⟩

/-- A parked controller obeys the oldest command of a host. Unless that is a `suspend`, which stops
it once more at the instruction, the instruction has been handled. -/
theorem answer?_cases {p : Parked} (wellformed : (Thread.parked p).Wellformed) {command : Command}
    {later : List Command} (first : p.controller.channel.commands = command :: later) :
    ∃ t, p.answer? = some t ∧
      ((∃ d, t.returned? = some d) ∨
        command = .suspend ∧ ∃ q, t = .parked q ∧ (Thread.parked q).Wellformed ∧
          q.controller.channel.commands = later) := by
  obtain ⟨channel, taken, rest⟩ := Channel.takeFromHost?_first first
  have answer := answer?_eq taken
  cases obeyed :
    ({ p.controller with channel, phase := .awaitingCommand } : Controller).obey p.visit
      command with
  | handled d =>
    rw [obeyed] at answer
    exact ⟨_, answer, .inl ⟨_, rfl⟩⟩
  | ends d =>
    rw [obeyed] at answer
    exact ⟨_, answer, .inl ⟨_, rfl⟩⟩
  | stops d =>
    rw [obeyed] at answer
    have sameChannel :=
      Controller.channel_obey { p.controller with channel, phase := .awaitingCommand }
      p.visit command
    rw [obeyed] at sameChannel
    refine ⟨_, answer, .inr ⟨?_, d.park p.visit, rfl, ?_, ?_⟩⟩
    · rcases Controller.obey_eq_stops.mp obeyed with ⟨suspend, _⟩ | ⟨_, stops, _⟩
      · exact suspend
      · -- A pulse of a host stops nowhere: the controller is on the line of its last stop.
        obtain ⟨stepping, _, here⟩ := wellformed.stopped p rfl
        exact absurd here.symm ((Controller.shouldStop_stepping (by exact stepping) _).mp stops)
    · have moved := move_wellformed wellformed (.dispatch (.answer taken))
      rw [obeyed] at moved
      exact moved
    · exact (congrArg Channel.commands sameChannel).trans rest

/-- The answer to a stop leads to the end, or it is a `suspend` and what comes behind it does. -/
theorem stop_returns {p : Parked} (wellformed : (Thread.parked p).Wellformed)
    {answers : Nat → HostAnswer} {command : Command} {later : List Command}
    (first : p.controller.channel.commands ++ (answers 0).filterMap HostAction.command? =
      command :: later)
    (again : ∀ q, command = .suspend → (Thread.parked q).Wellformed →
      q.controller.channel.commands = later →
        (Traced.parked q).Returns fun i => answers (i + 1)) :
    (Traced.parked p).Returns answers := by
  rw [← commands_after wellformed.tended.isOpen] at first
  obtain ⟨t, answer, behind⟩ := answer?_cases (after_wellformed wellformed (answers 0)) first
  have later : t.Returns fun i => answers (i + 1) := by
    rcases behind with ⟨d, returned⟩ | ⟨suspend, q, rfl, stays, commands⟩
    · exact ⟨0, t, d, by cases t <;> rfl, returned⟩
    · exact again q suspend stays commands
  obtain ⟨n, u, d, answered, returned⟩ := later
  exact ⟨n + 1, u, d, by rw [Traced.answered?, answer, Option.bind_some, answered], returned⟩

end SourceStepper
