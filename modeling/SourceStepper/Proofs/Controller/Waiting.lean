import SourceStepper.Proofs.Controller.Answers
import SourceStepper.Proofs.Controller.History

/-! Where the thread of the machine can stand still. As long as the pulse of an instruction has not
been handled it is in the queue, so that there is always something to take; a parked controller has
told its hosts, and waits only while none of them has sent a command. -/
namespace SourceStepper

/-- A thread that handles an instruction and has nothing to take. -/
def Thread.Waits (t : Thread) : Prop :=
  t.visit?.isSome = true ∧ ∀ c v e last, ¬ t.Next c v e last

/-- The last thing that hosts have been told is the stop at which a controller is parked, and
nothing has been dispatched since. -/
def Told (p : Parked) (h : History) : Prop :=
  p.controller.phase = .suspended ∧
    ∃ q, lastStop? h = some q ∧ q.visit = p.visit ∧ ∀ v e, .dispatched v e ∉ sinceStop h

/-- The pulse of an instruction is queued until it is taken, and hosts know of a
parked controller. -/
def Thread.Attended (h : History) : Thread → Prop
  | .running _ => True
  | .obeying c _ => pulse ∈ c.channel.queue
  | .parked p => Told p h

def Traced.InPhase : Traced → Prop
  | .passed c => c.phase = .running
  | .ended c => c.phase = .running
  | .parked p => p.controller.phase = .suspended
  | .starved _ => False

theorem lastStop?_append {es h : History} (none : ∀ e ∈ es, e.stop? = none) :
    lastStop? (es ++ h) = lastStop? h ∧ sinceStop (es ++ h) = es ++ sinceStop h := by
  constructor
  · rw [lastStop?, List.findSome?_append, List.findSome?_eq_none_iff.mpr none, Option.none_or]
    rfl
  · exact List.takeWhile_append_of_pos fun e member => by simp [none e member]

theorem told_parked {c d : Controller} {v : Visit} {e : Envelope} {h : History}
    (stops : c.obey v e.command = .stops d) : Told (d.park v) (c.deeds v e ++ h) := by
  have told : c.deeds v e ++ h = .suspended (d.park v) ::
      ((c.startedSkip? v e.command).toList.map (.skipStarted v) ++ [.dispatched v e] ++ h) := by
    simp [Controller.deeds, stops, Obeyed.outcome]
  rw [told]
  exact ⟨rfl, _, rfl, rfl, by simp [sinceStop, Event.stop?]⟩

theorem told_quiet {p q : Parked} {es h : History} (told : Told p h)
    (same : q.visit = p.visit ∧ q.controller.phase = p.controller.phase)
    (none : ∀ e ∈ es, e.stop? = none) (quiet : ∀ v e, .dispatched v e ∉ es) : Told q (es ++ h) := by
  obtain ⟨suspended, stop, last, here, still⟩ := told
  obtain ⟨sameStop, since⟩ := lastStop?_append none
  refine ⟨same.2.trans suspended, stop, sameStop.trans last, here.trans same.1.symm, ?_⟩
  intro v e member
  rw [since] at member
  rcases List.mem_append.mp member with member | member
  · exact quiet v e member
  · exact still v e member

theorem approach_fed {c : Controller} (isOpen : c.channel.isOpen = true) (files : FileTree)
    (step : Step) : pulse ∈ (c.approach files step).1.channel.queue := by
  rw [Controller.approach_channel isOpen]
  exact List.mem_append_right _ List.mem_cons_self

theorem next_fed {c d : Controller} {v w : Visit} {e : Envelope} {last : Bool}
    (fed : pulse ∈ c.channel.queue) (next : (Thread.obeying c v).Next d w e last) :
    last = true ∨ pulse ∈ d.channel.queue := by
  cases next with
  | take taken =>
    by_cases own : e = pulse
    · exact .inl (decide_eq_true own)
    · rw [(Channel.take?_eq_some taken).1] at fed
      exact .inr (List.mem_of_ne_of_mem (Ne.symm own) fed)

theorem obeyed_attended {t : Thread} {c : Controller} {v : Visit} {e : Envelope} {last : Bool}
    {h : History} (attended : t.Attended h) (next : t.Next c v e last) :
    ((c.obey v e.command).thread v last).Attended (c.deeds v e ++ h) := by
  have fed : last = true ∨ pulse ∈ c.channel.queue := by
    cases t with
    | running b => contradiction
    | obeying b w => exact next_fed attended next
    | parked p =>
      cases next
      exact .inl rfl
  have channel := Controller.channel_obey c v e.command
  cases obeyed : c.obey v e.command with
  | ends d => trivial
  | stops d => exact told_parked obeyed
  | handled d =>
    rw [obeyed] at channel
    cases last with
    | true => trivial
    | false =>
      have fed : pulse ∈ c.channel.queue := by simpa using fed
      exact (congrArg (pulse ∈ ·.queue) channel).mpr fed

theorem move_attended {t u : Thread} {h es : History} (wellformed : t.Wellformed)
    (attended : t.Attended h) (move : t.Move es u) : u.Attended (es ++ h) := by
  cases move with
  | @host _ commands channel moved =>
    cases t with
    | running c => trivial
    | obeying c v =>
      have queue := (Channel.hostMove_queue wellformed.tended.isOpen moved).1
      exact (congrArg (pulse ∈ ·) queue).mpr (List.mem_append_left _ attended)
    | parked p =>
      apply told_quiet attended ⟨rfl, rfl⟩
      · intro e member
        obtain ⟨_, _, rfl⟩ := List.mem_map.mp (List.mem_reverse.mp member)
        rfl
      · simp
  | edit change => cases t <;> exact attended
  | pass idle passed => trivial
  | @observe c files step awake =>
    exact approach_fed wellformed.tended.isOpen files step
  | dispatch next => exact obeyed_attended attended next
  | leaveFrame c => trivial

theorem run_attended {s t : Thread} {h : History} (wellformed : s.Wellformed)
    (attended : s.Attended []) (run : Run s t h) : t.Attended h := by
  induction run with
  | start => exact attended
  | move run move ih => exact move_attended (run_wellformed run wellformed) ih move

theorem fed_takes {c : Controller} (fed : pulse ∈ c.channel.queue) :
    ∃ e channel, c.channel.take? = some (e, channel) := by
  cases queue : c.channel.queue with
  | nil => simp [queue] at fed
  | cons e rest => exact ⟨e, { c.channel with queue := rest }, by simp [Channel.take?, queue]⟩

theorem waiting_parked {t : Thread} {h : History} (attended : t.Attended h) (waits : t.Waits) :
    ∃ p, t = .parked p ∧ p.controller.channel.commands = [] := by
  obtain ⟨busy, nothing⟩ := waits
  cases t with
  | running c => contradiction
  | obeying c v =>
    obtain ⟨e, channel, taken⟩ := fed_takes attended
    exact absurd (.take taken) (nothing _ _ _ _)
  | parked p =>
    refine ⟨p, rfl, (Channel.takeFromHost?_eq_none _).mp ?_⟩
    cases taken : p.controller.channel.takeFromHost? with
    | none => rfl
    | some next => exact absurd (.answer taken) (nothing _ _ _ _)

theorem parked_waits {p : Parked} (silent : p.controller.channel.commands = []) :
    (Thread.parked p).Waits := by
  refine ⟨rfl, ?_⟩
  intro c v e last next
  cases next with
  | answer taken =>
    rw [(Channel.takeFromHost?_eq_none _).mpr silent] at taken
    contradiction

theorem lead_inPhase {o : Obeyed} {v : Visit} {next : Controller → Traced}
    (handled : ∀ c, (next c).InPhase) : (o.lead v next).InPhase := by
  cases o with
  | handled c => exact handled c
  | stops c => rfl
  | ends c => rfl

theorem consume_inPhase (c : Controller) (v : Visit) {queue : List Envelope} (fed : pulse ∈ queue) :
    (c.consume v queue).InPhase := by
  induction queue generalizing c with
  | nil => contradiction
  | cons e rest ih =>
    rw [Controller.consume_cons]
    apply lead_inPhase
    intro d
    split
    · rfl
    · rename_i other
      exact ih d (List.mem_of_ne_of_mem (Ne.symm other) fed)

theorem trace_inPhase {c : Controller} (awake : c.isIdle = false) (isOpen : c.channel.isOpen = true)
    (files : FileTree) (step : Step) : (c.trace files step).InPhase := by
  rw [Controller.trace_awake awake]
  apply consume_inPhase
  exact approach_fed isOpen files step

theorem answer?_inPhase {p : Parked} {t : Traced} (answer : p.answer? = some t) : t.InPhase := by
  cases taken : p.controller.channel.takeFromHost? with
  | none =>
    rw [Parked.answer?, taken] at answer
    contradiction
  | some next =>
    rw [answer?_eq taken] at answer
    cases Option.some.inj answer
    exact lead_inPhase fun d => rfl

theorem answered?_inPhase {t u : Traced} (inPhase : t.InPhase)
    (answers : Nat → HostAnswer) (n : Nat) (answered : t.answered? answers n = some u) :
    u.InPhase := by
  induction n generalizing t answers with
  | zero =>
    cases answered
    exact inPhase
  | succ n ih =>
    cases t with
    | parked p =>
      obtain ⟨s, answer, later⟩ := Option.bind_eq_some_iff.mp answered
      exact ih (answer?_inPhase answer) _ later
    | passed c => cases answered; exact inPhase
    | ended c => cases answered; exact inPhase
    | starved c => contradiction

theorem command_sent {answer : HostAnswer} (sends : answer.any HostAction.isSend = true) :
    answer.filterMap HostAction.command? ≠ [] := by
  obtain ⟨action, member, send⟩ := List.any_eq_true.mp sends
  cases action with
  | edit change => contradiction
  | send command =>
    exact List.ne_nil_of_mem (List.mem_filterMap.mpr ⟨.send command, member, rfl⟩)

theorem suspend_not_sent {answer : HostAnswer} (goesOn : .send .suspend ∉ answer) :
    (answer.filterMap HostAction.command?).count .suspend = 0 := by
  rw [List.count_eq_zero, List.mem_filterMap]
  rintro ⟨action, member, suspend⟩
  cases action with
  | edit change => contradiction
  | send command =>
    cases suspend
    exact goesOn member

theorem oldest_command {p : Parked} {answer : HostAnswer}
    (sends : answer.any HostAction.isSend = true) :
    ∃ command later, p.controller.channel.commands ++ answer.filterMap HostAction.command? =
      command :: later :=
  List.exists_cons_of_ne_nil (List.append_ne_nil_of_right_ne_nil _ (command_sent sends))

/-- Hosts that do not suspend the controller any more get it going once it has been through all the
`suspend`s that are queued. -/
theorem going_on_returns {p : Parked} (wellformed : (Thread.parked p).Wellformed)
    {answers : Nat → HostAnswer} (sends : ∀ i, (answers i).any HostAction.isSend = true)
    (goesOn : ∀ i, .send .suspend ∉ answers i) : (Traced.parked p).Returns answers := by
  -- Every stop behind this one takes one of the `suspend`s, and none comes after them.
  generalize queued : p.controller.channel.commands.count .suspend = k
  induction k generalizing p answers with
  | zero =>
    obtain ⟨command, later, first⟩ := oldest_command (p := p) (sends 0)
    apply stop_returns wellformed first
    rintro q rfl
    have none := congrArg (List.count .suspend) first
    rw [List.count_append, queued, suspend_not_sent (goesOn 0), List.count_cons_self] at none
    omega
  | succ k ih =>
    obtain ⟨command, later, first⟩ := oldest_command (p := p) (sends 0)
    apply stop_returns wellformed first
    rintro q rfl stays rfl
    have fewer := congrArg (List.count .suspend) first
    rw [List.count_append, queued, suspend_not_sent (goesOn 0), List.count_cons_self] at fewer
    exact ih stays (fun i => sends (i + 1)) (fun i => goesOn (i + 1)) (by omega)

theorem answers_return {p : Parked} (wellformed : (Thread.parked p).Wellformed)
    {answers : Nat → HostAnswer} (sends : ∀ i, (answers i).any HostAction.isSend = true) {n : Nat}
    (goesOn : ∀ i, n ≤ i → .send .suspend ∉ answers i) : (Traced.parked p).Returns answers := by
  induction n generalizing p answers with
  | zero => exact going_on_returns wellformed sends fun i => goesOn i (Nat.zero_le i)
  | succ n ih =>
    obtain ⟨command, later, first⟩ := oldest_command (p := p) (sends 0)
    apply stop_returns wellformed first
    intro q _ stays _
    exact ih stays (fun i => sends (i + 1)) fun i above => goesOn (i + 1) (Nat.succ_le_succ above)

theorem trace_returns {c : Controller} (awake : c.isIdle = false) (tended : c.channel.Tended)
    (files : FileTree) (step : Step) {answers : Nat → HostAnswer}
    (parked : ∀ p, c.trace files step = .parked p → (Thread.parked p).Wellformed →
      (Traced.parked p).Returns answers) : (c.trace files step).Returns answers := by
  have inPhase := trace_inPhase awake tended.isOpen files step
  obtain ⟨h, run⟩ := trace_run c files step
  cases traced : c.trace files step with
  | passed d => exact ⟨0, _, d, rfl, rfl⟩
  | ended d => exact ⟨0, _, d, rfl, rfl⟩
  | starved d =>
    rw [traced] at inPhase
    contradiction
  | parked p =>
    rw [traced] at run
    exact parked p traced (run_wellformed run (running_wellformed tended))

/-- Whatever is queued when an instruction is traced, and whatever hosts do at any moment: as long
as commands are taken for the instruction, there is one to take; the thread stands still only at a
stop that hosts have been told of, with no command of a host queued, and is seen to be suspended. If
hosts send a command at each stop and only finitely many times `suspend`, the instruction is handled
to its end. Then the machine is seen to run. -/
theorem waits_only_while_suspended {c : Controller} (tended : c.channel.Tended)
    (live : c.terminated = false) (inactive : c.jump.isActive = false) :
    (∀ t h, Run (.running c) t h →
      (∀ d v, t = .obeying d v → ∃ e channel, d.channel.take? = some (e, channel)) ∧
      (t.Waits → ∃ p, t = .parked p ∧ Told p h ∧ p.controller.channel.commands = [])) ∧
    ∀ files step answers,
      (∀ n t, (c.trace files step).answered? answers n = some t → t.InPhase) ∧
      ((∀ i, (answers i).any HostAction.isSend = true) →
        (∃ n, ∀ i, n ≤ i → .send .suspend ∉ answers i) → (c.trace files step).Returns answers) := by
  have awake := Controller.isIdle_eq_false.mpr ⟨live, inactive⟩
  constructor
  · intro t h run
    have attended := run_attended (running_wellformed tended) trivial run
    constructor
    · rintro d v rfl
      exact fed_takes attended
    · intro waits
      obtain ⟨p, rfl, silent⟩ := waiting_parked attended waits
      exact ⟨p, rfl, attended, silent⟩
  · intro files step answers
    have inPhase := trace_inPhase awake tended.isOpen files step
    refine ⟨fun n t answered => answered?_inPhase inPhase answers n answered, ?_⟩
    rintro sends ⟨n, goesOn⟩
    exact trace_returns awake tended files step fun p _ wellformed =>
      answers_return wellformed sends goesOn

/-- A host's `execute` does not count as the pulse, so that the `suspend` behind it is taken as
well. Its stop waits, and is left when a further `suspend` and a `resume` have come. -/
theorem waits_after_suspend :
    ∃ c t h, c.channel.queue = [⟨.execute, .host⟩, ⟨.suspend, .host⟩] ∧ Run (.running c) t h ∧
      t.Waits ∧ (∃ p, t = .parked p ∧ Told p h ∧ p.controller.channel.commands = []) ∧
      (c.trace {} { pc := 0, opcode := 0x01 }).Returns
        fun i => if i = 0 then [.send .suspend] else [.send .resume] := by
  let c := { Thread.bare.controller with
    channel := { queue := [⟨.execute, .host⟩, ⟨.suspend, .host⟩] } }
  have tended : c.channel.Tended := ⟨rfl, by simp [c, Envelope.isHost]⟩
  have observed := Run.start.move (Thread.Move.observe (c := c) {} { pc := 0, opcode := 0x01 } rfl)
  have stopped := (observed.move (.dispatch (.take rfl))).move (.dispatch (.take rfl))
  obtain ⟨waiting, returning⟩ := waits_only_while_suspended tended rfl rfl
  refine ⟨c, _, _, rfl, stopped, parked_waits rfl, (waiting _ _ stopped).2 (parked_waits rfl),
    (returning _ _ _).2 ?_ ⟨1, ?_⟩⟩
  · intro i
    cases i <;> rfl
  · intro i above
    cases i with
    | zero => contradiction
    | succ i => simp

end SourceStepper
