import SourceStepper.Proofs.Controller.History

/-! Skips that are still active at a stop. A stop ends what waits for a call, but not a skip that
has been started at the same instruction, which then takes what comes behind the stop. -/
namespace SourceStepper

def sinceObserved (h : History) : History := h.takeWhile (·.observed?.isNone)

/-- The jump skip of a controller that handles the instruction `v`: there is none, or it has been
started at this instruction, which is a call. -/
inductive SkipHere (v : Visit) (h : History) : JumpSkip → Prop
  | unused (none : ∀ w kind, .skipStarted w kind ∉ sinceObserved h) : SkipHere v h {}
  | started {kind : SkipKind} (started : .skipStarted v kind ∈ sinceObserved h)
      (call : v.location.isCallJump v.step = true) : SkipHere v h ⟨kind.length⟩

theorem sinceObserved_append {es : History} (unseen : ∀ e ∈ es, e.observed? = none) (h : History) :
    sinceObserved (es ++ h) = es ++ sinceObserved h := by
  rw [sinceObserved, List.takeWhile_append_of_pos]
  · rfl
  · intro e member
    simp [unseen e member]

theorem deeds_unseen (c : Controller) (v : Visit) (e : Envelope) :
    ∀ x ∈ c.deeds v e, x.observed? = none := by
  intro x member
  simp only [Controller.deeds, List.mem_append, List.mem_map, List.mem_singleton] at member
  rcases member with (told | ⟨kind, _, rfl⟩) | rfl
  · cases obeyed : c.obey v e.command <;> simp [obeyed, Obeyed.outcome] at told <;>
      subst told <;> rfl
  · rfl
  · rfl

theorem started_mem_deeds {c : Controller} {v w : Visit} {e : Envelope} {kind : SkipKind} :
    .skipStarted w kind ∈ c.deeds v e ↔ w = v ∧ c.startedSkip? v e.command = some kind := by
  have none : .skipStarted w kind ∉ (c.obey v e.command).outcome v := by
    cases c.obey v e.command <;> simp [Obeyed.outcome]
  simp only [Controller.deeds, List.mem_append, List.mem_map, List.mem_singleton, Option.mem_toList,
    none, reduceCtorEq, false_or, or_false, Event.skipStarted.injEq]
  constructor
  · rintro ⟨_, starts, rfl, rfl⟩
    exact ⟨rfl, starts⟩
  · rintro ⟨rfl, starts⟩
    exact ⟨kind, starts, rfl, rfl⟩

theorem SkipHere.isActive_iff {v : Visit} {h : History} {jump : JumpSkip}
    (skip : SkipHere v h jump) :
    jump.isActive = true ↔ ∃ kind, .skipStarted v kind ∈ sinceObserved h := by
  cases skip with
  | unused none =>
    constructor
    · intro active
      contradiction
    · rintro ⟨kind, started⟩
      exact absurd started (none v kind)
  | @started kind started call =>
    refine ⟨fun _ => ⟨kind, started⟩, fun _ => ?_⟩
    cases kind <;> rfl

theorem SkipHere.append {v : Visit} {h es : History} {jump : JumpSkip} (skip : SkipHere v h jump)
    (unseen : ∀ e ∈ es, e.observed? = none) (quiet : ∀ w kind, .skipStarted w kind ∉ es) :
    SkipHere v (es ++ h) jump := by
  have since := sinceObserved_append unseen h
  cases skip with
  | unused none =>
    refine .unused fun w kind member => ?_
    rw [since] at member
    exact (List.mem_append.mp member).elim (quiet w kind) (none w kind)
  | started started call => exact .started (since ▸ List.mem_append_right es started) call

theorem SkipHere.start {c : Controller} {v : Visit} {e : Envelope} {kind : SkipKind} {h : History}
    {jump : JumpSkip} (skip : SkipHere v h jump) (starts : c.startedSkip? v e.command = some kind) :
    SkipHere v (c.deeds v e ++ h) (jump.start kind) := by
  have since := sinceObserved_append (deeds_unseen c v e) h
  have call := Controller.startedSkip?_at_call starts
  have new : SkipHere v (c.deeds v e ++ h) ⟨kind.length⟩ :=
    .started (since ▸ List.mem_append_left _ (started_mem_deeds.mpr ⟨rfl, starts⟩)) call
  cases skip with
  | unused _ =>
    rw [start_inactive rfl]
    exact new
  | @started former started _ =>
    cases kind with
    | stepOut => exact new
    | stepOver =>
      have active : (⟨former.length⟩ : JumpSkip).isActive = true := by cases former <;> rfl
      rw [JumpSkip.start, JumpSkip.stepOver, if_pos active]
      exact .started (since ▸ List.mem_append_right _ started) call

theorem dispatch_skip {c : Controller} {v w : Visit} {e : Envelope} {last : Bool} {h : History}
    (skip : SkipHere v h c.jump)
    (visit : ((c.obey v e.command).thread v last).visit? = some w) :
    w = v ∧ SkipHere v (c.deeds v e ++ h) ((c.obey v e.command).thread v last).controller.jump := by
  obtain ⟨_, _, _, _, _, same⟩ := Thread.thread_changes (c.obey v e.command) v last
  rw [same, Controller.jump_obey]
  have here : w = v := by
    cases obeyed : c.obey v e.command <;> rw [obeyed] at visit
    · cases last <;> simp_all [Obeyed.thread, Thread.visit?]
    · simpa [Obeyed.thread, Thread.visit?, Controller.park, eq_comm] using visit
    · simp [Obeyed.thread, Thread.visit?] at visit
  refine ⟨here, ?_⟩
  cases starts : c.startedSkip? v e.command with
  | some kind => exact skip.start starts
  | none =>
    have goesOn : e.command ≠ .stop := by
      intro stop
      rw [stop] at visit
      contradiction
    rw [if_neg goesOn]
    refine skip.append (deeds_unseen c v e) ?_
    intro w kind started
    rw [started_mem_deeds, starts] at started
    exact absurd started.2 (by simp)

theorem move_skip {t u : Thread} {h es : History}
    (skip : ∀ v, t.visit? = some v → SkipHere v h t.controller.jump) (move : t.Move es u) :
    ∀ v, u.visit? = some v → SkipHere v (es ++ h) u.controller.jump := by
  intro w visit
  cases move with
  | host moved =>
    rw [Thread.visit?_update] at visit
    rw [Thread.controller_update]
    refine (skip w visit).append ?_ ?_
    · intro e member
      obtain ⟨_, _, rfl⟩ := List.mem_map.mp (List.mem_reverse.mp member)
      rfl
    · simp
  | edit change =>
    rw [Thread.visit?_update] at visit
    rw [Thread.controller_update]
    exact skip w visit
  | pass idle passed => contradiction
  | @observe c files step awake =>
    cases visit
    have jump : (c.approach files step).1.jump = {} := by
      rw [Controller.approach_changes]
      obtain ⟨_, inactive⟩ := Controller.isIdle_eq_false.mp awake
      generalize c.jump = jump at inactive
      obtain ⟨remaining⟩ := jump
      simpa [JumpSkip.isActive] using inactive
    have since : sinceObserved (.observed (c.approach files step).2 :: h) = [] := rfl
    exact jump ▸ .unused (by simp [since])
  | dispatch next =>
    have before := skip _ (Thread.visit?_of_next next)
    obtain ⟨_, _, same⟩ := Thread.next_changes next
    have jump := congrArg Controller.jump same
    obtain ⟨rfl, here⟩ := dispatch_skip (jump ▸ before) visit
    exact here
  | leaveFrame c => contradiction

theorem run_skip {loader : Loader} {registry : Registry} {maxFrames : Nat} {t : Thread}
    {h : History} (run : Run (.fresh loader registry maxFrames) t h) :
    ∀ v, t.visit? = some v → SkipHere v h t.controller.jump := by
  induction run with
  | start => exact nofun
  | move _ move ih => exact move_skip ih move

/-- An answer that neither stops, steps over a call nor ends the session leaves the skip as
it is. -/
theorem answer?_keeps_skip {p : Parked} (wellformed : (Thread.parked p).Wellformed)
    {command : Command} {later : List Command}
    (first : p.controller.channel.commands = command :: later)
    (plain : command ∈ [.stepInto, .resume, .execute]) :
    ∃ c, p.answer? = some (.passed c) ∧ c.jump = p.controller.jump ∧ c.terminated = false := by
  obtain ⟨stepping, disarmed, here⟩ := wellformed.stopped p rfl
  have live := wellformed.live rfl
  obtain ⟨channel, taken, _⟩ := Channel.takeFromHost?_first first
  rw [answer?_eq taken]
  simp only [List.mem_cons, List.not_mem_nil, or_false] at plain
  rcases plain with rfl | rfl | rfl
  · exact ⟨_, rfl, rfl, live⟩
  · exact ⟨_, rfl, rfl, live⟩
  · -- The controller is on the line of its stop, and nothing waits for a call.
    have stays : p.visit.location.line = p.controller.lastSelectedLine := here.symm
    simp only [Controller.obey, Controller.shouldStop, Controller.goOn, stepping, stays, disarmed]
    simp only [ne_eq, not_true_eq_false, decide_false, if_true, Bool.false_eq_true,
      if_false, ite_self]
    exact ⟨_, rfl, rfl, live⟩

/-- A skip is active at a stop exactly if it has been started at the instruction of the stop, since
that has been observed. A `stepInto`, `resume` or `execute` that answers the stop leaves it active:
then it takes the instruction behind the stop, and otherwise that one is looked at. -/
theorem skip_at_stop_iff {loader : Loader} {registry : Registry} {maxFrames : Nat} {p : Parked}
    {h : History} (run : Run (.fresh loader registry maxFrames) (.parked p) h) :
    (p.controller.jump.isActive = true ↔ ∃ kind, .skipStarted p.visit kind ∈ sinceObserved h) ∧
    ∀ command later, p.controller.channel.commands = command :: later →
      command ∈ [.stepInto, .resume, .execute] → ∃ c, p.answer? = some (.passed c) ∧
        ((∃ kind, .skipStarted p.visit kind ∈ sinceObserved h) →
          ∀ files step, c.trace files step = .passed (c.passOver step)) ∧
        ((∀ kind, .skipStarted p.visit kind ∉ sinceObserved h) → c.isIdle = false) := by
  have wellformed := run_wellformed run (fresh_wellformed loader registry maxFrames)
  have active := (run_skip run p.visit rfl).isActive_iff
  refine ⟨active, ?_⟩
  intro command later first plain
  obtain ⟨c, answer, jump, live⟩ := answer?_keeps_skip wellformed first plain
  have active : c.jump.isActive = true ↔ ∃ kind, .skipStarted p.visit kind ∈ sinceObserved h :=
    jump ▸ active
  refine ⟨c, answer, ?_, ?_⟩
  · intro started files step
    have idle : c.isIdle = true := by simp [Controller.isIdle, active.mpr started]
    rw [Controller.trace_idle idle, if_neg (by simp [live])]
  · intro none
    refine Controller.isIdle_eq_false.mpr ⟨live, ?_⟩
    rw [← Bool.not_eq_true, active]
    rintro ⟨kind, started⟩
    exact none kind started

theorem waiting_skip_over_at_stop :
    ∃ p h c, Run .bare (.parked p) h ∧ p.controller.channel.commands = [.stepInto] ∧
      p.controller.jump.isActive = false ∧ p.answer? = some (.passed c) ∧ c.isIdle = false := by
  have queued := ((Run.start (s := .bare)).sent 0 .stepOver rfl).sent 0 .suspend rfl
  have observed := queued.move (.observe {} { pc := 0, opcode := 0x01 } rfl)
  have armed := observed.move (.dispatch (.take rfl))
  have stopped := (armed.move (.dispatch (.take rfl))).sent 0 .stepInto rfl
  have skips := skip_at_stop_iff stopped
  obtain ⟨c, answer, _, looks⟩ := skips.2 _ [] rfl (by simp)
  exact ⟨_, _, c, stopped, rfl, rfl, answer,
    looks fun kind started => Bool.false_ne_true (skips.1.mpr ⟨kind, started⟩)⟩

/-- A `stepOver` that has been sent in front of a `suspend` starts its skip at a call, and the
skip is still there at the stop: a `stepInto` skips the entry of the function that it is about
to enter. -/
theorem skip_left_at_stop :
    ∃ p h c, Run .bare (.parked p) h ∧ p.controller.channel.commands = [.stepInto] ∧
      p.controller.jump.isActive = true ∧ p.answer? = some (.passed c) ∧
      c.trace {} { pc := 1, opcode := 0x5b } = .passed { c with jump := ⟨1⟩ } := by
  have queued := ((Run.start (s := .bare)).sent 0 .stepOver rfl).sent 0 .suspend rfl
  have observed := queued.move (.observe {} { pc := 0, opcode := 0x56 } rfl)
  have started := observed.move (.dispatch (.take rfl))
  have stopped := (started.move (.dispatch (.take rfl))).sent 0 .stepInto rfl
  exact ⟨_, _, _, stopped, rfl, rfl, rfl, rfl⟩

end SourceStepper
