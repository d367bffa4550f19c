import SourceStepper.Proofs.Controller.Run

/-! Where a step leads to. A step goes on to the next line, and past the first call on the line it
skips what the call does: the instructions behind it, until as many jump destinations have been seen
as the skip is long. Nothing but these instructions is skipped, and the step ends at the first other
one that is on another line. -/
namespace SourceStepper

structure Passage where
  step : Step
  place : Option Location

namespace Passage

def isCall (x : Passage) : Bool := x.place.any (·.isCallJump x.step)

def line? (x : Passage) : Option Nat := x.place.map (·.line)

def isJumpdest (x : Passage) : Bool := x.step.opcode.isJumpdest

end Passage

/-- The command that steps, by the skip that it asks for. -/
def stepCommand : Option SkipKind → Command
  | none => .stepInto
  | some kind => kind.command

def skipLength : Option SkipKind → Nat
  | none => 0
  | some kind => kind.length

/-- A trail has come to its first call without leaving the line. -/
structure FirstCall (line : Nat) (trail before : List Passage) (call : Passage)
    (after : List Passage) :
    Prop where
  split : trail = before ++ call :: after
  isCall : call.isCall = true
  first : ∀ x ∈ before, x.isCall = false
  onLine : ∀ x ∈ before ++ [call], x.line? = some line

/-- The first call of a trail is behind, and fewer jump destinations than the skip is long have been
seen since. -/
def Skipping (line length : Nat) (trail : List Passage) : Prop :=
  ∃ before call after, FirstCall line trail before call after ∧
    after.countP Passage.isJumpdest < length

/-- The instructions that are let through behind the answer to a stop, from the one of the stop on,
while no host sends a command and no frame is left. Hosts may edit breakpoints in between. -/
inductive Followed (p : Parked) (answered : Controller) : List Passage → Controller → Prop
  | start : Followed p answered [⟨p.visit.step, some p.visit.location⟩] answered
  | aside {trail : List Passage} {c d : Controller} (followed : Followed p answered trail c)
      (silent : Thread.Move (.running c) [] (.running d)) : Followed p answered trail d
  | traced {trail : List Passage} {c d : Controller} {files : FileTree} {step : Step}
      (followed : Followed p answered trail c) (passed : c.trace files step = .passed d) :
      Followed p answered
        (trail ++ [⟨step, if c.jump.isActive then none else some (c.resolve files step).1⟩]) d

/-- A controller steps from a line, and no command of a host waits. -/
structure Undisturbed (line : Nat) (c : Controller) : Prop where
  live : c.terminated = false
  stepping : c.runTillNextLine = true
  here : c.lastSelectedLine = line
  tended : c.channel.Tended
  silent : c.channel.commands = []

/-- How far a step has come: it waits for the first call, or the first call is behind. -/
inductive Stage (line : Nat) (kind? : Option SkipKind) (trail : List Passage) :
    Option SkipKind → JumpSkip → Prop
  | waiting (onLine : ∀ x ∈ trail, x.isCall = false ∧ x.line? = some line) :
      Stage line kind? trail kind? {}
  | called {before after : List Passage} {call : Passage}
      (first : FirstCall line trail before call after) :
      Stage line kind? trail none ⟨skipLength kind? - after.countP Passage.isJumpdest⟩

theorem inactive_eq {s : JumpSkip} (inactive : s.isActive = false) : s = {} := by
  obtain ⟨remaining⟩ := s
  simpa [JumpSkip.isActive] using inactive

theorem firstCall_unique {line : Nat} {trail before before' after after' : List Passage}
    {call call' : Passage} (first : FirstCall line trail before call after)
    (first' : FirstCall line trail before' call' after') : after = after' := by
  have rest : ∀ {before after call}, FirstCall line trail before call after →
      trail.dropWhile (!·.isCall) = call :: after := by
    intro before after call first
    rw [first.split, List.dropWhile_append_of_pos, List.dropWhile_cons_of_neg]
    · simp [first.isCall]
    · simpa using first.first
  have same := (rest first).symm.trans (rest first')
  exact (List.cons.inj same).2

theorem FirstCall.snoc {line : Nat} {trail before after : List Passage} {call : Passage}
    (first : FirstCall line trail before call after) (x : Passage) :
    FirstCall line (trail ++ [x]) before call (after ++ [x]) :=
  ⟨by simp [first.split], first.isCall, first.first, first.onLine⟩

theorem stage_skipping {line : Nat} {kind? armed : Option SkipKind} {trail : List Passage}
    {jump : JumpSkip}
    (stage : Stage line kind? trail armed jump) :
    jump.isActive = true ↔ Skipping line (skipLength kind?) trail := by
  cases stage with
  | waiting onLine =>
    constructor
    · intro active
      contradiction
    · rintro ⟨before, call, after, first, _⟩
      have member : call ∈ trail := by simp [first.split]
      have none := (onLine call member).1
      rw [first.isCall] at none
      contradiction
  | @called before after call first =>
    simp only [JumpSkip.isActive, decide_eq_true_eq]
    constructor
    · intro active
      exact ⟨before, call, after, first, by omega⟩
    · rintro ⟨before', call', after', first', fewer⟩
      rw [firstCall_unique first first']
      omega

theorem stage_skipped {line : Nat} {kind? armed : Option SkipKind} {trail : List Passage}
    {jump : JumpSkip}
    (stage : Stage line kind? trail armed jump) (active : jump.isActive = true) (step : Step) :
    Stage line kind? (trail ++ [⟨step, none⟩]) armed
      (if step.opcode.isJumpdest then jump.passJumpdest else jump) := by
  cases stage with
  | waiting onLine => contradiction
  | @called before after call first =>
    have stage : Stage line kind? _ none _ := .called (first.snoc ⟨step, none⟩)
    rw [List.countP_append, List.countP_singleton] at stage
    cases dest : step.opcode.isJumpdest with
    | true => simpa [Passage.isJumpdest, dest, JumpSkip.passJumpdest, Nat.sub_sub] using stage
    | false => simpa [Passage.isJumpdest, dest] using stage

theorem stage_goOn {line : Nat} {kind? : Option SkipKind} {trail : List Passage} {c : Controller}
    {v : Visit}
    (stage : Stage line kind? trail c.armed c.jump) (inactive : c.jump.isActive = false)
    (stepping : c.runTillNextLine = true) (here : v.location.line = line) :
    Stage line kind? (trail ++ [⟨v.step, some v.location⟩]) (c.goOn v).armed (c.goOn v).jump := by
  generalize harmed : c.armed = armed at stage
  generalize hjump : c.jump = jump at stage inactive
  cases stage with
  | waiting onLine =>
    cases call : v.location.isCallJump v.step with
    | false =>
      have same : c.goOn v = c := by simp [Controller.goOn, call]
      rw [same, harmed, hjump]
      apply Stage.waiting
      intro x member
      rcases List.mem_append.mp member with member | member
      · exact onLine x member
      · cases List.mem_singleton.mp member
        exact ⟨call, congrArg some here⟩
    | true =>
      have first : FirstCall line (trail ++ [⟨v.step, some v.location⟩]) trail
          ⟨v.step, some v.location⟩ [] := by
        refine ⟨rfl, call, fun x member => (onLine x member).1, ?_⟩
        intro x member
        rcases List.mem_append.mp member with member | member
        · exact (onLine x member).2
        · cases List.mem_singleton.mp member
          exact congrArg some here
      have stage : Stage line kind? _ none _ := .called first
      cases kind? with
      | none => simpa [Controller.goOn, stepping, call, harmed, hjump, skipLength] using stage
      | some kind =>
        have started := start_inactive inactive kind
        simpa [Controller.goOn, stepping, call, harmed, hjump, skipLength, started] using stage
  | @called before after call first =>
    have same : c.goOn v = c := by simp [Controller.goOn, harmed]
    have stage : Stage line kind? _ none _ := .called (first.snoc ⟨v.step, some v.location⟩)
    -- The skip is over, or the instruction would not have been looked at; more jump destinations do
    -- not bring it back.
    have none : skipLength kind? - after.countP Passage.isJumpdest = 0 := by
      simp only [JumpSkip.isActive, decide_eq_false_iff_not] at inactive
      omega
    rw [List.countP_append, Nat.sub_add_eq, none, Nat.zero_sub] at stage
    rw [same, harmed, hjump, none]
    exact stage

theorem obey_step {c : Controller} {v : Visit} (kind? : Option SkipKind)
    (stepping : c.runTillNextLine = true)
    (disarmed : c.armed = none) :
    c.obey v (stepCommand kind?) = .handled ({ c with armed := kind? }.goOn v) := by
  cases kind? with
  | none =>
    have same : { c with armed := none } = c := by rw [← disarmed]
    rw [same]
    simp [stepCommand, Controller.obey, Controller.goOn, disarmed]
  | some kind =>
    cases call : v.location.isCallJump v.step <;> cases kind <;>
      simp [stepCommand, SkipKind.command, Controller.obey, Controller.armOrSkip, Controller.goOn,
        stepping, call]

theorem Undisturbed.of_same {line : Nat} {c d : Controller} (undisturbed : Undisturbed line c)
    (live : d.terminated = c.terminated) (stepping : d.runTillNextLine = c.runTillNextLine)
    (here : d.lastSelectedLine = c.lastSelectedLine) (channel : d.channel = c.channel) :
    Undisturbed line d :=
  ⟨live.trans undisturbed.live, stepping.trans undisturbed.stepping, here.trans undisturbed.here,
    channel ▸ undisturbed.tended, channel ▸ undisturbed.silent⟩

theorem goOn_undisturbed {line : Nat} {c : Controller} (undisturbed : Undisturbed line c)
    (v : Visit) :
    Undisturbed line (c.goOn v).leave := by
  obtain ⟨_, _, same⟩ := Controller.goOn_changes c v
  rw [same]
  exact undisturbed.of_same rfl rfl rfl rfl

theorem trace_skipped {line : Nat} {c : Controller} (undisturbed : Undisturbed line c)
    (active : c.jump.isActive = true) (files : FileTree) (step : Step) :
    c.trace files step = .passed
      { c with jump := if step.opcode.isJumpdest then c.jump.passJumpdest else c.jump } := by
  rw [Controller.trace_idle (by simp [Controller.isIdle, active]),
    if_neg (by simp [undisturbed.live]), Controller.passOver_changes]

/-- An instruction that is not skipped is let through on the line, and ends the step elsewhere. -/
theorem trace_undisturbed {line : Nat} {c : Controller} (undisturbed : Undisturbed line c)
    (inactive : c.jump.isActive = false) (files : FileTree) (step : Step) :
    ∃ d : Controller, Undisturbed line d ∧ d.armed = c.armed ∧ d.jump = c.jump ∧
      d.history = c.history ∧
      d.loader = (c.resolve files step).2.loader ∧ d.lastGood = (c.resolve files step).2.lastGood ∧
      c.trace files step =
        if (c.resolve files step).1.line = line then
          .passed (d.goOn ⟨step, (c.resolve files step).1⟩).leave
        else .parked
          ({ d with runTillNextLine := false }.park ⟨step, (c.resolve files step).1⟩) := by
  have awake := Controller.isIdle_eq_false.mpr ⟨undisturbed.live, inactive⟩
  obtain ⟨rest, queue, tended, silent⟩ := Channel.pulse_first undisturbed.tended undisturbed.silent
  have traced := Controller.trace_first awake undisturbed.tended.isOpen files step queue
  have same := Controller.approach_changes c files step
  generalize approached :
    { (c.approach files step).1 with channel := { c.channel with queue := rest } } = d at traced
  rw [same] at approached
  have stays : Undisturbed line d := by
    rw [← approached]
    exact ⟨undisturbed.live, undisturbed.stepping, undisturbed.here, tended, silent⟩
  have stops : d.shouldStop (c.resolve files step).1 =
      decide ((c.resolve files step).1.line ≠ line) := by
    simp [Controller.shouldStop, stays.stepping, stays.here]
  refine ⟨d, stays, ?_, ?_, ?_, ?_, ?_, traced.trans ?_⟩
  · rw [← approached]
  · rw [← approached]
  · rw [← approached]
  · rw [← approached]
  · rw [← approached]
  · have visit : (c.approach files step).2 = ⟨step, (c.resolve files step).1⟩ := rfl
    rw [visit, show pulse.command = .execute from rfl, Controller.obey, stops]
    by_cases there : (c.resolve files step).1.line = line <;> simp [there, Obeyed.lead]

theorem aside_changes {t u : Thread} {es : History} (move : t.Move es u) (silent : es = [])
    (tended : t.controller.channel.Tended) :
    ∃ channel registry, u.controller = { t.controller with channel, registry } ∧ channel.Tended ∧
      channel.commands = t.controller.channel.commands := by
  cases move with
  | @host _ commands channel moved =>
    have none : commands = [] := by simpa using silent
    refine ⟨channel, t.controller.registry, Thread.controller_update _ t, ?_, ?_⟩
    · exact Channel.hostMove_tended tended moved
    · rw [Channel.hostMove_commands tended.isOpen moved, none, List.append_nil]
  | edit change => exact ⟨_, _, Thread.controller_update _ t, tended, rfl⟩
  | pass idle passed => contradiction
  | observe files step awake => contradiction
  | dispatch next => simp [Controller.deeds] at silent
  | leaveFrame c => contradiction

theorem followed_stage {p : Parked} {answered c : Controller} {kind? : Option SkipKind}
    {trail : List Passage}
    (undisturbed : Undisturbed p.line answered)
    (stage :
      Stage p.line kind? [⟨p.visit.step, some p.visit.location⟩] answered.armed answered.jump)
    (followed : Followed p answered trail c) :
    Undisturbed p.line c ∧ Stage p.line kind? trail c.armed c.jump := by
  induction followed with
  | start => exact ⟨undisturbed, stage⟩
  | @aside trail c d _ silent ih =>
    obtain ⟨undisturbed, stage⟩ := ih
    obtain ⟨_, _, same, tended, commands⟩ := aside_changes silent rfl undisturbed.tended
    have same : d = _ := same
    rw [same]
    have silent := commands.trans undisturbed.silent
    exact ⟨⟨undisturbed.live, undisturbed.stepping, undisturbed.here, tended, silent⟩, stage⟩
  | @traced trail c d files step _ passed ih =>
    obtain ⟨undisturbed, stage⟩ := ih
    cases active : c.jump.isActive with
    | true =>
      rw [trace_skipped undisturbed active] at passed
      cases passed
      rw [if_pos rfl]
      refine ⟨?_, stage_skipped stage active step⟩
      exact undisturbed.of_same rfl rfl rfl rfl
    | false =>
      obtain ⟨e, stays, armed, jump, _, _, _, traced⟩ :=
        trace_undisturbed undisturbed active files step
      rw [traced] at passed
      split at passed
      · rename_i here
        cases passed
        rw [← armed, ← jump] at stage
        rw [← jump] at active
        rw [if_neg Bool.false_ne_true]
        exact ⟨goOn_undisturbed stays _,
          stage_goOn (v := ⟨step, _⟩) stage active stays.stepping here⟩
      · contradiction

theorem answered_stage {p : Parked} (wellformed : (Thread.parked p).Wellformed)
    (inactive : p.controller.jump.isActive = false) (kind? : Option SkipKind)
    (only : p.controller.channel.commands = [stepCommand kind?]) :
    ∃ answered, p.answer? = some (.passed answered) ∧ Undisturbed p.line answered ∧
      Stage p.line kind? [⟨p.visit.step, some p.visit.location⟩] answered.armed answered.jump := by
  obtain ⟨stepping, disarmed, here⟩ := wellformed.stopped p rfl
  have live := wellformed.live rfl
  obtain ⟨channel, taken, silent⟩ := Channel.takeFromHost?_first only
  have tended := Channel.takeFromHost?_tended wellformed.tended taken
  have answer := answer?_eq taken
  generalize next : { p.controller with channel, phase := .awaitingCommand, armed := kind? } = c
  have stepped :
      ({ p.controller with channel, phase := .awaitingCommand } : Controller).obey p.visit
      (stepCommand kind?) = .handled (c.goOn p.visit) := next ▸ obey_step kind? stepping disarmed
  rw [stepped] at answer
  have undisturbed : Undisturbed p.line c := next ▸ ⟨live, stepping, here, tended, silent⟩
  have idle : c.jump.isActive = false := next ▸ inactive
  -- The step waits from nothing on, and comes past its own stop like past any other instruction.
  have waiting : Stage p.line kind? [] c.armed c.jump := by
    rw [inactive_eq idle, ← next]
    exact .waiting (by simp)
  exact ⟨_, answer, goOn_undisturbed undisturbed _,
    stage_goOn waiting idle undisturbed.stepping rfl⟩

/-- A stop without a skip that is answered by a step, and by nothing else: the answer leads on, and
while nobody disturbs the step, it skips an instruction exactly if the first call on the line is
behind and not all the jump destinations of its skip. A skipped instruction changes nothing else. Of
the other ones, those on the line are let through, whatever breakpoints there are, and one elsewhere
is the next stop. -/
theorem step_is_exact {loader : Loader} {registry : Registry} {maxFrames : Nat} {p : Parked}
    {h : History} (run : Run (.fresh loader registry maxFrames) (.parked p) h)
    (inactive : p.controller.jump.isActive = false) (kind? : Option SkipKind)
    (only : p.controller.channel.commands = [stepCommand kind?]) :
    ∃ answered, p.answer? = some (.passed answered) ∧
      ∀ trail c, Followed p answered trail c → ∀ files step,
        (c.jump.isActive = true ↔ Skipping p.line (skipLength kind?) trail) ∧
        (Skipping p.line (skipLength kind?) trail →
          ∃ jump, c.trace files step = .passed { c with jump }) ∧
        (¬ Skipping p.line (skipLength kind?) trail →
          ((c.resolve files step).1.line = p.line → ∃ d, c.trace files step = .passed d ∧
            d.history = c.history ∧ d.loader = (c.resolve files step).2.loader ∧
            d.lastGood = (c.resolve files step).2.lastGood) ∧
          ((c.resolve files step).1.line ≠ p.line → ∃ q, c.trace files step = .parked q ∧
            q.visit = ⟨step, (c.resolve files step).1⟩)) := by
  have wellformed := run_wellformed run (fresh_wellformed loader registry maxFrames)
  obtain ⟨answered, answer, undisturbed, stage⟩ := answered_stage wellformed inactive kind? only
  refine ⟨answered, answer, ?_⟩
  intro trail c followed files step
  obtain ⟨undisturbed, stage⟩ := followed_stage undisturbed stage followed
  have skipping := stage_skipping stage
  refine ⟨skipping, ?_, ?_⟩
  · intro skips
    exact ⟨_, trace_skipped undisturbed (skipping.mpr skips) files step⟩
  · intro looks
    have inactive : c.jump.isActive = false := by simpa using mt skipping.mp looks
    obtain ⟨d, _, _, _, history, loader, lastGood, traced⟩ :=
      trace_undisturbed undisturbed inactive files step
    rw [traced]
    constructor
    · intro onLine
      obtain ⟨_, _, same⟩ := Controller.goOn_changes d ⟨step, (c.resolve files step).1⟩
      refine ⟨_, if_pos onLine, ?_⟩
      rw [same]
      exact ⟨history, loader, lastGood⟩
    · intro elsewhere
      exact ⟨_, if_neg elsewhere, rfl⟩

theorem stepOver_is_exact :
    ∃ p h answered trail c, Run .bare (.parked p) h ∧ p.controller.jump.isActive = false ∧
      p.controller.channel.commands = [.stepOver] ∧ p.answer? = some (.passed answered) ∧
      Followed p answered trail c ∧ trail.map Passage.isCall = [false, true, false] ∧
      trail.map Passage.isJumpdest = [false, false, true] ∧ Skipping p.line 2 trail ∧
      ∀ files step, ∃ jump, c.trace files step = .passed { c with jump } := by
  have observed := ((Run.start (s := .bare)).sent 0 .suspend rfl).move
    (.observe {} { pc := 0, opcode := 0x01 } rfl)
  have stopped := (observed.move (.dispatch (.take rfl))).sent 0 .stepOver rfl
  obtain ⟨answered, answer, steps⟩ := step_is_exact stopped rfl (some .stepOver) rfl
  cases answer
  have entered := fun files step => steps _ _
    (@Followed.traced _ _ _ _ _ {} { pc := 2, opcode := 0x5b }
      (@Followed.traced _ _ _ _ _ {} { pc := 1, opcode := 0x56 } .start rfl) rfl) files step
  have skipping := (entered {} { pc := 3, opcode := 0x01 }).1.mp rfl
  exact ⟨_, _, _, _, _, stopped, rfl, rfl, rfl, .traced (.traced .start rfl) rfl, rfl,
    rfl, skipping, fun files step => (entered files step).2.1 skipping⟩

end SourceStepper
