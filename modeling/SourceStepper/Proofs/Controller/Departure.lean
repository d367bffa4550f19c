import SourceStepper.Proofs.Controller.History
import SourceStepper.Proofs.Controller.Promptness

/-! When a controller takes the line of its last stop for left. It compares line numbers and nothing
else, so that a line of another file with the same number is the same line to it. -/
namespace SourceStepper

def Controller.Stops (c : Controller) (files : FileTree) (step : Step) : Prop :=
  ∃ p, c.trace files step = .parked p ∧ p.visit = ⟨step, (c.resolve files step).1⟩

/-- The last stop was `p`, and execution has been resumed since, for the last time at `r`. -/
structure ResumedSince (h : History) (p : Parked) (r : Visit) : Prop where
  last : lastStop? h = some p
  resumed : lastResume? h = some r
  since : ∃ e ∈ sinceStop h, e.resume?.isSome = true

theorem resumed_runningFreely {h : History} {p : Parked} {r : Visit}
    (resumed : ResumedSince h p r) :
    RunningFreely h := by
  intro q last
  obtain ⟨e, member, resumes⟩ := resumed.since
  refine ⟨e, member, ?_⟩
  cases e with
  | dispatched v e =>
    obtain ⟨command, origin⟩ := e
    cases command <;> first | rfl | contradiction
  | _ => contradiction

theorem silent_stops_iff {c : Controller} (awake : c.isIdle = false) (tended : c.channel.Tended)
    (silent : c.channel.commands = []) (files : FileTree) (step : Step) :
    c.Stops files step ↔ c.stopsAt files step = true := by
  obtain ⟨rest, queue, _, _⟩ := Channel.pulse_first tended silent
  have traced := Controller.trace_first awake tended.isOpen files step queue
  generalize approached : { (c.approach files step).1 with
    channel := { c.channel with queue := rest } } = d at traced
  have decides : d.shouldStop (c.approach files step).2.location = c.stopsAt files step := by
    rw [← approached]
    rfl
  have visit : (c.approach files step).2 = ⟨step, (c.resolve files step).1⟩ := rfl
  rw [Controller.Stops, traced, show pulse.command = .execute from rfl, Controller.obey, decides]
  cases stops : c.stopsAt files step with
  | true =>
    simp only [if_true, Obeyed.lead, iff_true]
    exact ⟨_, rfl, visit⟩
  | false => simp [Obeyed.lead]

theorem stepping_stopsAt {c : Controller} {h : History} (explained : Explained c none h)
    (live : c.terminated = false) {p : Parked} (stepping : SteppingFrom h p) (files : FileTree)
    (step : Step) :
    c.stopsAt files step = true ↔ (c.resolve files step).1.line ≠ p.line := by
  have steps := (explained.stepping live).mpr ⟨p, stepping⟩
  have same := Controller.approach_changes c files step
  have line : (c.approach files step).1.lastSelectedLine = p.line := by
    rw [same]
    exact explained.stopped p stepping.1
  rw [Controller.stopsAt, Controller.shouldStop_stepping (by rw [same]; exact steps), line]
  rfl

/-- The line that execution was resumed from still counts at an instruction exactly if no other one
has been seen. -/
theorem resumedLine?_iff {h : History} {r : Visit} (last : lastResume? h = some r) (line : Nat) :
    resumedLine? h = some line ↔
      ∀ n ∈ line :: (observedSinceResume h).map (·.location.line), n = r.location.line := by
  simp only [resumedLine?, last, Option.bind_some, List.forall_mem_cons, List.forall_mem_map]
  by_cases all : (observedSinceResume h).all (·.location.line = r.location.line) = true
  · have same : ∀ w ∈ observedSinceResume h, w.location.line = r.location.line := by simpa using all
    rw [if_pos all, Option.some.injEq, eq_comm]
    exact ⟨fun here => ⟨here, same⟩, And.left⟩
  · have other : ¬ ∀ w ∈ observedSinceResume h, w.location.line = r.location.line := by
      simpa using all
    simp [all, other]

theorem resumed_stopsAt {c : Controller} {h : History} (explained : Explained c none h)
    (live : c.terminated = false) {p : Parked} {r : Visit} (resumed : ResumedSince h p r)
    (files : FileTree) (step : Step)
    (set : c.registry.shouldStop (c.resolve files step).1.source.path
      (c.resolve files step).1.line = true) :
    c.stopsAt files step = true ↔
      ∃ n ∈ (c.resolve files step).1.line :: (observedSinceResume h).map (·.location.line),
        n ≠ r.location.line := by
  have free : c.runTillNextLine = false := by
    have never := (runningFreely_iff h).mp (resumed_runningFreely resumed)
    rw [← explained.stepping live] at never
    simpa using never
  have same := Controller.approach_changes c files step
  have location : (c.approach files step).2.location = (c.resolve files step).1 := rfl
  rw [location] at same
  have arrived : (c.approach files step).1.resumedFrom = some (c.resolve files step).1.line ↔
      resumedLine? h = some (c.resolve files step).1.line := by
    rw [same, ← explained.resumed]
    dsimp only
    split <;> simp [*]
  have registry : (c.approach files step).1.registry = c.registry := by rw [same]
  rw [Controller.stopsAt, Controller.shouldStop_free (by rw [same]; exact free), location, registry,
    Ne, arrived, resumedLine?_iff resumed.resumed]
  simp only [set, and_true, Classical.not_forall, exists_prop, Ne]

/-- Nothing but line numbers tells a controller that it has left the line of its last stop; the
files that the lines belong to have no part in it. Stepping, it stops at an instruction exactly if
the number is not that of the stop. Resumed, it stops at a breakpoint exactly if the line or one
that has been seen since has another number than the one that it was resumed from. -/
theorem line_left_by_number {loader : Loader} {registry : Registry} {maxFrames : Nat}
    {c : Controller} {h : History} (run : Run (.fresh loader registry maxFrames) (.running c) h)
    (live : c.terminated = false) (inactive : c.jump.isActive = false)
    (silent : c.channel.commands = []) (files : FileTree) (step : Step) :
    (∀ p, SteppingFrom h p →
      (c.Stops files step ↔ (c.resolve files step).1.line ≠ p.line)) ∧
    (∀ p r, ResumedSince h p r →
      c.registry.shouldStop (c.resolve files step).1.source.path
        (c.resolve files step).1.line = true →
      (c.Stops files step ↔
        ∃ n ∈ (c.resolve files step).1.line :: (observedSinceResume h).map (·.location.line),
          n ≠ r.location.line)) := by
  have awake := Controller.isIdle_eq_false.mpr ⟨live, inactive⟩
  have wellformed := run_wellformed run (fresh_wellformed loader registry maxFrames)
  have explained := run_explained run
  have stops := silent_stops_iff awake wellformed.tended silent files step
  constructor
  · intro p stepping
    exact stops.trans (stepping_stopsAt explained live stepping files step)
  · intro p r resumed set
    exact stops.trans (resumed_stopsAt explained live resumed files step set)

/-- A project with one code, whose instructions stand on the first line of one file and on the first
and the second line of another one. -/
def Loader.twoFiles : Loader where
  projectRoot := "."
  buildDir := "build"
  cache := [((⟨"5b5b5b"⟩, false), {
    sources := .ofList [(0, .ofText "A.sol" "a\n"), (1, .ofText "B.sol" "b\nc\n")]
    index :=
      ⟨[(0, { offset := 0, length := 1 }), (1, { offset := 0, length := 1, fileIndex := some 1 }),
        (2, { offset := 2, length := 1, fileIndex := some 1 })]⟩ })]

def Step.inTwoFiles (pc : Nat) : Step := { pc, opcode := 0x5b, code := some ⟨"5b5b5b"⟩ }

def Thread.inTwoFiles : Thread :=
  .fresh .twoFiles (Registry.add ⟨default, .empty, .empty⟩ "B.sol" 1).2 1

/-- Whether an instruction belongs to another file than the last stop, as breakpoints
are compared. -/
def Controller.EntersFile (c : Controller) (files : FileTree) (step : Step) (p : Parked) : Prop :=
  ∃ left entered, p.visit.location.source.path = some left ∧
    (c.resolve files step).1.source.path = some entered ∧
    c.registry.normalizer.normalize left ≠ c.registry.normalizer.normalize entered

theorem other_number_in_other_file_stops :
    (∃ c h p, Run .inTwoFiles (.running c) h ∧ c.isIdle = false ∧ c.channel.queue = [] ∧
      SteppingFrom h p ∧ c.EntersFile {} (.inTwoFiles 2) p ∧ c.Stops {} (.inTwoFiles 2)) ∧
    ∃ c h p, Run .inTwoFiles (.running c) h ∧ c.isIdle = false ∧ c.channel.queue = [] ∧
      ResumedSince h p p.visit ∧ c.EntersFile {} (.inTwoFiles 1) p ∧
      (c.resolve {} (.inTwoFiles 1)).1.line = p.line ∧ c.Stops {} (.inTwoFiles 1) := by
  have observed := ((Run.start (s := .inTwoFiles)).sent 0 .suspend rfl).move
    (.observe {} (.inTwoFiles 0) rfl)
  have stopped := observed.move (.dispatch (.take rfl))
  constructor
  · have stepped := (stopped.sent 0 .stepInto rfl).move (.dispatch (.answer rfl))
    refine ⟨_, _, _, stepped, rfl, rfl, ⟨rfl, by decide⟩, ⟨_, _, rfl, rfl, by decide +kernel⟩, ?_⟩
    exact ((line_left_by_number stepped rfl rfl rfl {} _).1 _ ⟨rfl, by decide⟩).mpr
      (by decide +kernel)
  · have resumed := (stopped.sent 0 .resume rfl).move (.dispatch (.answer rfl))
    have passed := (resumed.move (.observe {} (.inTwoFiles 2) rfl)).move (.dispatch (.take rfl))
    refine ⟨_, _, _, passed, rfl, rfl, ⟨rfl, rfl, by decide⟩, ⟨_, _, rfl, rfl, by decide +kernel⟩,
      by decide +kernel, ?_⟩
    exact ((line_left_by_number passed rfl rfl rfl {} _).2 _ _ ⟨rfl, rfl, by decide⟩
      (by decide +kernel)).mpr (by decide +kernel)

/-- Another file is entered on a line with the number of the last stop: neither a step nor a
breakpoint stops the controller there. -/
theorem same_number_in_other_file_missed :
    (∃ c h p, Run .inTwoFiles (.running c) h ∧ c.isIdle = false ∧ c.channel.queue = [] ∧
      SteppingFrom h p ∧ c.EntersFile {} (.inTwoFiles 1) p ∧ ¬ c.Stops {} (.inTwoFiles 1)) ∧
    ∃ c h p, Run .inTwoFiles (.running c) h ∧ c.isIdle = false ∧ c.channel.queue = [] ∧
      ResumedSince h p p.visit ∧ c.EntersFile {} (.inTwoFiles 1) p ∧
      c.registry.shouldStop (c.resolve {} (.inTwoFiles 1)).1.source.path
        (c.resolve {} (.inTwoFiles 1)).1.line = true ∧
      ¬ c.Stops {} (.inTwoFiles 1) := by
  have observed := ((Run.start (s := .inTwoFiles)).sent 0 .suspend rfl).move
    (.observe {} (.inTwoFiles 0) rfl)
  have stopped := observed.move (.dispatch (.take rfl))
  constructor
  · have stepped := (stopped.sent 0 .stepInto rfl).move (.dispatch (.answer rfl))
    refine ⟨_, _, _, stepped, rfl, rfl, ⟨rfl, by decide⟩, ⟨_, _, rfl, rfl, by decide +kernel⟩, ?_⟩
    rintro ⟨p, parked, _⟩
    contradiction
  · have resumed := (stopped.sent 0 .resume rfl).move (.dispatch (.answer rfl))
    refine ⟨_, _, _, resumed, rfl, rfl, ⟨rfl, rfl, by decide⟩, ⟨_, _, rfl, rfl, by decide +kernel⟩,
      by decide +kernel, ?_⟩
    rintro ⟨p, parked, _⟩
    contradiction

end SourceStepper
