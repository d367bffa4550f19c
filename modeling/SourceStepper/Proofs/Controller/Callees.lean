import SourceStepper.Proofs.Controller.Leftover
import SourceStepper.Proofs.Controller.Stepping

/-! Where a `stepOver` stops within the functions that its line calls. It counts jump destinations
instead of calls: behind the first call on the line, every second one ends the skip, whoever it
belongs to, and the calls behind that are entered. -/
namespace SourceStepper

structure Waypoint where
  step : Step
  location : Location
  skipped : Bool

namespace Waypoint

def passage (x : Waypoint) : Passage := ⟨x.step, if x.skipped then none else some x.location⟩

def isCall (x : Waypoint) : Bool := x.location.isCallJump x.step

def isJumpdest (x : Waypoint) : Bool := x.step.opcode.isJumpdest

def enters (x : Waypoint) : Bool :=
  x.step.opcode.isJump && x.location.element.map (·.jump) = some .into

/-- Whether an instruction jumps out of a function, by the source map. -/
def leaves (x : Waypoint) : Bool :=
  x.step.opcode.isJump && x.location.element.map (·.jump) = some .out

end Waypoint

/-- How many calls deeper a way has led: the functions that it has entered without leaving them,
less those that it has left without entering them. -/
def depth (way : List Waypoint) : Int :=
  way.countP Waypoint.enters - way.countP Waypoint.leaves

/-- A way on which calls are well nested: a jump into a function lands on its entry, and the jump
out of it that belongs to it on the return site. -/
inductive WellNested : List Waypoint → Prop
  | nil : WellNested []
  | plain {x : Waypoint} {rest : List Waypoint} (stays : x.enters = false)
      (within : x.leaves = false) (tail : WellNested rest) : WellNested (x :: rest)
  | call {jump entry out site : Waypoint} {body rest : List Waypoint} (enters : jump.enters = true)
      (lands : entry.isJumpdest = true) (inner : WellNested (entry :: body))
      (leaves : out.leaves = true) (returns : site.isJumpdest = true)
      (tail : WellNested (site :: rest)) :
      WellNested (jump :: entry :: body ++ out :: site :: rest)

/-- The way from a stop on that has been answered, while no host sends a command, no frame is left
and the controller does not stop. Hosts may edit breakpoints in between. -/
inductive Walked (p : Parked) (answered : Controller) : List Waypoint → Controller → Prop
  | start : Walked p answered [⟨p.visit.step, p.visit.location, false⟩] answered
  | aside {way : List Waypoint} {c d : Controller} (walked : Walked p answered way c)
      (silent : Thread.Move (.running c) [] (.running d)) : Walked p answered way d
  | traced {way : List Waypoint} {c d : Controller} (walked : Walked p answered way c)
      (files : FileTree) (step : Step) (passed : c.trace files step = .passed d) :
      Walked p answered (way ++ [⟨step, (c.resolve files step).1, c.jump.isActive⟩]) d

/-- How many jump destinations a `stepOver` skips from a stop on. A skip that is active at the stop
stays as it is. -/
def Parked.destinations (p : Parked) : Nat :=
  if p.controller.jump.isActive then p.controller.jump.remaining else 2

theorem depth_append (before after : List Waypoint) :
    depth (before ++ after) = depth before + depth after := by
  simp only [depth, List.countP_append]
  omega

theorem enters_or_leaves (x : Waypoint) : x.enters = false ∨ x.leaves = false := by
  simp only [Waypoint.enters, Waypoint.leaves]
  cases x.step.opcode.isJump
  · simp
  · by_cases into : x.location.element.map (·.jump) = some .into <;> simp [into]

theorem depth_call {jump out : Waypoint} {body : List Waypoint} (enters : jump.enters = true)
    (inner : depth body = 0) (leaves : out.leaves = true) : depth (jump :: body ++ [out]) = 0 := by
  have stays : jump.leaves = false := by simpa [enters] using enters_or_leaves jump
  have within : out.enters = false := by simpa [leaves] using enters_or_leaves out
  have split : jump :: body ++ [out] = [jump] ++ body ++ [out] := by simp
  rw [split, depth_append, depth_append, inner]
  simp [depth, enters, stays, leaves, within]

theorem WellNested.depth_eq {way : List Waypoint} (nested : WellNested way) : depth way = 0 := by
  induction nested with
  | nil => rfl
  | plain stays within _ ih => simpa [depth, stays, within] using ih
  | @call jump entry out site body rest enters _ _ leaves _ _ inner tail =>
    have split : jump :: entry :: body ++ out :: site :: rest =
        (jump :: (entry :: body) ++ [out]) ++ (site :: rest) := by simp
    rw [split, depth_append, depth_call enters inner leaves, tail, Int.add_zero]

theorem enters_isCall {x : Waypoint} (enters : x.enters = true) : x.isCall = true := by
  simp only [Waypoint.enters, Bool.and_eq_true, decide_eq_true_eq] at enters
  simp [Waypoint.isCall, Location.isCallJump, enters.1, enters.2]

theorem entered_of_depth {way : List Waypoint} (deeper : 0 < depth way) :
    ∃ x ∈ way, x.enters = true := by
  have some_ : 0 < way.countP Waypoint.enters := by
    simp only [depth] at deeper
    omega
  exact List.countP_pos_iff.mp some_

theorem walked_followed {p : Parked} {answered c : Controller} {way : List Waypoint}
    (walked : Walked p answered way c) : Followed p answered (way.map Waypoint.passage) c := by
  induction walked with
  | start => exact .start
  | aside _ silent ih => exact .aside ih silent
  | traced _ files step passed ih =>
    rw [List.map_append]
    exact .traced ih passed

def SkipOver (line length : Nat) (trail : List Passage) : Prop :=
  ∃ before call after, FirstCall line trail before call after ∧
    length ≤ after.countP Passage.isJumpdest

/-- A step stops at the first instruction on another line that is not skipped. -/
theorem stage_stops_iff {line : Nat} {kind? : Option SkipKind} {trail : List Passage}
    {c : Controller} (undisturbed : Undisturbed line c)
    (stage : Stage line kind? trail c.armed c.jump) (files : FileTree) (step : Step) :
    (∃ q, c.trace files step = .parked q) ↔
      (c.resolve files step).1.line ≠ line ∧ ¬ Skipping line (skipLength kind?) trail := by
  rw [← stage_skipping stage]
  cases active : c.jump.isActive with
  | true => simp [trace_skipped undisturbed active]
  | false =>
    obtain ⟨d, _, _, _, _, _, _, traced⟩ := trace_undisturbed undisturbed active files step
    rw [traced]
    by_cases here : (c.resolve files step).1.line = line <;> simp [here]

/-- A way leads into a function only past the first call on the line. -/
theorem deeper_skipOver {line : Nat} {kind? armed : Option SkipKind} {way : List Waypoint}
    {jump : JumpSkip} (stage : Stage line kind? (way.map Waypoint.passage) armed jump)
    (deeper : 0 < depth way) :
    ¬ Skipping line (skipLength kind?) (way.map Waypoint.passage) ↔
      SkipOver line (skipLength kind?) (way.map Waypoint.passage) := by
  generalize split : way.map Waypoint.passage = trail at stage
  cases stage with
  | waiting onLine =>
    obtain ⟨x, member, enters⟩ := entered_of_depth deeper
    have quiet := onLine x.passage (split ▸ List.mem_map_of_mem member)
    cases skipped : x.skipped with
    | true => simp [Waypoint.passage, Passage.line?, skipped] at quiet
    | false =>
      have call := enters_isCall enters
      simp only [Waypoint.isCall] at call
      simp [Waypoint.passage, Passage.isCall, skipped, call] at quiet
  | @called before after call first =>
    constructor
    · intro ended
      refine ⟨before, call, after, first, Nat.le_of_not_lt fun fewer => ?_⟩
      exact ended ⟨before, call, after, first, fewer⟩
    · rintro ⟨_, _, _, first', ended⟩ ⟨_, _, _, first'', fewer⟩
      rw [firstCall_unique first'' first'] at fewer
      exact Nat.not_lt_of_le ended fewer

theorem stepOver_stage {p : Parked} {h : History} (wellformed : (Thread.parked p).Wellformed)
    (skip : SkipHere p.visit h p.controller.jump)
    (only : p.controller.channel.commands = [.stepOver]) :
    ∃ answered kind, p.answer? = some (.passed answered) ∧ Undisturbed p.line answered ∧
      p.destinations = skipLength (some kind) ∧
      Stage p.line (some kind)
      [⟨p.visit.step, some p.visit.location⟩] answered.armed answered.jump := by
  generalize start : p.controller.jump = jump at skip
  cases skip with
  | unused _ =>
    have inactive : p.controller.jump.isActive = false := start ▸ rfl
    obtain ⟨answered, answer, undisturbed, stage⟩ :=
      answered_stage wellformed inactive (some .stepOver) only
    refine ⟨answered, .stepOver, answer, undisturbed, ?_, stage⟩
    rw [Parked.destinations, inactive]
    rfl
  | @started kind _ call =>
    have active : p.controller.jump.isActive = true := by cases kind <;> exact start ▸ rfl
    obtain ⟨stepping, _, here⟩ := wellformed.stopped p rfl
    obtain ⟨channel, taken, silent⟩ := Channel.takeFromHost?_first only
    have tended := Channel.takeFromHost?_tended wellformed.tended taken
    have answer := answer?_eq taken
    simp only [Controller.obey, Controller.armOrSkip, call, JumpSkip.start,
      JumpSkip.stepOver, active, if_true, Obeyed.lead] at answer
    refine ⟨_, kind, answer, ⟨wellformed.live rfl, stepping, here, tended, silent⟩, ?_, ?_⟩
    · rw [Parked.destinations, if_pos active, start]
      rfl
    · have first : FirstCall p.line [⟨p.visit.step, some p.visit.location⟩] []
          ⟨p.visit.step, some p.visit.location⟩ [] :=
        ⟨rfl, call, by simp, by simp [Passage.line?, Parked.line]⟩
      have stage : Stage p.line (some kind) _ none _ := .called first
      simpa [Controller.leave, start, skipLength] using stage

/-- A way that comes to one call, of a function with fewer jump destinations than are skipped, and
to no jump in front of it that might be a call. -/
inductive SingleCall (destinations : Nat) : List Waypoint → Prop
  | intro {before body rest : List Waypoint} {jump out : Waypoint}
      (straight : ∀ x ∈ before, x.isCall = false) (enters : jump.enters = true)
      (inner : WellNested body) (few : body.countP Waypoint.isJumpdest < destinations)
      (leaves : out.leaves = true) (last : ∀ x ∈ rest, x.enters = false) :
      SingleCall destinations (before ++ (jump :: body ++ out :: rest))

theorem prefix_split {α : Type} {before rest way : List α} (within : way <+: before ++ rest) :
    way <+: before ∨ ∃ more, way = before ++ more ∧ more <+: rest := by
  rcases List.prefix_or_prefix_of_prefix within (List.prefix_append before rest) with short | long
  · exact .inl short
  · obtain ⟨more, rfl⟩ := long
    exact .inr ⟨more, rfl, (List.prefix_append_right_inj before).mp within⟩

theorem depth_nonpos {way : List Waypoint} (stays : ∀ x ∈ way, x.enters = false) :
    depth way ≤ 0 := by
  refine Int.not_lt.mp fun deeper => ?_
  obtain ⟨x, member, enters⟩ := entered_of_depth deeper
  rw [stays x member] at enters
  contradiction

theorem straight_stays {x : Waypoint} (straight : x.isCall = false) : x.enters = false := by
  cases enters : x.enters with
  | false => rfl
  | true => rw [enters_isCall enters] at straight; contradiction

theorem within_call_few {line destinations : Nat} {before more body : List Waypoint}
    {jump : Waypoint} (straight : ∀ x ∈ before, x.isCall = false) (within : more <+: jump :: body)
    (ended : SkipOver line destinations ((before ++ more).map Waypoint.passage)) :
    destinations ≤ body.countP Waypoint.isJumpdest := by
  obtain ⟨b, call, after, first, enough⟩ := ended
  have quiet : ∀ x ∈ before.map Waypoint.passage, (!x.isCall) = true := by
    intro x member
    obtain ⟨y, there, rfl⟩ := List.mem_map.mp member
    have none := straight y there
    simp only [Waypoint.isCall] at none
    cases skipped : y.skipped <;> simp [Waypoint.passage, Passage.isCall, skipped, none]
  have rest : (more.map Waypoint.passage).dropWhile (!·.isCall) = call :: after := by
    rw [← List.dropWhile_append_of_pos quiet, ← List.map_append, first.split,
      List.dropWhile_append_of_pos (by simpa using first.first), List.dropWhile_cons_of_neg]
    simp [first.isCall]
  have sub : (call :: after).Sublist ((jump :: body).map Waypoint.passage) :=
    rest ▸ (List.dropWhile_sublist _).trans (within.sublist.map _)
  have few := sub.tail.countP_le (p := Passage.isJumpdest)
  rw [List.map_cons, List.tail_cons, List.tail_cons, List.countP_map] at few
  exact Nat.le_trans enough few

theorem singleCall_shallow {line destinations : Nat} {way whole : List Waypoint}
    (single : SingleCall destinations whole) (within : way <+: whole)
    (ended : SkipOver line destinations (way.map Waypoint.passage)) : depth way ≤ 0 := by
  cases single with
  | @intro before body rest jump out straight enters inner few leaves last =>
    rcases prefix_split within with short | ⟨more, rfl, long⟩
    · exact depth_nonpos fun x member => straight_stays (straight x (short.subset member))
    · rcases prefix_split long with inside | ⟨back, rfl, behind⟩
      · exact absurd (within_call_few straight inside ended) (Nat.not_le_of_lt few)
      · cases back with
        | nil =>
          rw [List.append_nil] at ended
          exact absurd (within_call_few straight List.prefix_rfl ended) (Nat.not_le_of_lt few)
        | cons x back =>
          obtain ⟨rfl, tail⟩ := List.cons_prefix_cons.mp behind
          have front := depth_nonpos fun y member => straight_stays (straight y member)
          have call := depth_call enters inner.depth_eq leaves
          have after := depth_nonpos fun y member => last y (tail.subset member)
          have split : before ++ (jump :: body ++ x :: back) =
              before ++ ((jump :: body ++ [x]) ++ back) := by simp
          rw [split, depth_append, depth_append, call]
          omega

/-- After a stop that is answered by `stepOver`, and by nothing else, an instruction within a
function that has been entered since is the next stop exactly if it is on another line and the skip
is over: the first call on the line is behind, and as many jump destinations as are skipped. A
single call, of a function without jump destinations but its entry, is not entered. -/
theorem stop_in_callee_iff {loader : Loader} {registry : Registry} {maxFrames : Nat} {p : Parked}
    {h : History} (run : Run (.fresh loader registry maxFrames) (.parked p) h)
    (only : p.controller.channel.commands = [.stepOver]) :
    ∃ answered, p.answer? = some (.passed answered) ∧
      ∀ way c, Walked p answered way c → ∀ files step,
        (0 < depth way →
          ((∃ q, c.trace files step = .parked q) ↔
            (c.resolve files step).1.line ≠ p.line ∧
              SkipOver p.line p.destinations (way.map Waypoint.passage))) ∧
        (∀ whole, SingleCall p.destinations whole → way <+: whole →
          (∃ q, c.trace files step = .parked q) → depth way ≤ 0) := by
  have wellformed := run_wellformed run (fresh_wellformed loader registry maxFrames)
  obtain ⟨answered, kind, answer, undisturbed, destinations, stage⟩ :=
    stepOver_stage wellformed (run_skip run p.visit rfl) only
  refine ⟨answered, answer, ?_⟩
  intro way c walked files step
  obtain ⟨undisturbed, stage⟩ := followed_stage undisturbed stage (walked_followed walked)
  have stops := stage_stops_iff undisturbed stage files step
  have exactly : 0 < depth way →
      ((∃ q, c.trace files step = .parked q) ↔
        (c.resolve files step).1.line ≠ p.line ∧
          SkipOver p.line p.destinations (way.map Waypoint.passage)) := by
    intro deeper
    rw [stops, deeper_skipOver stage deeper, destinations]
  refine ⟨exactly, ?_⟩
  intro whole single within stop
  refine Int.not_lt.mp fun deeper => ?_
  have ended := ((exactly deeper).mp stop).2
  exact Int.not_lt.mpr (singleCall_shallow single within ended) deeper

/-- A project with one code: its first line calls the function on its second line, which goes on
behind a jump destination of its own or does not, and returns to the first line, which the third
one follows. -/
def Loader.oneCall : Loader where
  projectRoot := "."
  buildDir := "build"
  cache := [((⟨"565b5701565b565b00"⟩, false), {
    sources := .ofList [(0, .ofText "A.sol" "a\nb\nc\n")]
    index := ⟨[(0, { offset := 0, length := 1, jump := .into }), (1, { offset := 2, length := 1 }),
      (2, { offset := 2, length := 1 }), (3, { offset := 2, length := 1 }),
      (4, { offset := 2, length := 1, jump := .out }), (5, { offset := 2, length := 1 }),
      (6, { offset := 2, length := 1, jump := .out }), (7, { offset := 0, length := 1 }),
      (8, { offset := 4, length := 1 })]⟩ })]

def Step.inOneCall (pc : Nat) : Step where
  pc := pc
  opcode := [0x56, 0x5b, 0x57, 0x01, 0x56, 0x5b, 0x56, 0x5b, 0x00].getD pc 0
  code := some ⟨"565b5701565b565b00"⟩

def Thread.inOneCall : Thread := .fresh .oneCall ⟨default, .empty, .empty⟩ 1

def Waypoint.inOneCall (pc : Nat) : Waypoint :=
  ⟨.inOneCall pc, (Thread.inOneCall.controller.resolve {} (.inOneCall pc)).1, false⟩

/-- Where the function does not branch, it is skipped as a whole, and the next stop is on the
third line. -/
theorem straight_callee_skipped :
    ∃ p h answered way c, Run .inOneCall (.parked p) h ∧
      p.controller.channel.commands = [.stepOver] ∧ p.answer? = some (.passed answered) ∧
      Walked p answered way c ∧ way.map (·.step.pc) = [0, 1, 2, 3, 4, 7] ∧
      (∃ q, c.trace {} (.inOneCall 8) = .parked q) ∧ depth way ≤ 0 := by
  have observed := ((Run.start (s := .inOneCall)).sent 0 .suspend rfl).move
    (.observe {} (.inOneCall 0) rfl)
  have stopped := (observed.move (.dispatch (.take rfl))).sent 0 .stepOver rfl
  obtain ⟨answered, answer, stops⟩ := stop_in_callee_iff stopped rfl
  cases answer
  have walk := fun way c walked => And.intro walked (stops way c walked)
  obtain ⟨walked, stops⟩ := walk _ _ (.traced (.traced (.traced (.traced (.traced .start
    {} (.inOneCall 1) rfl) {} (.inOneCall 2) rfl) {} (.inOneCall 3) rfl) {} (.inOneCall 4) rfl)
    {} (.inOneCall 7) rfl)
  refine ⟨_, _, _, _, _, stopped, rfl, rfl, walked, rfl, ⟨_, rfl⟩, ?_⟩
  refine (stops {} (.inOneCall 8)).2 _ ?_ List.prefix_rfl ⟨_, rfl⟩
  exact @SingleCall.intro _ [] [_, _, _] [_] _ _ nofun rfl
    (.plain rfl rfl (.plain rfl rfl (.plain rfl rfl .nil))) (by decide +kernel) rfl (by simp; rfl)

/-- Where the function branches, the jump destination behind the branch ends the skip, and the next
stop is within the function. -/
theorem branching_callee_entered :
    ∃ p h answered way c rest, Run .inOneCall (.parked p) h ∧
      p.controller.channel.commands = [.stepOver] ∧ p.answer? = some (.passed answered) ∧
      Walked p answered way c ∧ way.map (·.step.pc) = [0, 1, 2, 5] ∧
      (∃ q, c.trace {} (.inOneCall 6) = .parked q) ∧ 0 < depth way ∧ WellNested (way ++ rest) ∧
      rest.map (·.step.pc) = [6, 7, 8] := by
  have observed := ((Run.start (s := .inOneCall)).sent 0 .suspend rfl).move
    (.observe {} (.inOneCall 0) rfl)
  have stopped := (observed.move (.dispatch (.take rfl))).sent 0 .stepOver rfl
  refine ⟨_, _, _, _, _, [.inOneCall 6, .inOneCall 7, .inOneCall 8], stopped, rfl, rfl,
    .traced (.traced (.traced .start {} (.inOneCall 1) rfl) {} (.inOneCall 2) rfl) {}
      (.inOneCall 5) rfl,
    rfl, ⟨_, rfl⟩, by decide +kernel, ?_, rfl⟩
  exact @WellNested.call _ _ _ _ [_, _] [_] rfl rfl
    (.plain rfl rfl (.plain rfl rfl (.plain rfl rfl .nil))) rfl rfl
    (.plain rfl rfl (.plain rfl rfl .nil))

end SourceStepper
