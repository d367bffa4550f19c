import SourceStepper.Proofs.Controller.Answers

/-! Where a controller stops when its host only ever resumes. Execution then runs freely between the
stops, and a breakpoint stops it each time it comes to the line from another one. -/
namespace SourceStepper

inductive Sight
  | instruction (files : FileTree) (step : Step)
  | frameLeft

/-- An instruction that has been shown, with the stops that hosts have been told of. -/
structure Shown where
  location : Location
  stops : List Parked
  settled : Settled

def Shown.line (x : Shown) : Nat := x.location.line

/-- Show a controller what the machine does, with a host that answers every stop with one `resume`
and sends nothing else. -/
def Controller.shown (c : Controller) : List Sight → List Shown
  | [] => []
  | .frameLeft :: rest => c.leaveFrame.shown rest
  | .instruction files step :: rest =>
    let (settled, _, stops) := (c.trace files step).settle []
    ⟨(c.resolve files step).1, stops, settled⟩ :: settled.controller.shown rest

/-- A controller that only breakpoints stop. It knows of the line that it was on last if a
breakpoint has stopped it there. -/
structure RunsFreely (registry : Registry) (path : Option String) (last? : Option Nat)
    (c : Controller) :
    Prop where
  awake : c.isIdle = false
  free : c.runTillNextLine = false
  isOpen : c.channel.isOpen = true
  empty : c.channel.queue = []
  fixed : c.registry = registry
  resumed : c.resumedFrom = last?.filter (registry.shouldStop path)

theorem settle_resumed {p : Parked} (isOpen : p.controller.channel.isOpen = true)
    (empty : p.controller.channel.queue = []) :
    (Traced.parked p).settle [] =
      (.passed { p.controller with
        runTillNextLine := false
        armed := none
        resumedFrom := some p.line
        phase := .running }, [], [p]) := by
  have sent : p.controller.channel.enqueue ⟨.resume, .host⟩ =
      { p.controller.channel with queue := [⟨.resume, .host⟩] } := by
    rw [Channel.enqueue_open isOpen, empty]
    rfl
  have same : { p.controller.channel with queue := [] } = p.controller.channel := by rw [← empty]
  simp [Traced.settle, answerStops, Script.next, HostAction.apply, sent, Parked.answer?,
    Channel.takeFromHost?, Envelope.isHost, same, Controller.obey, Controller.leave, Parked.line]

section

variable {registry : Registry} {path : Option String} {last? : Option Nat} {c : Controller}

theorem free_shouldStop (free : RunsFreely registry path last? c) {l : Location}
    (here : l.source.path = path) :
    c.shouldStop l = true ↔ registry.shouldStop path l.line = true ∧ last? ≠ some l.line := by
  have resumed : c.resumedFrom = some l.line ↔
      last? = some l.line ∧ registry.shouldStop path l.line = true := by
    rw [free.resumed, Option.filter_eq_some_iff]
  rw [Controller.shouldStop_free free.free, free.fixed, here, Ne, resumed]
  constructor
  · rintro ⟨elsewhere, set⟩
    exact ⟨set, fun last => elsewhere ⟨last, set⟩⟩
  · rintro ⟨set, other⟩
    exact ⟨fun resumed => other resumed.1, set⟩

theorem filter_here (p : Nat → Bool) (last? : Option Nat) (line : Nat) :
    (if last?.filter p = some line then last?.filter p else none) =
      (last?.filter (· = line)).filter p := by
  cases last? with
  | none => rfl
  | some last =>
    by_cases here : last = line <;> cases set : p last <;> simp [Option.filter, here, set]

theorem free_arrives (free : RunsFreely registry path last? c) (files : FileTree) (step : Step) :
    ∃ d, RunsFreely registry path (last?.filter (· = (c.resolve files step).1.line)) d ∧
      c.trace files step = (d.obey ⟨step, (c.resolve files step).1⟩ .execute).lead
        ⟨step, (c.resolve files step).1⟩ fun e => .passed e.leave := by
  have visit : (c.approach files step).2 = ⟨step, (c.resolve files step).1⟩ := rfl
  have queue : c.channel.queue ++ [pulse] = pulse :: [] := by rw [free.empty]; rfl
  have traced := Controller.trace_first free.awake free.isOpen files step queue
  have same := Controller.approach_changes c files step
  rw [visit] at traced same
  refine ⟨_, ?_, traced⟩
  rw [same]
  refine ⟨free.awake, free.free, free.isOpen, rfl, free.fixed, ?_⟩
  dsimp only
  rw [free.resumed]
  exact filter_here _ last? _

/-- The pulse stops a controller at a breakpoint on a new line, and the host has it resume. -/
theorem free_obeys {v : Visit} (free : RunsFreely registry path last? c)
    (here : v.location.source.path = path)
    (arrived : ∀ last, last? = some last → last = v.location.line) :
    ∃ d stops, ((c.obey v .execute).lead v fun e => .passed e.leave).settle [] =
        (.passed d, [], stops) ∧
      RunsFreely registry path (some v.location.line) d ∧
      stops.length =
        if registry.shouldStop path v.location.line = true ∧ last? ≠ some v.location.line then 1
        else 0 := by
  have stops := free_shouldStop free here
  by_cases stop : c.shouldStop v.location = true
  · have set := (stops.mp stop).1
    have obeyed : c.obey v .execute = .stops { c with runTillNextLine := false } := by
      simp [Controller.obey, stop]
    rw [obeyed, if_pos (stops.mp stop)]
    refine ⟨_, _, settle_resumed free.isOpen free.empty, ?_, rfl⟩
    refine ⟨free.awake, rfl, free.isOpen, free.empty, free.fixed, ?_⟩
    simp [Parked.line, Controller.park, Option.filter, set]
  · have obeyed : c.obey v .execute = .handled c := by
      simp [Controller.obey, stop, Controller.goOn, free.free]
    rw [obeyed, if_neg (mt stops.mpr stop)]
    refine ⟨c.leave, [], rfl, ?_, rfl⟩
    refine ⟨free.awake, free.free, free.isOpen, free.empty, free.fixed, ?_⟩
    refine free.resumed.trans ?_
    -- Without a stop, the line is the last one still, or has no breakpoint.
    cases last? with
    | some last => rw [arrived last rfl]
    | none =>
      have unset : registry.shouldStop path v.location.line = false := by simpa [stops] using stop
      simp [Option.filter, unset]

theorem left_free (free : RunsFreely registry path last? c) :
    RunsFreely registry path last? c.leaveFrame := by
  have live := (Controller.isIdle_eq_false.mp free.awake).1
  have awake : c.leaveFrame.isIdle = false := Controller.isIdle_eq_false.mpr ⟨live, rfl⟩
  exact ⟨awake, rfl, free.isOpen, free.empty, free.fixed, free.resumed⟩

theorem last_line (first : Shown) (rest : List Shown) (last? : Option Nat) :
    ((first :: rest).getLast?.map Shown.line).or last? =
      (rest.getLast?.map Shown.line).or (some first.line) := by
  rw [List.getLast?_cons]
  cases rest.getLast? <;> rfl

theorem free_shown (free : RunsFreely registry path last? c) (files : FileTree) (step : Step)
    (here : (c.resolve files step).1.source.path = path) (rest : List Sight) :
    ∃ d stops, RunsFreely registry path (some (c.resolve files step).1.line) d ∧
      c.shown (.instruction files step :: rest) =
        ⟨(c.resolve files step).1, stops, .passed d⟩ :: d.shown rest ∧
      stops.length =
        if registry.shouldStop path (c.resolve files step).1.line = true ∧
          last? ≠ some (c.resolve files step).1.line then 1 else 0 := by
  obtain ⟨d, arrives, traced⟩ := free_arrives free files step
  obtain ⟨d', stops, settles, free', count⟩ := free_obeys (v := ⟨step, _⟩) arrives here (by simp)
  rw [← traced] at settles
  refine ⟨d', stops, free', by simp [Controller.shown, settles, Settled.controller], ?_⟩
  have same : last?.filter (· = (c.resolve files step).1.line) =
    some (c.resolve files step).1.line ↔
      last? = some (c.resolve files step).1.line := by simp
  simpa only [Ne, same] using count

theorem shown_exact (free : RunsFreely registry path last? c) {sights : List Sight}
    (samePath : ∀ x ∈ c.shown sights, x.location.source.path = path) {before after : List Shown}
    {x : Shown} (split : c.shown sights = before ++ x :: after) :
    (∃ d, x.settled = .passed d) ∧
      x.stops.length =
        if registry.shouldStop path x.line = true ∧
          (before.getLast?.map Shown.line).or last? ≠ some x.line then 1 else 0 := by
  -- What has been shown so far goes over into `last?`, from the front of `before`.
  induction sights generalizing c last? before with
  | nil => simp [Controller.shown] at split
  | cons sight rest ih =>
    cases sight with
    | frameLeft => exact ih (left_free free) samePath split
    | instruction files step =>
      have here : (c.resolve files step).1.source.path = path := samePath _ (List.mem_cons_self ..)
      obtain ⟨d, stops, free', shown, count⟩ := free_shown free files step here rest
      rw [shown] at split samePath
      cases before with
      | nil =>
        cases List.cons.inj split with
        | intro head _ => subst head; exact ⟨⟨d, rfl⟩, count⟩
      | cons first before =>
        obtain ⟨rfl, tail⟩ := List.cons.inj split
        rw [last_line]
        exact ih free' (fun y hy => samePath y (.tail _ hy)) tail

end

/-- With breakpoints that stay as they are, and a host that answers every stop with one `resume`,
a new controller handles every instruction, and stops exactly at those whose line has a
breakpoint and is not the line of the instruction before; and there it stops once. Frames may be
left in between. -/
theorem breakpoint_stops_exact (loader : Loader) (registry : Registry) (maxFrames : Nat)
    {sights : List Sight} {path : Option String}
    (samePath : ∀ x ∈ (Controller.ofParts loader registry maxFrames).shown sights,
      x.location.source.path = path)
    {before after : List Shown} {x : Shown}
    (split : (Controller.ofParts loader registry maxFrames).shown sights = before ++ x :: after) :
    (∃ d, x.settled = .passed d) ∧
      x.stops.length =
        if registry.shouldStop path x.line = true ∧
          before.getLast?.map Shown.line ≠ some x.line then 1
        else 0 := by
  have fresh : RunsFreely registry path none (.ofParts loader registry maxFrames) :=
    ⟨rfl, rfl, rfl, rfl, rfl, rfl⟩
  have exactly := shown_exact fresh samePath split
  rwa [Option.or_none] at exactly

def Loader.twoLines : Loader where
  projectRoot := "."
  buildDir := "build"
  cache := [((⟨"5b56"⟩, false), {
    sources := .ofList [(0, .ofText "A.sol" "a\nb\n")]
    index := ⟨[(0, { offset := 0, length := 1 }), (1, { offset := 2, length := 1 })]⟩ })]

def Sight.ofTwoLines (line : Nat) : Sight :=
  .instruction {} { pc := line - 1, opcode := 0x5b, code := some ⟨"5b56"⟩ }

/-- The line of the breakpoint is entered, left and entered again, with a frame left while it
executes: only the first instruction of each visit stops the controller. -/
theorem breakpoint_stops_on_reentry :
    let registry := (Registry.add ⟨default, .empty, .empty⟩ "A.sol" 2).2
    let shown := (Controller.ofParts .twoLines registry 4).shown
      [.ofTwoLines 1, .ofTwoLines 2, .frameLeft, .ofTwoLines 2, .ofTwoLines 1, .ofTwoLines 2]
    shown.map Shown.line = [1, 2, 2, 1, 2] ∧ shown.map (·.stops.length) = [0, 1, 0, 0, 1] ∧
      (∀ x ∈ shown, x.location.source.path = some "A.sol") ∧
      ∃ before x after, shown = before ++ x :: after ∧ before.length = 4 ∧
        (∃ d, x.settled = .passed d) ∧
        x.stops.length =
          if registry.shouldStop (some "A.sol") x.line = true ∧
            before.getLast?.map Shown.line ≠ some x.line then 1 else 0 := by
  intro registry shown
  have lines : shown.map Shown.line = [1, 2, 2, 1, 2] := by decide +kernel
  have counts : shown.map (·.stops.length) = [0, 1, 0, 0, 1] := by decide +kernel
  have samePath : ∀ x ∈ shown, x.location.source.path = some "A.sol" := by decide +kernel
  have length : shown.length = 5 := by rw [← shown.length_map, lines]; rfl
  have within : 4 < shown.length := by omega
  have split : shown = shown.take 4 ++ shown[4] :: shown.drop 5 := by
    rw [← List.drop_eq_getElem_cons, List.take_append_drop]
  refine ⟨lines, counts, samePath, _, _, _, split, by simp [length], ?_⟩
  exact breakpoint_stops_exact _ registry 4 samePath split

end SourceStepper
