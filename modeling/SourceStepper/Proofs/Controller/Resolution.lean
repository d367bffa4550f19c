import SourceStepper.Proofs.Controller.History
import SourceStepper.Proofs.Loader.Mapping
import SourceStepper.Proofs.Source.Selection

namespace SourceStepper

open SourceMap (Element)
open Loader (Requests Remembers foundAt)

/-- The instructions that have been observed, the latest first. -/
def visitsIn (h : History) : List Visit := h.filterMap Event.observed?

theorem visitsIn_append (es h : History) : visitsIn (es ++ h) = visitsIn es ++ visitsIn h :=
  List.filterMap_append

theorem visitsIn_deeds (c : Controller) (v : Visit) (e : Envelope) :
    visitsIn (c.deeds v e) = [] := by
  have outcome : visitsIn ((c.obey v e.command).outcome v) = [] := by
    cases c.obey v e.command <;> rfl
  have skips : visitsIn ((c.startedSkip? v e.command).toList.map (Event.skipStarted v)) = [] := by
    cases c.startedSkip? v e.command <;> rfl
  rw [Controller.deeds, visitsIn_append, visitsIn_append, outcome, skips]
  rfl

def Step.request? (step : Step) : Option Loader.Request :=
  step.code.map (.mapping · step.isCreation)

def Step.asking (step : Step) (files : FileTree) : Requests := (step.request?.map (files, ·)).toList

def requestsIn (h : History) : List Loader.Request :=
  (visitsIn h).reverse.filterMap (·.step.request?)

theorem requestsIn_append (es h : History) :
    requestsIn (es ++ h) = requestsIn h ++ requestsIn es := by
  rw [requestsIn, visitsIn_append, List.reverse_append, List.filterMap_append]
  rfl

namespace Visit

/-- The element of an instruction has a rendering with a selected line. -/
def Shows (v : Visit) (r : Source.Rendering) : Prop :=
  ∃ e, v.location.element = some e ∧ v.location.mapping.render? e = some r ∧ r.selectedLines ≠ []

/-- The mapping of an instruction is the one that a project has for its code, by what has been asked
for, and its element is what the mapping has for its program counter. -/
structure MappedBy (root dir : String) (asked : Requests) (v : Visit) : Prop where
  unknown : v.step.code = none → v.location.mapping = {}
  known : ∀ code, v.step.code = some code →
    foundAt root dir asked code v.step.isCreation = some v.location.mapping
  element : v.location.element = v.location.mapping.lookup v.step.pc

def shown? (v : Visit) : Option Source.Rendering :=
  Controller.selectedRendering? v.location.mapping v.location.element

theorem shown?_eq_some {v : Visit} {r : Source.Rendering} : v.shown? = some r ↔ v.Shows r := by
  rw [shown?, Controller.selectedRendering?, Option.filter_eq_some_iff, Option.bind_eq_some_iff]
  simp [Shows, Source.Rendering.selectedLines, ← exists_and_right, and_assoc]

end Visit

def Visit.Overflows (v : Visit) : Prop :=
  Controller.overflows v.location.mapping v.location.element = true

def NoneShown (visits : List Visit) : Prop := ∀ w ∈ visits, ∀ r, ¬ w.Shows r

theorem noneShown_iff {visits : List Visit} : visits.findSome? Visit.shown? = none ↔
    NoneShown visits := by
  rw [List.findSome?_eq_none_iff]
  simp only [NoneShown, Option.eq_none_iff_forall_ne_some, ne_eq, Visit.shown?_eq_some]

/-- Of some instructions, the latest one first, the latest that has a rendering with a selected line
has this one. -/
def LatestShown (visits : List Visit) (r : Source.Rendering) : Prop :=
  ∃ later v earlier, visits = later ++ v :: earlier ∧ v.Shows r ∧ NoneShown later

theorem latestShown_iff {visits : List Visit} {r : Source.Rendering} :
    visits.findSome? Visit.shown? = some r ↔ LatestShown visits r := by
  simp only [List.findSome?_eq_some_iff, LatestShown, NoneShown, Visit.shown?_eq_some,
    Option.eq_none_iff_forall_ne_some, ne_eq]

section Loader

variable {root dir : String} {asked : Requests}

theorem found_later {code : CodeText} {isCreation : Bool} {mapping : Mapping}
    (found : foundAt root dir asked code isCreation = some mapping) (step : Step)
    (files : FileTree) :
    foundAt root dir (asked ++ step.asking files) code isCreation = some mapping := by
  rw [Step.asking]
  cases step.request? with
  | none => rwa [Option.map_none, Option.toList_none, List.append_nil]
  | some request =>
    rw [Option.map_some, Option.toList_some, Loader.found_stays, found]
    rfl

theorem Visit.Shows.ofText {v : Visit} {r : Source.Rendering} (shows : v.Shows r)
    (mapped : v.MappedBy root dir asked) :
    ∃ path text e, Source.render? (.ofText path text) e = some r ∧ r.selectedLines ≠ [] := by
  obtain ⟨e, element, rendered, selected⟩ := shows
  cases known : v.step.code with
  | none =>
    rw [mapped.element, mapped.unknown known] at element
    contradiction
  | some code =>
    rw [Mapping.render?, Source.renderIn?] at rendered
    cases held : e.fileIndex.bind v.location.mapping.sources.get? with
    | none =>
      rw [held] at rendered
      cases rendered
      contradiction
    | some file =>
      rw [held] at rendered
      obtain ⟨_, -, read⟩ := Option.bind_eq_some_iff.mp held
      obtain ⟨path, text, rfl⟩ := Loader.source_of_found (mapped.known code known) read
      exact ⟨path, text, e, rendered, selected⟩

theorem Visit.Shows.line {v : Visit} {r : Source.Rendering} (shows : v.Shows r)
    (mapped : v.MappedBy root dir asked) :
    r.path.isSome = true ∧ 1 ≤ r.firstSelected.1 ∧ r.firstSelected.1 ∈ r.selectedLines := by
  obtain ⟨path, text, e, rendered, selected⟩ := shows.ofText mapped
  obtain rfl := Source.eq_rendering rendered
  have first := Source.Rendering.firstSelected_mem selected
  exact ⟨rfl, Source.positive_of_mem_selectedLines first, first⟩

theorem approach_mapped {c : Controller} (remembers : Remembers root dir asked c.loader)
    (files : FileTree) (step : Step) :
    Remembers root dir (asked ++ step.asking files) (c.approach files step).1.loader ∧
      (c.approach files step).2.MappedBy root dir (asked ++ step.asking files) := by
  have loader : (c.approach files step).1.loader = (c.mappingFor files step).2.loader := by
    rw [Controller.approach_changes c files step]
    rfl
  have mapping : (c.approach files step).2.location.mapping = (c.mappingFor files step).1 := rfl
  rw [loader, Step.asking, Step.request?]
  rw [Controller.mappingFor] at mapping ⊢
  cases known : step.code with
  | none =>
    rw [known] at mapping
    rw [Option.map_none, Option.map_none, Option.toList_none, List.append_nil]
    exact ⟨remembers, fun _ => mapping, fun code same => (nomatch known.symm.trans same), rfl⟩
  | some code =>
    rw [known] at mapping
    obtain ⟨later, found⟩ := Loader.resolve_remembers remembers files code step.isCreation
    refine ⟨later, fun absent => (nomatch known.symm.trans absent), fun other same => ?_, rfl⟩
    cases known.symm.trans same
    rw [mapping]
    exact found

end Loader

theorem approach_sources (c : Controller) (files : FileTree) (step : Step) :
    (c.approach files step).1.lastGood = (c.approach files step).2.shown?.or c.lastGood ∧
      (c.approach files step).2.location.source =
        ((c.approach files step).2.shown?.or c.lastGood).getD .placeholder ∧
      (c.approach files step).2.location.line =
        (c.approach files step).2.location.source.firstSelected.1 := by
  rw [Controller.approach_changes c files step]
  cases known : step.code <;> simp [Visit.shown?, Controller.approach, Controller.resolve,
    Controller.mappingFor, known]

theorem approach_failed (c : Controller) (files : FileTree) (step : Step) :
    (c.approach files step).1.failed = true ↔
      (c.approach files step).2.Overflows ∨ c.failed = true := by
  rw [Controller.approach_changes c files step, or_comm]
  cases known : step.code <;> simp [Visit.Overflows, Controller.approach, Controller.resolve,
    Controller.mappingFor, known]

/-- What a controller has resolved, by the instructions observed and what its loader has been
asked for. -/
structure Sourced (root dir : String) (asked : Requests) (c : Controller)
    (visits : List Visit) : Prop where
  remembers : Remembers root dir asked c.loader
  mapped : ∀ v ∈ visits, v.MappedBy root dir asked
  lastGood : c.lastGood = visits.findSome? Visit.shown?
  sources : ∀ later v earlier, visits = later ++ v :: earlier →
    v.location.source = ((v :: earlier).findSome? Visit.shown?).getD .placeholder
  lines : ∀ v ∈ visits, v.location.line = v.location.source.firstSelected.1
  failed : c.failed = true ↔ ∃ v ∈ visits, v.Overflows

section Moves

variable {root dir : String} {asked : Requests}

theorem Sourced.quiet {c d : Controller} {h k : History}
    (sourced : Sourced root dir asked c (visitsIn h)) (unseen : visitsIn k = [])
    (same : d.loader = c.loader ∧ d.lastGood = c.lastGood ∧ d.failed = c.failed) :
    ∃ more, more.map Prod.snd = requestsIn k ∧
      Sourced root dir (asked ++ more) d (visitsIn (k ++ h)) := by
  refine ⟨[], ?_, ?_⟩
  · rw [requestsIn, unseen]
    rfl
  · rw [visitsIn_append, unseen, List.nil_append, List.append_nil]
    obtain ⟨loader, lastGood, failed⟩ := same
    exact ⟨loader ▸ sourced.remembers, sourced.mapped, lastGood.trans sourced.lastGood,
      sourced.sources, sourced.lines, failed ▸ sourced.failed⟩

theorem Sourced.observe {c : Controller} {visits : List Visit}
    (sourced : Sourced root dir asked c visits) (files : FileTree) (step : Step) :
    Sourced root dir (asked ++ step.asking files) (c.approach files step).1
      ((c.approach files step).2 :: visits) := by
  obtain ⟨remembers, mapped⟩ := approach_mapped sourced.remembers files step
  obtain ⟨lastGood, source, line⟩ := approach_sources c files step
  have failed := approach_failed c files step
  generalize (c.approach files step).1 = d at remembers lastGood failed
  generalize (c.approach files step).2 = v at mapped lastGood source line failed
  have shown : (v :: visits).findSome? Visit.shown? = v.shown?.or c.lastGood := by
    rw [List.findSome?_cons, sourced.lastGood]
    cases v.shown? <;> rfl
  refine ⟨remembers, ?_, lastGood.trans shown.symm, ?_, ?_, ?_⟩
  · -- What has been found for a code once is found at every later request.
    rw [List.forall_mem_cons]
    refine ⟨mapped, fun w member => ?_⟩
    have before := sourced.mapped w member
    exact ⟨before.unknown, fun code known => found_later (before.known code known) step files,
      before.element⟩
  · intro later w earlier split
    cases later with
    | nil =>
      cases split
      rw [shown, source]
    | cons _ later => exact sourced.sources later w earlier (List.cons.inj split).2
  · rw [List.forall_mem_cons]
    exact ⟨line, sourced.lines⟩
  · rw [failed, sourced.failed, List.exists_mem_cons_iff]

theorem move_sourced {t u : Thread} {h es : History}
    (sourced : Sourced root dir asked t.controller (visitsIn h))
    (move : t.Move es u) :
    ∃ more, more.map Prod.snd = requestsIn es ∧
      Sourced root dir (asked ++ more) u.controller (visitsIn (es ++ h)) := by
  cases move with
  | @host _ commands channel moved =>
    have unseen : visitsIn (commands.map Event.sent).reverse = [] := by
      simp [visitsIn, List.filterMap_eq_nil_iff, Event.observed?]
    rw [Thread.controller_update]
    exact sourced.quiet unseen ⟨rfl, rfl, rfl⟩
  | edit change =>
    rw [Thread.controller_update]
    exact sourced.quiet (k := []) rfl ⟨rfl, rfl, rfl⟩
  | @pass _ _ _ step idle passed =>
    obtain ⟨_, rfl, _⟩ := Controller.idle_changes idle passed
    exact sourced.quiet (k := [.passedOver step]) rfl ⟨rfl, rfl, rfl⟩
  | @observe c files step awake =>
    have asks : (step.asking files).map Prod.snd = step.request?.toList := by
      rw [Step.asking]
      cases step.request? <;> rfl
    have requests : requestsIn [.observed (c.approach files step).2] = step.request?.toList := by
      have here :
          requestsIn [.observed (c.approach files step).2] = [step].filterMap Step.request? := rfl
      rw [here, List.filterMap_cons]
      cases step.request? <;> rfl
    exact ⟨step.asking files, asks.trans requests.symm, sourced.observe files step⟩
  | @dispatch _ c v e last next =>
    obtain ⟨_, _, rfl⟩ := Thread.next_changes next
    obtain ⟨_, _, _, _, _, stays⟩ := Thread.thread_changes (Controller.obey _ v e.command) v last
    obtain ⟨_, _, _, _, _, obeys⟩ := Controller.obey_changes _ v e.command
    rw [stays, obeys]
    exact sourced.quiet (visitsIn_deeds ..) ⟨rfl, rfl, rfl⟩
  | leaveFrame c => exact sourced.quiet (k := [.frameLeft]) rfl ⟨rfl, rfl, rfl⟩

theorem fresh_sourced (root dir : String) (before : Requests) (registry : Registry)
    (maxFrames : Nat) :
    Sourced root dir before (Thread.fresh (.served root dir before) registry maxFrames).controller
      [] where
  remembers := Loader.served_remembers root dir before
  mapped := by simp
  lastGood := rfl
  sources := by simp
  lines := by simp
  failed := by simp [Thread.fresh, Thread.controller, Controller.ofParts]

theorem run_sourced {before : Requests} {registry : Registry} {maxFrames : Nat} {t : Thread}
    {h : History} (run : Run (.fresh (.served root dir before) registry maxFrames) t h) :
    ∃ during, during.map Prod.snd = requestsIn h ∧
      Sourced root dir (before ++ during) t.controller (visitsIn h) := by
  induction run with
  | start =>
    have fresh := fresh_sourced root dir before registry maxFrames
    exact ⟨[], rfl, by rwa [List.append_nil]⟩
  | @move _ _ h es run move ih =>
    obtain ⟨during, asked, sourced⟩ := ih
    obtain ⟨more, asks, next⟩ := move_sourced sourced move
    refine ⟨during ++ more, ?_, ?_⟩
    · rw [List.map_append, asked, asks, requestsIn_append]
    · rwa [← List.append_assoc]

end Moves

/-- In every run, whatever hosts and breakpoints, skips and frames do: the loader is asked for the
mappings of the codes of the instructions observed, in order, and the source of such an instruction
is the rendering for the latest one up to it that has one with a selected line. As long as there is
none, the source is the placeholder, without path and line; from then on it has a path, and its line
is a selected one. -/
theorem source_is_latestShown {root dir : String} {before : Requests} {registry : Registry}
    {maxFrames : Nat} {t : Thread} {h : History}
    (run : Run (.fresh (.served root dir before) registry maxFrames) t h) :
    ∃ during, during.map Prod.snd = requestsIn h ∧
      (∀ v ∈ visitsIn h, v.MappedBy root dir (before ++ during)) ∧
      ∀ later v earlier, visitsIn h = later ++ v :: earlier →
        (∀ r, LatestShown (v :: earlier) r → v.location.source = r) ∧
        (NoneShown (v :: earlier) → v.location.source = .placeholder) ∧
        (v.location.line = 0 ↔ NoneShown (v :: earlier)) ∧
        (v.location.source.path = none ↔ NoneShown (v :: earlier)) ∧
        (¬ NoneShown (v :: earlier) →
          1 ≤ v.location.line ∧ v.location.line ∈ v.location.source.selectedLines) := by
  obtain ⟨during, asked, sourced⟩ := run_sourced run
  refine ⟨during, asked, sourced.mapped, fun later v earlier split => ?_⟩
  have source := sourced.sources later v earlier split
  have line := sourced.lines v (split ▸ List.mem_append_right later List.mem_cons_self)
  cases found : (v :: earlier).findSome? Visit.shown? with
  | none =>
    have never := noneShown_iff.mp found
    rw [found, Option.getD_none] at source
    rw [line, source]
    refine ⟨fun r latest => ?_, fun _ => rfl, iff_of_true rfl never, iff_of_true rfl never,
      absurd never⟩
    exact absurd (found.symm.trans (latestShown_iff.mpr latest)) nofun
  | some r =>
    have seen : ¬ NoneShown (v :: earlier) := fun never =>
      absurd (found.symm.trans (noneShown_iff.mpr never)) nofun
    obtain ⟨w, member, shown⟩ := List.exists_of_findSome?_eq_some found
    have mapped := sourced.mapped w (split ▸ List.mem_append_right later member)
    obtain ⟨path, positive, selected⟩ := (Visit.shown?_eq_some.mp shown).line mapped
    rw [found, Option.getD_some] at source
    rw [line, source]
    refine ⟨fun s latest => ?_, fun never => absurd never seen, iff_of_false (by omega) seen,
      iff_of_false (Option.isSome_iff_ne_none.mp path) seen, fun _ => ⟨positive, selected⟩⟩
    exact Option.some.inj (found.symm.trans (latestShown_iff.mpr latest))

/-- A controller has failed exactly if a number has overflowed at one of the
instructions observed. -/
theorem failed_iff {root dir : String} {before : Requests} {registry : Registry} {maxFrames : Nat}
    {t : Thread} {h : History}
    (run : Run (.fresh (.served root dir before) registry maxFrames) t h) :
    t.controller.failed = true ↔ ∃ v ∈ visitsIn h, v.Overflows := by
  obtain ⟨_, -, sourced⟩ := run_sourced run
  exact sourced.failed

def Step.ofTwoContracts (pc : Nat) : Step :=
  { pc, opcode := 0x01, code := some (.ofText "0x60015B"), isCreation := true }

def Source.Rendering.ofTwoContracts : Source.Rendering :=
  ⟨some "A.sol", .ofList [(1, ⟨"a", false, 0⟩), (2, ⟨"b", true, 0⟩)]⟩

theorem run_through_skip :
    ∃ t h v u w, Run (.fresh (.served "." "build" []) ⟨default, .empty, .empty⟩ 1) t h ∧
      visitsIn h = [w, u, v] ∧ .passedOver (.ofTwoContracts 0) ∈ h ∧ v.Shows .ofTwoContracts ∧
      u.location.element = none ∧ w.location.element = none := by
  have asked :=
    (Run.start (s := .fresh (.served "." "build" []) ⟨default, .empty, .empty⟩ 1)).sent 0
    .suspend rfl
  obtain ⟨v, _, _, _, mapped, -, mapping, element⟩ :=
    asked.observed rfl rfl .ofTwoContracts (.ofTwoContracts 2)
  have stopped := (mapped.move (.dispatch (.take rfl))).sent 0 .stepInto rfl
  have resumed := (stopped.move (.dispatch (.answer rfl))).sent 0 .suspend rfl
  obtain ⟨⟨_, _, _, _, _, _, _⟩, _, _, _, call, step, -, absent⟩ :=
    resumed.observed rfl rfl {} { pc := 0, opcode := 0x56 }
  -- With these two, it can be computed that the instruction is a call.
  cases step
  cases absent
  have stopped := (call.move (.dispatch (.take rfl))).sent 0 .stepOut rfl
  have skips := stopped.move (.dispatch (.answer rfl))
  have passed :=
    skips.move (.pass rfl (Controller.trace_idle rfl .ofTwoContracts (.ofTwoContracts 0)))
  have landed := passed.move (.pass rfl (Controller.trace_idle rfl {} { pc := 0, opcode := 0x5b }))
  obtain ⟨w, _, _, _, behind, -, -, absent⟩ :=
    landed.observed rfl rfl {} { pc := 1, opcode := 0x01 }
  have shown : v.shown? = some .ofTwoContracts := by
    rw [Visit.shown?, element, mapping]
    decide +kernel
  exact ⟨_, _, v, _, w, behind, rfl, by simp, Visit.shown?_eq_some.mp shown, rfl, absent⟩

/-- The instruction behind the skip still has the line of the first one. -/
theorem source_stays_through_skip :
    ∃ t h v u w, Run (.fresh (.served "." "build" []) ⟨default, .empty, .empty⟩ 1) t h ∧
      visitsIn h = [w, u, v] ∧ .passedOver (.ofTwoContracts 0) ∈ h ∧
      w.location.source = .ofTwoContracts ∧ w.location.line = 2 := by
  obtain ⟨t, h, v, u, w, run, visits, passed, shown, absent, absent'⟩ := run_through_skip
  obtain ⟨_, -, -, sources⟩ := source_is_latestShown run
  obtain ⟨latest, -, -, -, later⟩ := sources [] w [u, v] visits
  have nowhere : NoneShown [w, u] := by simp [NoneShown, Visit.Shows, absent, absent']
  have source := latest _ ⟨[w, u], v, [], rfl, shown, nowhere⟩
  obtain ⟨-, line⟩ := later fun never => never v (by simp) _ shown
  have lines : Source.Rendering.ofTwoContracts.selectedLines = [2] := by decide +kernel
  rw [source, lines, List.mem_singleton] at line
  exact ⟨t, h, v, u, w, run, visits, passed, source, line⟩

end SourceStepper
