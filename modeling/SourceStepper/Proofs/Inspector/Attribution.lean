import Mathlib.Data.List.Forall2
import SourceStepper.Proofs.Session.Run

/-!
Instructions and the frames that they belong to. The machine calls the inspector, the inspector
calls the controller, and hosts act at any moment. However frames are nested, the controller sees
every instruction with the flag and the code of its own frame and is told of every frame that is
left, until a host ends the session.
-/
namespace SourceStepper

open Inspector (OpenFrame.see stepOf)

inductive Callback
  | signal (signal : Evm.Signal)
  | instruction (moment : Moment)

structure Scope where
  isCreation : Bool
  code : ByteArray

def Scope.step (s : Scope) (moment : Moment) : Step where
  pc := moment.pc
  opcode := moment.opcode
  isCreation := s.isCreation
  code := some (CodeText.ofBytes s.code.toList)
  stack := moment.stack
  memory := moment.memory

/-- Well-nested callbacks, the latest first: the frames that are open behind them, the innermost
first, and what there is to report of them. -/
inductive Nested : List Scope → List Callback → List Report → Prop
  | start : Nested [] [] []
  | opened {scopes : List Scope} {cs : List Callback} {reports : List Report} (s : Scope)
      (nested : Nested scopes cs reports) :
      Nested (s :: scopes) (.signal (.opened s.isCreation) :: cs) reports
  | closed {s : Scope} {scopes : List Scope} {cs : List Callback} {reports : List Report}
      (nested : Nested (s :: scopes) cs reports) :
      Nested scopes (.signal .closed :: cs) (.frameLeft :: reports)
  | instruction {s : Scope} {scopes : List Scope} {cs : List Callback} {reports : List Report}
      {m : Moment} (nested : Nested (s :: scopes) cs reports) (own : m.code = s.code) :
      Nested (s :: scopes) (.instruction m :: cs) (.instruction (s.step m) :: reports)

structure Watch where
  thread : Thread
  frames : List OpenFrame := []
  terminated : Bool := false

def Inspector.watch (i : Inspector) : Watch := ⟨.running i.controller, i.frames, i.terminated⟩

def Inspector.passedOn (i : Inspector) : Evm.Signal → History
  | .opened _ => []
  | .closed => if i.terminated then [] else [.frameLeft]

namespace Watch

inductive Move : Watch → List Callback → History → Watch → Prop
  | aside {w : Watch} {t : Thread} {es : History} (move : w.thread.Move es t)
      (quiet : reportsIn es = []) :
      Move w [] es { w with thread := t, terminated := w.terminated || es.any Session.isEnd }
  | signal (i : Inspector) (signal : Evm.Signal) :
      Move i.watch [.signal signal] (i.passedOn signal) (i.signal signal).watch
  | unseen {i : Inspector} (moment : Moment) (blind : i.terminated = true ∨ i.frames = []) :
      Move i.watch [.instruction moment] [] i.watch
  | shown {i : Inspector} {moment : Moment} {f : OpenFrame} {outer : List OpenFrame} {es : History}
      {t : Thread} (live : i.terminated = false) (innermost : i.frames = f :: outer)
      (move : Thread.Move (.running i.controller) es t)
      (reports : reportsIn es = [.instruction (stepOf (OpenFrame.see f moment) moment)]) :
      Move i.watch [.instruction moment] es ⟨t, OpenFrame.see f moment :: outer, false⟩

inductive Run (w : Watch) : Watch → List Callback → History → Prop
  | start : Run w w [] []
  | move {u x : Watch} {cs called : List Callback} {h es : History} (run : Run w u cs h)
      (move : Move u called es x) : Run w x (called ++ cs) (es ++ h)

end Watch

section Moves

variable {t u : Thread} {es : History}

theorem any_end_iff : es.any Session.isEnd = true ↔ ∃ v, .ended v ∈ es := by
  rw [List.any_eq_true]
  constructor
  · rintro ⟨event, among, ends⟩
    cases event <;> first | contradiction | exact ⟨_, among⟩
  · rintro ⟨v, among⟩
    exact ⟨_, among, rfl⟩

theorem running_idle (c : Controller) {p : Visit → Prop} :
    ∀ v, (Thread.running c).visit? = some v → p v :=
  fun v visits => absurd visits (Option.some_ne_none v).symm

theorem reports_sent (commands : List Command) :
    reportsIn (commands.map Event.sent).reverse = [] := by
  simp [reportsIn, Event.report?]

/-- A thread that is not called goes on with the instruction that it has, or stays without one. Only
a session that handles an instruction can end. -/
theorem quiet_visit? (move : t.Move es u) (quiet : reportsIn es = []) :
    (∀ v, u.visit? = some v → t.visit? = some v ∧ ∀ v, .ended v ∉ es) ∧
      ∀ v, .ended v ∈ es → t.visit? = some v := by
  cases move with
  | host moved => simp
  | edit change => simp
  | pass idle passed => contradiction
  | observe files step awake => contradiction
  | @dispatch _ c v e last next =>
    have here := Thread.visit?_of_next next
    simp only [ended_mem_deeds]
    refine ⟨fun v' visits => ?_, ?_⟩
    · cases obeyed : c.obey v e.command with
      | handled d =>
        rw [obeyed] at visits
        cases last <;> simp_all [Obeyed.thread, Thread.visit?]
      | stops d =>
        rw [obeyed] at visits
        simp_all [Obeyed.thread, Thread.visit?, Controller.park]
      | ends d =>
        rw [obeyed] at visits
        contradiction
    · rintro v' ⟨rfl, -⟩
      exact here
  | leaveFrame c => contradiction

theorem shown_visit? {c : Controller} {step : Step} (move : (Thread.running c).Move es u)
    (reports : reportsIn es = [.instruction step]) :
    (∀ v, u.visit? = some v → v.step = step) := by
  cases move with
  | host moved => simp [reports_sent] at reports
  | edit change => contradiction
  | pass idle passed => exact running_idle _
  | observe files seen awake =>
    intro v visits
    cases visits
    exact Report.instruction.inj (List.head_eq_of_cons_eq reports)
  | dispatch next => nomatch next
  | leaveFrame c => simp [reportsIn, Event.report?] at reports

end Moves

/-- What the inspector knows of a frame is right. -/
def OpenFrame.Shows (f : OpenFrame) (s : Scope) : Prop :=
  f.isCreation = s.isCreation ∧ (f.code = none ∨ f.code = some (CodeText.ofBytes s.code.toList))

theorem see_shows {f : OpenFrame} {s : Scope} {moment : Moment} (shows : f.Shows s)
    (own : moment.code = s.code) :
    (OpenFrame.see f moment).Shows s ∧ stepOf (OpenFrame.see f moment) moment = s.step moment := by
  obtain ⟨flag, unseen | seen⟩ := shows
  · simp [OpenFrame.see, OpenFrame.Shows, stepOf, Scope.step, unseen, flag, own]
  · simp [OpenFrame.see, OpenFrame.Shows, stepOf, Scope.step, seen, flag]

inductive ShowsLast : Step → List Callback → List Report → Prop
  | intro {s : Scope} {outer : List Scope} {cs : List Callback} {reports : List Report}
      {moment : Moment} (nested : Nested (s :: outer) cs reports) (own : moment.code = s.code) :
      ShowsLast (s.step moment) (.instruction moment :: cs)
      (.instruction (s.step moment) :: reports)

/-- A host has ended the session at an instruction. The callbacks up to there have been reported,
and none of those behind it. -/
def EndedAmong (cs : List Callback) (h : History) : Prop :=
  ∃ unreported reported v, cs = unreported ++ reported ∧ ShowsLast v.step reported (reportsIn h) ∧
    .ended v ∈ h

theorem EndedAmong.later {cs : List Callback} {h : History} (ended : EndedAmong cs h)
    (more : List Callback) {es : History} (quiet : reportsIn es = []) :
    EndedAmong (more ++ cs) (es ++ h) := by
  obtain ⟨unreported, reported, v, rfl, last, among⟩ := ended
  refine ⟨more ++ unreported, reported, v, (List.append_assoc ..).symm, ?_,
    List.mem_append_right _ among⟩
  rwa [reports_append, quiet, List.nil_append]

namespace Watch

/-- What holds of an inspector behind callbacks that are well nested. While an instruction is
handled, it is the last callback. -/
structure Attributed (w : Watch) (scopes : List Scope) (cs : List Callback) (h : History)
    (reports : List Report) : Prop where
  frames : List.Forall₂ OpenFrame.Shows w.frames scopes
  told : w.terminated = false → reportsIn h = reports
  handling : ∀ v, w.thread.visit? = some v → w.terminated = false ∧ ShowsLast v.step cs reports
  ended : w.terminated = true → EndedAmong cs h

section Attributed

variable {w x : Watch} {i : Inspector} {f : OpenFrame} {outer : List OpenFrame} {t : Thread}
  {s : Scope} {scopes : List Scope} {cs called : List Callback} {h es : History}
  {reports : List Report} {moment : Moment}

theorem aside_attributed (attributed : w.Attributed scopes cs h reports) (move : w.thread.Move es t)
    (quiet : reportsIn es = []) :
    Attributed { w with thread := t, terminated := w.terminated || es.any Session.isEnd } scopes cs
      (es ++ h)
      reports := by
  obtain ⟨stays, ends⟩ := quiet_visit? move quiet
  have same : reportsIn (es ++ h) = reportsIn h := by rw [reports_append, quiet, List.nil_append]
  refine ⟨attributed.frames, ?_, ?_, ?_⟩
  · intro live
    rw [same]
    exact attributed.told (Bool.or_eq_false_iff.mp live).1
  · intro v visits
    obtain ⟨before, none⟩ := stays v visits
    obtain ⟨live, last⟩ := attributed.handling v before
    have goes_on : es.any Session.isEnd = false :=
      Bool.eq_false_iff.mpr fun ended => (any_end_iff.mp ended).elim none
    exact ⟨by simp [live, goes_on], last⟩
  · intro terminated
    cases before : w.terminated with
    | true => exact (attributed.ended before).later [] quiet
    | false =>
      -- the session ends now, at the instruction that has been shown last
      simp only [before, Bool.false_or] at terminated
      obtain ⟨v, among⟩ := any_end_iff.mp terminated
      obtain ⟨-, last⟩ := attributed.handling v (ends v among)
      rw [← attributed.told before, ← same] at last
      exact ⟨[], cs, v, rfl, last, List.mem_append_left _ among⟩

theorem opened_attributed (attributed : i.watch.Attributed scopes cs h reports) (s : Scope) :
    (i.openFrame s.isCreation).watch.Attributed (s :: scopes)
    (.signal (.opened s.isCreation) :: cs) h reports :=
  ⟨.cons ⟨rfl, .inl rfl⟩ attributed.frames, attributed.told, running_idle _,
    fun terminated => (attributed.ended terminated).later [_] (rfl : reportsIn [] = [])⟩

theorem closed_attributed (attributed : i.watch.Attributed (s :: scopes) cs h reports) :
    i.closeFrame.watch.Attributed scopes (.signal .closed :: cs) (i.passedOn .closed ++ h)
      (.frameLeft :: reports) := by
  obtain ⟨f, outer, -, others, innermost⟩ := List.forall₂_cons_right_iff.mp attributed.frames
  refine ⟨?_, fun live => ?_, running_idle _, fun terminated => ?_⟩
  · change List.Forall₂ _ i.watch.frames.tail scopes
    rwa [innermost]
  · have live : i.terminated = false := live
    rw [Inspector.passedOn, live, reports_append, attributed.told live]
    rfl
  · have terminated : i.terminated = true := terminated
    rw [Inspector.passedOn, terminated]
    exact (attributed.ended terminated).later [_] rfl

theorem unseen_attributed (attributed : i.watch.Attributed (s :: scopes) cs h reports)
    (blind : i.terminated = true ∨ i.frames = []) :
    i.watch.Attributed (s :: scopes) (.instruction moment :: cs) h
      (.instruction (s.step moment) :: reports) := by
  have frames := attributed.frames
  have terminated : i.terminated = true := by
    apply blind.resolve_right
    intro none
    rw [Inspector.watch, none] at frames
    contradiction
  exact ⟨frames, fun live => absurd (terminated.symm.trans live) nofun, running_idle _,
    fun terminated => (attributed.ended terminated).later [_] (rfl : reportsIn [] = [])⟩

theorem shown_attributed (attributed : i.watch.Attributed (s :: scopes) cs h reports)
    (nested : Nested (s :: scopes) cs reports) (own : moment.code = s.code)
    (live : i.terminated = false) (innermost : i.frames = f :: outer)
    (move : (Thread.running i.controller).Move es t)
    (shows : reportsIn es = [.instruction (stepOf (OpenFrame.see f moment) moment)]) :
    Attributed ⟨t, OpenFrame.see f moment :: outer, false⟩ (s :: scopes)
    (.instruction moment :: cs) (es ++ h)
      (.instruction (s.step moment) :: reports) := by
  have frames := attributed.frames
  rw [Inspector.watch, innermost] at frames
  obtain ⟨first, others⟩ := List.forall₂_cons.mp frames
  obtain ⟨sees, reads⟩ := see_shows first own
  rw [reads] at shows
  refine ⟨.cons sees others, fun _ => ?_, fun v visits => ⟨rfl, ?_⟩, nofun⟩
  · rw [reports_append, shows, attributed.told live]
    rfl
  · rw [shown_visit? move shows v visits]
    exact .intro nested own

theorem run_attributed {c : Controller} (run : Run ⟨.running c, [], false⟩ w cs h)
    (nested : Nested scopes cs reports) : w.Attributed scopes cs h reports := by
  induction run generalizing scopes reports with
  | start =>
    cases nested
    exact ⟨.nil, fun _ => rfl, running_idle c, nofun⟩
  | move run move ih =>
    cases move with
    | aside move quiet => exact aside_attributed (ih nested) move quiet
    | signal i signal =>
      cases nested with
      | opened s nested => exact opened_attributed (ih nested) s
      | closed nested => exact closed_attributed (ih nested)
    | unseen moment blind =>
      cases nested with
      | instruction nested own => exact unseen_attributed (ih nested) blind
    | shown live innermost move shows =>
      cases nested with
      | instruction nested own =>
        exact shown_attributed (ih nested) nested own live innermost move shows

end Attributed

section Ties

variable {w x : Watch} {cs called : List Callback} {h es : History}

theorem Run.append {u : Watch} (first : Run w u cs h) (second : Run u x called es) :
    Run w x (called ++ cs) (es ++ h) := by
  induction second with
  | start => exact first
  | @move _ _ _ latest _ events _ move ih =>
    rw [List.append_assoc, List.append_assoc]
    exact ih.move move

theorem run_thread (run : Run w x cs h) : SourceStepper.Run w.thread x.thread h := by
  induction run with
  | start => exact .start
  | move _ move ih =>
    cases move with
    | aside move quiet => exact ih.move move
    | signal i signal =>
      cases signal with
      | opened isCreation => exact ih
      | closed =>
        cases terminated : i.terminated with
        | false =>
          simpa [Inspector.passedOn, Inspector.watch, Inspector.signal, Inspector.closeFrame,
            terminated]
            using ih.move (.leaveFrame i.controller)
        | true =>
          simpa [Inspector.passedOn, Inspector.watch, Inspector.signal, Inspector.closeFrame,
            terminated]
            using ih
    | unseen moment blind => exact ih
    | shown live innermost move reports => exact ih.move move

theorem aside_run {t : Thread} (run : SourceStepper.Run w.thread t h) (quiet : reportsIn h = []) :
    Run w { w with thread := t, terminated := w.terminated || h.any Session.isEnd } [] h := by
  induction run with
  | start => simpa using Run.start (w := w)
  | @move u v h es _ move ih =>
    rw [reports_append, List.append_eq_nil_iff] at quiet
    have next := (ih quiet.2).move (.aside move quiet.1)
    simpa [Bool.or_assoc, Bool.or_comm] using next

end Ties

end Watch

def Inspector.Seen.watch : Inspector.Seen → Watch
  | .passed i => i.watch
  | .parked i p => ⟨.parked p, i.frames, i.terminated⟩

namespace Watch

theorem settle_watch {i : Inspector} (live : i.terminated = false) (v : Visit) {traced : Traced}
    (fed : ∀ c, traced ≠ .starved c) {h : History}
    (ends : (∃ u, .ended u ∈ h) ↔ ∃ d, traced = .ended d) :
    (i.settle traced).watch = ⟨traced.thread v, i.frames, h.any Session.isEnd⟩ := by
  have ended : h.any Session.isEnd = true ↔ ∃ d, traced = .ended d := any_end_iff.trans ends
  cases traced with
  | starved c => exact absurd rfl (fed c)
  | passed c => simp_all [Inspector.settle, Inspector.Seen.watch, Inspector.watch, Traced.thread]
  | ended c => simp_all [Inspector.settle, Inspector.Seen.watch, Inspector.watch, Traced.thread]
  | parked p => simp_all [Inspector.settle, Inspector.Seen.watch, Traced.thread]

/-- Showing an instruction to an inspector is a run with this one callback. -/
theorem step_run (i : Inspector) (isOpen : i.controller.channel.isOpen = true) (files : FileTree)
    (moment : Moment) :
    ∃ h, Run i.watch (i.step files moment).watch [.instruction moment] h := by
  by_cases blind : i.terminated = true ∨ i.frames = []
  · have same : i.step files moment = .passed i := by
      rcases blind with terminated | none
      · simp [Inspector.step, terminated]
      · simp [Inspector.step, none]
    rw [same]
    exact ⟨_, Run.start.move (.unseen moment blind)⟩
  · obtain ⟨live, frames⟩ := not_or.mp blind
    rw [Bool.not_eq_true] at live
    -- the instruction is shown in one move, and the commands that are queued are taken in further
    -- ones
    obtain ⟨f, outer, innermost⟩ := List.exists_cons_of_ne_nil frames
    rw [Inspector.step_live live innermost]
    generalize read : stepOf (OpenFrame.see f moment) moment = step
    by_cases idle : i.controller.isIdle = true
    · have passed := Controller.trace_idle idle files step
      have shown := Run.start.move (.shown live innermost (.pass idle passed) (by rw [read]; rfl))
      rw [passed]
      exact ⟨_, by simpa [Inspector.settle, Inspector.Seen.watch, Inspector.watch,
        live] using shown⟩
    · have awake : i.controller.isIdle = false := by simpa using idle
      obtain ⟨h, run, quiet, ends⟩ := consume_run (i.controller.approach files step).2 _
        (i.controller.approach files step).1 rfl
      have shown :=
        Run.start.move (.shown live innermost (.observe files step awake) (by rw [read]; rfl))
      have handled := shown.append (aside_run run quiet)
      have fed := Session.not_starved (trace_inPhase awake isOpen files step)
      rw [← Controller.trace_awake awake] at ends handled
      have settled := settle_watch (i := { i with frames := OpenFrame.see f moment :: outer }) live
        (i.controller.approach files step).2 fed ends
      rw [settled]
      exact ⟨_, by simpa using handled⟩

theorem answer?_run {i : Inspector} (live : i.terminated = false) {p : Parked} {answered : Traced}
    (answer : p.answer? = some answered) :
    ∃ h, Run ⟨.parked p, i.frames, i.terminated⟩ (i.settle answered).watch [] h := by
  obtain ⟨h, run, quiet, ends⟩ := SourceStepper.answer?_run answer
  rw [settle_watch live p.visit (Session.not_starved (answer?_inPhase answer)) ends]
  have answered := aside_run (w := ⟨.parked p, i.frames, i.terminated⟩) run quiet
  exact ⟨h, by simpa [live] using answered⟩

end Watch

/-- An inspector behind a callback, unless the controller has stopped in it. -/
def Inspector.called? (files : FileTree) (i : Inspector) : Callback → Option Inspector
  | .signal signal => some (i.signal signal)
  | .instruction moment =>
    match i.step files moment with
    | .passed j => some j
    | .parked .. => none

theorem called?_run {i j : Inspector} (tended : i.controller.channel.Tended) (files : FileTree)
    {cs : List Callback} (called : cs.foldlM (Inspector.called? files) i = some j) :
    ∃ h, Watch.Run i.watch j.watch cs.reverse h := by
  induction cs generalizing i with
  | nil =>
    cases called
    exact ⟨[], .start⟩
  | cons callback later ih =>
    simp only [List.foldlM_cons, Option.bind_eq_bind, Option.bind_eq_some_iff] at called
    obtain ⟨next, first, called⟩ := called
    obtain ⟨es, run⟩ : ∃ es, Watch.Run i.watch next.watch [callback] es := by
      cases callback with
      | signal signal =>
        cases first
        exact ⟨_, Watch.Run.start.move (.signal i signal)⟩
      | instruction moment =>
        have run := Watch.step_run i tended.isOpen files moment
        simp only [Inspector.called?] at first
        split at first
        · next passed =>
          cases first
          rwa [passed] at run
        · contradiction
    have tended' := (run_wellformed (Watch.run_thread run) (running_wellformed tended)).tended
    obtain ⟨h, rest⟩ := ih tended' called
    rw [List.reverse_cons]
    exact ⟨_, run.append rest⟩

/-- Behind callbacks that are well nested, as many frames are open for the inspector as for the
machine, with the right flags and codes, so that there is one whenever a frame is closed. Until a
host ends the session, the controller has been called for every instruction, as one of its own
frame, and for every frame that has been left. It ends at an instruction, and what comes behind that
is not passed on. -/
theorem frames_attributed {c : Controller} {w : Watch} {scopes : List Scope} {cs : List Callback}
    {h : History} {reports : List Report} (run : Watch.Run ⟨.running c, [], false⟩ w cs h)
    (nested : Nested scopes cs reports) :
    w.frames.length = scopes.length ∧ List.Forall₂ OpenFrame.Shows w.frames scopes ∧
      (∀ scopes' reports', Nested scopes' (.signal .closed :: cs) reports' → w.frames ≠ []) ∧
      (w.terminated = false → reportsIn h = reports) ∧ (w.terminated = true → EndedAmong cs h) := by
  have attributed := Watch.run_attributed run nested
  refine ⟨attributed.frames.length_eq, attributed.frames, ?_, attributed.told, attributed.ended⟩
  -- a frame that can be closed is open, whatever else the callbacks are taken to stand for
  intro scopes' reports' closes none
  cases closes with
  | closed nested =>
    have frames := (Watch.run_attributed run nested).frames
    rw [none] at frames
    contradiction

/-- A contract is created and calls another one, which calls a frame without instructions; the
creation goes on behind both, and the contract is called in a second transaction. If a host has
asked for the end, the session ends at the first instruction. -/
theorem frames_attributed_behind_inner :
    let creation : Scope := ⟨true, ⟨#[0x5b, 0x5b]⟩⟩
    let contract : Scope := ⟨false, ⟨#[0x5b]⟩⟩
    let first (s : Scope) : Moment := ⟨0, .ofNat 0x5b, s.code, [], .empty⟩
    let second : Moment := ⟨1, .ofNat 0x5b, creation.code, [], .empty⟩
    let fresh : Controller := Thread.bare.controller
    let told : Controller := { fresh with channel.queue := [⟨.stop, .host⟩] }
    let callbacks : List Callback := [.signal (.opened true), .instruction (first creation),
      .signal (.opened false), .instruction (first contract), .signal (.opened false),
      .signal .closed, .signal .closed, .instruction second, .signal .closed,
      .signal (.opened false), .instruction (first contract)]
    (∃ w h, Watch.Run ⟨.running fresh, [], false⟩ w callbacks.reverse h ∧ w.frames.length = 1 ∧
      (reportsIn h).reverse = [.instruction (creation.step (first creation)),
        .instruction (contract.step (first contract)), .frameLeft, .frameLeft,
        .instruction (creation.step second),
        .frameLeft, .instruction (contract.step (first contract))]) ∧
      ∃ w h, Watch.Run ⟨.running told, [], false⟩ w callbacks.reverse h ∧ w.frames.length = 1 ∧
        EndedAmong callbacks.reverse h := by
  intro creation contract first second fresh told callbacks
  have created : Nested [creation] _ _ :=
    .instruction (.opened creation .start) (m := first creation) rfl
  have within :=
    Nested.opened contract (.instruction (.opened contract created) (m := first contract) rfl)
  have behind := Nested.closed (.instruction (.closed (.closed within)) (m := second) rfl)
  have nested : Nested [contract] callbacks.reverse _ :=
    .instruction (.opened contract behind) (m := first contract) rfl
  have tended : told.channel.Tended := by
    refine ⟨rfl, fun e queued => ?_⟩
    cases List.mem_singleton.mp queued
    exact nofun
  have goes_on : (callbacks.foldlM (Inspector.called? {}) ({ controller := fresh } : Inspector)).any
      (!·.terminated) = true := by decide +kernel
  have ends : (callbacks.foldlM (Inspector.called? {}) ({ controller := told } : Inspector)).any
      (·.terminated) = true := by decide +kernel
  obtain ⟨j, reached, live⟩ := (Option.any_eq_true _ _).mp goes_on
  obtain ⟨j', reached', terminated⟩ := (Option.any_eq_true _ _).mp ends
  obtain ⟨h, run⟩ :=
    called?_run (i := { controller := fresh }) (fresh_wellformed _ _ _).tended {} reached
  obtain ⟨h', run'⟩ := called?_run (i := { controller := told }) tended {} reached'
  obtain ⟨depth, -, -, reports, -⟩ := frames_attributed run nested
  obtain ⟨depth', -, -, -, ended⟩ := frames_attributed run' nested
  refine ⟨⟨j.watch, h, run, depth, ?_⟩, j'.watch, h', run', depth', ended terminated⟩
  rw [reports (by simpa [Inspector.watch] using live)]
  rfl

end SourceStepper
