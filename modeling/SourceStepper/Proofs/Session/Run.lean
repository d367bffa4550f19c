import SourceStepper.Proofs.Controller.Waiting
import SourceStepper.Session

/-! Runs of a session. The machine executes and shows its instructions to the inspector, and stands
still where the controller is parked; hosts act at any moment in between. A run keeps what hosts are
told, when the session is ended by a host, and when a transaction has come to a receipt. Without a
move of a host in between, the moves make up `Execution.tick` and `Execution.resume`. Like a run of
a controller, a run of a session goes on where the controller has `failed`, and says nothing of the
program from there on. -/
namespace SourceStepper

namespace Inspector

def IsIdle (i : Inspector) : Prop :=
  i.terminated = true ∨ i.frames = [] ∨ i.controller.isIdle = true

theorem step_live {i : Inspector} {f : OpenFrame} {outer : List OpenFrame}
    (live : i.terminated = false) (innermost : i.frames = f :: outer) (files : FileTree)
    (moment : Moment) :
    i.step files moment = { i with frames := OpenFrame.see f moment :: outer }.settle
      (i.controller.trace files (stepOf (OpenFrame.see f moment) moment)) := by
  simp [step, live, innermost]

theorem step_idle {i : Inspector} (idle : i.IsIdle) (files : FileTree) (moment : Moment) :
    ∃ j, i.step files moment = .passed j ∧ j.terminated = i.terminated ∧
      j.controller.channel = i.controller.channel := by
  cases terminated : i.terminated with
  | true => exact ⟨i, by simp [step, terminated], terminated, rfl⟩
  | false =>
    cases innermost : i.frames with
    | nil => exact ⟨i, by simp [step, terminated, innermost], terminated, rfl⟩
    | cons f outer =>
      have idle : i.controller.isIdle = true := by simpa [IsIdle, terminated, innermost] using idle
      have passed := Controller.trace_idle idle files (stepOf (OpenFrame.see f moment) moment)
      obtain ⟨_, same, _⟩ := Controller.idle_changes idle passed
      have stepped := step_live terminated innermost files moment
      rw [passed, settle] at stepped
      exact ⟨_, stepped, terminated, by rw [same]⟩

end Inspector

namespace Session

inductive Entry
  | told (event : HostEvent)
  /-- A host has ended the session. -/
  | stopped
  | transacted
  deriving DecidableEq

/-- What has happened in a session, the oldest first. -/
abbrev Log := List Entry

def Entry.told? : Entry → Option HostEvent
  | .told event => some event
  | .stopped | .transacted => none

def told (log : Log) : List HostEvent := log.filterMap Entry.told?

theorem told_append (log more : Log) : told (log ++ more) = told log ++ told more :=
  List.filterMap_append

/-- What an event of the thread is for the session. -/
def noted? : Event → Option Entry
  | .suspended p => some (.told (.suspended p.line p.frame))
  | .ended _ => some .stopped
  | _ => none

def entries (es : History) : Log := es.reverse.filterMap noted?

def isEnd : Event → Bool
  | .ended _ => true
  | _ => false

def isSent : Event → Bool
  | .sent _ => true
  | _ => false

/-- Where a session is: nothing has been executed yet, the machine is between two instructions, the
controller handles one, or the session has ended. -/
inductive Stage (vm : Vm)
  | fresh (config : Config) (target : Target) (c : Controller)
  | running (e : Execution vm)
  | handling (e : Execution vm) (t : Thread)
  | ended (c : Controller) (outcome : Except SessionError Outcome)

end Session

open Session (Entry Log)

variable {vm : Vm}

def Progress.stage : Progress vm → Session.Stage vm
  | .running e _ => .running e
  | .parked e p => .handling e (.parked p)
  | .finished c outcome _ => .ended c outcome

def Progress.entries : Progress vm → Log
  | .running _ told => told.map .told
  | .parked _ p => [.told (.suspended p.line p.frame)]
  | .finished _ _ told => told.map .told

/-- The stage with a thread that has gone on. When the instruction has been handled, it
is executed. -/
def Thread.stage (e : Execution vm) (es : History) : Thread → Session.Stage vm
  | .running c =>
    let terminated := e.inspector.terminated || es.any Session.isEnd
    .running
      (Execution.execute { e with inspector := { e.inspector with controller := c, terminated } })
  | .obeying c v => .handling e (.obeying c v)
  | .parked p => .handling e (.parked p)

namespace Session

inductive Stage.Move : Stage vm → Log → Stage vm → Prop
  | prepare {config : Config} {target : Target} {c d : Controller} {es : History}
      (move : Thread.Move (.running c) es (.running d)) (hosts : es.all isSent = true) :
      Move (.fresh config target c) [] (.fresh config target d)
  | start (config : Config) (target : Target) (c : Controller) :
      Move (.fresh config target c) (Execution.start vm config c target).entries
        (Execution.start vm config c target).stage
  | host {e : Execution vm} {d : Controller} {es : History}
      (move : Thread.Move (.running e.inspector.controller) es (.running d))
      (hosts : es.all isSent = true) :
      Move (.running e) [] (.running { e with inspector.controller := d })
  | conclude {e : Execution vm} {r : Except String (Evm.Receipt × vm.Chain)}
      (ended : vm.result? e.state = some r) :
      Move (.running e) ((if r.isOk then [.transacted] else []) ++ (e.conclude r).entries)
        (e.conclude r).stage
  | proceed {e : Execution vm} (going : vm.result? e.state = none)
      (hidden : vm.moment? e.state = none) : Move (.running e) [] (.running e.execute)
  | skip {e : Execution vm} {moment : Moment} {i : Inspector} (files : FileTree)
      (going : vm.result? e.state = none) (shown : vm.moment? e.state = some moment)
      (idle : e.inspector.IsIdle) (passed : e.inspector.step files moment = .passed i) :
      Move (.running e) [] (.running (Execution.execute { e with inspector := i }))
  | observe {e : Execution vm} {moment : Moment} {f g : OpenFrame}
      {outer : List OpenFrame} {step : Step} (files : FileTree)
      (going : vm.result? e.state = none) (shown : vm.moment? e.state = some moment)
      (live : e.inspector.terminated = false) (innermost : e.inspector.frames = f :: outer)
      (awake : e.inspector.controller.isIdle = false) (seen : Inspector.OpenFrame.see f moment = g)
      (read : Inspector.stepOf g moment = step) :
      Move (.running e) [] (.handling { e with inspector.frames := g :: outer }
        (.obeying (e.inspector.controller.approach files step).1
          (e.inspector.controller.approach files step).2))
  | handle {e : Execution vm} {t u : Thread} {es : History} (move : t.Move es u) :
      Move (.handling e t) (entries es) (u.stage e es)

inductive Stage.Run (s : Stage vm) : Stage vm → Log → Prop
  | start : Stage.Run s s []
  | move {t u : Stage vm} {log more : Log} (run : Stage.Run s t log) (move : t.Move more u) :
      Stage.Run s u (log ++ more)

theorem Stage.Run.append {s t u : Stage vm} {log more : Log} (first : s.Run t log)
    (second : t.Run u more) : s.Run u (log ++ more) := by
  induction second with
  | start => rwa [List.append_nil]
  | move _ move ih =>
    rw [← List.append_assoc]
    exact ih.move move

theorem Stage.Run.single {s t : Stage vm} {log : Log} (move : s.Move log t) : s.Run t log :=
  Stage.Run.start.move move

def Stage.opened (vm : Vm) (config : Config) (target : Target) (loader : Loader)
    (registry : Registry) :
    Stage vm :=
  .fresh config target (.ofParts loader registry config.maxFrames)

end Session

/-- A machine whose transactions consist of one instruction, with room for so many bytes of data. -/
def Vm.brief (room : Nat) : Vm where
  Chain := Unit
  State := Bool × Option Evm.Address
  funded _ := ()
  start t _ :=
    if room < t.data.length then .error "no room"
    else .ok ((false, if t.target.isNone then some 1 else none), [.opened t.target.isNone])
  result? s := if s.1 then some (.ok (⟨.returned .empty, s.2⟩, ())) else none
  moment? s := if s.1 then none else some ⟨0, .ofNat 0, .empty, [], .empty⟩
  execute s := ((true, s.2), [.closed])

def Traced.stage (e : Execution vm) (v : Visit) : Traced → Session.Stage vm
  | .passed c => (Thread.running c).stage e []
  | .ended c => (Thread.running c).stage e [.ended v]
  | .parked p => .handling e (.parked p)
  | .starved c => .handling e (.obeying c v)

def Traced.entries (v : Visit) : Traced → Log
  | .ended _ => Session.entries [.ended v]
  | .parked p => Session.entries [.suspended p]
  | .passed _ | .starved _ => []

namespace Session

/-- Of what a dispatched command leads to, a session notices only what comes of it. -/
theorem entries_deeds (c : Controller) (v : Visit) (e : Envelope) :
    entries (c.deeds v e) = entries ((c.obey v e.command).outcome v) ∧
      (c.deeds v e).any isEnd = ((c.obey v e.command).outcome v).any isEnd := by
  rw [Controller.deeds]
  generalize (c.obey v e.command).outcome v = es
  constructor
  · cases c.startedSkip? v e.command <;>
      simp [entries, List.filterMap_cons, noted?]
  · cases c.startedSkip? v e.command <;> simp [isEnd]

theorem stage_congr (e : Execution vm) {es es' : History} (same : es.any isEnd = es'.any isEnd)
    (t : Thread) : t.stage e es = t.stage e es' := by
  cases t with
  | running c => simp only [Thread.stage, same]
  | obeying c v => rfl
  | parked p => rfl

theorem dispatch_move (e : Execution vm) {t : Thread} {c : Controller} {v : Visit}
    {envelope : Envelope} {last : Bool} (next : t.Next c v envelope last) :
    (Stage.handling e t).Move (entries ((c.obey v envelope.command).outcome v))
      (((c.obey v envelope.command).thread v last).stage e
        ((c.obey v envelope.command).outcome v)) := by
  obtain ⟨same, sameEnd⟩ := entries_deeds c v envelope
  have move : (Stage.handling e t).Move (entries (c.deeds v envelope)) _ := .handle (.dispatch next)
  rwa [same, stage_congr e sameEnd] at move

theorem consume_leads (e : Execution vm) (v : Visit) (queue : List Envelope) (c : Controller)
    (all : c.channel.queue = queue) :
    (Stage.handling e (.obeying c v)).Run ((c.consume v queue).stage e v)
      ((c.consume v queue).entries v) := by
  -- Only the pulse ends the handling, so that every other command leaves the rest of the queue to
  -- do.
  induction queue generalizing c with
  | nil =>
    have same : { c with channel := { c.channel with queue := [] } } = c := by rw [← all]
    rw [Controller.consume, same]
    exact .start
  | cons first rest ih =>
    have taken : c.channel.take? = some (first, { c.channel with queue := rest }) := by
      simp [Channel.take?, all]
    have move := Stage.Run.single (dispatch_move e (.take (v := v) taken))
    rw [Controller.consume_cons]
    generalize hd : { c with channel := { c.channel with queue := rest } } = d at move ⊢
    have channel := Controller.channel_obey d v first.command
    cases obeyed : d.obey v first.command with
    | handled d' =>
      rw [obeyed] at move channel
      dsimp only [Obeyed.lead]
      by_cases last : first = pulse
      · simp only [Obeyed.thread, last, decide_true, if_true] at move
        rw [if_pos last]
        exact move
      · simp only [Obeyed.thread, last, decide_false, Bool.false_eq_true, if_false] at move
        rw [if_neg last]
        exact move.append (ih d' ((congrArg Channel.queue channel).trans (hd ▸ rfl)))
    | stops d' =>
      rw [obeyed] at move
      exact move
    | ends d' =>
      rw [obeyed] at move
      exact move

theorem answer?_leads (e : Execution vm) {p : Parked} {answered : Traced}
    (answer : p.answer? = some answered) :
    (Stage.handling e (.parked p)).Run (answered.stage e p.visit) (answered.entries p.visit) := by
  cases taken : p.controller.channel.takeFromHost? with
  | none =>
    rw [Parked.answer?, taken] at answer
    contradiction
  | some first =>
    have move := Stage.Run.single (dispatch_move e (.answer taken))
    rw [answer?_eq taken] at answer
    cases Option.some.inj answer
    cases obeyed : Controller.obey _ p.visit first.1 <;> rw [obeyed] at move <;> exact move

theorem not_starved {traced : Traced} (inPhase : traced.InPhase) (c : Controller) :
    traced ≠ .starved c := by
  rintro rfl
  exact inPhase

theorem resume_stage {e : Execution vm} (live : e.inspector.terminated = false) (v : Visit)
    {traced : Traced} (fed : ∀ c, traced ≠ .starved c) :
    traced.stage e v = (e.resume traced).stage ∧
      told (traced.entries v) = told (e.resume traced).entries := by
  cases traced with
  | passed c =>
    exact ⟨by simp [Traced.stage, Thread.stage, live, Execution.resume, Inspector.settle,
      Progress.stage], rfl⟩
  | ended c => exact ⟨by simp [Traced.stage, Thread.stage, live, Execution.resume, Inspector.settle,
      Progress.stage, isEnd], rfl⟩
  | parked p => exact ⟨rfl, rfl⟩
  | starved c => exact absurd rfl (fed c)

theorem resume_run {e : Execution vm} (live : e.inspector.terminated = false) {p : Parked}
    {answered : Traced} (answer : p.answer? = some answered) :
    ∃ log, (Stage.handling e (.parked p)).Run (e.resume answered).stage log ∧
      told log = told (e.resume answered).entries := by
  obtain ⟨same, sameTold⟩ := resume_stage live p.visit (not_starved (answer?_inPhase answer))
  exact ⟨_, same ▸ answer?_leads e answer, sameTold⟩

/-- Showing an instruction and executing it is a run. -/
theorem tick_run (e : Execution vm) (files : FileTree)
    (isOpen : e.inspector.controller.channel.isOpen = true) :
    ∃ log, (Stage.running e).Run (e.tick files).stage log ∧
      told log = told (e.tick files).entries := by
  unfold Execution.tick
  cases ended : vm.result? e.state with
  | some r =>
    refine ⟨_, .single (.conclude ended), ?_⟩
    rw [told_append]
    cases r <;> rfl
  | none =>
    cases shown : vm.moment? e.state with
    | none => exact ⟨_, .single (.proceed ended shown), rfl⟩
    | some moment =>
      by_cases idle : e.inspector.IsIdle
      · obtain ⟨_, passed, _⟩ := Inspector.step_idle idle files moment
        simp only [passed]
        exact ⟨_, .single (.skip files ended shown idle passed), rfl⟩
      · simp only [Inspector.IsIdle, not_or, Bool.not_eq_true] at idle
        obtain ⟨live, frames, awake⟩ := idle
        obtain ⟨f, outer, innermost⟩ := List.exists_cons_of_ne_nil frames
        simp only [Inspector.step_live live innermost]
        generalize seen : Inspector.OpenFrame.see f moment = g
        generalize read : Inspector.stepOf g moment = step
        have observed :=
          Stage.Run.single (.observe files ended shown live innermost awake seen read)
        generalize within : { e with inspector.frames := g :: outer } = d at observed
        have handled := consume_leads d (e.inspector.controller.approach files step).2 _
          (e.inspector.controller.approach files step).1 rfl
        rw [← Controller.trace_awake awake] at handled
        have live : d.inspector.terminated = false := within ▸ live
        obtain ⟨same, sameTold⟩ := resume_stage live _
          (not_starved (trace_inPhase awake isOpen files step))
        subst within
        exact ⟨_, same ▸ observed.append handled, sameTold⟩

end Session

end SourceStepper
