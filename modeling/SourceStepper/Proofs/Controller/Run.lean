import SourceStepper.Proofs.Controller.Trace

/-! Runs of a controller. The thread of the machine shows instructions, takes commands one at a
time, waits when it is parked, and leaves frames; hosts send commands, take and drop senders and
edit the breakpoints at any moment in between. A run keeps the history of what has happened. Without
a move of a host in between, the moves that handle an instruction make up `Controller.trace`. A run
goes on behind an instruction at which a number has overflowed, where the program does not: it is
what the program does as long as the controller has not `failed`. -/
namespace SourceStepper

/-- Where the thread of the machine is: between two instructions, taking the commands for one,
or parked. -/
inductive Thread
  | running (c : Controller)
  | obeying (c : Controller) (v : Visit)
  | parked (p : Parked)

/-- What happens in a run. -/
inductive Event
  /-- A command of a host has entered the queue. -/
  | sent (command : Command)
  /-- An instruction has been resolved and is being handled. -/
  | observed (v : Visit)
  /-- An instruction has been let through unseen. -/
  | passedOver (step : Step)
  | dispatched (v : Visit) (e : Envelope)
  | skipStarted (v : Visit) (kind : SkipKind)
  /-- Hosts have been told of a stop. -/
  | suspended (p : Parked)
  /-- The session has ended at an instruction. -/
  | ended (v : Visit)
  | frameLeft

/-- What has happened so far, the latest first. -/
abbrev History := List Event

def Obeyed.thread (v : Visit) (last : Bool) : Obeyed → Thread
  | .handled c => if last then .running c.leave else .obeying c v
  | .stops c => .parked (c.park v)
  | .ends c => .running c.leave

def Obeyed.outcome (v : Visit) : Obeyed → History
  | .handled _ => []
  | .stops c => [.suspended (c.park v)]
  | .ends _ => [.ended v]

inductive Report
  | instruction (step : Step)
  | frameLeft

def Event.report? : Event → Option Report
  | .observed v => some (.instruction v.step)
  | .passedOver step => some (.instruction step)
  | .frameLeft => some .frameLeft
  | _ => none

def reportsIn (h : History) : List Report := h.filterMap Event.report?

theorem reports_append (h k : History) : reportsIn (h ++ k) = reportsIn h ++ reportsIn k :=
  List.filterMap_append

/-- What happens when a command is dispatched. -/
def Controller.deeds (c : Controller) (v : Visit) (e : Envelope) : History :=
  (c.obey v e.command).outcome v ++ (c.startedSkip? v e.command).toList.map (.skipStarted v) ++
    [.dispatched v e]

def Traced.thread (v : Visit) : Traced → Thread
  | .passed c => .running c
  | .ended c => .running c
  | .parked p => .parked p
  | .starved c => .obeying c v

namespace Thread

def controller : Thread → Controller
  | .running c => c
  | .obeying c _ => c
  | .parked p => p.controller

def visit? : Thread → Option Visit
  | .running _ => none
  | .obeying _ v => some v
  | .parked p => some p.visit

def update (f : Controller → Controller) : Thread → Thread
  | .running c => .running (f c)
  | .obeying c v => .obeying (f c) v
  | .parked p => .parked { p with controller := f p.controller }

@[simp] theorem controller_update (f : Controller → Controller) (t : Thread) :
    (t.update f).controller = f t.controller := by cases t <;> rfl

@[simp] theorem visit?_update (f : Controller → Controller) (t : Thread) :
    (t.update f).visit? = t.visit? := by cases t <;> rfl

/-- The next command for an instruction: the controller that is about to obey it, where it has come
from, and whether the instruction is executed behind it. -/
inductive Next : Thread → Controller → Visit → Envelope → Bool → Prop
  | take {c : Controller} {v : Visit} {e : Envelope} {channel : Channel}
      (taken : c.channel.take? = some (e, channel)) :
      Next (.obeying c v) { c with channel } v e (e = pulse)
  | answer {p : Parked} {command : Command} {channel : Channel}
      (taken : p.controller.channel.takeFromHost? = some (command, channel)) :
      Next (.parked p) { p.controller with channel, phase := .awaitingCommand } p.visit
        ⟨command, .host⟩ true

/-- One move of a run, with what happens in it. -/
inductive Move : Thread → History → Thread → Prop
  | host {t : Thread} {commands : List Command} {channel : Channel}
      (moved : t.controller.channel.HostMove commands channel) :
      Move t (commands.map .sent).reverse (t.update ({ · with channel }))
  | edit (t : Thread) (change : Registry.Edit) :
      Move t [] (t.update fun c => { c with registry := c.registry.edit change })
  | pass {c d : Controller} {files : FileTree} {step : Step} (idle : c.isIdle = true)
      (passed : c.trace files step = .passed d) : Move (.running c) [.passedOver step] (.running d)
  | observe {c : Controller} (files : FileTree) (step : Step) (awake : c.isIdle = false) :
      Move (.running c) [.observed (c.approach files step).2]
        (.obeying (c.approach files step).1 (c.approach files step).2)
  | dispatch {t : Thread} {c : Controller} {v : Visit} {e : Envelope} {last : Bool}
      (next : t.Next c v e last) : Move t (c.deeds v e) ((c.obey v e.command).thread v last)
  | leaveFrame (c : Controller) : Move (.running c) [.frameLeft] (.running c.leaveFrame)

theorem thread_changes (o : Obeyed) (v : Visit) (last : Bool) :
    ∃ history phase lastSelectedLine runTillNextLine armed, (o.thread v last).controller =
      { o.controller with history, phase, lastSelectedLine, runTillNextLine, armed } := by
  cases o with
  | handled c => cases last <;> exact ⟨_, _, _, _, _, rfl⟩
  | stops c => exact ⟨_, _, _, _, _, rfl⟩
  | ends c => exact ⟨_, _, _, _, _, rfl⟩

theorem channel_thread (c : Controller) (v : Visit) (command : Command) (last : Bool) :
    ((c.obey v command).thread v last).controller.channel = c.channel := by
  obtain ⟨_, _, _, _, _, same⟩ := thread_changes (c.obey v command) v last
  rw [same]
  exact Controller.channel_obey c v command

theorem visit?_of_next {t : Thread} {c : Controller} {v : Visit} {e : Envelope} {last : Bool}
    (next : t.Next c v e last) : t.visit? = some v := by
  cases next <;> rfl

theorem next_changes {t : Thread} {c : Controller} {v : Visit} {e : Envelope} {last : Bool}
    (next : t.Next c v e last) : ∃ channel phase, c = { t.controller with channel, phase } := by
  cases next <;> exact ⟨_, _, rfl⟩

theorem next_tended {t : Thread} {c : Controller} {v : Visit} {e : Envelope} {last : Bool}
    (next : t.Next c v e last) (tended : t.controller.channel.Tended) :
    c.channel.Tended ∧ (e.isHost = false → e = pulse) := by
  cases next with
  | take taken =>
    have member := (Channel.take?_eq_some taken).1 ▸ List.mem_cons_self
    exact ⟨Channel.take?_tended tended taken, tended.pulses e member⟩
  | answer taken => exact ⟨Channel.takeFromHost?_tended tended taken, nofun⟩

theorem next_commands {t : Thread} {c : Controller} {v : Visit} {e : Envelope} {last : Bool}
    (next : t.Next c v e last) : t.controller.channel.commands =
      (if e.isHost then [e.command] else []) ++ c.channel.commands := by
  cases next with
  | take taken =>
    simp only [Thread.controller, Channel.commands_take? taken]
    split <;> rfl
  | answer taken => exact Channel.commands_takeFromHost? taken

end Thread

/-- A run from a thread to a thread, with its history. -/
inductive Run (s : Thread) : Thread → History → Prop
  | start : Run s s []
  | move {t u : Thread} {h es : History} (run : Run s t h) (move : t.Move es u) : Run s u (es ++ h)

theorem Run.append {s t u : Thread} {h k : History} (first : Run s t h) (second : Run t u k) :
    Run s u (k ++ h) := by
  induction second with
  | start => exact first
  | @move _ _ k es _ move ih =>
    rw [List.append_assoc]
    exact ih.move move

theorem Run.sent {s t : Thread} {h : History} (run : Run s t h) (sender : Nat) (command : Command)
    {channel : Channel} (accepted : t.controller.channel.send sender command = .ok channel) :
    Run s (t.update ({ · with channel })) (.sent command :: h) :=
  run.move (.host (.send accepted))

theorem Run.observed {s : Thread} {c : Controller} {h : History} (run : Run s (.running c) h)
    (awake : c.isIdle = false) (plain : c.resumedFrom = none) (files : FileTree) (step : Step) :
    ∃ v loader lastGood failed, Run s (.obeying { c with
        loader, lastGood, failed, channel := c.channel.push .execute, phase := .awaitingCommand } v)
        (.observed v :: h) ∧
      v.step = step ∧ v.location.mapping = (c.mappingFor files step).1 ∧
      v.location.element = (c.mappingFor files step).1.lookup step.pc := by
  have moved := run.move (.observe files step awake)
  rw [Controller.approach_changes, plain, ite_self, ← plain] at moved
  exact ⟨_, _, _, _, moved, rfl, rfl, rfl⟩

def Thread.fresh (loader : Loader) (registry : Registry) (maxFrames : Nat) : Thread :=
  .running (.ofParts loader registry maxFrames)

def Thread.bare : Thread := .fresh (.ofProject "." "build") ⟨default, .empty, .empty⟩ 1

/-- What holds of a thread wherever it is: its channel is tended, a terminated controller handles
nothing, and a parked one is stepping from the line of its stop. -/
structure Thread.Wellformed (t : Thread) : Prop where
  tended : t.controller.channel.Tended
  live : t.visit?.isSome = true → t.controller.terminated = false
  stopped : ∀ p, t = .parked p → p.controller.runTillNextLine = true ∧ p.controller.armed = none ∧
    p.controller.lastSelectedLine = p.line

theorem running_wellformed {c : Controller} (tended : c.channel.Tended) :
    (Thread.running c).Wellformed := by
  refine ⟨tended, nofun, ?_⟩
  intro p parked
  contradiction

theorem obeying_wellformed {c : Controller} {v : Visit} (tended : c.channel.Tended)
    (live : c.terminated = false) : (Thread.obeying c v).Wellformed := by
  refine ⟨tended, fun _ => live, ?_⟩
  intro p parked
  contradiction

theorem fresh_wellformed (loader : Loader) (registry : Registry) (maxFrames : Nat) :
    (Thread.fresh loader registry maxFrames).Wellformed :=
  running_wellformed ⟨rfl, nofun⟩

theorem update_wellformed {t : Thread} (wellformed : t.Wellformed) {f : Controller → Controller}
    (tended : (f t.controller).channel.Tended)
    (same : ∀ c, (f c).terminated = c.terminated ∧ (f c).runTillNextLine = c.runTillNextLine ∧
      (f c).armed = c.armed ∧ (f c).lastSelectedLine = c.lastSelectedLine) :
    (t.update f).Wellformed := by
  refine ⟨by rwa [Thread.controller_update], ?_, ?_⟩
  · intro visit
    rw [Thread.visit?_update] at visit
    rw [Thread.controller_update, (same _).1]
    exact wellformed.live visit
  · intro p parked
    cases t with
    | running c => contradiction
    | obeying c v => contradiction
    | parked q =>
      cases parked
      have stopped := wellformed.stopped q rfl
      simp only [same]
      exact stopped

theorem obeyed_wellformed {c : Controller} {v : Visit} {command : Command} {last : Bool}
    (tended : c.channel.Tended) (live : c.terminated = false) :
    ((c.obey v command).thread v last).Wellformed := by
  have channel := Controller.channel_obey c v command
  cases obeyed : c.obey v command with
  | handled d =>
    rw [obeyed] at channel
    have tended' : d.channel.Tended := channel ▸ tended
    have live' := (Controller.obey_handled_live obeyed).trans live
    cases last with
    | true => exact running_wellformed tended'
    | false => exact obeying_wellformed tended' live'
  | stops d =>
    rw [obeyed] at channel
    have tended' : d.channel.Tended := channel ▸ tended
    have live' : d.terminated = false := by
      rcases Controller.obey_eq_stops.mp obeyed with ⟨_, rfl⟩ | ⟨_, _, rfl⟩
      · exact live
      · exact live
    refine ⟨tended', fun _ => live', ?_⟩
    intro p parked
    cases parked
    exact ⟨rfl, rfl, rfl⟩
  | ends d =>
    rw [obeyed] at channel
    have tended' : d.channel.Tended := channel ▸ tended
    exact running_wellformed tended'

theorem move_wellformed {t u : Thread} {es : History} (wellformed : t.Wellformed)
    (move : t.Move es u) : u.Wellformed := by
  cases move with
  | host moved =>
    exact update_wellformed wellformed (Channel.hostMove_tended wellformed.tended moved)
      fun _ => ⟨rfl, rfl, rfl, rfl⟩
  | edit change =>
    exact update_wellformed wellformed wellformed.tended fun _ => ⟨rfl, rfl, rfl, rfl⟩
  | pass idle passed =>
    obtain ⟨_, rfl, _⟩ := Controller.idle_changes idle passed
    exact running_wellformed wellformed.tended
  | @observe c files step awake =>
    have same := Controller.approach_changes c files step
    apply obeying_wellformed
    · rw [same]
      exact Channel.push_tended wellformed.tended
    · rw [same]
      exact (Controller.isIdle_eq_false.mp awake).1
  | dispatch next =>
    obtain ⟨_, _, same⟩ := Thread.next_changes next
    have live := wellformed.live (by rw [Thread.visit?_of_next next]; rfl)
    exact obeyed_wellformed (Thread.next_tended next wellformed.tended).1 (by rw [same]; exact live)
  | leaveFrame c => exact running_wellformed wellformed.tended

theorem run_wellformed {s t : Thread} {h : History} (run : Run s t h) (wellformed : s.Wellformed) :
    t.Wellformed := by
  induction run with
  | start => exact wellformed
  | move _ move ih => exact move_wellformed ih move

theorem reports_deeds (c : Controller) (v : Visit) (e : Envelope) :
    reportsIn (c.deeds v e) = [] := by
  rw [Controller.deeds, reports_append, reports_append]
  cases c.obey v e.command <;> cases c.startedSkip? v e.command <;> rfl

theorem ended_mem_deeds {c : Controller} {v : Visit} {e : Envelope} {u : Visit} :
    .ended u ∈ c.deeds v e ↔ u = v ∧ ∃ d, c.obey v e.command = .ends d := by
  rw [Controller.deeds]
  cases c.obey v e.command <;> simp [Obeyed.outcome]

/-- Taking commands until the pulse has been handled is `consume`. Only an end of the session among
them ends it, and no command is a call of the observer. -/
theorem consume_run (v : Visit) (queue : List Envelope) (c : Controller)
    (all : c.channel.queue = queue) :
    ∃ h, Run (.obeying c v) ((c.consume v queue).thread v) h ∧ reportsIn h = [] ∧
      ((∃ u, .ended u ∈ h) ↔ ∃ d, c.consume v queue = .ended d) := by
  induction queue generalizing c with
  | nil =>
    have same : { c with channel := { c.channel with queue := [] } } = c := by rw [← all]
    rw [Controller.consume, same]
    exact ⟨_, .start, rfl, by simp⟩
  | cons e rest ih =>
    have taken : c.channel.take? = some (e, { c.channel with queue := rest }) := by
      simp [Channel.take?, all]
    have first := Run.start.move (.dispatch (.take (v := v) taken))
    rw [Controller.consume_cons]
    generalize hd : { c with channel := { c.channel with queue := rest } } = d at first ⊢
    have channel := Controller.channel_obey d v e.command
    rw [List.append_nil] at first
    have silent := reports_deeds d v e
    cases obeyed : d.obey v e.command with
    | handled d' =>
      rw [obeyed] at first channel
      dsimp only [Obeyed.lead]
      by_cases last : e = pulse
      · simp only [Obeyed.thread, last, decide_true, if_true] at first
        rw [if_pos last]
        exact ⟨_, first, last ▸ silent, by simp [ended_mem_deeds, ← last, obeyed]⟩
      · simp only [Obeyed.thread, last, decide_false, Bool.false_eq_true, if_false] at first
        have tail : d'.channel.queue = rest := (congrArg Channel.queue channel).trans (hd ▸ rfl)
        obtain ⟨h, later, quiet, ends⟩ := ih d' tail
        rw [if_neg last]
        refine ⟨_, first.append later, by rw [reports_append, quiet, silent, List.append_nil], ?_⟩
        simpa [ended_mem_deeds, obeyed] using ends
    | stops d' =>
      rw [obeyed] at first
      exact ⟨_, first, silent, by simp [ended_mem_deeds, obeyed, Obeyed.lead]⟩
    | ends d' =>
      rw [obeyed] at first
      exact ⟨_, first, silent, by simp [ended_mem_deeds, obeyed, Obeyed.lead]⟩

theorem trace_run (c : Controller) (files : FileTree) (step : Step) :
    ∃ h, Run (.running c) ((c.trace files step).thread (c.approach files step).2) h := by
  by_cases idle : c.isIdle = true
  · have passed := Controller.trace_idle idle files step
    rw [passed]
    exact ⟨_, Run.start.move (.pass idle passed)⟩
  · have awake : c.isIdle = false := by simpa using idle
    obtain ⟨h, run, -⟩ := consume_run (c.approach files step).2 _ (c.approach files step).1 rfl
    rw [Controller.trace_awake awake]
    exact ⟨_, (Run.start.move (.observe files step awake)).append run⟩

theorem answer?_run {p : Parked} {answered : Traced} (answer : p.answer? = some answered) :
    ∃ h, Run (.parked p) (answered.thread p.visit) h ∧ reportsIn h = [] ∧
      ((∃ u, .ended u ∈ h) ↔ ∃ d, answered = .ended d) := by
  cases taken : p.controller.channel.takeFromHost? with
  | none =>
    rw [Parked.answer?, taken] at answer
    contradiction
  | some first =>
    have move := Run.start.move (.dispatch (.answer taken))
    rw [List.append_nil] at move
    rw [answer?_eq taken] at answer
    cases Option.some.inj answer
    have silent :=
      reports_deeds { p.controller with channel := first.2, phase := .awaitingCommand } p.visit
      ⟨first.1, .host⟩
    refine ⟨_, ?_, silent, ?_⟩
    · cases obeyed : Controller.obey _ p.visit first.1 <;> rw [obeyed] at move <;> exact move
    · simp only [ended_mem_deeds]
      cases Controller.obey _ p.visit first.1 <;> simp [Obeyed.lead]

end SourceStepper
