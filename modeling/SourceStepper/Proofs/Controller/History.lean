import SourceStepper.Proofs.Controller.Run

namespace SourceStepper

namespace Event

def stop? : Event → Option Parked
  | .suspended p => some p
  | _ => none

def resume? : Event → Option Visit
  | .dispatched v ⟨.resume, _⟩ => some v
  | _ => none

def observed? : Event → Option Visit
  | .observed v => some v
  | _ => none

def frees : Event → Bool
  | .dispatched _ ⟨.resume, _⟩ => true
  | .frameLeft => true
  | _ => false

def Quiet (e : Event) : Prop :=
  e.stop? = none ∧ e.resume? = none ∧ e.observed? = none ∧ e.frees = false

end Event

def lastStop? (h : History) : Option Parked := h.findSome? Event.stop?

def sinceStop (h : History) : History := h.takeWhile (·.stop?.isNone)

def lastResume? (h : History) : Option Visit := h.findSome? Event.resume?

/-- The instructions that have been observed since execution was resumed, the latest first. -/
def observedSinceResume (h : History) : List Visit :=
  (h.takeWhile (·.resume?.isNone)).filterMap Event.observed?

/-- The last stop was `p`, and neither has execution been resumed nor a frame been left
behind it. -/
def SteppingFrom (h : History) (p : Parked) : Prop :=
  lastStop? h = some p ∧ ∀ e ∈ sinceStop h, e.frees = false

/-- There has been no stop, or execution has been resumed or a frame been left behind the
last one. -/
def RunningFreely (h : History) : Prop :=
  ∀ p, lastStop? h = some p → ∃ e ∈ sinceStop h, e.frees = true

/-- The line that execution was resumed from, as long as no other one has been observed. -/
def resumedLine? (h : History) : Option Nat :=
  (lastResume? h).bind fun r =>
    if (observedSinceResume h).all (·.location.line = r.location.line) then some r.location.line
    else none

theorem runningFreely_iff (h : History) : RunningFreely h ↔ ¬ ∃ p, SteppingFrom h p := by
  constructor
  · rintro free ⟨p, last, stepping⟩
    obtain ⟨e, member, frees⟩ := free p last
    rw [stepping e member] at frees
    contradiction
  · intro none p last
    by_cases ended : ∃ e ∈ sinceStop h, e.frees = true
    · exact ended
    · refine absurd ⟨p, last, ?_⟩ none
      intro e member
      cases frees : e.frees with
      | false => rfl
      | true => exact absurd ⟨e, member, frees⟩ ended

theorem steppingFrom_cons {e : Event} {h : History} {p : Parked} (noStop : e.stop? = none)
    (noEnd : e.frees = false) : SteppingFrom (e :: h) p ↔ SteppingFrom h p := by
  simp [SteppingFrom, lastStop?, sinceStop, noStop, noEnd]

/-- What a controller keeps in mind, by the history. `visit?` is the instruction that it handles. -/
structure Explained (c : Controller) (visit? : Option Visit) (h : History) : Prop where
  stepping : c.terminated = false → (c.runTillNextLine = true ↔ ∃ p, SteppingFrom h p)
  stopped : ∀ p, lastStop? h = some p → c.lastSelectedLine = p.line
  resumed : c.resumedFrom = resumedLine? h
  -- An instruction on another line can arm a skip as well, but stops before anything comes of it.
  armed : ∀ kind, c.armed = some kind → c.runTillNextLine = true →
    (∀ v, visit? = some v → v.location.line = c.lastSelectedLine) →
    ∃ w, .dispatched w ⟨kind.command, .host⟩ ∈ sinceStop h ∧ w.location.line = c.lastSelectedLine
  current : ∀ v, visit? = some v → ∀ r, lastResume? h = some r →
    v ∈ observedSinceResume h ∨ r.location.line = v.location.line

/-- Of what happens at a dispatch, only what the command comes to can be a stop. -/
theorem stops_of_deeds (c : Controller) (v : Visit) (e : Envelope) :
    (c.deeds v e).filterMap Event.stop? =
      ((c.obey v e.command).outcome v).filterMap Event.stop? := by
  have skips : ((c.startedSkip? v e.command).toList.map (Event.skipStarted v)).filterMap
      Event.stop? = [] := by
    cases c.startedSkip? v e.command <;> rfl
  rw [Controller.deeds, List.filterMap_append, List.filterMap_append, skips, List.append_nil]
  exact List.append_nil _

theorem quiet_explained {c : Controller} {visit? : Option Visit} {h : History} {e : Event}
    (explained : Explained c visit? h) (quiet : e.Quiet) : Explained c visit? (e :: h) := by
  obtain ⟨noStop, noResume, noVisit, noEnd⟩ := quiet
  have stop : lastStop? (e :: h) = lastStop? h := by simp [lastStop?, noStop]
  have since : sinceStop (e :: h) = e :: sinceStop h := by simp [sinceStop, noStop]
  have resume : lastResume? (e :: h) = lastResume? h := by simp [lastResume?, noResume]
  have observed : observedSinceResume (e :: h) = observedSinceResume h := by
    simp [observedSinceResume, noResume, noVisit]
  have stepping : ∀ p, SteppingFrom (e :: h) p ↔ SteppingFrom h p := by
    intro p
    exact steppingFrom_cons noStop noEnd
  refine ⟨?_, ?_, ?_, ?_, ?_⟩
  · simpa only [stepping] using explained.stepping
  · simpa only [stop] using explained.stopped
  · simpa only [resumedLine?, resume, observed] using explained.resumed
  · intro kind armed running here
    obtain ⟨w, member, line⟩ := explained.armed kind armed running here
    exact ⟨w, since ▸ List.mem_cons_of_mem e member, line⟩
  · simpa only [resume, observed] using explained.current

theorem quiet_append {c : Controller} {visit? : Option Visit} {h es : History}
    (explained : Explained c visit? h) (quiet : ∀ e ∈ es, e.Quiet) :
    Explained c visit? (es ++ h) := by
  induction es with
  | nil => exact explained
  | cons e es ih =>
    have tail := ih fun x member => quiet x (List.mem_cons_of_mem e member)
    exact quiet_explained tail (quiet e List.mem_cons_self)

theorem skips_quiet (v : Visit) (skip : Option SkipKind) :
    ∀ e ∈ skip.toList.map (Event.skipStarted v), e.Quiet := by
  intro e member
  obtain ⟨kind, _, rfl⟩ := List.mem_map.mp member
  exact ⟨rfl, rfl, rfl, rfl⟩

theorem dispatched_quiet {v : Visit} {e : Envelope} (other : e.command ≠ .resume) :
    (Event.dispatched v e).Quiet := by
  obtain ⟨command, origin⟩ := e
  cases command <;> first | exact ⟨rfl, rfl, rfl, rfl⟩ | contradiction

theorem disarmed_explained {c : Controller} {visit? : Option Visit} {h : History}
    (explained : Explained c visit? h) (jump : JumpSkip) :
    Explained { c with armed := none, jump } visit? h :=
  ⟨explained.stepping, explained.stopped, explained.resumed, nofun, explained.current⟩

theorem armed_explained {c : Controller} {v : Visit} {h : History} {kind : SkipKind}
    (explained : Explained c (some v) h)
    (asked : .dispatched v ⟨kind.command, .host⟩ ∈ sinceStop h) :
    Explained { c with armed := some kind } (some v) h := by
  refine ⟨explained.stepping, explained.stopped, explained.resumed, ?_, explained.current⟩
  intro other same _ here
  cases same
  exact ⟨v, asked, here v rfl⟩

theorem armOrSkip_explained {c : Controller} {v : Visit} {h : History} {kind : SkipKind}
    (explained : Explained c (some v) h)
    (asked : .dispatched v ⟨kind.command, .host⟩ ∈ sinceStop h) :
    Explained (c.armOrSkip v kind) (some v) h := by
  unfold Controller.armOrSkip
  split
  · exact disarmed_explained explained _
  · exact armed_explained explained asked

theorem goOn_explained {c : Controller} {visit? : Option Visit} {h : History}
    (explained : Explained c visit? h) (v : Visit) : Explained (c.goOn v) visit? h := by
  unfold Controller.goOn
  split
  · split
    · exact disarmed_explained explained _
    · exact explained
  · exact explained

theorem resume_explained {c : Controller} {v : Visit} {h : History} {origin : Origin}
    (explained : Explained c (some v) h) :
    Explained
      { c with runTillNextLine := false, armed := none, resumedFrom := some v.location.line }
      (some v) (.dispatched v ⟨.resume, origin⟩ :: h) := by
  have last : lastResume? (.dispatched v ⟨.resume, origin⟩ :: h) = some v := rfl
  refine ⟨?_, explained.stopped, rfl, nofun, ?_⟩
  · intro _
    constructor
    · intro running
      contradiction
    · rintro ⟨p, _, stepping⟩
      have frees := stepping (.dispatched v ⟨.resume, origin⟩) List.mem_cons_self
      contradiction
  · intro u here r resumed
    cases here
    cases last.symm.trans resumed
    exact .inr rfl

theorem handled_explained {c d : Controller} {v : Visit} {e : Envelope} {h : History}
    (explained : Explained c (some v) h) (own : e.isHost = false → e = pulse)
    (obeyed : c.obey v e.command = .handled d) : Explained d (some v) (c.deeds v e ++ h) := by
  have fromHost := Channel.origin_host own
  obtain ⟨command, origin⟩ := e
  have dispatched : command ≠ .resume →
      Explained c (some v) (.dispatched v ⟨command, origin⟩ :: h) := by
    intro other
    exact quiet_explained explained (dispatched_quiet other)
  have handled : Explained d (some v) (.dispatched v ⟨command, origin⟩ :: h) := by
    cases command with
    | execute =>
      obtain ⟨_, rfl⟩ := Controller.obey_execute_handled obeyed
      exact goOn_explained (dispatched (by simp)) v
    | suspend => contradiction
    | stepInto =>
      cases obeyed
      exact dispatched (by simp)
    | stepOver =>
      cases obeyed
      cases fromHost (by simp)
      exact armOrSkip_explained (dispatched (by simp)) List.mem_cons_self
    | stepOut =>
      cases obeyed
      cases fromHost (by simp)
      exact armOrSkip_explained (dispatched (by simp)) List.mem_cons_self
    | resume =>
      cases obeyed
      exact resume_explained explained
    | stop => contradiction
  rw [Controller.deeds, obeyed, List.append_assoc]
  exact quiet_append handled (skips_quiet v _)

theorem stopped_explained {c : Controller} {p : Parked} {h : History}
    (explained : Explained c (some p.visit) h) (stepping : p.controller.runTillNextLine = true)
    (disarmed : p.controller.armed = none) (here : p.controller.lastSelectedLine = p.line)
    (same : p.controller.resumedFrom = c.resumedFrom) :
    Explained p.controller (some p.visit) (.suspended p :: h) := by
  have since : sinceStop (.suspended p :: h) = [] := rfl
  refine ⟨?_, ?_, same.trans explained.resumed, by simp [disarmed], explained.current⟩
  · intro _
    exact ⟨fun _ => ⟨p, rfl, by simp [since]⟩, fun _ => stepping⟩
  · intro q last
    cases last
    exact here

theorem stops_explained {c d : Controller} {v : Visit} {e : Envelope} {h : History}
    (explained : Explained c (some v) h) (obeyed : c.obey v e.command = .stops d) :
    Explained (d.park v).controller (some v) (c.deeds v e ++ h) := by
  have same : d.resumedFrom = c.resumedFrom ∧ e.command ≠ .resume := by
    rcases Controller.obey_eq_stops.mp obeyed with ⟨command, rfl⟩ | ⟨command, _, rfl⟩ <;>
      simp [command]
  have dispatched := quiet_explained explained (dispatched_quiet (v := v) same.2)
  have skipped := quiet_append dispatched (skips_quiet v (c.startedSkip? v e.command))
  rw [Controller.deeds, obeyed, List.append_assoc, List.append_assoc]
  exact stopped_explained (p := d.park v) skipped rfl rfl rfl same.1

theorem ends_explained {c d : Controller} {v : Visit} {e : Envelope} {h : History}
    (explained : Explained c (some v) h) (obeyed : c.obey v e.command = .ends d) :
    Explained d.leave none (c.deeds v e ++ h) := by
  obtain ⟨command, origin⟩ := e
  cases (Controller.obey_eq_ends obeyed).1
  have quiet := dispatched_quiet (v := v) (e := ⟨.stop, origin⟩) (by simp)
  have dispatched := quiet_explained explained quiet
  have ended := quiet_explained dispatched (e := .ended v) ⟨rfl, rfl, rfl, rfl⟩
  have deeds : c.deeds v ⟨.stop, origin⟩ ++ h = .ended v :: .dispatched v ⟨.stop, origin⟩ :: h :=
    rfl
  rw [deeds]
  cases obeyed
  refine ⟨?_, ended.stopped, ended.resumed, ?_, by simp⟩
  · intro live
    contradiction
  · intro _ _ running
    contradiction

theorem leave_explained {c : Controller} {v : Visit} {h : History}
    (explained : Explained c (some v) h)
    (here : c.runTillNextLine = true → v.location.line = c.lastSelectedLine) :
    Explained c.leave none h := by
  refine ⟨explained.stepping, explained.stopped, explained.resumed, ?_, by simp⟩
  intro kind armed running _
  apply explained.armed kind armed running
  intro u same
  cases same
  exact here running

theorem handled_here {t : Thread} {c d : Controller} {v : Visit} {e : Envelope}
    (wellformed : t.Wellformed)
    (next : t.Next c v e true) (obeyed : c.obey v e.command = .handled d)
    (running : d.runTillNextLine = true) : v.location.line = d.lastSelectedLine := by
  have line := Controller.line_obey c v e.command
  rw [obeyed] at line
  generalize last : true = b at next
  cases next with
  | @take c v e channel taken =>
    have own : e = pulse := of_decide_eq_true last.symm
    rw [own] at obeyed
    obtain ⟨passes, rfl⟩ := Controller.obey_execute_handled obeyed
    obtain ⟨_, _, same⟩ := Controller.goOn_changes { c with channel } v
    rw [same] at running ⊢
    have stepping : c.runTillNextLine = true := running
    simpa [Controller.shouldStop, stepping] using passes
  | @answer p command channel taken =>
    exact (wellformed.stopped p rfl).2.2.symm.trans line.symm

theorem next_explained {t : Thread} {c : Controller} {v : Visit} {e : Envelope} {last : Bool}
    {h : History}
    (explained : Explained t.controller t.visit? h) (next : t.Next c v e last) :
    Explained c (some v) h := by
  rw [Thread.visit?_of_next next] at explained
  obtain ⟨_, _, rfl⟩ := Thread.next_changes next
  exact ⟨explained.stepping, explained.stopped, explained.resumed, explained.armed,
    explained.current⟩

theorem obeyed_explained {t : Thread} {c : Controller} {v : Visit} {e : Envelope} {last : Bool}
    {h : History}
    (wellformed : t.Wellformed) (explained : Explained t.controller t.visit? h)
    (next : t.Next c v e last) :
    Explained ((c.obey v e.command).thread v last).controller
      ((c.obey v e.command).thread v last).visit? (c.deeds v e ++ h) := by
  have taken := next_explained explained next
  cases obeyed : c.obey v e.command with
  | handled d =>
    have handled := handled_explained taken (Thread.next_tended next wellformed.tended).2 obeyed
    cases last with
    | true => exact leave_explained handled (handled_here wellformed next obeyed)
    | false => exact handled
  | stops d => exact stops_explained taken obeyed
  | ends d => exact ends_explained taken obeyed

theorem observed_explained {c : Controller} {h : History} (explained : Explained c none h)
    (files : FileTree) (step : Step) :
    Explained (c.approach files step).1 (some (c.approach files step).2)
      (.observed (c.approach files step).2 :: h) := by
  have same := Controller.approach_changes c files step
  rw [same]
  generalize (c.approach files step).2 = v
  have observed : observedSinceResume (.observed v :: h) = v :: observedSinceResume h := rfl
  have resume : lastResume? (.observed v :: h) = lastResume? h := rfl
  refine ⟨?_, explained.stopped, ?_, ?_, ?_⟩
  · intro live
    simpa only [steppingFrom_cons (e := .observed v) rfl rfl] using explained.stepping live
  · simp only [explained.resumed, resumedLine?, resume, observed, List.all_cons]
    cases lastResume? h with
    | none => simp
    | some r =>
      cases all : (observedSinceResume h).all (·.location.line = r.location.line) with
      | false =>
        simp only [Option.bind_some, all, Bool.and_false, Bool.false_eq_true, if_false, ite_self]
      | true =>
        by_cases here : v.location.line = r.location.line
        · simp only [Option.bind_some, all, here, decide_true, Bool.and_true, if_true]
        · simp only [Option.bind_some, all, here, Ne.symm here, decide_false, Bool.false_and,
            Bool.false_eq_true, if_true, if_false, Option.some.injEq]
  · intro kind armed running _
    obtain ⟨w, member, line⟩ := explained.armed kind armed running (by simp)
    exact ⟨w, List.mem_cons_of_mem _ member, line⟩
  · intro u here r _
    cases here
    exact .inl List.mem_cons_self

theorem update_explained {t : Thread} {f : Controller → Controller} {h : History}
    (explained : Explained t.controller t.visit? h)
    (same : ∀ c, (f c).terminated = c.terminated ∧ (f c).runTillNextLine = c.runTillNextLine ∧
      (f c).armed = c.armed ∧ (f c).lastSelectedLine = c.lastSelectedLine ∧
      (f c).resumedFrom = c.resumedFrom) :
    Explained (t.update f).controller (t.update f).visit? h := by
  obtain ⟨terminated, running, armed, line, resumed⟩ := same t.controller
  rw [Thread.controller_update, Thread.visit?_update]
  refine ⟨?_, ?_, resumed.trans explained.resumed, ?_, explained.current⟩
  · rw [terminated, running]
    exact explained.stepping
  · rw [line]
    exact explained.stopped
  · rw [armed, running, line]
    exact explained.armed

theorem left_explained {c : Controller} {h : History} (explained : Explained c none h) :
    Explained c.leaveFrame none (.frameLeft :: h) := by
  refine ⟨?_, explained.stopped, explained.resumed, nofun, by simp⟩
  intro _
  constructor
  · intro running
    contradiction
  · rintro ⟨p, _, stepping⟩
    have frees := stepping .frameLeft List.mem_cons_self
    contradiction

theorem move_explained {t u : Thread} {h es : History} (wellformed : t.Wellformed)
    (explained : Explained t.controller t.visit? h) (move : t.Move es u) :
    Explained u.controller u.visit? (es ++ h) := by
  cases move with
  | @host _ commands channel moved =>
    have sent : ∀ e ∈ (commands.map Event.sent).reverse, e.Quiet := by
      intro e member
      obtain ⟨_, _, rfl⟩ := List.mem_map.mp (List.mem_reverse.mp member)
      exact ⟨rfl, rfl, rfl, rfl⟩
    exact quiet_append (update_explained explained fun _ => ⟨rfl, rfl, rfl, rfl, rfl⟩) sent
  | edit change => exact update_explained explained fun _ => ⟨rfl, rfl, rfl, rfl, rfl⟩
  | @pass _ _ _ step idle passed =>
    obtain ⟨_, rfl, _⟩ := Controller.idle_changes idle passed
    have quiet := quiet_explained explained (e := .passedOver step) ⟨rfl, rfl, rfl, rfl⟩
    exact ⟨quiet.stepping, quiet.stopped, quiet.resumed, quiet.armed, quiet.current⟩
  | observe files step awake => exact observed_explained explained files step
  | dispatch next => exact obeyed_explained wellformed explained next
  | leaveFrame c => exact left_explained explained

theorem fresh_explained (loader : Loader) (registry : Registry) (maxFrames : Nat) :
    Explained (Thread.fresh loader registry maxFrames).controller none [] := by
  refine ⟨?_, ?_, rfl, ?_, by simp⟩
  · intro _
    constructor
    · intro running
      contradiction
    · rintro ⟨p, last, _⟩
      contradiction
  · intro p last
    contradiction
  · intro kind armed
    contradiction

theorem run_explained {loader : Loader} {registry : Registry} {maxFrames : Nat} {t : Thread}
    {h : History}
    (run : Run (.fresh loader registry maxFrames) t h) : Explained t.controller t.visit? h := by
  induction run with
  | start => exact fresh_explained loader registry maxFrames
  | move run move ih =>
    exact move_explained (run_wellformed run (fresh_wellformed loader registry maxFrames)) ih move

end SourceStepper
