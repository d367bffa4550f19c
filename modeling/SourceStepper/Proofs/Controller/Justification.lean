import SourceStepper.Proofs.Controller.History

namespace SourceStepper

/-- A reason for a stop: a host has asked for it just now, another line has been reached since the
last stop, or execution runs freely and has come to a breakpoint, not on the line that it was
resumed from unless that has been left in between. -/
inductive StopReason (registry : Registry) (h es : History) (p : Parked) : Prop
  | asked (dispatched : .dispatched p.visit ⟨.suspend, .host⟩ ∈ es)
  | otherLine {q : Parked} (stepping : SteppingFrom h q) (other : q.line ≠ p.line)
  | breakpoint (free : RunningFreely h)
      (set : registry.shouldStop p.visit.location.source.path p.line = true)
      (left : ∀ r, lastResume? h = some r →
        ∃ w ∈ observedSinceResume h, w.location.line ≠ r.location.line)

/-- A reason for a skip: a host has asked for it just now, or on the line of the last stop, which
the controller has been stepping from since. -/
inductive SkipReason (h es : History) (v : Visit) (kind : SkipKind) : Prop
  | asked (dispatched : .dispatched v ⟨kind.command, .host⟩ ∈ es)
  | waiting {q : Parked} {w : Visit} (stepping : SteppingFrom h q)
      (dispatched : .dispatched w ⟨kind.command, .host⟩ ∈ sinceStop h)
      (there : w.location.line = q.line) (here : v.location.line = q.line)

theorem line_left {c : Controller} {v : Visit} {h : History} (explained : Explained c (some v) h)
    (elsewhere : c.resumedFrom ≠ some v.location.line) {r : Visit} (last : lastResume? h = some r) :
    ∃ w ∈ observedSinceResume h, w.location.line ≠ r.location.line := by
  by_cases all : (observedSinceResume h).all (·.location.line = r.location.line) = true
  · have resumed : c.resumedFrom = some r.location.line := by
      rw [explained.resumed, resumedLine?, last, Option.bind_some, if_pos all]
    have here : v.location.line = r.location.line := by
      rcases explained.current v rfl r last with member | same
      · simpa using List.all_eq_true.mp all v member
      · exact same.symm
    exact absurd (here ▸ resumed) elsewhere
  · simpa using all

theorem stopReason_of_stops {c d : Controller} {v : Visit} {e : Envelope} {h : History}
    (explained : Explained c (some v) h) (live : c.terminated = false)
    (own : e.isHost = false → e = pulse) (obeyed : c.obey v e.command = .stops d) :
    StopReason c.registry h (c.deeds v e) (d.park v) := by
  rcases Controller.obey_eq_stops.mp obeyed with ⟨suspend, _⟩ | ⟨_, stops, _⟩
  · apply StopReason.asked
    have fromHost := Channel.origin_host own (by simp [suspend])
    have whole : e = ⟨.suspend, .host⟩ := by rw [← suspend, ← fromHost]
    exact List.mem_append_right _ (whole ▸ List.mem_cons_self)
  · cases stepping : c.runTillNextLine with
    | true =>
      obtain ⟨q, from_⟩ := (explained.stepping live).mp stepping
      rw [Controller.shouldStop_stepping stepping, explained.stopped q from_.1] at stops
      exact .otherLine from_ (Ne.symm stops)
    | false =>
      rw [Controller.shouldStop_free stepping] at stops
      have free : RunningFreely h := by
        rw [runningFreely_iff, ← explained.stepping live, stepping]
        exact Bool.false_ne_true
      exact .breakpoint free stops.2 fun r last => line_left explained stops.1 last

theorem skipReason_of_started {c : Controller} {v : Visit} {e : Envelope} {kind : SkipKind}
    {h : History} (explained : Explained c (some v) h) (live : c.terminated = false)
    (own : e.isHost = false → e = pulse) (started : c.startedSkip? v e.command = some kind) :
    SkipReason h (c.deeds v e) v kind := by
  by_cases execute : e.command = .execute
  · simp only [execute, Controller.startedSkip?] at started
    split at started
    · rename_i waits
      obtain ⟨stepping, here, _⟩ := waits
      obtain ⟨q, from_⟩ := (explained.stepping live).mp stepping
      have line := explained.stopped q from_.1
      have same : ∀ u, some v = some u → u.location.line = c.lastSelectedLine := by
        intro u same
        cases same
        exact here
      obtain ⟨w, asked, there⟩ := explained.armed kind started stepping same
      exact .waiting from_ asked (there.trans line) (here.trans line)
    · contradiction
  · have whole : e = ⟨kind.command, .host⟩ := by
      rw [← Controller.startedSkip?_command started execute, ← Channel.origin_host own execute]
    exact .asked (List.mem_append_right _ (whole ▸ List.mem_cons_self))

/-- Nothing but a skip that starts raises the number of jump destinations to be seen. -/
theorem raised_skip {t u : Thread} {es : History} (move : t.Move es u)
    (raised : t.controller.jump.remaining < u.controller.jump.remaining) :
    ∃ v kind, .skipStarted v kind ∈ es := by
  cases move with
  | host moved =>
    rw [Thread.controller_update] at raised
    exact absurd raised (Nat.lt_irrefl _)
  | edit change =>
    rw [Thread.controller_update] at raised
    exact absurd raised (Nat.lt_irrefl _)
  | pass idle passed =>
    obtain ⟨_, rfl, fewer⟩ := Controller.idle_changes idle passed
    exact absurd raised (Nat.not_lt.mpr fewer)
  | @observe c files step awake =>
    have same := Controller.approach_changes c files step
    simp only [Thread.controller, same, Nat.lt_irrefl] at raised
  | @dispatch _ c v e last next =>
    obtain ⟨_, _, _, _, _, behind⟩ := Thread.thread_changes (c.obey v e.command) v last
    have before : c.jump = t.controller.jump := by
      obtain ⟨_, _, rfl⟩ := Thread.next_changes next
      rfl
    rw [behind, Controller.jump_obey, before] at raised
    cases started : c.startedSkip? v e.command with
    | some kind =>
      refine ⟨v, kind, ?_⟩
      simp [Controller.deeds, started]
    | none =>
      simp only [started] at raised
      split at raised
      · exact absurd raised (Nat.not_lt_zero _)
      · exact absurd raised (Nat.lt_irrefl _)
  | leaveFrame c => exact absurd raised (Nat.not_lt_zero _)

/-- In every run of a new controller, each stop that hosts are told of has a reason, and so has each
skip that starts; a skip starts at a jump that does not leave a function, and in no other way is
anything skipped. -/
theorem stops_and_skips_justified {loader : Loader} {registry : Registry} {maxFrames : Nat}
    {t u : Thread}
    {h es : History} (run : Run (.fresh loader registry maxFrames) t h) (move : t.Move es u) :
    (∀ p, .suspended p ∈ es → StopReason t.controller.registry h es p) ∧
    (∀ v kind, .skipStarted v kind ∈ es →
      v.step.opcode.isJump = true ∧ v.location.element.map (·.jump) ≠ some .out ∧
        SkipReason h es v kind) ∧
    (t.controller.jump.remaining < u.controller.jump.remaining →
      ∃ v kind, .skipStarted v kind ∈ es) := by
  have raised := raised_skip move
  have wellformed := run_wellformed run (fresh_wellformed loader registry maxFrames)
  have explained := run_explained run
  cases move with
  | host moved => exact ⟨by simp, by simp, raised⟩
  | edit change => exact ⟨by simp, by simp, raised⟩
  | pass idle passed => exact ⟨by simp, by simp, raised⟩
  | observe files step awake => exact ⟨by simp, by simp, raised⟩
  | leaveFrame c => exact ⟨by simp, by simp, raised⟩
  | @dispatch _ c v e last next =>
    have live : c.terminated = false := by
      have live := wellformed.live (by rw [Thread.visit?_of_next next]; rfl)
      obtain ⟨_, _, rfl⟩ := Thread.next_changes next
      exact live
    have registry : c.registry = t.controller.registry := by
      obtain ⟨_, _, rfl⟩ := Thread.next_changes next
      rfl
    have own := (Thread.next_tended next wellformed.tended).2
    have taken := next_explained explained next
    refine ⟨?_, ?_, raised⟩
    · intro p told
      cases obeyed : c.obey v e.command with
      | handled d => simp [Controller.deeds, obeyed, Obeyed.outcome] at told
      | ends d => simp [Controller.deeds, obeyed, Obeyed.outcome] at told
      | stops d =>
        have same : p = d.park v := by simpa [Controller.deeds, obeyed, Obeyed.outcome] using told
        rw [same, ← registry]
        exact stopReason_of_stops taken live own obeyed
    · intro w kind told
      have same : c.startedSkip? v e.command = some kind ∧ w = v := by
        cases obeyed : c.obey v e.command <;>
          simpa [Controller.deeds, obeyed, Obeyed.outcome, eq_comm] using told
      obtain ⟨started, rfl⟩ := same
      have call := Controller.startedSkip?_at_call started
      rw [Location.isCallJump, Bool.and_eq_true] at call
      exact ⟨call.1, of_decide_eq_true call.2, skipReason_of_started taken live own started⟩

/-- A `stepOver` at a stop that is not a call waits, and its skip starts at the call behind it. -/
theorem waiting_skip_justified :
    ∃ t u h es v, Run .bare t h ∧ t.Move es u ∧
      es = [.skipStarted v .stepOver, .dispatched v pulse] ∧ u.controller.jump = ⟨2⟩ ∧
        SkipReason h es v .stepOver := by
  have observed := ((Run.start (s := .bare)).sent 0 .suspend rfl).move
    (.observe {} { pc := 0, opcode := 0x01 } rfl)
  have stopped := (observed.move (.dispatch (.take rfl))).sent 0 .stepOver rfl
  have stepped := stopped.move (.dispatch (.answer rfl))
  have atCall := stepped.move (.observe {} { pc := 1, opcode := 0x56 } rfl)
  have justified :=
    (stops_and_skips_justified atCall (.dispatch (.take rfl))).2.1 _ .stepOver List.mem_cons_self
  exact ⟨_, _, _, _, _, atCall, .dispatch (.take rfl), rfl, rfl, justified.2.2⟩

end SourceStepper
