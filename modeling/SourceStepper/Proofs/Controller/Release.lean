import SourceStepper.Proofs.Controller.Conservation
import SourceStepper.Proofs.Controller.Waiting

/-! A `stop` of a host, be it the one that the last sender leaves behind, cannot be got round. Until
it has been taken, every instruction that is handled takes something in front of it out of the
queue; when it is taken, the session ends, once and for all. -/
namespace SourceStepper

def Event.isEnd : Event → Bool
  | .ended _ => true
  | _ => false

/-- How many instructions have been handled, not counting those that were let through unseen. -/
def handledCount (h : History) : Nat := h.countP (·.observed?.isSome)

def endCount (h : History) : Nat := h.countP Event.isEnd

def Thread.isObeying : Thread → Bool
  | .obeying _ _ => true
  | _ => false

/-- How a run gets on towards a host's `stop` that stood behind `before` in the queue, and in front
of `after`. -/
def Approaching (before after : List Envelope) (h : History) (t : Thread) : Prop :=
  t.controller.terminated = true ∨
    ∃ taken rest new, before = taken ++ rest ∧
      t.controller.channel.queue = rest ++ ⟨.stop, .host⟩ :: (after ++ new) ∧
      handledCount h ≤ taken.length + t.isObeying.toNat

/-- What is not reached in front of a place stays in front of it. -/
theorem taken_ahead {own queue rest tail : List Envelope} {e stop : Envelope}
    (same : own ++ e :: queue = rest ++ stop :: tail) (absent : stop ∉ own) (other : e ≠ stop) :
    ∃ later, rest = own ++ e :: later ∧ queue = later ++ stop :: tail := by
  induction own generalizing rest with
  | nil =>
    cases rest with
    | nil => exact absurd (List.cons.inj same).1 other
    | cons x rest =>
      obtain ⟨rfl, rfl⟩ := List.cons.inj same
      exact ⟨rest, rfl, rfl⟩
  | cons x own ih =>
    cases rest with
    | nil => exact absurd (List.cons.inj same).1 fun here => absent (here ▸ List.mem_cons_self)
    | cons y rest =>
      obtain ⟨rfl, tails⟩ := List.cons.inj same
      obtain ⟨later, rfl, queue⟩ := ih tails fun member => absent (List.mem_cons_of_mem x member)
      exact ⟨later, rfl, queue⟩

namespace Thread

/-- The next command is taken out of the queue with the pulses in front of it, and nothing else of
the channel changes. -/
theorem next_queue {t : Thread} {c : Controller} {v : Visit} {e : Envelope} {last : Bool}
    (next : t.Next c v e last) :
    ∃ own, (∀ x ∈ own, x.isHost = false) ∧
      t.controller.channel.queue = own ++ e :: c.channel.queue ∧
      c.channel = { t.controller.channel with queue := c.channel.queue } := by
  cases next with
  | take taken =>
    obtain ⟨queue, same⟩ := Channel.take?_eq_some taken
    exact ⟨[], by simp, queue, same⟩
  | answer taken => exact Channel.takeFromHost?_eq_some taken

theorem next_live {t : Thread} {c : Controller} {v : Visit} {e : Envelope} {last : Bool}
    (wellformed : t.Wellformed) (next : t.Next c v e last) : c.terminated = false := by
  obtain ⟨_, _, same⟩ := next_changes next
  rw [same]
  exact wellformed.live (by rw [visit?_of_next next]; rfl)

@[simp] theorem isObeying_update (f : Controller → Controller) (t : Thread) :
    (t.update f).isObeying = t.isObeying := by cases t <;> rfl

end Thread

theorem handled_append (es h : History) :
    handledCount (es ++ h) = handledCount es + handledCount h := List.countP_append

theorem handled_deeds (c : Controller) (v : Visit) (e : Envelope) :
    handledCount (c.deeds v e) = 0 := by
  unfold Controller.deeds
  cases c.obey v e.command <;> cases c.startedSkip? v e.command <;> rfl

theorem end_deeds (c : Controller) (v : Visit) (e : Envelope) :
    endCount (c.deeds v e) = endCount ((c.obey v e.command).outcome v) := by
  unfold Controller.deeds
  cases c.startedSkip? v e.command <;> cases c.obey v e.command <;> rfl

theorem sent_counts (commands : List Command) :
    handledCount (commands.map Event.sent).reverse = 0 ∧
      endCount (commands.map Event.sent).reverse = 0 := by
  simp [handledCount, endCount, List.countP_eq_zero, Event.observed?, Event.isEnd]

theorem move_ends {t u : Thread} {es : History} (wellformed : t.Wellformed) (move : t.Move es u) :
    t.controller.terminated.toNat + endCount es = u.controller.terminated.toNat := by
  cases move with
  | host moved => rw [(sent_counts _).2, Thread.controller_update, Nat.add_zero]
  | edit change => rw [Thread.controller_update]; rfl
  | pass idle passed =>
    obtain ⟨_, rfl, _⟩ := Controller.idle_changes idle passed
    rfl
  | @observe c files step awake =>
    have same := congrArg Controller.terminated (Controller.approach_changes c files step)
    exact (congrArg Bool.toNat same).symm
  | leaveFrame c => rfl
  | @dispatch _ c v e last next =>
    have live := Thread.next_live wellformed next
    have before : t.controller.terminated = false := by
      obtain ⟨_, _, rfl⟩ := Thread.next_changes next
      exact live
    rw [end_deeds, before]
    cases obeyed : c.obey v e.command with
    | handled d =>
      have stays := (Controller.obey_handled_live obeyed).trans live
      cases last <;>
        simp [Obeyed.outcome, Obeyed.thread, endCount, Thread.controller, Controller.leave, stays]
    | stops d =>
      have stays : d.terminated = false := by
        rcases Controller.obey_eq_stops.mp obeyed with ⟨_, rfl⟩ | ⟨_, _, rfl⟩ <;> exact live
      simp [Obeyed.outcome, Obeyed.thread, endCount, Thread.controller, Controller.park,
        Controller.record, Event.isEnd, stays]
    | ends d =>
      have finished := (Controller.obey_eq_ends obeyed).2
      simp [Obeyed.outcome, Obeyed.thread, endCount, Thread.controller, Controller.leave,
        Event.isEnd, finished]

theorem run_ends {s t : Thread} {h : History} (wellformed : s.Wellformed) (run : Run s t h) :
    s.controller.terminated.toNat + endCount h = t.controller.terminated.toNat := by
  induction run with
  | start => rfl
  | @move t u h es run move ih =>
    have step := move_ends (run_wellformed run wellformed) move
    have append : endCount (es ++ h) = endCount es + endCount h := List.countP_append
    omega

theorem terminated_stays {t u : Thread} {es : History} (wellformed : t.Wellformed)
    (move : t.Move es u) (terminated : t.controller.terminated = true) :
    u.controller.terminated = true := by
  have ends := move_ends wellformed move
  cases finished : u.controller.terminated with
  | true => rfl
  | false => simp [terminated, finished] at ends

theorem next_stop {t : Thread} {c : Controller} {v : Visit} {e : Envelope} {last : Bool}
    (next : t.Next c v e last) {rest tail : List Envelope}
    (queue : t.controller.channel.queue = rest ++ ⟨.stop, .host⟩ :: tail) :
    ((c.obey v e.command).thread v last).controller.terminated = true ∨
      ∃ own later, rest = own ++ e :: later ∧
        c.channel.queue = later ++ ⟨.stop, .host⟩ :: tail := by
  obtain ⟨own, pulses, whole, _⟩ := Thread.next_queue next
  by_cases stop : e = ⟨.stop, .host⟩
  · left
    rw [stop]
    rfl
  · right
    have absent : ⟨.stop, .host⟩ ∉ own := by
      intro member
      have own := pulses _ member
      contradiction
    obtain ⟨later, ahead, behind⟩ := taken_ahead (whole.symm.trans queue) absent stop
    exact ⟨own, later, ahead, behind⟩

theorem move_approaching {before after : List Envelope} {t u : Thread} {h es : History}
    (wellformed : t.Wellformed) (approaching : Approaching before after h t) (move : t.Move es u) :
    Approaching before after (es ++ h) u := by
  rcases approaching with terminated | ⟨taken, rest, new, split, queue, fewer⟩
  · exact .inl (terminated_stays wellformed move terminated)
  · cases move with
    | @host _ commands channel moved =>
      right
      have sent := (Channel.hostMove_queue wellformed.tended.isOpen moved).1
      refine ⟨taken, rest, new ++ commands.map (⟨·, .host⟩), split, ?_, ?_⟩
      · rw [Thread.controller_update, sent, queue]
        simp
      · rw [handled_append, (sent_counts commands).1, Thread.isObeying_update, Nat.zero_add]
        exact fewer
    | edit change =>
      right
      refine ⟨taken, rest, new, split, ?_, ?_⟩
      · rw [Thread.controller_update]
        exact queue
      · rw [Thread.isObeying_update]
        exact fewer
    | pass idle passed =>
      obtain ⟨_, rfl, _⟩ := Controller.idle_changes idle passed
      exact .inr ⟨taken, rest, new, split, queue, fewer⟩
    | @observe c files step awake =>
      -- Nothing has been taken for the new instruction yet, which is what `isObeying` makes up for.
      right
      refine ⟨taken, rest, new ++ [pulse], split, ?_, ?_⟩
      · have isOpen : c.channel.isOpen = true := wellformed.tended.isOpen
        have queue : c.channel.queue = _ := queue
        rw [Thread.controller, Controller.approach_channel isOpen]
        simp [queue]
      · rw [handled_append, Nat.add_comm]
        exact Nat.succ_le_succ fewer
    | @dispatch _ c v e last next =>
      rcases next_stop next queue with terminated | ⟨own, later, ahead, behind⟩
      · exact .inl terminated
      · right
        refine ⟨taken ++ own ++ [e], later, new, ?_, ?_, ?_⟩
        · rw [split, ahead]
          simp
        · rw [Thread.channel_thread]
          exact behind
        · rw [handled_append, handled_deeds]
          have one := Bool.toNat_le t.isObeying
          simp only [List.length_append, List.length_singleton]
          omega
    | leaveFrame c => exact .inr ⟨taken, rest, new, split, queue, fewer⟩

theorem run_approaching {before after : List Envelope} {t u : Thread} {h : History}
    (wellformed : t.Wellformed)
    (queue : t.controller.channel.queue = before ++ ⟨.stop, .host⟩ :: after) (run : Run t u h) :
    Approaching before after h u := by
  induction run with
  | start => exact .inr ⟨[], before, [], rfl, by simp [queue], Nat.zero_le _⟩
  | move run move ih => exact move_approaching (run_wellformed run wellformed) ih move

theorem run_stop_queued {t u : Thread} {h : History} (wellformed : t.Wellformed)
    (released : t.controller.terminated = true ∨ ⟨.stop, .host⟩ ∈ t.controller.channel.queue)
    (run : Run t u h) :
    u.controller.terminated = true ∨ ⟨.stop, .host⟩ ∈ u.controller.channel.queue := by
  rcases released with terminated | queued
  · left
    induction run with
    | start => exact terminated
    | move run move ih => exact terminated_stays (run_wellformed run wellformed) move ih
  · obtain ⟨before, after, queue⟩ := List.append_of_mem queued
    rcases run_approaching wellformed queue run with terminated | ⟨_, _, _, _, queue, _⟩
    · exact .inl terminated
    · right
      rw [queue]
      exact List.mem_append_right _ List.mem_cons_self

end SourceStepper
