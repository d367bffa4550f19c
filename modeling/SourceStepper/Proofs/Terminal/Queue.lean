import SourceStepper.Proofs.Terminal.Balance

/-!
The queue of a terminal under calls in any order. What leads on is sent as it has been typed: at
once only at a stop that nothing waits for, and otherwise from the front of the queue, one command
at a stop. Calls that end in `stop` are the only ones that drop what waits.
-/
namespace SourceStepper.Terminal

open Exchange (suspended_waiting)

inductive Call
  | debug (command : Command)
  | suspended
  | close
  | stop
  deriving DecidableEq, Repr

def Call.typed : Call → List Command
  | .debug command => if command.leadsOn then [command] else []
  | _ => []

namespace Steering

def handle (s : Steering) : Call → Steering × Option Command
  | .debug command => s.command command
  | .suspended => s.suspended
  | .close => s.close
  | .stop => s.stop

def givesUp (s : Steering) : Call → Bool
  | .debug _ => false
  | .suspended => s.pending.isEmpty && s.inputClosed
  | .close => s.parked && s.pending.isEmpty
  | .stop => true

end Steering

/-- A call, and the steering that it finds. -/
structure Turn where
  call : Call
  before : Steering
  deriving DecidableEq, Repr

namespace Turn

def after (t : Turn) : Steering := (t.before.handle t.call).1

def sent (t : Turn) : Option Command := (t.before.handle t.call).2

def givesUp (t : Turn) : Bool := t.before.givesUp t.call

def led (t : Turn) : List Command :=
  if t.givesUp then [] else t.sent.toList.filter Command.leadsOn

theorem length_led_le (t : Turn) : t.led.length ≤ 1 := by
  rw [led]
  split
  · exact Nat.zero_le 1
  · apply Nat.le_trans (List.length_filter_le ..)
    cases t.sent <;> simp

def sendsStop (t : Turn) : Bool := t.givesUp && t.sent = some .stop

end Turn

/-- The turns that calls make, one after the other. -/
def turns (s : Steering) : List Call → List Turn
  | [] => []
  | call :: later => ⟨call, s⟩ :: turns (s.handle call).1 later

def settle (s : Steering) : List Call → Steering
  | [] => s
  | call :: later => settle (s.handle call).1 later

/-- A stop that waits for a command has not left any in the queue, and there are only commands in
the queue that lead on. -/
structure Steering.Orderly (s : Steering) : Prop where
  idle : s.parked = true → s.pending = []
  leads : ∀ command ∈ s.pending, command.leadsOn = true

theorem orderly_of_empty {s : Steering} (empty : s.pending = []) : s.Orderly := by
  refine ⟨fun _ => empty, ?_⟩
  rw [empty]
  exact fun _ among => absurd among List.not_mem_nil

theorem orderly_of_going {s : Steering} (going : s.parked = false)
    (leads : ∀ command ∈ s.pending, command.leadsOn = true) : s.Orderly := by
  refine ⟨fun parked => ?_, leads⟩
  rw [going] at parked
  contradiction

section Turn

variable {s : Steering} {call : Call}

/-- A call that is passed on has changed nothing but what the terminal knows of stops and of
its input. -/
theorem handle_eq_stop (gives : s.givesUp call = true) :
    ∃ parked inputClosed, s.handle call = { s with parked, inputClosed }.stop ∧
      (parked = true → s.parked = true ∨ s.pending = []) := by
  cases call with
  | debug command => contradiction
  | suspended =>
    simp only [Steering.givesUp, Bool.and_eq_true, List.isEmpty_iff] at gives
    refine ⟨true, s.inputClosed, ?_, fun _ => .inr gives.1⟩
    rw [Steering.handle, Steering.suspended, gives.1]
    exact if_pos gives.2
  | close => exact ⟨s.parked, true, if_pos gives, .inl⟩
  | stop => exact ⟨s.parked, s.inputClosed, rfl, .inl⟩

theorem handle_of_not_givesUp (orderly : s.Orderly) (goes_on : s.givesUp call = false) :
    (⟨call, s⟩ : Turn).led ++ (s.handle call).1.pending = s.pending ++ call.typed ∧
      (s.handle call).1.stopping = s.stopping ∧ (s.handle call).1.Orderly := by
  have led : (⟨call, s⟩ : Turn).led = (s.handle call).2.toList.filter Command.leadsOn :=
    if_neg (by simp [Turn.givesUp, goes_on])
  rw [led]
  cases call with
  | debug command =>
    simp only [Steering.handle, Steering.command, Call.typed]
    by_cases pause : command = .suspend
    · simp [pause, Command.leadsOn, orderly]
    · have leads : command.leadsOn = true := by simp [Command.leadsOn, pause]
      rw [if_neg pause, if_pos leads]
      by_cases parked : s.parked = true
      · -- nothing waits, so the command is not sent ahead of another one
        have idle := orderly.idle parked
        rw [if_pos parked, Option.toList_some, List.filter_cons_of_pos leads, idle]
        exact ⟨rfl, rfl, orderly_of_empty rfl⟩
      · rw [if_neg parked]
        refine ⟨rfl, rfl, orderly_of_going (Bool.eq_false_iff.mpr parked) fun other among => ?_⟩
        rcases List.mem_append.mp among with waits | last
        · exact orderly.leads other waits
        · rwa [List.mem_singleton.mp last]
  | suspended =>
    simp only [Steering.handle, Call.typed, List.append_nil]
    cases pending : s.pending with
    | nil =>
      simp only [Steering.givesUp, pending, List.isEmpty_nil, Bool.true_and] at goes_on
      simp only [Steering.suspended, pending, goes_on, Bool.false_eq_true, if_false,
        Option.toList_none, List.filter_nil, List.nil_append]
      exact ⟨trivial, trivial, orderly_of_empty rfl⟩
    | cons command later =>
      have leads := orderly.leads
      rw [pending] at leads
      rw [suspended_waiting pending, Option.toList_some,
        List.filter_cons_of_pos (leads command List.mem_cons_self)]
      exact ⟨rfl, rfl, orderly_of_going rfl fun other among =>
        leads other (List.mem_cons_of_mem _ among)⟩
  | close =>
    simp only [Steering.handle, Steering.close, Call.typed, List.append_nil]
    rw [if_neg (by simpa [Steering.givesUp] using goes_on)]
    exact ⟨rfl, rfl, orderly.idle, orderly.leads⟩
  | stop => contradiction

/-- A call that is passed on either changes nothing in the queue or drops it, and asks for the end
of the session unless that has been done before. -/
theorem handle_givesUp (orderly : s.Orderly) (gives : s.givesUp call = true) :
    (⟨call, s⟩ : Turn).led = [] ∧
      ((s.handle call).1.pending = s.pending ∨ (s.handle call).1.pending = []) ∧
      (s.handle call).1.stopping = true ∧ ((s.handle call).2 = some .stop ↔ s.stopping = false) ∧
      (s.handle call).1.Orderly := by
  have led : (⟨call, s⟩ : Turn).led = [] := if_pos gives
  obtain ⟨parked, inputClosed, passed_on, idle⟩ := handle_eq_stop gives
  rw [led, passed_on, Steering.stop]
  by_cases stopping : s.stopping = true
  · rw [if_pos stopping]
    refine ⟨rfl, .inl rfl, stopping, by simp [stopping], fun isParked => ?_, orderly.leads⟩
    exact (idle isParked).elim orderly.idle id
  · rw [if_neg stopping]
    exact ⟨rfl, .inr rfl, rfl, by simpa using stopping, orderly_of_empty rfl⟩

theorem handle_orderly (orderly : s.Orderly) (call : Call) : (s.handle call).1.Orderly := by
  cases gives : s.givesUp call with
  | false => exact (handle_of_not_givesUp orderly gives).2.2
  | true => exact (handle_givesUp orderly gives).2.2.2.2

end Turn

section Turns

variable {s : Steering}

theorem settle_orderly (orderly : s.Orderly) (calls : List Call) : (settle s calls).Orderly := by
  induction calls generalizing s with
  | nil => exact orderly
  | cons call later ih => exact ih (handle_orderly orderly call)

theorem turns_orderly {t : Turn} (orderly : s.Orderly) {calls : List Call}
    (among : t ∈ turns s calls) :
    t.before.Orderly := by
  induction calls generalizing s with
  | nil => contradiction
  | cons call later ih =>
    rcases List.mem_cons.mp among with rfl | behind
    · exact orderly
    · exact ih (handle_orderly orderly call) behind

/-- What has been sent and what waits is what waited first and what has been typed since. -/
theorem turns_in_order (orderly : s.Orderly) {calls : List Call}
    (going : ∀ t ∈ turns s calls, t.givesUp = false) :
    (turns s calls).flatMap Turn.led ++ (settle s calls).pending =
      s.pending ++ calls.flatMap Call.typed := by
  induction calls generalizing s with
  | nil => simp [turns, settle]
  | cons call later ih =>
    obtain ⟨first, behind⟩ := List.forall_mem_cons.mp going
    obtain ⟨kept, -, orderly'⟩ := handle_of_not_givesUp orderly first
    rw [turns, List.flatMap_cons, List.flatMap_cons, settle, List.append_assoc, ih orderly' behind,
      ← List.append_assoc, ← List.append_assoc, kept]

theorem turns_sublist (orderly : s.Orderly) (calls : List Call) :
    ((turns s calls).flatMap Turn.led ++ (settle s calls).pending).Sublist
      (s.pending ++ calls.flatMap Call.typed) := by
  induction calls generalizing s with
  | nil => simp [turns, settle]
  | cons call later ih =>
    -- a call keeps the order, or what waits is lost
    have kept : ((⟨call, s⟩ : Turn).led ++ (s.handle call).1.pending).Sublist
        (s.pending ++ call.typed) := by
      cases gives : s.givesUp call with
      | false => simp [(handle_of_not_givesUp orderly gives).1]
      | true =>
        obtain ⟨silent, waits, -⟩ := handle_givesUp orderly gives
        rw [silent, List.nil_append]
        rcases waits with same | none
        · rw [same]
          exact List.sublist_append_left ..
        · rw [none]
          exact List.nil_sublist _
    rw [turns, List.flatMap_cons, List.flatMap_cons, settle, List.append_assoc,
      ← List.append_assoc s.pending]
    refine ((ih (handle_orderly orderly call)).append_left _).trans ?_
    rw [← List.append_assoc]
    exact kept.append_right _

theorem countP_sendsStop_le (orderly : s.Orderly) (calls : List Call) :
    (turns s calls).countP Turn.sendsStop ≤ (!s.stopping).toNat := by
  induction calls generalizing s with
  | nil => exact Nat.zero_le _
  | cons call later ih =>
    have behind := ih (handle_orderly orderly call)
    rw [turns, List.countP_cons]
    cases gives : s.givesUp call with
    | false =>
      obtain ⟨-, same, -⟩ := handle_of_not_givesUp orderly gives
      rw [same] at behind
      rwa [if_neg (by simp [Turn.sendsStop, Turn.givesUp, gives])]
    | true =>
      obtain ⟨-, -, stopping, sends, -⟩ := handle_givesUp orderly gives
      have sends : (⟨call, s⟩ : Turn).sendsStop = true ↔ s.stopping = false := by
        simp [Turn.sendsStop, Turn.givesUp, Turn.sent, gives, sends]
      -- behind this call, nothing asks for the end any more
      rw [stopping] at behind
      cases before : s.stopping with
      | false =>
        rw [if_pos (sends.mpr before)]
        exact Nat.succ_le_succ behind
      | true =>
        rw [if_neg (by simp [sends, before])]
        exact behind

theorem suspended_takes_first {t : Turn} (orderly : t.before.Orderly)
    (suspended : t.call = .suspended) :
    t.before.pending = t.led ++ t.after.pending ∧ t.led.length ≤ 1 := by
  obtain ⟨call, s⟩ := t
  subst suspended
  refine ⟨?_, Turn.length_led_le _⟩
  cases gives : s.givesUp .suspended with
  | false => exact ((handle_of_not_givesUp orderly gives).1.trans (List.append_nil _)).symm
  | true =>
    obtain ⟨silent, waits, -⟩ := handle_givesUp orderly gives
    simp only [Steering.givesUp, Bool.and_eq_true, List.isEmpty_iff] at gives
    rw [gives.1, or_self] at waits
    rw [silent, Turn.after, gives.1, waits]
    rfl

end Turns

theorem fresh_orderly : ({} : Steering).Orderly := orderly_of_empty rfl

/-- Whatever order the calls come in, a stop that waits for a command has left none in the queue. Up
to the first call that is passed on to `stop`, the commands that have been sent, and behind them
those that wait, are the ones that have been typed; later some of these may be missing. A stop takes
at most one command, the first one that waits, and `stop` sends its own command at most once. -/
theorem commands_stay_in_order (calls : List Call) :
    let made := turns {} calls
    let s := settle {} calls
    (s.parked = true → s.pending = []) ∧
      ((∀ t ∈ made, t.givesUp = false) →
        made.flatMap Turn.led ++ s.pending = calls.flatMap Call.typed) ∧
      (made.flatMap Turn.led ++ s.pending).Sublist (calls.flatMap Call.typed) ∧
      (∀ t ∈ made, t.call = .suspended → t.before.pending = t.led ++ t.after.pending ∧
        t.led.length ≤ 1) ∧
      made.countP Turn.sendsStop ≤ 1 := by
  intro made s
  exact ⟨(settle_orderly fresh_orderly calls).idle, turns_in_order fresh_orderly,
    turns_sublist fresh_orderly calls,
    fun t among => suspended_takes_first (turns_orderly fresh_orderly among),
    countP_sendsStop_le fresh_orderly calls⟩

/-- A pause goes past what waits. One command is left when the input has been closed, and the next
stop takes it, so that only the one behind it ends the session. -/
theorem commands_stay_in_order_ahead :
    let calls : List Call :=
      [.suspended, .debug .stepOver, .debug .resume, .debug .suspend, .debug .stepInto, .suspended,
        .close, .suspended, .suspended, .stop]
    (∀ t ∈ turns {} (calls.take 8), t.givesUp = false) ∧
      (turns {} (calls.take 8)).flatMap Turn.led ++ (settle {} (calls.take 8)).pending =
        (calls.take 8).flatMap Call.typed ∧
      (turns {} calls).map Turn.sent =
        [none, some .stepOver, none, some .suspend, none, some .resume, none, some .stepInto,
          some .stop, none] ∧
      (turns {} calls).countP Turn.sendsStop ≤ 1 := by
  intro calls
  have going : ∀ t ∈ turns {} (calls.take 8), t.givesUp = false := by decide
  exact ⟨going, (commands_stay_in_order (calls.take 8)).2.1 going, by decide,
    (commands_stay_in_order calls).2.2.2.2⟩

end SourceStepper.Terminal
