import SourceStepper.Proofs.Controller.Release
import SourceStepper.Proofs.Terminal.Exchange

/-! The balance between the stops that a terminal is told of and the commands that it sends. Each
stop is answered with one command, but a stop that a `suspend` answers is told of once more, while
the machine waits only once for a command that leads on. -/
namespace SourceStepper.Terminal.Exchange

/-- The commands that can still be taken: none is taken behind a `stop`. -/
def due (x : Exchange) : List Command := inFront .stop x.thread.controller.channel.commands

/-- How many stops the terminal has still to answer, as it sees it. -/
def unanswered (x : Exchange) : Nat := x.steering.parked.toNat + x.inFlight.length

def waiting (x : Exchange) : Nat := if x.steering.stopping then 0 else x.steering.pending.length

/-- What has been typed bounds what is under way: only a pause gives the terminal a stop more than
the controller waits at, and the command that has made the controller leave its first stop is none
of those that are still to come. -/
structure Balanced (x : Exchange) (pauses leads : Nat) : Prop where
  stops : x.due.length + x.unanswered ≤ x.thread.isParked.toNat + pauses
  commands : x.due.countP Command.leadsOn + x.waiting ≤ leads
  first : x.thread.isParked = false → 0 < x.unanswered + x.due.countP Command.leadsOn →
    x.due.countP Command.leadsOn + x.waiting < leads

/-- The end of a session has been asked for, and it has come or will come. -/
def StopDue (x : Exchange) : Prop :=
  x.thread.controller.terminated = true ∨ ⟨.stop, .host⟩ ∈ x.thread.controller.channel.queue

section Steered

variable {x y : Exchange} {steered : Steering × Option Command} (steers : Steered x y steered)

include steers

theorem Steered.due_eq :
    y.due = x.due ∨
      ∃ command, steered.2 = some command ∧ .stop ∉ x.thread.controller.channel.commands ∧
        command ≠ .stop ∧ y.due = x.due ++ [command] := by
  rw [due, steers.commands]
  cases steered.2 with
  | none => exact .inl (by simp [due])
  | some command =>
    rw [Option.toList_some, inFront_append]
    by_cases late : command = .stop ∨ .stop ∈ x.thread.controller.channel.commands
    · exact .inl (if_pos late)
    · rw [if_neg late]
      exact .inr ⟨command, rfl, fun queued => late (.inr queued), fun stop => late (.inl stop), rfl⟩

theorem Steered.due_le : y.due.length ≤ x.due.length + steered.2.toList.length ∧
    y.due.countP Command.leadsOn ≤
      x.due.countP Command.leadsOn + steered.2.toList.countP Command.leadsOn := by
  rcases steers.due_eq with same | ⟨command, sends, _, _, more⟩
  · rw [same]
    exact ⟨Nat.le_add_right _ _, Nat.le_add_right _ _⟩
  · rw [more, sends]
    simp [List.countP_append]

theorem Steered.due_same (late : steered.2 = none ∨ steered.2 = some .stop ∨
    ⟨.stop, .host⟩ ∈ x.thread.controller.channel.queue) : y.due = x.due := by
  rcases steers.due_eq with same | ⟨command, sends, notQueued, notStop, _⟩
  · exact same
  · rcases late with none | stop | queued
    · exact absurd (sends.symm.trans none) nofun
    · exact absurd (Option.some.inj (sends.symm.trans stop)) notStop
    · exact absurd (Channel.mem_commands.mpr queued) notQueued

theorem Steered.stopDue (due : x.StopDue) : y.StopDue := by
  rcases due with terminated | queued
  · exact .inl (steers.terminated.trans terminated)
  · right
    rw [← Channel.mem_commands, steers.commands]
    exact List.mem_append_left _ (Channel.mem_commands.mpr queued)

theorem Steered.stop_queued (sends : steered.2 = some .stop) : y.StopDue := by
  right
  rw [← Channel.mem_commands, steers.commands, sends]
  exact List.mem_append_right _ List.mem_cons_self

end Steered

theorem stop_steering (s : Steering) : s.stop = (s, none) ∨
    s.stop = ({ s with stopping := true, pending := [] }, some .stop) := by
  unfold Steering.stop
  split
  · exact .inl rfl
  · exact .inr rfl

theorem suspended_waiting {s : Steering} {command : Command} {waiting : List Command}
    (pending : s.pending = command :: waiting) :
    s.suspended = ({ s with parked := false, pending := waiting }, some command) := by
  rw [Steering.suspended, pending]

variable {x y : Exchange} {pauses leads : Nat}

theorem Steered.balanced {steered : Steering × Option Command} (steers : Steered x y steered)
    (due : y.due = x.due) (shown : y.unanswered ≤ x.unanswered) (waits : y.waiting ≤ x.waiting)
    (balanced : x.Balanced pauses leads) : y.Balanced pauses leads := by
  obtain ⟨stops, commands, first⟩ := balanced
  have parked := steers.isParked
  refine ⟨by rw [due, parked]; omega, by rw [due]; omega, ?_⟩
  intro running some
  rw [due] at some ⊢
  have before := first (parked ▸ running) (by omega)
  omega

theorem Steered.idle_balanced {s : Steering} {steered : Steering × Option Command}
    (steers : Steered x y steered) (idle : steered = (s, none) ∨ steered = s.stop)
    (shown : s.parked.toNat + y.inFlight.length ≤ x.unanswered)
    (waits : (if s.stopping then 0 else s.pending.length) ≤ x.waiting)
    (balanced : x.Balanced pauses leads) : y.Balanced pauses leads := by
  have steering := steers.steering
  have stop : steered = (s, none) ∨
      steered = ({ s with stopping := true, pending := [] }, some .stop) :=
    idle.elim .inl fun same => same ▸ stop_steering s
  rcases stop with rfl | rfl
  · refine steers.balanced (steers.due_same (.inl rfl)) ?_ ?_ balanced
    · rwa [unanswered, steering]
    · rwa [waiting, steering]
  · refine steers.balanced (steers.due_same (.inr (.inl rfl))) ?_ ?_ balanced
    · rwa [unanswered, steering]
    · rw [waiting, steering]
      exact Nat.zero_le _

/-- A terminal that is told of a stop sends the command that waits for it; without one, this is the
stop that it waits at. -/
theorem told_balanced {v : Visit} (steers : Steered x y x.steering.suspended)
    (first : x.inFlight = v :: y.inFlight)
    (stopping : x.steering.stopping = true →
      ⟨.stop, .host⟩ ∈ x.thread.controller.channel.queue) (balanced : x.Balanced pauses leads) :
    y.Balanced pauses leads := by
  have steering := steers.steering
  have flight : x.inFlight.length = y.inFlight.length + 1 := by rw [first]; rfl
  cases pending : x.steering.pending with
  | nil =>
    have idle : x.steering.suspended = ({ x.steering with parked := true }, none) ∨
        x.steering.suspended = { x.steering with parked := true }.stop := by
      simp only [Steering.suspended, pending]
      split
      · exact .inr rfl
      · exact .inl rfl
    refine steers.idle_balanced idle ?_ ?_ balanced
    · rw [unanswered, flight, Bool.toNat_true]
      omega
    · simp [pending]
  | cons command later =>
    obtain ⟨stops, commands, left⟩ := balanced
    have parked := steers.isParked
    have sends := suspended_waiting pending
    rw [sends] at steering
    have shown : y.unanswered < x.unanswered := by
      rw [unanswered, unanswered, steering, flight, Bool.toNat_false]
      omega
    have waits : y.due.countP Command.leadsOn + y.waiting ≤
        x.due.countP Command.leadsOn + x.waiting := by
      simp only [waiting, steering, pending]
      -- Once the end has been asked for, a command is sent behind the `stop`, where it does not
      -- count.
      by_cases ending : x.steering.stopping = true
      · have due := steers.due_same (.inr (.inr (stopping ending)))
        exact Nat.le_of_eq (by rw [if_pos ending, if_pos ending, due])
      · rw [if_neg ending, if_neg ending]
        have more := steers.due_le.2
        have one : [command].countP Command.leadsOn ≤ 1 := List.countP_le_length
        rw [sends, Option.toList_some] at more
        rw [List.length_cons]
        omega
    have more := steers.due_le.1
    rw [sends, Option.toList_some, List.length_singleton] at more
    refine ⟨by rw [parked]; omega, Nat.le_trans waits commands, ?_⟩
    intro running _
    exact Nat.lt_of_le_of_lt waits (left (parked ▸ running) (by omega))

theorem closed_balanced (steers : Steered x y x.steering.close) (same : y.inFlight = x.inFlight)
    (balanced : x.Balanced pauses leads) : y.Balanced pauses leads := by
  have idle : x.steering.close = ({ x.steering with inputClosed := true }, none) ∨
      x.steering.close = { x.steering with inputClosed := true }.stop := by
    simp only [Steering.close]
    split
    · exact .inr rfl
    · exact .inl rfl
  refine steers.idle_balanced idle ?_ (Nat.le_refl _) balanced
  rw [same]
  exact Nat.le_refl _

theorem pause_balanced (steers : Steered x y (x.steering, some .suspend))
    (same : y.inFlight = x.inFlight) (balanced : x.Balanced pauses leads) :
    y.Balanced (pauses + 1) leads := by
  obtain ⟨stops, commands, first⟩ := balanced
  obtain ⟨more, leading⟩ := steers.due_le
  have parked := steers.isParked
  have shown : y.unanswered = x.unanswered := by rw [unanswered, unanswered, steers.steering, same]
  have waits : y.waiting = x.waiting := by rw [waiting, waiting, steers.steering]
  rw [Option.toList_some, List.length_singleton] at more
  have leading : y.due.countP Command.leadsOn ≤ x.due.countP Command.leadsOn := leading
  refine ⟨by rw [parked, shown]; omega, by rw [waits]; omega, ?_⟩
  intro running some
  have before := first (parked ▸ running) (by omega)
  omega

theorem lead_balanced {command : Command} (leading : command ≠ .suspend)
    (steers : Steered x y (x.steering.command command)) (same : y.inFlight = x.inFlight)
    (balanced : x.Balanced pauses leads) : y.Balanced pauses (leads + 1) := by
  obtain ⟨stops, commands, first⟩ := balanced
  have parked := steers.isParked
  have steering := steers.steering
  simp only [Steering.command, if_neg leading] at steers steering
  by_cases shown : x.steering.parked = true
  · rw [if_pos shown] at steers steering
    obtain ⟨more, moreLeads⟩ := steers.due_le
    have one : [command].countP Command.leadsOn ≤ 1 := List.countP_le_length
    have before : x.unanswered = y.unanswered + 1 := by
      rw [unanswered, unanswered, steering, same, shown, Bool.toNat_true, Bool.toNat_false]
      omega
    have waits : y.waiting = x.waiting := by rw [waiting, waiting, steering]
    rw [Option.toList_some] at more moreLeads
    rw [List.length_singleton] at more
    refine ⟨by rw [parked]; omega, by omega, ?_⟩
    intro running _
    have before := first (parked ▸ running) (by omega)
    omega
  · rw [if_neg shown] at steers steering
    have due := steers.due_same (.inl rfl)
    have same : y.unanswered = x.unanswered := by rw [unanswered, unanswered, steering, same]
    have waits : y.waiting ≤ x.waiting + 1 := by
      rw [waiting, waiting, steering]
      split
      · exact Nat.zero_le _
      · rw [List.length_append]
        exact Nat.le_refl _
    refine ⟨by rw [parked, due, same]; omega, by rw [due]; omega, ?_⟩
    intro running some
    rw [due] at some ⊢
    have before := first (parked ▸ running) (by omega)
    omega

theorem ended_balanced {command : Command} (steers : Steered x y (x.steering.command command))
    (same : y.inFlight = x.inFlight) (ending : x.steering.stopping = true)
    (queued : ⟨.stop, .host⟩ ∈ x.thread.controller.channel.queue)
    (balanced : x.Balanced pauses leads) : y.Balanced pauses leads := by
  have due := steers.due_same (.inr (.inr queued))
  have steering := steers.steering
  have keeps : (x.steering.command command).1.stopping = x.steering.stopping ∧
      (x.steering.command command).1.parked.toNat ≤ x.steering.parked.toNat := by
    unfold Steering.command
    split
    · exact ⟨rfl, Nat.le_refl _⟩
    · split
      · exact ⟨rfl, Nat.zero_le _⟩
      · exact ⟨rfl, Nat.le_refl _⟩
  refine steers.balanced due ?_ ?_ balanced
  · rw [unanswered, unanswered, steering, same]
    exact Nat.add_le_add_right keeps.2 _
  · rw [waiting, steering, keeps.1, if_pos ending]
    exact Nat.zero_le _

theorem typed_balanced {lines : List String} {line : String}
    (steers : Steered x y (x.steering.heed (asked? line))) (same : y.inFlight = x.inFlight)
    (quit : .quit ∈ lines.filterMap asked? → x.steering.stopping = true)
    (stopping : x.steering.stopping = true →
      ⟨.stop, .host⟩ ∈ x.thread.controller.channel.queue)
    (balanced : x.Balanced (pauseCount lines) (leadCount lines)) :
    y.Balanced (pauseCount (lines ++ [line])) (leadCount (lines ++ [line])) := by
  have idle (steered : x.steering.heed (asked? line) = (x.steering, none) ∨
      x.steering.heed (asked? line) = x.steering.stop) :
      y.Balanced (pauseCount lines) (leadCount lines) := by
    refine steers.idle_balanced steered ?_ (Nat.le_refl _) balanced
    rw [same]
    exact Nat.le_refl _
  cases asked : asked? line with
  | none =>
    rw [(counts_silent (by simp [asked])).1, (counts_silent (by simp [asked])).2]
    exact idle (.inl (by rw [asked]; rfl))
  | some input =>
    cases input with
    | quit =>
      rw [(counts_silent (by simp [asked])).1, (counts_silent (by simp [asked])).2]
      exact idle (.inr (by rw [asked]; rfl))
    | debug command =>
      rw [asked] at steers
      by_cases ended : .quit ∈ lines.filterMap asked?
      · rw [(counts_silent fun _ _ => .inr (.inl ended)).1,
          (counts_silent fun _ _ => .inr (.inl ended)).2]
        exact ended_balanced steers same (quit ended) (stopping (quit ended)) balanced
      · rw [(counts_debug asked ended).1, (counts_debug asked ended).2]
        by_cases pause : command = .suspend
        · subst pause
          exact pause_balanced steers same balanced
        · rw [if_neg pause, if_neg pause]
          exact lead_balanced pause steers same balanced
    | _ =>
      rw [(counts_silent (by simp [asked, Input.leadsOn])).1,
        (counts_silent (by simp [asked, Input.leadsOn])).2]
      exact idle (.inl (by rw [asked]; rfl))

theorem stops_deeds (c : Controller) (v : Visit) (e : Envelope) (last : Bool) :
    (stopsIn (c.deeds v e)).length = ((c.obey v e.command).thread v last).isParked.toNat := by
  rw [stopsIn, stops_of_deeds]
  cases c.obey v e.command with
  | handled d => cases last <;> rfl
  | stops d => rfl
  | ends d => rfl

/-- What a dispatch does to the commands: the pulse leaves them as they are, and otherwise the
oldest one is taken. -/
theorem dispatch_due {t : Thread} {c : Controller} {v : Visit} {e : Envelope} {last : Bool}
    (next : t.Next c v e last)
    (live : ((c.obey v e.command).thread v last).controller.terminated = false) :
    (((c.obey v e.command).thread v last).controller.channel.commands =
        t.controller.channel.commands ∧ t.isParked = false) ∨
      ∃ command, command ≠ .stop ∧ t.controller.channel.commands =
          command :: ((c.obey v e.command).thread v last).controller.channel.commands ∧
        (command = .suspend → ((c.obey v e.command).thread v last).isParked = true) := by
  have commands := Thread.next_commands next
  have channel := Thread.channel_thread c v e.command last
  rw [channel]
  cases host : e.isHost with
  | true =>
    refine .inr ⟨e.command, ?_, by simpa [host] using commands, ?_⟩
    · intro stop
      rw [stop] at live
      contradiction
    · intro suspend
      rw [suspend]
      rfl
  | false =>
    refine .inl ⟨by simpa [host] using commands.symm, ?_⟩
    cases next with
    | take taken => rfl
    | answer taken => simp [Envelope.isHost] at host

/-- What a move of the controller does to the commands and the stops: nothing, or a stop of its own,
or else the oldest command is taken. -/
theorem machine_due {t u : Thread} {es : History} (isOpen : t.controller.channel.isOpen = true)
    (move : t.Move es u) (alone : sentCommands es = [])
    (live : u.controller.terminated = false) :
    (u.controller.channel.commands = t.controller.channel.commands ∧
      (stopsIn es).length + t.isParked.toNat = u.isParked.toNat) ∨
    ∃ command, command ≠ .stop ∧
      t.controller.channel.commands = command :: u.controller.channel.commands ∧
      (stopsIn es).length = u.isParked.toNat ∧ (command = .suspend → u.isParked = true) := by
  cases move with
  | @host _ commands channel moved =>
    cases (sent_map commands).symm.trans alone
    rw [Thread.controller_update, isParked_update]
    have same := Channel.hostMove_commands isOpen moved
    exact .inl ⟨same.trans (List.append_nil _), Nat.zero_add _⟩
  | edit change =>
    rw [Thread.controller_update, isParked_update]
    exact .inl ⟨rfl, Nat.zero_add _⟩
  | pass idle passed =>
    obtain ⟨_, rfl, _⟩ := Controller.idle_changes idle passed
    exact .inl ⟨rfl, rfl⟩
  | observe files step awake =>
    refine .inl ⟨?_, rfl⟩
    rw [Thread.controller, Controller.approach_changes]
    exact Channel.commands_push _ _
  | @dispatch _ c v e last next =>
    have stops := stops_deeds c v e last
    rcases dispatch_due next live with ⟨same, running⟩ | ⟨command, goes_on, taken, suspends⟩
    · exact .inl ⟨same, by rw [running, stops]; rfl⟩
    · exact .inr ⟨command, goes_on, taken, stops, suspends⟩
  | leaveFrame c => exact .inl ⟨rfl, rfl⟩

theorem machine_balanced {es : History} (isOpen : x.thread.controller.channel.isOpen = true)
    (move : x.thread.Move es y.thread) (alone : sentCommands es = [])
    (live : y.thread.controller.terminated = false) (dialogue : y.dialogue = x.dialogue)
    (flight : y.inFlight = x.inFlight ++ stopsIn es) (balanced : x.Balanced pauses leads) :
    y.Balanced pauses leads := by
  obtain ⟨stops, commands, first⟩ := balanced
  have shown : y.unanswered = x.unanswered + (stopsIn es).length := by
    rw [unanswered, unanswered, steering, dialogue, flight, List.length_append]
    exact (Nat.add_assoc _ _ _).symm
  have waits : y.waiting = x.waiting := by rw [waiting, waiting, steering, dialogue, steering]
  have atMost : x.thread.isParked.toNat ≤ 1 := Bool.toNat_le _
  rcases machine_due isOpen move alone live with ⟨same, told⟩ |
    ⟨command, going, taken, told, suspends⟩
  · have due : y.due = x.due := by rw [Exchange.due, Exchange.due, same]
    refine ⟨by rw [due]; omega, by rw [due, waits]; exact commands, ?_⟩
    intro running some
    rw [running, Bool.toNat_false] at told
    have before : x.thread.isParked = false := by
      rw [← Bool.toNat_eq_zero]
      omega
    rw [due] at some ⊢
    rw [waits]
    exact first before (by omega)
  · -- What is taken makes room for the stop that it leads to.
    have due : x.due = command :: y.due := by
      simp [Exchange.due, inFront, taken, going]
    rw [due, List.length_cons] at stops
    rw [due, List.countP_cons] at commands
    refine ⟨by omega, by rw [waits]; omega, ?_⟩
    intro running _
    have leading : command.leadsOn = true := by
      refine decide_eq_true fun suspend => ?_
      rw [suspends suspend] at running
      contradiction
    rw [if_pos leading] at commands
    rw [waits]
    omega

structure Lasts (s : Steering) (steered : Steering × Option Command) : Prop where
  stays : s.stopping = true → steered.1.stopping = true
  sends : steered.1.stopping = true → s.stopping = true ∨ steered.2 = some .stop

theorem stop_lasts {r s : Steering} (same : r.stopping = s.stopping) : Lasts s r.stop := by
  rcases stop_steering r with once | stops
  · rw [once]
    exact ⟨same.trans, fun stopping => .inl (same.symm.trans stopping)⟩
  · rw [stops]
    exact ⟨fun _ => rfl, fun _ => .inr rfl⟩

theorem stop_stopping (s : Steering) : s.stop.1.stopping = true := by
  unfold Steering.stop
  split
  · assumption
  · rfl

theorem suspended_lasts (s : Steering) : Lasts s s.suspended := by
  unfold Steering.suspended
  split
  · exact ⟨id, .inl⟩
  · dsimp only
    split
    · exact stop_lasts rfl
    · exact ⟨id, .inl⟩

theorem close_lasts (s : Steering) : Lasts s s.close := by
  simp only [Steering.close]
  split
  · exact stop_lasts rfl
  · exact ⟨id, .inl⟩

theorem heed_lasts (s : Steering) (asked : Option Input) : Lasts s (s.heed asked) := by
  unfold Steering.heed
  split
  · exact stop_lasts rfl
  · unfold Steering.command
    split
    · exact ⟨id, .inl⟩
    · split <;> exact ⟨id, .inl⟩
  · exact ⟨id, .inl⟩

/-- What holds of an exchange and the lines that have been typed in it. -/
structure Tracked (x : Exchange) (lines : List String) : Prop where
  wellformed : x.thread.Wellformed
  quit : .quit ∈ lines.filterMap asked? → x.steering.stopping = true
  stopping : x.steering.stopping = true → x.StopDue
  balanced : x.thread.controller.terminated = false →
    x.Balanced (pauseCount lines) (leadCount lines)

theorem Tracked.stop_queued {lines : List String} (tracked : x.Tracked lines)
    (live : x.thread.controller.terminated = false) (stopping : x.steering.stopping = true) :
    ⟨.stop, .host⟩ ∈ x.thread.controller.channel.queue :=
  (tracked.stopping stopping).resolve_left (by simp [live])

theorem Steered.stopping {steered : Steering × Option Command} (steers : Steered x y steered)
    (lasts : Lasts x.steering steered) (due : x.steering.stopping = true → x.StopDue)
    (stopping : y.steering.stopping = true) : y.StopDue := by
  rw [steers.steering] at stopping
  rcases lasts.sends stopping with before | sends
  · exact steers.stopDue (due before)
  · exact steers.stop_queued sends

theorem machine_stopDue {es : History} (wellformed : x.thread.Wellformed)
    (move : x.thread.Move es y.thread) (due : x.StopDue) : y.StopDue :=
  run_stop_queued wellformed due (SourceStepper.Run.start.move move)

theorem fresh_tracked (loader : Loader) (registry : Registry) (maxFrames : Nat) :
    (fresh loader registry maxFrames).Tracked [] := by
  refine ⟨fresh_wellformed loader registry maxFrames, nofun, nofun, fun _ => ⟨?_, ?_, ?_⟩⟩
  · exact Nat.le_refl 0
  · exact Nat.le_refl 0
  · intro _ some
    exact absurd some (Nat.lt_irrefl 0)

theorem move_tracked {lines typed : List String} (tracked : x.Tracked lines)
    (move : x.Move typed y) : y.Tracked (lines ++ typed) := by
  have isOpen := tracked.wellformed.tended.isOpen
  have wellformed := move_keeps_wellformed tracked.wellformed move
  cases move with
  | machine move alone =>
    rw [List.append_nil]
    refine ⟨wellformed, tracked.quit, fun stopping =>
      machine_stopDue tracked.wellformed move (tracked.stopping stopping), fun live => ?_⟩
    refine machine_balanced isOpen move alone live rfl rfl (tracked.balanced ?_)
    cases ended : x.thread.controller.terminated with
    | false => rfl
    | true => exact (terminated_stays tracked.wellformed move ended).symm.trans live
  | @told v later files first =>
    have steers := told_steered isOpen files v later
    have lasts := suspended_lasts x.steering
    rw [List.append_nil]
    refine ⟨wellformed, fun quit => ?_, steers.stopping lasts tracked.stopping, fun live => ?_⟩
    · rw [steers.steering]
      exact lasts.stays (tracked.quit quit)
    · have live := steers.terminated.symm.trans live
      exact told_balanced steers first (tracked.stop_queued live) (tracked.balanced live)
  | typed line _ =>
    have steers := typed_steered isOpen line
    have lasts := heed_lasts x.steering (asked? line)
    refine ⟨wellformed, fun quit => ?_, steers.stopping lasts tracked.stopping, fun live => ?_⟩
    · rw [steers.steering]
      rw [List.filterMap_append] at quit
      rcases List.mem_append.mp quit with before | now
      · exact lasts.stays (tracked.quit before)
      · have asked : asked? line = some .quit := by simpa using now
        rw [asked]
        exact stop_stopping _
    · have live := steers.terminated.symm.trans live
      exact typed_balanced steers rfl tracked.quit (tracked.stop_queued live)
        (tracked.balanced live)
  | closed _ =>
    have steers := closed_steered isOpen
    have lasts := close_lasts x.steering
    rw [List.append_nil]
    refine ⟨wellformed, fun quit => ?_, steers.stopping lasts tracked.stopping, fun live => ?_⟩
    · rw [steers.steering]
      exact lasts.stays (tracked.quit quit)
    · have live := steers.terminated.symm.trans live
      exact closed_balanced steers rfl (tracked.balanced live)

theorem run_tracked {loader : Loader} {registry : Registry} {maxFrames : Nat} {lines : List String}
    (run : Run (fresh loader registry maxFrames) x lines) : x.Tracked lines := by
  induction run with
  | start => exact fresh_tracked loader registry maxFrames
  | move _ move ih => exact move_tracked ih move

end SourceStepper.Terminal.Exchange
