import SourceStepper.Proofs.Controller.Breakpoints
import SourceStepper.Proofs.Terminal.Balance

namespace SourceStepper

/-- A controller that stands at an instruction which is not a call. Nothing but commands of a host
is queued. -/
structure Parked.Stands (p : Parked) (queue : List Command) : Prop where
  isOpen : p.controller.channel.isOpen = true
  queue : p.controller.channel.queue = queue.map (⟨·, .host⟩)
  live : p.controller.terminated = false
  inactive : p.controller.jump.isActive = false
  plain : p.visit.location.isCallJump p.visit.step = false

theorem Parked.Stands.first {p : Parked} {command : Command} {later : List Command}
    (stands : p.Stands (command :: later)) :
    ∃ channel, p.controller.channel.takeFromHost? = some (command, channel) ∧
      channel.queue = later.map (⟨·, .host⟩) ∧ channel.isOpen = true :=
  ⟨_, Channel.takeFromHost?_head stands.queue, rfl, stands.isOpen⟩

/-- Away from a call, a command that leads on gets the machine going, and the next instruction is
looked at. -/
theorem plain_command_handled {c : Controller} {v : Visit} {command : Command}
    (awake : c.isIdle = false) (plain : v.location.isCallJump v.step = false)
    (leads : command ∉ [.execute, .suspend, .stop]) :
    ∃ d, c.obey v command = .handled d ∧ d.isIdle = false ∧ d.channel = c.channel := by
  cases command with
  | execute => simp at leads
  | suspend => simp at leads
  | stop => simp at leads
  | stepInto => exact ⟨_, rfl, awake, rfl⟩
  | resume => exact ⟨_, rfl, awake, rfl⟩
  | stepOver =>
    refine ⟨_, rfl, ?_⟩
    rw [Controller.armOrSkip, if_neg (by simp [plain])]
    exact ⟨awake, rfl⟩
  | stepOut =>
    refine ⟨_, rfl, ?_⟩
    rw [Controller.armOrSkip, if_neg (by simp [plain])]
    exact ⟨awake, rfl⟩

namespace Terminal

namespace Exchange

variable {x y : Exchange}

/-- The next command that is taken has been sent by the terminal, and is taken while the
machine runs. -/
def TakesRunning (x : Exchange) (command : Command) : Prop :=
  ∃ c v channel, x.thread = .obeying c v ∧ c.channel.take? = some (⟨command, .host⟩, channel)

/-- A command that leads on and is taken while the machine runs comes behind another one and behind
a pause. -/
theorem taken_running {lines : List String} {command : Command} (tracked : x.Tracked lines)
    (takes : x.TakesRunning command) (other : command ≠ .suspend) (going : command ≠ .stop) :
    0 < pauseCount lines ∧ 1 < leadCount lines := by
  obtain ⟨c, v, channel, obeying, taken⟩ := takes
  have live : x.thread.controller.terminated = false :=
    tracked.wellformed.live (by rw [obeying]; rfl)
  have running : x.thread.isParked = false := by rw [obeying]; rfl
  have commands : x.thread.controller.channel.commands = command :: channel.commands := by
    rw [obeying]
    exact Channel.commands_take? taken
  have due : x.due = command :: inFront .stop channel.commands := by
    simp [Exchange.due, inFront, commands, going]
  have leads : 0 < x.due.countP Command.leadsOn := by
    rw [due]
    exact List.countP_pos_iff.mpr ⟨command, List.mem_cons_self, decide_eq_true other⟩
  obtain ⟨stops, _, first⟩ := tracked.balanced live
  have first := first running (by omega)
  rw [running, Bool.toNat_false, due, List.length_cons] at stops
  exact ⟨by omega, by omega⟩

theorem heed_ahead {s : Steering} (ahead : s.parked = false) {line : String}
    (goes : asked? line ≠ some .quit) :
    s.heed (asked? line) = ({ s with pending := s.pending ++ (lead? line).toList },
      pause? line) := by
  unfold lead? pause?
  cases asked : asked? line with
  | none => simp [Steering.heed]
  | some input =>
    cases input with
    | debug command =>
      by_cases pause : command = .suspend
      · simp [Steering.heed, Steering.command, pause]
      · simp [Steering.heed, Steering.command, pause, ahead]
    | quit => exact absurd asked goes
    | _ => simp [Steering.heed]

theorem Steered.stands {p : Parked} {queue : List Command} {steered : Steering × Option Command}
    (steers : Steered x y steered) (parked : x.thread = .parked p) (stands : p.Stands queue) :
    ∃ q, y.thread = .parked q ∧ q.visit = p.visit ∧ q.Stands (queue ++ steered.2.toList) := by
  obtain ⟨channel, registry, thread, queued, isOpen⟩ := steers.thread
  rw [parked] at thread queued
  refine ⟨_, thread, rfl, isOpen, ?_, stands.live, stands.inactive, stands.plain⟩
  rw [List.map_append, ← stands.queue]
  exact queued

theorem types_ahead {lines : List String} {p : Parked} {queue : List Command}
    (parked : x.thread = .parked p) (stands : p.Stands queue) (ahead : x.steering.parked = false)
    (isOpen : x.steering.inputClosed = false) (goes : ∀ line ∈ lines, asked? line ≠ some .quit) :
    ∃ y q, Run x y lines ∧ y.thread = .parked q ∧ q.Stands (queue ++ lines.filterMap pause?) ∧
      y.steering.pending = x.steering.pending ++ lines.filterMap lead? ∧
      y.inFlight = x.inFlight := by
  induction lines generalizing x p queue with
  | nil => exact ⟨x, p, .start, parked, by simpa using stands, by simp, rfl⟩
  | cons line lines ih =>
    obtain ⟨here, behind⟩ := List.forall_mem_cons.mp goes
    have first := Run.start.move (.typed line isOpen)
    have steers := typed_steered (x := x) (by rw [parked]; exact stands.isOpen) line
    rw [heed_ahead ahead here] at steers
    obtain ⟨q, parked, _, stands⟩ := steers.stands parked stands
    have steering := steers.steering
    obtain ⟨y, r, later, parked, stands, pending, flight⟩ := ih parked stands
      (by rw [steering]; exact ahead) (by rw [steering]; exact isOpen) behind
    refine ⟨y, r, first.append later, parked, ?_, ?_, flight⟩
    · rw [List.filterMap_cons]
      cases pause : pause? line <;> simpa [pause] using stands
    · rw [pending, steering, List.filterMap_cons]
      cases lead? line <;> simp

section Moves

variable {t : Thread} {c d : Controller} {v : Visit} {e : Envelope} {last : Bool}

theorem handled_move (thread : x.thread = t) (next : t.Next c v e last)
    (handled : c.obey v e.command = .handled d) :
    Move x [] { x with thread := if last then .running d.leave else .obeying d v } := by
  have move : x.thread.Move (c.deeds v e) _ := .dispatch (thread ▸ next)
  have none := stops_deeds c v e last
  rw [handled] at move none
  have quiet : stopsIn (c.deeds v e) = [] := by
    rw [← List.length_eq_zero_iff, none]
    cases last <;> rfl
  have moved := Move.machine move (sent_deeds c v e)
  rwa [quiet, List.append_nil] at moved

theorem stops_move (thread : x.thread = t) (next : t.Next c v e last)
    (stops : c.obey v e.command = .stops d) :
    Move x [] { x with thread := .parked (d.park v), inFlight := x.inFlight ++ [v] } := by
  have move : x.thread.Move (c.deeds v e) _ := .dispatch (thread ▸ next)
  have told : stopsIn (c.deeds v e) = [v] := by
    simp only [stopsIn, Controller.deeds, stops]
    cases c.startedSkip? v e.command <;> rfl
  have moved := Move.machine move (sent_deeds c v e)
  rwa [told, stops] at moved

theorem observe_move (files : FileTree) (step : Step) (thread : x.thread = .running c)
    (awake : c.isIdle = false) :
    Move x [] { x with
      thread := .obeying (c.approach files step).1 (c.approach files step).2 } := by
  have move : x.thread.Move _ _ := thread ▸ Thread.Move.observe files step awake
  have moved := Move.machine move rfl
  rwa [show stopsIn [.observed (c.approach files step).2] = [] from rfl, List.append_nil] at moved

end Moves

theorem told_move {v : Visit} {later : List Visit}
    (isOpen : x.thread.controller.channel.isOpen = true) (first : x.inFlight = v :: later) :
    ∃ y, Run x y [] ∧ Steered x y x.steering.suspended ∧ y.inFlight = later :=
  ⟨_, Run.start.move (.told {} first), told_steered isOpen {} v later, rfl⟩

theorem pauses_answered {queue : List Command} {p : Parked} (parked : x.thread = .parked p)
    (stands : p.Stands queue) (pauses : ∀ command ∈ queue, command = .suspend) :
    ∃ y q stops, Run x y [] ∧ y.thread = .parked q ∧ q.Stands [] ∧ y.steering = x.steering ∧
      y.inFlight = x.inFlight ++ stops ∧ stops.length = queue.length := by
  induction queue generalizing x p with
  | nil => exact ⟨x, p, [], .start, parked, stands, rfl, (List.append_nil _).symm, rfl⟩
  | cons command queue ih =>
    obtain ⟨rfl, others⟩ := List.forall_mem_cons.mp pauses
    obtain ⟨channel, taken, queued, isOpen⟩ := stands.first
    have answered := Run.start.move (stops_move parked (.answer taken) rfl)
    have again : (({ p.controller with channel, phase := .awaitingCommand } : Controller).park
        p.visit).Stands queue :=
      ⟨isOpen, queued, stands.live, stands.inactive, stands.plain⟩
    obtain ⟨y, q, stops, later, parked, still, steering, flight, length⟩ :=
      ih (x := ⟨x.dialogue, .parked _, x.inFlight ++ [p.visit]⟩) rfl again others
    refine ⟨y, q, p.visit :: stops, answered.append later, parked, still, steering, ?_, ?_⟩
    · rw [flight, List.append_assoc]
      rfl
    · rw [List.length_cons, List.length_cons, length]

/-- A command that has been waiting for the first stop gets the machine going when the terminal is
told of it. -/
theorem waiting_command_answers {p : Parked} {v : Visit} {later : List Visit} {command : Command}
    {waiting : List Command} (parked : x.thread = .parked p) (stands : p.Stands [])
    (first : x.inFlight = v :: later) (pending : x.steering.pending = command :: waiting)
    (leads : command ∉ [.execute, .suspend, .stop]) :
    ∃ y d, Run x y [] ∧ y.thread = .running d ∧ d.isIdle = false ∧ d.channel.queue = [] ∧
      d.channel.isOpen = true ∧ y.inFlight = later ∧ y.steering.pending = waiting := by
  obtain ⟨y, told, steers, flight⟩ := told_move (by rw [parked]; exact stands.isOpen) first
  rw [suspended_waiting pending] at steers
  obtain ⟨q, parked, _, stands⟩ := steers.stands parked stands
  obtain ⟨channel, taken, queued, isOpen⟩ := stands.first
  obtain ⟨d, handled, awake, same⟩ := plain_command_handled
    (c := { q.controller with channel, phase := .awaitingCommand })
    (Controller.isIdle_eq_false.mpr ⟨stands.live, stands.inactive⟩) stands.plain leads
  have answered := told.move (handled_move parked (.answer taken) handled)
  refine ⟨_, d.leave, answered, rfl, awake, ?_, ?_, flight, ?_⟩
  · rw [Controller.leave, same]
    exact queued
  · rw [Controller.leave, same]
    exact isOpen
  · exact congrArg Steering.pending steers.steering

theorem waiting_command_overtakes {c : Controller} {v : Visit} {later : List Visit}
    {command : Command} {waiting : List Command} (running : x.thread = .running c)
    (awake : c.isIdle = false) (empty : c.channel.queue = []) (isOpen : c.channel.isOpen = true)
    (first : x.inFlight = v :: later) (pending : x.steering.pending = command :: waiting) :
    ∃ y, Run x y [] ∧ y.TakesRunning command := by
  obtain ⟨y, told, steers, _⟩ := told_move (by rw [running]; exact isOpen) first
  rw [suspended_waiting pending] at steers
  obtain ⟨channel, registry, thread, queue, isOpen⟩ := steers.thread
  rw [running] at thread queue
  have queue : channel.queue = [⟨command, .host⟩] := by
    rw [queue, Thread.controller, empty]
    rfl
  have observed := told.move (observe_move {} { pc := 0, opcode := 0x01 } thread awake)
  have approached := Controller.approach_channel (c := { c with channel, registry }) isOpen {}
    { pc := 0, opcode := 0x01 }
  refine ⟨_, observed, _, _, { channel with queue := [pulse] }, rfl, ?_⟩
  rw [approached]
  simp [Channel.take?, queue]

def atFirstLine : Exchange :=
  fresh .twoLines (Registry.add ⟨default, .empty, .empty⟩ "A.sol" 1).2 1

theorem first_line_stops : ∃ x p, Run atFirstLine x [] ∧ x.thread = .parked p ∧ p.Stands [] ∧
    x.steering = {} ∧ x.inFlight.length = 1 := by
  have observed := Run.start.move (observe_move (x := atFirstLine) {}
    { pc := 0, opcode := 0x5b, code := some ⟨"5b56"⟩ } rfl rfl)
  have stopped := observed.move (stops_move rfl (.take rfl)
    (Controller.obey_eq_stops.mpr (.inr ⟨rfl, by decide +kernel, rfl⟩)))
  exact ⟨_, _, stopped, rfl, ⟨rfl, rfl, rfl, rfl, rfl⟩, rfl, rfl⟩

theorem second_command_overtakes {lines : List String} {first second : Command}
    {waiting : List Command} (goes : ∀ line ∈ lines, asked? line ≠ some .quit)
    (pauses : lines.filterMap pause? ≠ [])
    (leads : lines.filterMap lead? = first :: second :: waiting) :
    ∃ x, Run atFirstLine x lines ∧ x.TakesRunning second := by
  obtain ⟨x, p, stopped, parked, stands, steering, one⟩ := first_line_stops
  obtain ⟨y, q, typed, parked, stands, pending, same⟩ := types_ahead parked stands
    (by rw [steering]) (by rw [steering]) goes
  rw [List.nil_append] at stands
  obtain ⟨z, r, stops, again, parked, stands, still, flight, length⟩ :=
    pauses_answered parked stands pauses_suspend
  have more : 1 < z.inFlight.length := by
    have some := List.length_pos_iff.mpr pauses
    rw [flight, same, List.length_append, one, length]
    omega
  obtain ⟨v, w, later, inFlight⟩ : ∃ v w later, z.inFlight = v :: w :: later := by
    match z.inFlight, more with
    | v :: w :: later, _ => exact ⟨v, w, later, rfl⟩
  rw [← still, steering, leads] at pending
  obtain ⟨y, d, answered, running, awake, empty, isOpen, flight, pending⟩ :=
    waiting_command_answers parked stands inFlight pending
      (notMem_of_mem_leads first (by rw [leads]; exact List.mem_cons_self))
  obtain ⟨x, told, takes⟩ :=
    waiting_command_overtakes running awake empty isOpen flight pending
  have run := (((stopped.append typed).append again).append answered).append told
  exact ⟨x, by simpa using run, takes⟩

/-- Whatever has been typed of some lines, and however far terminal and controller have come: no
command but a pause and the end of the session is taken while the machine runs. -/
def Paired (lines : List String) : Prop :=
  ∀ loader registry maxFrames x typed, Run (fresh loader registry maxFrames) x typed →
    typed <+: lines → ∀ command, x.TakesRunning command → command = .suspend ∨ command = .stop

theorem few_paired {lines : List String} (few : pauseCount lines = 0 ∨ leadCount lines ≤ 1) :
    Paired lines := by
  intro loader registry maxFrames x typed run behind command takes
  apply Classical.byContradiction
  intro other
  rw [not_or] at other
  obtain ⟨pauses, leads⟩ := taken_running (run_tracked run) takes other.1 other.2
  have counts := (requests_behind behind).sublist
  have fewPauses : pauseCount typed ≤ pauseCount lines := counts.count_le _
  have fewLeads : leadCount typed ≤ leadCount lines := counts.countP_le
  omega

theorem paired_few {lines : List String} (paired : Paired lines) (pauses : 0 < pauseCount lines) :
    leadCount lines ≤ 1 := by
  rw [← pauseCount_beforeQuit, List.length_pos_iff] at pauses
  rw [← leadCount_beforeQuit]
  cases leads : (beforeQuit lines).filterMap lead? with
  | nil => exact Nat.zero_le 1
  | cons first others =>
    cases others with
    | nil => exact Nat.le_refl 1
    | cons second waiting =>
      obtain ⟨x, run, takes⟩ := second_command_overtakes (beforeQuit_goes lines) pauses leads
      have leading :=
        notMem_of_mem_leads second (leads ▸ List.mem_cons_of_mem first List.mem_cons_self)
      rcases paired _ _ _ x _ run (List.takeWhile_prefix _) second takes with rfl | rfl
      · simp at leading
      · simp at leading

/-- Whatever the machine executes and whenever messages arrive, every command that leads on answers
a stop, exactly for lines with no pause or at most one such command in front of the first line that
ends the session. -/
theorem commands_answer_stops_iff (lines : List String) :
    Paired lines ↔ pauseCount lines = 0 ∨ leadCount lines ≤ 1 := by
  constructor
  · intro paired
    rcases Nat.eq_zero_or_pos (pauseCount lines) with none | pauses
    · exact .inl none
    · exact .inr (paired_few paired pauses)
  · exact few_paired

theorem piped_commands_answer_stops : Paired ["b A.sol:2", "c", "s", "n", "c", "q"] :=
  (commands_answer_stops_iff _).mpr (.inl (by decide +kernel))

/-- The pause answers the stop at the breakpoint, and the `resume` is sent for a stop that the
`stepInto` has answered. -/
theorem resume_taken_while_running :
    ∃ x, Run atFirstLine x ["p", "s", "c"] ∧ x.TakesRunning .resume :=
  second_command_overtakes (by decide +kernel) (by decide +kernel)
    (show _ = [Command.stepInto, .resume] by decide +kernel)

end Exchange

end Terminal

end SourceStepper
