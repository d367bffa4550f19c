import SourceStepper.Proofs.Controller.Answers

/-! When a queued `suspend` or `stop` acts at the next instruction. A pulse that an earlier stop has
left in the queue is taken first, and takes the place of the instruction's own. -/
namespace SourceStepper

/-- Whether a pulse of an earlier instruction stands in front of all commands of hosts. -/
def Channel.isStale (c : Channel) : Bool := c.queue.head?.any (!·.isHost)

/-- Whether a controller stops at an instruction that nobody asks it to stop at. -/
def Controller.stopsAt (c : Controller) (files : FileTree) (step : Step) : Bool :=
  (c.approach files step).1.shouldStop (c.approach files step).2.location

/-- Whether a command has been heeded while an instruction was handled: hosts have been told of a
stop there, or the session has ended, be it after a stop that the queued command ends whatever
hosts do. -/
def Heeded (step : Step) (traced : Traced) : Command → Prop
  | .suspend => ∃ p, traced = .parked p ∧ p.visit.step = step
  | .stop => (∃ d, traced = .ended d) ∨
      ∃ p, traced = .parked p ∧ ∀ actions, ∃ d, (p.after actions).answer? = some (.ended d)
  | _ => False

theorem stop_ends {p : Parked} (isOpen : p.controller.channel.isOpen = true) {later : List Command}
    (first : p.controller.channel.commands = .stop :: later) (actions : List HostAction) :
    ∃ d, (p.after actions).answer? = some (.ended d) := by
  have commands := commands_after isOpen actions
  rw [first] at commands
  obtain ⟨channel, taken, _⟩ := Channel.takeFromHost?_first commands
  exact ⟨_, answer?_eq taken⟩

theorem heeded_in_front {c : Controller} (awake : c.isIdle = false)
    (isOpen : c.channel.isOpen = true)
    {command : Command} (urgent : command = .suspend ∨ command = .stop) {rest : List Envelope}
    (queue : c.channel.queue = ⟨command, .host⟩ :: rest) (files : FileTree) (step : Step) :
    Heeded step (c.trace files step) command := by
  have pushed :
      c.channel.queue ++ [pulse] = ⟨command, .host⟩ :: (rest ++ [pulse]) := by rw [queue]; rfl
  rw [Controller.trace_first awake isOpen files step pushed]
  rcases urgent with rfl | rfl
  · exact ⟨_, rfl, rfl⟩
  · exact .inl ⟨_, rfl⟩

/-- A pulse in front is taken for the instruction's own, and the commands behind it wait on. -/
theorem pulse_in_front {c : Controller} (awake : c.isIdle = false)
    (isOpen : c.channel.isOpen = true)
    {rest : List Envelope} (queue : c.channel.queue = pulse :: rest) (files : FileTree)
    (step : Step) :
    (c.stopsAt files step = false →
      ∃ d, c.trace files step = .passed d ∧ d.channel.commands = c.channel.commands) ∧
    (c.stopsAt files step = true →
      ∃ p, c.trace files step = .parked p ∧ p.visit.step = step ∧
        p.controller.channel.isOpen = true ∧
          p.controller.channel.commands = c.channel.commands) := by
  have pushed : c.channel.queue ++ [pulse] = pulse :: (rest ++ [pulse]) := by rw [queue]; rfl
  rw [Controller.trace_first awake isOpen files step pushed]
  generalize approached : { (c.approach files step).1 with
    channel := { c.channel with queue := rest ++ [pulse] } } = d
  have commands : d.channel.commands = c.channel.commands := by
    simp [← approached, Channel.commands, queue, pulse, Envelope.isHost]
  have stops : d.shouldStop (c.approach files step).2.location = c.stopsAt files step := by
    rw [← approached]
    rfl
  constructor
  · intro passes
    rw [passes] at stops
    have handled : d.obey (c.approach files step).2 .execute =
        .handled (d.goOn (c.approach files step).2) := by
      simp [Controller.obey, stops]
    have channel := Controller.channel_obey d (c.approach files step).2 .execute
    rw [handled] at channel
    have same := congrArg Channel.commands channel
    refine ⟨(d.goOn (c.approach files step).2).leave, ?_, same.trans commands⟩
    rw [show pulse.command = .execute from rfl, handled]
    rfl
  · intro stop
    rw [stop] at stops
    have stopped : d.obey (c.approach files step).2 .execute =
        .stops { d with runTillNextLine := false } := by
      simp [Controller.obey, stops]
    have isOpen : d.channel.isOpen = true := by
      rw [← approached]
      exact isOpen
    rw [show pulse.command = .execute from rfl, stopped]
    exact ⟨_, rfl, rfl, isOpen, commands⟩

/-- A queued `suspend` or `stop` acts at the next instruction exactly if no pulse of an earlier
instruction stands in front of it, or the controller stops there on its own account. Otherwise the
instruction is executed and the command stays where it is. -/
theorem urgent_command_heeded_iff {loader : Loader} {registry : Registry} {maxFrames : Nat}
    {c : Controller} {h : History} (run : Run (.fresh loader registry maxFrames) (.running c) h)
    (live : c.terminated = false) (inactive : c.jump.isActive = false) {command : Command}
    (urgent : command = .suspend ∨ command = .stop)
    (first : c.channel.commands.head? = some command)
    (files : FileTree) (step : Step) :
    (Heeded step (c.trace files step) command ↔
      c.channel.isStale = false ∨ c.stopsAt files step = true) ∧
    (c.channel.isStale = true → c.stopsAt files step = false →
      ∃ d, c.trace files step = .passed d ∧ d.channel.commands = c.channel.commands) := by
  have awake := Controller.isIdle_eq_false.mpr ⟨live, inactive⟩
  have tended : c.channel.Tended :=
    (run_wellformed run (fresh_wellformed loader registry maxFrames)).tended
  obtain ⟨later, commands⟩ : ∃ later, c.channel.commands = command :: later := by
    cases h : c.channel.commands with
    | nil => simp [h] at first
    | cons x later => exact ⟨later, by simpa [h] using first⟩
  cases queue : c.channel.queue with
  | nil => simp [Channel.commands, queue] at commands
  | cons e rest =>
    by_cases host : e.isHost
    · have whole : e = ⟨command, .host⟩ := by
        simp only [Channel.commands, queue, List.filter_cons_of_pos host, List.map_cons] at commands
        have origin : e.origin = .host := of_decide_eq_true host
        rw [← (List.cons.inj commands).1, ← origin]
      have front : c.channel.isStale = false := by simp [Channel.isStale, queue, host]
      have heeded := heeded_in_front awake tended.isOpen urgent (whole ▸ queue) files step
      exact ⟨⟨fun _ => .inl front, fun _ => heeded⟩, fun stale => by simp [front] at stale⟩
    · have own : e = pulse := tended.pulses e (by simp [queue]) (by simpa using host)
      have stale : c.channel.isStale = true := by simp [Channel.isStale, queue, host]
      obtain ⟨passing, stopping⟩ := pulse_in_front awake tended.isOpen (own ▸ queue) files step
      refine ⟨⟨?_, ?_⟩, fun _ => passing⟩
      · intro heeded
        right
        cases stops : c.stopsAt files step with
        | true => rfl
        | false =>
          obtain ⟨d, passed, _⟩ := passing stops
          rw [passed] at heeded
          rcases urgent with rfl | rfl
          · obtain ⟨p, parked, _⟩ := heeded
            contradiction
          · rcases heeded with ⟨d, ended⟩ | ⟨p, parked, _⟩ <;> contradiction
      · intro stops
        have stops : c.stopsAt files step = true := by simpa [stale] using stops
        obtain ⟨p, parked, here, isOpen, same⟩ := stopping stops
        rw [parked]
        rcases urgent with rfl | rfl
        · exact ⟨p, rfl, here⟩
        · exact .inr ⟨p, rfl, stop_ends isOpen (same.trans commands)⟩

/-- An answer drops the pulse in front of it, so that nothing overtakes the `stop` behind it. -/
theorem stop_heeded_after_resume :
    ∃ c h, Run .bare (.running c) h ∧ c.terminated = false ∧ c.jump.isActive = false ∧
      c.channel.commands.head? = some .stop ∧
      Heeded { pc := 1, opcode := 0x01 } (c.trace {} { pc := 1, opcode := 0x01 }) .stop := by
  have observed := ((Run.start (s := .bare)).sent 0 .suspend rfl).move
    (.observe {} { pc := 0, opcode := 0x01 } rfl)
  have stopped := (observed.move (.dispatch (.take rfl))).sent 0 .resume rfl
  have queued := (stopped.move (.dispatch (.answer rfl))).sent 0 .stop rfl
  exact ⟨_, _, queued, rfl, rfl, rfl,
    (urgent_command_heeded_iff queued rfl rfl (.inr rfl) rfl _ _).1.mpr (.inl rfl)⟩

/-- A `suspend` and a `resume` that are queued together leave the pulse of their instruction behind,
and it overtakes the next `suspend`. -/
theorem suspend_overtaken_by_pulse :
    ∃ c h, Run .bare (.running c) h ∧ c.terminated = false ∧ c.jump.isActive = false ∧
      c.channel.commands.head? = some .suspend ∧
      ¬ Heeded { pc := 1, opcode := 0x01 } (c.trace {} { pc := 1, opcode := 0x01 }) .suspend := by
  have queued := ((Run.start (s := .bare)).sent 0 .suspend rfl).sent 0 .resume rfl
  have observed := queued.move (.observe {} { pc := 0, opcode := 0x01 } rfl)
  have stopped := (observed.move (.dispatch (.take rfl))).sent 0 .suspend rfl
  have again := stopped.move (.dispatch (.answer rfl))
  refine ⟨_, _, again, rfl, rfl, rfl, ?_⟩
  rintro ⟨p, parked, _⟩
  contradiction

end SourceStepper
