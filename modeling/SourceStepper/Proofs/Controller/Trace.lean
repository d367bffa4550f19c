import SourceStepper.Proofs.Channel.Commands
import SourceStepper.Proofs.Controller.Obey

namespace SourceStepper

def Obeyed.lead (v : Visit) (next : Controller → Traced) : Obeyed → Traced
  | .handled c => next c
  | .stops c => .parked (c.park v)
  | .ends c => .ended c.leave

namespace Controller

def isIdle (c : Controller) : Bool := c.terminated || c.jump.isActive

/-- The controller that has come to an instruction: it knows the place, and its pulse is queued. -/
def approach (c : Controller) (files : FileTree) (step : Step) : Controller × Visit :=
  let (location, c) := c.resolve files step
  let c := { c.arrive location with phase := .awaitingCommand }
  ({ c with channel := c.channel.push .execute }, ⟨step, location⟩)

theorem isIdle_eq_false {c : Controller} :
    c.isIdle = false ↔ c.terminated = false ∧ c.jump.isActive = false := by
  simp [isIdle]

theorem trace_idle {c : Controller} (idle : c.isIdle = true) (files : FileTree) (step : Step) :
    c.trace files step = .passed (if c.terminated then c else c.passOver step) := by
  unfold trace
  by_cases terminated : c.terminated
  · simp [terminated]
  · have active : c.jump.isActive = true := by simpa [isIdle, terminated] using idle
    simp [terminated, active]

theorem passOver_changes (c : Controller) (step : Step) :
    c.passOver step =
      { c with jump := if step.opcode.isJumpdest then c.jump.passJumpdest else c.jump } := by
  unfold passOver
  split <;> rfl

theorem idle_changes {c d : Controller} {files : FileTree} {step : Step} (idle : c.isIdle = true)
    (passed : c.trace files step = .passed d) :
    ∃ jump, d = { c with jump } ∧ jump.remaining ≤ c.jump.remaining := by
  rw [trace_idle idle] at passed
  cases passed
  split
  · exact ⟨c.jump, rfl, Nat.le_refl _⟩
  · refine ⟨_, passOver_changes c step, ?_⟩
    split
    · exact Nat.sub_le _ 1
    · exact Nat.le_refl _

theorem trace_awake {c : Controller} (awake : c.isIdle = false) (files : FileTree) (step : Step) :
    c.trace files step = (c.approach files step).1.consume (c.approach files step).2
      (c.approach files step).1.channel.queue := by
  obtain ⟨live, inactive⟩ := isIdle_eq_false.mp awake
  rw [trace, if_neg (by simp [live]), if_neg (by simp [inactive])]
  rfl

theorem consume_cons (c : Controller) (v : Visit) (e : Envelope) (rest : List Envelope) :
    c.consume v (e :: rest) =
      ({ c with channel := { c.channel with queue := rest } }.obey v e.command).lead v
        fun d => if e = pulse then .passed d.leave else d.consume v rest := by
  rw [consume]
  cases obey _ v e.command <;> rfl

/-- The approach leaves the stepping mode alone but for the line that execution was resumed from. -/
theorem approach_changes (c : Controller) (files : FileTree) (step : Step) :
    (c.approach files step).1 =
      { c with
        loader := (c.resolve files step).2.loader
        lastGood := (c.resolve files step).2.lastGood
        failed := (c.resolve files step).2.failed
        channel := c.channel.push .execute
        phase := .awaitingCommand
        resumedFrom :=
          if c.resumedFrom = some (c.approach files step).2.location.line then c.resumedFrom
          else none } := by
  have resolved : ∃ loader lastGood failed,
      (c.resolve files step).2 = { c with loader, lastGood, failed } := by
    unfold resolve mappingFor
    cases step.code <;> exact ⟨_, _, _, rfl⟩
  unfold approach arrive
  generalize c.resolve files step = r at resolved
  obtain ⟨location, d⟩ := r
  obtain ⟨loader, lastGood, failed, rfl⟩ := resolved
  dsimp only
  split <;> rfl

theorem approach_channel {c : Controller} (isOpen : c.channel.isOpen = true) (files : FileTree)
    (step : Step) :
    (c.approach files step).1.channel = { c.channel with queue := c.channel.queue ++ [pulse] } := by
  rw [approach_changes c files step]
  exact Channel.enqueue_open isOpen pulse

theorem trace_first {c : Controller} (awake : c.isIdle = false) (isOpen : c.channel.isOpen = true)
    (files : FileTree) (step : Step) {e : Envelope} {rest : List Envelope}
    (queue : c.channel.queue ++ [pulse] = e :: rest) :
    c.trace files step =
      ({ (c.approach files step).1 with channel := { c.channel with queue := rest } }.obey
        (c.approach files step).2 e.command).lead (c.approach files step).2
          fun d => if e = pulse then .passed d.leave
            else d.consume (c.approach files step).2 rest := by
  have channel := approach_channel isOpen files step
  rw [trace_awake awake, channel, queue, consume_cons, channel]

end Controller

theorem answer?_eq {p : Parked} {command : Command} {channel : Channel}
    (taken : p.controller.channel.takeFromHost? = some (command, channel)) :
    p.answer? =
      some (({ p.controller with channel, phase := .awaitingCommand }.obey p.visit command).lead
      p.visit fun d => .passed d.leave) := by
  simp only [Parked.answer?, taken, Option.bind_eq_bind, Option.bind_some]
  cases Controller.obey _ p.visit command <;> rfl

end SourceStepper
