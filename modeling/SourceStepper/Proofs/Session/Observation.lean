import SourceStepper.Proofs.Session.Completion

/-! What a session reports of a target does not depend on who looks on. Files, breakpoints and
commands decide where hosts are told of stops, and whether the call is made; what the machine makes
of the creation and of the call is the same in any session. -/
namespace SourceStepper

namespace Session

variable {vm : Vm} {config : Config} {target : Target} {created : Evm.Receipt} {log more : Log}

def StoppedEarly (log : Log) : Prop := .stopped ∈ log.takeWhile (· ≠ .transacted)

/-- The reasons not to call the contract. -/
def Omits (target : Target) (created : Evm.Receipt) (log : Log) : Prop :=
  target.calldata = none ∨ created.created = none ∨ StoppedEarly log

theorem stoppedEarly_iff (stops : Stops log) :
    StoppedEarly (deployingLine target :: log ++ .transacted :: more) ↔ .stopped ∈ log := by
  have passed : ∀ entry ∈ deployingLine target :: log, decide (entry ≠ .transacted) = true := by
    intro entry member
    rw [decide_eq_true_iff]
    rintro rfl
    rcases List.mem_cons.mp member with told | member
    · contradiction
    · rcases stops _ member with stopped | ⟨_, _, told⟩ <;> contradiction
  rw [StoppedEarly, List.takeWhile_append_of_pos passed]
  simp [deployingLine]

theorem Called.calls {chain : vm.Chain} {address : Evm.Address} {calldata : List UInt8}
    (called : Called vm config target created chain address calldata log) :
    ¬ Omits target created (deployingLine target :: log ++ .transacted :: more) := by
  rintro (data | made | stopped)
  · rw [called.calldata] at data
    contradiction
  · rw [called.created] at made
    contradiction
  · exact called.going ((stoppedEarly_iff called.stops).mp stopped)

section Brief
variable (room : Nat) (calldata : List UInt8)

/-- A contract without code, called with some data on a machine with so much room; there are
no artifacts. -/
def brief : Stage (.brief room) :=
  .opened (.brief room) {} { initCode := [], calldata := some calldata }
    { projectRoot := ".", buildDir := "build", contracts := some [] } ⟨default, {}⟩

end Brief

end Session

end SourceStepper
