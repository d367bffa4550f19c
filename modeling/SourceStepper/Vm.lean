import SourceStepper.Evm.Transaction
import SourceStepper.Inspector

/-!
Machines that sessions run on. A machine executes transactions one after the other, each in steps;
in front of a step it may show an instruction, and behind one it tells which frames it has opened
and closed.
-/
namespace SourceStepper

structure Vm where
  /-- The accounts between two transactions. -/
  Chain : Type
  /-- A transaction that is being executed. -/
  State : Type
  /-- A chain where nobody has anything but one account, which has plenty. -/
  funded : Evm.Address → Chain
  start : Evm.Transaction → Chain → Except String (State × List Evm.Signal)
  /-- What has come of the transaction, once it has ended: a receipt and the chain behind it, or
  an error. -/
  result? : State → Option (Except String (Evm.Receipt × Chain))
  /-- The instruction that is executed next, if one is. -/
  moment? : State → Option Moment
  execute : State → State × List Evm.Signal

namespace Evm

structure Running where
  transaction : Transaction
  /-- The accounts before the transaction. -/
  world : World
  machine : Machine

namespace Running

def start (transaction : Transaction) (world : World) : Except String (Running × List Signal) :=
  match transaction.start world with
  | .error cause => .error s!"transaction validation error: {cause.message}"
  | .ok (machine, signals) => .ok (⟨transaction, world, machine⟩, signals)

def result? (r : Running) : Option (Except String (Receipt × World)) :=
  (r.machine.receipt? r.transaction r.world).map fun receipt =>
    .ok (receipt, r.machine.ledger.commit)

def moment? (r : Running) : Option Moment :=
  r.machine.frames.head?.map fun f => {
    pc := f.pc
    opcode := f.code.byte f.pc
    code := f.code.padded
    stack := f.stack.map BitVec.toNat
    memory := f.memory }

def execute (r : Running) : Running × List Signal :=
  let (machine, signals) := r.machine.execute
  ({ r with machine }, signals)

end Running

end Evm

def Vm.mainnet : Vm where
  Chain := Evm.World
  State := Evm.Running
  funded caller :=
    (OrderedMap.empty : Evm.World).insert caller { balance := 0xFFFFFFFFFFFFFFFFFFFFFFFFFFFFFFFF }
  start := Evm.Running.start
  result? := Evm.Running.result?
  moment? := Evm.Running.moment?
  execute := Evm.Running.execute

end SourceStepper
