import SourceStepper.Evm.Execute

namespace SourceStepper.Evm

/-- A transaction. Gas costs nothing. -/
structure Transaction where
  caller : Address
  /-- The account that is called; none for the creation of a contract. -/
  target : Option Address
  value : Nat
  data : List UInt8
  gasLimit : Nat

inductive Rejection
  | gasLimitTooHigh (limit cap : Nat)
  | initCodeTooLong
  | gasLimitTooLow (cost limit : Nat)
  | belowFloor (floor limit : Nat)
  | lackOfFunds (balance fee : Nat)
  deriving DecidableEq, Repr

def Rejection.message : Rejection → String
  | .gasLimitTooHigh limit cap =>
    s!"transaction gas limit ({limit}) is greater than the cap ({cap})"
  | .initCodeTooLong => "create initcode size limit"
  | .gasLimitTooLow cost limit => s!"call gas cost ({cost}) exceeds the gas limit ({limit})"
  | .belowFloor floor limit => s!"gas floor ({floor}) exceeds the gas limit ({limit})"
  | .lackOfFunds balance fee => s!"lack of funds ({balance}) for max fee ({fee})"

structure Receipt where
  exit : Exit
  /-- The contract that has been created. -/
  created : Option Address

def Receipt.text (r : Receipt) : String :=
  match r.exit with
  | .returned output => s!"succeeded with 0x{Text.hex output.toList}"
  | .reverted output => s!"reverted with 0x{Text.hex output.toList}"
  | .halted cause => s!"halted: {cause.name}"

namespace Transaction

def gasCap : Nat := 16777216

def byteCounts (t : Transaction) : Nat × Nat :=
  let zeros := t.data.count 0
  (zeros, t.data.length - zeros)

def intrinsicGas (t : Transaction) : Nat :=
  let (zeros, others) := t.byteCounts
  21000 + 4 * zeros + 16 * others +
    if t.target.isNone then 32000 + 2 * wordCount t.data.length else 0

/-- The gas that a transaction costs at least, for the size of its data. -/
def floorGas (t : Transaction) : Nat :=
  let (zeros, others) := t.byteCounts
  21000 + 10 * (zeros + 4 * others)

def rejection? (t : Transaction) (world : World) : Option Rejection :=
  let balance := ((world.get? t.caller).getD {}).balance
  if gasCap < t.gasLimit then some (.gasLimitTooHigh t.gasLimit gasCap)
  else if t.target.isNone && 49152 < t.data.length then some .initCodeTooLong
  else if t.gasLimit < t.intrinsicGas then some (.gasLimitTooLow t.intrinsicGas t.gasLimit)
  else if t.gasLimit < t.floorGas then some (.belowFloor t.floorGas t.gasLimit)
  else if balance < t.value then some (.lackOfFunds balance t.value)
  else none

/-- The machine at the start of a transaction, with its outermost frame entered. -/
def start (t : Transaction) (world : World) : Except Rejection (Machine × List Signal) :=
  match t.rejection? world with
  | some rejection => .error rejection
  | none =>
    let gas := t.gasLimit - t.intrinsicGas
    let data : ByteArray := ⟨t.data.toArray⟩
    let warm := t.caller :: 0 :: precompiles
    let value := BitVec.ofNat 256 t.value
    match t.target with
    | none =>
      let m : Machine := { origin := t.caller, committed := world, ledger := { world, warm } }
      .ok (m.enterCreate ⟨gas, t.caller, value, data, none⟩ 0)
    | some target =>
      let ledger : Ledger := { world, warm := target :: warm }
      let ledger := ledger.update t.caller fun a => { a with nonce := a.nonce + 1 }
      let m : Machine := { origin := t.caller, committed := world, ledger }
      .ok (m.enterCall {
        gas, value
        address := target
        codeAddress := target
        caller := t.caller
        moves := true
        input := data
        isStatic := false
        place := (0, 0) } 0)

end Transaction

def Machine.receipt? (m : Machine) (t : Transaction) (world : World) : Option Receipt :=
  m.exit.map fun exit => {
    exit
    created := if t.target.isNone && exit.isSuccess then
        some (Address.ofCreation t.caller ((world.get? t.caller).getD {}).nonce)
      else none }

end SourceStepper.Evm
