import SourceStepper.Evm.Instruction

namespace SourceStepper.Evm

/-- The addresses of the contracts that belong to the machine itself. -/
def precompiles : List Address := (List.range 17).map (fun n => BitVec.ofNat 160 (n + 1)) ++ [0x100]

/-- How deep frames can be nested below the outermost one. -/
def maxDepth : Nat := 1024

/-- The largest size of a contract's code. -/
def maxCodeSize : Nat := 24576

namespace Machine

def receive (f : CallFrame) (left : CallFrame) (exit : Exit) (word : Word) : CallFrame :=
  let gas := if exit.givesGasBack then f.gas + left.gas else f.gas
  let written := exit.output.extract 0 (min left.place.2 exit.output.size)
  let memory := if left.isCreation then f.memory else overwrite f.memory written left.place.1
  let returnData := match left.isCreation, exit with
    | true, .returned _ => .empty
    | _, e => e.output
  { f with gas, memory, returnData, stack := word :: f.stack }

/-- Hand the end of a frame to the frame that has called it, or end the transaction. -/
def handBack (m : Machine) (left : CallFrame) (exit : Exit) : Machine :=
  let ledger := if exit.isSuccess then m.ledger else left.before
  match m.frames with
  | [] => { m with ledger, exit := some exit }
  | f :: outer =>
    let word : Word :=
      if !exit.isSuccess then 0 else if left.isCreation then left.address.word else 1
    { m with ledger, frames := receive f left exit word :: outer }

/-- What becomes of the output of a frame that creates a contract: it is the code, which has to be
paid for and must neither start with the byte EF nor be too long. -/
def deposit (m : Machine) (f : CallFrame) (exit : Exit) : Machine × CallFrame × Exit :=
  match f.isCreation, exit with
  | true, .returned code =>
    if code[0]? = some 0xEF then (m, f, .halted .createCodeStartingWithEF)
    else if maxCodeSize < code.size then (m, f, .halted .createCodeSizeLimit)
    else if f.gas < 200 * code.size then (m, f, .halted (.outOfGas .basic))
    else
      ({ m with ledger := m.ledger.update f.address fun account => { account with code } },
        { f with gas := f.gas - 200 * code.size }, exit)
  | _, _ => (m, f, exit)

def leave (m : Machine) (f : CallFrame) (exit : Exit) : Machine × List Signal :=
  let (m, f, exit) := deposit m f exit
  (m.handBack f exit, [.closed])

def identity (f : CallFrame) : CallFrame × Exit :=
  let cost := 15 + 3 * wordCount f.input.size
  if f.gas < cost then (f, .halted (.outOfGas .precompile))
  else ({ f with gas := f.gas - cost }, .returned f.input)

/-- Start the execution of a frame. A contract of the machine itself and an account without code end
at once. Of the former only the identity is provided: a call of any other one runs out of gas here,
unlike on a complete machine, which computes its result. -/
def begin (m : Machine) (f : CallFrame) (codeAddress : Address) : Machine × List Signal :=
  if precompiles.contains codeAddress then
    let (f, exit) := if codeAddress = 4 then identity f else (f, .halted (.outOfGas .precompile))
    leave m f exit
  else if f.code.stored.isEmpty then leave m f (.returned .empty)
  else ({ m with frames := f :: m.frames }, [])

def enterCall (m : Machine) (r : CallRequest) (depth : Nat) : Machine × List Signal :=
  let f : CallFrame := {
    isCreation := false
    address := r.address
    caller := r.caller
    value := r.value
    input := r.input
    code := Code.ofBytes (m.ledger.account r.codeAddress).code
    isStatic := r.isStatic
    depth
    gas := r.gas
    place := r.place
    before := m.ledger }
  let refused (cause : Halt) := m.leave f (.halted cause)
  let (m, signals) :=
    if maxDepth < depth then refused .callTooDeep
    else if r.moves then
      match m.ledger.transfer? r.caller r.address r.value.toNat with
      | some ledger => begin { m with ledger } f r.codeAddress
      | none => refused .outOfFunds
    else begin m f r.codeAddress
  (m, .opened false :: signals)

def createdAddress (r : CreateRequest) (nonce : Nat) : Address :=
  match r.salt with
  | none => Address.ofCreation r.caller nonce
  | some salt => Address.ofSalted r.caller salt r.initCode.toList

/-- Create a contract. The creator's nonce counts the attempt, whatever becomes of it. -/
def enterCreate (m : Machine) (r : CreateRequest) (depth : Nat) : Machine × List Signal :=
  let creator := m.ledger.account r.caller
  let address := createdAddress r creator.nonce
  let f : CallFrame := {
    isCreation := true
    address
    caller := r.caller
    value := r.value
    input := .empty
    code := Code.ofBytes r.initCode
    isStatic := false
    depth
    gas := r.gas
    place := (0, 0)
    before := m.ledger }
  let refused (m : Machine) (cause : Halt) := m.leave { f with before := m.ledger } (.halted cause)
  let (m, signals) :=
    if maxDepth < depth then refused m .callTooDeep
    else if creator.balance < r.value.toNat then refused m .outOfFunds
    else
      let ledger :=
        (m.ledger.update r.caller fun a => { a with nonce := a.nonce + 1 }).touch address |>.2
      let m := { m with ledger }
      let former := ledger.account address
      if former.nonce ≠ 0 || !former.code.isEmpty then refused m .createCollision
      else
        match (ledger.transfer? r.caller address r.value.toNat) with
        | none => refused m .outOfFunds
        | some moved =>
          let moved := moved.update address fun a => { a with nonce := 1 }
          let moved := { moved with created := address :: moved.created }
          ({ m with ledger := moved, frames := { f with before := ledger } :: m.frames }, [])
  (m, .opened true :: signals)

def execute (m : Machine) : Machine × List Signal :=
  match m.frames with
  | [] => (m, [])
  | f :: outer =>
    match (instruction m).run ⟨f, m.ledger⟩ with
    | .error cause => leave { m with frames := outer } f (.halted cause)
    | .ok (effect, ⟨f, ledger⟩) =>
      let m := { m with frames := f :: outer, ledger }
      match effect with
      | .next => (m, [])
      | .exit exit => leave { m with frames := outer } f exit
      | .call r => m.enterCall r (f.depth + 1)
      | .create r => m.enterCreate r (f.depth + 1)

end Machine

end SourceStepper.Evm
