import SourceStepper.Evm.Machine

/-!
What the instructions do to the frame that executes them, and what they cost. An instruction either
is carried out, or ends its frame, or asks for a further frame.
-/
namespace SourceStepper.Evm

structure Active where
  frame : CallFrame
  ledger : Ledger

structure CallRequest where
  gas : Nat
  address : Address
  /-- The account whose code is executed. -/
  codeAddress : Address
  caller : Address
  value : Word
  /-- Whether the value moves from the caller to the account. -/
  moves : Bool
  input : ByteArray
  isStatic : Bool
  place : Nat × Nat

structure CreateRequest where
  gas : Nat
  caller : Address
  value : Word
  initCode : ByteArray
  salt : Option Word

inductive Effect
  | next
  | exit (e : Exit)
  | call (r : CallRequest)
  | create (r : CreateRequest)

abbrev Run := StateT Active (Except Halt)

namespace Run

def frame : Run CallFrame := do return (← get).frame

def modifyFrame (f : CallFrame → CallFrame) : Run Unit :=
  modify fun a => { a with frame := f a.frame }

def modifyLedger (f : Ledger → Ledger) : Run Unit :=
  modify fun a => { a with ledger := f a.ledger }

def chargeFor (use : GasUse) (amount : Nat) : Run Unit := do
  let f ← frame
  if f.gas < amount then throw (.outOfGas use) else modifyFrame ({ · with gas := f.gas - amount })

def charge (amount : Nat) : Run Unit := chargeFor .basic amount

def pop : Run Word := do
  match (← frame).stack with
  | [] => throw .stackUnderflow
  | top :: rest =>
    modifyFrame ({ · with stack := rest })
    return top

def push (w : Word) : Run Unit := do
  let f ← frame
  if 1024 ≤ f.stack.length then throw .stackOverflow
  else modifyFrame ({ · with stack := w :: f.stack })

def pushNat (n : Nat) : Run Unit := push (BitVec.ofNat 256 n)

/-- A word that has to be a number of 64 bits. -/
def operand (w : Word) : Run Nat :=
  if w.toNat ≤ 0xFFFFFFFFFFFFFFFF then return w.toNat else throw (.outOfGas .invalidOperand)

/-- What memory of a number of words costs in all. -/
def memoryCost (words : Nat) : Nat := 3 * words + words * words / 512

def cover (offset length : Nat) : Run Unit := do
  if length = 0 then return
  let size := (← frame).memory.size
  let words := wordCount (offset + length)
  if size < words * wordSize then
    chargeFor .memory (memoryCost words - memoryCost (size / wordSize))
    modifyFrame fun f =>
      { f with memory := f.memory ++ ⟨Array.replicate (words * wordSize - size) 0⟩ }

/-- Take a range of memory from the stack's offset and length, and grow the memory for it. An empty
range may have any offset. -/
def range (offset length : Word) : Run (Nat × Nat) := do
  let length ← operand length
  if length = 0 then return (0, 0)
  let offset ← operand offset
  cover offset length
  return (offset, length)

def readMemory (place : Nat × Nat) : Run ByteArray := do
  return (← frame).memory.extract place.1 (place.1 + place.2)

def writeMemory (offset : Nat) (bytes : ByteArray) : Run Unit :=
  modifyFrame fun f => { f with memory := overwrite f.memory bytes offset }

def copy (data : ByteArray) (memoryOffset dataOffset length : Word) : Run Unit := do
  let length ← operand length
  charge (3 * wordCount length)
  if length = 0 then return
  let offset ← operand memoryOffset
  cover offset length
  writeMemory offset (sliceOf data dataOffset.toNat length)

def unary (f : Word → Word) : Run Effect := do
  push (f (← pop))
  return .next

def binary (f : Word → Word → Word) : Run Effect := do
  let a ← pop
  let b ← pop
  push (f a b)
  return .next

def ternary (f : Word → Word → Word → Word) : Run Effect := do
  let a ← pop
  let b ← pop
  let c ← pop
  push (f a b c)
  return .next

def constant (w : Run Word) : Run Effect := do
  push (← w)
  return .next

/-- What the first touch of an address costs beyond the cost of the instruction. -/
def touch (a : Address) : Run Unit := do
  let (cold, ledger) := (← get).ledger.touch a
  modifyLedger fun _ => ledger
  if cold then charge 2500

/-- Refuse what a static frame must not do. -/
def requireChanging : Run Unit := do
  if (← frame).isStatic then throw .stateChangeDuringStaticCall

def jumpTo (target : Word) : Run Unit := do
  if (← frame).code.targets.contains target.toNat then
    modifyFrame ({ · with pc := target.toNat })
  else throw .invalidJump

/-- Write a storage slot. The cost depends on the value that stands there, and on the one that stood
there before the transaction. -/
def store (committed : World) : Run Effect := do
  requireChanging
  let slot ← pop
  let value ← pop
  let f ← frame
  if f.gas ≤ 2300 then throw (.outOfGas .reentrancySentry)
  charge 100
  let ledger := (← get).ledger
  let present := ledger.load f.address slot
  let initial := if ledger.created.contains f.address then 0
    else (((committed.get? f.address).getD {}).storage.get? slot).getD 0
  let (cold, ledger) := ledger.touchSlot f.address slot
  modifyLedger fun _ => ledger.store f.address slot value
  let change :=
    if value = present || initial ≠ present then 0 else if initial = 0 then 19900 else 2800
  charge (change + if cold then 2100 else 0)
  return .next

def create (salted : Bool) : Run Effect := do
  requireChanging
  let value ← pop
  let offset ← pop
  let length ← operand (← pop)
  let place ← if length = 0 then pure (0, 0) else do
    if 49152 < length then throw .createInitCodeSizeLimit
    charge (2 * wordCount length)
    let offset ← operand offset
    cover offset length
    pure (offset, length)
  let initCode ← readMemory place
  let salt ← if salted then do
    let salt ← pop
    charge (32000 + 6 * wordCount length)
    pure (some salt)
  else do
    charge 32000
    pure none
  let f ← frame
  let gas := f.gas - f.gas / 64
  charge gas
  return .create ⟨gas, f.address, value, initCode, salt⟩

inductive CallKind
  | call
  | callCode
  | delegateCall
  | staticCall
  deriving DecidableEq

def call (kind : CallKind) : Run Effect := do
  let wanted ← pop
  let target := (← pop).address
  let value ← if kind = .call || kind = .callCode then pop else pure 0
  let f ← frame
  if kind = .call && f.isStatic && value ≠ 0 then throw .callNotAllowedInsideStatic
  let inOffset ← pop
  let inLength ← pop
  let outOffset ← pop
  let outLength ← pop
  let input ← range inOffset inLength
  let place ← range outOffset outLength
  if value ≠ 0 then charge 9000
  touch target
  let account := (← get).ledger.account target
  if kind = .call && value ≠ 0 && account.isEmpty then charge 25000
  let left := (← frame).gas
  let gas := min (left - left / 64) wanted.toNat
  charge gas
  let gas := if value ≠ 0 then gas + 2300 else gas
  let input ← readMemory input
  return .call {
    gas, input, place
    address := if kind = .call || kind = .staticCall then target else f.address
    codeAddress := target
    caller := if kind = .delegateCall then f.caller else f.address
    value := if kind = .delegateCall then f.value else value
    moves := kind = .call || kind = .callCode
    isStatic := f.isStatic || kind = .staticCall }

def finish (exit : ByteArray → Exit) : Run Effect := do
  let offset ← pop
  let length ← pop
  return .exit (exit (← readMemory (← range offset length)))

/-- Record a log entry; only its cost matters. -/
def log (topics : Nat) : Run Effect := do
  requireChanging
  let offset ← pop
  let length ← operand (← pop)
  charge (375 * topics + 8 * length)
  if length ≠ 0 then cover (← operand offset) length
  for _ in [0:topics] do
    let _ ← pop
  return .next

/-- Leave the balance to another account. Only a contract that the transaction has created ends
with it. -/
def selfDestruct : Run Effect := do
  requireChanging
  let heir := (← pop).address
  let f ← frame
  let (cold, ledger) := (← get).ledger.touch heir
  let balance := (ledger.account f.address).balance
  let fresh := balance ≠ 0 && (ledger.account heir).isEmpty
  charge ((if cold then 2600 else 0) + if fresh then 25000 else 0)
  let ends := ledger.created.contains f.address
  let ledger := if heir = f.address then
      if ends then ledger.update heir fun a => { a with balance := 0 } else ledger
    else (ledger.transfer? f.address heir balance).getD ledger
  modifyLedger fun _ =>
    if ends then { ledger with destroyed := f.address :: ledger.destroyed } else ledger
  return .exit (.returned .empty)

/-- Put the `n`th word of the stack on top. Too short a stack counts as an overflow. -/
def duplicate (n : Nat) : Run Effect := do
  match (← frame).stack[n - 1]? with
  | some w =>
    push w
    return .next
  | none => throw .stackOverflow

/-- Exchange the top of the stack with the `n`th word below it. Too short a stack counts as
an overflow. -/
def exchange (n : Nat) : Run Effect := do
  let stack := (← frame).stack
  match stack, stack[n]? with
  | top :: rest, some w =>
    modifyFrame ({ · with stack := w :: rest.set (n - 1) top })
    return .next
  | _, _ => throw .stackOverflow

def pushData (pc size : Nat) : Run Effect := do
  let f ← frame
  push (Word.ofBytes (f.code.padded.extract (pc + 1) (pc + 1 + size)).toList)
  modifyFrame ({ · with pc := pc + 1 + size })
  return .next

end Run

/-- What an opcode costs in any case. -/
def staticGas (op : Nat) : Nat :=
  match op with
  | 0x01 | 0x03 => 3
  | 0x02 | 0x04 | 0x05 | 0x06 | 0x07 | 0x0B | 0x1E => 5
  | 0x08 | 0x09 => 8
  | 0x0A => 10
  | 0x20 => 30
  | 0x30 | 0x32 | 0x33 | 0x34 | 0x36 | 0x38 | 0x3A | 0x3D => 2
  | 0x31 | 0x3B | 0x3C | 0x3F => 100
  | 0x35 | 0x37 | 0x39 | 0x3E => 3
  | 0x40 => 20
  | 0x41 | 0x42 | 0x43 | 0x44 | 0x45 | 0x46 | 0x48 | 0x4A | 0x4B => 2
  | 0x47 => 5
  | 0x49 => 3
  | 0x50 => 2
  | 0x51 | 0x52 | 0x53 => 3
  | 0x54 => 100
  | 0x56 => 8
  | 0x57 => 10
  | 0x58 | 0x59 | 0x5A => 2
  | 0x5B => 1
  | 0x5C | 0x5D => 100
  | 0x5E => 3
  | 0x5F => 2
  | 0xE6 | 0xE7 | 0xE8 => 3
  | 0xF1 | 0xF2 | 0xF4 | 0xFA => 100
  | 0xFF => 5000
  | _ =>
    if 0x10 ≤ op && op ≤ 0x1D then 3
    else if 0x60 ≤ op && op ≤ 0x9F then 3
    else if 0xA0 ≤ op && op ≤ 0xA4 then 375
    else 0

open Run in
/-- Carry out the opcode `op` that stands at `pc`; the program counter already points behind it. The
block has number 0, time 1, chain 1, no base fee and no other properties. -/
def perform (m : Machine) (pc op : Nat) : Run Effect := do
  match op with
  | 0x00 => return .exit (.returned .empty)
  | 0x01 => binary (· + ·)
  | 0x02 => binary (· * ·)
  | 0x03 => binary (· - ·)
  | 0x04 => binary (· / ·)
  | 0x05 => binary Word.sdiv
  | 0x06 => binary Word.mod
  | 0x07 => binary Word.smod
  | 0x08 => ternary Word.addMod
  | 0x09 => ternary Word.mulMod
  | 0x0A =>
    let base ← pop
    let exponent ← pop
    charge (50 * exponent.byteCount)
    push (base.pow exponent)
    return .next
  | 0x0B => binary Word.signExtendByte
  | 0x10 => binary fun a b => ofBool (a < b)
  | 0x11 => binary fun a b => ofBool (b < a)
  | 0x12 => binary fun a b => ofBool (a.slt b)
  | 0x13 => binary fun a b => ofBool (BitVec.slt b a)
  | 0x14 => binary fun a b => ofBool (a = b)
  | 0x15 => unary fun a => ofBool (a = 0)
  | 0x16 => binary (· &&& ·)
  | 0x17 => binary (· ||| ·)
  | 0x18 => binary (· ^^^ ·)
  | 0x19 => unary (~~~ ·)
  | 0x1A => binary Word.byteAt
  | 0x1B => binary Word.shl
  | 0x1C => binary Word.shr
  | 0x1D => binary Word.sar
  | 0x1E => unary Word.leadingZeros
  | 0x20 =>
    let offset ← pop
    let length ← operand (← pop)
    charge (6 * wordCount length)
    let place ← if length = 0 then pure (0, 0) else do
      let offset ← operand offset
      cover offset length
      pure (offset, length)
    push (Word.ofBytes (Keccak.hash (← readMemory place).toList))
    return .next
  | 0x30 => constant do return (← frame).address.word
  | 0x31 =>
    let a := (← pop).address
    touch a
    pushNat ((← get).ledger.account a).balance
    return .next
  | 0x32 => constant (pure m.origin.word)
  | 0x33 => constant do return (← frame).caller.word
  | 0x34 => constant do return (← frame).value
  | 0x35 =>
    let offset ← pop
    push (Word.ofBytes (sliceOf (← frame).input offset.toNat 32).toList)
    return .next
  | 0x36 => constant do return BitVec.ofNat 256 (← frame).input.size
  | 0x37 =>
    let memoryOffset ← pop
    let dataOffset ← pop
    let length ← pop
    copy (← frame).input memoryOffset dataOffset length
    return .next
  | 0x38 => constant do return BitVec.ofNat 256 (← frame).code.stored.size
  | 0x39 =>
    let memoryOffset ← pop
    let dataOffset ← pop
    let length ← pop
    copy (← frame).code.stored memoryOffset dataOffset length
    return .next
  | 0x3A => constant (pure 0)
  | 0x3B =>
    let a := (← pop).address
    touch a
    pushNat ((← get).ledger.account a).code.size
    return .next
  | 0x3C =>
    let a := (← pop).address
    let memoryOffset ← pop
    let dataOffset ← pop
    let length ← pop
    touch a
    copy ((← get).ledger.account a).code memoryOffset dataOffset length
    return .next
  | 0x3D => constant do return BitVec.ofNat 256 (← frame).returnData.size
  | 0x3E =>
    let memoryOffset ← pop
    let dataOffset ← pop
    let length ← pop
    let data := (← frame).returnData
    let size ← operand length
    if data.size < dataOffset.toNat + size then throw .outOfOffset
    copy data memoryOffset dataOffset length
    return .next
  | 0x3F =>
    let a := (← pop).address
    touch a
    let account := (← get).ledger.account a
    push (if account.isEmpty then 0 else Word.ofBytes (Keccak.hash account.code.toList))
    return .next
  | 0x40 => unary fun _ => 0
  | 0x41 => constant (pure 0)
  | 0x42 => constant (pure 1)
  | 0x43 => constant (pure 0)
  | 0x44 => constant (pure 0)
  | 0x45 => constant (pure 0xFFFFFFFFFFFFFFFF)
  | 0x46 => constant (pure 1)
  | 0x47 => do
    let f ← frame
    pushNat ((← get).ledger.account f.address).balance
    return .next
  | 0x48 => constant (pure 0)
  | 0x49 => unary fun _ => 0
  | 0x4A => constant (pure 1)
  | 0x50 =>
    let _ ← pop
    return .next
  | 0x51 =>
    let offset ← operand (← pop)
    cover offset 32
    push (Word.ofBytes (← readMemory (offset, 32)).toList)
    return .next
  | 0x52 =>
    let offset ← pop
    let value ← pop
    let offset ← operand offset
    cover offset 32
    writeMemory offset ⟨value.bytes.toArray⟩
    return .next
  | 0x53 =>
    let offset ← pop
    let value ← pop
    let offset ← operand offset
    cover offset 1
    writeMemory offset ⟨#[UInt8.ofNat (value.toNat % 256)]⟩
    return .next
  | 0x54 =>
    let slot ← pop
    let f ← frame
    let (cold, ledger) := (← get).ledger.touchSlot f.address slot
    modifyLedger fun _ => ledger
    if cold then charge 2000
    push (ledger.load f.address slot)
    return .next
  | 0x55 => store m.committed
  | 0x56 =>
    jumpTo (← pop)
    return .next
  | 0x57 =>
    let target ← pop
    let condition ← pop
    if condition ≠ 0 then jumpTo target
    return .next
  | 0x58 => constant (pure (BitVec.ofNat 256 pc))
  | 0x59 => constant do return BitVec.ofNat 256 (← frame).memory.size
  | 0x5A => constant do return BitVec.ofNat 256 (← frame).gas
  | 0x5B => return .next
  | 0x5C =>
    let slot ← pop
    push ((← get).ledger.loadTransient (← frame).address slot)
    return .next
  | 0x5D =>
    requireChanging
    let slot ← pop
    let value ← pop
    let f ← frame
    modifyLedger fun l => l.storeTransient f.address slot value
    return .next
  | 0x5E =>
    let target ← pop
    let source ← pop
    let length ← operand (← pop)
    charge (3 * wordCount length)
    if length ≠ 0 then
      let target ← operand target
      let source ← operand source
      cover (max target source) length
      writeMemory target (← readMemory (source, length))
    return .next
  | 0x5F => constant (pure 0)
  | 0xF0 => create false
  | 0xF1 => call .call
  | 0xF2 => call .callCode
  | 0xF3 => finish .returned
  | 0xF4 => call .delegateCall
  | 0xF5 => create true
  | 0xFA => call .staticCall
  | 0xFD => finish .reverted
  | 0xFE => throw .invalidOpcode
  | 0xFF => selfDestruct
  | 0x4B | 0xE6 | 0xE7 | 0xE8 => throw .notActivated
  | _ =>
    if 0x60 ≤ op && op ≤ 0x7F then pushData pc (op - 0x5F)
    else if 0x80 ≤ op && op ≤ 0x8F then duplicate (op - 0x7F)
    else if 0x90 ≤ op && op ≤ 0x9F then exchange (op - 0x8F)
    else if 0xA0 ≤ op && op ≤ 0xA4 then log (op - 0xA0)
    else throw .opcodeNotFound

def instruction (m : Machine) : Run Effect := do
  let f ← Run.frame
  let op := (f.code.byte f.pc).toNat
  Run.modifyFrame ({ · with pc := f.pc + 1 })
  Run.charge (staticGas op)
  perform m f.pc op

end SourceStepper.Evm
