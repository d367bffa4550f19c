import SourceStepper.Evm.Code
import SourceStepper.Evm.Ledger

namespace SourceStepper.Evm

inductive GasUse
  | basic
  | memory
  | invalidOperand
  | reentrancySentry
  | precompile
  deriving DecidableEq, Repr

/-- Why execution of a frame is given up. -/
inductive Halt
  | outOfGas (use : GasUse)
  | opcodeNotFound
  | invalidOpcode
  | invalidJump
  | notActivated
  | stackUnderflow
  | stackOverflow
  | outOfOffset
  | createCollision
  | nonceOverflow
  | createCodeSizeLimit
  | createInitCodeSizeLimit
  | createCodeStartingWithEF
  | stateChangeDuringStaticCall
  | callNotAllowedInsideStatic
  | outOfFunds
  | callTooDeep
  deriving DecidableEq, Repr

namespace GasUse

def name : GasUse → String
  | .basic => "Basic"
  | .memory => "Memory"
  | .invalidOperand => "InvalidOperand"
  | .reentrancySentry => "ReentrancySentry"
  | .precompile => "Precompile"

end GasUse

namespace Halt

def name : Halt → String
  | .outOfGas use => s!"OutOfGas({use.name})"
  | .opcodeNotFound => "OpcodeNotFound"
  | .invalidOpcode => "InvalidFEOpcode"
  | .invalidJump => "InvalidJump"
  | .notActivated => "NotActivated"
  | .stackUnderflow => "StackUnderflow"
  | .stackOverflow => "StackOverflow"
  | .outOfOffset => "OutOfOffset"
  | .createCollision => "CreateCollision"
  | .nonceOverflow => "NonceOverflow"
  | .createCodeSizeLimit => "CreateContractSizeLimit"
  | .createInitCodeSizeLimit => "CreateInitCodeSizeLimit"
  | .createCodeStartingWithEF => "CreateContractStartingWithEF"
  | .stateChangeDuringStaticCall => "StateChangeDuringStaticCall"
  | .callNotAllowedInsideStatic => "CallNotAllowedInsideStatic"
  | .outOfFunds => "OutOfFunds"
  | .callTooDeep => "CallTooDeep"

/-- Whether the caller gets back the gas of a frame that has not even been entered. -/
def givesGasBack : Halt → Bool
  | .outOfFunds | .callTooDeep => true
  | _ => false

end Halt

/-- How a frame ends. -/
inductive Exit
  | returned (output : ByteArray)
  | reverted (output : ByteArray)
  | halted (cause : Halt)

namespace Exit

def isSuccess : Exit → Bool
  | .returned _ => true
  | _ => false

def output : Exit → ByteArray
  | .returned output => output
  | .reverted output => output
  | .halted _ => .empty

def givesGasBack : Exit → Bool
  | .returned _ => true
  | .reverted _ => true
  | .halted cause => cause.givesGasBack

end Exit

structure CallFrame where
  isCreation : Bool
  /-- The account that executes. -/
  address : Address
  caller : Address
  value : Word
  input : ByteArray
  code : Code
  isStatic : Bool
  depth : Nat
  gas : Nat
  /-- Where the calling frame wants the output: offset and length. -/
  place : Nat × Nat
  /-- The ledger to which a failure goes back. -/
  before : Ledger
  pc : Nat := 0
  /-- The operand stack, from the top on. -/
  stack : List Word := []
  memory : ByteArray := .empty
  /-- The output of the last frame that has been called. -/
  returnData : ByteArray := .empty

/-- What the machine tells an observer about frames. -/
inductive Signal
  | opened (isCreation : Bool)
  | closed
  deriving DecidableEq, Repr

structure Machine where
  origin : Address
  /-- The accounts before the transaction. -/
  committed : World
  ledger : Ledger
  /-- The frames, the innermost first. -/
  frames : List CallFrame := []
  /-- How the outermost frame has ended. -/
  exit : Option Exit := none

def wordSize : Nat := 32

def wordCount (bytes : Nat) : Nat := (bytes + 31) / 32

/-- A part of data; behind the end of the data there are zeros. -/
def sliceOf (data : ByteArray) (offset length : Nat) : ByteArray :=
  let part := data.extract (min offset data.size) (min (offset + length) data.size)
  part ++ ⟨Array.replicate (length - part.size) 0⟩

/-- Data with other data in place of what stands from an offset on. -/
def overwrite (data new : ByteArray) (offset : Nat) : ByteArray :=
  new.copySlice 0 data offset new.size

end SourceStepper.Evm
