import SourceStepper.Disassembly

/-!
Code in the form in which it is executed. It ends with at least one `STOP`, so that execution cannot
run off its end.
-/
namespace SourceStepper.Evm

structure Code where
  stored : ByteArray
  /-- The code with what execution needs behind it. -/
  padded : ByteArray
  /-- The places that can be jumped to. -/
  targets : List Nat

namespace Code

/-- Whether an opcode has an operand byte behind it that is not part of its immediate data. -/
def hasOperand (op : Opcode) : Bool := op = 0xE6 || op = 0xE7 || op = 0xE8

/-- How many `STOP`s belong behind the last instruction, which `previous` stands in front of. -/
def stops (previous : Option Instruction) (last : Instruction) : Nat :=
  if last.opcode = 0x00 then
    if (previous.map fun i => hasOperand i.opcode).getD false then 1 else 0
  else if hasOperand last.opcode then 2
  else 1

/-- How many zero bytes belong behind code: what the last instruction lacks of its data, and the
`STOP`s behind it. -/
def padding (instructions : List Instruction) : Nat :=
  match instructions.reverse with
  | [] => 1
  | last :: before => (last.pushSize - last.pushData.length) + stops before.head? last

def ofBytes (bytes : ByteArray) : Code :=
  let instructions := disassembleFrom 0 bytes.toList
  { stored := bytes
    padded := bytes ++ ⟨Array.replicate (padding instructions) 0⟩
    targets := (instructions.filter fun i => i.opcode.isJumpdest).map (·.pc) }

def byte (c : Code) (pc : Nat) : UInt8 := c.padded[pc]?.getD 0

end Code

end SourceStepper.Evm
