import SourceStepper.Opcode
import SourceStepper.Text.Hex

/-!
Bytecode as a list of instructions with their places. A last PUSH with fewer bytes than it declares
is kept as a shorter instruction, neither filled up nor dropped.
-/
namespace SourceStepper

structure Instruction where
  pc : Nat
  opcode : Opcode
  pushData : List UInt8 := []
  deriving DecidableEq, Repr

namespace Instruction

def size (i : Instruction) : Nat := 1 + i.pushData.length

def pushSize (i : Instruction) : Nat := i.opcode.immediateSize

/-- Whether the bytecode ended before all declared immediate bytes. -/
def isTruncated (i : Instruction) : Bool := i.pushData.length < i.pushSize

def bytes (i : Instruction) : List UInt8 := i.opcode :: i.pushData

/-- What the opcode is called; a byte that is no opcode shows its value. -/
def mnemonic (i : Instruction) : String :=
  match i.opcode.name? with
  | some name => name
  | none => s!"'{String.ofList (Text.hexNat i.opcode.toNat)}'(Unknown Opcode)"

def text (i : Instruction) : String :=
  if i.opcode.isPush && !i.pushData.isEmpty then s!"{i.mnemonic} 0x{Text.hex i.pushData}"
  else i.mnemonic

/-- The instruction as a line of a listing, with its place in at least four digits in front. -/
def placedText (i : Instruction) : String :=
  s!"{String.ofList (Text.padZero 4 (Text.hexNat i.pc))}: {i.text}"

end Instruction

def disassembleFrom (pc : Nat) : List UInt8 → List Instruction
  | [] => []
  | opcode :: rest =>
    let data := rest.take (Opcode.immediateSize opcode)
    ⟨pc, opcode, data⟩ ::
      disassembleFrom (pc + 1 + data.length) (rest.drop (Opcode.immediateSize opcode))
termination_by bytes => bytes.length
decreasing_by simp only [List.length_drop, List.length_cons]; omega

structure Disassembly where
  bytecode : List UInt8
  instructions : List Instruction
  deriving Repr

namespace Disassembly

def ofBytes (bytecode : List UInt8) : Disassembly := ⟨bytecode, disassembleFrom 0 bytecode⟩

/-- What a search among instructions comes to. -/
inductive Search
  /-- An instruction starts at the program counter, and this is its place. -/
  | found (place : Nat)
  /-- No instruction starts there; one would have to be put in at this place. -/
  | missing (place : Nat)
  deriving DecidableEq, Repr

/-- Search for the instruction that starts at `pc`, by halving, among those from place `low` on and
in front of place `high`. -/
def searchBetween (d : Disassembly) (pc low high : Nat) (within : high ≤ d.instructions.length) :
    Search :=
  if h : low < high then
    let middle := (low + high) / 2
    have bound : middle < d.instructions.length := by omega
    let start := d.instructions[middle].pc
    if start = pc then .found middle
    else if start < pc then d.searchBetween pc (middle + 1) high within
    else d.searchBetween pc low middle (by omega)
  else .missing low
termination_by high - low

def search (d : Disassembly) (pc : Nat) : Search :=
  d.searchBetween pc 0 d.instructions.length (Nat.le_refl _)

def at? (d : Disassembly) (pc : Nat) : Option Instruction :=
  match d.search pc with
  | .found place => d.instructions[place]?
  | .missing _ => none

/-- The instruction on one of whose bytes a program counter lies: the last one that starts at the
program counter or in front of it, if it reaches that far. -/
def containing? (d : Disassembly) (pc : Nat) : Option Instruction :=
  let place? := match d.search pc with
    | .found place => some place
    | .missing 0 => none
    | .missing (next + 1) => some next
  (place?.bind fun place => d.instructions[place]?).filter fun i => pc < i.pc + i.size

end Disassembly

end SourceStepper
