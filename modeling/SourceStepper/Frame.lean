import SourceStepper.Text.Hex

namespace SourceStepper

structure NamedValue where
  name : String
  type : String
  value : String
  deriving DecidableEq, Repr

def NamedValue.text (v : NamedValue) : String := s!"{v.name}: {v.type} = {v.value}"

structure Frame where
  /-- The source file, within the project; none if no source has been found. -/
  file : Option String := none
  line : Nat := 0
  /-- The byte of the line at which the executing range starts. -/
  column : Nat := 0
  pc : Nat := 0
  opcode : String
  values : List NamedValue := []
  deriving DecidableEq, Repr

def hexNumber (n : Nat) : String := s!"0x{String.ofList (Text.hexNat n)}"

def Frame.text (f : Frame) : String :=
  let place := match f.file with
    | some file => s!"{file}:{f.line}:{f.column}"
    | none => s!"<unknown>:{f.line}"
  s!"{place} (pc {hexNumber f.pc} {f.opcode})"

/-- Bytes as text, without the zero bytes. No bytes at all show as one space. -/
def readableText (bytes : List UInt8) : String :=
  if bytes.isEmpty then " " else String.ofList (Text.lossy (bytes.filter (· ≠ 0)))

/-- The bytes of a memory word: 32, filled up with zeros. -/
def memoryWord (bytes : List UInt8) : List UInt8 :=
  bytes.take 32 ++ List.replicate (32 - bytes.length) 0

def memoryValuesFrom (index : Nat) (memory : List UInt8) : List NamedValue :=
  match memory with
  | [] => []
  | b :: rest =>
    let word := memoryWord (b :: rest)
    ⟨s!"memory[{index}]", "bytes32", s!"0x{Text.hex word} {readableText word}"⟩ ::
      memoryValuesFrom (index + 1) (rest.drop 31)
termination_by memory.length
decreasing_by simp only [List.length_drop, List.length_cons]; omega

def memoryValues (memory : List UInt8) : List NamedValue := memoryValuesFrom 0 memory

/-- The values on an operand stack, from the top on. -/
def stackValues (stack : List Nat) : List NamedValue :=
  stack.mapIdx fun depth item => ⟨s!"stack[{depth}]", "uint256", hexNumber item⟩

end SourceStepper
