import SourceStepper.Opcode
import SourceStepper.Text.Hex

/-!
Hexadecimal text cut into one group for each instruction. Any text is accepted: it is cut every two
bytes, and a piece that is not the number of a byte stands for an instruction without data.
-/
namespace SourceStepper.Groups

/-- The pieces of two bytes of a text, the last of which may be one byte. A character that a cut
breaks up is replaced. -/
def pieces : List UInt8 → List (List Char)
  | a :: b :: rest => Text.lossy [a, b] :: pieces rest
  | [a] => [Text.lossy [a]]
  | [] => []

def readHex? (digits : List Char) : Option Nat :=
  if digits.isEmpty then none
  else digits.foldl (fun n c => do return (← n) * 16 + (← Text.hexValue? c)) (some 0)

/-- The byte that a piece stands for; a `+` may stand in front of its digits. -/
def pieceByte? (piece : List Char) : Option UInt8 :=
  (match piece with
    | '+' :: digits => readHex? digits
    | digits => readHex? digits).map UInt8.ofNat

/-- How many pieces the instruction that starts with a piece takes up. -/
def width (piece : List Char) : Nat :=
  match pieceByte? piece with
  | some b => 1 + Opcode.immediateSize b
  | none => 1

/-- The groups that pieces have been put into, the last first, and how many more pieces belong to
the last one. -/
@[ext] structure Cut where
  groups : List (List Char) := []
  remaining : Nat := 0
  deriving DecidableEq, Repr

/-- A piece belongs to the last group as long as that waits for more, and starts a group of its
own else. -/
def Cut.add : Cut → List Char → Cut
  | ⟨last :: earlier, remaining + 1⟩, piece => ⟨(last ++ piece) :: earlier, remaining⟩
  | ⟨groups, _⟩, piece => ⟨piece :: groups, width piece - 1⟩

/-- Pieces put together, one group for each instruction; the last group may be shorter than its
instruction declares. -/
def group (pieces : List (List Char)) : List (List Char) := (pieces.foldl Cut.add {}).groups.reverse

def ofHex (text : List Char) : List (List Char) :=
  group (pieces (Text.utf8 (Text.dropHexMark text)))

end SourceStepper.Groups
