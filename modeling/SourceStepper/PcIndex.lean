import SourceStepper.Disassembly.Groups
import SourceStepper.SourceMap.Element

namespace SourceStepper

open SourceMap (Element)

/-- The elements of the mapped instructions, by the program counter where each starts, in
increasing order. -/
structure PcIndex where
  entries : List (Nat × Element)
  deriving DecidableEq, Repr

namespace PcIndex

/-- How many bytes of code a group stands for: half of its UTF-8 bytes. -/
def groupWidth (group : List Char) : Nat := (Text.utf8 group).length / 2

/-- Elements and instruction groups from `pc` on, taken together as far as both go. -/
def buildFrom (pc : Nat) : List Element → List (List Char) → List (Nat × Element)
  | e :: elements, g :: groups => (pc, e) :: buildFrom (pc + groupWidth g) elements groups
  | _, _ => []

def build (elements : List Element) (groups : List (List Char)) : PcIndex :=
  ⟨buildFrom 0 elements groups⟩

def lookup (index : PcIndex) (pc : Nat) : Option Element := index.entries.lookup pc

def pcs (index : PcIndex) : List Nat := index.entries.map Prod.fst

def size (index : PcIndex) : Nat := index.entries.length

def isEmpty (index : PcIndex) : Bool := index.entries.isEmpty

end PcIndex

end SourceStepper
