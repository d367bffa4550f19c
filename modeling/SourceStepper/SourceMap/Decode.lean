import SourceStepper.SourceMap.Element
import SourceStepper.Text.Blank
import SourceStepper.Text.Numeral
import SourceStepper.Text.Split

/-!
Reading compressed source maps. Segments stand between semicolons and fields between colons; a
blank or missing field keeps the value that it had in the segment before.
-/
namespace SourceStepper.SourceMap

inductive Field
  | offset
  | length
  | fileIndex
  | jump
  | modifierDepth
  deriving DecidableEq, Repr

namespace Field

def all : List Field := [.offset, .length, .fileIndex, .jump, .modifierDepth]

def name : Field → String
  | .offset => "offset"
  | .length => "length"
  | .fileIndex => "file index"
  | .jump => "jump"
  | .modifierDepth => "modifier depth"

end Field

structure DecodeError where
  segment : Nat
  field : Field
  value : String
  deriving DecidableEq, Repr

def DecodeError.message (e : DecodeError) : String :=
  s!"invalid {e.field.name} `{e.value}` in source map segment {e.segment}"

/-- Store the trimmed text of a field in an element; `none` if it should be a number and is none.
Negative offsets, lengths and depths count as zero, and a negative file index as no file. -/
def Element.set? (e : Element) (field : Field) (text : List Char) : Option Element :=
  match field with
  | .offset => (Text.readInt? text).map fun n : Int => { e with offset := n.toNat }
  | .length => (Text.readInt? text).map fun n : Int => { e with length := n.toNat }
  | .fileIndex =>
    (Text.readInt? text).map fun n : Int =>
      { e with fileIndex := if n < 0 then none else some n.toNat }
  | .jump => some { e with jump := Jump.ofMarker (String.ofList text) }
  | .modifierDepth => (Text.readInt? text).map fun n : Int => { e with modifierDepth := n.toNat }

def Element.update (segment : Nat) (e : Element) :
    List (Field × List Char) → Except DecodeError Element
  | [] => .ok e
  | (field, text) :: rest =>
    let value := Text.trim text
    if value.isEmpty then e.update segment rest
    else
      match e.set? field value with
      | some e => e.update segment rest
      | none => .error ⟨segment, field, String.ofList value⟩

/-- The elements of the segments from number `segment` on, where `e` came before them. -/
def decodeFrom (segment : Nat) (e : Element) : List (List Char) → Except DecodeError (List Element)
  | [] => .ok []
  | text :: rest => do
    let e ← e.update segment (Field.all.zip (Text.fields ':' text))
    let tail ← decodeFrom (segment + 1) e rest
    return e :: tail

def decode (raw : String) : Except DecodeError (List Element) :=
  decodeFrom 0 {} (Text.fields ';' raw.toList)

/-- A source map in which every element is written out. -/
def encode (elements : List Element) : String :=
  String.intercalate ";" (elements.map Element.text)

end SourceStepper.SourceMap
