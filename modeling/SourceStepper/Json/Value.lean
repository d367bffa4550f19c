import SourceStepper.Json.Token
import SourceStepper.OrderedMap

namespace SourceStepper.Json

/-- A JSON value. The members of an object stand in the order of the text, and a key may occur more
than once. -/
inductive Value
  | null
  | bool (b : Bool)
  | number (n : Number)
  | text (s : String)
  | array (items : List Value)
  | object (members : List (String × Value))
  deriving Repr

namespace Value

/-- The members of an object by key; of several members with one key the last counts. -/
def members? : Value → Option (OrderedMap String Value)
  | object members => some (OrderedMap.ofList members)
  | _ => none

def get? (v : Value) (key : String) : Option Value := v.members?.bind (·.get? key)

def text? : Value → Option String
  | text s => some s
  | _ => none

end Value

/-- A container that is still open, with what it holds so far, the last first. -/
inductive Opened
  | array (items : List Value)
  | object (members : List (String × Value))
  /-- The value of a key is missing. -/
  | member (members : List (String × Value)) (key : String)
  deriving Repr

inductive Expected
  | value
  /-- A value, or the end of an array that has just been opened. -/
  | firstItem
  | key
  /-- A key, or the end of an object that has just been opened. -/
  | firstKey
  | colon (key : String)
  /-- A value has been read; a comma, the end of a container or of the text follows. -/
  | afterValue (v : Value)
  deriving Repr

structure Place where
  opened : List Opened := []
  expected : Expected := .value
  deriving Repr

namespace Place

def maxDepth : Nat := 127

def enter? (p : Place) (container : Opened) (expected : Expected) : Option Place :=
  if p.opened.length < maxDepth then some ⟨container :: p.opened, expected⟩ else none

def begin? (p : Place) : Token → Option Place
  | .openArray => p.enter? (.array []) .firstItem
  | .openObject => p.enter? (.object []) .firstKey
  | .text s => some { p with expected := .afterValue (.text s) }
  | .number n => some { p with expected := .afterValue (.number n) }
  | .bool b => some { p with expected := .afterValue (.bool b) }
  | .null => some { p with expected := .afterValue .null }
  | _ => none

def next? (p : Place) (t : Token) : Option Place :=
  match p.expected, t, p.opened with
  | .value, t, _ => p.begin? t
  | .firstItem, .closeArray, _ :: outer => some ⟨outer, .afterValue (.array [])⟩
  | .firstItem, t, _ => p.begin? t
  | .firstKey, .closeObject, _ :: outer => some ⟨outer, .afterValue (.object [])⟩
  | .firstKey, .text key, _ => some { p with expected := .colon key }
  | .key, .text key, _ => some { p with expected := .colon key }
  | .colon key, .colon, .object members :: outer => some ⟨.member members key :: outer, .value⟩
  | .afterValue v, .comma, .array items :: outer => some ⟨.array (v :: items) :: outer, .value⟩
  | .afterValue v, .comma, .member members key :: outer =>
    some ⟨.object ((key, v) :: members) :: outer, .key⟩
  | .afterValue v, .closeArray, .array items :: outer =>
    some ⟨outer, .afterValue (.array (v :: items).reverse)⟩
  | .afterValue v, .closeObject, .member members key :: outer =>
    some ⟨outer, .afterValue (.object ((key, v) :: members).reverse)⟩
  | _, _, _ => none

def value? (p : Place) : Option Value :=
  match p with
  | ⟨[], .afterValue v⟩ => some v
  | _ => none

end Place

def Value.ofText? (s : String) : Option Value := do
  let tokens ← Token.all? s.toList
  (← tokens.foldlM Place.next? {}).value?

end SourceStepper.Json
