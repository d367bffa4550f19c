import SourceStepper.Toml.Text
import SourceStepper.Toml.Value

/-!
Reading settings files: lines of the form `key = value`, and headings that name the table to which
the lines below them belong. A text is accepted or refused as a whole.
-/
namespace SourceStepper.Toml

/-- What follows the comment at the front of a text, if one is there. -/
def dropComment? (cs : List Char) : Option (List Char) :=
  match cs with
  | '#' :: rest =>
    let tail := rest.dropWhile isInLine
    if tail.isEmpty || (dropLineEnd? tail).isSome then some tail else none
  | _ => some cs

def endLine? (cs : List Char) : Option (List Char) := do
  let tail ← dropComment? (cs.dropWhile isSpace)
  if tail.isEmpty then some [] else dropLineEnd? tail

/-- What follows blanks, line ends and comments. The fuel bounds the number of lines. -/
def skip? : Nat → List Char → Option (List Char)
  | 0, _ => none
  | fuel + 1, cs => do
    let tail ← dropComment? (cs.dropWhile isSpace)
    match dropLineEnd? tail with
    | some rest => skip? fuel rest
    | none => some tail

/-! ### Keys -/

def isBareKey (c : Char) : Bool := c.isAlphanum || c = '_' || c = '-'

def readSimpleKey? (cs : List Char) : Option (String × List Char) :=
  let bare := cs.takeWhile isBareKey
  if bare.isEmpty then readText?.readShort? cs
  else some (String.ofList bare, cs.dropWhile isBareKey)

/-- A key of one or more parts with dots between them, and the blanks behind it. -/
def readKey? : Nat → List Char → Option (List String × List Char)
  | 0, _ => none
  | fuel + 1, cs => do
    let (name, rest) ← readSimpleKey? (cs.dropWhile isSpace)
    match rest.dropWhile isSpace with
    | '.' :: rest => (readKey? fuel rest).map fun (path, tail) => (name :: path, tail)
    | tail => some ([name], tail)

/-! ### Values -/

def isBareValue (c : Char) : Bool :=
  c.isAlphanum || c = '_' || c = '+' || c = '-' || c = '.' || c = ':'

/-- A value without quotes. A blank can stand between a date and a time. -/
def readBare? (cs : List Char) : Option (Value × List Char) :=
  let front := cs.takeWhile isBareValue
  let rest := cs.dropWhile isBareValue
  match dropDate? front, rest with
  | some [], ' ' :: c :: tail =>
    if c.isDigit then
      let time := (c :: tail).takeWhile isBareValue
      (Value.ofBare? (front ++ ' ' :: time)).map (·, (c :: tail).dropWhile isBareValue)
    else (Value.ofBare? front).map (·, rest)
  | _, _ => (Value.ofBare? front).map (·, rest)

def maxDepth : Nat := 80

mutual

/-- A value. At least every second step takes a character, and `fuel` bounds the number of steps;
`depth` bounds how deep arrays and tables are. -/
def readValue? (fuel depth : Nat) (cs : List Char) : Option (Value × List Char) :=
  match fuel, depth, cs with
  | 0, _, _ => none
  | _, 0, '[' :: _ => none
  | _, 0, '{' :: _ => none
  | fuel + 1, depth + 1, '[' :: rest => readItems? fuel depth [] rest
  | fuel + 1, depth + 1, '{' :: rest => readMembers? fuel depth [] rest
  | _, _, '"' :: rest => (readText? ('"' :: rest)).map fun (s, tail) => (.text s, tail)
  | _, _, '\'' :: rest => (readText? ('\'' :: rest)).map fun (s, tail) => (.text s, tail)
  | _, _, cs => readBare? cs

/-- The items of an array behind those that have been read, the last first, up to its end. -/
def readItems? (fuel depth : Nat) (items : List Value) (cs : List Char) :
    Option (Value × List Char) :=
  match fuel with
  | 0 => none
  | fuel + 1 => do
    match ← skip? (cs.length + 1) cs with
    | ']' :: rest => some (.array items.reverse, rest)
    | cs =>
      let (v, rest) ← readValue? fuel depth cs
      match ← skip? (rest.length + 1) rest with
      | ',' :: rest => readItems? fuel depth (v :: items) rest
      | ']' :: rest => some (.array (v :: items).reverse, rest)
      | _ => none

def readMembers? (fuel depth : Nat) (entries : Entries) (cs : List Char) :
    Option (Value × List Char) :=
  match fuel with
  | 0 => none
  | fuel + 1 => do
    match ← skip? (cs.length + 1) cs with
    | '}' :: rest => some (.table .braces entries, rest)
    | cs =>
      let (path, rest) ← readKey? (cs.length + 1) cs
      let (v, rest) ← readValue? fuel depth ((← dropMark? '=' rest).dropWhile isSpace)
      let entries ← entries.assign? v true path
      match ← skip? (rest.length + 1) rest with
      | ',' :: rest => readMembers? fuel depth entries rest
      | '}' :: rest => some (.table .braces entries, rest)
      | _ => none

end

/-! ### Lines -/

structure Document where
  entries : Entries := []
  /-- The table that the last heading has named. -/
  heading : List String := []
  deriving Repr

namespace Document

def readLine? (d : Document) : List Char → Option (Document × List Char)
  | '[' :: '[' :: cs => do
    let (path, rest) ← readKey? (cs.length + 1) cs
    let rest ← dropMark? ']' (← dropMark? ']' rest)
    return (⟨← d.entries.pushTable? path, path⟩, rest)
  | '[' :: cs => do
    let (path, rest) ← readKey? (cs.length + 1) cs
    return (⟨← d.entries.openTable? path, path⟩, ← dropMark? ']' rest)
  | cs => do
    let (path, rest) ← readKey? (cs.length + 1) cs
    let value := (← dropMark? '=' rest).dropWhile isSpace
    let (v, rest) ← readValue? (2 * value.length + 2) maxDepth value
    return ({ d with entries := ← d.entries.within? (·.assign? v true path) d.heading }, rest)

def readLines? : Nat → Document → List Char → Option Document
  | 0, _, _ => none
  | fuel + 1, d, cs =>
    match endLine? cs with
    | some [] => some d
    | some rest => readLines? fuel d rest
    | none => do
      let (d, rest) ← d.readLine? (cs.dropWhile isSpace)
      match ← endLine? rest with
      | [] => some d
      | rest => readLines? fuel d rest

end Document

/-- The entries that a text describes. A byte order mark in front of it does not belong to it. -/
def ofText? (s : String) : Option Entries :=
  let cs := match s.toList with
    | '\uFEFF' :: rest => rest
    | cs => cs
  (Document.readLines? (cs.length + 1) {} cs).map (·.entries)

end SourceStepper.Toml
