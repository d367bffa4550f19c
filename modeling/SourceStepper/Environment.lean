import SourceStepper.OrderedMap
import SourceStepper.Text.Blank
import SourceStepper.Text.Utf8

/-!
Environment variables, and files that add some. Such a file has lines of the form `key = value`.
Single quotes keep everything as it is; otherwise a backslash keeps the next character, and `$name`
or `${name}` stands for the value of a variable. Variables that are there already win.
-/
namespace SourceStepper

abbrev Environment := OrderedMap String String

namespace Environment

/-! ### Lines

A quote that is open at the end of a line joins the next line to it. -/

inductive Quoting
  | plain
  | escape
  | single
  | singleEscape
  | double
  | doubleEscape
  /-- Behind a blank, where a comment can start. -/
  | blank
  deriving DecidableEq, Repr

def Quoting.opened (c : Char) : Quoting :=
  if c = '\\' then .escape else if c = '"' then .double else if c = '\'' then .single else .plain

def Quoting.next (q : Quoting) (c : Char) : Quoting :=
  match q with
  | .blank => opened c
  | .plain => if Text.isBlank c && c ≠ '\n' && c ≠ '\r' then .blank else opened c
  | .escape => .plain
  | .double => if c = '\\' then .doubleEscape else if c = '"' then .plain else .double
  | .doubleEscape => .double
  | .single => if c = '\\' then .singleEscape else if c = '\'' then .plain else .single
  | .singleEscape => .single

def upToComment (q : Quoting) : List Char → List Char × Quoting
  | [] => ([], q)
  | c :: rest =>
    if q = .blank && c = '#' then ([], .plain)
    else
      let (kept, last) := upToComment (q.next c) rest
      (c :: kept, last)

/-- The bytes of a file cut behind every line feed. -/
def byteLines : List UInt8 → List (List UInt8)
  | [] => []
  | b :: rest =>
    if b = 0x0A then [b] :: byteLines rest
    else
      match byteLines rest with
      | [] => [[b]]
      | line :: lines => (b :: line) :: lines

/-- Lines with those joined that belong together. The list ends with `none` where a line is no text
or something stays open. -/
def joined (front : List Char) (q : Quoting) : List (Option String) → List (Option (List Char))
  | [] => if q = .plain then [] else [none]
  | none :: _ => [none]
  | some line :: rest =>
    if front.isEmpty && (Text.trimStart line.toList).head? = some '#' then joined [] .plain rest
    else
      let (kept, last) := upToComment q line.toList
      if last = .plain then some (front ++ kept) :: joined [] .plain rest
      else joined (front ++ kept) last rest

/-! ### Values -/

def isNameChar (c : Char) : Bool :=
  let n := c.toNat
  c.isAlphanum || (0xC0 ≤ n && n < 0x2000 && n ≠ 0xD7 && n ≠ 0xF7) || (0x3040 ≤ n && n < 0xD800)

/-- What the next character of a value belongs to. -/
inductive ValuePart
  | text
  | escaped
  /-- A text between single quotes. -/
  | single
  /-- A name behind `$`, the last character first. -/
  | name (cs : List Char)
  /-- A name between braces, the last character first. -/
  | braced (cs : List Char)
  /-- Nothing but blanks and a comment. -/
  | done
  | comment
  deriving DecidableEq, Repr

structure ValueReader where
  /-- The characters of the value, the last first. -/
  output : List Char := []
  double : Bool := false
  part : ValuePart := .text
  deriving DecidableEq, Repr

namespace ValueReader

def push (r : ValueReader) (c : Char) : ValueReader :=
  { r with output := c :: r.output, part := .text }

/-- The value with the value of a variable, of which the name is given from its end. -/
def pushVariable (env : Environment) (r : ValueReader) (name : List Char) : ValueReader :=
  let value := (env.get? (String.ofList name.reverse)).getD ""
  { r with output := value.toList.reverse ++ r.output, part := .text }

/-- A character outside of single quotes and names. -/
def readText (r : ValueReader) (c : Char) : ValueReader :=
  if c = '$' then { r with part := .name [] }
  else if c = '\\' then { r with part := .escaped }
  else if c = '"' then { r with double := !r.double }
  else if !r.double && c = '\'' then { r with part := .single }
  else if !r.double && (c = ' ' || c = '\t') then { r with part := .done }
  else r.push c

def next? (env : Environment) (r : ValueReader) (c : Char) : Option ValueReader :=
  match r.part with
  | .text => some (r.readText c)
  | .escaped =>
    if c = 'n' then some (r.push '\n')
    else if c = '\\' || c = '\'' || c = '"' || c = '$' || c = ' ' then some (r.push c)
    else none
  | .single =>
    some (if c = '\'' then { r with part := .text }
      else { r with output := c :: r.output })
  | .name cs =>
    if isNameChar c then some { r with part := .name (c :: cs) }
    else if c = '\x7b' && cs.isEmpty then some { r with part := .braced [] }
    else
      let r := r.pushVariable env cs
      some (if c = '$' then { r with part := .name [] } else r.push c)
  | .braced cs =>
    some (if c = '\x7d' then r.pushVariable env cs else { r with part := .braced (c :: cs) })
  | .done =>
    if c = ' ' || c = '\t' then some r
    else if c = '#' then some { r with part := .comment }
    else none
  | .comment => some r

def value? (env : Environment) (r : ValueReader) : Option String :=
  if r.double then none
  else
    match r.part with
    | .single | .braced _ => none
    | .name cs => some (String.ofList (r.pushVariable env cs).output.reverse)
    | _ => some (String.ofList r.output.reverse)

end ValueReader

def readValue? (env : Environment) (cs : List Char) : Option String :=
  if cs.head? = some '#' then some ""
  else (cs.foldlM (ValueReader.next? env) {}).bind (·.value? env)

/-! ### Entries -/

def readKey? (cs : List Char) : Option (String × List Char) :=
  let isKeyChar (c : Char) : Bool := c.isAlphanum || c = '_' || c = '.'
  match cs with
  | c :: _ =>
    if c.isAlpha || c = '_' then
      some (String.ofList (cs.takeWhile isKeyChar), Text.trimStart (cs.dropWhile isKeyChar))
    else none
  | [] => none

/-- The variables after a line has been read; `none` if the line is malformed. In front of the key,
the word `export` can stand. -/
def readLine? (env : Environment) (line : List Char) : Option Environment :=
  match Text.trim line with
  | [] => some env
  | '#' :: _ => some env
  | cs => do
    let (first, rest) ← readKey? cs
    let (key, rest) ← if first = "export" && rest.head? ≠ some '=' then readKey? rest
      else some (first, rest)
    match rest with
    | '=' :: rest =>
      let value ← readValue? env (Text.trimStart rest)
      return if (env.get? key).isSome then env else env.insert key value
    | _ => none

/-- The variables after lines have been read, up to the first one that is malformed. -/
def readLines (env : Environment) : List (Option (List Char)) → Environment
  | some line :: rest =>
    match env.readLine? line with
    | some env => env.readLines rest
    | none => env
  | _ => env

def dropMark : List UInt8 → List UInt8
  | 0xEF :: 0xBB :: 0xBF :: rest => rest
  | bytes => bytes

def load (env : Environment) (content : ByteArray) : Environment :=
  let lines := (byteLines (dropMark content.toList)).map fun line => Text.strict? ⟨line.toArray⟩
  env.readLines (joined [] .plain lines)

/-- The words of a text that can be names of variables: the runs of letters and digits, and those
with `_` and `.` in them. -/
def mentioned (text : String) : List String :=
  let wordsOf (isIn : Char → Bool) :=
    (Text.words (text.toList.map fun c => if isIn c then c else ' ')).map String.ofList
  wordsOf isNameChar ++ wordsOf fun c => isNameChar c || c = '_' || c = '.'

def fileName : String := ".env"

end Environment

end SourceStepper
