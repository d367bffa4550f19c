import SourceStepper.Json.Number
import SourceStepper.Text.Hex

namespace SourceStepper.Json

inductive Token
  | openArray
  | closeArray
  | openObject
  | closeObject
  | comma
  | colon
  | text (s : String)
  | number (n : Number)
  | bool (b : Bool)
  | null
  deriving DecidableEq, Repr

namespace Token

/-- Split behind the opening quote of a string: what stands up to its closing quote, and what
follows. Control characters do not belong into a string. -/
def cutString? : List Char → Option (List Char × List Char)
  | [] => none
  | '"' :: rest => some ([], rest)
  | '\\' :: c :: rest => (cutString? rest).map fun (body, tail) => ('\\' :: c :: body, tail)
  | c :: rest =>
    if c.toNat < 0x20 then none else (cutString? rest).map fun (body, tail) => (c :: body, tail)

theorem length_cutString? {cs body tail : List Char} (h : cutString? cs = some (body, tail)) :
    tail.length < cs.length := by
  fun_induction cutString? cs generalizing body tail with
  | case1 => simp at h
  | case2 rest => simp_all
  | case3 c rest ih =>
    obtain ⟨⟨inner, rest'⟩, hx, heq⟩ := Option.map_eq_some_iff.1 h
    have := ih hx
    simp only [Prod.mk.injEq] at heq
    rw [← heq.2]
    simp; omega
  | case4 => simp at h
  | case5 c rest _ _ _ ih =>
    obtain ⟨⟨inner, rest'⟩, hx, heq⟩ := Option.map_eq_some_iff.1 h
    have := ih hx
    simp only [Prod.mk.injEq] at heq
    rw [← heq.2]
    simp; omega

def escaped? : Char → Option Char
  | '"' => some '"'
  | '\\' => some '\\'
  | '/' => some '/'
  | 'b' => some '\x08'
  | 'f' => some '\x0c'
  | 'n' => some '\n'
  | 'r' => some '\r'
  | 't' => some '\t'
  | _ => none

/-- The numbers that the characters and escapes between the quotes of a string stand for: code
points, or halves of a surrogate pair. -/
def units? : List Char → Option (List Nat)
  | [] => some []
  | '\\' :: 'u' :: a :: b :: c :: d :: rest => do
    let unit := (← Text.hexValue? a) * 4096 + (← Text.hexValue? b) * 256 +
      (← Text.hexValue? c) * 16 + (← Text.hexValue? d)
    return unit :: (← units? rest)
  | '\\' :: c :: rest => do return (← escaped? c).toNat :: (← units? rest)
  | c :: rest => do return c.toNat :: (← units? rest)

def isHigh (n : Nat) : Bool := 0xD800 ≤ n && n < 0xDC00

def isLow (n : Nat) : Bool := 0xDC00 ≤ n && n < 0xE000

/-- The characters of code points and surrogate pairs. Half a pair is refused. -/
def joinUnits? : List Nat → Option (List Char)
  | [] => some []
  | [n] => if isHigh n || isLow n then none else some [Char.ofNat n]
  | n :: m :: rest =>
    if isHigh n then
      if isLow m then do
        return Char.ofNat (0x10000 + (n - 0xD800) * 0x400 + (m - 0xDC00)) :: (← joinUnits? rest)
      else none
    else if isLow n then none
    else do return Char.ofNat n :: (← joinUnits? (m :: rest))

def unquote? (body : List Char) : Option String := do
  return String.ofList (← joinUnits? (← units? body))

def isSpace (c : Char) : Bool := c = ' ' || c = '\n' || c = '\r' || c = '\t'

def isNumeric (c : Char) : Bool := c.isDigit || c = '+' || c = '-' || c = '.' || c = 'e' || c = 'E'

def ofChar? : Char → Option Token
  | '[' => some openArray
  | ']' => some closeArray
  | '{' => some openObject
  | '}' => some closeObject
  | ',' => some comma
  | ':' => some colon
  | _ => none

def ofWord? (word : List Char) : Option Token :=
  if word = "null".toList then some null
  else if word = "true".toList then some (bool true)
  else if word = "false".toList then some (bool false)
  else none

/-- The tokens of a text. Numbers and words extend as far as their characters do. -/
def all? (cs : List Char) : Option (List Token) :=
  match cs with
  | [] => some []
  | c :: rest =>
    if isSpace c then all? rest
    else if c = '"' then
      match _cut : cutString? rest with
      | some (body, tail) => do return text (← unquote? body) :: (← all? tail)
      | none => none
    else if c.isDigit || c = '-' then do
      let n ← Number.ofText? (c :: rest.takeWhile isNumeric)
      return number n :: (← all? (rest.dropWhile isNumeric))
    else if c.isLower then do
      let word ← ofWord? (c :: rest.takeWhile Char.isLower)
      return word :: (← all? (rest.dropWhile Char.isLower))
    else do return (← ofChar? c) :: (← all? rest)
termination_by cs.length
decreasing_by
  · simp
  · simp [Nat.lt_succ_of_lt (length_cutString? _cut)]
  · simpa using Nat.lt_succ_of_le (List.dropWhile_suffix _).length_le
  · simpa using Nat.lt_succ_of_le (List.dropWhile_suffix _).length_le
  · simp

end Token

end SourceStepper.Json
