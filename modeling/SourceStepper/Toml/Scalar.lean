import SourceStepper.Text.Hex

/-!
Values in settings files that are written without quotes: truth values, whole numbers, floating
point numbers, dates and times. A value is read as a whole, and at most one reading applies.
-/
namespace SourceStepper.Toml

/-- The digits of a number, of which any two neighbours can have one `_` between them. There is at
least one. -/
def digits? (isDigit : Char → Bool) : List Char → Option (List Char)
  | [] => none
  | [c] => if isDigit c then some [c] else none
  | c :: '_' :: rest => if isDigit c then (digits? isDigit rest).map (c :: ·) else none
  | c :: rest => if isDigit c then (digits? isDigit rest).map (c :: ·) else none

def valueOf (base : Nat) (digits : List Char) : Nat :=
  digits.foldl (fun n c => n * base + (Text.hexValue? c).getD 0) 0

def readBased? (base : Nat) (cs : List Char) : Option Nat :=
  (digits? (fun c => (Text.hexValue? c).any (· < base)) cs).map (valueOf base)

/-- The digits of a decimal number, which has no needless zero in front. -/
def wholeDigits? (cs : List Char) : Option (List Char) := do
  let digits ← digits? Char.isDigit cs
  if digits.head? = some '0' && 1 < digits.length then none else some digits

def dropSign (cs : List Char) : Bool × List Char :=
  match cs with
  | '-' :: rest => (true, rest)
  | '+' :: rest => (false, rest)
  | _ => (false, cs)

def readInteger? (cs : List Char) : Option Int :=
  match cs with
  | '0' :: 'x' :: rest => (readBased? 16 rest).map Int.ofNat
  | '0' :: 'o' :: rest => (readBased? 8 rest).map Int.ofNat
  | '0' :: 'b' :: rest => (readBased? 2 rest).map Int.ofNat
  | _ => do
    let (negative, rest) := dropSign cs
    let n := valueOf 10 (← wholeDigits? rest)
    return if negative then -(n : Int) else n

def isInRange (n : Int) : Bool := -(1 <<< 127 : Nat) ≤ n && n < (1 <<< 128 : Nat)

/-- A digit or the mark between digits. -/
def isDigitOrMark (c : Char) : Bool := c.isDigit || c = '_'

/-- The exponent at the end of a floating point number; without one it is zero. -/
def readExponent? : List Char → Option Int
  | [] => some 0
  | e :: cs => do
    if e ≠ 'e' && e ≠ 'E' then none
    let (negative, rest) := dropSign cs
    let n := valueOf 10 (← digits? Char.isDigit rest)
    return if negative then -(n : Int) else n

def readDecimal? (cs : List Char) : Option (Nat × Int) := do
  let whole ← wholeDigits? (cs.takeWhile isDigitOrMark)
  match cs.dropWhile isDigitOrMark with
  | [] => none
  | '.' :: rest =>
    let fraction ← digits? Char.isDigit (rest.takeWhile isDigitOrMark)
    let exponent ← readExponent? (rest.dropWhile isDigitOrMark)
    return (valueOf 10 (whole ++ fraction), exponent - fraction.length)
  | rest => return (valueOf 10 whole, ← readExponent? rest)

/-- Whether `n * 10 ^ exponent` is rounded to infinity in floating point of 64 bits. -/
def isHuge (n : Nat) (exponent : Int) : Bool :=
  let size := (Nat.toDigits 10 n).length + exponent
  let bound := 1 <<< 1024 - 1 <<< 970
  let scaled (n power : Nat) : Nat := n * Nat.pow 10 power
  0 < n && (309 < size || (size = 309 && scaled bound (-exponent).toNat ≤ scaled n exponent.toNat))

/-- Whether a text is a floating point number in range, infinity, or no number at all. -/
def isFloat (cs : List Char) : Bool :=
  let (_, rest) := dropSign cs
  rest = "inf".toList || rest = "nan".toList ||
    (readDecimal? rest).any fun (n, exponent) => !isHuge n exponent

/-! ### Dates and times -/

def dropPair? (low high : Nat) : List Char → Option (List Char)
  | a :: b :: rest =>
    let n := valueOf 10 [a, b]
    if a.isDigit && b.isDigit && low ≤ n && n ≤ high then some rest else none
  | _ => none

def dropMark? (mark : Char) : List Char → Option (List Char)
  | c :: rest => if c = mark then some rest else none
  | [] => none

def daysIn (year month : Nat) : Nat :=
  if month = 2 then
    if year % 4 = 0 && (year % 100 ≠ 0 || year % 400 = 0) then 29 else 28
  else if month = 4 || month = 6 || month = 9 || month = 11 then 30
  else 31

def dropDate? (cs : List Char) : Option (List Char) := do
  let year := cs.take 4
  if !(year.length = 4 && year.all Char.isDigit) then none
  let month ← dropMark? '-' (cs.drop 4)
  let day ← dropMark? '-' (← dropPair? 1 12 month)
  dropPair? 1 (daysIn (valueOf 10 year) (valueOf 10 (month.take 2))) day

def dropFraction? : List Char → Option (List Char)
  | '.' :: rest =>
    if (rest.head?).any Char.isDigit then some (rest.dropWhile Char.isDigit) else none
  | cs => some cs

/-- What follows a time. Seconds can be left out, and a minute can have one second more
than sixty. -/
def dropTime? (cs : List Char) : Option (List Char) := do
  let rest ← dropPair? 0 59 (← dropMark? ':' (← dropPair? 0 23 cs))
  match rest with
  | ':' :: rest => dropFraction? (← dropPair? 0 60 rest)
  | _ => some rest

def isOffset : List Char → Bool
  | ['Z'] | ['z'] => true
  | sign :: rest =>
    (sign = '+' || sign = '-') &&
      ((dropPair? 0 23 rest).bind (dropMark? ':') |>.bind (dropPair? 0 59)) = some []
  | [] => false

/-- Whether a text is a date, a time or both. Only both can be followed by the distance of
the clock. -/
def isDateTime (cs : List Char) : Bool :=
  match dropDate? cs with
  | none => dropTime? cs = some []
  | some [] => true
  | some (c :: rest) =>
    (c = 'T' || c = 't' || c = ' ') && (dropTime? rest).any fun tail =>
      tail.isEmpty || isOffset tail

end SourceStepper.Toml
