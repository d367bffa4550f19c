import SourceStepper.Text.Numeral

namespace SourceStepper.Json

/-- A number as far as it has been read: `significand * 10 ^ exponent`, with a sign. -/
structure Number where
  negative : Bool := false
  significand : Nat := 0
  exponent : Int := 0
  deriving DecidableEq, Repr

namespace Number

def fits (significand : Nat) (c : Char) : Bool :=
  significand * 10 + (c.toNat - '0'.toNat) ≤ Text.maxUnsigned

/-- The number with a digit of its integer part behind it. From the first digit that does not fit
on, digits only count. -/
def addDigit (n : Number) (c : Char) : Number :=
  if n.exponent = 0 && fits n.significand c then
    { n with significand := n.significand * 10 + (c.toNat - '0'.toNat) }
  else { n with exponent := n.exponent + 1 }

/-- The number with its fraction digits; those from the first one that does not fit on
are dropped. -/
def addFraction (n : Number) : List Char → Number
  | [] => n
  | c :: cs =>
    if fits n.significand c then
      addFraction { n with
        significand := n.significand * 10 + (c.toNat - '0'.toNat)
        exponent := n.exponent - 1 } cs
    else n

/-- The nearest number with 53 significant bits; of two the one with an even last bit. -/
def roundBits (n : Nat) : Nat :=
  let unit := 1 <<< (n.log2 - 52)
  let q := n / unit
  let twice := 2 * (n % unit)
  (if unit < twice || (unit == twice && q % 2 == 1) then q + 1 else q) * unit

/-- Whether a number is outside of the range: the nearest floating point number of the significand,
multiplied by that of the power of ten, rounds to infinity. -/
def isTooLarge (n : Number) : Bool :=
  0 < n.significand && (308 < n.exponent ||
    (0 ≤ n.exponent &&
      1 <<< 1024 - 1 <<< 970 ≤ roundBits n.significand * roundBits (Nat.pow 10 n.exponent.toNat)))

def readExponent? (cs : List Char) : Option Int :=
  let (sign, digits) : Int × List Char := match cs with
    | '+' :: rest => (1, rest)
    | '-' :: rest => (-1, rest)
    | _ => (1, cs)
  if digits.isEmpty || !digits.all Char.isDigit then none
  else some (sign * (digits.foldl (fun n c => n * 10 + (c.toNat - '0'.toNat)) 0 : Nat))

def readTail? (n : Number) (cs : List Char) : Option Number := do
  let (n, cs) ← match cs with
    | '.' :: rest =>
      let digits := rest.takeWhile Char.isDigit
      if digits.isEmpty then none else some (n.addFraction digits, rest.dropWhile Char.isDigit)
    | _ => some (n, cs)
  match cs with
  | [] => some n
  | c :: rest =>
    if c = 'e' || c = 'E' then
      return { n with exponent := n.exponent + (← readExponent? rest) }
    else none

def readMagnitude? (cs : List Char) : Option Number :=
  match cs with
  | '0' :: rest => readTail? {} rest
  | _ =>
    let digits := cs.takeWhile Char.isDigit
    if digits.isEmpty then none
    else readTail? (digits.foldl addDigit {}) (cs.dropWhile Char.isDigit)

/-- Read a number; one that is out of range is refused. -/
def ofText? (cs : List Char) : Option Number := do
  let n ← match cs with
    | '-' :: rest => (readMagnitude? rest).map ({ · with negative := true })
    | _ => readMagnitude? cs
  if n.isTooLarge then none else some n

end Number

end SourceStepper.Json
