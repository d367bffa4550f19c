namespace SourceStepper.Text

def maxUnsigned : Nat := 0xFFFFFFFFFFFFFFFF

def maxSigned : Nat := 0x7FFFFFFFFFFFFFFF

/-- Why a text is not a number of the expected width. -/
inductive NumeralError
  | empty
  | invalidDigit
  | tooLarge
  deriving DecidableEq, Repr

namespace NumeralError

def message : NumeralError → String
  | .empty => "cannot parse integer from empty string"
  | .invalidDigit => "invalid digit found in string"
  | .tooLarge => "number too large to fit in target type"

end NumeralError

/-- Read digits behind those that stand for `value`; the first character that is no digit or makes
the number larger than `limit` is the cause of failure. -/
def readDigits (limit : Nat) (value : Nat) : List Char → Except NumeralError Nat
  | [] => .ok value
  | c :: cs =>
    if !c.isDigit then .error .invalidDigit
    else
      let next := value * 10 + (c.toNat - '0'.toNat)
      if limit < next then .error .tooLarge else readDigits limit next cs

def readMagnitude (limit : Nat) (cs : List Char) : Except NumeralError Nat :=
  if cs.isEmpty then .error .invalidDigit else readDigits limit 0 cs

/-- Read a number that is not negative; one `+` may stand in front. -/
def readNat (limit : Nat) (cs : List Char) : Except NumeralError Nat :=
  match cs with
  | [] => .error .empty
  | '+' :: rest => readMagnitude limit rest
  | _ => readDigits limit 0 cs

/-- Read a signed number of 64 bits; one `+` or `-` may stand in front. -/
def readInt? (cs : List Char) : Option Int :=
  match cs with
  | [] => none
  | '+' :: rest => (readMagnitude maxSigned rest).toOption.map Int.ofNat
  | '-' :: rest => (readMagnitude (maxSigned + 1) rest).toOption.map fun n => -(n : Int)
  | _ => (readDigits maxSigned 0 cs).toOption.map Int.ofNat

end SourceStepper.Text
