import SourceStepper.Text.Blank
import SourceStepper.Text.Split
import SourceStepper.Text.Utf8

namespace SourceStepper.Text

def hexDigit (n : Nat) : Char := Char.ofNat (if n < 10 then 0x30 + n else 0x57 + n)

def hexValue? (c : Char) : Option Nat :=
  if '0' ≤ c && c ≤ '9' then some (c.toNat - '0'.toNat)
  else if 'a' ≤ c && c ≤ 'f' then some (c.toNat - 'a'.toNat + 10)
  else if 'A' ≤ c && c ≤ 'F' then some (c.toNat - 'A'.toNat + 10)
  else none

def hexByte (b : UInt8) : List Char := [hexDigit (b.toNat / 16), hexDigit (b.toNat % 16)]

def hexChars (bytes : List UInt8) : List Char := bytes.flatMap hexByte

def hex (bytes : List UInt8) : String := String.ofList (hexChars bytes)

def hexNat (n : Nat) : List Char := Nat.toDigits 16 n

def padZero (width : Nat) (digits : List Char) : List Char :=
  List.replicate (width - digits.length) '0' ++ digits

inductive HexError
  | oddLength
  /-- The byte at a place of the text is no digit. -/
  | invalidDigit (byte : UInt8) (position : Nat)
  deriving DecidableEq, Repr

/-- The bytes written at `position` and behind it, for UTF-8 text of even length. -/
def unhexPairs (position : Nat) : List UInt8 → Except HexError (List UInt8)
  | high :: low :: rest =>
    match hexValue? (Char.ofNat high.toNat), hexValue? (Char.ofNat low.toNat) with
    | none, _ => .error (.invalidDigit high position)
    | some _, none => .error (.invalidDigit low (position + 1))
    | some h, some l => (unhexPairs (position + 2) rest).map (UInt8.ofNat (h * 16 + l) :: ·)
  | _ => .ok []

/-- The bytes that a text of digit pairs stands for; an odd length is found first. -/
def unhex (cs : List Char) : Except HexError (List UInt8) :=
  let bytes := utf8 cs
  if bytes.length % 2 = 1 then .error .oddLength else unhexPairs 0 bytes

def unhex? (cs : List Char) : Option (List UInt8) := (unhex cs).toOption

def dropHexMark (cs : List Char) : List Char := (dropPrefix? ['0', 'x'] cs).getD cs

/-- The form in which bytecode is compared: no blanks around it, no `0x`, ASCII letters in
lower case. -/
def normalHex (cs : List Char) : List Char := (dropHexMark (trim cs)).map Char.toLower

end SourceStepper.Text
