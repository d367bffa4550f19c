import SourceStepper.Evm.Keccak
import SourceStepper.Evm.Word
import SourceStepper.Text.Hex

namespace SourceStepper.Evm.Address

def bytes (a : Address) : List UInt8 := bytesOfNat 20 a.toNat

def ofBytes (bytes : List UInt8) : Address := BitVec.ofNat 160 (natOfBytes bytes)

def plainText (a : Address) : String := "0x" ++ Text.hex (bytes a)

/-- An address with a checksum: a letter is uppercase where the hash of the lowercase digits has a
half byte of eight or more. -/
def text (a : Address) : String :=
  let digits := Text.hexChars (bytes a)
  let halves := (Keccak.hash (Text.utf8 digits)).flatMap fun b => [b.toNat / 16, b.toNat % 16]
  "0x" ++ String.ofList (digits.zipWith (fun c n => if 8 ≤ n then c.toUpper else c) halves)

/-- The address of hexadecimal text: 40 digits, with `0x` or `0X` in front of them or without. -/
def ofText? (cs : List Char) : Option Address :=
  let digits := match cs with
    | '0' :: 'x' :: rest => rest
    | '0' :: 'X' :: rest => rest
    | _ => cs
  if digits.length = 40 then (Text.unhex? digits).map ofBytes else none

/-- Bytes in the length-marked form in which they are hashed, if there are less than 56. -/
def marked (bytes : List UInt8) : List UInt8 :=
  match bytes with
  | [b] => if b < 0x80 then [b] else [0x81, b]
  | _ => UInt8.ofNat (0x80 + bytes.length) :: bytes

/-- The bytes of a number without leading zeros. -/
def shortBytes (n : Nat) : List UInt8 := (bytesOfNat 32 n).dropWhile (· == 0)

/-- The address of a contract that an account creates with its `nonce`th transaction or creation. -/
def ofCreation (creator : Address) (nonce : Nat) : Address :=
  let fields := marked creator.bytes ++ marked (shortBytes nonce)
  ofBytes (Keccak.hash (UInt8.ofNat (0xC0 + fields.length) :: fields))

def ofSalted (creator : Address) (salt : Word) (initCode : List UInt8) : Address :=
  ofBytes (Keccak.hash ([0xFF] ++ creator.bytes ++ salt.bytes ++ Keccak.hash initCode))

end SourceStepper.Evm.Address
