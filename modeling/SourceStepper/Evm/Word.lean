import SourceStepper.OrderedMap

/-!
Machine words of 256 bits and account addresses, with the operations of the machine where they
differ from those of bit vectors: division by zero gives zero, and shift distances are words.
-/
namespace SourceStepper.Evm

abbrev Word := BitVec 256

abbrev Address := BitVec 160

theorem keyOrder_bitVec (n : Nat) : KeyOrder (BitVec n) where
  irrefl a := by simp
  trans h h' := by simp only [BitVec.lt_def] at *; omega
  connected h ne := by simp only [BitVec.lt_def] at *; have := BitVec.toNat_ne.1 ne; omega

instance : KeyOrder Word := keyOrder_bitVec 256

instance : KeyOrder Address := keyOrder_bitVec 160

def natOfBytes (bytes : List UInt8) : Nat := bytes.foldl (fun n b => n * 256 + b.toNat) 0

/-- The last `count` bytes of a number, the most significant byte first. -/
def bytesOfNat (count n : Nat) : List UInt8 :=
  (List.range count).map fun i => UInt8.ofNat (n >>> (8 * (count - 1 - i)))

def ofBool (b : Bool) : Word := if b then 1 else 0

def Word.address (w : Word) : Address := w.setWidth 160

def Address.word (a : Address) : Word := a.setWidth 256

namespace Word

def ofBytes (bytes : List UInt8) : Word := BitVec.ofNat 256 (natOfBytes bytes)

def bytes (w : Word) : List UInt8 := bytesOfNat 32 w.toNat

def mod (a b : Word) : Word := if b = 0 then 0 else a % b

/-- The signed quotient, toward zero. -/
def sdiv (a b : Word) : Word := if b = 0 then 0 else BitVec.sdiv a b

def smod (a b : Word) : Word := if b = 0 then 0 else BitVec.srem a b

def addMod (a b n : Word) : Word :=
  if n = 0 then 0 else BitVec.ofNat 256 ((a.toNat + b.toNat) % n.toNat)

def mulMod (a b n : Word) : Word :=
  if n = 0 then 0 else BitVec.ofNat 256 ((a.toNat * b.toNat) % n.toNat)

/-- The power of a word, by squaring; the exponent has at most `bits` bits. -/
def powBits (base : Word) (exponent : Nat) : Nat → Word
  | 0 => 1
  | bits + 1 =>
    let root := powBits (base * base) (exponent / 2) bits
    if exponent % 2 = 1 then root * base else root

def pow (base exponent : Word) : Word := powBits base exponent.toNat 256

def byteCount (w : Word) : Nat := if w = 0 then 0 else w.toNat.log2 / 8 + 1

def signExtendByte (k x : Word) : Word :=
  if k < 31 then (x.setWidth (8 * k.toNat + 8)).signExtend 256 else x

/-- The byte at a place of a word, counted from the most significant one. -/
def byteAt (i x : Word) : Word :=
  if i < 32 then (x >>> (8 * (31 - i.toNat))) &&& 0xFF else 0

def shl (distance x : Word) : Word := if distance < 256 then x <<< distance.toNat else 0

def shr (distance x : Word) : Word := if distance < 256 then x >>> distance.toNat else 0

def sar (distance x : Word) : Word :=
  x.sshiftRight (if distance < 256 then distance.toNat else 255)

def leadingZeros (w : Word) : Word := if w = 0 then 256 else BitVec.ofNat 256 (255 - w.toNat.log2)

end Word

end SourceStepper.Evm
