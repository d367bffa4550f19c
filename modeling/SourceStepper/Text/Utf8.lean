/-!
Text as UTF-8 bytes, and the reading of bytes that need not be well formed: every maximal part of
an ill-formed sequence becomes one replacement character.
-/
namespace SourceStepper.Text

def utf8 (cs : List Char) : List UInt8 := cs.flatMap String.utf8EncodeChar

def byteLength (s : String) : Nat := s.utf8ByteSize

def replacement : Char := '\uFFFD'

/-- Which second bytes may follow the first byte `b`, for each number of bytes of a sequence. -/
inductive Lead
  /-- A character of its own. -/
  | single
  /-- The first of `more + 1` bytes; the second lies between `low` and `high`, the others between
  0x80 and 0xBF. -/
  | multi (more low high : Nat)
  /-- No byte of that value starts a character. -/
  | invalid

def Lead.of (b : UInt8) : Lead :=
  let n := b.toNat
  if n < 0x80 then .single
  else if n < 0xC2 then .invalid
  else if n < 0xE0 then .multi 1 0x80 0xBF
  else if n = 0xE0 then .multi 2 0xA0 0xBF
  else if n = 0xED then .multi 2 0x80 0x9F
  else if n < 0xF0 then .multi 2 0x80 0xBF
  else if n = 0xF0 then .multi 3 0x90 0xBF
  else if n < 0xF4 then .multi 3 0x80 0xBF
  else if n = 0xF4 then .multi 3 0x80 0x8F
  else .invalid

/-- The continuation bytes at the front of `bytes`, at most `more` of them, of which the first
lies between `low` and `high`. -/
def continuation (low high : Nat) : Nat → List UInt8 → List UInt8
  | 0, _ => []
  | _, [] => []
  | more + 1, b :: bytes =>
    if low ≤ b.toNat && b.toNat ≤ high then b :: continuation 0x80 0xBF more bytes else []

/-- The character at the front of bytes that start with `b`, and how many of the bytes behind `b`
belong to it. -/
def readLossy (b : UInt8) (bytes : List UInt8) : Char × Nat :=
  match Lead.of b with
  | .single => (Char.ofNat b.toNat, 0)
  | .invalid => (replacement, 0)
  | .multi more low high =>
    let tail := continuation low high more bytes
    if tail.length = more then
      let top := b.toNat % (0x40 >>> more)
      (Char.ofNat (tail.foldl (fun n c => n * 64 + c.toNat % 64) top), more)
    else (replacement, tail.length)

/-- The text of bytes, with a replacement character for each maximal ill-formed part. -/
def lossy : List UInt8 → List Char
  | [] => []
  | b :: bytes =>
    let (c, n) := readLossy b bytes
    c :: lossy (bytes.drop n)
termination_by bytes => bytes.length
decreasing_by simp only [List.length_drop, List.length_cons]; omega

def strict? (bytes : ByteArray) : Option String := String.fromUTF8? bytes

end SourceStepper.Text
