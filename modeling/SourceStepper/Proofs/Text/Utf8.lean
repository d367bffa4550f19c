import Mathlib.Tactic.Common
import SourceStepper.Text.Utf8

namespace SourceStepper.Text

@[simp] theorem utf8_nil : utf8 [] = [] := rfl

@[simp] theorem utf8_cons (c : Char) (cs : List Char) :
    utf8 (c :: cs) = String.utf8EncodeChar c ++ utf8 cs := rfl

@[simp] theorem utf8_append (front back : List Char) :
    utf8 (front ++ back) = utf8 front ++ utf8 back :=
  List.flatMap_append

theorem length_utf8 (cs : List Char) : (utf8 cs).length = byteLength (String.ofList cs) := by
  rw [byteLength, ← String.size_toByteArray, String.toByteArray_ofList, List.utf8Encode, utf8]
  simp

theorem value_ranges (c : Char) : c.toNat < 0xD800 ∨ 0xDFFF < c.toNat ∧ c.toNat < 0x110000 :=
  c.valid

theorem mem_encode_ascii {c : Char} {b : UInt8} (ascii : b.toNat < 128) :
    b ∈ String.utf8EncodeChar c ↔ c.toNat = b.toNat := by
  rw [String.utf8EncodeChar, show c.val.toNat = c.toNat from rfl]
  simp only [← UInt8.toNat_inj, apply_ite (b ∈ ·), List.mem_cons, List.not_mem_nil, or_false,
    UInt8.toNat_ofNat']
  split_ifs <;> omega

theorem mem_utf8_ascii {cs : List Char} {b : UInt8} (ascii : b.toNat < 128) :
    b ∈ utf8 cs ↔ ∃ c ∈ cs, c.toNat = b.toNat := by
  simp only [utf8, List.mem_flatMap, mem_encode_ascii ascii]

section Lead
variable {v : Nat}

theorem lead_one (small : v ≤ 127) : Lead.of (UInt8.ofNat v) = .single := by
  have byte : (UInt8.ofNat v).toNat = v := by simp; omega
  simp only [Lead.of, byte]
  grind

theorem lead_two (low : 127 < v) (high : v ≤ 2047) :
    Lead.of (UInt8.ofNat (v / 64 % 32 + 192)) = .multi 1 0x80 0xBF := by
  have byte : (UInt8.ofNat (v / 64 % 32 + 192)).toNat = v / 64 % 32 + 192 := by simp; omega
  simp only [Lead.of, byte]
  grind

/-- The second byte is in the range that the first one leaves to it: no number that two bytes are
enough for, and none of a surrogate. -/
theorem lead_three (low : 2047 < v) (high : v ≤ 65535) (valid : v < 0xD800 ∨ 0xDFFF < v) :
    ∃ least most, Lead.of (UInt8.ofNat (v / 4096 % 16 + 224)) = .multi 2 least most ∧
      least ≤ v / 64 % 64 + 128 ∧ v / 64 % 64 + 128 ≤ most := by
  have byte : (UInt8.ofNat (v / 4096 % 16 + 224)).toNat = v / 4096 % 16 + 224 := by simp; omega
  simp only [Lead.of, byte]
  obtain small | surrogate | other : v < 0x1000 ∨ (0xD000 ≤ v ∧ v < 0xE000) ∨
      (0x1000 ≤ v ∧ ¬ (0xD000 ≤ v ∧ v < 0xE000)) := by omega
  · exact ⟨0xA0, 0xBF, by grind, by omega, by omega⟩
  · exact ⟨0x80, 0x9F, by grind, by omega, by omega⟩
  · exact ⟨0x80, 0xBF, by grind, by omega, by omega⟩

theorem lead_four (low : 65535 < v) (high : v < 0x110000) :
    ∃ least most, Lead.of (UInt8.ofNat (v / 262144 % 8 + 240)) = .multi 3 least most ∧
      least ≤ v / 4096 % 64 + 128 ∧ v / 4096 % 64 + 128 ≤ most := by
  have byte : (UInt8.ofNat (v / 262144 % 8 + 240)).toNat = v / 262144 % 8 + 240 := by simp; omega
  simp only [Lead.of, byte]
  obtain small | large | other : v < 0x40000 ∨ 0x100000 ≤ v ∨ (0x40000 ≤ v ∧ v < 0x100000) := by
    omega
  · exact ⟨0x90, 0xBF, by grind, by omega, by omega⟩
  · exact ⟨0x80, 0x8F, by grind, by omega, by omega⟩
  · exact ⟨0x80, 0xBF, by grind, by omega, by omega⟩

end Lead

theorem continuation_cons {least most more : Nat} {b : UInt8} {bytes : List UInt8}
    (low : least ≤ b.toNat) (high : b.toNat ≤ most) :
    continuation least most (more + 1) (b :: bytes) = b :: continuation 0x80 0xBF more bytes := by
  simp [continuation, low, high]

theorem toNat_tail (n : Nat) : (UInt8.ofNat (n % 64 + 128)).toNat = n % 64 + 128 := by
  simp
  omega

theorem continuation_tail {least most n : Nat} (more : Nat) (bytes : List UInt8)
    (low : least ≤ n % 64 + 128) (high : n % 64 + 128 ≤ most) :
    continuation least most (more + 1) (UInt8.ofNat (n % 64 + 128) :: bytes) =
      UInt8.ofNat (n % 64 + 128) :: continuation 0x80 0xBF more bytes := by
  rw [← toNat_tail] at low high
  exact continuation_cons low high

theorem continuation_byte (n more : Nat) (bytes : List UInt8) :
    continuation 0x80 0xBF (more + 1) (UInt8.ofNat (n % 64 + 128) :: bytes) =
      UInt8.ofNat (n % 64 + 128) :: continuation 0x80 0xBF more bytes :=
  continuation_tail more bytes (by omega) (by omega)

@[simp] theorem continuation_zero (least most : Nat) (bytes : List UInt8) :
    continuation least most 0 bytes = [] := by
  rw [continuation]

theorem lossy_single {b : UInt8} {bytes : List UInt8} (lead : Lead.of b = .single) :
    lossy (b :: bytes) = Char.ofNat b.toNat :: lossy bytes := by
  simp [lossy, readLossy, lead]

theorem lossy_multi {b : UInt8} {tail bytes : List UInt8} {more least most : Nat}
    (lead : Lead.of b = .multi more least most)
    (belongs : continuation least most more (tail ++ bytes) = tail) (all : tail.length = more) :
    lossy (b :: (tail ++ bytes)) =
      Char.ofNat (tail.foldl (fun n c => n * 64 + c.toNat % 64) (b.toNat % (0x40 >>> more))) ::
        lossy bytes := by
  subst all
  simp [lossy, readLossy, lead, belongs]

/-- The bytes of a character are read as that character, whatever follows. -/
theorem lossy_encode (c : Char) (bytes : List UInt8) :
    lossy (String.utf8EncodeChar c ++ bytes) = c :: lossy bytes := by
  have ranges := value_ranges c
  have whole {n : Nat} (same : n = c.toNat) : Char.ofNat n = c := same ▸ c.ofNat_toNat
  rw [String.utf8EncodeChar, show c.val.toNat = c.toNat from rfl]
  split
  · next one =>
    rw [List.singleton_append, lossy_single (lead_one one), whole]
    simp
    omega
  · split
    · next one two =>
      rw [List.cons_append, lossy_multi (lead_two (by omega) two) _ rfl, whole]
      · simp
        omega
      · simp only [List.cons_append, List.nil_append]
        rw [continuation_byte, continuation_zero]
    · split
      · next two three =>
        obtain ⟨least, most, lead, low, high⟩ := lead_three (by omega) three (by omega)
        rw [List.cons_append, lossy_multi lead _ rfl, whole]
        · simp
          omega
        · simp only [List.cons_append, List.nil_append]
          rw [continuation_tail _ _ low high, continuation_byte, continuation_zero]
      · next three =>
        obtain ⟨least, most, lead, low, high⟩ := lead_four (v := c.toNat) (by omega) (by omega)
        rw [List.cons_append, lossy_multi lead _ rfl, whole]
        · simp
          omega
        · simp only [List.cons_append, List.nil_append]
          rw [continuation_tail _ _ low high, continuation_byte, continuation_byte,
            continuation_zero]

theorem lossy_utf8 (cs : List Char) : lossy (utf8 cs) = cs := by
  induction cs with
  | nil => simp [lossy]
  | cons c cs ih => rw [utf8_cons, lossy_encode, ih]

theorem byteLength_append (front back : List Char) :
    byteLength (String.ofList (front ++ back)) =
      byteLength (String.ofList front) + byteLength (String.ofList back) := by
  rw [← length_utf8, ← length_utf8, ← length_utf8, utf8_append, List.length_append]

theorem byteLength_eq_zero {cs : List Char} (empty : byteLength (String.ofList cs) = 0) :
    cs = [] := by
  cases cs with
  | nil => rfl
  | cons c cs =>
    have := c.utf8Size_pos
    rw [← length_utf8, utf8_cons, List.length_append, String.length_utf8EncodeChar] at empty
    omega

theorem lossy_slice (front part back : List Char) :
    lossy (((utf8 (front ++ part ++ back)).take (byteLength (String.ofList (front ++ part)))).drop
      (byteLength (String.ofList front))) = part := by
  rw [← length_utf8, ← length_utf8, utf8_append (front ++ part), List.take_left, utf8_append,
    List.drop_left, lossy_utf8]

/-- Whether a place in a text, given in bytes, is not inside of a character. -/
def IsBoundary (cs : List Char) (place : Nat) : Prop :=
  ∃ front back, cs = front ++ back ∧ byteLength (String.ofList front) = place

theorem isBoundary_zero (cs : List Char) : IsBoundary cs 0 := ⟨[], cs, rfl, rfl⟩

theorem isBoundary_end (cs : List Char) : IsBoundary cs (byteLength (String.ofList cs)) :=
  ⟨cs, [], (List.append_nil cs).symm, rfl⟩

theorem IsBoundary.parts {cs : List Char} {low high : Nat} (first : IsBoundary cs low)
    (second : IsBoundary cs high) (ordered : low ≤ high) :
    ∃ front part back, cs = front ++ part ++ back ∧ byteLength (String.ofList front) = low ∧
      byteLength (String.ofList (front ++ part)) = high := by
  obtain ⟨front, rest, split, rfl⟩ := first
  obtain ⟨longer, back, split', rfl⟩ := second
  rcases List.append_eq_append_iff.mp (split.symm.trans split') with ⟨part, rfl, rfl⟩ |
    ⟨part, same, rfl⟩
  · exact ⟨front, part, back, by simpa using split', rfl, rfl⟩
  · rw [same, byteLength_append] at ordered
    have nothing : part = [] := byteLength_eq_zero (by omega)
    subst nothing
    exact ⟨front, [], rest, by simpa using split, rfl, by simp [same]⟩

section Order

theorem byte_lt_iff {m n : Nat} (hm : m < 256) (hn : n < 256) :
    UInt8.ofNat m < UInt8.ofNat n ↔ m < n := by
  rw [UInt8.lt_iff_toNat_lt, UInt8.toNat_ofNat', UInt8.toNat_ofNat', Nat.mod_eq_of_lt hm,
    Nat.mod_eq_of_lt hn]

theorem byte_eq_iff {m n : Nat} (hm : m < 256) (hn : n < 256) :
    UInt8.ofNat m = UInt8.ofNat n ↔ m = n := by
  rw [← UInt8.toNat_inj, UInt8.toNat_ofNat', UInt8.toNat_ofNat', Nat.mod_eq_of_lt hm,
    Nat.mod_eq_of_lt hn]

/-- The bytes of a character tell its place among all characters, whatever follows them. -/
theorem encode_lt {c d : Char} (lt : c < d) (xs ys : List UInt8) :
    String.utf8EncodeChar c ++ xs < String.utf8EncodeChar d ++ ys := by
  have lt : c.val.toNat < d.val.toNat := lt
  have high : d.val.toNat < 0x110000 := by
    have := value_ranges d
    have same : d.toNat = d.val.toNat := rfl
    omega
  unfold String.utf8EncodeChar
  generalize c.val.toNat = v at *
  generalize d.val.toNat = w at *
  -- `omega` compares digits to base 64 only if each is a digit of the one above it
  have digits : ∀ n : Nat, n / 4096 = n / 64 / 64 ∧ n / 262144 = n / 64 / 64 / 64 :=
    fun n => by omega
  simp only [digits]
  split_ifs <;> (first | omega | skip) <;>
    simp (disch := omega) only [List.cons_append, List.nil_append, List.cons_lt_cons_iff,
      byte_lt_iff, byte_eq_iff] <;>
    omega

/-- Texts are in the order of their bytes. -/
theorem utf8_lt {s t : List Char} (lt : s < t) : utf8 s < utf8 t := by
  induction s generalizing t with
  | nil =>
    cases t with
    | nil => exact absurd lt (List.not_lt_nil _)
    | cons d t =>
      cases bytes : utf8 (d :: t) with
      | nil =>
        have none : byteLength (String.ofList (d :: t)) = 0 := by rw [← length_utf8, bytes]; rfl
        exact absurd (byteLength_eq_zero none) (List.cons_ne_nil d t)
      | cons b bs => exact List.nil_lt_cons b bs
  | cons c s ih =>
    cases t with
    | nil => exact absurd lt (List.not_lt_nil _)
    | cons d t =>
      rw [utf8_cons, utf8_cons]
      rcases List.cons_lt_cons_iff.mp lt with first | ⟨rfl, rest⟩
      · exact encode_lt first _ _
      · exact List.append_left_lt (ih rest)

end Order

end SourceStepper.Text
