import SourceStepper.CodeText
import SourceStepper.Proofs.Text.Utf8

namespace SourceStepper

namespace Text

theorem hexValue?_hexDigit : ∀ n, n < 16 → hexValue? (hexDigit n) = some n := by decide

theorem digit_ranges {c : Char} (digit : (hexValue? c).isSome = true) :
    48 ≤ c.toNat ∧ c.toNat ≤ 57 ∨ 97 ≤ c.toNat ∧ c.toNat ≤ 102 ∨ 65 ≤ c.toNat ∧ c.toNat ≤ 70 := by
  unfold hexValue? at digit
  simp only [Bool.and_eq_true, decide_eq_true_eq] at digit
  split at digit
  · next decimal => exact .inl decimal
  split at digit
  · next lower => exact .inr (.inl lower)
  split at digit
  · next upper => exact .inr (.inr upper)
  · contradiction

theorem utf8_digit {c : Char} (digit : (hexValue? c).isSome = true) :
    ∃ b, String.utf8EncodeChar c = [b] := by
  have one : c.val.toNat ≤ 127 := by
    have ranges := digit_ranges digit
    have same : c.toNat = c.val.toNat := rfl
    omega
  unfold String.utf8EncodeChar
  rw [if_pos one]
  exact ⟨_, rfl⟩

theorem digit_notBlank {c : Char} (digit : (hexValue? c).isSome = true) : isBlank c = false := by
  have ranges := digit_ranges digit
  simp only [isBlank, Bool.or_eq_false_iff, Bool.and_eq_false_iff, decide_eq_false_iff_not,
    beq_eq_false_iff_ne]
  omega

def hexCode (n : Nat) : UInt8 := UInt8.ofNat (hexDigit n).toNat

theorem utf8_hexDigit : ∀ n, n < 16 → String.utf8EncodeChar (hexDigit n) = [hexCode n] := by decide

theorem char_hexCode : ∀ n, n < 16 → Char.ofNat (hexCode n).toNat = hexDigit n := by decide

theorem high_digit (b : UInt8) : b.toNat / 16 < 16 := by have := b.toNat_lt; omega

theorem low_digit (b : UInt8) : b.toNat % 16 < 16 := Nat.mod_lt _ (by decide)

theorem byte_of_digits (b : UInt8) : UInt8.ofNat (b.toNat / 16 * 16 + b.toNat % 16) = b := by
  rw [Nat.div_add_mod', UInt8.ofNat_toNat]

theorem utf8_hexByte (b : UInt8) :
    utf8 (hexByte b) = [hexCode (b.toNat / 16), hexCode (b.toNat % 16)] := by
  simp [utf8, hexByte, utf8_hexDigit _ (high_digit b), utf8_hexDigit _ (low_digit b)]

theorem utf8_hexChars_cons (b : UInt8) (bytes : List UInt8) :
    utf8 (hexChars (b :: bytes)) =
      hexCode (b.toNat / 16) :: hexCode (b.toNat % 16) :: utf8 (hexChars bytes) := by
  rw [hexChars, List.flatMap_cons, utf8, List.flatMap_append, ← utf8, utf8_hexByte]
  rfl

@[simp] theorem length_utf8_hexChars (bytes : List UInt8) :
    (utf8 (hexChars bytes)).length = 2 * bytes.length := by
  induction bytes with
  | nil => rfl
  | cons b bytes ih =>
    rw [utf8_hexChars_cons, List.length_cons, List.length_cons, ih, List.length_cons]
    omega

@[simp] theorem length_hexChars (bytes : List UInt8) :
    (hexChars bytes).length = 2 * bytes.length := by
  induction bytes with
  | nil => rfl
  | cons b bytes ih =>
    rw [hexChars, List.flatMap_cons, ← hexChars, List.length_append, ih, List.length_cons]
    simp only [hexByte, List.length_cons, List.length_nil]
    omega

theorem hexChars_eq_nil {bytes : List UInt8} : hexChars bytes = [] ↔ bytes = [] := by
  rw [← List.length_eq_zero_iff, length_hexChars, ← List.length_eq_zero_iff]
  omega

theorem unhexPairs_hexChars (position : Nat) (bytes : List UInt8) :
    unhexPairs position (utf8 (hexChars bytes)) = .ok bytes := by
  induction bytes generalizing position with
  | nil => rfl
  | cons b bytes ih =>
    simp only [utf8_hexChars_cons, unhexPairs, char_hexCode _ (high_digit b),
      char_hexCode _ (low_digit b), hexValue?_hexDigit _ (high_digit b),
      hexValue?_hexDigit _ (low_digit b), ih, byte_of_digits]
    rfl

theorem unhex_hexChars (bytes : List UInt8) : unhex (hexChars bytes) = .ok bytes := by
  have even : (utf8 (hexChars bytes)).length % 2 ≠ 1 := by rw [length_utf8_hexChars]; omega
  rw [unhex, if_neg even, unhexPairs_hexChars]

theorem digits_of_unhexPairs : ∀ {position : Nat} {written bytes : List UInt8},
    unhexPairs position written = .ok bytes → written.length % 2 = 0 →
      ∀ b ∈ written, (hexValue? (Char.ofNat b.toNat)).isSome = true
  | _, [], _, _, _ => nofun
  | _, [_], _, _, odd => absurd odd (by simp)
  | position, high :: low :: rest, bytes, read, even => by
    rw [unhexPairs] at read
    split at read
    · contradiction
    · contradiction
    next h l first second =>
    cases later : unhexPairs (position + 2) rest with
    | error cause => rw [later] at read; contradiction
    | ok behind =>
      have digits := digits_of_unhexPairs later (by simp only [List.length_cons] at even; omega)
      exact List.forall_mem_cons.mpr
        ⟨by rw [first]; rfl, List.forall_mem_cons.mpr ⟨by rw [second]; rfl, digits⟩⟩

theorem length_utf8_digits {cs : List Char} (digits : ∀ c ∈ cs, (hexValue? c).isSome = true) :
    (utf8 cs).length = cs.length := by
  induction cs with
  | nil => rfl
  | cons c cs ih =>
    obtain ⟨here, behind⟩ := List.forall_mem_cons.mp digits
    obtain ⟨b, encoded⟩ := utf8_digit here
    rw [utf8_cons, encoded, List.singleton_append, List.length_cons, ih behind, List.length_cons]

/-- Only pairs of digits are read. -/
theorem digits_of_unhex {cs : List Char} {bytes : List UInt8} (read : unhex cs = .ok bytes) :
    (∀ c ∈ cs, (hexValue? c).isSome = true) ∧ cs.length % 2 = 0 := by
  simp only [unhex] at read
  split at read
  · contradiction
  next notOdd =>
  have even : (utf8 cs).length % 2 = 0 := by omega
  have digits := digits_of_unhexPairs read even
  have plain : ∀ c ∈ cs, (hexValue? c).isSome = true := by
    intro c mem
    -- the first byte of a character that takes several bytes is no digit
    obtain ⟨b, more, encoded⟩ := List.exists_cons_of_ne_nil (String.utf8EncodeChar_ne_nil (c := c))
    have within : b ∈ String.utf8EncodeChar c := encoded ▸ List.mem_cons_self
    have digit := digits b (List.mem_flatMap.mpr ⟨c, mem, within⟩)
    have ascii : b.toNat < 128 := by
      have small := b.toNat_lt
      have valid : b.toNat.isValidChar := .inl (by omega)
      have value : (Char.ofNat b.toNat).toNat = b.toNat := by
        rw [Char.ofNat, dif_pos valid]
        rfl
      have ranges := digit_ranges digit
      omega
    rwa [← (mem_encode_ascii ascii).mp within, Char.ofNat_toNat] at digit
  exact ⟨plain, length_utf8_digits plain ▸ even⟩

theorem dropHexMark_hexChars (bytes : List UInt8) :
    dropHexMark (hexChars bytes) = hexChars bytes := by
  cases bytes with
  | nil => rfl
  | cons b bytes =>
    have digits : ∀ n, n < 16 → hexDigit n ≠ 'x' := by decide
    have low := digits _ (low_digit b)
    simp [dropHexMark, dropPrefix?, hexChars, hexByte, Ne.symm low]

theorem lower_not_upper (c : Char) : ¬ ('A' ≤ c.toLower ∧ c.toLower ≤ 'F') := by
  delta Char.toLower
  simp only [Char.le_def]
  split <;> grind [UInt32.toNat_add]

theorem hexDigit_hexValue? {c : Char} {n : Nat} (value : hexValue? c.toLower = some n) :
    n < 16 ∧ hexDigit n = c.toLower := by
  have lower := lower_not_upper c
  generalize c.toLower = d at *
  simp only [hexValue?, Bool.and_eq_true, decide_eq_true_eq] at value
  split at value
  · next decimal =>
    have low : 48 ≤ d.toNat := decimal.1
    have high : d.toNat ≤ 57 := decimal.2
    have n_eq : d.toNat - 48 = n := Option.some.inj value
    have small : n < 10 := by omega
    refine ⟨by omega, ?_⟩
    rw [hexDigit, if_pos small, show 0x30 + n = d.toNat by omega, Char.ofNat_toNat]
  · split at value
    · next letter =>
      have low : 97 ≤ d.toNat := letter.1
      have high : d.toNat ≤ 102 := letter.2
      have n_eq : d.toNat - 97 + 10 = n := Option.some.inj value
      have large : ¬ n < 10 := by omega
      refine ⟨by omega, ?_⟩
      rw [hexDigit, if_neg large, show 0x57 + n = d.toNat by omega, Char.ofNat_toNat]
    · contradiction

theorem exists_bytes : ∀ cs : List Char, (∀ c ∈ cs, (hexValue? c.toLower).isSome) →
    cs.length % 2 = 0 →
    ∃ bytes, hexChars bytes = cs.map Char.toLower
  | [], _, _ => ⟨[], rfl⟩
  | [_], _, odd => by simp at odd
  | a :: b :: rest, digits, even => by
    obtain ⟨high, ha⟩ := Option.isSome_iff_exists.mp (digits a (by simp))
    obtain ⟨low, hb⟩ := Option.isSome_iff_exists.mp (digits b (by simp))
    obtain ⟨highSmall, highDigit⟩ := hexDigit_hexValue? ha
    obtain ⟨lowSmall, lowDigit⟩ := hexDigit_hexValue? hb
    obtain ⟨bytes, same⟩ := exists_bytes rest (fun c hc => digits c (by simp [hc])) 
      (by simp only [List.length_cons] at even; omega)
    have byte : (UInt8.ofNat (high * 16 + low)).toNat = high * 16 + low := by
      simp [UInt8.toNat_ofNat']; omega
    refine ⟨UInt8.ofNat (high * 16 + low) :: bytes, ?_⟩
    rw [hexChars, List.flatMap_cons, ← hexChars, same, hexByte, byte,
      show (high * 16 + low) / 16 = high by omega, show (high * 16 + low) % 16 = low by omega,
      highDigit, lowDigit]
    rfl

end Text

namespace CodeText

def IsHex (code : CodeText) : Prop :=
  (∀ c ∈ code.digits.toList, (Text.hexValue? c).isSome) ∧ code.digits.toList.length % 2 = 0

theorem isHex_ofText {text : String} (hex : (ofText text).IsHex) :
    ∃ bytes, ofText text = ofBytes bytes := by
  obtain ⟨digits, even⟩ := hex
  simp only [ofText, Text.normalHex, String.toList_ofList] at digits even ⊢
  obtain ⟨bytes, same⟩ := Text.exists_bytes (Text.dropHexMark (Text.trim text.toList))
    (fun c hc => digits _ (List.mem_map_of_mem hc)) (by simpa using even)
  exact ⟨bytes, by rw [ofBytes, Text.hex, same]⟩

@[simp] theorem digits_ofText (text : String) :
    (ofText text).digits.toList = Text.normalHex text.toList :=
  String.toList_ofList

@[simp] theorem digits_ofBytes (bytes : List UInt8) :
    (ofBytes bytes).digits.toList = Text.hexChars bytes :=
  String.toList_ofList

/-- In normal form, the text that bytes are read from is the one that they are written as. -/
theorem unhex_ofText {text : String} {bytes : List UInt8} :
    Text.unhex (Text.normalHex text.toList) = .ok bytes ↔ ofText text = ofBytes bytes := by
  constructor
  · intro read
    have isHex : (ofText text).IsHex := by
      rw [IsHex, digits_ofText]
      exact Text.digits_of_unhex read
    obtain ⟨written, same⟩ := isHex_ofText isHex
    rw [← digits_ofText, same, digits_ofBytes, Text.unhex_hexChars] at read
    cases read
    exact same
  · intro same
    rw [← digits_ofText, same, digits_ofBytes, Text.unhex_hexChars]

end CodeText

end SourceStepper
