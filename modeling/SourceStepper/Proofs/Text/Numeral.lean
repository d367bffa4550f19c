import Mathlib.Data.Nat.Digits.Defs
import SourceStepper.Text.Numeral

namespace SourceStepper.Text

def ofDigits (cs : List Char) : Nat :=
  Nat.ofDigits 10 (cs.reverse.map fun c => c.toNat - '0'.toNat)

def AllDigits (cs : List Char) : Prop := cs ≠ [] ∧ ∀ c ∈ cs, c.isDigit = true

/-- A number in decimal digits, where one sign may stand in front. -/
inductive Decimal : List Char → Int → Prop
  | plain {cs : List Char} (digits : AllDigits cs) : Decimal cs (ofDigits cs)
  | plus {cs : List Char} (digits : AllDigits cs) : Decimal ('+' :: cs) (ofDigits cs)
  | minus {cs : List Char} (digits : AllDigits cs) : Decimal ('-' :: cs) (-(ofDigits cs : Int))

def Signed64 (cs : List Char) (n : Int) : Prop := Decimal cs n ∧ -(2 ^ 63) ≤ n ∧ n < 2 ^ 63

theorem ofDigits_cons (c : Char) (cs : List Char) :
    ofDigits (c :: cs) = (c.toNat - '0'.toNat) * 10 ^ cs.length + ofDigits cs := by
  simp [ofDigits, Nat.ofDigits_append, Nat.mul_comm, Nat.add_comm]

theorem readDigits_eq_ok {limit value n : Nat} {cs : List Char} (fits : value ≤ limit) :
    readDigits limit value cs = .ok n ↔
      (∀ c ∈ cs, c.isDigit = true) ∧ n = value * 10 ^ cs.length + ofDigits cs ∧ n ≤ limit := by
  induction cs generalizing value with
  | nil =>
    simp [readDigits, ofDigits]
    omega
  | cons c cs ih =>
    rw [readDigits, ofDigits_cons, List.length_cons]
    by_cases digit : c.isDigit = true
    · simp only [digit, Bool.not_true, Bool.false_eq_true, if_false, List.forall_mem_cons, true_and]
      generalize c.toNat - '0'.toNat = d
      have shifted : (value * 10 + d) * 10 ^ cs.length =
          value * 10 ^ (cs.length + 1) + d * 10 ^ cs.length := by ring
      split
      · next large =>
        -- the digits that follow cannot make the number smaller again
        have grows : value * 10 + d ≤ (value * 10 + d) * 10 ^ cs.length :=
          Nat.le_mul_of_pos_right _ (Nat.pow_pos (by decide))
        simp only [reduceCtorEq, false_iff, not_and]
        omega
      · next small =>
        rw [ih (by omega), shifted, Nat.add_assoc]
    · simp [digit]

theorem readMagnitude_eq_ok {limit n : Nat} {cs : List Char} :
    readMagnitude limit cs = .ok n ↔ AllDigits cs ∧ n = ofDigits cs ∧ n ≤ limit := by
  rw [readMagnitude, AllDigits]
  cases cs with
  | nil => simp
  | cons c cs =>
    rw [if_neg (by simp), readDigits_eq_ok (Nat.zero_le _)]
    simp

theorem decimal_plus {cs : List Char} {n : Int} :
    Decimal ('+' :: cs) n ↔ AllDigits cs ∧ n = ofDigits cs := by
  constructor
  · intro decimal
    cases decimal with
    | plain digits => exact absurd (digits.2 '+' (by simp)) (by decide)
    | plus digits => exact ⟨digits, rfl⟩
  · rintro ⟨digits, rfl⟩
    exact .plus digits

theorem decimal_minus {cs : List Char} {n : Int} :
    Decimal ('-' :: cs) n ↔ AllDigits cs ∧ n = -(ofDigits cs : Int) := by
  constructor
  · intro decimal
    cases decimal with
    | plain digits => exact absurd (digits.2 '-' (by simp)) (by decide)
    | minus digits => exact ⟨digits, rfl⟩
  · rintro ⟨digits, rfl⟩
    exact .minus digits

theorem decimal_unsigned {cs : List Char} {n : Int} (plus : ∀ rest, cs ≠ '+' :: rest)
    (minus : ∀ rest, cs ≠ '-' :: rest) : Decimal cs n ↔ AllDigits cs ∧ n = ofDigits cs := by
  constructor
  · intro decimal
    cases decimal with
    | plain digits => exact ⟨digits, rfl⟩
    | plus _ => exact absurd rfl (plus _)
    | minus _ => exact absurd rfl (minus _)
  · rintro ⟨digits, rfl⟩
    exact .plain digits

theorem toOption_eq_some {ε α : Type} {x : Except ε α} {a : α} :
    x.toOption = some a ↔ x = .ok a := by
  cases x <;> simp [Except.toOption]

theorem readInt?_eq_some {cs : List Char} {n : Int} : readInt? cs = some n ↔ Signed64 cs n := by
  rw [readInt?.eq_def, Signed64]
  split
  · have noNumber : ¬ Decimal [] n := fun decimal => by
      cases decimal with
      | plain digits => exact digits.1 rfl
    simp [noNumber]
  · simp only [decimal_plus, Option.map_eq_some_iff, toOption_eq_some,
      readMagnitude_eq_ok, maxSigned]
    grind
  · simp only [decimal_minus, Option.map_eq_some_iff, toOption_eq_some, readMagnitude_eq_ok,
      maxSigned, Option.bind_eq_bind, Option.bind_eq_some_iff, Option.pure_def, Option.some.injEq]
    grind
  · next notEmpty plus minus =>
    rw [decimal_unsigned plus minus]
    simp only [Option.map_eq_some_iff, toOption_eq_some, readDigits_eq_ok (Nat.zero_le _),
      maxSigned, AllDigits]
    grind

theorem ofDigits_eq_ofDigitChars (cs : List Char) : ofDigits cs = Nat.ofDigitChars 10 cs 0 := by
  induction cs with
  | nil => rfl
  | cons c cs ih =>
    rw [ofDigits_cons, ih, Nat.ofDigitChars_cons, @Nat.ofDigitChars_eq_ofDigitChars_zero cs (_ + _)]
    ring

theorem allDigits_toDigits (n : Nat) : AllDigits (Nat.toDigits 10 n) :=
  ⟨Nat.toDigits_ne_nil, fun _ within => Nat.isDigit_of_mem_toDigits (by decide) (by decide) within⟩

theorem ofDigits_toDigits (n : Nat) : ofDigits (Nat.toDigits 10 n) = n := by
  rw [ofDigits_eq_ofDigitChars, Nat.ofDigitChars_ten_toDigits]

theorem readInt?_toDigits {n : Nat} (fits : n < 2 ^ 63) :
    readInt? (Nat.toDigits 10 n) = some (n : Int) := by
  have decimal := Decimal.plain (allDigits_toDigits n)
  rw [ofDigits_toDigits] at decimal
  exact readInt?_eq_some.mpr ⟨decimal, by omega, by omega⟩

theorem readNat_le {limit n : Nat} {cs : List Char} (read : readNat limit cs = .ok n) :
    n ≤ limit := by
  rw [readNat.eq_def] at read
  split at read
  · contradiction
  · exact (readMagnitude_eq_ok.mp read).2.2
  · exact ((readDigits_eq_ok (Nat.zero_le _)).mp read).2.2

theorem readNat_toDigits {limit n : Nat} (fits : n ≤ limit) :
    readNat limit (Nat.toDigits 10 n) = .ok n := by
  have digits := allDigits_toDigits n
  rw [readNat.eq_def]
  split
  · next nothing => exact absurd nothing digits.1
  · next rest signed =>
    rw [signed] at digits
    exact absurd (digits.2 '+' List.mem_cons_self) (by decide)
  · exact (readDigits_eq_ok (Nat.zero_le _)).mpr ⟨digits.2, by simp [ofDigits_toDigits], fits⟩

end SourceStepper.Text
