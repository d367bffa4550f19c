import Mathlib.Tactic.Common
import SourceStepper.Toml.Value

namespace SourceStepper.Toml

theorem digits?_all {cs : List Char} (notEmpty : cs ≠ []) (digits : ∀ c ∈ cs, c.isDigit = true) :
    digits? Char.isDigit cs = some cs := by
  induction cs with
  | nil => contradiction
  | cons c cs ih =>
    have first := digits c (List.mem_cons_self ..)
    have later : ∀ d ∈ cs, d.isDigit = true :=
      fun d within => digits d (List.mem_cons_of_mem _ within)
    cases cs with
    | nil => simp [digits?, first]
    | cons d cs =>
      have notMark : d ≠ '_' := by
        rintro rfl
        exact absurd (later '_' (List.mem_cons_self ..)) (by decide)
      rw [digits?.eq_def]
      split <;> simp_all

theorem hexValue?_digit {c : Char} (digit : c.isDigit = true) :
    (Text.hexValue? c).getD 0 = c.toNat - '0'.toNat := by
  simp only [Char.isDigit, Bool.and_eq_true, decide_eq_true_eq, ge_iff_le] at digit
  have decimal : '0' ≤ c ∧ c ≤ '9' := digit
  simp [Text.hexValue?, decimal]

theorem foldl_digits (value : Nat) {cs : List Char} (digits : ∀ c ∈ cs, c.isDigit = true) :
    cs.foldl (fun n c => n * 10 + (Text.hexValue? c).getD 0) value =
      Nat.ofDigitChars 10 cs value := by
  induction cs generalizing value with
  | nil => rfl
  | cons c cs ih =>
    rw [List.foldl_cons, hexValue?_digit (digits c (List.mem_cons_self ..)),
      ih _ fun d within => digits d (List.mem_cons_of_mem _ within), Nat.ofDigitChars_cons,
      Nat.mul_comm]

theorem digit_toDigits {n : Nat} {c : Char} (within : c ∈ Nat.toDigits 10 n) : c.isDigit = true :=
  Nat.isDigit_of_mem_toDigits (by decide) (by decide) within

theorem valueOf_toDigits (n : Nat) : valueOf 10 (Nat.toDigits 10 n) = n := by
  rw [valueOf, foldl_digits 0 fun c => digit_toDigits, Nat.ofDigitChars_ten_toDigits]

/-- A number other than zero is written without a zero in front. -/
theorem head_toDigits {n : Nat} (positive : 0 < n) : (Nat.toDigits 10 n).head? ≠ some '0' := by
  induction n using Nat.strongRecOn with
  | ind n ih =>
    by_cases small : n < 10
    · rw [Nat.toDigits_of_lt_base small]
      simp
      omega
    · have shorter := ih (n / 10) (by omega) (by omega)
      rw [Nat.toDigits_of_base_le (by decide) (by omega), List.head?_append]
      cases front : (Nat.toDigits 10 (n / 10)).head? with
      | none => exact absurd (List.head?_eq_none_iff.mp front) Nat.toDigits_ne_nil
      | some c => rwa [Option.some_or, ← front]

theorem wholeDigits?_toDigits (n : Nat) :
    wholeDigits? (Nat.toDigits 10 n) = some (Nat.toDigits 10 n) := by
  have all := digits?_all Nat.toDigits_ne_nil fun c => digit_toDigits (n := n) (c := c)
  rw [wholeDigits?, all, Option.bind_eq_bind, Option.bind_some]
  rcases Nat.eq_zero_or_pos n with rfl | positive
  · rfl
  · simp [head_toDigits positive]

theorem readInteger?_toDigits (n : Nat) : readInteger? (Nat.toDigits 10 n) = some (n : Int) := by
  have notEmpty : Nat.toDigits 10 n ≠ [] := Nat.toDigits_ne_nil
  have digits := fun c => digit_toDigits (n := n) (c := c)
  have whole := wholeDigits?_toDigits n
  have value := valueOf_toDigits n
  generalize Nat.toDigits 10 n = cs at *
  match cs, notEmpty with
  | c :: cs, _ =>
    simp only [List.forall_mem_cons] at digits
    have unsigned : dropSign (c :: cs) = (false, c :: cs) := by
      unfold dropSign
      split
      · next same => rw [(List.cons.inj same).1] at digits; exact absurd digits.1 (by decide)
      · next same => rw [(List.cons.inj same).1] at digits; exact absurd digits.1 (by decide)
      · rfl
    have noLetter {x : Char} {rest : List Char} (same : c :: cs = '0' :: x :: rest) :
        x.isDigit = true :=
      digits.2 x (by rw [(List.cons.inj same).2]; exact List.mem_cons_self ..)
    unfold readInteger?
    split
    · next same => exact absurd (noLetter same) (by decide)
    · next same => exact absurd (noLetter same) (by decide)
    · next same => exact absurd (noLetter same) (by decide)
    · simp [unsigned, whole, value]

end SourceStepper.Toml
