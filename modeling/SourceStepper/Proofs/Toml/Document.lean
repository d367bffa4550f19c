import Mathlib.Algebra.Ring.Nat
import SourceStepper.Proofs.Toml.Scalar
import SourceStepper.Proofs.Toml.Text
import SourceStepper.Toml.Document

namespace SourceStepper.Toml

structure Denotes (written : List Char) (v : Value) : Prop where
  front : ∀ c ∈ written.head?, isSpace c = false
  read : ∀ fuel depth tail,
    readValue? (fuel + 1) depth (written ++ '\n' :: tail) = some (v, '\n' :: tail)

theorem starts_writeText (s : String) :
    ∃ quote rest, (writeText s).toList = quote :: rest ∧ (quote = '"' ∨ quote = '\'') := by
  have form := form_writeText s
  generalize (writeText s).toList = w at *
  cases form with
  | short => exact ⟨_, _, rfl, .inl rfl⟩
  | literal => exact ⟨_, _, rfl, .inr rfl⟩
  | long => exact ⟨_, _, rfl, .inl rfl⟩
  | longLiteral => exact ⟨_, _, rfl, .inr rfl⟩

theorem denotes_writeText (s : String) : Denotes (writeText s).toList (.text s) := by
  obtain ⟨quote, rest, starts, mark⟩ := starts_writeText s
  constructor
  · rw [starts]
    rcases mark with rfl | rfl <;> simp [isSpace]
  · intro fuel depth tail
    have read : readText? ((writeText s).toList ++ '\n' :: tail) = some (s, '\n' :: tail) :=
      readText?_writeText s (by simp) (by simp)
    rw [starts, List.cons_append] at read ⊢
    rw [readValue?.eq_def]
    rcases mark with rfl | rfl <;> simp [read]

theorem bare_digit {c : Char} (digit : c.isDigit = true) : isBareValue c = true := by
  simp [isBareValue, Char.isAlphanum, digit]

theorem run_ends {p : Char → Bool} {run : List Char} (all : ∀ c ∈ run, p c = true) {stop : Char}
    (other : p stop = false) (rest : List Char) :
    (run ++ stop :: rest).takeWhile p = run ∧ (run ++ stop :: rest).dropWhile p = stop :: rest := by
  rw [List.takeWhile_append_of_pos all, List.dropWhile_append_of_pos all]
  simp [other]

theorem readBare?_toDigits {n : Nat} (small : n < 2 ^ 128) (tail : List Char) :
    readBare? (Nat.toDigits 10 n ++ '\n' :: tail) = some (.integer n, '\n' :: tail) := by
  have bare : ∀ c ∈ Nat.toDigits 10 n, isBareValue c = true :=
    fun c within => bare_digit (digit_toDigits within)
  obtain ⟨front, behind⟩ := run_ends bare (by rfl : isBareValue '\n' = false) tail
  have value : Value.ofBare? (Nat.toDigits 10 n) = some (.integer n) := by
    have inRange : isInRange n = true := by
      simp [isInRange]
      omega
    have digits := fun c => digit_toDigits (n := n) (c := c)
    unfold Value.ofBare?
    split
    · next same => rw [same] at digits; exact absurd (digits 't' (by decide)) (by decide)
    split
    · next same => rw [same] at digits; exact absurd (digits 'f' (by decide)) (by decide)
    · simp [readInteger?_toDigits, inRange]
  unfold readBare?
  simp only [front, behind, value]
  split
  · next same => cases same
  · rfl

theorem readValue?_bare {c : Char} (bare : c ∉ ['[', '{', '"', '\'']) (fuel depth : Nat)
    (rest : List Char) :
    readValue? (fuel + 1) depth (c :: rest) = readBare? (c :: rest) := by
  rw [readValue?.eq_def]
  split <;> simp_all

theorem denotes_nat {n : Nat} (small : n < 2 ^ 128) : Denotes (toString n).toList (.integer n) := by
  rw [Nat.toString_eq_repr, Nat.toList_repr]
  have digits := fun c => digit_toDigits (n := n) (c := c)
  constructor
  · intro c first
    have digit := digits c (List.mem_of_mem_head? first)
    simp only [isSpace, Bool.or_eq_false_iff, decide_eq_false_iff_not]
    exact ⟨by rintro rfl; contradiction, by rintro rfl; contradiction⟩
  · intro fuel depth tail
    have read := readBare?_toDigits small tail
    have notEmpty : Nat.toDigits 10 n ≠ [] := Nat.toDigits_ne_nil
    generalize Nat.toDigits 10 n = written at *
    cases written with
    | nil => exact absurd rfl notEmpty
    | cons c rest =>
      have bare : c ∉ ['[', '{', '"', '\''] := by
        intro mark
        simp only [List.mem_cons, List.not_mem_nil, or_false] at mark
        have digit := digits c (List.mem_cons_self ..)
        rcases mark with rfl | rfl | rfl | rfl <;> contradiction
      rw [List.cons_append] at read ⊢
      rw [readValue?_bare bare, read]

structure Bare (key : String) : Prop where
  notEmpty : key.toList ≠ []
  bare : ∀ c ∈ key.toList, isBareKey c = true

instance (key : String) : Decidable (Bare key) :=
  decidable_of_iff (key.toList ≠ [] ∧ key.toList.all isBareKey = true)
    ⟨fun ⟨notEmpty, bare⟩ => ⟨notEmpty, List.all_eq_true.mp bare⟩,
      fun ⟨notEmpty, bare⟩ => ⟨notEmpty, List.all_eq_true.mpr bare⟩⟩

/-- The line that gives a key the value that is written behind it. -/
def line (key : String) (written : List Char) : List Char :=
  key.toList ++ ' ' :: '=' :: ' ' :: (written ++ ['\n'])

theorem plain_bare {c : Char} (bare : isBareKey c = true) :
    isSpace c = false ∧ c ∉ ['#', '[', '\n', '\r', '\uFEFF'] := by
  constructor
  · simp only [isSpace, Bool.or_eq_false_iff, decide_eq_false_iff_not]
    exact ⟨by rintro rfl; contradiction, by rintro rfl; contradiction⟩
  · intro mark
    simp only [List.mem_cons, List.not_mem_nil, or_false] at mark
    rcases mark with rfl | rfl | rfl | rfl | rfl <;> contradiction

theorem Bare.starts {key : String} (bare : Bare key) (rest : List Char) :
    ∃ c cs, key.toList ++ rest = c :: cs ∧ isBareKey c = true := by
  obtain ⟨notEmpty, bare⟩ := bare
  generalize key.toList = cs at *
  cases cs with
  | nil => contradiction
  | cons c cs => exact ⟨c, cs ++ rest, rfl, bare c (List.mem_cons_self ..)⟩

theorem Bare.noSpace {key : String} (bare : Bare key) (rest : List Char) :
    (key.toList ++ rest).dropWhile isSpace = key.toList ++ rest := by
  obtain ⟨c, cs, starts, bareFirst⟩ := bare.starts rest
  simp [starts, (plain_bare bareFirst).1]

theorem readKey?_bare {key : String} (bare : Bare key) (fuel : Nat) (rest : List Char) :
    readKey? (fuel + 1) (key.toList ++ ' ' :: '=' :: rest) = some ([key], '=' :: rest) := by
  obtain ⟨front, behind⟩ := run_ends bare.bare (by rfl : isBareKey ' ' = false) ('=' :: rest)
  have name : readSimpleKey? (key.toList ++ ' ' :: '=' :: rest) =
      some (key, ' ' :: '=' :: rest) := by
    simp [readSimpleKey?, front, behind, bare.notEmpty]
  rw [readKey?, bare.noSpace, name]
  simp [isSpace]

theorem readLine?_line {key : String} {written : List Char} {v : Value} (bare : Bare key)
    (denotes : Denotes written v) (entries : Entries) (rest : List Char) :
    (Document.mk entries []).readLine? (line key written ++ rest) =
      (entries.add? v key).map fun entries => (⟨entries, []⟩, '\n' :: rest) := by
  have key_read :=
    readKey?_bare bare (line key written ++ rest).length (' ' :: (written ++ '\n' :: rest))
  have noSpace : (' ' :: (written ++ '\n' :: rest)).dropWhile isSpace =
      written ++ '\n' :: rest := by
    have space : isSpace ' ' = true ∧ isSpace '\n' = false := ⟨rfl, rfl⟩
    have front := denotes.front
    cases written with
    | nil => simp [space]
    | cons c written => simp [space, front c rfl]
  have whole :
      line key written ++ rest = key.toList ++ ' ' :: '=' :: ' ' :: (written ++ '\n' :: rest) := by
    simp [line]
  obtain ⟨c, cs, starts, bareFirst⟩ := bare.starts (' ' :: '=' :: ' ' :: (written ++ '\n' :: rest))
  rw [← whole] at starts key_read
  have notTable : c ≠ '[' := by rintro rfl; contradiction
  unfold Document.readLine?
  split
  · next same => rw [starts] at same; exact absurd (List.cons.inj same).1 notTable
  · next same => rw [starts] at same; exact absurd (List.cons.inj same).1 notTable
  · rw [key_read]
    simp only [Option.bind_eq_bind, Option.bind_some, dropMark?, if_true, noSpace, denotes.read,
      Entries.within?, Entries.assign?]
    cases entries.add? v key <;> rfl

theorem endLine?_end (rest : List Char) : endLine? ('\n' :: rest) = some rest := by
  simp [endLine?, isSpace, dropComment?, dropLineEnd?]

theorem endLine?_line {key : String} (bare : Bare key) (rest : List Char) :
    endLine? (key.toList ++ rest) = none := by
  have front := bare.noSpace rest
  obtain ⟨c, cs, starts, bareFirst⟩ := bare.starts rest
  have mark := (plain_bare bareFirst).2
  simp only [List.mem_cons, List.not_mem_nil, or_false, not_or] at mark
  have noComment : dropComment? (c :: cs) = some (c :: cs) := by
    unfold dropComment?
    split
    · next same => exact absurd (List.cons.inj same).1 mark.1
    · rfl
  have noEnd : dropLineEnd? (c :: cs) = none := by
    unfold dropLineEnd?
    split
    · next same => exact absurd (List.cons.inj same).1 mark.2.2.1
    · next same => exact absurd (List.cons.inj same).1 mark.2.2.2.1
    · rfl
  rw [starts] at front ⊢
  simp [endLine?, front, noComment, noEnd]

theorem add?_fresh {entries : Entries} {key : String} (fresh : ∀ e ∈ entries, e.1 ≠ key)
    (v : Value) :
    entries.add? v key = some (entries ++ [(key, v)]) := by
  induction entries with
  | nil => rfl
  | cons e entries ih =>
    obtain ⟨other, v'⟩ := e
    simp only [List.forall_mem_cons] at fresh
    rw [Entries.add?] at ih ⊢
    rw [Entries.change?, if_neg fresh.1, ih fresh.2]
    rfl

structure Line where
  key : String
  written : List Char
  value : Value
  bare : Bare key
  denotes : Denotes written value

def Line.entry (l : Line) : String × Value := (l.key, l.value)

def textOf (lines : List Line) : List Char := lines.flatMap fun l => line l.key l.written

theorem readLines?_line {key : String} {written : List Char} {v : Value} (bare : Bare key)
    (denotes : Denotes written v) {entries : Entries} (fresh : ∀ e ∈ entries, e.1 ≠ key)
    (fuel : Nat) (rest : List Char) :
    (Document.mk entries []).readLines? (fuel + 2) (line key written ++ rest) =
      (Document.mk (entries ++ [(key, v)]) []).readLines? (fuel + 1) rest := by
  have noEnd : endLine? (line key written ++ rest) = none ∧
      (line key written ++ rest).dropWhile isSpace = line key written ++ rest := by
    rw [line, List.append_assoc]
    exact ⟨endLine?_line bare _, bare.noSpace _⟩
  rw [Document.readLines?, noEnd.1, noEnd.2, readLine?_line bare denotes, add?_fresh fresh]
  simp only [Option.map_some, Option.bind_eq_bind, Option.bind_some, endLine?_end]
  cases rest with
  | nil => rfl
  | cons => rfl

theorem readLines?_textOf (lines : List Line) (entries : Entries) {fuel : Nat}
    (enough : lines.length < fuel)
    (distinct : (entries ++ lines.map Line.entry).Pairwise fun a b => a.1 ≠ b.1) :
    (Document.mk entries []).readLines? fuel (textOf lines) =
      some ⟨entries ++ lines.map Line.entry, []⟩ := by
  induction lines generalizing entries fuel with
  | nil =>
    obtain ⟨fuel, rfl⟩ := Nat.exists_eq_succ_of_ne_zero (Nat.ne_of_gt enough)
    rw [List.map_nil, List.append_nil]
    rfl
  | cons l lines ih =>
    obtain ⟨fuel, rfl⟩ : ∃ n, fuel = n + 2 :=
      ⟨fuel - 2, by simp only [List.length_cons] at enough; omega⟩
    have fresh : ∀ e ∈ entries, e.1 ≠ l.key := fun e held =>
      (List.pairwise_append.mp distinct).2.2 e held l.entry (List.mem_cons_self ..)
    rw [textOf, List.flatMap_cons, readLines?_line l.bare l.denotes fresh, ← textOf,
      ih _ (by simpa using enough) (by simpa [Line.entry] using distinct)]
    simp [Line.entry]

theorem length_textOf (lines : List Line) : lines.length ≤ (textOf lines).length := by
  induction lines with
  | nil => exact Nat.le_refl _
  | cons l lines ih =>
    rw [textOf, List.flatMap_cons, ← textOf, List.length_append, List.length_cons]
    simp only [line, List.length_append, List.length_cons]
    omega

/-- The lines of a text are its entries, if they have different keys. -/
theorem ofText?_textOf {lines : List Line} (distinct : lines.Pairwise fun a b => a.key ≠ b.key) :
    ofText? (String.ofList (textOf lines)) = some (lines.map Line.entry) := by
  have enough := length_textOf lines
  have read := readLines?_textOf lines [] (Nat.lt_succ_of_le enough)
    (by rw [List.nil_append, List.pairwise_map]; exact distinct)
  have noMark : ∀ rest, textOf lines ≠ '\uFEFF' :: rest := by
    intro rest same
    cases lines with
    | nil => contradiction
    | cons l lines =>
      obtain ⟨c, cs, starts, bareFirst⟩ :=
        l.bare.starts (' ' :: '=' :: ' ' :: (l.written ++ ['\n']) ++ textOf lines)
      rw [textOf, List.flatMap_cons, ← textOf, line, List.append_assoc, starts] at same
      exact (plain_bare bareFirst).2 (by simp [(List.cons.inj same).1])
  unfold ofText?
  rw [String.toList_ofList]
  split
  · next same => exact absurd same (noMark _)
  · simp only [read]
    rfl

end SourceStepper.Toml
