import Mathlib.Data.List.DropRight
import Mathlib.Tactic.Common
import SourceStepper.Text.Blank

namespace SourceStepper.Text

variable {cs : List Char}

theorem notBlank_of_isDigit {c : Char} (digit : c.isDigit = true) : isBlank c = false := by
  have range : 48 ≤ c.toNat ∧ c.toNat ≤ 57 := by
    simpa [Char.isDigit, UInt32.le_iff_toNat_le] using digit
  simp only [isBlank, Bool.or_eq_false_iff, Bool.and_eq_false_iff, decide_eq_false_iff_not,
    beq_eq_false_iff_ne]
  omega

theorem trimStart_eq_self_iff : trimStart cs = cs ↔ ∀ c ∈ cs.head?, isBlank c = false := by
  cases cs with
  | nil => simp [trimStart]
  | cons c cs => simp [trimStart, List.dropWhile_eq_self_iff]

theorem trimEnd_eq_self_iff : trimEnd cs = cs ↔ ∀ c ∈ cs.getLast?, isBlank c = false := by
  rw [trimEnd, ← List.head?_reverse, ← trimStart_eq_self_iff, trimStart, List.reverse_eq_iff]

theorem trimStart_sublist (cs : List Char) : (trimStart cs).Sublist cs :=
  List.dropWhile_sublist _

theorem trimEnd_initial (cs : List Char) : trimEnd cs <+: cs := by
  rw [trimEnd, ← List.reverse_suffix, List.reverse_reverse]
  exact List.dropWhile_suffix _

theorem trimEnd_sublist (cs : List Char) : (trimEnd cs).Sublist cs := (trimEnd_initial cs).sublist

theorem trim_sublist (cs : List Char) : (trim cs).Sublist cs :=
  (trimEnd_sublist _).trans (trimStart_sublist cs)

theorem trim_eq_self_iff :
    trim cs = cs ↔ (∀ c ∈ cs.head?, isBlank c = false) ∧ ∀ c ∈ cs.getLast?, isBlank c = false := by
  constructor
  · intro kept
    have front : trimStart cs = cs := by
      refine (trimStart_sublist cs).antisymm ?_
      nth_rewrite 1 [← kept]
      exact trimEnd_sublist _
    rw [trim, front] at kept
    exact ⟨trimStart_eq_self_iff.mp front, trimEnd_eq_self_iff.mp kept⟩
  · rintro ⟨front, back⟩
    rw [trim, trimStart_eq_self_iff.mpr front, trimEnd_eq_self_iff.mpr back]

theorem trim_trim (cs : List Char) : trim (trim cs) = trim cs := by
  have start : trimStart (trimStart cs) = trimStart cs := List.dropWhile_idempotent _ _
  have stop : trimEnd (trim cs) = trim cs := by
    rw [trim, trimEnd, trimEnd, List.reverse_reverse, List.dropWhile_idempotent]
  rw [trim_eq_self_iff]
  refine ⟨fun c first => ?_, trimEnd_eq_self_iff.mp stop⟩
  obtain ⟨rest, kept⟩ := trimEnd_initial (trimStart cs)
  apply trimStart_eq_self_iff.mp start
  rw [← kept]
  exact List.mem_head?_append_of_mem_head? first

def IsWord (cs : List Char) : Prop := cs ≠ [] ∧ ∀ c ∈ cs, isBlank c = false

instance (cs : List Char) : Decidable (IsWord cs) :=
  decidable_of_iff (cs ≠ [] ∧ cs.all (!isBlank ·) = true) (by simp [IsWord])

theorem foldr_consWord {word : List Char} (plain : ∀ c ∈ word, isBlank c = false)
    (p : List Char × List (List Char)) : word.foldr consWord p = (word ++ p.1, p.2) := by
  induction word with
  | nil => rfl
  | cons c word ih =>
    obtain ⟨here, behind⟩ := List.forall_mem_cons.mp plain
    rw [List.foldr_cons, ih behind, consWord, here]
    rfl

theorem words_word {word : List Char} (isWord : IsWord word) : words word = [word] := by
  obtain ⟨notEmpty, plain⟩ := isWord
  rw [words, foldr_consWord plain]
  simp [consWord.addWord, notEmpty]

theorem words_append {word : List Char} {c : Char} (isWord : IsWord word) (blank : isBlank c = true)
    (behind : List Char) : words (word ++ c :: behind) = word :: words behind := by
  obtain ⟨notEmpty, plain⟩ := isWord
  rw [words, List.foldr_append, foldr_consWord plain, List.foldr_cons, consWord, blank]
  simp [consWord.addWord, notEmpty, words]

theorem addWord_isWord {word : List Char} {rest : List (List Char)}
    (plain : ∀ c ∈ word, isBlank c = false) (words : ∀ w ∈ rest, IsWord w) :
    ∀ w ∈ consWord.addWord word rest, IsWord w := by
  rw [consWord.addWord]
  split
  · exact words
  · next notEmpty => exact List.forall_mem_cons.mpr ⟨⟨by simpa using notEmpty, plain⟩, words⟩

theorem foldr_consWord_isWord (cs : List Char) :
    (∀ c ∈ (cs.foldr consWord ([], [])).1, isBlank c = false) ∧
      ∀ w ∈ (cs.foldr consWord ([], [])).2, IsWord w := by
  induction cs with
  | nil => exact ⟨nofun, nofun⟩
  | cons c cs ih =>
    obtain ⟨plain, words⟩ := ih
    rw [List.foldr_cons, consWord]
    split
    · exact ⟨nofun, addWord_isWord plain words⟩
    · next notBlank => exact ⟨List.forall_mem_cons.mpr ⟨by simpa using notBlank, plain⟩, words⟩

theorem isWord_of_mem_words {word : List Char} (mem : word ∈ words cs) : IsWord word :=
  addWord_isWord (foldr_consWord_isWord cs).1 (foldr_consWord_isWord cs).2 word mem

end SourceStepper.Text
