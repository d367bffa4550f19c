import Mathlib.Tactic.Common
import SourceStepper.Text.Split

namespace SourceStepper.Text

section Separators

variable {sep : Char} {cs front back : List Char}

theorem length_fields (sep : Char) (cs : List Char) :
    (fields sep cs).length = cs.count sep + 1 := by
  have counted : (cs.foldr (fields.cons sep) ([], [])).2.length = cs.count sep := by
    induction cs with
    | nil => rfl
    | cons c cs ih =>
      rw [List.foldr_cons, fields.cons, List.count_cons]
      by_cases h : c = sep <;> simp [h, ih]
  simp [fields, counted]

theorem fields_eq_splitOn (sep : Char) (cs : List Char) : fields sep cs = cs.splitOn sep := by
  induction cs with
  | nil => rfl
  | cons c cs ih =>
    rw [List.splitOn_cons_eq_if_modifyHead, ← ih, fields, fields, List.foldr_cons, fields.cons]
    by_cases h : c = sep <;> simp [h]

theorem mem_splitOn {part : List Char} (mem : part ∈ cs.splitOn sep) :
    sep ∉ part ∧ part.Sublist cs := by
  induction cs generalizing part with
  | nil => simp_all
  | cons c cs ih =>
    obtain ⟨first, rest, split⟩ := List.exists_cons_of_ne_nil (List.splitOn_ne_nil sep cs)
    rw [List.splitOn_cons_eq_if_modifyHead] at mem
    rw [split] at ih mem
    by_cases here : c = sep
    · simp only [here, beq_self_eq_true, if_true] at mem
      rcases List.mem_cons.mp mem with rfl | later
      · exact ⟨List.not_mem_nil, List.nil_sublist _⟩
      · exact ⟨(ih later).1, (ih later).2.cons c⟩
    · simp only [beq_iff_eq, here, if_false, List.modifyHead_cons] at mem
      rcases List.mem_cons.mp mem with rfl | later
      · obtain ⟨unbroken, within⟩ := ih List.mem_cons_self
        exact ⟨by simp [unbroken, Ne.symm here], within.cons_cons c⟩
      · obtain ⟨unbroken, within⟩ := ih (List.mem_cons_of_mem _ later)
        exact ⟨unbroken, within.cons c⟩

theorem fields_append (last : sep ∉ back) (front : List Char) :
    fields sep (front ++ sep :: back) = fields sep front ++ [back] := by
  rw [fields_eq_splitOn, fields_eq_splitOn, List.splitOn_append_cons_self,
    List.splitOn_eq_singleton last]

theorem cutLast?_eq_none : cutLast? sep cs = none ↔ sep ∉ cs := by
  induction cs with
  | nil => simp [cutLast?]
  | cons c cs ih =>
    rw [cutLast?, List.mem_cons, not_or, ← ih]
    cases cutLast? sep cs with
    | some cut => simp
    | none => simp [eq_comm]

theorem cutLast?_eq_some : cutLast? sep cs = some (front, back) ↔
    cs = front ++ sep :: back ∧ sep ∉ back := by
  constructor
  · intro cut
    induction cs generalizing front with
    | nil => contradiction
    | cons c cs ih =>
      rw [cutLast?] at cut
      split at cut
      · next later =>
        cases cut
        obtain ⟨rfl, last⟩ := ih later
        exact ⟨rfl, last⟩
      · next absent =>
        split at cut
        · next here =>
          cases cut
          exact ⟨here ▸ rfl, cutLast?_eq_none.mp absent⟩
        · contradiction
  · rintro ⟨rfl, last⟩
    induction front with
    | nil => rw [List.nil_append, cutLast?, cutLast?_eq_none.mpr last]; simp
    | cons c front ih => rw [List.cons_append, cutLast?, ih]

end Separators

section Front

variable {α : Type} [BEq α] [LawfulBEq α] {part xs back : List α}

theorem dropPrefix?_eq_some : dropPrefix? part xs = some back ↔ xs = part ++ back := by
  rw [dropPrefix?]
  split
  · next starts =>
    obtain ⟨rest, rfl⟩ := List.isPrefixOf_iff_prefix.mp starts
    simp
  · next other =>
    simp only [reduceCtorEq, false_iff]
    rintro rfl
    exact other (List.isPrefixOf_iff_prefix.mpr (List.prefix_append part back))

theorem dropPrefix?_eq_none : dropPrefix? part xs = none ↔ ∀ back, xs ≠ part ++ back := by
  simp only [← dropPrefix?_eq_some, Option.eq_none_iff_forall_ne_some, ne_eq]

end Front

section Part

variable {part cs front back : List Char}

theorem cutAt?_eq_some :
    cutAt? part cs = some (front, back) ↔
      cs = front ++ (part ++ back) ∧
        ∀ front' back', cs = front' ++ (part ++ back') → front.length ≤ front'.length := by
  induction cs generalizing front with
  | nil => cases part <;> simp +contextual [cutAt?, eq_comm]
  | cons c cs ih =>
    rw [cutAt?]
    split
    · next rest starts =>
      have starts := dropPrefix?_eq_some.mp starts
      constructor
      · intro cut
        obtain ⟨rfl, rfl⟩ : [] = front ∧ rest = back := by simpa using cut
        exact ⟨starts, fun _ _ _ => Nat.zero_le _⟩
      · rintro ⟨occurs, first⟩
        obtain rfl := List.length_eq_zero_iff.mp (Nat.le_zero.mp (first [] rest starts))
        rw [List.append_cancel_left (starts.symm.trans occurs)]
    · next other =>
      have other := dropPrefix?_eq_none.mp other
      simp only [Option.map_eq_some_iff, Prod.exists, Prod.mk.injEq]
      constructor
      · rintro ⟨front, back', cut, rfl, rfl⟩
        obtain ⟨rfl, first⟩ := ih.mp cut
        refine ⟨rfl, fun front' back occurs => ?_⟩
        cases front' with
        | nil => exact absurd occurs (other back)
        | cons d front' => exact Nat.succ_le_succ (first front' back (List.cons.inj occurs).2)
      · rintro ⟨occurs, first⟩
        cases front with
        | nil => exact absurd occurs (other back)
        | cons d front =>
          obtain ⟨rfl, rfl⟩ := List.cons.inj occurs
          refine ⟨front, back, ih.mpr ⟨rfl, fun front' back' occurs => ?_⟩, rfl, rfl⟩
          exact Nat.le_of_succ_le_succ (first (c :: front') back' (congrArg (c :: ·) occurs))

theorem exists_cutAt? (occurs : cs = front ++ (part ++ back)) :
    ∃ front' back', cutAt? part cs = some (front', back') := by
  induction cs generalizing front with
  | nil =>
    obtain ⟨-, rfl, -⟩ : front = [] ∧ part = [] ∧ back = [] := by simpa [and_assoc] using occurs
    exact ⟨[], [], rfl⟩
  | cons c cs ih =>
    rw [cutAt?]
    split
    · next rest _ => exact ⟨[], rest, rfl⟩
    · next other =>
      cases front with
      | nil => exact absurd occurs (dropPrefix?_eq_none.mp other back)
      | cons d front =>
        obtain ⟨front', back', cut⟩ := ih (List.cons.inj occurs).2
        exact ⟨c :: front', back', by rw [cut]; rfl⟩

end Part

end SourceStepper.Text
