import Mathlib.Tactic.Common
import SourceStepper.FileTree

namespace SourceStepper.FileTree

variable {t : FileTree} {key target : List String} {node : FileNode}

theorem isDirectoryAt_alter {change : Option FileNode → Option FileNode}
    (free : t.isDirectoryAt target = false) (there : t.isDirectoryAt key = true) :
    isDirectoryAt ⟨t.nodes.alter target change⟩ key = true := by
  have other : key ≠ target := by
    rintro rfl
    exact Bool.false_ne_true (free.symm.trans there)
  rwa [isDirectoryAt, OrderedMap.get?_alter, if_neg other]

theorem isDirectoryAt_insert (free : t.isDirectoryAt target = false)
    (there : t.isDirectoryAt key = true) :
    isDirectoryAt ⟨t.nodes.insert target node⟩ key = true :=
  isDirectoryAt_alter free there

def entered (key : List String) (name : String) : List String :=
  if name = "" ∨ name = "." then key else if name = ".." then parent key else key ++ [name]

theorem follow?_cons (t : FileTree) (key : List String) (name : String) (rest : List String) :
    t.follow? key (name :: rest) =
      if t.isDirectoryAt key = true then t.follow? (entered key name) rest else none := by
  rw [follow?, entered]
  by_cases there : t.isDirectoryAt key = true
  · rw [there, Bool.not_true, if_neg Bool.false_ne_true, if_pos rfl, apply_ite (t.follow? · rest),
      apply_ite (t.follow? · rest)]
  · rw [if_neg there, if_pos (by simpa using there)]

theorem follow?_insert (free : t.isDirectoryAt target = false) {steps : List String}
    {place : List String} (reached : t.follow? key steps = some place) :
    follow? ⟨t.nodes.insert target node⟩ key steps = some place := by
  induction steps generalizing key with
  | nil =>
    rw [follow?] at reached ⊢
    split at reached
    · next there =>
      rw [if_pos, reached]
      rw [Bool.or_eq_true] at there ⊢
      exact there.imp_right fun there => (OrderedMap.contains_insert ..).mpr (.inr there)
    · contradiction
  | cons name steps ih =>
    rw [follow?_cons] at reached ⊢
    split at reached
    · next there =>
      rw [if_pos (isDirectoryAt_insert free there)]
      exact ih reached
    · contradiction

/-- A path is followed name by name. -/
theorem follow?_append {front back : List String} {place : List String}
    (reached : t.follow? key front = some place) :
    t.follow? key (front ++ back) = t.follow? place back := by
  induction front generalizing key with
  | nil =>
    rw [follow?] at reached
    split at reached
    · rw [List.nil_append, Option.some.inj reached]
    · contradiction
  | cons name front ih =>
    rw [List.cons_append, follow?_cons] at *
    split at reached
    · next there =>
      rw [if_pos there]
      exact ih reached
    · contradiction

theorem follow?_entry {name : String} (ordinary : name ≠ "" ∧ name ≠ "." ∧ name ≠ "..")
    (directory : t.isDirectoryAt key = true) (there : t.nodes.contains (key ++ [name]) = true) :
    t.follow? key [name] = some (key ++ [name]) := by
  obtain ⟨noName, notHere, notUp⟩ := ordinary
  rw [follow?_cons, if_pos directory, entered, if_neg (not_or.mpr ⟨noName, notHere⟩), if_neg notUp,
    follow?, there]
  simp

theorem write?_eq_some {t t' : FileTree} {path : String} {content : ByteArray}
    (written : t.write? path content = some t') :
    ∃ front name key, names path = front ++ [name] ∧ (name ≠ "" ∧ name ≠ "." ∧ name ≠ "..") ∧
      t.isDirectoryAt key = true ∧ t.isDirectoryAt (key ++ [name]) = false ∧
      t'.find? path = some (key ++ [name]) ∧
        t' = ⟨t.nodes.insert (key ++ [name]) (.file content)⟩ := by
  unfold write? at written
  simp only at written
  split at written
  · next name key last reached =>
    split at written
    · contradiction
    next ordinary =>
    split at written
    · contradiction
    next free =>
    obtain ⟨front, steps⟩ := List.getLast?_eq_some_iff.mp last
    rw [steps, List.dropLast_concat] at reached
    obtain ⟨⟨⟨notEmpty, noName⟩, notHere⟩, notUp⟩ :
        ((path.isEmpty = false ∧ name ≠ "") ∧ name ≠ ".") ∧ name ≠ ".." := by
      simpa [not_or, and_assoc] using ordinary
    obtain ⟨there, free⟩ : t.isDirectoryAt key = true ∧
        t.isDirectoryAt (key ++ [name]) = false := by
      simpa using free
    obtain rfl := Option.some.inj written
    refine ⟨front, name, key, steps, ⟨noName, notHere, notUp⟩, there, free, ?_, rfl⟩
    rw [find?, notEmpty, steps, follow?_append (follow?_insert free reached),
      follow?_entry ⟨noName, notHere, notUp⟩ (isDirectoryAt_insert free there)
        ((OrderedMap.contains_insert ..).mpr (.inl rfl))]
    rfl
  · contradiction

theorem find?_write? {t t' : FileTree} {path : String} {content : ByteArray}
    (written : t.write? path content = some t') :
    ∃ key, t'.find? path = some key ∧ t'.nodes.get? key = some (.file content) := by
  obtain ⟨front, name, key, -, -, -, -, found, rfl⟩ := write?_eq_some written
  refine ⟨key ++ [name], found, ?_⟩
  rw [OrderedMap.get?_insert, if_pos rfl]

theorem read?_write? {t t' : FileTree} {path : String} {content : ByteArray}
    (written : t.write? path content = some t') : t'.read? path = some content := by
  obtain ⟨key, found, held⟩ := find?_write? written
  rw [read?, found, Option.bind_some, held]

end SourceStepper.FileTree
