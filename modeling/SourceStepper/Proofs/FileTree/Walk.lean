import SourceStepper.Proofs.FileTree.WellFormed

namespace SourceStepper.FileTree

variable {t : FileTree} {key rest : List String} {name : String} {node : FileNode}

theorem nameIn?_eq_some {place : List String} :
    nameIn? key place = some name ↔ place = key ++ [name] ∧ isWayOut name = false := by
  rw [← Text.dropPrefix?_eq_some, nameIn?]
  split
  · next entry cut =>
    rw [cut, Option.some.injEq, List.singleton_inj]
    by_cases out : isWayOut entry = true
    · rw [if_pos out]
      refine iff_of_false nofun ?_
      rintro ⟨rfl, within⟩
      exact Bool.false_ne_true (within.symm.trans out)
    · rw [if_neg out, Option.some.injEq, iff_self_and]
      rintro rfl
      exact Bool.not_eq_true _ ▸ out
  · next other => exact iff_of_false nofun fun held => other name held.1

theorem mem_entriesAt :
    (name, node) ∈ t.entriesAt key ↔ t.nodes.get? (key ++ [name]) = some node ∧
      isWayOut name = false := by
  simp only [entriesAt, List.mem_filterMap, Prod.exists, Option.map_eq_some_iff, Prod.mk.injEq,
    nameIn?_eq_some]
  constructor
  · rintro ⟨place, node', held, name', ⟨rfl, within⟩, rfl, rfl⟩
    exact ⟨OrderedMap.mem_entries_iff.mp held, within⟩
  · rintro ⟨held, within⟩
    exact ⟨key ++ [name], node, OrderedMap.mem_entries_iff.mpr held, name, ⟨rfl, within⟩, rfl, rfl⟩

theorem lt_of_append_lt {front xs ys : List String} (before : front ++ xs < front ++ ys) :
    xs < ys := by
  induction front with
  | nil => exact before
  | cons a front ih =>
    rcases List.cons_lt_cons_iff.mp before with less | ⟨-, behind⟩
    · exact absurd less (String.lt_irrefl a)
    · exact ih behind

theorem increasing_entriesAt (t : FileTree) (key : List String) :
    (t.entriesAt key).Pairwise fun a b => a.1 < b.1 := by
  refine List.Pairwise.filterMap _ ?_ t.nodes.increasing
  rintro ⟨place, node⟩ ⟨place', node'⟩ before _ isEntry _ isEntry'
  obtain ⟨name, named, rfl⟩ := Option.map_eq_some_iff.mp isEntry
  obtain ⟨name', named', rfl⟩ := Option.map_eq_some_iff.mp isEntry'
  rw [(nameIn?_eq_some.mp named).1, (nameIn?_eq_some.mp named').1] at before
  simpa [List.cons_lt_cons_iff] using lt_of_append_lt before

theorem starts_walked {depth : Nat} {place : List String}
    (visited : place ∈ (match node with
      | .file _ => [[name]]
      | .directory =>
        (t.walk depth (key ++ [name])).map (name :: ·))) : ∃ rest, place = name :: rest := by
  cases node with
  | file content => exact ⟨[], List.mem_singleton.mp visited⟩
  | directory =>
    obtain ⟨rest, -, rfl⟩ := List.mem_map.mp visited
    exact ⟨rest, rfl⟩

theorem increasing_walk (t : FileTree) (depth : Nat) (key : List String) :
    (t.walk depth key).Pairwise (· < ·) := by
  induction depth generalizing key with
  | zero => exact .nil
  | succ depth ih =>
    rw [walk, List.pairwise_flatMap]
    constructor
    · rintro ⟨name, node⟩ -
      cases node with
      | file content => exact List.pairwise_singleton ..
      | directory =>
        refine List.Pairwise.map _ (fun a b before => ?_) (ih (key ++ [name]))
        exact List.cons_lt_cons_iff.mpr (.inr ⟨rfl, before⟩)
    · -- the names of two entries decide, whatever stands behind them
      refine (increasing_entriesAt t key).imp ?_
      rintro ⟨name, node⟩ ⟨name', node'⟩ before place visited place' visited'
      obtain ⟨rest, rfl⟩ := starts_walked visited
      obtain ⟨rest', rfl⟩ := starts_walked visited'
      exact List.cons_lt_cons_iff.mpr (.inl before)

/-- The file that stands below a place, behind these names. -/
def HoldsFile (t : FileTree) (key rest : List String) (content : ByteArray) : Prop :=
  rest ≠ [] ∧ (∀ name ∈ rest, isWayOut name = false) ∧
    t.nodes.get? (key ++ rest) = some (.file content)

theorem length_le_depth (there : t.nodes.contains key = true) : key.length ≤ t.depth := by
  rw [depth]
  have mem := OrderedMap.mem_keys_iff.mpr there
  generalize t.nodes.keys = keys at mem ⊢
  induction keys with
  | nil => exact absurd mem List.not_mem_nil
  | cons first keys ih =>
    rw [List.foldr_cons]
    rcases List.mem_cons.mp mem with rfl | later
    · exact Nat.le_max_left ..
    · exact Nat.le_trans (ih later) (Nat.le_max_right ..)

namespace WellFormed

theorem mem_walk_of_depth (wf : t.WellFormed) {depth : Nat} :
    rest ∈ t.walk depth key ↔ rest.length ≤ depth ∧ ∃ content, t.HoldsFile key rest content := by
  induction depth generalizing key rest with
  | zero =>
    refine iff_of_false List.not_mem_nil ?_
    rintro ⟨short, content, nonempty, -⟩
    exact nonempty (List.length_eq_zero_iff.mp (Nat.le_zero.mp short))
  | succ depth ih =>
    rw [walk, List.mem_flatMap]
    constructor
    · rintro ⟨⟨name, node⟩, isEntry, visited⟩
      obtain ⟨held, within⟩ := mem_entriesAt.mp isEntry
      cases node with
      | file content =>
        obtain rfl := List.mem_singleton.mp visited
        exact ⟨Nat.succ_le_succ (Nat.zero_le depth), content,
          List.cons_ne_nil _ _, by simpa using within, held⟩
      | directory =>
        obtain ⟨rest, behind, rfl⟩ := List.mem_map.mp visited
        obtain ⟨short, content, nonempty, within', held'⟩ := ih.mp behind
        rw [← List.append_cons] at held'
        exact ⟨Nat.succ_le_succ short, content, List.cons_ne_nil _ _,
          List.forall_mem_cons.mpr ⟨within, within'⟩, held'⟩
    · rintro ⟨short, content, nonempty, within, held⟩
      obtain ⟨name, rest, rfl⟩ := List.exists_cons_of_ne_nil nonempty
      rw [List.forall_mem_cons] at within
      cases rest with
      | nil =>
        exact ⟨(name, .file content), mem_entriesAt.mpr ⟨held, within.1⟩, List.mem_singleton_self _⟩
      | cons next rest =>
        rw [List.append_cons] at held
        have directory := directory_held (wf.directory_of_below (OrderedMap.contains_of_get? held))
        refine ⟨(name, .directory), mem_entriesAt.mpr ⟨directory, within.1⟩, List.mem_map_of_mem ?_⟩
        exact ih.mpr ⟨Nat.le_of_succ_le_succ short, content, List.cons_ne_nil _ _, within.2, held⟩

theorem mem_walk (wf : t.WellFormed) :
    rest ∈ t.walk t.depth key ↔ ∃ content, t.HoldsFile key rest content := by
  rw [wf.mem_walk_of_depth, and_iff_right_of_imp]
  rintro ⟨content, -, -, held⟩
  have bound := length_le_depth (OrderedMap.contains_of_get? held)
  rw [List.length_append] at bound
  omega

theorem read?_below (wf : t.WellFormed) {path : String} {content : ByteArray}
    (found : t.find? path = some key) (held : t.HoldsFile key rest content) :
    t.read? (rest.foldl Path.join path) = some content := by
  obtain ⟨-, within, held⟩ := held
  rw [read?, wf.find?_below found within (OrderedMap.contains_of_get? held), Option.bind_some, held]

end WellFormed

end SourceStepper.FileTree
