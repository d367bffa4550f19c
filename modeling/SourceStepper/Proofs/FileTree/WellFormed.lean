import Mathlib.Data.List.Basic
import SourceStepper.Proofs.FileTree.Write
import SourceStepper.Proofs.Text.Split

/-!
Trees in which everything stands in a directory, under a name that can be a part of a path. Writing
and removing files keeps a tree so, and whatever a directory holds, however deep, is found under the
path of the directory with the names joined to it.
-/
namespace SourceStepper.FileTree

/-- Whether a text is the name of a file or a directory, as it stands between the slashes of
a path. -/
def IsName (name : String) : Prop := name ≠ "" ∧ name ≠ "." ∧ name ≠ ".." ∧ '/' ∉ name.toList

instance (name : String) : Decidable (IsName name) := inferInstanceAs (Decidable (_ ∧ _ ∧ _ ∧ _))

structure WellFormed (t : FileTree) : Prop where
  held : ∀ place ∈ t.nodes.keys, t.isDirectoryAt place.dropLast = true
  named : ∀ place ∈ t.nodes.keys, ∀ name ∈ place.getLast?, isWayOut name = true ∨ IsName name

variable {t t' : FileTree} {key rest : List String} {name path : String} {node : FileNode}

theorem isDirectoryAt_iff : t.isDirectoryAt key = true ↔
    key = [] ∨ t.nodes.get? key = some .directory := by
  rw [isDirectoryAt, Bool.or_eq_true, List.isEmpty_iff, Option.any_eq_true]
  refine or_congr_right ⟨?_, fun held => ⟨_, held, rfl⟩⟩
  rintro ⟨node, held, isDirectory⟩
  cases node with
  | file content => contradiction
  | directory => exact held

theorem directory_held (there : t.isDirectoryAt (key ++ [name]) = true) :
    t.nodes.get? (key ++ [name]) = some .directory :=
  (isDirectoryAt_iff.mp there).resolve_left (by simp)

namespace WellFormed

theorem directory_of_entry (wf : t.WellFormed) (there : t.nodes.contains (key ++ [name]) = true) :
    t.isDirectoryAt key = true := by
  simpa using wf.held _ (OrderedMap.mem_keys_iff.mpr there)

theorem isName_of_entry (wf : t.WellFormed) (there : t.nodes.contains (key ++ [name]) = true)
    (within : isWayOut name = false) : IsName name := by
  refine (wf.named _ (OrderedMap.mem_keys_iff.mpr there) name (by simp)).resolve_left ?_
  rw [within]
  exact Bool.false_ne_true

theorem entry_of_below (wf : t.WellFormed) (there : t.nodes.contains (key ++ name :: rest) = true) :
    t.nodes.contains (key ++ [name]) = true := by
  induction rest generalizing key name with
  | nil => exact there
  | cons next rest ih =>
    rw [List.append_cons] at there
    exact OrderedMap.contains_of_get? (directory_held (wf.directory_of_entry (ih there)))

theorem directory_of_below (wf : t.WellFormed)
    (there : t.nodes.contains (key ++ name :: rest) = true) :
    t.isDirectoryAt key = true :=
  wf.directory_of_entry (wf.entry_of_below there)

end WellFormed

section Joined

theorem names_eq (path : String) :
    names path = (if Path.isAbsolute path.toList then ["/"] else []) ++
      (Text.fields '/' path.toList).map String.ofList := by
  rw [names]
  split <;> rfl

/-- What stands behind the last slash is the last name. -/
theorem names_behind_slash (front : List Char) (split : path.toList = front ++ '/' :: name.toList)
    (last : '/' ∉ name.toList) :
    names path = (if Path.isAbsolute (front ++ ['/']) then ["/"] else []) ++
      (Text.fields '/' front).map String.ofList ++ [name] := by
  have same : Path.isAbsolute path.toList = Path.isAbsolute (front ++ ['/']) := by
    rw [split]
    cases front <;> rfl
  rw [names_eq, same, split, Text.fields_append last, List.map_append, List.append_assoc]
  simp

/-- The last of the names to a joined path is the joined one. A slash that the path ends with has
the empty name behind it, which gives way. -/
theorem names_join (nonempty : path ≠ "") (isName : IsName name) :
    ∃ front, names (Path.join path name) = front ++ [name] ∧
      (names path = front ∨ names path = front ++ [""]) := by
  obtain ⟨-, -, -, noSlash⟩ := isName
  have relative : ¬ Path.isAbsolute name.toList = true := by
    rw [Path.isAbsolute, decide_eq_true_eq]
    exact fun first => noSlash (List.mem_of_head? first)
  rw [Path.join, if_neg relative]
  split
  · next needed =>
    refine ⟨names path, ?_, .inl rfl⟩
    have same : Path.isAbsolute (path.toList ++ ['/']) = Path.isAbsolute path.toList := by
      cases cs : path.toList with
      | nil => exact absurd (String.toList_eq_nil_iff.mp cs) nonempty
      | cons c cs => rfl
    rw [names_behind_slash path.toList (by simp) noSlash, same, ← names_eq]
  · next ended =>
    obtain ⟨front, cs⟩ : ∃ front, path.toList = front ++ ['/'] := by
      refine List.getLast?_eq_some_iff.mp ?_
      simpa [Path.needsSlash, nonempty] using ended
    refine ⟨_, names_behind_slash front (by simp [cs]) noSlash, .inr ?_⟩
    exact names_behind_slash front (by simpa using cs) (by simp)

theorem follow?_here (directory : t.isDirectoryAt key = true) : t.follow? key [] = some key := by
  rw [follow?, if_pos]
  rw [Bool.or_eq_true, List.isEmpty_iff]
  exact (isDirectoryAt_iff.mp directory).imp_right OrderedMap.contains_of_get?

theorem follow?_split {front : List String} {place : List String}
    (reached : t.follow? key (front ++ name :: rest) = some place) :
    ∃ mid, t.follow? key front = some mid ∧ t.follow? mid (name :: rest) = some place := by
  induction front generalizing key with
  | nil =>
    refine ⟨key, ?_, reached⟩
    rw [List.nil_append, follow?_cons] at reached
    split at reached
    · next directory => exact follow?_here directory
    · contradiction
  | cons step front ih =>
    rw [List.cons_append, follow?_cons] at reached
    rw [follow?_cons]
    split at reached
    · next directory =>
      rw [if_pos directory]
      exact ih reached
    · contradiction

theorem find?_join (found : t.find? path = some key) (directory : t.isDirectoryAt key = true)
    (isName : IsName name) (there : t.nodes.contains (key ++ [name]) = true) :
    t.find? (Path.join path name) = some (key ++ [name]) := by
  have nonempty : path ≠ "" := by
    rintro rfl
    contradiction
  obtain ⟨front, split, whole⟩ := names_join nonempty isName
  have joined : Path.join path name ≠ "" := by
    intro empty
    rw [empty, show names "" = [] ++ [""] from rfl] at split
    exact isName.1 (List.append_inj_right' split rfl |> List.singleton_inj.mp).symm
  rw [find?, if_neg (by simpa using nonempty)] at found
  have reached : t.follow? [] front = some key := by
    rcases whole with rfl | closed
    · exact found
    · rw [closed] at found
      obtain ⟨mid, reached, stays⟩ := follow?_split found
      rw [follow?_cons] at stays
      split at stays
      · next holder =>
        rw [reached, ← stays, show entered mid "" = mid from rfl, follow?_here holder]
      · contradiction
  rw [find?, if_neg (by simpa using joined), split, follow?_append reached,
    follow?_entry ⟨isName.1, isName.2.1, isName.2.2.1⟩ directory there]

/-- The path of what stands below the directory that a path leads to. -/
theorem WellFormed.find?_below (wf : t.WellFormed) (found : t.find? path = some key)
    (within : ∀ name ∈ rest, isWayOut name = false)
    (there : t.nodes.contains (key ++ rest) = true) :
    t.find? (rest.foldl Path.join path) = some (key ++ rest) := by
  induction rest generalizing path key with
  | nil => rwa [List.append_nil]
  | cons name rest ih =>
    rw [List.forall_mem_cons] at within
    have entry := wf.entry_of_below there
    have isName := wf.isName_of_entry entry within.1
    rw [List.append_cons] at there ⊢
    exact ih (find?_join found (wf.directory_of_entry entry) isName entry) within.2 there

end Joined

section Changed

variable {place : List String} {content : Option ByteArray}

def setFile (t : FileTree) (place : List String) (content : Option ByteArray) : FileTree :=
  ⟨t.nodes.alter place fun _ => content.map .file⟩

theorem get?_setFile (t : FileTree) (place : List String) (content : Option ByteArray)
    (key : List String) :
    (t.setFile place content).nodes.get? key =
      if key = place then content.map .file else t.nodes.get? key :=
  OrderedMap.get?_alter ..

theorem isDirectoryAt_setFile (free : t.isDirectoryAt place = false) (key : List String) :
    (t.setFile place content).isDirectoryAt key = t.isDirectoryAt key := by
  rw [Bool.eq_iff_iff]
  by_cases here : key = place
  · subst here
    refine iff_of_false (fun there => ?_) (Bool.eq_false_iff.mp free)
    have notRoot : key ≠ [] :=
      fun root => Bool.eq_false_iff.mp free (isDirectoryAt_iff.mpr (.inl root))
    have held := (isDirectoryAt_iff.mp there).resolve_left notRoot
    rw [get?_setFile, if_pos rfl] at held
    cases content <;> simp at held
  · rw [isDirectoryAt_iff, isDirectoryAt_iff, get?_setFile, if_neg here]

theorem WellFormed.setFile (wf : t.WellFormed) (free : t.isDirectoryAt place = false)
    (fits : content ≠ none → t.isDirectoryAt place.dropLast = true ∧
      ∀ name ∈ place.getLast?, isWayOut name = true ∨ IsName name) :
        (t.setFile place content).WellFormed := by
  have kept {key : List String} (there : key ∈ (t.setFile place content).nodes.keys) :
      key ∈ t.nodes.keys ∨ key = place ∧ content ≠ none := by
    rw [OrderedMap.mem_keys_iff, OrderedMap.contains, get?_setFile] at there
    rw [OrderedMap.mem_keys_iff, OrderedMap.contains]
    split at there
    · next here =>
      refine .inr ⟨here, ?_⟩
      rintro rfl
      contradiction
    · exact .inl there
  constructor
  · intro key there
    rw [isDirectoryAt_setFile free]
    rcases kept there with old | ⟨rfl, new⟩
    · exact wf.held key old
    · exact (fits new).1
  · intro key there
    rcases kept there with old | ⟨rfl, new⟩
    · exact wf.named key old
    · exact (fits new).2

theorem noSlash_last {front : List String} (steps : names path = front ++ [name]) :
    '/' ∉ name.toList := by
  have nonempty : (Text.fields '/' path.toList).map String.ofList ≠ [] := by simp [Text.fields]
  have last : ((Text.fields '/' path.toList).map String.ofList).getLast? = some name := by
    rw [← List.getLast?_append_of_ne_nil _ nonempty, ← names_eq, steps, List.getLast?_concat]
  obtain ⟨part, isPart, rfl⟩ := List.mem_map.mp (List.mem_of_getLast? last)
  rw [Text.fields_eq_splitOn] at isPart
  rw [String.toList_ofList]
  exact (Text.mem_splitOn isPart).1

theorem write?_setFile {content : ByteArray} (written : t.write? path content = some t') :
    ∃ key name, t.isDirectoryAt key = true ∧ IsName name ∧ t.isDirectoryAt (key ++ [name]) = false ∧
      t'.find? path = some (key ++ [name]) ∧ t' = t.setFile (key ++ [name]) (some content) := by
  obtain ⟨front, name, key, steps, ⟨noName, notHere, notUp⟩, there, free, found, same⟩ :=
    write?_eq_some written
  exact ⟨key, name, there, ⟨noName, notHere, notUp, noSlash_last steps⟩, free, found, same⟩

theorem WellFormed.write {content : ByteArray} (wf : t.WellFormed)
    (written : t.write? path content = some t') :
    t'.WellFormed := by
  obtain ⟨key, name, there, isName, free, -, rfl⟩ := write?_setFile written
  refine wf.setFile free fun _ => ⟨by simpa using there, ?_⟩
  rintro last isLast
  obtain rfl : name = last := by simpa using isLast
  exact .inr isName

theorem removeFile?_setFile (removed : t.removeFile? path = some t') :
    ∃ key, t.find? path = some key ∧ t.isDirectoryAt key = false ∧ t' = t.setFile key none := by
  rw [removeFile?] at removed
  split at removed
  · next key found =>
    split at removed
    · contradiction
    · next free => exact ⟨key, found, by simpa using free, (Option.some.inj removed).symm⟩
  · contradiction

theorem WellFormed.removeFile (wf : t.WellFormed) (removed : t.removeFile? path = some t') :
    t'.WellFormed := by
  obtain ⟨key, -, free, rfl⟩ := removeFile?_setFile removed
  exact wf.setFile free (absurd rfl)

/-- The place of the directory that a path leads to. -/
def directory? (t : FileTree) (path : String) : Option (List String) :=
  (t.find? path).filter t.isDirectoryAt

theorem follow?_directory (same : ∀ key, t'.isDirectoryAt key = t.isDirectoryAt key)
    {steps : List String} (reached : t.follow? key steps = some place)
    (directory : t.isDirectoryAt place = true) :
    t'.follow? key steps = some place := by
  induction steps generalizing key with
  | nil =>
    rw [follow?] at reached
    split at reached
    · cases reached
      exact follow?_here ((same _).trans directory)
    · contradiction
  | cons name steps ih =>
    rw [follow?_cons] at reached ⊢
    rw [same]
    split at reached
    · next there =>
      rw [if_pos there]
      exact ih reached
    · contradiction

theorem directory?_eq_some : t.directory? path = some key ↔
    t.find? path = some key ∧ t.isDirectoryAt key = true := by
  rw [directory?, Option.filter_eq_some_iff]

theorem directory?_congr (same : ∀ key, t'.isDirectoryAt key = t.isDirectoryAt key)
    (path : String) :
    t'.directory? path = t.directory? path := by
  have leads {t t' : FileTree} (same : ∀ key, t'.isDirectoryAt key = t.isDirectoryAt key)
      {key : List String} (found : t.directory? path = some key) :
      t'.directory? path = some key := by
    rw [directory?_eq_some, find?, Option.ite_none_left_eq_some] at found ⊢
    obtain ⟨⟨nonempty, reached⟩, directory⟩ := found
    exact ⟨⟨nonempty, follow?_directory same reached directory⟩, (same key).trans directory⟩
  exact Option.ext fun place => ⟨leads fun key => (same key).symm, leads same⟩

end Changed

end SourceStepper.FileTree
