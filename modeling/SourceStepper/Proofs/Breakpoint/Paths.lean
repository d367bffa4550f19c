import Mathlib.Data.List.Basic
import SourceStepper.Proofs.Breakpoint.Sets
import SourceStepper.Proofs.Text.Spelling
import SourceStepper.Proofs.Text.Split

/-!
Which paths have the same normal form. A path below the source root and the same path with a
directory in front of the root do, unless the name of the root occurs earlier in the directory.
-/
namespace SourceStepper

namespace PathNormalizer

/-- Whether a name of a directory or file can begin behind a text. -/
def StartsName (front : List Char) : Prop := front = [] ∨ front.getLast? = some '/'

instance (front : List Char) : Decidable (StartsName front) :=
  inferInstanceAs (Decidable (front = [] ∨ front.getLast? = some '/'))

/-- A part of a path that is written with slashes, without blanks around it and without `./`
in front. -/
structure Plain (cs : List Char) : Prop where
  slashes : '\\' ∉ cs
  front : ∀ c ∈ cs.head?, Text.isBlank c = false
  back : ∀ c ∈ cs.getLast?, Text.isBlank c = false
  here : ¬ ['.', '/'] <+: cs

theorem plain_iff {cs : List Char} :
    Plain cs ↔ '\\' ∉ cs ∧ cs.head?.any Text.isBlank = false ∧
      cs.getLast?.any Text.isBlank = false ∧
      ¬ ['.', '/'] <+: cs := by
  rw [Option.any_eq_false, Option.any_eq_false]
  exact ⟨fun ⟨slashes, front, back, here⟩ => ⟨slashes, front, back, here⟩,
    fun ⟨slashes, front, back, here⟩ => ⟨slashes, front, back, here⟩⟩

instance (cs : List Char) : Decidable (Plain cs) := decidable_of_iff _ plain_iff.symm

theorem sourceRoot_startsName (root suffix : String) :
    StartsName (ofLayout root suffix).sourceRoot := by
  rw [StartsName, ofLayout]
  dsimp only
  split
  · next closed => simpa using closed
  · simp

theorem StartsName.append {front back : List Char} (starts : StartsName front)
    (starts' : StartsName back) :
    StartsName (front ++ back) := by
  rcases starts' with rfl | last
  · simpa using starts
  · exact .inr (by rw [List.getLast?_append, last]; rfl)

theorem Plain.append {front back : List Char} (plain : Plain front) (plain' : Plain back)
    (starts : StartsName front) : Plain (front ++ back) where
  slashes := by simp [plain.slashes, plain'.slashes]
  front := by
    cases front with
    | nil => exact plain'.front
    | cons c front => exact plain.front
  back := by
    rw [List.getLast?_append]
    cases last : back.getLast? with
    | none => exact plain.back
    | some c => simpa using plain'.back c last
  here := by
    rintro ⟨rest, marked⟩
    match front, starts with
    | [], _ => exact plain'.here ⟨rest, marked⟩
    | [c], .inr last =>
      obtain ⟨rfl, -⟩ := List.cons.inj marked
      exact absurd last (by decide)
    | c :: d :: front, _ =>
      obtain ⟨⟨rfl, rfl⟩, -⟩ : ('.' = c ∧ '/' = d) ∧ rest = front ++ back := by
        simpa [and_assoc] using marked
      exact plain.here ⟨front, rfl⟩

theorem withSlashes_eq_self {cs : List Char} (slashes : '\\' ∉ cs) : withSlashes cs = cs := by
  have kept : ∀ c ∈ cs, (if c = '\\' then '/' else c) = c := by
    rintro c among
    rw [if_neg]
    rintro rfl
    exact slashes among
  exact (List.map_congr_left kept).trans (List.map_id cs)

theorem dropHere_eq_self {cs : List Char} (here : ¬ ['.', '/'] <+: cs) : dropHere cs = cs := by
  unfold dropHere
  split
  · next rest => exact absurd ⟨rest, rfl⟩ here
  · rfl

theorem Plain.normalize {cs : List Char} (plain : Plain cs) (n : PathNormalizer) :
    n.normalize (String.ofList cs) = String.ofList (n.dropSuffix (n.dropRoot cs)) := by
  have trimmed : Text.trim ([] ++ cs ++ []) = cs := Text.trim_blanks nofun plain.front plain.back
  rw [List.nil_append, List.append_nil] at trimmed
  rw [PathNormalizer.normalize, String.toList_ofList, trimmed, withSlashes_eq_self plain.slashes,
    dropHere_eq_self plain.here]

section Root

variable {n : PathNormalizer} {front back path : List Char}

theorem dropRoot_of_startsName (rooted : n.sourceRoot ≠ [])
    (cut : Text.cutAt? n.sourceRoot path = some (front, back)) (starts : StartsName front) :
    n.dropRoot path = back := by
  have below : (front.isEmpty || front.getLast? = some '/') = true := by
    simpa [StartsName] using starts
  simp only [dropRoot, cut, below, List.isEmpty_eq_false_iff.mpr rooted, if_true,
    Bool.false_eq_true, if_false]

theorem dropRoot_of_within (cut : Text.cutAt? n.sourceRoot path = some (front, back))
    (within : ¬ StartsName front) : n.dropRoot path = path := by
  have inside : (front.isEmpty || front.getLast? = some '/') = false := by
    simpa [StartsName] using within
  simp only [dropRoot, cut, inside, Bool.false_eq_true, if_false, ite_self]

theorem dropSuffix_append (front : List Char) : n.dropSuffix (front ++ n.suffix) = front := by
  simp [dropSuffix, Text.dropSuffix?]

theorem dropSuffix_eq_self (other : ¬ n.suffix <:+ path) : n.dropSuffix path = path := by
  simp [dropSuffix, Text.dropSuffix?, other]

theorem dropSuffix_eq_iff (longer : path.length < front.length) :
    n.dropSuffix front = n.dropSuffix path ↔ front = path ++ n.suffix ∧ ¬ n.suffix <:+ path := by
  by_cases ends : n.suffix <:+ front <;> by_cases ends' : n.suffix <:+ path
  · obtain ⟨rest, rfl⟩ := ends
    obtain ⟨rest', rfl⟩ := ends'
    simp only [dropSuffix_append, List.length_append, List.suffix_append,
      not_true_eq_false, and_false, iff_false] at longer ⊢
    rintro rfl
    exact Nat.lt_irrefl _ longer
  · obtain ⟨rest, rfl⟩ := ends
    simp [dropSuffix_append, dropSuffix_eq_self ends', ends']
  · obtain ⟨rest', rfl⟩ := ends'
    rw [dropSuffix_append, dropSuffix_eq_self ends]
    simp only [List.length_append, List.suffix_append, not_true_eq_false, and_false,
      iff_false] at longer ⊢
    rintro rfl
    omega
  · rw [dropSuffix_eq_self ends, dropSuffix_eq_self ends']
    constructor
    · rintro rfl
      exact absurd longer (Nat.lt_irrefl _)
    · rintro ⟨rfl, -⟩
      exact absurd (List.suffix_append _ _) ends

end Root

/-- Whether the root occurs in a path behind `front`. -/
def RootAt (n : PathNormalizer) (path front : List Char) : Prop :=
  ∃ back, path = front ++ (n.sourceRoot ++ back)

section Meeting

variable {n : PathNormalizer} {root suffix : String} {directory path : List Char}

theorem dropRoot_root (rooted : n.sourceRoot ≠ []) (path : List Char) :
    n.dropRoot (n.sourceRoot ++ path) = path :=
  dropRoot_of_startsName rooted (Text.cutAt?_eq_some.mpr ⟨rfl, fun _ _ _ => Nat.zero_le _⟩)
    (.inl rfl)

/-- The directory in front of the root goes with it, unless the root occurs in an earlier place;
then nothing goes. -/
theorem dropRoot_below (rooted : n.sourceRoot ≠ []) (ends : StartsName directory)
    (only : ∀ front, n.RootAt (directory ++ (n.sourceRoot ++ path)) front → StartsName front →
      front = directory) :
    (∀ front, n.RootAt (directory ++ (n.sourceRoot ++ path)) front →
      directory.length ≤ front.length) ∧
        n.dropRoot (directory ++ (n.sourceRoot ++ path)) = path ∨
      (∃ front, n.RootAt (directory ++ (n.sourceRoot ++ path)) front ∧
        front.length < directory.length) ∧
        n.dropRoot (directory ++ (n.sourceRoot ++ path)) = directory ++ (n.sourceRoot ++ path) := by
  obtain ⟨front, back, cut⟩ : ∃ front back,
      Text.cutAt? n.sourceRoot (directory ++ (n.sourceRoot ++ path)) = some (front, back) :=
    Text.exists_cutAt? rfl
  obtain ⟨occurs, first⟩ := Text.cutAt?_eq_some.mp cut
  by_cases starts : StartsName front
  · obtain rfl := only front ⟨back, occurs⟩ starts
    obtain rfl := List.append_cancel_left (List.append_cancel_left occurs)
    exact .inl ⟨fun front' ⟨back', occurs'⟩ => first front' back' occurs',
      dropRoot_of_startsName rooted cut starts⟩
  · have earlier : front.length ≤ directory.length := first directory path rfl
    have other : front.length ≠ directory.length := by
      intro same
      obtain rfl := (List.append_inj_left occurs same.symm)
      exact starts ends
    exact .inr ⟨⟨front, ⟨back, occurs⟩, by omega⟩, dropRoot_of_within cut starts⟩

theorem not_suffix_of_only (rooted : n.sourceRoot ≠ []) (rootEnds : StartsName n.sourceRoot)
    (ends : StartsName directory)
    (only : ∀ front, n.RootAt (directory ++ (n.sourceRoot ++ path)) front → StartsName front →
      front = directory)
    (rest : directory ++ (n.sourceRoot ++ path) = path ++ n.suffix) : ¬ n.suffix <:+ path := by
  rintro ⟨kept, again⟩
  have size : directory.length + n.sourceRoot.length = n.suffix.length := by
    have := congrArg List.length rest
    simp only [List.length_append] at this
    omega
  -- the path is so long that it begins with the directory and the root, and so the root occurs once
  -- more
  have begins : directory ++ n.sourceRoot <+: path := by
    have whole : directory ++ n.sourceRoot <+: path ++ n.suffix :=
      ⟨path, by rw [← rest, List.append_assoc]⟩
    refine List.prefix_of_prefix_length_le whole (List.prefix_append ..) ?_
    rw [← again, List.length_append, List.length_append]
    omega
  obtain ⟨behind, rfl⟩ := begins
  have more := only (directory ++ n.sourceRoot ++ directory) ⟨behind, by simp⟩
    ((ends.append rootEnds).append ends)
  have := congrArg List.length more
  have := List.length_pos_iff.mpr rooted
  simp only [List.length_append] at *
  omega

/-- A path below the root in a directory and the path from the root on have the same normal form,
exactly if the root occurs nowhere in front of that place, or the suffix happens to be all that the
longer path has more. Exactly then a breakpoint that is set with one is reached with the other. -/
theorem normalize_below_root_iff (made : n = ofLayout root suffix) (rooted : n.sourceRoot ≠ [])
    (plainDirectory : Plain directory) (plainRoot : Plain n.sourceRoot) (plainPath : Plain path)
    (ends : StartsName directory)
    (only : ∀ front, n.RootAt (directory ++ (n.sourceRoot ++ path)) front → StartsName front →
      front = directory) :
    let full := directory ++ (n.sourceRoot ++ path)
    let reached := (∀ front, n.RootAt full front → directory.length ≤ front.length) ∨
      full = path ++ n.suffix
    (n.normalize (String.ofList full) = n.normalize (String.ofList (n.sourceRoot ++ path)) ↔
      reached) ∧
      ∀ line, ((Registry.mk n {}).add (String.ofList full) line).2.shouldStop
        (some (String.ofList (n.sourceRoot ++ path))) line = true ↔ reached := by
  intro full reached
  have rootEnds : StartsName n.sourceRoot := made ▸ sourceRoot_startsName root suffix
  have same : n.normalize (String.ofList full) =
      n.normalize (String.ofList (n.sourceRoot ++ path)) ↔ reached := by
    rw [(plainDirectory.append (plainRoot.append plainPath rootEnds) ends).normalize,
      (plainRoot.append plainPath rootEnds).normalize, dropRoot_root rooted, String.ofList_inj]
    rcases dropRoot_below rooted ends only with ⟨first, cut⟩ | ⟨⟨front, occurs, earlier⟩, kept⟩
    · rw [cut]
      exact ⟨fun _ => .inl first, fun _ => rfl⟩
    · have longer : path.length < full.length := by
        have := List.length_pos_iff.mpr rooted
        simp only [full, List.length_append]
        omega
      rw [kept, dropSuffix_eq_iff longer]
      constructor
      · exact fun rest => .inr rest.1
      · rintro (first | rest)
        · exact absurd (first front occurs) (Nat.not_le_of_lt earlier)
        · exact ⟨rest, not_suffix_of_only rooted rootEnds ends only rest⟩
  refine ⟨same, fun line => ?_⟩
  rw [← same, Registry.shouldStop_some, Registry.sets_add, decide_eq_true_iff, Finset.mem_sdiff,
    Registry.Sets.add, Finset.mem_insert]
  simp [Registry.Marks.sets, LinesByFile.lines, LinesByFile.all, OrderedMap.empty,
    Registry.add, eq_comm]

theorem RootAt.place {front : List Char} (occurs : n.RootAt path front) :
    front.length < path.length + 1 ∧ path.take front.length = front ∧
      n.sourceRoot <+: path.drop front.length := by
  obtain ⟨back, rfl⟩ := occurs
  refine ⟨?_, List.take_left, ?_⟩
  · rw [List.length_append]
    omega
  · rw [List.drop_left]
    exact List.prefix_append ..

theorem only_of_places
    (places : ∀ i < path.length + 1, n.sourceRoot <+: path.drop i → StartsName (path.take i) →
      path.take i = directory) : ∀ front, n.RootAt path front → StartsName front →
        front = directory := by
  intro front occurs starts
  obtain ⟨inside, same, here⟩ := occurs.place
  rw [← same] at starts ⊢
  exact places front.length inside here starts

theorem editor_path_reaches_artifact :
    let n := ofLayout defaultSourceRoot defaultSuffix
    let directory := "/home/me/xsrc/".toList
    let path := "token/Token.sol".toList
    let full := directory ++ (n.sourceRoot ++ path)
    (n.sourceRoot ≠ [] ∧ Plain directory ∧ Plain n.sourceRoot ∧ Plain path ∧ StartsName directory ∧
      ∀ front, n.RootAt full front → StartsName front → front = directory) ∧
      n.normalize (String.ofList full) = n.normalize (String.ofList (n.sourceRoot ++ path)) ∧
      ((Registry.mk n {}).add (String.ofList full) 3).2.shouldStop
        (some (String.ofList (n.sourceRoot ++ path))) 3 = true := by
  intro n directory path full
  have rooted : n.sourceRoot ≠ [] := by decide
  have plainDirectory : Plain directory := by decide
  have plainRoot : Plain n.sourceRoot := by decide
  have plainPath : Plain path := by decide
  have ends : StartsName directory := by decide
  have only : ∀ front, n.RootAt full front → StartsName front → front = directory :=
    only_of_places (by decide +kernel)
  have nowhere : ∀ i < directory.length, ¬ n.sourceRoot <+: full.drop i := by decide +kernel
  have first : ∀ front, n.RootAt full front → directory.length ≤ front.length := fun front occurs =>
    Nat.le_of_not_lt fun earlier => nowhere front.length earlier occurs.place.2.2
  obtain ⟨same, stops⟩ :=
    normalize_below_root_iff rfl rooted plainDirectory plainRoot plainPath ends only
  exact ⟨⟨rooted, plainDirectory, plainRoot, plainPath, ends, only⟩, same.mpr (.inl first),
    (stops 3).mpr (.inl first)⟩

/-- The name of the directory ends like the root, which stands behind it. -/
theorem root_hidden_by_name :
    let n := ofLayout "contracts" defaultSuffix
    let directory := "mycontracts/".toList
    let path := "Foo.sol".toList
    let full := directory ++ (n.sourceRoot ++ path)
    (n.sourceRoot ≠ [] ∧ Plain directory ∧ Plain n.sourceRoot ∧ Plain path ∧ StartsName directory ∧
      ∀ front, n.RootAt full front → StartsName front → front = directory) ∧
      n.normalize (String.ofList full) = "mycontracts/contracts/Foo" ∧
      n.normalize (String.ofList (n.sourceRoot ++ path)) = "Foo" := by
  intro n directory path full
  have only : ∀ front, n.RootAt full front → StartsName front → front = directory :=
    only_of_places (by decide +kernel)
  refine ⟨⟨by decide, by decide, by decide, by decide, by decide, only⟩, ?_, ?_⟩ <;> decide +kernel

end Meeting

end PathNormalizer

end SourceStepper
