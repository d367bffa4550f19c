import SourceStepper.Proofs.Artifact.Layout
import SourceStepper.Proofs.FileTree.Walk

namespace SourceStepper

variable {t t' : FileTree} {dir path : String} {key rest : List String} {content : ByteArray}
  {contracts : List Contract}

/-- Whether the content of a file is text, the text a JSON value, and the value an artifact with
these contracts. -/
def ReadsAs (path : String) (content : ByteArray) (contracts : List Contract) : Prop :=
  ∃ text artifact, Text.strict? content = some text ∧ Json.Value.ofText? text = some artifact ∧
    Describes path artifact contracts

def ArtifactName (name : String) : Prop :=
  ".json".toList <:+ name.toList ∧ ¬ "meta.json".toList <:+ name.toList

def FileTree.HasArtifact (t : FileTree) (dir : String) (rest : List String)
    (contracts : List Contract) : Prop :=
  ∃ key content, t.directory? dir = some key ∧ t.HoldsFile key rest content ∧
    ArtifactName (rest.getLastD "") ∧
    ReadsAs (rest.foldl Path.join dir) content contracts

theorem isArtifactName_iff {name : String} : isArtifactName name = true ↔ ArtifactName name := by
  rw [isArtifactName, ArtifactName, Bool.and_eq_true, List.isSuffixOf_iff_suffix, Bool.not_eq_true',
    ← Bool.not_eq_true, List.isSuffixOf_iff_suffix]

theorem loadArtifact_eq_ok :
    loadArtifact t path = .ok contracts ↔ ∃ content, t.read? path = some content ∧
      ReadsAs path content contracts := by
  rw [loadArtifact]
  constructor
  · intro loaded
    split at loaded
    · contradiction
    next text readText =>
    split at loaded
    · contradiction
    next artifact isJson =>
    obtain ⟨content, read, isText⟩ := Option.bind_eq_some_iff.mp readText
    exact ⟨content, read, text, artifact, isText, isJson, contractsOf_iff.mp loaded⟩
  · rintro ⟨content, read, text, artifact, isText, isJson, described⟩
    have readText : t.readText? path = some text :=
      Option.bind_eq_some_iff.mpr ⟨content, read, isText⟩
    rw [readText]
    dsimp only
    rw [isJson]
    exact contractsOf_iff.mpr described

/-- The contracts of the file below a directory, behind these names, if it is an artifact. -/
def artifactAt? (t : FileTree) (dir : String) (rest : List String) : Option (List Contract) :=
  if isArtifactName (rest.getLastD "") then
    (loadArtifact t (rest.foldl Path.join dir)).toOption else none

theorem artifactAt?_eq_some :
    artifactAt? t dir rest = some contracts ↔
      ArtifactName (rest.getLastD "") ∧ loadArtifact t (rest.foldl Path.join dir) =
        .ok contracts := by
  rw [artifactAt?, Option.ite_none_right_eq_some, isArtifactName_iff]
  refine and_congr_right fun _ => ?_
  cases loadArtifact t (rest.foldl Path.join dir) <;> simp [Except.toOption]

def artifacts (t : FileTree) (dir : String) : List (List String × List Contract) :=
  match t.directory? dir with
  | some key =>
    (t.walk t.depth key).filterMap fun rest => (artifactAt? t dir rest).map fun contracts =>
      (rest, contracts)
  | none => []

theorem scan_eq (t : FileTree) (dir : String) :
    scanArtifacts t dir = (artifacts t dir).flatMap Prod.snd := by
  rw [scanArtifacts, FileTree.isDirectory, FileTree.filesBelow, artifacts, FileTree.directory?]
  cases t.find? dir with
  | none => rfl
  | some key =>
    rw [Option.filter_some]
    by_cases directory : t.isDirectoryAt key = true
    · rw [if_pos directory, if_pos directory, List.flatMap_map]
      dsimp only
      rw [List.filterMap_eq_flatMap_toList, List.flatMap_assoc]
      refine List.flatMap_congr fun rest _ => ?_
      rw [artifactAt?]
      split
      · cases loadArtifact t (rest.foldl Path.join dir) <;> simp [Except.toOption]
      · rfl
    · rw [if_neg directory, if_neg directory]
      rfl

theorem increasing_artifacts (t : FileTree) (dir : String) :
    (artifacts t dir).Pairwise fun a b => a.1 < b.1 := by
  rw [artifacts]
  cases t.directory? dir with
  | none => exact .nil
  | some key =>
    refine List.Pairwise.filterMap _ ?_ (FileTree.increasing_walk t t.depth key)
    rintro rest rest' before a isArtifact a' isArtifact'
    obtain ⟨contracts, -, rfl⟩ := Option.map_eq_some_iff.mp isArtifact
    obtain ⟨contracts', -, rfl⟩ := Option.map_eq_some_iff.mp isArtifact'
    exact before

theorem mem_artifacts (wf : t.WellFormed) :
    (rest, contracts) ∈ artifacts t dir ↔ t.HasArtifact dir rest contracts := by
  rw [artifacts]
  cases leads : t.directory? dir with
  | none =>
    exact iff_of_false List.not_mem_nil
      (by rintro ⟨key, content, leads', -⟩; exact nomatch leads.symm.trans leads')
  | some key =>
    have found := (FileTree.directory?_eq_some.mp leads).1
    simp only [List.mem_filterMap, Option.map_eq_some_iff, Prod.mk.injEq, wf.mem_walk]
    constructor
    · rintro ⟨rest, ⟨content, held⟩, contracts, isArtifact, rfl, rfl⟩
      obtain ⟨named, loaded⟩ := artifactAt?_eq_some.mp isArtifact
      obtain ⟨content', read, readsAs⟩ := loadArtifact_eq_ok.mp loaded
      obtain rfl := Option.some.inj ((wf.read?_below found held).symm.trans read)
      exact ⟨key, content, leads, held, named, readsAs⟩
    · rintro ⟨key', content, leads', held, named, readsAs⟩
      obtain rfl := Option.some.inj (leads.symm.trans leads')
      have loaded := loadArtifact_eq_ok.mpr ⟨content, wf.read?_below found held, readsAs⟩
      exact ⟨rest, ⟨content, held⟩, contracts, artifactAt?_eq_some.mpr ⟨named, loaded⟩, rfl, rfl⟩

theorem scan_congr (wf : t.WellFormed) (wf' : t'.WellFormed)
    (same : ∀ rest contracts, t'.HasArtifact dir rest contracts ↔
      t.HasArtifact dir rest contracts) :
    scanArtifacts t' dir = scanArtifacts t dir := by
  rw [scan_eq, scan_eq]
  refine congrArg _
    (OrderedMap.eq_of_mem_iff (increasing_artifacts ..) (increasing_artifacts ..) ?_)
  rintro ⟨rest, contracts⟩
  rw [mem_artifacts wf, mem_artifacts wf', same]

theorem hasArtifact_congr (directory : t'.directory? dir = t.directory? dir)
    (same : ∀ key, t.directory? dir = some key →
      t'.nodes.get? (key ++ rest) = t.nodes.get? (key ++ rest)) :
    t'.HasArtifact dir rest contracts ↔ t.HasArtifact dir rest contracts := by
  refine exists_congr fun key => exists_congr fun content => ?_
  rw [directory]
  refine and_congr_right fun leads => and_congr_left fun _ => ?_
  rw [FileTree.HoldsFile, FileTree.HoldsFile, same key leads]

theorem scan_of_difference (wf : t.WellFormed) (wf' : t'.WellFormed)
    (directory : t'.directory? dir = t.directory? dir) (neither : ∀ key rest,
      t.directory? dir = some key → t'.nodes.get? (key ++ rest) ≠ t.nodes.get? (key ++ rest) →
      ∀ contracts, ¬ t.HasArtifact dir rest contracts ∧ ¬ t'.HasArtifact dir rest contracts) :
    scanArtifacts t' dir = scanArtifacts t dir := by
  refine scan_congr wf wf' fun rest contracts => ?_
  by_cases same : ∀ key, t.directory? dir = some key →
    t'.nodes.get? (key ++ rest) = t.nodes.get? (key ++ rest)
  · exact hasArtifact_congr directory same
  · obtain ⟨key, leads, differ⟩ := by simpa only [not_forall] using same
    exact iff_of_false (neither key rest leads differ contracts).2
      (neither key rest leads differ contracts).1

/-- A file that is put in a place, or taken away from it, matters only if an artifact was there or
is there now. -/
theorem scan_setFile {place : List String} {content : Option ByteArray} (wf : t.WellFormed)
    (wf' : (t.setFile place content).WellFormed) (free : t.isDirectoryAt place = false)
    (neither : ∀ key rest, t.directory? dir = some key → place = key ++ rest →
      ∀ contracts, ¬ t.HasArtifact dir rest contracts ∧
        ¬ (t.setFile place content).HasArtifact dir rest contracts) :
    scanArtifacts (t.setFile place content) dir = scanArtifacts t dir := by
  refine scan_of_difference wf wf'
    (FileTree.directory?_congr (FileTree.isDirectoryAt_setFile free) dir) ?_
  intro key rest leads differ
  rw [FileTree.get?_setFile] at differ
  by_cases here : key ++ rest = place
  · exact neither key rest leads here.symm
  · exact absurd (if_neg here) differ

theorem scan_write? (wf : t.WellFormed) (written : t.write? path content = some t')
    (neither : ∀ key rest, t.directory? dir = some key → t'.find? path = some (key ++ rest) →
      ∀ contracts, ¬ t.HasArtifact dir rest contracts ∧ ¬ t'.HasArtifact dir rest contracts) :
    scanArtifacts t' dir = scanArtifacts t dir := by
  have wf' := wf.write written
  obtain ⟨key, name, -, -, free, found, rfl⟩ := FileTree.write?_setFile written
  exact scan_setFile wf wf' free fun key' rest leads here => neither key' rest leads (here ▸ found)

theorem scan_removeFile? (wf : t.WellFormed) (removed : t.removeFile? path = some t')
    (noArtifact : ∀ key rest, t.directory? dir = some key → t.find? path = some (key ++ rest) →
      ∀ contracts, ¬ t.HasArtifact dir rest contracts) :
        scanArtifacts t' dir = scanArtifacts t dir := by
  have wf' := wf.removeFile removed
  obtain ⟨place, found, free, rfl⟩ := FileTree.removeFile?_setFile removed
  refine scan_setFile wf wf' free fun key rest leads here contracts => ?_
  refine ⟨noArtifact key rest leads (here ▸ found) contracts, ?_⟩
  rintro ⟨key', content, leads', ⟨-, -, held⟩, -⟩
  rw [FileTree.directory?_congr (FileTree.isDirectoryAt_setFile free)] at leads'
  obtain rfl := Option.some.inj (leads.symm.trans leads')
  rw [FileTree.get?_setFile, if_pos here.symm] at held
  contradiction

/-- The scan gives exactly the contracts of the artifacts below the directory, in the order of
their places compared name by name. Whatever else is different in another tree, the scan of it is
the same. -/
theorem scan_exact (dir : String) (wf : t.WellFormed) :
    (∃ found : List (List String × List Contract), scanArtifacts t dir = found.flatMap Prod.snd ∧
      (found.Pairwise fun a b => a.1.map (Text.utf8 ·.toList) < b.1.map (Text.utf8 ·.toList)) ∧
      ∀ rest contracts, (rest, contracts) ∈ found ↔ t.HasArtifact dir rest contracts) ∧
    ∀ t' : FileTree, t'.WellFormed → t'.directory? dir = t.directory? dir →
      (∀ key rest, t.directory? dir = some key →
        t'.nodes.get? (key ++ rest) ≠ t.nodes.get? (key ++ rest) →
        ∀ contracts, ¬ t.HasArtifact dir rest contracts ∧ ¬ t'.HasArtifact dir rest contracts) →
      scanArtifacts t' dir = scanArtifacts t dir := by
  refine ⟨⟨artifacts t dir, scan_eq t dir, ?_, fun rest contracts => mem_artifacts wf⟩,
    fun t' wf' => scan_of_difference wf wf'⟩
  refine List.Pairwise.imp ?_ (increasing_artifacts t dir)
  exact fun before => List.map_lt (fun _ _ => Text.utf8_lt) before

/-- A build directory with two artifacts, the second of which comes first if paths are compared as
texts, with metadata, and with a file that is no artifact. -/
def FileTree.ofNested : FileTree :=
  let one := "\x7b\"contracts\":\x7b\"B\":\x7b\x7d,\"A\":\x7b\"bin\":\"00\",\"size\":1\x7d\x7d\x7d"
  let two := "\x7b\"contracts\":\x7b\"C\":\x7b\x7d,\"D\":null\x7d,\"sourceList\":[]\x7d"
  [("b/z/one.json", one), ("b/z-1/two.json", two), ("b/z.meta.json", one),
    ("b/bad.json", "x")].foldl
    (fun t (path, text) => t.add path (.file text.toUTF8)) {}

theorem scan_ofNested :
    FileTree.ofNested.WellFormed ∧ (scanArtifacts .ofNested "b").map (·.name) = ["A", "B", "C"] ∧
      scanArtifacts (FileTree.ofNested.setFile ["b", "bad.json"] none) "b" =
        scanArtifacts .ofNested "b" := by
  have wf : FileTree.ofNested.WellFormed := ⟨by decide +kernel, by decide +kernel⟩
  have wf' : (FileTree.ofNested.setFile ["b", "bad.json"] none).WellFormed :=
    ⟨by decide +kernel, by decide +kernel⟩
  have leads : FileTree.ofNested.directory? "b" = some ["b"] := by decide +kernel
  have leads' : (FileTree.ofNested.setFile ["b", "bad.json"] none).directory? "b" = some ["b"] := by
    decide +kernel
  have bad : FileTree.ofNested.nodes.get? ["b", "bad.json"] = some (.file "x".toUTF8) := by rfl
  have gone :
      (FileTree.ofNested.setFile ["b", "bad.json"] none).nodes.get? ["b", "bad.json"] = none := by
    rw [FileTree.get?_setFile, if_pos rfl, Option.map_none]
  refine ⟨wf, by decide +kernel, (scan_exact "b" wf).2 _ wf' (leads'.trans leads.symm) ?_⟩
  intro key rest isDirectory differ contracts
  obtain rfl := Option.some.inj (leads.symm.trans isDirectory)
  obtain rfl : rest = ["bad.json"] := by
    by_contra other
    exact differ (by rw [FileTree.get?_setFile, if_neg (by simpa using other)])
  constructor
  · rintro ⟨key, content, isDirectory, ⟨-, -, held⟩, -, text, artifact, isText, isJson, -⟩
    obtain rfl := Option.some.inj (leads.symm.trans isDirectory)
    obtain rfl := FileNode.file.inj (Option.some.inj (bad.symm.trans held))
    obtain rfl : "x" = text := Option.some.inj (.trans (by decide +kernel) isText)
    have notJson : (Json.Value.ofText? "x").isNone = true := by decide +kernel
    rw [isJson] at notJson
    exact Bool.false_ne_true notJson
  · rintro ⟨key, content, isDirectory, ⟨-, -, held⟩, -⟩
    obtain rfl := Option.some.inj (leads'.symm.trans isDirectory)
    exact nomatch gone.symm.trans held

end SourceStepper
