import SourceStepper.Loader

namespace SourceStepper.Loader

inductive Request
  | contracts
  | contract (name : String)
  | mapping (code : CodeText) (isCreation : Bool)
  deriving DecidableEq

abbrev Requests := List (FileTree × Request)

def serve (l : Loader) (files : FileTree) : Request → Loader
  | .contracts => (l.artifacts files).2
  | .contract name => (l.find files name).2
  | .mapping code isCreation => (l.resolve files code isCreation).2

/-- The loader of a project after requests. -/
def served (root dir : String) (requests : Requests) : Loader :=
  requests.foldl (fun l (files, request) => l.serve files request) (.ofProject root dir)

def scannedAt (root dir : String) (requests : Requests) : Option (List Contract) :=
  requests.head?.map fun (files, _) => scanArtifacts files (Path.join root dir)

/-- What the first of some requests for the mapping of a code has found. -/
def foundAt (root dir : String) (requests : Requests) (code : CodeText) (isCreation : Bool) :
    Option Mapping :=
  (requests.find? (·.2 = .mapping code isCreation)).bind fun (files, _) =>
    (scannedAt root dir requests).map ((Loader.ofProject root dir).mappingBy files code isCreation)

structure Remembers (root dir : String) (requests : Requests) (l : Loader) : Prop where
  projectRoot : l.projectRoot = root
  buildDir : l.buildDir = Path.join root dir
  contracts : l.contracts = scannedAt root dir requests
  cache : ∀ code isCreation,
    l.cache.lookup (code, isCreation) = foundAt root dir requests code isCreation

variable {root dir : String} {requests : Requests} {l : Loader}

/-- Of a loader, only the root of its project counts for a mapping. -/
theorem mappingBy_root (projectRoot : l.projectRoot = root) (dir : String) (files : FileTree)
    (code : CodeText) (isCreation : Bool) (contracts : List Contract) :
    l.mappingBy files code isCreation contracts =
      (ofProject root dir).mappingBy files code isCreation contracts := by
  subst projectRoot
  induction contracts with
  | nil => rfl
  | cons contract rest ih => simp only [mappingBy, ih]; rfl

theorem scanned_stays (files : FileTree) (request : Request) :
    scannedAt root dir (requests ++ [(files, request)]) =
      (scannedAt root dir requests).or (some (scanArtifacts files (Path.join root dir))) := by
  cases requests <;> rfl

theorem artifacts_served (remembers : Remembers root dir requests l) (files : FileTree)
    (request : Request) :
    some (l.artifacts files).1 = scannedAt root dir (requests ++ [(files, request)]) ∧
      (l.artifacts files).2 = { l with contracts := some (l.artifacts files).1 } := by
  rw [scanned_stays, ← remembers.contracts, ← remembers.buildDir]
  unfold artifacts
  cases same : l.contracts with
  | none => exact ⟨rfl, rfl⟩
  | some contracts =>
    refine ⟨rfl, ?_⟩
    simp only
    rw [← same]

theorem found_stays (files : FileTree) (request : Request) (code : CodeText) (isCreation : Bool) :
    foundAt root dir (requests ++ [(files, request)]) code isCreation =
      (foundAt root dir requests code isCreation).or
        (if request = .mapping code isCreation then
          (scannedAt root dir (requests ++ [(files, request)])).map
            ((Loader.ofProject root dir).mappingBy files code isCreation)
        else none) := by
  cases requests with
  | nil => by_cases same : request = .mapping code isCreation <;> simp [foundAt, same]
  | cons first rest =>
    have scanned : scannedAt root dir (first :: rest ++ [(files, request)]) =
        scannedAt root dir (first :: rest) := rfl
    have some_scanned : (scannedAt root dir (first :: rest)).isSome = true := rfl
    obtain ⟨contracts, scan⟩ := Option.isSome_iff_exists.mp some_scanned
    rw [foundAt, foundAt, scanned, scan, List.find?_append]
    cases (first :: rest).find? (·.2 = .mapping code isCreation) with
    | some _ => rfl
    | none => by_cases same : request = .mapping code isCreation <;> simp [same]

theorem ofProject_remembers : Remembers root dir [] (ofProject root dir) :=
  ⟨rfl, rfl, rfl, fun _ _ => rfl⟩

theorem scanned_remembers (remembers : Remembers root dir requests l) (files : FileTree)
    {request : Request} (other : ∀ code isCreation, request ≠ .mapping code isCreation) :
    Remembers root dir (requests ++ [(files, request)]) (l.artifacts files).2 := by
  obtain ⟨scanned, same⟩ := artifacts_served remembers files request
  rw [same]
  refine ⟨remembers.projectRoot, remembers.buildDir, scanned, fun code isCreation => ?_⟩
  rw [found_stays, if_neg (other code isCreation), Option.or_none]
  exact remembers.cache code isCreation

theorem scanned_of_found {code : CodeText} {isCreation : Bool} {mapping : Mapping}
    (found : foundAt root dir requests code isCreation = some mapping) (files : FileTree)
    (request : Request) :
    scannedAt root dir (requests ++ [(files, request)]) = scannedAt root dir requests := by
  cases requests with
  | nil => contradiction
  | cons first rest => rfl

theorem resolve_cached {code : CodeText} {isCreation : Bool} {mapping : Mapping}
    (remembers : Remembers root dir requests l)
    (found : foundAt root dir requests code isCreation = some mapping) (files : FileTree) :
    Remembers root dir (requests ++ [(files, .mapping code isCreation)]) l := by
  refine ⟨remembers.projectRoot, remembers.buildDir, ?_, ?_⟩
  · rw [scanned_of_found found, remembers.contracts]
  · intro code' isCreation'
    rw [found_stays, remembers.cache]
    by_cases same : Request.mapping code isCreation = .mapping code' isCreation'
    · cases same
      rw [found]
      rfl
    · rw [if_neg same, Option.or_none]

theorem resolve_new {code : CodeText} {isCreation : Bool}
    (remembers : Remembers root dir requests l)
    (new : foundAt root dir requests code isCreation = none)
    (files : FileTree) {mapping : Mapping}
    (answer : (ofProject root dir).mappingBy files code isCreation (l.artifacts files).1 =
      mapping) :
    Remembers root dir (requests ++ [(files, .mapping code isCreation)])
        { (l.artifacts files).2 with cache := l.cache ++ [((code, isCreation), mapping)] } ∧
      foundAt root dir (requests ++ [(files, .mapping code isCreation)]) code isCreation =
        some mapping := by
  obtain ⟨scanned, same⟩ := artifacts_served remembers files (.mapping code isCreation)
  have found : ∀ code' isCreation',
      foundAt root dir (requests ++ [(files, .mapping code isCreation)]) code' isCreation' =
        (foundAt root dir requests code' isCreation').or
          (if (code, isCreation) = (code', isCreation') then some mapping else none) := by
    intro code' isCreation'
    rw [found_stays, ← scanned]
    by_cases here : code = code' ∧ isCreation = isCreation'
    · obtain ⟨rfl, rfl⟩ := here
      simp [answer]
    · simp [here]
  rw [same]
  refine ⟨⟨remembers.projectRoot, remembers.buildDir, scanned, ?_⟩, ?_⟩
  · intro code' isCreation'
    rw [List.lookup_append, remembers.cache, found]
    by_cases here : (code, isCreation) = (code', isCreation')
    · rw [if_pos here, here, List.lookup_cons_self]
    · have elsewhere : ((code', isCreation') == (code, isCreation)) = false := by
        simpa using Ne.symm here
      simp only [if_neg here, List.lookup_cons, elsewhere, List.lookup_nil]
  · rw [found, new, if_pos rfl]
    rfl

/-- A loader answers with what it has found at the first request for a mapping. -/
theorem resolve_remembers (remembers : Remembers root dir requests l) (files : FileTree)
    (code : CodeText) (isCreation : Bool) :
    Remembers root dir (requests ++ [(files, .mapping code isCreation)])
        (l.resolve files code isCreation).2 ∧
      foundAt root dir (requests ++ [(files, .mapping code isCreation)]) code isCreation =
        some (l.resolve files code isCreation).1 := by
  have known := remembers.cache code isCreation
  unfold resolve
  cases cached : l.cache.lookup (code, isCreation) with
  | some mapping =>
    rw [cached] at known
    refine ⟨resolve_cached remembers known.symm files, ?_⟩
    rw [found_stays, ← known]
    rfl
  | none =>
    rw [cached] at known
    obtain ⟨_, same⟩ := artifacts_served remembers files (.mapping code isCreation)
    have projectRoot : (l.artifacts files).2.projectRoot = root := by
      rw [same]
      exact remembers.projectRoot
    have keeps : (l.artifacts files).2.cache = l.cache := by rw [same]
    have new := resolve_new remembers known.symm files
      (mappingBy_root projectRoot dir files code isCreation _).symm
    simpa only [keeps] using new

theorem serve_remembers (remembers : Remembers root dir requests l) (files : FileTree)
    (request : Request) :
    Remembers root dir (requests ++ [(files, request)]) (l.serve files request) := by
  cases request with
  | contracts => exact scanned_remembers remembers files (by simp)
  | contract name => exact scanned_remembers remembers files (by simp)
  | mapping code isCreation => exact (resolve_remembers remembers files code isCreation).1

theorem served_remembers (root dir : String) (requests : Requests) :
    Remembers root dir requests (served root dir requests) := by
  -- The induction starts from any loader, behind the requests that it has answered.
  have later : ∀ (requests before : Requests) (l : Loader), Remembers root dir before l →
      Remembers root dir (before ++ requests)
        (requests.foldl (fun l (files, request) => l.serve files request) l) := by
    intro requests
    induction requests with
    | nil =>
      intro before l remembers
      rwa [List.append_nil]
    | cons first rest ih =>
      intro before l remembers
      have := ih _ _ (serve_remembers remembers first.1 first.2)
      rwa [List.append_assoc] at this
  exact later requests [] _ ofProject_remembers

end SourceStepper.Loader
