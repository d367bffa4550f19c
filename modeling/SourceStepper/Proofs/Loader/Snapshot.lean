import Mathlib.Data.Finset.Card
import SourceStepper.Proofs.Loader.Mapping
import SourceStepper.Proofs.Text.Spelling

namespace SourceStepper

namespace Loader

def Request.pair? : Request → Option (CodeText × Bool)
  | .mapping code isCreation => some (code, isCreation)
  | _ => none

def askedPairs (requests : Requests) : List (CodeText × Bool) := requests.filterMap (·.2.pair?)

def firstFiles (requests : Requests) (files : FileTree) : FileTree :=
  (requests.head?.map Prod.fst).getD files

variable {root dir : String} {requests : Requests} {l : Loader}

theorem served_snoc (requests : Requests) (files : FileTree) (request : Request) :
    served root dir (requests ++ [(files, request)]) =
      (served root dir requests).serve files request := by
  rw [served, List.foldl_append]
  rfl

theorem askedPairs_snoc (requests : Requests) (files : FileTree) (request : Request) :
    askedPairs (requests ++ [(files, request)]) = askedPairs requests ++ request.pair?.toList := by
  cases request <;> simp [askedPairs, Request.pair?]

theorem scannedAt_snoc (requests : Requests) (files : FileTree) (request : Request) :
    scannedAt root dir (requests ++ [(files, request)]) =
      some (scanArtifacts (firstFiles requests files) (Path.join root dir)) := by
  cases requests <;> rfl

theorem foundAt_snoc (requests : Requests) (files : FileTree) (code : CodeText)
    (isCreation : Bool) :
    foundAt root dir (requests ++ [(files, .mapping code isCreation)]) code isCreation =
      some ((ofProject root dir).mappingBy
        (firstFiles (requests.filter (·.2 = .mapping code isCreation)) files) code isCreation
        (scanArtifacts (firstFiles requests files) (Path.join root dir))) := by
  rw [foundAt, scannedAt_snoc, List.find?_append]
  simp only [firstFiles, List.head?_filter]
  cases requests.find? (·.2 = .mapping code isCreation) with
  | none => simp
  | some first => rfl

theorem artifacts_keeps (l : Loader) (files : FileTree) :
    (l.artifacts files).2.cache = l.cache := by
  unfold artifacts
  cases l.contracts <;> rfl

theorem resolve_cases (l : Loader) (files : FileTree) (code : CodeText) (isCreation : Bool) :
    (l.cache.lookup (code, isCreation) = some (l.resolve files code isCreation).1 ∧
      (l.resolve files code isCreation).2 = l) ∨
    (l.cache.lookup (code, isCreation) = none ∧ (l.resolve files code isCreation).2.cache =
      l.cache ++ [((code, isCreation), (l.resolve files code isCreation).1)]) := by
  unfold resolve
  cases cached : l.cache.lookup (code, isCreation) with
  | some mapping => exact .inl ⟨rfl, rfl⟩
  | none => exact .inr ⟨rfl, by simp [artifacts_keeps]⟩

structure Filed (requests : Requests) (l : Loader) : Prop where
  once : (l.cache.map Prod.fst).Nodup
  asked : ∀ pair, pair ∈ l.cache.map Prod.fst ↔ pair ∈ askedPairs requests

theorem mem_of_lookup {pair : CodeText × Bool} {mapping : Mapping}
    (found : l.cache.lookup pair = some mapping) : (pair, mapping) ∈ l.cache := by
  obtain ⟨before, behind, same, _⟩ := List.lookup_eq_some_iff.mp found
  rw [same]
  exact List.mem_append_right _ List.mem_cons_self

theorem resolve_filed (filed : Filed requests l) (files : FileTree) (code : CodeText)
    (isCreation : Bool) :
    Filed (requests ++ [(files, .mapping code isCreation)])
    (l.resolve files code isCreation).2 := by
  have asked : askedPairs (requests ++ [(files, .mapping code isCreation)]) =
      askedPairs requests ++ [(code, isCreation)] := askedPairs_snoc ..
  rcases resolve_cases l files code isCreation with ⟨found, same⟩ | ⟨new, more⟩
  · have known := List.mem_map_of_mem (f := Prod.fst) (mem_of_lookup found)
    rw [same]
    refine ⟨filed.once, fun pair => ?_⟩
    rw [asked, List.mem_append, ← filed.asked, List.mem_singleton]
    exact ⟨.inl, fun member => member.elim id fun here => here ▸ known⟩
  · have absent : (code, isCreation) ∉ l.cache.map Prod.fst := by
      rintro member
      obtain ⟨entry, member, key⟩ := List.mem_map.mp member
      have other := List.lookup_eq_none_iff.mp new entry member
      simp [key] at other
    refine ⟨?_, fun pair => ?_⟩
    · rw [more, List.map_append, List.nodup_append]
      refine ⟨filed.once, by simp, ?_⟩
      rintro pair member _ here rfl
      have here : pair = (code, isCreation) := List.mem_singleton.mp here
      exact absent (here ▸ member)
    · rw [more, asked, List.map_append, List.mem_append, List.mem_append, filed.asked]
      rfl

theorem serve_filed (filed : Filed requests l) (files : FileTree) (request : Request) :
    Filed (requests ++ [(files, request)]) (l.serve files request) := by
  have other : request.pair? = none → (l.serve files request).cache = l.cache →
      Filed (requests ++ [(files, request)]) (l.serve files request) := by
    intro none same
    have asked : askedPairs (requests ++ [(files, request)]) = askedPairs requests := by
      rw [askedPairs_snoc, none, Option.toList_none, List.append_nil]
    exact ⟨same ▸ filed.once, fun pair => by rw [same, asked]; exact filed.asked pair⟩
  cases request with
  | contracts => exact other rfl (artifacts_keeps l files)
  | contract name => exact other rfl (artifacts_keeps l files)
  | mapping code isCreation => exact resolve_filed filed files code isCreation

theorem served_filed (root dir : String) (requests : Requests) :
    Filed requests (served root dir requests) := by
  induction requests using List.reverseRecOn with
  | nil => exact ⟨.nil, fun pair => Iff.rfl⟩
  | append_singleton requests last ih =>
    rw [served_snoc]
    exact serve_filed ih last.1 last.2

theorem served_grows (root dir : String) (requests later : Requests) :
    (served root dir requests).cache <+: (served root dir (requests ++ later)).cache := by
  induction later using List.reverseRecOn with
  | nil => rw [List.append_nil]
  | append_singleton later last ih =>
    rw [← List.append_assoc, served_snoc]
    refine ih.trans ?_
    obtain ⟨files, request⟩ := last
    cases request with
    | contracts => exact (artifacts_keeps _ files).symm ▸ List.prefix_rfl
    | contract name => exact (artifacts_keeps _ files).symm ▸ List.prefix_rfl
    | mapping code isCreation =>
      rcases resolve_cases (served root dir (requests ++ later)) files code isCreation with
        ⟨_, same⟩ | ⟨_, more⟩
      · exact (congrArg cache same).symm ▸ List.prefix_rfl
      · exact more ▸ List.prefix_append ..

theorem slot?_eq_some_iff (filed : Filed requests l) (code : CodeText) (isCreation : Bool)
    (slot : Nat) :
    l.slot? code isCreation = some slot ↔
      ∃ mapping, l.cache[slot]? = some ((code, isCreation), mapping) := by
  rw [slot?, List.findIdx?_eq_some_iff_getElem]
  constructor
  · rintro ⟨within, here, _⟩
    refine ⟨(l.cache[slot]).2, ?_⟩
    rw [List.getElem?_eq_getElem within, ← of_decide_eq_true here]
  · rintro ⟨mapping, here⟩
    obtain ⟨within, same⟩ := List.getElem?_eq_some_iff.mp here
    refine ⟨within, by simp [same], ?_⟩
    intro j before first
    have short : j < (l.cache.map Prod.fst).length := by rw [List.length_map]; omega
    have keys : (l.cache.map Prod.fst)[j]? = (l.cache.map Prod.fst)[slot]? := by
      rw [List.getElem?_map, List.getElem?_map, List.getElem?_eq_getElem (by omega), here]
      exact congrArg some (of_decide_eq_true first)
    have := (List.getElem?_inj short filed.once).mp keys
    omega

theorem resolve_held (l : Loader) (files : FileTree) (code : CodeText) (isCreation : Bool) :
    ∃ slot : Nat, (l.resolve files code isCreation).2.cache[slot]? =
      some ((code, isCreation), (l.resolve files code isCreation).1) := by
  rw [← List.mem_iff_getElem?]
  rcases resolve_cases l files code isCreation with ⟨found, same⟩ | ⟨_, more⟩
  · rw [same]
    exact mem_of_lookup found
  · rw [more]
    exact List.mem_append_right _ List.mem_cons_self

/-- What has been found for a code at some time is found for it at any later time, at the
same place. -/
theorem resolve_again (root dir : String) (requests later : Requests) (files moment : FileTree)
    (code : CodeText) (isCreation : Bool) :
    let kept := (served root dir requests).resolve files code isCreation
    let again := (served root dir (requests ++ (files, .mapping code isCreation) :: later)).resolve
      moment code isCreation
    again.1 = kept.1 ∧
      ∃ slot, kept.2.slot? code isCreation = some slot ∧
        again.2.slot? code isCreation = some slot := by
  intro kept again
  let before := requests ++ [(files, Request.mapping code isCreation)]
  have first : served root dir before = kept.2 := served_snoc ..
  have last : served root dir (before ++ (later ++ [(moment, .mapping code isCreation)])) =
      again.2 := by
    rw [← List.append_assoc, served_snoc, List.append_assoc]
    rfl
  obtain ⟨slot, held⟩ := resolve_held (served root dir requests) files code isCreation
  have stays : again.2.cache[slot]? = some ((code, isCreation), kept.1) := by
    have grows := served_grows root dir before (later ++ [(moment, .mapping code isCreation)])
    rw [first, last] at grows
    obtain ⟨within, same⟩ := List.getElem?_eq_some_iff.mp held
    rw [← same]
    exact List.prefix_iff_getElem?.mp grows slot within
  have filed : Filed (before ++ (later ++ [(moment, .mapping code isCreation)])) again.2 :=
    last ▸ served_filed ..
  -- What is found again stands somewhere in the same cache, where the code has one place only.
  refine ⟨?_, slot, ?_, ?_⟩
  · obtain ⟨other, here⟩ := resolve_held (served root dir
      (requests ++ (files, .mapping code isCreation) :: later)) moment code isCreation
    have place := (slot?_eq_some_iff filed code isCreation slot).mpr ⟨_, stays⟩
    have place' := (slot?_eq_some_iff filed code isCreation other).mpr ⟨_, here⟩
    cases Option.some.inj (place.symm.trans place')
    exact congrArg Prod.snd (Option.some.inj (here.symm.trans stays))
  · exact (slot?_eq_some_iff (resolve_filed (served_filed root dir requests) ..) ..).mpr ⟨_, held⟩
  · exact (slot?_eq_some_iff filed ..).mpr ⟨_, stays⟩

theorem answers_of_snapshot (root dir : String) (requests : Requests) (files : FileTree) :
    let l := served root dir requests
    let contracts := scanArtifacts (firstFiles requests files) (Path.join root dir)
    (l.artifacts files).1 = contracts ∧
      (∀ name, (l.find files name).1 = contracts.find? (·.isNamed name)) ∧
      ∀ code isCreation, (l.resolve files code isCreation).1 =
        (ofProject root dir).mappingBy
          (firstFiles (requests.filter (·.2 = .mapping code isCreation)) files) code isCreation
          contracts := by
  intro l contracts
  have remembers := served_remembers root dir requests
  have scanned : (l.artifacts files).1 = contracts := by
    have scan := (artifacts_served remembers files .contracts).1
    rw [scannedAt_snoc] at scan
    exact Option.some.inj scan
  refine ⟨scanned, fun name => ?_, fun code isCreation => ?_⟩
  · rw [← scanned]
    rfl
  · have found := (resolve_remembers remembers files code isCreation).2
    rw [foundAt_snoc] at found
    exact (Option.some.inj found).symm

theorem cached_eq_card (root dir : String) (requests : Requests) :
    (served root dir requests).cached = (askedPairs requests).toFinset.card := by
  have filed := served_filed root dir requests
  have same : (askedPairs requests).toFinset =
      ((served root dir requests).cache.map Prod.fst).toFinset := by
    ext pair
    rw [List.mem_toFinset, List.mem_toFinset, filed.asked]
  rw [same, List.toFinset_card_of_nodup filed.once, List.length_map, cached]

theorem slot?_injective (root dir : String) (requests : Requests) (code code' : CodeText)
    (isCreation isCreation' : Bool) (slot : Nat)
    (here : (served root dir requests).slot? code isCreation = some slot)
    (here' : (served root dir requests).slot? code' isCreation' = some slot) :
    code = code' ∧ isCreation = isCreation' := by
  have filed := served_filed root dir requests
  obtain ⟨_, entry⟩ := (slot?_eq_some_iff filed ..).mp here
  obtain ⟨_, entry'⟩ := (slot?_eq_some_iff filed ..).mp here'
  cases Option.some.inj (entry.symm.trans entry')
  exact ⟨rfl, rfl⟩

end Loader

/-- Whatever becomes of the files between the requests: contracts are those of the build directory
at the first request of all, and the mapping of a code is that by these contracts, with the source
files at the first request for it. At every later time it is the same one, at the same place;
codes that are spelled alike have one place, all others and the other kind of code have places of
their own. -/
theorem loader_is_snapshot (root dir : String) (requests : Loader.Requests) (files : FileTree) :
    let l := Loader.served root dir requests
    let contracts := scanArtifacts (Loader.firstFiles requests files) (Path.join root dir)
    ((l.artifacts files).1 = contracts ∧
      (∀ name, (l.find files name).1 = contracts.find? (·.isNamed name)) ∧
      ∀ code isCreation, (l.resolve files code isCreation).1 =
        (Loader.ofProject root dir).mappingBy
          (Loader.firstFiles (requests.filter (·.2 = .mapping code isCreation)) files)
            code isCreation
          contracts) ∧
    (∀ text text' digits isCreation later moment, Text.Spells text.toList digits →
      Text.Spells text'.toList digits →
        let code := CodeText.ofText text
        let kept := l.resolve files code isCreation
        let again := (Loader.served root dir
          (requests ++ (files, .mapping code isCreation) :: later)).resolve moment
            (CodeText.ofText text') isCreation
        again.1 = kept.1 ∧ ∃ slot, kept.2.slot? code isCreation = some slot ∧
          again.2.slot? (CodeText.ofText text') isCreation = some slot) ∧
    (∀ code code' isCreation isCreation' slot, l.slot? code isCreation = some slot →
      l.slot? code' isCreation' = some slot → code = code' ∧ isCreation = isCreation') ∧
    l.cached = (Loader.askedPairs requests).toFinset.card := by
  intro l contracts
  refine ⟨Loader.answers_of_snapshot root dir requests files, ?_,
    Loader.slot?_injective root dir requests, Loader.cached_eq_card root dir requests⟩
  intro text text' digits isCreation later moment spells spells'
  rw [← CodeText.ofText_spelled spells spells']
  exact Loader.resolve_again root dir requests later files moment _ isCreation

/-- All files are deleted behind the first request. Another spelling of its code still finds the
mapping, and as the code of a contract it has found nothing, which counts as well. -/
theorem mapping_outlives_files :
    let code := CodeText.ofText "0x60015B"
    let kept := (Loader.served "." "build" []).resolve .ofTwoContracts code true
    let l := Loader.served "." "build"
      [(.ofTwoContracts, .mapping code true), ({}, .mapping code false)]
    kept.1.contract = some "B" ∧ Text.Spells "0x60015B".toList "60015b".toList ∧
      Text.Spells " 60015b\n".toList "60015b".toList ∧
      (l.resolve {} (.ofText " 60015b\n") true).1 = kept.1 ∧ l.cached = 2 := by
  intro code kept l
  have marked : Text.Spells "0x60015B".toList "60015b".toList :=
    ⟨[], ['0', 'x'], "60015B".toList, [], by simp, by simp, .inr rfl,
      ⟨by simp [Text.isBlank], by simp [Text.isBlank], by simp⟩, by decide⟩
  have plain : Text.Spells " 60015b\n".toList "60015b".toList :=
    ⟨[' '], [], "60015b".toList, ['\n'], by simp, by simp [Text.isBlank], .inl rfl,
      ⟨by simp [Text.isBlank], by simp [Text.isBlank], by simp⟩, by decide⟩
  obtain ⟨_, again, _, _⟩ := loader_is_snapshot "." "build" [] .ofTwoContracts
  obtain ⟨_, _, _, counted⟩ := loader_is_snapshot "." "build"
    [(.ofTwoContracts, .mapping code true), ({}, .mapping code false)] {}
  refine ⟨by decide +kernel, marked, plain, ?_, counted⟩
  exact (again _ _ _ true [({}, .mapping code false)] {} marked plain).1

end SourceStepper
