import SourceStepper.Proofs.Artifact.Code
import SourceStepper.Proofs.Disassembly.Index
import SourceStepper.Proofs.Loader.Requests
import SourceStepper.Proofs.SourceMap.Segments

/-! The mapping that a loader finds for a code: which contract it comes from, which elements belong
to which instructions, and which files the elements point into. -/
namespace SourceStepper

open SourceMap (Element)

/-- One of the bytecodes of a contract is what a code starts with, and the source map that the code
asks for can be read if there is one. -/
structure Contract.Fits (c : Contract) (code : CodeText) (isCreation : Bool) : Prop where
  starts : ∃ key text, c.properties.get? key = some text ∧ "bin".toList <+: key.toList ∧
    (CodeText.ofText text).digits ≠ "" ∧
    (CodeText.ofText text).digits.toList <+: code.digits.toList
  decodes : ∀ raw, c.sourceMap? isCreation = some raw →
    ∃ elements, SourceMap.decode raw = .ok elements

def FileTree.sourceAt? (files : FileTree) (root : String) (sourceList : List String) (i : Nat) :
    Option Source.File :=
  sourceList[i]?.bind fun path =>
    (files.readText? (Path.join root path)).map (Source.File.ofText path)

namespace Loader

variable {l : Loader} {files : FileTree} {code : CodeText} {isCreation : Bool}

theorem get?_loadSources (l : Loader) (files : FileTree) (sourceList : List String) (i : Nat) :
    (l.loadSources files sourceList).get? i = files.sourceAt? l.projectRoot sourceList i := by
  refine OrderedMap.get?_ofList_of_mem_iff ?_ i
  intro k file
  simp only [FileTree.sourceAt?, List.mem_filterMap, List.mem_mapIdx, Option.bind_eq_some_iff,
    Option.map_eq_some_iff]
  constructor
  · rintro ⟨_, ⟨i, within, rfl⟩, loaded⟩
    obtain ⟨text, read, same⟩ := Option.map_eq_some_iff.mp loaded
    cases same
    exact ⟨_, List.getElem?_eq_getElem within, text, read, rfl⟩
  · rintro ⟨path, listed, text, read, rfl⟩
    obtain ⟨within, rfl⟩ := List.getElem?_eq_some_iff.mp listed
    exact ⟨_, ⟨k, within, rfl⟩, Option.map_eq_some_iff.mpr ⟨text, read, rfl⟩⟩

theorem mappingOf?_eq (l : Loader) (files : FileTree) (contract : Contract) {raw : String}
    {elements : List Element} (decoded : SourceMap.decode raw = .ok elements) (code : CodeText) :
    l.mappingOf? files contract raw code = some {
      contract := some contract.name
      sources := l.loadSources files contract.sourceList
      index := PcIndex.build elements (Groups.ofHex code.digits.toList)
      disassembly := Disassembly.ofBytes ((Text.unhex? code.digits.toList).getD []) } := by
  rw [mappingOf?, decoded]
  rfl

theorem mappingBy_unfit {contract : Contract} (unfit : ¬ contract.Fits code isCreation)
    (rest : List Contract) :
    l.mappingBy files code isCreation (contract :: rest) =
      l.mappingBy files code isCreation rest := by
  rw [mappingBy]
  split
  · next starts =>
    -- Then it is the source map that is wrong.
    have starts := (contract.matchesCode_iff code).mp starts
    cases selected : contract.sourceMap? isCreation with
    | none => exact absurd ⟨starts, by simp [selected]⟩ unfit
    | some raw =>
      cases decoded : SourceMap.decode raw with
      | error cause => simp [mappingOf?, decoded, Except.toOption]
      | ok elements => exact absurd ⟨starts, by simp [selected, decoded]⟩ unfit
  · rfl

theorem mappingBy_all_unfit {contracts : List Contract}
    (unfit : ∀ contract ∈ contracts, ¬ contract.Fits code isCreation) (rest : List Contract) :
    l.mappingBy files code isCreation (contracts ++ rest) =
      l.mappingBy files code isCreation rest := by
  induction contracts with
  | nil => rfl
  | cons contract contracts ih =>
    rw [List.cons_append, mappingBy_unfit (unfit contract (List.mem_cons_self ..))]
    exact ih fun contract h => unfit contract (List.mem_cons_of_mem _ h)

theorem mappingBy_fit {contract : Contract} (fits : contract.Fits code isCreation)
    (rest : List Contract) :
    l.mappingBy files code isCreation (contract :: rest) =
      match contract.sourceMap? isCreation with
      | none => {}
      | some raw => (l.mappingOf? files contract raw code).getD {} := by
  rw [mappingBy, if_pos ((contract.matchesCode_iff code).mpr fits.starts)]
  cases selected : contract.sourceMap? isCreation with
  | none => rfl
  | some raw =>
    obtain ⟨elements, decoded⟩ := fits.decodes raw selected
    simp only [mappingOf?_eq l files contract decoded, Option.getD_some]

/-- What the mapping of a code says of program counters and of elements. -/
theorem mappingOf?_exact (l : Loader) (files : FileTree) (contract : Contract) {raw : String}
    {elements : List Element} (decoded : SourceMap.decode raw = .ok elements) (bytes : List UInt8) :
    ∃ mapping, l.mappingOf? files contract raw (.ofBytes bytes) = some mapping ∧
      (∀ pc e, mapping.lookup pc = some e ↔
        ∃ (k : Nat) (i : Instruction), k < raw.toList.count ';' + 1 ∧
          (Disassembly.ofBytes bytes).instructions[k]? = some i ∧ i.pc = pc ∧
          elements[k]? = some e) ∧
      ∀ e, mapping.sourceFor e =
        e.fileIndex.bind (files.sourceAt? l.projectRoot contract.sourceList) := by
  refine ⟨_, mappingOf?_eq l files contract decoded _, ?_, ?_⟩
  · intro pc e
    have digits : (CodeText.ofBytes bytes).digits.toList = Text.hexChars bytes :=
      String.toList_ofList ..
    rw [Mapping.lookup, digits, PcIndex.lookup_build]
    constructor
    · rintro ⟨k, i, found, starts, same⟩
      have within : k < raw.toList.count ';' + 1 := by
        rw [← SourceMap.length_decode decoded]
        exact (List.getElem?_eq_some_iff.mp same).1
      exact ⟨k, i, within, found, starts, same⟩
    · rintro ⟨k, i, _, found, starts, same⟩
      exact ⟨k, i, found, starts, same⟩
  · intro e
    rw [Mapping.sourceFor]
    cases e.fileIndex with
    | none => rfl
    | some i => exact get?_loadSources l files contract.sourceList i

end Loader

theorem Loader.foundAt_eq_some {root dir : String} {requests : Requests} {code : CodeText}
    {isCreation : Bool} {mapping : Mapping}
    (found : foundAt root dir requests code isCreation = some mapping) :
    ∃ scanned read, requests.head?.map Prod.fst = some scanned ∧
      (requests.find? (·.2 = .mapping code isCreation)).map Prod.fst = some read ∧
      (Loader.ofProject root dir).mappingBy read code isCreation
        (scanArtifacts scanned (Path.join root dir)) = mapping := by
  simp only [foundAt, scannedAt, Option.bind_eq_some_iff, Option.map_eq_some_iff] at found
  obtain ⟨first, asked, contracts, ⟨head, start, rfl⟩, same⟩ := found
  exact ⟨head.1, first.1, by rw [start]; rfl, by rw [asked]; rfl, same⟩

theorem Loader.mappingBy_sources (l : Loader) (files : FileTree) (code : CodeText)
    (isCreation : Bool) (contracts : List Contract) :
    l.mappingBy files code isCreation contracts = {} ∨
      ∃ sourceList, (l.mappingBy files code isCreation contracts).sources =
        l.loadSources files sourceList := by
  induction contracts with
  | nil => exact .inl rfl
  | cons contract rest ih =>
    by_cases fits : contract.Fits code isCreation
    · rw [Loader.mappingBy_fit fits]
      cases selected : contract.sourceMap? isCreation with
      | none => exact .inl rfl
      | some raw =>
        obtain ⟨elements, decoded⟩ := fits.decodes raw selected
        simp only [Loader.mappingOf?_eq l files contract decoded, Option.getD_some]
        exact .inr ⟨contract.sourceList, rfl⟩
    · rw [Loader.mappingBy_unfit fits]
      exact ih

theorem Loader.source_of_found {root dir : String} {requests : Requests} {code : CodeText}
    {isCreation : Bool} {mapping : Mapping}
    (found : foundAt root dir requests code isCreation = some mapping) {i : Nat}
    {file : Source.File} (held : mapping.sources.get? i = some file) :
    ∃ path text, file = .ofText path text := by
  obtain ⟨scanned, read, -, -, rfl⟩ := Loader.foundAt_eq_some found
  rcases mappingBy_sources (.ofProject root dir) read code isCreation _ with none |
    ⟨sourceList, sources⟩
  · rw [none] at held
    contradiction
  · rw [sources, Loader.get?_loadSources, FileTree.sourceAt?, Option.bind_eq_some_iff] at held
    obtain ⟨path, -, held⟩ := held
    obtain ⟨text, -, rfl⟩ := Option.map_eq_some_iff.mp held
    exact ⟨path, text, rfl⟩

/-- A loader scans the build directory at its first request and reads sources at the first request
for a code; whatever happens to the files afterwards, its answers are these. The first contract that
fits decides. If there is none, or if it lacks the source map that is asked for, nothing is mapped.
Otherwise the mapped program counters are those where the instructions start that the source map has
segments for, each with the element of its segment, and an element points into the file at its
position in the source list, if that can be read. -/
theorem mapping_exact (root dir : String) (earlier : Loader.Requests) (files : FileTree)
    (text : String) (isCreation : Bool) (hex : (CodeText.ofText text).IsHex) :
    let code := CodeText.ofText text
    let mapping := ((Loader.served root dir earlier).resolve files code isCreation).1
    let requests := earlier ++ [(files, Loader.Request.mapping code isCreation)]
    ∃ scanned read bytes,
      requests.head?.map Prod.fst = some scanned ∧
      (requests.find? (·.2 = .mapping code isCreation)).map Prod.fst = some read ∧
      code = .ofBytes bytes ∧
      ((∀ c ∈ scanArtifacts scanned (Path.join root dir), ¬ c.Fits code isCreation) →
        mapping = {}) ∧
      ∀ before c after, scanArtifacts scanned (Path.join root dir) = before ++ c :: after →
        (∀ b ∈ before, ¬ b.Fits code isCreation) → c.Fits code isCreation →
        match c.sourceMap? isCreation with
        | none => mapping = {}
        | some raw => ∃ elements, SourceMap.decode raw = .ok elements ∧
            (∀ pc e, mapping.lookup pc = some e ↔
              ∃ (k : Nat) (i : Instruction), k < raw.toList.count ';' + 1 ∧
                (Disassembly.ofBytes bytes).instructions[k]? = some i ∧ i.pc = pc ∧
                elements[k]? = some e) ∧
            ∀ e, mapping.sourceFor e = e.fileIndex.bind (read.sourceAt? root c.sourceList) := by
  intro code mapping requests
  have remembers := Loader.served_remembers root dir earlier
  obtain ⟨_, found⟩ := Loader.resolve_remembers remembers files code isCreation
  obtain ⟨scanned, read, first, asked, answer⟩ := Loader.foundAt_eq_some found
  obtain ⟨bytes, isText⟩ := CodeText.isHex_ofText hex
  refine ⟨scanned, read, bytes, first, asked, isText, ?_, ?_⟩
  · intro unfit
    have answer : _ = mapping := answer
    rw [← answer, ← List.append_nil (scanArtifacts ..), Loader.mappingBy_all_unfit unfit]
    rfl
  · intro before c after contracts unfit fits
    have answer : _ = mapping := answer
    rw [contracts, Loader.mappingBy_all_unfit unfit, Loader.mappingBy_fit fits] at answer
    cases selected : c.sourceMap? isCreation with
    | none =>
      rw [selected] at answer
      exact answer.symm
    | some raw =>
      obtain ⟨elements, decoded⟩ := fits.decodes raw selected
      obtain ⟨found, mapped, lookup, sources⟩ :=
        Loader.mappingOf?_exact (.ofProject root dir) read c decoded bytes
      rw [selected] at answer
      simp only [isText, mapped, Option.getD_some, code] at answer
      subst answer
      exact ⟨elements, decoded, lookup, sources⟩

/-- A project with two contracts of one bytecode, of which the first has a malformed source map, and
with one of two source files. -/
def FileTree.ofTwoContracts : FileTree :=
  let artifact := "\x7b\"contracts\":\x7b\"A\":\x7b\"bin\":\"6001\",\"srcmap\":\"x\"\x7d," ++
    "\"B\":\x7b\"bin\":\"6001\",\"srcmap\":\"0:1:1;2:1\"\x7d\x7d," ++
    "\"sourceList\":[\"Gone.sol\",\"A.sol\"]\x7d"
  (({} : FileTree).add "./build/out.json" (.file artifact.toUTF8)).add "A.sol"
    (.file "a\nb\n".toUTF8)

def Contract.ofTwoContracts (name map : String) : Contract where
  name
  file := "./build/out.json"
  properties := .ofList [("bin", "6001"), ("srcmap", map)]
  sourceList := ["Gone.sol", "A.sol"]

theorem scan_ofTwoContracts :
    scanArtifacts .ofTwoContracts (Path.join "." "build") =
      [.ofTwoContracts "A" "x"] ++ .ofTwoContracts "B" "0:1:1;2:1" :: [] := by decide +kernel

/-- The second contract decides. The code goes on behind its bytecode, and the file that is missing
does not take the place of the other one. -/
theorem malformed_map_passed_over :
    let code := CodeText.ofText "0x60015B"
    let mapping := ((Loader.served "." "build" []).resolve .ofTwoContracts code true).1
    let element : Element := { offset := 2, length := 1, fileIndex := some 1 }
    code.IsHex ∧ mapping.lookup 2 = some element ∧
      mapping.sourceFor element = some (.ofText "A.sol" "a\nb\n") := by
  intro code mapping element
  have digits : code.digits.toList.all (fun c => (Text.hexValue? c).isSome) = true := by
    decide +kernel
  have hex : code.IsHex := ⟨List.all_eq_true.mp digits, by decide +kernel⟩
  have malformed : (SourceMap.decode "x").toOption = none := by decide +kernel
  have unfit : ∀ c ∈ [Contract.ofTwoContracts "A" "x"], ¬ c.Fits code true := by
    rintro c (_ | ⟨_, ⟨⟩⟩) fits
    obtain ⟨elements, decoded⟩ := fits.decodes "x" (by decide +kernel)
    simp [decoded, Except.toOption] at malformed
  have selected : (Contract.ofTwoContracts "B" "0:1:1;2:1").sourceMap? true = some "0:1:1;2:1" := by
    decide +kernel
  have decoded : SourceMap.decode "0:1:1;2:1" =
      .ok [{ offset := 0, length := 1, fileIndex := some 1 }, element] := by rfl
  have fits : (Contract.ofTwoContracts "B" "0:1:1;2:1").Fits code true := by
    constructor
    · exact ⟨"bin", "6001", by decide +kernel, by decide +kernel, by decide +kernel,
        by decide +kernel⟩
    · intro raw same
      cases same.symm.trans selected
      exact ⟨_, decoded⟩
  obtain ⟨scanned, read, bytes, first, asked, isText, _, mapped⟩ :=
    mapping_exact "." "build" [] .ofTwoContracts "0x60015B" true hex
  have first : FileTree.ofTwoContracts = scanned := Option.some.inj first
  have asked : FileTree.ofTwoContracts = read := by simpa using asked
  subst first asked
  have mapped := mapped _ _ _ scan_ofTwoContracts unfit fits
  rw [selected] at mapped
  obtain ⟨elements, decoded', lookup, sources⟩ := mapped
  cases decoded.symm.trans decoded'
  have spelled : Text.unhex? code.digits.toList = some [0x60, 0x01, 0x5b] := by decide +kernel
  have same : code.digits.toList = Text.hexChars bytes :=
    (congrArg (·.digits.toList) isText).trans (String.toList_ofList ..)
  rw [same, Text.unhex?, Text.unhex_hexChars] at spelled
  cases spelled
  refine ⟨hex, (lookup 2 element).mpr
    ⟨1, ⟨2, 0x5b, []⟩, by decide, by decide +kernel, rfl, rfl⟩, ?_⟩
  refine (sources element).trans ?_
  decide +kernel

end SourceStepper
