import SourceStepper.Artifact
import SourceStepper.Disassembly
import SourceStepper.PcIndex
import SourceStepper.Source.Locate
import SourceStepper.SourceMap.Decode

/-!
Finding the sources of bytecode that is being executed. The build directory is read once, when it is
needed first, and what has been found for a bytecode is kept.
-/
namespace SourceStepper

open SourceMap (Element)

/-- What belongs to a bytecode: its contract, the source files that could be read, by their position
in the source list, the elements by program counter, and the instructions. -/
structure Mapping where
  contract : Option String := none
  sources : OrderedMap Nat Source.File := .empty
  index : PcIndex := ⟨[]⟩
  disassembly : Disassembly := ⟨[], []⟩
  deriving Repr

namespace Mapping

instance : Inhabited Mapping := ⟨{}⟩

def isEmpty (m : Mapping) : Bool := m.index.isEmpty

def lookup (m : Mapping) (pc : Nat) : Option Element := m.index.lookup pc

def sourceFor (m : Mapping) (e : Element) : Option Source.File := e.fileIndex.bind m.sources.get?

def render? (m : Mapping) (e : Element) : Option Source.Rendering := Source.renderIn? m.sources e

end Mapping

/-- What is known of a project: where it is, and what has been read of it so far. -/
structure Loader where
  projectRoot : String
  buildDir : String
  /-- The contracts of the build directory, once they have been read. -/
  contracts : Option (List Contract) := none
  /-- The mappings of the codes that have been asked for, each as code that creates a contract or
  as the code of a contract. -/
  cache : List ((CodeText × Bool) × Mapping) := []
  deriving Repr

namespace Loader

/-- A loader for a project; the build directory is within the project unless its path
is absolute. -/
def ofProject (projectRoot buildDir : String) : Loader :=
  { projectRoot, buildDir := Path.join projectRoot buildDir }

/-- All contracts of the build directory. -/
def artifacts (l : Loader) (files : FileTree) : List Contract × Loader :=
  match l.contracts with
  | some contracts => (contracts, l)
  | none =>
    let contracts := scanArtifacts files l.buildDir
    (contracts, { l with contracts := some contracts })

def find (l : Loader) (files : FileTree) (name : String) : Option Contract × Loader :=
  let (contracts, l) := l.artifacts files
  (contracts.find? (·.isNamed name), l)

def loadSources (l : Loader) (files : FileTree) (sourceList : List String) :
    OrderedMap Nat Source.File :=
  OrderedMap.ofList ((sourceList.mapIdx fun i path =>
    (files.readText? (Path.join l.projectRoot path)).map fun text =>
      (i, Source.File.ofText path text)).filterMap id)

/-- The mapping of a code by a contract and its source map; `none` if the map is malformed. -/
def mappingOf? (l : Loader) (files : FileTree) (contract : Contract) (raw : String)
    (code : CodeText) : Option Mapping := do
  let elements ← (SourceMap.decode raw).toOption
  return {
    contract := some contract.name
    sources := l.loadSources files contract.sourceList
    index := PcIndex.build elements (Groups.ofHex code.digits.toList)
    disassembly := Disassembly.ofBytes ((Text.unhex? code.digits.toList).getD []) }

/-- The mapping of a code by the first contract that matches it. A contract with a malformed source
map is passed over; one without the source map ends the search. -/
def mappingBy (l : Loader) (files : FileTree) (code : CodeText) (isCreation : Bool) :
    List Contract → Mapping
  | [] => {}
  | contract :: rest =>
    if contract.matchesCode code then
      match contract.sourceMap? isCreation with
      | none => {}
      | some raw =>
        match l.mappingOf? files contract raw code with
        | some mapping => mapping
        | none => l.mappingBy files code isCreation rest
    else l.mappingBy files code isCreation rest

/-- The mapping of a code, which is found out when it is asked for first. What cannot be mapped has
an empty mapping. -/
def resolve (l : Loader) (files : FileTree) (code : CodeText) (isCreation : Bool) :
    Mapping × Loader :=
  match l.cache.lookup (code, isCreation) with
  | some mapping => (mapping, l)
  | none =>
    let (contracts, l) := l.artifacts files
    let mapping := l.mappingBy files code isCreation contracts
    (mapping, { l with cache := l.cache ++ [((code, isCreation), mapping)] })

def slot? (l : Loader) (code : CodeText) (isCreation : Bool) : Option Nat :=
  l.cache.findIdx? (·.1 = (code, isCreation))

def cached (l : Loader) : Nat := l.cache.length

end Loader

end SourceStepper
