import SourceStepper.CodeText
import SourceStepper.FileTree
import SourceStepper.Json.Value
import SourceStepper.Text.Quoted

/-!
Build artifacts: JSON files that list compiled contracts with their bytecode and their source maps,
and the source files that they were compiled from.
-/
namespace SourceStepper

structure Contract where
  /-- Usually the source file and the contract's own name, with a colon between them. -/
  name : String
  file : String
  /-- The properties that are texts. -/
  properties : OrderedMap String String
  /-- The source files of the compilation, to which the source maps refer by position. -/
  sourceList : List String := []
  deriving DecidableEq, Repr

namespace Contract

def bytecode? (c : Contract) : Option String := c.properties.get? "bin"

def runtimeBytecode? (c : Contract) : Option String := c.properties.get? "bin-runtime"

def sourceMap? (c : Contract) (isCreation : Bool) : Option String :=
  c.properties.get? (if isCreation then "srcmap" else "srcmap-runtime")

def isBytecodeKey (key : String) : Bool := "bin".toList.isPrefixOf key.toList

/-- The bytecode of a property, unless the property holds something else or no digits at all. -/
def codeOf? (property : String × String) : Option CodeText :=
  let code := CodeText.ofText property.2
  if isBytecodeKey property.1 && !code.digits.isEmpty then some code else none

/-- Whether one of the bytecodes of the contract is what a code starts with. More may follow, since
the arguments of a constructor stand behind its bytecode. -/
def matchesCode (c : Contract) (code : CodeText) : Bool :=
  (c.properties.entries.filterMap codeOf?).any code.startsWith

def isNamed (c : Contract) (name : String) : Bool :=
  c.name = name || (Text.cutLast? ':' c.name.toList).any fun (_, short) =>
    String.ofList short = name

end Contract

inductive DeployError
  | noBytecode (contract : String)
  | badBytecode (contract : String) (cause : Text.HexError)
  deriving DecidableEq, Repr

def DeployError.message : DeployError → String
  | .noBytecode contract => s!"Contract {contract} has no creation bytecode"
  | .badBytecode contract cause => s!"Invalid creation bytecode for {contract}: {cause.message}"

def Contract.initCode (c : Contract) : Except DeployError (List UInt8) :=
  match c.bytecode?.filter fun code => !Text.isBlankText code.toList with
  | none => .error (.noBytecode c.name)
  | some code =>
    match Text.unhex (Text.normalHex code.toList) with
    | .error cause => .error (.badBytecode c.name cause)
    | .ok bytes => .ok bytes

inductive ArtifactError
  /-- There is no such file, or it is not text. -/
  | unreadable (path : String)
  | notJson (path : String)
  | layout (path reason : String)
  deriving DecidableEq, Repr

def ArtifactError.message : ArtifactError → String
  | .unreadable path => s!"failed to read {path}"
  | .notJson path => s!"failed to parse {path}"
  | .layout path reason => s!"unexpected artifact layout in {path}: {reason}"

def contractsOf (path : String) (artifact : Json.Value) : Except ArtifactError (List Contract) := do
  let some contracts := (artifact.get? "contracts").bind Json.Value.members?
    | .error (.layout path "missing `contracts`")
  let sourceList ← match artifact.get? "sourceList" with
    | some (.array items) =>
      match items.mapM Json.Value.text? with
      | some list => pure list
      | none => .error (.layout path "non-string source")
    | some _ => .error (.layout path "`sourceList` is not an array")
    | none => pure []
  return contracts.entries.filterMap fun (name, contract) => do
    let properties ← contract.members?
    let texts := properties.entries.filterMap fun (key, value) => value.text?.map fun s => (key, s)
    return ⟨name, path, OrderedMap.ofList texts, sourceList⟩

def loadArtifact (files : FileTree) (path : String) : Except ArtifactError (List Contract) :=
  match files.readText? path with
  | none => .error (.unreadable path)
  | some text =>
    match Json.Value.ofText? text with
    | none => .error (.notJson path)
    | some artifact => contractsOf path artifact

/-- Whether a file is an artifact by its name. Metadata of the compiler is none. -/
def isArtifactName (name : String) : Bool :=
  ".json".toList.isSuffixOf name.toList && !"meta.json".toList.isSuffixOf name.toList

/-- The contracts of all artifacts below a directory, in the order of the files. Files that cannot
be used are passed over. -/
def scanArtifacts (files : FileTree) (directory : String) : List Contract :=
  if files.isDirectory directory then
    (files.filesBelow directory).flatMap fun (path, name) =>
      if isArtifactName name then (loadArtifact files path).toOption.getD [] else []
  else []

end SourceStepper
