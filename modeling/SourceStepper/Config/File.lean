import SourceStepper.Config
import SourceStepper.FileTree
import SourceStepper.Text.Numeral
import SourceStepper.Text.Quoted
import SourceStepper.Toml.Document

/-!
Settings in files. A file gives some of the settings, in any order, and the others keep their
defaults; what else stands in it is ignored. Written are all settings, each on a line of its own.
-/
namespace SourceStepper.Config

inductive FileError
  | unreadable (path : String)
  /-- The text of the file does not give settings. -/
  | malformed (path : String)
  | unwritable (path : String)
  deriving DecidableEq, Repr

def FileError.message : FileError → String
  | unreadable path => s!"Failed to read config file: {Text.quoted path}"
  | malformed path => s!"Failed to parse config file as TOML: {Text.quoted path}"
  | unwritable path => s!"Failed to write config file: {Text.quoted path}"

def fileName : String := ".sdb.toml"

/-! ### Reading -/

def setting? {α : Type} (read? : Toml.Value → Option α) (entries : Toml.Entries) (key : String)
    (default : α) : Option α :=
  match entries.get? key with
  | none => some default
  | some v => read? v

def readText? : Toml.Value → Option String
  | .text s => some s
  | _ => none

def readNat? (limit : Nat) : Toml.Value → Option Nat
  | .integer n => if 0 ≤ n ∧ n ≤ limit then some n.toNat else none
  | _ => none

/-- An address: its text, or its bytes as an array. -/
def readAddress? : Toml.Value → Option Evm.Address
  | .text s => Evm.Address.ofText? s.toList
  | .array items => do
    let bytes ← items.mapM (readNat? 0xFF)
    if bytes.length = 20 then some (Evm.Address.ofBytes (bytes.map UInt8.ofNat)) else none
  | _ => none

def ofEntries? (entries : Toml.Entries) : Option Config := do
  let base : Config := {}
  return {
    projectRoot := ← setting? readText? entries "project_root" base.projectRoot
    buildDir := ← setting? readText? entries "build_dir" base.buildDir
    sourceRoot := ← setting? readText? entries "source_root" base.sourceRoot
    sourceSuffix := ← setting? readText? entries "source_suffix" base.sourceSuffix
    maxFrames := ← setting? (readNat? Text.maxUnsigned) entries "max_frames" base.maxFrames
    caller := ← setting? readAddress? entries "caller" base.caller
    gasLimit := ← setting? (readNat? Text.maxUnsigned) entries "gas_limit" base.gasLimit }

def ofText? (s : String) : Option Config := (Toml.ofText? s).bind ofEntries?

/-- The settings in a file. Without the file they are the defaults. -/
def load (files : FileTree) (path : String) : Except FileError Config :=
  if (files.find? path).isNone then .ok {}
  else match files.readText? path with
    | none => .error (.unreadable path)
    | some s =>
      match ofText? s with
      | none => .error (.malformed path)
      | some c => .ok c

/-- The settings of a project. Its root is the given one, whatever the file says. -/
def ofProject (files : FileTree) (root : String) : Except FileError Config := do
  let c ← load files (Path.join root fileName)
  return { c with projectRoot := root }

/-! ### Writing -/

def lines (c : Config) : List (String × String) :=
  [("project_root", Toml.writeText c.projectRoot),
   ("build_dir", Toml.writeText c.buildDir),
   ("source_root", Toml.writeText c.sourceRoot),
   ("source_suffix", Toml.writeText c.sourceSuffix),
   ("max_frames", toString c.maxFrames),
   ("caller", Toml.writeText c.caller.plainText),
   ("gas_limit", toString c.gasLimit)]

def text (c : Config) : String :=
  String.join (c.lines.map fun (key, value) => key ++ " = " ++ value ++ "\n")

def save (c : Config) (files : FileTree) (path : String) : Except FileError FileTree :=
  match files.write? path c.text.toUTF8 with
  | some files => .ok files
  | none => .error (.unwritable path)

end SourceStepper.Config
