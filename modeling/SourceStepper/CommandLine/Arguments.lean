import SourceStepper.Breakpoint
import SourceStepper.Environment
import SourceStepper.Text.Hex

/-!
The arguments of the command line. Options and the name of the contract can stand in any order, and
three of the options can also be given by environment variables. Arguments are read from left to
right, and the first one that cannot be understood is the cause of a refusal.
-/
namespace SourceStepper.CommandLine

inductive ValueOption
  | projectRoot
  | buildDir
  | config
  | calldata
  | value
  | breakpoint
  deriving DecidableEq, Repr

namespace ValueOption

def all : List ValueOption := [.projectRoot, .buildDir, .config, .calldata, .value, .breakpoint]

def name : ValueOption → String
  | .projectRoot => "project-root"
  | .buildDir => "build-dir"
  | .config => "config"
  | .calldata => "calldata"
  | .value => "value"
  | .breakpoint => "break"

def ofName? (name : String) : Option ValueOption := all.find? (·.name = name)

/-- The environment variable that can stand for an option. -/
def environmentName? : ValueOption → Option String
  | .projectRoot => some "SDB_PROJECT_ROOT"
  | .buildDir => some "SDB_BUILD_DIR"
  | .config => some "SDB_CONFIG"
  | _ => none

end ValueOption

inductive ArgumentError
  | unknown (argument : String)
  | noValue (option : ValueOption)
  | badValue (option : ValueOption) (value : String)
  | repeated (option : ValueOption)
  /-- A second name of a contract. -/
  | unexpected (argument : String)
  | noContract
  deriving DecidableEq, Repr

def ArgumentError.message : ArgumentError → String
  | .unknown argument => s!"unexpected argument '{argument}' found"
  | .noValue option => s!"a value is required for '--{option.name}' but none was supplied"
  | .badValue option value => s!"invalid value '{value}' for '--{option.name}'"
  | .repeated option => s!"the argument '--{option.name}' cannot be used multiple times"
  | .unexpected argument => s!"unexpected argument '{argument}' found"
  | .noContract => "the name of a contract is required"

structure Given where
  projectRoot : Option String := none
  buildDir : Option String := none
  config : Option String := none
  calldata : Option (List UInt8) := none
  value : Option Nat := none
  breakpoints : List Breakpoint := []
  contract : Option String := none
  deriving DecidableEq, Repr

structure Arguments where
  projectRoot : String
  buildDir : Option String
  config : Option String
  calldata : Option (List UInt8)
  value : Option Nat
  breakpoints : List Breakpoint
  contract : String
  deriving DecidableEq, Repr

inductive Request
  | debug (a : Arguments)
  | help
  | version
  deriving DecidableEq, Repr

/-! ### Values -/

def readPath? (s : String) : Option String := if s.isEmpty then none else some s

/-- Bytes as hexadecimal digits, with `0x` or `0X` in front of them or without. -/
def readBytes? (s : String) : Option (List UInt8) :=
  match s.toList with
  | '0' :: 'x' :: rest => Text.unhex? rest
  | '0' :: 'X' :: rest => Text.unhex? rest
  | cs => Text.unhex? cs

def splitBase : List Char → Nat × List Char
  | '0' :: 'x' :: rest => (16, rest)
  | '0' :: 'X' :: rest => (16, rest)
  | '0' :: 'o' :: rest => (8, rest)
  | '0' :: 'O' :: rest => (8, rest)
  | '0' :: 'b' :: rest => (2, rest)
  | '0' :: 'B' :: rest => (2, rest)
  | cs => (10, cs)

/-- A number of at most 256 bits, in a base that may be named in front of it. Marks between the
digits do not count, and no digits at all are zero. -/
def readAmount? (s : String) : Option Nat := do
  let (base, digits) := splitBase s.toList
  let n ← (digits.filter (· ≠ '_')).foldlM (fun n c => do
    let digit ← Text.hexValue? c
    if digit < base then some (n * base + digit) else none) 0
  if n < 1 <<< 256 then some n else none

namespace Given

def once {α : Type} (option : ValueOption) (old new : Option α) (value : String) :
    Except ArgumentError (Option α) :=
  match old, new with
  | some _, _ => .error (.repeated option)
  | none, none => .error (.badValue option value)
  | none, some a => .ok (some a)

/-- The arguments with the value of an option. Only breakpoints can be given more than once. -/
def set (g : Given) (option : ValueOption) (value : String) : Except ArgumentError Given :=
  match option with
  | .projectRoot =>
    return { g with projectRoot := ← once option g.projectRoot (readPath? value) value }
  | .buildDir => return { g with buildDir := ← once option g.buildDir (readPath? value) value }
  | .config => return { g with config := ← once option g.config (readPath? value) value }
  | .calldata => return { g with calldata := ← once option g.calldata (readBytes? value) value }
  | .value => return { g with value := ← once option g.value (readAmount? value) value }
  | .breakpoint =>
    match Breakpoint.parse value with
    | .ok b => .ok { g with breakpoints := g.breakpoints ++ [b] }
    | .error _ => .error (.badValue option value)

def name (g : Given) (argument : String) : Except ArgumentError Given :=
  if g.contract.isSome then .error (.unexpected argument)
  else .ok { g with contract := some argument }

def has (g : Given) : ValueOption → Bool
  | .projectRoot => g.projectRoot.isSome
  | .buildDir => g.buildDir.isSome
  | .config => g.config.isSome
  | .calldata => g.calldata.isSome
  | .value => g.value.isSome
  | .breakpoint => !g.breakpoints.isEmpty

def setFrom (env : Environment) (g : Given) (option : ValueOption) : Except ArgumentError Given :=
  match option.environmentName?.bind env.get? with
  | some value => if g.has option then .ok g else g.set option value
  | none => .ok g

def finish (env : Environment) (g : Given) : Except ArgumentError Request := do
  let g ← ValueOption.all.foldlM (setFrom env) g
  match g.contract with
  | none => .error .noContract
  | some contract =>
    return .debug ⟨g.projectRoot.getD ".", g.buildDir, g.config, g.calldata, g.value,
      g.breakpoints, contract⟩

end Given

/-! ### Arguments -/

inductive Argument
  /-- What follows is no option, whatever it looks like. -/
  | endOfOptions
  | help
  | version
  /-- An option, with its value if that is part of the argument. -/
  | option (option : ValueOption) (value : Option String)
  | name
  | unknown

namespace Argument

/-- A name behind two dashes, perhaps with a value behind an equals sign. -/
def ofLong (name : String) (value : Option String) : Argument :=
  match ValueOption.ofName? name, value with
  | some o, value => .option o value
  | none, some _ => .unknown
  | none, none => if name = "help" then .help else if name = "version" then .version else .unknown

def ofText (cs : List Char) : Argument :=
  match cs with
  | ['-', '-'] => .endOfOptions
  | '-' :: '-' :: rest =>
    match Text.cutFirst? '=' rest with
    | some (front, value) => ofLong (String.ofList front) (some (String.ofList value))
    | none => ofLong (String.ofList rest) none
  | '-' :: 'h' :: _ => .help
  | '-' :: 'V' :: _ => .version
  | ['-', 'b'] => .option .breakpoint none
  | '-' :: 'b' :: '=' :: rest => .option .breakpoint (some (String.ofList rest))
  | '-' :: 'b' :: rest => .option .breakpoint (some (String.ofList rest))
  | '-' :: _ :: _ => .unknown
  | _ => .name

/-- Whether a text can be the value of an option in front of it. -/
def isValue (s : String) : Bool :=
  match s.toList with
  | '-' :: _ :: _ => false
  | _ => true

end Argument

def parseFrom (env : Environment) (g : Given) : List String → Except ArgumentError Request
  | [] => g.finish env
  | argument :: rest =>
    match Argument.ofText argument.toList with
    | .endOfOptions => do (← rest.foldlM Given.name g).finish env
    | .help => .ok .help
    | .version => .ok .version
    | .option o (some value) => do parseFrom env (← g.set o value) rest
    | .option o none =>
      match rest with
      | [] => .error (.noValue o)
      | value :: rest =>
        if Argument.isValue value then do parseFrom env (← g.set o value) rest
        else .error (.noValue o)
    | .name => do parseFrom env (← g.name argument) rest
    | .unknown => .error (.unknown argument)

def parse (env : Environment) (arguments : List String) : Except ArgumentError Request :=
  parseFrom env {} arguments

def versionText : String := "sdb 0.0.2"

def shownVariable (env : Environment) (option : ValueOption) : String :=
  match option.environmentName? with
  | some name =>
    let value := (env.get? name).getD ""
    s!"[env: {name}={value}]"
  | none => ""

def helpText (env : Environment) : String :=
  s!"Solidity Debugger - A source-level step debugger for Solidity contracts

Usage: sdb [OPTIONS] <CONTRACT>

Arguments:
  <CONTRACT>  Name of the contract to deploy and debug

Options:
      --project-root <PROJECT_ROOT>  Project directory that source paths are resolved against {shownVariable env .projectRoot} [default: .]
      --build-dir <BUILD_DIR>        Directory holding compiled contract metadata, relative to the project root {shownVariable env .buildDir}
      --config <CONFIG>              Configuration file (default: .sdb.toml in the project root) {shownVariable env .config}
      --calldata <CALLDATA>          Hex calldata of a call made to the contract once it is deployed
      --value <VALUE>                Wei sent along with the deployment
  -b, --break <FILE:LINE>            Breakpoint as <file>:<line>, may be repeated
  -h, --help                         Print help
  -V, --version                      Print version"

end SourceStepper.CommandLine
