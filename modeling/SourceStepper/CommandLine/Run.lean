import SourceStepper.CommandLine.Arguments
import SourceStepper.Config.File
import SourceStepper.Terminal.Dialogue

namespace SourceStepper.CommandLine

open Terminal (Dialogue Scene)

inductive Failure
  | settings (cause : Config.FileError)
  | noContract (name buildDir : String)
  | notDeployable (cause : DeployError)
  | session (cause : SessionError)
  deriving DecidableEq, Repr

def Failure.message : Failure → String
  | .settings cause => cause.message
  | .noContract name buildDir => s!"Contract `{name}` not found in {buildDir}"
  | .notDeployable cause => cause.message
  | .session cause => cause.message

/-- The settings from the file that the arguments name, or else from the one of the project. The
arguments win. -/
def loadConfig (files : FileTree) (a : Arguments) : Except Config.FileError Config := do
  let c ← match a.config with
    | some path => do return { ← Config.load files path with projectRoot := a.projectRoot }
    | none => Config.ofProject files a.projectRoot
  return { c with buildDir := a.buildDir.getD c.buildDir }

def setBreakpoints (a : Arguments) (s : Session) : Dialogue × Session :=
  a.breakpoints.foldl (fun (d, s) b =>
    let (_, registry) := s.controller.registry.add b.path b.line
    (d.say s!"Breakpoint set at {b.text}",
      { s with controller := { s.controller with registry } })) ({}, s)

def start (files : FileTree) (config : Config) (a : Arguments) : Except Failure Scene := do
  let s := Session.ofConfig config
  let (found, loader) := s.controller.loader.find files a.contract
  let s := { s with controller := { s.controller with loader } }
  match found with
  | none => .error (.noContract a.contract loader.buildDir)
  | some contract =>
    match contract.initCode with
    | .error cause => .error (.notDeployable cause)
    | .ok initCode =>
      let (d, s) := setBreakpoints a s
      let target : Target := { initCode, calldata := a.calldata, value := a.value.getD 0 }
      return .ofProgress files d (Execution.start .mainnet config s.controller target)

inductive Ending
  | done
  | refused (cause : ArgumentError)
  | failed (cause : Failure)
  deriving DecidableEq, Repr

def Ending.status : Ending → Nat
  | done => 0
  | failed _ => 1
  | refused _ => 2

def endingOf : Scene → Ending
  | .ended _ (.error cause) => .failed (.session cause)
  | _ => .done

/-- When lines are typed. -/
inductive Typing
  /-- Each when a line is asked for. -/
  | asked
  /-- All before the first stop, with the end of the input behind them. -/
  | ahead
  deriving DecidableEq, Repr

def debug (files : FileTree) (a : Arguments) (lines : List String) (typing : Typing) :
    Ending × String × List String :=
  match loadConfig files a with
  | .error cause => (.failed (.settings cause), "", lines)
  | .ok config =>
    match start files config a with
    | .error cause => (.failed cause, "", lines)
    | .ok scene =>
      let (scene, lines) := match typing with
        | .asked => (scene, lines)
        | .ahead => ((lines.foldl Scene.enter scene).close, [])
      let (scene, rest) := scene.play files (Scene.fuel config lines) lines
      (endingOf scene, scene.dialogue.printed, rest)

def environment (files : FileTree) (env : Environment) : Environment :=
  match files.read? Environment.fileName with
  | some content => env.load content
  | none => env

def run (files : FileTree) (env : Environment) (arguments lines : List String) (typing : Typing) :
    Ending × String × List String :=
  let env := environment files env
  match parse env arguments with
  | .error cause => (.refused cause, "", lines)
  | .ok .help => (.done, helpText env ++ "\n", lines)
  | .ok .version => (.done, versionText ++ "\n", lines)
  | .ok (.debug a) => debug files a lines typing

end SourceStepper.CommandLine
