import SourceStepper.CommandLine.Run

namespace SourceStepper.CommandLine

open Terminal (Scene)

def readFile? (path : String) : IO (Option ByteArray) := do
  try return some (← IO.FS.readBinFile path) catch _ => return none

def list? (path : String) : IO (Option (List String)) := do
  try return some ((← (← IO.FS.realPath path).readDir).toList.map (·.fileName))
  catch _ => return none

def addPath (t : FileTree) (path : String) : IO FileTree := do
  match ← readFile? path with
  | some content => return t.add path (.file content)
  | none => return if (← list? path).isSome then t.add path .directory else t

/-- The tree with all JSON files below a directory. -/
partial def addArtifacts (t : FileTree) (path : String) : IO FileTree := do
  match ← list? path with
  | none => return t
  | some names =>
    let mut t := t.add path .directory
    for name in names do
      let below := Path.join path name
      if ".json".toList.isSuffixOf name.toList && (← readFile? below).isSome then
        t ← addPath t below
      else t ← addArtifacts t below
    return t

/-- The tree with the source files of all artifacts that are in it. -/
def addSources (t : FileTree) (c : Config) : IO FileTree := do
  let loader := Loader.ofProject c.projectRoot c.buildDir
  let mut t := t
  for contract in (loader.artifacts t).1 do
    for path in contract.sourceList do
      t ← addPath t (Path.join loader.projectRoot path)
  return t

/-- The settings file for the environment in the working directory or the nearest one above it. -/
def findEnvironmentFile : IO ByteArray := do
  let depth := (← IO.currentDir).toString.toList.count '/'
  for up in List.range (depth + 1) do
    let path := String.join (List.replicate up "../") ++ Environment.fileName
    if let some content ← readFile? path then return content
  return .empty

def readEnvironment : IO Environment := do
  let content ← findEnvironmentFile
  let names := ValueOption.all.filterMap ValueOption.environmentName? ++
    Environment.mentioned (String.ofList (Text.lossy content.toList))
  let mut env : Environment := .empty
  for name in names do
    if let some value ← IO.getEnv name then env := env.insert name value
  return env.load content

def conclude (ending : Ending) : IO UInt32 := do
  match ending with
  | .done => pure ()
  | .failed cause => IO.eprintln s!"Error: {cause.message}"
  | .refused cause => IO.eprintln s!"error: {cause.message}"
  return UInt32.ofNat ending.status

/-- Carry on a session to its end: print what there is to print, and read a line when nothing else
can happen. -/
partial def carryOn (files : FileTree) (s : Scene) : IO UInt32 := do
  let printed := s.dialogue.printed
  if !printed.isEmpty then
    IO.print printed
    (← IO.getStdout).flush
  let s := s.converse fun d c => ({ d with printed := "" }, c)
  match s.advance? files with
  | some s => carryOn files s
  | none =>
    if s.isEnded then conclude (endingOf s)
    else
      let line ← (← IO.getStdin).getLine
      if line.isEmpty then carryOn files s.close
      else
        carryOn files
          (s.enter (String.ofList ((Text.dropSuffix? ['\n'] line.toList).getD line.toList)))

def debugFiles (a : Arguments) : IO UInt32 := do
  let settings := a.config.getD (Path.join a.projectRoot Config.fileName)
  let files ← addPath {} settings
  match loadConfig files a with
  | .error cause => conclude (.failed (.settings cause))
  | .ok config =>
    let files ← addSources (← addArtifacts files config.buildPath) config
    match start files config a with
    | .error cause => conclude (.failed cause)
    | .ok scene => carryOn files scene

end SourceStepper.CommandLine

open SourceStepper CommandLine in
def main (arguments : List String) : IO UInt32 := do
  let env ← readEnvironment
  match parse env arguments with
  | .error cause => conclude (.refused cause)
  | .ok .help => IO.println (helpText env); return 0
  | .ok .version => IO.println versionText; return 0
  | .ok (.debug a) => debugFiles a
