import SourceStepper.Session
import SourceStepper.Terminal.Input
import SourceStepper.Terminal.Steering

namespace SourceStepper.Terminal

structure Dialogue where
  steering : Steering := {}
  printed : String := ""
  deriving DecidableEq, Repr

def promptText : String := "(sdb) "

def send (c : Controller) : Option Command → Controller
  | some command => HostAction.apply c (.send command)
  | none => c

/-- What a stop shows: the frame, the line of the source, and the operand stack. -/
def stopLines (files : FileTree) (line : Nat) (frame : Frame) : List String :=
  let sources := (frame.file.bind files.readText?).map fun text => Text.lines text.toList
  let source := if line = 0 then none else sources.bind (·[line - 1]?)
  let number := toString line
  let indent := String.ofList (List.replicate (5 - number.length) ' ')
  let values := frame.values.filter fun v => "stack".toList.isPrefixOf v.name.toList
  [s!"Stopped at {frame.text}"] ++
    (source.map fun text => s!"{indent}{number} | {String.ofList text}").toList ++
    values.map fun v => s!"        {v.text}"

namespace Dialogue

def say (d : Dialogue) (line : String) : Dialogue := { d with printed := d.printed ++ line ++ "\n" }

def sayAll (d : Dialogue) (lines : List String) : Dialogue := lines.foldl say d

def prompt (d : Dialogue) : Dialogue := { d with printed := d.printed ++ promptText }

def steer (d : Dialogue) (c : Controller) (f : Steering → Steering × Option Command) :
    Dialogue × Controller :=
  let (steering, command) := f d.steering
  ({ d with steering }, send c command)

/-- The machine has stopped: the stop is shown, and the command that has waited for it. -/
def suspended (d : Dialogue) (files : FileTree) (p : Parked) : Dialogue × Controller :=
  let waited := d.steering.pending.head?.map fun command => s!"> {command.name}"
  let d := d.sayAll (stopLines files p.line p.frame ++ waited.toList)
  let (d, c) := d.steer p.controller Steering.suspended
  (d.prompt, c)

def close (d : Dialogue) (c : Controller) : Dialogue × Controller := d.steer c Steering.close

def report (c : Controller) : Input → List String × Registry
  | .setBreak b =>
    let (new, registry) := c.registry.add b.path b.line
    ([if new then s!"Breakpoint set at {b.text}" else s!"Breakpoint already set at {b.text}"],
      registry)
  | .delete b =>
    let (found, registry) := c.registry.remove b.path b.line
    ([if found then s!"Breakpoint deleted at {b.text}" else s!"No breakpoint at {b.text}"],
      registry)
  | .skip b => ([s!"Skipping breakpoint at {b.text}"], c.registry.skip b.path b.line)
  | .breakpoints =>
    let all := c.registry.all
    (if all.isEmpty then ["No breakpoints"] else all.map fun b => s!"  {b.text}", c.registry)
  | .backtrace =>
    let frames := c.history.reverse
    (if frames.isEmpty then ["No frames recorded"]
      else frames.mapIdx fun i frame => s!"#{i} {frame.text}", c.registry)
  | .state => ([c.phase.name], c.registry)
  | .help => ([helpText], c.registry)
  | .debug _ | .quit => ([], c.registry)

def enter (d : Dialogue) (c : Controller) (line : String) : Dialogue × Controller :=
  if Text.isBlankText line.toList then (d.prompt, c)
  else
    match Input.parse line with
    | .error e => ((d.say e.message).prompt, c)
    | .ok .quit => d.steer c Steering.stop
    | .ok (.debug command) =>
      let (d, c) := d.steer c (·.command command)
      (d.prompt, c)
    | .ok input =>
      let (lines, registry) := report c input
      ((d.sayAll lines).prompt, { c with registry })

def told (d : Dialogue) : HostEvent → Dialogue
  | .suspended .. => d
  | .console text => d.say text
  | .finished text => d.say text

end Dialogue

inductive Scene
  | running (d : Dialogue) (e : Execution .mainnet)
  /-- The machine stands still. -/
  | stopped (d : Dialogue) (e : Execution .mainnet) (p : Parked)
  | ended (d : Dialogue) (outcome : Except SessionError Outcome)

namespace Scene

def dialogue : Scene → Dialogue
  | running d _ => d
  | stopped d _ _ => d
  | ended d _ => d

def ofProgress (files : FileTree) (d : Dialogue) : Progress .mainnet → Scene
  | .running e told => .running (told.foldl Dialogue.told d) e
  | .parked e p =>
    let (d, controller) := d.suspended files p
    .stopped d e { p with controller }
  | .finished _ outcome told => .ended (told.foldl Dialogue.told d) outcome

/-- One step further, unless a line has to be typed first or the session has ended. -/
def advance? (files : FileTree) : Scene → Option Scene
  | running d e =>
    let next := e.tick files
    some (if next.failed then .ended d (.error .panicked) else ofProgress files d next)
  | stopped d e p => p.answer?.map fun traced => ofProgress files d (e.resume traced)
  | ended _ _ => none

def converse (f : Dialogue → Controller → Dialogue × Controller) : Scene → Scene
  | running d e =>
    let (d, controller) := f d e.inspector.controller
    .running d { e with inspector := { e.inspector with controller } }
  | stopped d e p =>
    let (d, controller) := f d p.controller
    .stopped d e { p with controller }
  | ended d outcome => .ended d outcome

/-- A line has been typed. A carriage return at its end belongs to the line end. -/
def enter (s : Scene) (line : String) : Scene :=
  s.converse fun d c => d.enter c (String.ofList (Text.dropReturn line.toList))

def close (s : Scene) : Scene := s.converse Dialogue.close

def isEnded : Scene → Bool
  | ended _ _ => true
  | _ => false

/-- Go on to the end, or for at most `fuel` steps. A line is typed when nothing else can happen; the
lines that have not been typed are left. -/
def play (files : FileTree) : Nat → List String → Scene → Scene × List String
  | 0, lines, s => (s, lines)
  | fuel + 1, lines, s =>
    match s.advance? files with
    | some s => play files fuel lines s
    | none =>
      if s.isEnded then (s, lines)
      else
        match lines with
        | line :: rest => play files fuel rest (s.enter line)
        | [] => play files fuel [] s.close

/-- An upper bound for the steps of a session: instructions and stops, lines, and the end of
the lines. -/
def fuel (config : Config) (lines : List String) : Nat :=
  Session.fuel config + 2 * lines.length + 3

end Scene

end SourceStepper.Terminal
