import SourceStepper.Breakpoint
import SourceStepper.Command

namespace SourceStepper.Terminal

inductive Input
  | debug (command : Command)
  | setBreak (breakpoint : Breakpoint)
  | delete (breakpoint : Breakpoint)
  | skip (breakpoint : Breakpoint)
  | breakpoints
  | backtrace
  | state
  | help
  | quit
  deriving DecidableEq, Repr

inductive InputError
  | empty
  | tooManyArguments (line : String)
  | noBreakpoint (word : String)
  | badBreakpoint (cause : BreakpointError)
  | execute
  | unknown (word : String)
  | noArguments (word : String)
  deriving DecidableEq, Repr

def InputError.message : InputError → String
  | .empty => "Empty command"
  | .tooManyArguments line => s!"Too many arguments: {line}"
  | .noBreakpoint word => s!"`{word}` expects <file>:<line>"
  | .badBreakpoint cause => cause.message
  | .execute => "`execute` is sent by the VM, not the user"
  | .unknown word => s!"Unknown command `{word}`, type `help` for a list"
  | .noArguments word => s!"`{word}` takes no arguments"

inductive Verb
  /-- The word is followed by a breakpoint. -/
  | withBreakpoint (make : Breakpoint → Input)
  | alone (input : Input)

def verbs : List (String × Verb) :=
  [("s", .alone (.debug .stepInto)), ("step", .alone (.debug .stepInto)),
   ("n", .alone (.debug .stepOver)), ("next", .alone (.debug .stepOver)),
   ("o", .alone (.debug .stepOut)), ("out", .alone (.debug .stepOut)),
   ("c", .alone (.debug .resume)), ("continue", .alone (.debug .resume)),
   ("p", .alone (.debug .suspend)), ("pause", .alone (.debug .suspend)),
   ("b", .withBreakpoint .setBreak), ("break", .withBreakpoint .setBreak),
   ("d", .withBreakpoint .delete), ("delete", .withBreakpoint .delete),
   ("skip", .withBreakpoint .skip),
   ("info", .alone .breakpoints),
   ("bt", .alone .backtrace), ("backtrace", .alone .backtrace),
   ("state", .alone .state),
   ("h", .alone .help), ("help", .alone .help),
   ("q", .alone .quit), ("quit", .alone .quit), ("exit", .alone .quit)]

/-- What a word stands for: one of the words of the prompt, or else a command by its name. -/
def Verb.ofWord (word : String) : Except InputError Verb :=
  match verbs.lookup word with
  | some verb => .ok verb
  | none =>
    match Command.parse word with
    | .ok .execute => .error .execute
    | .ok .stop => .ok (.alone .quit)
    | .ok command => .ok (.alone (.debug command))
    | .error _ => .error (.unknown word)

namespace Input

def ofWords (word : String) (argument : Option String) : Except InputError Input := do
  match ← Verb.ofWord word, argument with
  | .withBreakpoint _, none => .error (.noBreakpoint word)
  | .withBreakpoint make, some argument =>
    match Breakpoint.parse argument with
    | .ok b => .ok (make b)
    | .error cause => .error (.badBreakpoint cause)
  | .alone _, some _ => .error (.noArguments word)
  | .alone input, none => .ok input

def parse (line : String) : Except InputError Input :=
  match (Text.words line.toList).map String.ofList with
  | [] => .error .empty
  | [word] => ofWords word none
  | [word, argument] => ofWords word (some argument)
  | _ => .error (.tooManyArguments line)

/-- What a line asks for, in its plainest spelling. -/
def text : Input → String
  | .debug command => command.name
  | .setBreak b => s!"break {b.text}"
  | .delete b => s!"delete {b.text}"
  | .skip b => s!"skip {b.text}"
  | .breakpoints => "info"
  | .backtrace => "backtrace"
  | .state => "state"
  | .help => "help"
  | .quit => "quit"

end Input

def helpText : String :=
  "Commands:
  s, step            step into the next line
  n, next            step over the next line
  o, out             step out of the current function
  c, continue        run until the next breakpoint
  p, pause           stop at the next opcode
  b <file>:<line>    add a breakpoint
  d <file>:<line>    delete a breakpoint
  skip <file>:<line> ignore a breakpoint without deleting it
  info               list breakpoints
  bt                 show recorded frames
  state              show the controller state
  h, help            show this help
  q, quit            stop the session"

end SourceStepper.Terminal
