import SourceStepper.Config
import SourceStepper.Host
import SourceStepper.Vm

namespace SourceStepper

structure Target where
  /-- The code that creates the contract. -/
  initCode : List UInt8
  /-- The data of one call of the contract, if it is to be called. -/
  calldata : Option (List UInt8) := none
  /-- What the contract is given when it is created. -/
  value : Nat := 0
  deriving DecidableEq, Repr

inductive SessionError
  /-- The machine refused a transaction or gave it up. -/
  | vm (message : String)
  | alreadyStarted
  | notStarted
  /-- A number has overflowed at an instruction. -/
  | panicked
  deriving DecidableEq, Repr

def SessionError.message : SessionError → String
  | .vm message => s!"VM execution failed: {message}"
  | .alreadyStarted => "debug session already started"
  | .notStarted => "debug session not started"
  | .panicked => "VM thread panicked"

structure Outcome where
  deployment : Evm.Receipt
  address : Option Evm.Address
  call : Option Evm.Receipt
  /-- Whether a host has ended the session. -/
  terminated : Bool

def Outcome.summary (o : Outcome) : String :=
  let place := match o.address with
    | some a => s!" at {a.text}"
    | none => ""
  let call := match o.call with
    | some receipt => s!", call {receipt.text}"
    | none => ""
  let ended := if o.terminated then " (stopped by host)" else ""
  s!"deployment {o.deployment.text}{place}{call}{ended}"

inductive HostEvent
  | suspended (line : Nat) (frame : Frame)
  | console (text : String)
  | finished (text : String)
  deriving DecidableEq, Repr

structure Execution (vm : Vm) where
  config : Config
  target : Target
  state : vm.State
  inspector : Inspector
  /-- The creation, if the transaction is the call behind it. -/
  deployed : Option Evm.Receipt := none

/-- How far an execution has come. -/
inductive Progress (vm : Vm)
  /-- It goes on; a host may have been told something. -/
  | running (e : Execution vm) (told : List HostEvent)
  /-- It waits for a host. -/
  | parked (e : Execution vm) (p : Parked)
  /-- It has ended. -/
  | finished (controller : Controller) (outcome : Except SessionError Outcome)
    (told : List HostEvent)

namespace Execution

variable {vm : Vm}

def execute (e : Execution vm) : Execution vm :=
  let (state, signals) := vm.execute e.state
  { e with state, inspector := signals.foldl Inspector.signal e.inspector }

def finish (e : Execution vm) (deployment : Evm.Receipt) (call : Option Evm.Receipt) :
    Progress vm :=
  let terminated := e.inspector.terminated
  let outcome : Outcome := { deployment, address := deployment.created, call, terminated }
  .finished e.inspector.controller (.ok outcome) [.finished outcome.summary]

def begin (config : Config) (target : Target) (inspector : Inspector) (chain : vm.Chain)
    (transaction : Evm.Transaction) (deployed : Option Evm.Receipt) (told : List HostEvent) :
    Progress vm :=
  match vm.start transaction chain with
  | .error message => .finished inspector.controller (.error (.vm message)) told
  | .ok (state, signals) =>
    .running {
      config, target, state, deployed
      inspector := signals.foldl Inspector.signal inspector } told

def deployment (config : Config) (target : Target) : Evm.Transaction where
  caller := config.caller
  target := none
  value := target.value
  data := target.initCode
  gasLimit := config.gasLimit

def call (config : Config) (address : Evm.Address) (calldata : List UInt8) : Evm.Transaction where
  caller := config.caller
  target := some address
  value := 0
  data := calldata
  gasLimit := config.gasLimit

/-- Go on behind a transaction: a contract that has been created is called, unless there are no data
for a call or the session has been ended. -/
def endTransaction (e : Execution vm) (receipt : Evm.Receipt) (chain : vm.Chain) : Progress vm :=
  match e.deployed, receipt.created, e.target.calldata with
  | some deployment, _, _ => e.finish deployment (some receipt)
  | none, some address, some calldata =>
    if e.inspector.terminated then e.finish receipt none
    else
      begin e.config e.target e.inspector chain (call e.config address calldata) (some receipt)
        [.console s!"Calling {address.text}"]
  | none, _, _ => e.finish receipt none

def conclude (e : Execution vm) : Except String (Evm.Receipt × vm.Chain) → Progress vm
  | .error message => .finished e.inspector.controller (.error (.vm message)) []
  | .ok (receipt, chain) => e.endTransaction receipt chain

/-- Show the next instruction to the controller and execute it, unless the controller stops. -/
def tick (e : Execution vm) (files : FileTree) : Progress vm :=
  match vm.result? e.state, vm.moment? e.state with
  | some result, _ => e.conclude result
  | none, some moment =>
    match e.inspector.step files moment with
    | .passed inspector => .running { e with inspector }.execute []
    | .parked inspector p => .parked { e with inspector } p
  | none, none => .running e.execute []

/-- Go on from a stop that has been answered. -/
def resume (e : Execution vm) (traced : Traced) : Progress vm :=
  match e.inspector.settle traced with
  | .passed inspector => .running { e with inspector }.execute []
  | .parked inspector p => .parked { e with inspector } p

def start (vm : Vm) (config : Config) (controller : Controller) (target : Target) : Progress vm :=
  begin config target { controller } (vm.funded config.caller) (deployment config target) none
    [.console s!"Deploying {target.initCode.length} bytes of init code"]

end Execution

def Settled.traced : Settled → Traced
  | .passed c => .passed c
  | .ended c => .ended c
  | .stuck c => .starved c

/-- Whether a controller has failed on the way. Nothing that it has done since counts. -/
def Progress.failed {vm : Vm} : Progress vm → Bool
  | .running e _ => e.inspector.controller.failed
  | .parked _ p => p.controller.failed
  | .finished controller _ _ => controller.failed

/-- Execute with a host that answers by a script, for at most `fuel` instructions and stops.
`events` is what the host has been told so far, the last first. -/
def Progress.run {vm : Vm} (files : FileTree) : Nat → Script → List HostEvent → Progress vm →
    Option (Controller × Except SessionError Outcome × List HostEvent)
  | _, _, events, .finished controller outcome told =>
    some (controller, outcome, (told.reverse ++ events).reverse)
  | 0, _, _, _ => none
  | fuel + 1, script, events, .running e told =>
    let events := told.reverse ++ events
    let next := e.tick files
    if next.failed then some (e.inspector.controller, .error .panicked, events.reverse)
    else Progress.run files fuel script events next
  | fuel + 1, script, events, .parked e p =>
    let (settled, script, stops) := (Traced.parked p).settle script
    let told := stops.map fun p => .suspended p.line p.frame
    Progress.run files fuel script (told.reverse ++ events) (e.resume settled.traced)

structure Session where
  config : Config
  controller : Controller
  started : Bool := false
  /-- The outcome, from the end of the execution until somebody asks for it. -/
  outcome : Option (Except SessionError Outcome) := none

namespace Session

def ofConfig (config : Config) : Session where
  config
  controller :=
    .ofParts (.ofProject config.projectRoot config.buildDir) ⟨config.normalizer, .empty, .empty⟩
    config.maxFrames

/-- An upper bound for the number of instructions: each costs gas or ends a frame, and a frame costs
more than that. -/
def fuel (config : Config) : Nat := 6 * config.gasLimit + 1000

/-- Execute a target to its end, with a host that answers stops by a script. Nobody takes commands
any more afterwards. -/
def start (s : Session) (files : FileTree) (target : Target) (script : Script) :
    Except SessionError (Session × List HostEvent) :=
  if s.started then .error .alreadyStarted
  else
    match (Execution.start .mainnet s.config s.controller target).run files
      (fuel s.config) script [] with
    | none => .ok ({ s with started := true }, [])
    | some (controller, outcome, events) =>
      .ok ({ s with
        controller := { controller with channel := controller.channel.close }
        started := true
        outcome := some outcome }, events)

def isFinished (s : Session) : Bool := s.outcome.isSome

def join (s : Session) : Except SessionError Outcome × Session :=
  (s.outcome.getD (.error .notStarted), { s with outcome := none })

def send (s : Session) (command : Command) : Except SendError Session :=
  (s.controller.channel.send 0 command).map fun channel =>
    { s with controller := { s.controller with channel } }

/-- End the session, and ask for the outcome. -/
def stop (s : Session) : Except SessionError Outcome × Session :=
  match s.send .stop with
  | .ok s => s.join
  | .error _ => s.join

end Session

end SourceStepper
