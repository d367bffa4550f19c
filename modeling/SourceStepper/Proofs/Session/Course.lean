import SourceStepper.Proofs.Session.Run

/-! The course of a session, whatever hosts do in it. The machine gets from transaction to
transaction as if nobody looked on, so that what it makes of them tells the course, up to the moment
in which a host ends the session. -/
namespace SourceStepper

namespace Vm

variable {vm : Vm} {s t u : vm.State}

/-- The states that a machine comes to, up to the end of its transaction. -/
inductive Reaches (vm : Vm) (s : vm.State) : vm.State → Prop
  | here : Reaches vm s s
  | step {t : vm.State} (reached : Reaches vm s t) (going : vm.result? t = none) :
      Reaches vm s (vm.execute t).1

/-- What a machine that is left alone makes of a transaction. -/
inductive Yields (vm : Vm) (transaction : Evm.Transaction) (chain : vm.Chain) :
    Except String (Evm.Receipt × vm.Chain) → Prop
  | refused {message : String} (refused : vm.start transaction chain = .error message) :
      Yields vm transaction chain (.error message)
  | executed {s t : vm.State} {signals : List Evm.Signal}
      {r : Except String (Evm.Receipt × vm.Chain)}
      (started : vm.start transaction chain = .ok (s, signals)) (reached : vm.Reaches s t)
      (ended : vm.result? t = some r) : Yields vm transaction chain r

theorem Reaches.first (reached : vm.Reaches s t) :
    t = s ∨ vm.result? s = none ∧ vm.Reaches (vm.execute s).1 t := by
  induction reached with
  | here => exact .inl rfl
  | step reached going ih =>
    rcases ih with rfl | ⟨first, rest⟩
    · exact .inr ⟨going, .here⟩
    · exact .inr ⟨first, rest.step going⟩

theorem Reaches.last {r : Except String (Evm.Receipt × vm.Chain)} (reached : vm.Reaches s t)
    (ended : vm.result? s = some r) : t = s := by
  rcases reached.first with same | ⟨going, _⟩
  · exact same
  · rw [ended] at going
    contradiction

theorem Reaches.linear (first : vm.Reaches s t) (second : vm.Reaches s u) :
    vm.Reaches t u ∨ vm.Reaches u t := by
  -- When the first way takes a step, the second has taken the same one, or it is not yet as far.
  induction first with
  | here => exact .inl second
  | step _ going ih =>
    rcases ih with ahead | behind
    · rcases ahead.first with rfl | ⟨_, ahead⟩
      · exact .inr (.step .here going)
      · exact .inl ahead
    · exact .inr (behind.step going)

theorem Reaches.ends {r r' : Except String (Evm.Receipt × vm.Chain)} (first : vm.Reaches s t)
    (second : vm.Reaches s u) (ended : vm.result? t = some r) (ended' : vm.result? u = some r') :
    r = r' := by
  have same : t = u := by
    rcases first.linear second with ahead | behind
    · exact (ahead.last ended).symm
    · exact behind.last ended'
  subst same
  exact Option.some.inj (ended.symm.trans ended')

end Vm

variable {vm : Vm}

theorem Inspector.signals_keep (signals : List Evm.Signal) (i : Inspector) :
    (signals.foldl Inspector.signal i).terminated = i.terminated ∧
      (signals.foldl Inspector.signal i).controller.channel = i.controller.channel := by
  induction signals generalizing i with
  | nil => exact ⟨rfl, rfl⟩
  | cons signal signals ih =>
    obtain ⟨terminated, channel⟩ := ih (i.signal signal)
    rw [List.foldl_cons, terminated, channel]
    cases signal with
    | opened isCreation => exact ⟨rfl, rfl⟩
    | closed =>
      refine ⟨rfl, ?_⟩
      change (if i.terminated then i.controller else i.controller.leaveFrame).channel = _
      split <;> rfl

namespace Session

/-- Nothing but stops, and the end that hosts put to a session. -/
def Stops (log : Log) : Prop :=
  ∀ entry ∈ log, entry = .stopped ∨ ∃ line frame, entry = .told (.suspended line frame)

theorem stops_append {log more : Log} (first : Stops log) (second : Stops more) :
    Stops (log ++ more) :=
  List.forall_mem_append.mpr ⟨first, second⟩

theorem stops_entries (es : History) : Stops (entries es) := by
  intro entry member
  obtain ⟨event, -, same⟩ := List.mem_filterMap.mp member
  cases event with
  | suspended p => exact .inr ⟨_, _, (Option.some.inj same).symm⟩
  | ended v => exact .inl (Option.some.inj same).symm
  | _ => contradiction

theorem stopped_mem_entries {es : History} : .stopped ∈ entries es ↔ es.any isEnd = true := by
  simp only [entries, List.mem_filterMap, List.mem_reverse, List.any_eq_true]
  refine exists_congr fun event => and_congr_right fun _ => ?_
  cases event <;> simp [noted?, isEnd]

theorem no_end_of_busy {t u : Thread} {es : History} (move : t.Move es u)
    (busy : u.visit?.isSome = true) :
    es.any isEnd = false := by
  cases move with
  | host moved => simp [isEnd, List.any_map]
  | edit change => rfl
  | pass idle passed => rfl
  | observe files step awake => rfl
  | @dispatch _ c v e last next =>
    rw [(entries_deeds c v e).2]
    cases obeyed : c.obey v e.command with
    | handled d => rfl
    | stops d => rfl
    | ends d =>
      rw [obeyed] at busy
      contradiction
  | leaveFrame c => rfl

def Stage.At (e : Execution vm) : Stage vm → Prop
  | .running d => d = e
  | .handling d _ => d = e ∧ vm.result? e.state = none
  | .fresh .. | .ended .. => False

/-- What a move does in the midst of a transaction. -/
structure Within (e : Execution vm) (log : Log) (d : Execution vm) : Prop where
  config : d.config = e.config
  target : d.target = e.target
  deployed : d.deployed = e.deployed
  state : d.state = e.state ∨ vm.result? e.state = none ∧ d.state = (vm.execute e.state).1
  stops : Stops log
  terminated : d.inspector.terminated = true ↔ e.inspector.terminated = true ∨ .stopped ∈ log

theorem execute_within {e d : Execution vm} {log : Log} (going : vm.result? e.state = none)
    (stops : Stops log) (inspector : Inspector) (same : d = { e with inspector })
    (terminated : inspector.terminated = true ↔ e.inspector.terminated = true ∨ .stopped ∈ log) :
    Within e log d.execute := by
  subst same
  refine ⟨rfl, rfl, rfl, .inr ⟨going, rfl⟩, stops, ?_⟩
  rw [Execution.execute, (Inspector.signals_keep _ _).1]
  exact terminated

/-- What a move can do while the machine executes a transaction: it ends it, or it stays within. -/
theorem move_at {s t : Stage vm} {e : Execution vm} {log : Log} (here : s.At e)
    (move : s.Move log t) :
    (∃ r, vm.result? e.state = some r ∧ t = (e.conclude r).stage ∧
      log = (if r.isOk then [.transacted] else []) ++ (e.conclude r).entries) ∨
    ∃ d, t.At d ∧ Within e log d := by
  have nothing : Stops [] := nofun
  have unchanged : ∀ e : Execution vm, e.inspector.terminated = true ↔
      e.inspector.terminated = true ∨ Entry.stopped ∈ ([] : Log) := by simp
  cases move with
  | prepare => exact here.elim
  | start => exact here.elim
  | host =>
    cases here
    exact .inr ⟨_, rfl, rfl, rfl, rfl, .inl rfl, nothing, unchanged _⟩
  | conclude ended =>
    cases here
    exact .inl ⟨_, ended, rfl, rfl⟩
  | proceed going hidden =>
    cases here
    exact .inr ⟨_, rfl, execute_within going nothing _ rfl (unchanged _)⟩
  | skip files going shown idle passed =>
    cases here
    obtain ⟨_, passed', terminated, _⟩ := Inspector.step_idle idle files _
    cases passed.symm.trans passed'
    exact .inr ⟨_, rfl, execute_within going nothing _ rfl (by rw [terminated]; exact unchanged _)⟩
  | observe files going =>
    cases here
    exact .inr ⟨_, ⟨rfl, going⟩, rfl, rfl, rfl, .inl rfl, nothing, unchanged _⟩
  | @handle _ t u es move =>
    obtain ⟨rfl, going⟩ := here
    cases u with
    | running c =>
      refine .inr ⟨_, rfl, execute_within going (stops_entries es) _ rfl ?_⟩
      rw [stopped_mem_entries, Bool.or_eq_true]
    | obeying c v =>
      have none := no_end_of_busy move rfl
      refine .inr ⟨_, ⟨rfl, going⟩, rfl, rfl, rfl, .inl rfl, stops_entries es, ?_⟩
      rw [stopped_mem_entries, none]
      simp
    | parked p =>
      have none := no_end_of_busy move rfl
      refine .inr ⟨_, ⟨rfl, going⟩, rfl, rfl, rfl, .inl rfl, stops_entries es, ?_⟩
      rw [stopped_mem_entries, none]
      simp

section Course
variable (vm : Vm) (config : Config) (target : Target)

def Deploys (r : Except String (Evm.Receipt × vm.Chain)) : Prop :=
  vm.Yields (Execution.deployment config target) (vm.funded config.caller) r

structure Executes (transaction : Evm.Transaction) (chain : vm.Chain) (e : Execution vm)
    (log : Log) :
    Prop where
  config : e.config = config
  target : e.target = target
  reached : ∃ s signals, vm.start transaction chain = .ok (s, signals) ∧ vm.Reaches s e.state
  stops : Stops log
  terminated : e.inspector.terminated = true ↔ .stopped ∈ log

structure Called (created : Evm.Receipt) (chain : vm.Chain) (address : Evm.Address)
    (calldata : List UInt8) (log : Log) : Prop where
  deploys : Deploys vm config target (.ok (created, chain))
  stops : Stops log
  going : .stopped ∉ log
  created : created.created = some address
  calldata : target.calldata = some calldata

def deployingLine : Entry :=
  .told (.console s!"Deploying {target.initCode.length} bytes of init code")

def callingLine (address : Evm.Address) : Entry := .told (.console s!"Calling {address.text}")

/-- How far a session of a target can be, and what has happened in it then. -/
inductive Course : Stage vm → Log → Prop
  | fresh (c : Controller) : Course (.fresh config target c) []
  | deploying {s : Stage vm} {e : Execution vm} {log : Log} (here : s.At e)
      (first : e.deployed = none)
      (executes : Executes vm config target (Execution.deployment config target)
        (vm.funded config.caller) e log) : Course s (deployingLine target :: log)
  | refused {message : String} {log : Log} (c : Controller)
      (deploys : Deploys vm config target (.error message)) (stops : Stops log) :
      Course (.ended c (.error (.vm message))) (deployingLine target :: log)
  | deployed {created : Evm.Receipt} {chain : vm.Chain} {log : Log} {outcome : Outcome}
      (c : Controller)
      (deploys : Deploys vm config target (.ok (created, chain))) (stops : Stops log)
      (omitted : target.calldata = none ∨ created.created = none ∨ .stopped ∈ log)
      (same : outcome = ⟨created, created.created, none, .stopped ∈ log⟩) :
      Course (.ended c (.ok outcome))
        (deployingLine target :: log ++ [.transacted, .told (.finished outcome.summary)])
  | calling {s : Stage vm} {e : Execution vm} {created : Evm.Receipt} {chain : vm.Chain}
      {address : Evm.Address} {calldata : List UInt8} {log more : Log}
      (called : Called vm config target created chain address calldata log) (here : s.At e)
      (second : e.deployed = some created)
      (executes : Executes vm config target (Execution.call config address calldata) chain e more) :
      Course s (deployingLine target :: log ++ .transacted :: callingLine address :: more)
  | callRefused {created : Evm.Receipt} {chain : vm.Chain} {address : Evm.Address}
      {calldata : List UInt8} {message : String} {log more : Log} (c : Controller)
      (called : Called vm config target created chain address calldata log)
      (calls : vm.Yields (Execution.call config address calldata) chain (.error message))
      (stops : Stops more) :
      Course (.ended c (.error (.vm message)))
        (deployingLine target :: log ++ .transacted :: callingLine address :: more)
  | answered {created receipt : Evm.Receipt} {chain chain' : vm.Chain} {address : Evm.Address}
      {calldata : List UInt8} {log more : Log} {outcome : Outcome} (c : Controller)
      (called : Called vm config target created chain address calldata log)
      (calls : vm.Yields (Execution.call config address calldata) chain (.ok (receipt, chain')))
      (stops : Stops more)
      (same : outcome = ⟨created, created.created, some receipt, .stopped ∈ more⟩) :
      Course (.ended c (.ok outcome))
        (deployingLine target :: log ++ .transacted :: callingLine address :: more ++
          [.transacted, .told (.finished outcome.summary)])

variable {vm config target}
variable {transaction : Evm.Transaction} {chain : vm.Chain} {e d : Execution vm} {log more : Log}

theorem Executes.within (executes : Executes vm config target transaction chain e log)
    (within : Within e more d) : Executes vm config target transaction chain d (log ++ more) := by
  obtain ⟨s, signals, started, reached⟩ := executes.reached
  refine ⟨within.config.trans executes.config, within.target.trans executes.target,
    ⟨s, signals, started, ?_⟩, stops_append executes.stops within.stops, ?_⟩
  · rcases within.state with same | ⟨going, next⟩
    · rwa [same]
    · rw [next]
      exact reached.step going
  · rw [within.terminated, executes.terminated, List.mem_append]

theorem Executes.yields {r : Except String (Evm.Receipt × vm.Chain)}
    (executes : Executes vm config target transaction chain e log)
    (ended : vm.result? e.state = some r) :
    vm.Yields transaction chain r := by
  obtain ⟨s, signals, started, reached⟩ := executes.reached
  exact .executed started reached ended

/-- A transaction is refused, or its execution is at the start. -/
theorem begin_cases (inspector : Inspector) (live : inspector.terminated = false)
    (deployed : Option Evm.Receipt) (told : List HostEvent) :
    (∃ message, vm.start transaction chain = .error message ∧
      Execution.begin config target inspector chain transaction deployed told =
        .finished inspector.controller (.error (.vm message)) told) ∨
    ∃ e, Execution.begin config target inspector chain transaction deployed told = .running e told ∧
      e.deployed = deployed ∧ Executes vm config target transaction chain e [] := by
  unfold Execution.begin
  cases started : vm.start transaction chain with
  | error message => exact .inl ⟨message, rfl, rfl⟩
  | ok first =>
    obtain ⟨s, signals⟩ := first
    refine .inr ⟨_, rfl, rfl, rfl, rfl, ⟨s, signals, started, .here⟩, nofun, ?_⟩
    rw [(Inspector.signals_keep signals inspector).1, live]
    simp

theorem conclude_creation (first : e.deployed = none) (receipt : Evm.Receipt) (chain : vm.Chain) :
    (e.conclude (.ok (receipt, chain)) = e.finish receipt none ∧
      (e.target.calldata = none ∨ receipt.created = none ∨ e.inspector.terminated = true)) ∨
    ∃ address calldata, receipt.created = some address ∧ e.target.calldata = some calldata ∧
      e.inspector.terminated = false ∧ e.conclude (.ok (receipt, chain)) =
        Execution.begin e.config e.target e.inspector chain
          (Execution.call e.config address calldata)
          (some receipt) [.console s!"Calling {address.text}"] := by
  simp only [Execution.conclude, Execution.endTransaction, first]
  cases created : receipt.created with
  | none => exact .inl ⟨rfl, .inr (.inl rfl)⟩
  | some address =>
    cases calldata : e.target.calldata with
    | none => exact .inl ⟨rfl, .inl rfl⟩
    | some data =>
      cases terminated : e.inspector.terminated with
      | true => exact .inl ⟨rfl, .inr (.inr rfl)⟩
      | false => exact .inr ⟨address, data, rfl, rfl, rfl, rfl⟩

theorem conclude_call {created : Evm.Receipt} (second : e.deployed = some created)
    (receipt : Evm.Receipt) (chain : vm.Chain) :
    e.conclude (.ok (receipt, chain)) = e.finish created (some receipt) := by
  simp [Execution.conclude, Execution.endTransaction, second]

theorem start_cases (c : Controller) :
    (∃ message, vm.start (Execution.deployment config target) (vm.funded config.caller) =
      .error message ∧
      Execution.start vm config c target = .finished c (.error (.vm message))
        [.console s!"Deploying {target.initCode.length} bytes of init code"]) ∨
    ∃ e, Execution.start vm config c target =
        .running e [.console s!"Deploying {target.initCode.length} bytes of init code"] ∧
      e.deployed = none ∧ Executes vm config target (Execution.deployment config target)
        (vm.funded config.caller) e [] := by
  unfold Execution.start
  exact begin_cases { controller := c } rfl none _

theorem start_course (c : Controller) :
    Course vm config target (Execution.start vm config c target).stage
      (Execution.start vm config c target).entries := by
  rcases start_cases c with ⟨message, refused, same⟩ | ⟨e, same, first, executes⟩
  · rw [same]
    exact .refused c (.refused refused) nofun
  · rw [same]
    exact .deploying rfl first executes

theorem Executes.outcome (executes : Executes vm config target transaction chain e log)
    (created : Evm.Receipt) (receipt : Option Evm.Receipt) :
    (⟨created, created.created, receipt, e.inspector.terminated⟩ : Outcome) =
      ⟨created, created.created, receipt, .stopped ∈ log⟩ := by
  rw [Outcome.mk.injEq, Bool.eq_iff_iff, decide_eq_true_iff, executes.terminated]
  exact ⟨rfl, rfl, rfl, Iff.rfl⟩

theorem creation_course {r : Except String (Evm.Receipt × vm.Chain)} (first : e.deployed = none)
    (executes : Executes vm config target (Execution.deployment config target)
      (vm.funded config.caller) e log) (ended : vm.result? e.state = some r) :
    Course vm config target (e.conclude r).stage (deployingLine target :: log ++
      ((if r.isOk then [.transacted] else []) ++ (e.conclude r).entries)) := by
  have deploys : Deploys vm config target r := executes.yields ended
  cases r with
  | error message =>
    change Course vm config target _ (deployingLine target :: log ++ [])
    rw [List.append_nil]
    exact .refused _ deploys executes.stops
  | ok result =>
    obtain ⟨created, chain⟩ := result
    -- The session ends here, or the call begins.
    rcases conclude_creation first created chain with
      ⟨same, omitted⟩ | ⟨address, calldata, made, data, live, same⟩
    · rw [executes.target, executes.terminated] at omitted
      rw [same]
      exact .deployed _ deploys executes.stops omitted (executes.outcome created none)
    · rw [executes.target] at data
      have going : .stopped ∉ log := by rw [← executes.terminated, live]; simp
      have called : Called vm config target created chain address calldata log :=
        ⟨deploys, executes.stops, going, made, data⟩
      rw [same, executes.config, executes.target]
      rcases begin_cases e.inspector live (some created) [.console s!"Calling {address.text}"] with
        ⟨message, refused, same⟩ | ⟨d, same, second, executes'⟩
      · rw [same]
        exact .callRefused _ called (.refused refused) nofun
      · rw [same]
        exact .calling called rfl second executes'

theorem call_course {r : Except String (Evm.Receipt × vm.Chain)} {created : Evm.Receipt}
    {address : Evm.Address} {calldata : List UInt8}
    (called : Called vm config target created chain address calldata log)
    (second : e.deployed = some created)
    (executes : Executes vm config target (Execution.call config address calldata) chain e more)
    (ended : vm.result? e.state = some r) :
    Course vm config target (e.conclude r).stage
      (deployingLine target :: log ++ .transacted :: callingLine address :: more ++
        ((if r.isOk then [.transacted] else []) ++ (e.conclude r).entries)) := by
  have calls := executes.yields ended
  cases r with
  | error message =>
    change Course vm config target _
      (deployingLine target :: log ++ .transacted :: callingLine address :: more ++ [])
    rw [List.append_nil]
    exact .callRefused _ called calls executes.stops
  | ok result =>
    obtain ⟨receipt, chain'⟩ := result
    rw [conclude_call second]
    exact .answered _ called calls executes.stops (executes.outcome created (some receipt))

/-- Behind any move, a session is where its course can be. -/
theorem move_course {s t : Stage vm} (course : Course vm config target s log)
    (move : s.Move more t) :
    Course vm config target t (log ++ more) := by
  cases course with
  | fresh c =>
    cases move with
    | prepare move hosts => exact .fresh _
    | start => exact start_course c
  | deploying here first executes =>
    rcases move_at here move with ⟨r, ended, rfl, rfl⟩ | ⟨d, there, within⟩
    · exact creation_course first executes ended
    · exact .deploying there (within.deployed.trans first) (executes.within within)
  | calling called here second executes =>
    rcases move_at here move with ⟨r, ended, rfl, rfl⟩ | ⟨d, there, within⟩
    · exact call_course called second executes ended
    · rw [List.append_assoc, List.cons_append, List.cons_append]
      exact .calling called there (within.deployed.trans second) (executes.within within)
  | refused c deploys stops => cases move
  | deployed c deploys stops omitted same => cases move
  | callRefused c called calls stops => cases move
  | answered c called calls stops same => cases move

theorem run_course {s : Stage vm} {c : Controller} (run : (Stage.fresh config target c).Run s log) :
    Course vm config target s log := by
  induction run with
  | start => exact .fresh c
  | move _ move ih => exact move_course ih move

end Course

end Session

end SourceStepper
