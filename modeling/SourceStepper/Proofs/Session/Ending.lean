import SourceStepper.Proofs.Session.Course

namespace SourceStepper.Session

variable {vm : Vm} {config : Config} {target : Target}

def OnlyStops (events : List HostEvent) : Prop :=
  ∀ event ∈ events, ∃ line frame, event = .suspended line frame

theorem told_stops {log : Log} (stops : Stops log) : OnlyStops (told log) := by
  intro event member
  obtain ⟨entry, listed, same⟩ := List.mem_filterMap.mp member
  rcases stops entry listed with rfl | ⟨line, frame, rfl⟩
  · contradiction
  · exact ⟨line, frame, (Option.some.inj same).symm⟩

def Stage.lastWord : Stage vm → List HostEvent
  | .ended _ (.ok outcome) => [.finished outcome.summary]
  | _ => []

theorem lastWord_at {s : Stage vm} {e : Execution vm} (here : s.At e) : s.lastWord = [] := by
  cases s with
  | fresh => exact here.elim
  | running => rfl
  | handling => rfl
  | ended => exact here.elim

/-- What is told in front of the last word, once something has been executed: a line for the
creation and the stops in it, and perhaps a line for the call and the stops in that. -/
inductive Reported (target : Target) : List HostEvent → Prop
  | creation {stops : List HostEvent} (only : OnlyStops stops) :
      Reported target (.console s!"Deploying {target.initCode.length} bytes of init code" :: stops)
  | call {stops more : List HostEvent} (address : Evm.Address) (only : OnlyStops stops)
      (onlyMore : OnlyStops more) :
      Reported target
        (.console s!"Deploying {target.initCode.length} bytes of init code" :: stops ++
        .console s!"Calling {address.text}" :: more)

/-- The machine has refused the creation, or it has executed it and refused the call. -/
def Refuses (vm : Vm) (config : Config) (target : Target) (message : String) : Prop :=
  Deploys vm config target (.error message) ∨
    ∃ created chain address calldata, Deploys vm config target (.ok (created, chain)) ∧
      created.created = some address ∧ target.calldata = some calldata ∧
      vm.Yields (Execution.call config address calldata) chain (.error message)

theorem told_creation {log : Log} (stops : Stops log) :
    Reported target (told (deployingLine target :: log)) := .creation (told_stops stops)

theorem told_call {created : Evm.Receipt} {chain : vm.Chain} {address : Evm.Address}
    {calldata : List UInt8} {log more : Log}
    (called : Called vm config target created chain address calldata log) (stops : Stops more) :
    Reported target
      (told (deployingLine target :: log ++ .transacted :: callingLine address :: more)) := by
  rw [told_append]
  exact .call address (told_stops called.stops) (told_stops stops)

/-- Whatever hosts do and wherever a session has got to: unless nothing has been executed yet, they
have been told of the creation and its stops, and perhaps of the call and its stops; that the
session has finished is told behind that, once, if it has ended with an outcome. Otherwise the
machine has refused a transaction, and hosts are not told of the end at all. -/
theorem end_told_unless_refused {loader : Loader} {registry : Registry} {s : Stage vm} {log : Log}
    (run : (Stage.opened vm config target loader registry).Run s log) :
    ((∃ c, s = .fresh config target c ∧ told log = []) ∨
      ∃ events, Reported target events ∧ told log = events ++ s.lastWord) ∧
    ∀ c error, s = .ended c (.error error) → ∃ message, error = .vm message ∧
      Refuses vm config target message := by
  have course := run_course run
  constructor
  · cases course with
    | fresh c => exact .inl ⟨c, rfl, rfl⟩
    | deploying here first executes =>
      refine .inr ⟨_, told_creation executes.stops, ?_⟩
      rw [lastWord_at here, List.append_nil]
    | refused c deploys stops => exact .inr ⟨_, told_creation stops, (List.append_nil _).symm⟩
    | deployed c deploys stops omitted same =>
      refine .inr ⟨_, told_creation stops, ?_⟩
      rw [told_append]
      rfl
    | calling called here second executes =>
      refine .inr ⟨_, told_call called executes.stops, ?_⟩
      rw [lastWord_at here, List.append_nil]
    | callRefused c called calls stops =>
      exact .inr ⟨_, told_call called stops, (List.append_nil _).symm⟩
    | answered c called calls stops same =>
      refine .inr ⟨_, told_call called stops, ?_⟩
      rw [told_append]
      rfl
  · rintro c error rfl
    cases course with
    | refused c deploys stops => exact ⟨_, rfl, .inl deploys⟩
    | callRefused c called calls stops =>
      exact ⟨_, rfl, .inr ⟨_, _, _, _, called.deploys, called.created, called.calldata, calls⟩⟩
    | deploying here => exact here.elim
    | calling called here => exact here.elim

theorem end_told_behind_stop :
    let opened : Stage (.brief 8) :=
      .opened (.brief 8) {} { initCode := [] } (.ofProject "." "build")
      ⟨default, {}⟩
    ∃ c outcome log frame, opened.Run (.ended c (.ok outcome)) log ∧
      told log = [.console "Deploying 0 bytes of init code", .suspended 0 frame,
        .finished outcome.summary] ∧
      (∃ events, Reported { initCode := [] } events ∧
        told log = events ++ [.finished outcome.summary]) := by
  intro opened
  have suspended : Thread.Move (.running (.ofParts (.ofProject "." "build") ⟨default, {}⟩ 1024))
      ([Command.suspend].map .sent).reverse _ :=
    .host (.send (show Channel.send {} 0 .suspend = .ok _ from rfl))
  have prepared : opened.Move [] _ := .prepare suspended rfl
  have started := (Stage.Run.single prepared).move (.start _ _ _)
  have observed := started.move (.observe {} rfl rfl rfl rfl rfl rfl rfl)
  have parked := observed.move (.handle (.dispatch (.take rfl)))
  have resumed :=
    parked.move (.handle (.host (.send (show Channel.send _ 0 .resume = .ok _ from rfl))))
  have executed := resumed.move (.handle (.dispatch (.answer rfl)))
  have run := executed.move (.conclude rfl)
  refine ⟨_, _, _, _, run, rfl, ?_⟩
  rcases (end_told_unless_refused run).1 with ⟨c, fresh, _⟩ | reported
  · contradiction
  · exact reported

/-- With less gas than a creation costs, hosts wait for the end in vain. -/
theorem refused_creation_ends_silently :
    ∃ c message log,
      (Stage.opened .mainnet { gasLimit := 0 } { initCode := [] } (.ofProject "." "build")
        ⟨default, {}⟩).Run (.ended c (.error (.vm message))) log ∧
      message = "transaction validation error: call gas cost (53000) exceeds the gas limit (0)" ∧
      told log = [.console "Deploying 0 bytes of init code"] ∧
      ¬ ∃ events summary, told log = events ++ [.finished summary] := by
  have started :
      (Stage.opened .mainnet { gasLimit := 0 } { initCode := [] } (.ofProject "." "build")
      ⟨default, {}⟩).Move _ (.ended _ (.error (.vm _))) := .start _ _ _
  refine ⟨_, _, _, .single started, rfl, rfl, ?_⟩
  rintro ⟨events, summary, same⟩
  change [HostEvent.console "Deploying 0 bytes of init code"] = _ at same
  have last := congrArg List.getLast? same
  simp at last

end SourceStepper.Session
