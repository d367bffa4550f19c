import SourceStepper.Proofs.Session.Course

/-! How sessions get to their end. Where the controller is parked, a host can send `resume`;
whatever is queued in front of that, the instruction is executed in the end, and so is every
transaction whose execution ends by itself. -/
namespace SourceStepper.Session

variable {vm : Vm} {config : Config} {target : Target}

theorem Executes.ahead {transaction : Evm.Transaction} {chain : vm.Chain} {e : Execution vm}
    {log : Log} {r : Except String (Evm.Receipt × vm.Chain)}
    (executes : Executes vm config target transaction chain e log)
    (yields : vm.Yields transaction chain r) :
    ∃ u, vm.Reaches e.state u ∧ vm.result? u = some r := by
  obtain ⟨s, signals, started, reached⟩ := executes.reached
  cases yields with
  | refused refused =>
    rw [started] at refused
    contradiction
  | executed started' reached' ended =>
    cases Except.ok.inj (started.symm.trans started')
    rcases reached.linear reached' with ahead | behind
    · exact ⟨_, ahead, ended⟩
    · rw [← behind.last ended] at ended
      exact ⟨_, .here, ended⟩

def Stage.Ends (s : Stage vm) : Prop := ∃ c outcome log, s.Run (.ended c outcome) log

theorem Stage.Ends.after {s t : Stage vm} {log : Log} (run : s.Run t log) (ends : t.Ends) :
    s.Ends := by
  obtain ⟨c, outcome, _, rest⟩ := ends
  exact ⟨c, outcome, _, run.append rest⟩

end SourceStepper.Session
