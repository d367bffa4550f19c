import SourceStepper.Proofs.Controller.Run

namespace SourceStepper

/-- The commands that hosts have sent, the oldest first. The `stop` that the last sender leaves
behind is one of them. -/
def sentCommands (h : History) : List Command :=
  h.reverse.filterMap fun
    | .sent command => some command
    | _ => none

theorem sent_map (commands : List Command) :
    sentCommands (commands.map .sent).reverse = commands := by
  rw [sentCommands, List.reverse_reverse, List.filterMap_map]
  exact List.filterMap_some

theorem sent_deeds (c : Controller) (v : Visit) (e : Envelope) :
    sentCommands (c.deeds v e) = [] := by
  unfold Controller.deeds
  cases c.obey v e.command <;> cases c.startedSkip? v e.command <;> rfl

end SourceStepper
