import SourceStepper.Controller.Trace

namespace SourceStepper

def Obeyed.controller : Obeyed → Controller
  | .handled c => c
  | .stops c => c
  | .ends c => c

def SkipKind.command : SkipKind → Command
  | .stepOver => .stepOver
  | .stepOut => .stepOut

/-- How many jump destinations a skip passes over. -/
def SkipKind.length : SkipKind → Nat
  | .stepOver => 2
  | .stepOut => 1

theorem start_inactive {s : JumpSkip} (inactive : s.isActive = false) (kind : SkipKind) :
    s.start kind = ⟨kind.length⟩ := by
  cases kind with
  | stepOver => simp [JumpSkip.start, JumpSkip.stepOver, inactive, SkipKind.length]
  | stepOut => rfl

namespace Controller

/-- The skip that a command starts at an instruction: its own at a call, or one that has been
waiting for a call on the line of the last stop. -/
def startedSkip? (c : Controller) (v : Visit) : Command → Option SkipKind
  | .execute =>
    if c.runTillNextLine ∧ v.location.line = c.lastSelectedLine ∧ v.location.isCallJump v.step then
      c.armed
    else none
  | .stepOver => if v.location.isCallJump v.step then some .stepOver else none
  | .stepOut => if v.location.isCallJump v.step then some .stepOut else none
  | _ => none

theorem shouldStop_stepping {c : Controller} (stepping : c.runTillNextLine = true) (l : Location) :
    c.shouldStop l = true ↔ l.line ≠ c.lastSelectedLine := by
  simp [shouldStop, stepping]

theorem shouldStop_free {c : Controller} (free : c.runTillNextLine = false) (l : Location) :
    c.shouldStop l = true ↔
      c.resumedFrom ≠ some l.line ∧ c.registry.shouldStop l.source.path l.line = true := by
  simp [shouldStop, free]

theorem goOn_changes (c : Controller) (v : Visit) :
    ∃ jump armed, c.goOn v = { c with jump, armed } := by
  unfold goOn
  split
  · split
    · exact ⟨_, _, rfl⟩
    · exact ⟨_, _, rfl⟩
  · exact ⟨_, _, rfl⟩

theorem obey_changes (c : Controller) (v : Visit) (command : Command) :
    ∃ jump runTillNextLine armed resumedFrom terminated, (c.obey v command).controller =
      { c with jump, runTillNextLine, armed, resumedFrom, terminated } := by
  cases command with
  | execute =>
    simp only [obey]
    split
    · exact ⟨_, _, _, _, _, rfl⟩
    · obtain ⟨_, _, same⟩ := goOn_changes c v
      exact ⟨_, _, _, _, _, same⟩
  | stepOver => simp only [obey, armOrSkip]; split <;> exact ⟨_, _, _, _, _, rfl⟩
  | stepOut => simp only [obey, armOrSkip]; split <;> exact ⟨_, _, _, _, _, rfl⟩
  | suspend => exact ⟨_, _, _, _, _, rfl⟩
  | stepInto => exact ⟨_, _, _, _, _, rfl⟩
  | resume => exact ⟨_, _, _, _, _, rfl⟩
  | stop => exact ⟨_, _, _, _, _, rfl⟩

theorem channel_obey (c : Controller) (v : Visit) (command : Command) :
    (c.obey v command).controller.channel = c.channel := by
  obtain ⟨_, _, _, _, _, same⟩ := obey_changes c v command
  rw [same]

theorem line_obey (c : Controller) (v : Visit) (command : Command) :
    (c.obey v command).controller.lastSelectedLine = c.lastSelectedLine := by
  obtain ⟨_, _, _, _, _, same⟩ := obey_changes c v command
  rw [same]

/-- No command touches the jump skip but those that start one and the one that ends the session. -/
theorem jump_obey (c : Controller) (v : Visit) (command : Command) :
    (c.obey v command).controller.jump =
      match c.startedSkip? v command with
      | some kind => c.jump.start kind
      | none => if command = .stop then c.jump.cancel else c.jump := by
  cases command with
  | execute =>
    simp only [obey, startedSkip?]
    by_cases stepping : c.runTillNextLine
    · by_cases here : v.location.line = c.lastSelectedLine
      · simp only [shouldStop, stepping, here, goOn]
        by_cases call : v.location.isCallJump v.step
        · cases c.armed <;> simp [call, Obeyed.controller]
        · simp [call, Obeyed.controller]
      · simp [shouldStop, stepping, here, Obeyed.controller]
    · split <;> simp [goOn, stepping, Obeyed.controller]
  | stepOver =>
    simp only [obey, startedSkip?, armOrSkip]
    split <;> rfl
  | stepOut =>
    simp only [obey, startedSkip?, armOrSkip]
    split <;> rfl
  | suspend => rfl
  | stepInto => rfl
  | resume => rfl
  | stop => rfl

theorem startedSkip?_at_call {c : Controller} {v : Visit} {command : Command} {kind : SkipKind}
    (started : c.startedSkip? v command = some kind) : v.location.isCallJump v.step = true := by
  cases command <;> simp only [startedSkip?, reduceCtorEq] at started
  all_goals
    split at started
    · rename_i h
      first | exact h | exact h.2.2
    · contradiction

theorem startedSkip?_command {c : Controller} {v : Visit} {command : Command} {kind : SkipKind}
    (started : c.startedSkip? v command = some kind) (other : command ≠ .execute) :
    command = kind.command := by
  cases command <;> simp only [startedSkip?, reduceCtorEq] at started
  · exact absurd rfl other
  all_goals
    split at started
    · cases started
      rfl
    · contradiction

theorem obey_eq_stops {c d : Controller} {v : Visit} {command : Command} :
    c.obey v command = .stops d ↔
      (command = .suspend ∧ d = c) ∨
        (command = .execute ∧ c.shouldStop v.location = true ∧
          d = { c with runTillNextLine := false }) := by
  cases command <;> simp only [obey, reduceCtorEq, false_and, false_or, or_false, true_and]
  · split
    · rename_i h
      simp [h, eq_comm]
    · rename_i h
      simp [h]
  · simp [eq_comm]

theorem obey_execute_handled {c d : Controller} {v : Visit}
    (handled : c.obey v .execute = .handled d) :
    c.shouldStop v.location = false ∧ d = c.goOn v := by
  simp only [obey] at handled
  split at handled
  · contradiction
  · rename_i passes
    cases handled
    exact ⟨by simpa using passes, rfl⟩

theorem obey_eq_ends {c d : Controller} {v : Visit} {command : Command}
    (ends : c.obey v command = .ends d) : command = .stop ∧ d.terminated = true := by
  cases command <;> simp only [obey, reduceCtorEq, Obeyed.ends.injEq] at ends
  · split at ends <;> contradiction
  · exact ⟨rfl, ends ▸ rfl⟩

theorem obey_handled_live {c d : Controller} {v : Visit} {command : Command}
    (handled : c.obey v command = .handled d) : d.terminated = c.terminated := by
  cases command with
  | execute =>
    obtain ⟨_, _, same⟩ := goOn_changes c v
    rw [(obey_execute_handled handled).2, same]
  | stepOver => exact Obeyed.handled.inj handled ▸ by unfold armOrSkip; split <;> rfl
  | stepOut => exact Obeyed.handled.inj handled ▸ by unfold armOrSkip; split <;> rfl
  | suspend => contradiction
  | stepInto => cases handled; rfl
  | resume => cases handled; rfl
  | stop => contradiction

end Controller

end SourceStepper
