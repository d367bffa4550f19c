import SourceStepper.Proofs.Terminal.Written

namespace SourceStepper

def inFront {α : Type} [DecidableEq α] (a : α) (l : List α) : List α := l.takeWhile (· ≠ a)

theorem inFront_append {α : Type} [DecidableEq α] (a x : α) (l : List α) :
    inFront a (l ++ [x]) = if x = a ∨ a ∈ l then inFront a l else inFront a l ++ [x] := by
  induction l with
  | nil => by_cases last : x = a <;> simp [inFront, last]
  | cons y l ih =>
    by_cases here : y = a
    · simp [inFront, here]
    · have other : a ≠ y := fun same => here same.symm
      simp only [inFront, List.cons_append, List.takeWhile_cons, here, ne_eq, not_false_eq_true,
        decide_true, if_true, List.mem_cons, other, false_or] at ih ⊢
      rw [ih]
      split <;> rfl

/-- Whether a command leads on from a stop, if it does not end the session. -/
def Command.leadsOn (c : Command) : Bool := c ≠ .suspend

namespace Terminal

/-- What a line asks for, if it is understood. -/
def asked? (line : String) : Option Input :=
  if Text.isBlankText line.toList then none else (Input.parse line).toOption

/-- What lines ask for in front of the first one that ends the session. -/
def requests (lines : List String) : List Input := inFront .quit (lines.filterMap asked?)

def Input.leadsOn : Input → Bool
  | .debug command => command.leadsOn
  | _ => false

theorem requests_append (lines : List String) (line : String) :
    requests (lines ++ [line]) =
      match asked? line with
      | none => requests lines
      | some input =>
        if input = .quit ∨ .quit ∈ lines.filterMap asked? then requests lines
        else requests lines ++ [input] := by
  unfold requests
  cases asked : asked? line with
  | none => simp [asked]
  | some input =>
    rw [List.filterMap_append, List.filterMap_cons, asked]
    exact inFront_append .quit input _

def pauseCount (lines : List String) : Nat := (requests lines).count (.debug .suspend)

def leadCount (lines : List String) : Nat := (requests lines).countP Input.leadsOn

theorem counts_silent {lines : List String} {line : String}
    (silent : ∀ input, asked? line = some input → input = .quit ∨ .quit ∈ lines.filterMap asked? ∨
      input.leadsOn = false ∧ input ≠ .debug .suspend) :
    pauseCount (lines ++ [line]) = pauseCount lines ∧
      leadCount (lines ++ [line]) = leadCount lines := by
  unfold pauseCount leadCount
  rw [requests_append]
  cases asked : asked? line with
  | none => exact ⟨rfl, rfl⟩
  | some input =>
    dsimp only
    rcases silent input asked with quit | ended | ⟨stays, other⟩
    · simp [quit]
    · simp [ended]
    · split
      · exact ⟨rfl, rfl⟩
      · simp [List.count_append, List.countP_append, stays, other]

theorem counts_debug {lines : List String} {line : String} {command : Command}
    (asked : asked? line = some (.debug command)) (going : .quit ∉ lines.filterMap asked?) :
    pauseCount (lines ++ [line]) = pauseCount lines + (if command = .suspend then 1 else 0) ∧
      leadCount (lines ++ [line]) = leadCount lines + (if command = .suspend then 0 else 1) := by
  unfold pauseCount leadCount
  rw [requests_append, asked]
  dsimp only
  rw [if_neg (by simp [going])]
  by_cases pause : command = .suspend <;>
    simp [List.count_append, List.countP_append, Input.leadsOn, Command.leadsOn, pause]

theorem requests_behind {typed lines : List String} (behind : typed <+: lines) :
    requests typed <+: requests lines := by
  obtain ⟨rest, rfl⟩ := behind
  unfold requests inFront
  rw [List.filterMap_append, List.takeWhile_append]
  split
  · exact (List.takeWhile_prefix _).trans (List.prefix_append _ _)
  · exact List.prefix_refl _

theorem notMem_of_parsed {line : String} {command : Command}
    (parsed : Input.parse line = .ok (.debug command)) : command ∉ [.execute, .stop] :=
  Input.writable_of_parse parsed

theorem notMem_of_asked? {line : String} {command : Command}
    (asked : asked? line = some (.debug command)) : command ∉ [.execute, .stop] := by
  unfold asked? at asked
  split at asked
  · contradiction
  · cases parsed : Input.parse line with
    | error e =>
      rw [parsed] at asked
      contradiction
    | ok input =>
      rw [parsed] at asked
      cases asked
      exact notMem_of_parsed parsed

def pause? (line : String) : Option Command :=
  if asked? line = some (.debug .suspend) then some .suspend else none

def lead? (line : String) : Option Command :=
  match asked? line with
  | some (.debug command) => if command = .suspend then none else some command
  | _ => none

theorem pauses_suspend {lines : List String} :
    ∀ command ∈ lines.filterMap pause?, command = .suspend := by
  intro command member
  obtain ⟨line, _, pause⟩ := List.mem_filterMap.mp member
  unfold pause? at pause
  split at pause
  · exact (Option.some.inj pause).symm
  · contradiction

theorem notMem_of_mem_leads {lines : List String} :
    ∀ command ∈ lines.filterMap lead?, command ∉ [.execute, .suspend, .stop] := by
  intro command member
  obtain ⟨line, _, lead⟩ := List.mem_filterMap.mp member
  unfold lead? at lead
  split at lead
  · rename_i asked
    split at lead
    · contradiction
    · rename_i goes
      cases lead
      have other := notMem_of_asked? asked
      simp only [List.mem_cons, List.not_mem_nil, or_false, not_or] at other ⊢
      exact ⟨other.1, goes, other.2⟩
  · contradiction

def beforeQuit (lines : List String) : List String := lines.takeWhile (asked? · ≠ some .quit)

theorem requests_beforeQuit (lines : List String) :
    (beforeQuit lines).filterMap asked? = requests lines := by
  induction lines with
  | nil => rfl
  | cons line lines ih =>
    unfold beforeQuit requests inFront at ih ⊢
    cases asked : asked? line with
    | none => simpa [asked] using ih
    | some input =>
      by_cases quit : input = .quit
      · simp [asked, quit]
      · simpa [asked, quit] using ih

theorem beforeQuit_goes (lines : List String) :
    ∀ line ∈ beforeQuit lines, asked? line ≠ some .quit := by
  intro line member
  simpa using List.all_eq_true.mp List.all_takeWhile line member

theorem pauseCount_beforeQuit (lines : List String) :
    ((beforeQuit lines).filterMap pause?).length = pauseCount lines := by
  rw [pauseCount, ← requests_beforeQuit, List.count, List.countP_filterMap,
    List.length_filterMap_eq_countP]
  congr 1
  funext line
  unfold pause?
  cases asked? line with
  | none => rfl
  | some input => by_cases pause : input = .debug .suspend <;> simp [pause]

theorem leadCount_beforeQuit (lines : List String) :
    ((beforeQuit lines).filterMap lead?).length = leadCount lines := by
  rw [leadCount, ← requests_beforeQuit, List.countP_filterMap, List.length_filterMap_eq_countP]
  congr 1
  funext line
  unfold lead?
  cases asked? line with
  | none => rfl
  | some input =>
    cases input with
    | debug command =>
      by_cases pause : command = .suspend <;> simp [pause, Input.leadsOn, Command.leadsOn]
    | _ => rfl

end Terminal

end SourceStepper
