import SourceStepper.Proofs.Breakpoint.Written
import SourceStepper.Terminal.Input

namespace SourceStepper.Terminal

theorem Verb.ofWord_eq_ok {word : String} {verb : Verb} (known : ofWord word = .ok verb) :
    (word, verb) ∈ verbs ∨ verb = .alone .quit ∨
      ∃ command, verb = .alone (.debug command) ∧ command ∉ [.execute, .stop] := by
  unfold ofWord at known
  split at known
  · next found =>
    cases known
    obtain ⟨before, after, all, -⟩ := List.lookup_eq_some_iff.mp found
    rw [all]
    exact .inl (List.mem_append_right before List.mem_cons_self)
  · split at known
    · contradiction
    · cases known
      exact .inr (.inl rfl)
    · next command notExecute notStop _ =>
      cases known
      exact .inr (.inr ⟨command, rfl, by simpa using ⟨notExecute, notStop⟩⟩)
    · contradiction

namespace Input

variable {input : Input} {word line : String} {argument : Option String}

theorem ofWords_eq_ok :
    ofWords word argument = .ok input ↔
      (argument = none ∧ Verb.ofWord word = .ok (.alone input)) ∨
        ∃ make text b, argument = some text ∧ Verb.ofWord word = .ok (.withBreakpoint make) ∧
          Breakpoint.parse text = .ok b ∧ input = make b := by
  unfold ofWords
  cases Verb.ofWord word with
  | error e => simp [bind, Except.bind]
  | ok verb =>
    cases verb with
    | alone other => cases argument <;> simp [bind, Except.bind]
    | withBreakpoint make =>
      cases argument with
      | none => simp [bind, Except.bind]
      | some text =>
        cases parsed : Breakpoint.parse text <;> simp [bind, Except.bind, parsed, eq_comm]

theorem words_of_parse (parsed : parse line = .ok input) :
    ∃ word argument, ofWords word argument = .ok input ∧
      ∀ text, argument = some text → Text.IsWord text.toList := by
  unfold parse at parsed
  split at parsed
  · contradiction
  · exact ⟨_, none, parsed, nofun⟩
  · next word text words =>
    refine ⟨word, some text, parsed, fun _ same => ?_⟩
    cases same
    obtain ⟨cs, mem, rfl⟩ := List.mem_map.mp (words ▸ List.mem_cons_of_mem word List.mem_cons_self)
    rw [String.toList_ofList]
    exact Text.isWord_of_mem_words mem
  · contradiction

/-- What can be typed: a command that a user may give, or a breakpoint that can be written as
one word. -/
def Writable : Input → Prop
  | debug command => command ∉ [.execute, .stop]
  | setBreak b | delete b | skip b => b.Writable ∧ ∀ c ∈ b.path.toList, Text.isBlank c = false
  | breakpoints | backtrace | state | help | quit => True

end Input

def Verb.Writable : Verb → Prop
  | alone input => input.Writable
  | withBreakpoint make =>
    ∀ b, b.Writable → (∀ c ∈ b.path.toList, Text.isBlank c = false) → (make b).Writable

theorem verbs_writable : ∀ entry ∈ verbs, entry.2.Writable := by
  simp +contextual [verbs, Verb.Writable, Input.Writable]

theorem Verb.ofWord_writable {word : String} {verb : Verb} (known : ofWord word = .ok verb) :
    verb.Writable := by
  rcases ofWord_eq_ok known with listed | rfl | ⟨command, rfl, typed⟩
  · exact verbs_writable _ listed
  · trivial
  · exact typed

namespace Input

variable {input : Input} {word line : String} {b : Breakpoint}

theorem writable_of_parse (parsed : parse line = .ok input) : input.Writable := by
  obtain ⟨word, argument, taken, isWord⟩ := words_of_parse parsed
  rcases ofWords_eq_ok.mp taken with ⟨-, known⟩ | ⟨make, text, b, rfl, known, read, rfl⟩
  · exact Verb.ofWord_writable known
  · obtain ⟨line, written, -⟩ := Breakpoint.parse_eq_ok.mp read
    refine Verb.ofWord_writable known b (Breakpoint.writable_of_parse read) fun c mem => ?_
    refine (isWord text rfl).2 c ((Text.trim_sublist _).mem ?_)
    rw [written]
    exact List.mem_append_left _ mem

theorem parse_withBreakpoint (word : String) {make : Breakpoint → Input}
    (isWord : Text.IsWord word.toList) (known : Verb.ofWord word = .ok (.withBreakpoint make))
    (writable : b.Writable) (plain : ∀ c ∈ b.path.toList, Text.isBlank c = false)
    (typed : line.toList = word.toList ++ ' ' :: b.text.toList) : parse line = .ok (make b) := by
  have argument : Text.IsWord b.text.toList := by
    rw [Breakpoint.toList_text]
    refine ⟨by simp,
      List.forall_mem_append.mpr ⟨plain, List.forall_mem_cons.mpr ⟨rfl, fun c within => ?_⟩⟩⟩
    exact Breakpoint.notBlank_toDigits within
  unfold parse
  rw [typed, Text.words_append isWord rfl, Text.words_word argument]
  simp only [List.map_cons, List.map_nil, String.ofList_toList]
  exact ofWords_eq_ok.mpr
    (.inr ⟨make, b.text, b, rfl, known, Breakpoint.parse_text_iff.mpr writable, rfl⟩)

/-- Exactly what can be typed is read back. -/
theorem parse_text_iff : parse input.text = .ok input ↔ input.Writable := by
  refine ⟨writable_of_parse, fun writable => ?_⟩
  cases input with
  | debug command =>
    cases command with
    | execute | stop => simp [Writable] at writable
    | suspend | stepInto | stepOver | stepOut | resume => rfl
  | setBreak b =>
    exact parse_withBreakpoint "break" (by decide) rfl writable.1 writable.2 (by simp [text]; rfl)
  | delete b =>
    exact parse_withBreakpoint "delete" (by decide) rfl writable.1 writable.2 (by simp [text]; rfl)
  | skip b =>
    exact parse_withBreakpoint "skip" (by decide) rfl writable.1 writable.2 (by simp [text]; rfl)
  | breakpoints | backtrace | state | help | quit => rfl

end Input

/-- Whatever line or breakpoint is accepted, what is written of it is accepted as the same; and
these are exactly the ones that can be written. -/
theorem accepted_reads_back :
    (∀ line input, Input.parse line = .ok input → Input.parse input.text = .ok input) ∧
      (∀ input : Input, Input.parse input.text = .ok input ↔ input.Writable) ∧
      (∀ text b, Breakpoint.parse text = .ok b → Breakpoint.parse b.text = .ok b) ∧
      ∀ b : Breakpoint, Breakpoint.parse b.text = .ok b ↔ b.Writable :=
  ⟨fun _ _ parsed => Input.parse_text_iff.mpr (Input.writable_of_parse parsed),
    fun _ => Input.parse_text_iff, fun _ _ parsed =>
      Breakpoint.parse_text_iff.mpr (Breakpoint.writable_of_parse parsed),
    fun _ => Breakpoint.parse_text_iff⟩

theorem accepted_reads_back_spelled :
    let input : Input := .delete ⟨"a:ß", 7⟩
    let b : Breakpoint := ⟨"src/a b:c.sol\u2003", 12⟩
    (Input.parse "\u3000d\u00A0a:ß:+007\t" = .ok input ∧
      Breakpoint.parse "\n src/a b:c.sol\u2003: +12 " = .ok b) ∧
      Input.parse input.text = .ok input ∧ Breakpoint.parse b.text = .ok b := by
  intro input b
  have typed : Input.parse "\u3000d\u00A0a:ß:+007\t" = .ok input := by rfl
  have written : Breakpoint.parse "\n src/a b:c.sol\u2003: +12 " = .ok b := by rfl
  obtain ⟨line, -, text, -⟩ := accepted_reads_back
  exact ⟨⟨typed, written⟩, line _ input typed, text _ b written⟩

end SourceStepper.Terminal
