import SourceStepper.Artifact
import SourceStepper.Proofs.Text.Blank
import SourceStepper.Proofs.Text.Hex

/-!
The codes of a contract: the one that creates it, and those that it is recognised by. Whatever
spelling the bytecode has, the contract is recognised by what creates it, unless there is nothing
behind a `0x`: then there is no code, and still a contract can be created from it.
-/
namespace SourceStepper

namespace Text

variable {cs : List Char}

theorem trim_eq_nil : trim cs = [] ↔ isBlankText cs = true := by
  rw [trim, trimEnd, List.reverse_eq_nil_iff, List.dropWhile_eq_nil_iff, isBlankText,
    List.all_eq_true]
  simp only [List.mem_reverse]
  constructor
  · intro blank c mem
    rw [← List.takeWhile_append_dropWhile (p := isBlank) (l := cs), List.mem_append] at mem
    rcases mem with front | behind
    · exact List.mem_takeWhile_imp front
    · exact blank c behind
  · exact fun blank c mem => blank c ((trimStart_sublist cs).mem mem)

theorem normalHex_eq_nil : normalHex cs = [] ↔ trim cs = [] ∨ trim cs = ['0', 'x'] := by
  rw [normalHex, List.map_eq_nil_iff, dropHexMark, dropPrefix?]
  split
  · next marked =>
    obtain ⟨rest, same⟩ := List.isPrefixOf_iff_prefix.mp marked
    rw [← same]
    simp
  · next unmarked =>
    have other : trim cs ≠ ['0', 'x'] := fun same => unmarked (by rw [same]; rfl)
    simp [other]

end Text

namespace Contract

variable {c : Contract} {bytes : List UInt8}

theorem matchesCode_iff (c : Contract) (code : CodeText) :
    c.matchesCode code = true ↔
      ∃ key text, c.properties.get? key = some text ∧ "bin".toList <+: key.toList ∧
        (CodeText.ofText text).digits ≠ "" ∧
        (CodeText.ofText text).digits.toList <+: code.digits.toList := by
  have codeOf : ∀ (key text : String) (front : CodeText), codeOf? (key, text) = some front ↔
      "bin".toList <+: key.toList ∧ (CodeText.ofText text).digits ≠ "" ∧
        CodeText.ofText text = front := by
    intro key text front
    simp [codeOf?, isBytecodeKey, and_assoc]
  simp only [matchesCode, List.any_eq_true, List.mem_filterMap, CodeText.startsWith,
    List.isPrefixOf_iff_prefix]
  constructor
  · rintro ⟨front, ⟨⟨key, text⟩, held, isCode⟩, starts⟩
    obtain ⟨named, notEmpty, rfl⟩ := (codeOf key text front).mp isCode
    exact ⟨key, text, OrderedMap.mem_entries_iff.mp held, named, notEmpty, starts⟩
  · rintro ⟨key, text, held, named, notEmpty, starts⟩
    exact ⟨_, ⟨(key, text), OrderedMap.mem_entries_iff.mpr held,
      (codeOf key text _).mpr ⟨named, notEmpty, rfl⟩⟩, starts⟩

theorem initCode_eq_ok :
    c.initCode = .ok bytes ↔ ∃ text, c.bytecode? = some text ∧ Text.trim text.toList ≠ [] ∧
      CodeText.ofText text = .ofBytes bytes := by
  simp only [← CodeText.unhex_ofText, ne_eq, Text.trim_eq_nil]
  unfold initCode
  cases c.bytecode? with
  | none => simp
  | some text =>
    by_cases blank : Text.isBlankText text.toList = true
    · simp [Option.filter, blank]
    · cases read : Text.unhex (Text.normalHex text.toList) <;> simp [Option.filter, blank, read]

/-- A contract that can be created from its bytecode has a code and is recognised by it, exactly if
the bytecode is more than a `0x`. -/
theorem created_code_matches_iff (created : c.initCode = .ok bytes) :
    ∃ text, c.bytecode? = some text ∧
      (bytes ≠ [] ↔ Text.trim text.toList ≠ ['0', 'x']) ∧
      (c.matchesCode (.ofBytes bytes) = true ↔ Text.trim text.toList ≠ ['0', 'x']) := by
  obtain ⟨text, held, notBlank, same⟩ := initCode_eq_ok.mp created
  have digits : Text.normalHex text.toList = Text.hexChars bytes := by
    rw [← CodeText.digits_ofText, same, CodeText.digits_ofBytes]
  have some_iff : bytes ≠ [] ↔ Text.trim text.toList ≠ ['0', 'x'] := by
    rw [not_iff_not, ← Text.hexChars_eq_nil, ← digits, Text.normalHex_eq_nil, or_iff_right notBlank]
  refine ⟨text, held, some_iff, ?_⟩
  rw [matchesCode_iff, ← some_iff]
  constructor
  · -- nothing but the empty text is in front of an empty code
    rintro ⟨key, front, -, -, notEmpty, starts⟩ rfl
    exact notEmpty (String.toList_eq_nil_iff.mp (List.prefix_nil.mp starts))
  · intro notEmpty
    refine ⟨"bin", text, held, List.prefix_refl _, fun empty => notEmpty ?_, ?_⟩
    · rw [← Text.hexChars_eq_nil, ← digits, ← CodeText.digits_ofText, empty]
      rfl
    · exact same ▸ List.prefix_refl _

theorem created_code_matches_spelled :
    let c : Contract := ⟨"A.sol:A", "build/A.json", .ofList [("bin", "\u2003\n0x60aBFf\t")], []⟩
    c.initCode = .ok [0x60, 0xAB, 0xFF] ∧ c.matchesCode (.ofBytes [0x60, 0xAB, 0xFF]) = true := by
  intro c
  have created : c.initCode = .ok [0x60, 0xAB, 0xFF] := by rfl
  have held : c.bytecode? = some "\u2003\n0x60aBFf\t" := by rfl
  obtain ⟨text, same, -, recognised⟩ := created_code_matches_iff created
  rw [held, Option.some.injEq] at same
  exact ⟨created, recognised.mpr (same ▸ by decide)⟩

/-- From a mark alone an empty code is read, which no contract is recognised by. -/
theorem mark_alone_is_deployable :
    let c : Contract := ⟨"A.sol:A", "build/A.json", .ofList [("bin", "0x")], []⟩
    c.initCode = .ok [] ∧ c.matchesCode (.ofBytes []) = false := by
  intro c
  exact ⟨rfl, rfl⟩

end Contract

end SourceStepper
