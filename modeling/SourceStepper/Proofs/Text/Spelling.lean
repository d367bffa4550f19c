import SourceStepper.CodeText

namespace SourceStepper

namespace Text

/-- What can stand as it is between blanks and behind a `0x`. -/
structure Bare (cs : List Char) : Prop where
  front : ∀ c ∈ cs.head?, isBlank c = false
  back : ∀ c ∈ cs.getLast?, isBlank c = false
  unmarked : ¬ ['0', 'x'] <+: cs

def Spells (text digits : List Char) : Prop :=
  ∃ before mark written behind, text = before ++ (mark ++ written) ++ behind ∧
    (∀ c ∈ before ++ behind, isBlank c = true) ∧ (mark = [] ∨ mark = ['0', 'x']) ∧ Bare written ∧
    written.map Char.toLower = digits.map Char.toLower

variable {before cs behind : List Char}

theorem dropWhile_blanks (blank : ∀ c ∈ before, isBlank c = true)
    (front : ∀ c ∈ cs.head?, isBlank c = false) : (before ++ cs).dropWhile isBlank = cs := by
  rw [List.dropWhile_append_of_pos blank]
  cases cs with
  | nil => rfl
  | cons c cs => simp [front c rfl]

theorem trimEnd_append (back : ∀ c ∈ cs.getLast?, isBlank c = false) (behind : List Char) :
    trimEnd (cs ++ behind) = cs ++ trimEnd behind := by
  have kept : ([] ++ cs.reverse).dropWhile isBlank = cs.reverse :=
    dropWhile_blanks nofun (by rwa [List.head?_reverse])
  rw [List.nil_append] at kept
  rw [trimEnd, List.reverse_append, List.dropWhile_append, kept]
  split
  · next allBlank => simp [trimEnd, List.isEmpty_iff.mp allBlank]
  · simp [trimEnd]

theorem trimEnd_blanks (blank : ∀ c ∈ behind, isBlank c = true)
    (back : ∀ c ∈ cs.getLast?, isBlank c = false) : trimEnd (cs ++ behind) = cs := by
  have nothing : (behind.reverse ++ []).dropWhile isBlank = [] :=
    dropWhile_blanks (by simpa using blank) nofun
  rw [List.append_nil] at nothing
  rw [trimEnd_append back, trimEnd, nothing]
  exact List.append_nil cs

theorem trim_blanks (blank : ∀ c ∈ before ++ behind, isBlank c = true)
    (front : ∀ c ∈ cs.head?, isBlank c = false) (back : ∀ c ∈ cs.getLast?, isBlank c = false) :
    trim (before ++ cs ++ behind) = cs := by
  cases cs with
  | nil =>
    -- there is nothing but blanks, and all of them go from the front
    have nothing : (before ++ behind ++ []).dropWhile isBlank = [] := dropWhile_blanks blank front
    rw [List.append_nil] at nothing ⊢
    rw [trim, trimStart, nothing]
    rfl
  | cons c cs =>
    rw [List.forall_mem_append] at blank
    have kept : (before ++ (c :: cs ++ behind)).dropWhile isBlank = c :: cs ++ behind :=
      dropWhile_blanks blank.1 front
    rw [trim, trimStart, List.append_assoc, kept, trimEnd_blanks blank.2 back]

theorem dropHexMark_bare (bare : Bare cs) : dropHexMark cs = cs := by
  have unmarked : ['0', 'x'].isPrefixOf cs = false := by
    rw [← Bool.not_eq_true, List.isPrefixOf_iff_prefix]
    exact bare.unmarked
  rw [dropHexMark, dropPrefix?, unmarked]
  rfl

theorem dropHexMark_marked (cs : List Char) : dropHexMark (['0', 'x'] ++ cs) = cs := rfl

theorem normalHex_spelled {text digits : List Char} (spells : Spells text digits) :
    normalHex text = digits.map Char.toLower := by
  obtain ⟨before, mark, written, behind, rfl, blank, marks, bare, same⟩ := spells
  rw [normalHex, ← same]
  rcases marks with rfl | rfl
  · rw [List.nil_append, trim_blanks blank bare.front bare.back, dropHexMark_bare bare]
  · have back : ∀ c ∈ (['0', 'x'] ++ written).getLast?, isBlank c = false := by
      rw [List.getLast?_append]
      cases last : written.getLast? with
      | none => simp [isBlank]
      | some c => simpa using bare.back c last
    rw [trim_blanks blank (by simp [isBlank]) back, dropHexMark_marked]

end Text

theorem CodeText.ofText_spelled {text text' : String} {digits : List Char}
    (spells : Text.Spells text.toList digits) (spells' : Text.Spells text'.toList digits) :
    ofText text = ofText text' := by
  rw [ofText, ofText, Text.normalHex_spelled spells, Text.normalHex_spelled spells']

end SourceStepper
