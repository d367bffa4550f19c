import SourceStepper.Proofs.Source.Union

namespace SourceStepper.Source

attribute [ext] Line Rendering

namespace Line

variable {a b c : Line}

theorem merge_text_of_longer (longer : Text.byteLength a.text < Text.byteLength b.text) :
    (a.merge b).text = b.text := if_pos longer

theorem merge_text_of_le (first : Text.byteLength b.text ≤ Text.byteLength a.text) :
    (a.merge b).text = a.text := if_neg (Nat.not_lt_of_le first)

/-- The longest of three texts is kept, the first such text if there are several. -/
theorem merge_text_assoc : ((a.merge b).merge c).text = (a.merge (b.merge c)).text := by
  rcases Nat.lt_or_ge (Text.byteLength a.text) (Text.byteLength b.text) with longer | first
  · have front : (a.merge b).text = b.text := merge_text_of_longer longer
    rcases Nat.lt_or_ge (Text.byteLength b.text) (Text.byteLength c.text) with longest | kept
    · have back : (b.merge c).text = c.text := merge_text_of_longer longest
      rw [merge_text_of_longer (by rwa [front]), merge_text_of_longer (by rw [back]; omega), back]
    · have back : (b.merge c).text = b.text := merge_text_of_le kept
      rw [merge_text_of_le (by rwa [front]), front, merge_text_of_longer (by rwa [back]), back]
  · have front : (a.merge b).text = a.text := merge_text_of_le first
    rcases Nat.lt_or_ge (Text.byteLength a.text) (Text.byteLength c.text) with last | kept
    · have back : (b.merge c).text = c.text := merge_text_of_longer (Nat.lt_of_le_of_lt first last)
      rw [merge_text_of_longer (by rwa [front]), merge_text_of_longer (by rwa [back]), back]
    · have back : Text.byteLength (b.merge c).text ≤ Text.byteLength a.text := by
        rw [merge]
        split
        · exact kept
        · exact first
      rw [merge_text_of_le (by rwa [front]), front, merge_text_of_le back]

/-- The selection starts where the first line that is selected says. -/
theorem merge_offset_assoc : ((a.merge b).merge c).offset = (a.merge (b.merge c)).offset := by
  obtain ⟨_, selected, _⟩ := a
  obtain ⟨_, selected', _⟩ := b
  obtain ⟨_, selected'', _⟩ := c
  cases selected <;> cases selected' <;> cases selected'' <;> rfl

theorem merge_assoc (a b c : Line) : (a.merge b).merge c = a.merge (b.merge c) :=
  Line.ext merge_text_assoc (Bool.or_assoc ..) merge_offset_assoc

theorem merge_self (a : Line) : a.merge a = a :=
  Line.ext (merge_text_of_le (Nat.le_refl _)) (Bool.or_self _) (by simp [merge])

instance : Std.Associative merge := ⟨merge_assoc⟩

instance : Std.IdempotentOp merge := ⟨merge_self⟩

end Line

namespace Rendering

theorem ext_get? {r s : Rendering} (path : r.path = s.path)
    (shown : ∀ k, r.lines.get? k = s.lines.get? k) :
    r = s := Rendering.ext path (OrderedMap.ext_get? shown)

@[simp] theorem path_merge (first second : Rendering) :
    (first.merge second).path = first.path.or second.path := rfl

@[simp] theorem get?_default (k : Nat) : ({} : Rendering).lines.get? k = none := rfl

/-- Several renderings can be merged from either end, merging again what has been merged changes
nothing, and neither does a rendering of nothing. -/
theorem merge_idempotent_monoid :
    (∀ a b c : Rendering, (a.merge b).merge c = a.merge (b.merge c)) ∧
      (∀ a : Rendering, a.merge a = a) ∧
      (∀ a : Rendering, merge {} a = a) ∧ ∀ a : Rendering, a.merge {} = a := by
  refine ⟨fun a b c => ?_, fun a => ?_, fun a => ?_, fun a => ?_⟩
  · refine ext_get? Option.or_assoc fun k => ?_
    simp only [get?_merge]
    exact (Option.associative_merge Line.merge).assoc _ _ _
  · refine ext_get? Option.or_self fun k => ?_
    rw [get?_merge]
    exact (Option.idempotentOp_merge Line.merge).idempotent _
  · refine ext_get? Option.none_or fun k => ?_
    rw [get?_merge, get?_default, Option.merge_none_left]
  · refine ext_get? Option.or_none fun k => ?_
    rw [get?_merge, get?_default, Option.merge_none_right]

end Rendering

end SourceStepper.Source
