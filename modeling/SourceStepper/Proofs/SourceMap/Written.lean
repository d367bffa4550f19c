import SourceStepper.Proofs.SourceMap.Inheritance
import SourceStepper.Proofs.Text.Blank

/-!
Elements that are written out and read back. An element without a marker has an empty field for it,
which means the marker of the element in front, so that it is read back only if there is none in
front of it either. Elements that have been decoded are of that kind.
-/
namespace SourceStepper

namespace SourceMap

/-- A text that stays one field of one segment, and is read as it stands. -/
structure IsField (cs : List Char) : Prop where
  noColon : ':' ∉ cs
  noSemicolon : ';' ∉ cs
  trimmed : Text.trim cs = cs

structure Element.Writable (e : Element) : Prop where
  offset : e.offset < 2 ^ 63
  length : e.length < 2 ^ 63
  fileIndex : ∀ index, e.fileIndex = some index → index < 2 ^ 63
  marker : IsField e.jump.marker.toList
  jump : Jump.ofMarker e.jump.marker = e.jump
  modifierDepth : e.modifierDepth < 2 ^ 63

/-- Elements that their written forms stand for, one behind the other, where `before` is the jump of
the element in front of them. -/
inductive Readable : Jump → List Element → Prop
  | nil (before : Jump) : Readable before []
  | cons {before : Jump} {e : Element} {rest : List Element} (writable : e.Writable)
      (marked : e.jump = .unspecified → before = .unspecified) (later : Readable e.jump rest) :
      Readable before (e :: rest)

section Decoded

variable {number : Nat} {e e' : Element}

theorem isField_trim {segment part : List Char} (segmented : ';' ∉ segment)
    (mem : part ∈ segment.splitOn ':') : IsField (Text.trim part) := by
  obtain ⟨unbroken, within⟩ := Text.mem_splitOn mem
  have kept := Text.trim_sublist part
  exact ⟨fun colon => unbroken (kept.subset colon),
    fun semicolon => segmented (within.subset (kept.subset semicolon)), Text.trim_trim part⟩

theorem ofMarker_eq_unspecified {marker : String} :
    Jump.ofMarker marker = .unspecified ↔ marker = "" := by
  unfold Jump.ofMarker
  split_ifs <;> simp_all

theorem toNat_signed {text : List Char} {n : Int} (read : Text.readInt? text = some n) :
    n.toNat < 2 ^ 63 := by
  have := (Text.readInt?_eq_some.mp read).2.2
  omega

theorem set?_writable {field : Field} {text : List Char} (writable : e.Writable)
    (isField : IsField text) (full : text ≠ []) (stored : e.set? field text = some e') :
    e'.Writable ∧ (e'.jump = .unspecified → e.jump = .unspecified) := by
  cases field with
  | jump =>
    cases stored
    refine ⟨{ writable with marker := ?_, jump := ?_ }, fun none => ?_⟩
    · rwa [Jump.marker_ofMarker, String.toList_ofList]
    · rw [Jump.marker_ofMarker]
    · have empty := congrArg String.toList (ofMarker_eq_unspecified.mp none)
      rw [String.toList_ofList] at empty
      exact absurd empty full
  | offset =>
    obtain ⟨n, read, rfl⟩ := Option.map_eq_some_iff.mp stored
    exact ⟨{ writable with offset := toNat_signed read }, id⟩
  | length =>
    obtain ⟨n, read, rfl⟩ := Option.map_eq_some_iff.mp stored
    exact ⟨{ writable with length := toNat_signed read }, id⟩
  | modifierDepth =>
    obtain ⟨n, read, rfl⟩ := Option.map_eq_some_iff.mp stored
    exact ⟨{ writable with modifierDepth := toNat_signed read }, id⟩
  | fileIndex =>
    obtain ⟨n, read, rfl⟩ := Option.map_eq_some_iff.mp stored
    refine ⟨{ writable with fileIndex := fun index known => ?_ }, id⟩
    by_cases negative : n < 0
    · simp [negative] at known
    · simp only [negative, if_false, Option.some.injEq] at known
      exact known ▸ toNat_signed read

theorem update_writable {pairs : List (Field × List Char)} (writable : e.Writable)
    (fields : ∀ pair ∈ pairs, IsField (Text.trim pair.2))
    (updated : e.update number pairs = .ok e') :
    e'.Writable ∧ (e'.jump = .unspecified → e.jump = .unspecified) := by
  induction pairs generalizing e with
  | nil =>
    cases updated
    exact ⟨writable, id⟩
  | cons pair rest ih =>
    obtain ⟨here, behind⟩ := List.forall_mem_cons.mp fields
    rw [Element.update] at updated
    split at updated
    · exact ih writable behind updated
    · next full =>
      split at updated
      · next e₁ stored =>
        obtain ⟨kept, marked⟩ := set?_writable writable here (by simpa using full) stored
        obtain ⟨writable', marked'⟩ := ih kept behind updated
        exact ⟨writable', fun none => marked (marked' none)⟩
      · contradiction

theorem decodeFrom_readable {segments : List (List Char)} {elements : List Element}
    (writable : e.Writable) (segmented : ∀ segment ∈ segments, ';' ∉ segment)
    (decoded : decodeFrom number e segments = .ok elements) : Readable e.jump elements := by
  induction segments generalizing number e elements with
  | nil =>
    cases decoded
    exact .nil _
  | cons segment rest ih =>
    obtain ⟨here, behind⟩ := List.forall_mem_cons.mp segmented
    obtain ⟨e', tail, updated, later, rfl⟩ := decodeFrom_cons_eq_ok decoded
    have fields : ∀ pair ∈ Field.all.zip (Text.fields ':' segment), IsField (Text.trim pair.2) := by
      intro pair mem
      apply isField_trim here
      rw [← Text.fields_eq_splitOn]
      exact (List.of_mem_zip mem).2
    obtain ⟨writable', marked⟩ := update_writable writable fields updated
    exact .cons writable' marked (ih writable' behind later)

end Decoded

section Written

variable {number : Nat} {before e : Element}

theorem isField_plain {cs : List Char}
    (plain : ∀ c ∈ cs, c ≠ ':' ∧ c ≠ ';' ∧ Text.isBlank c = false) :
    IsField cs := by
  refine ⟨fun colon => (plain _ colon).1 rfl, fun semicolon => (plain _ semicolon).2.1 rfl, ?_⟩
  rw [Text.trim_eq_self_iff]
  exact ⟨fun c first => (plain c (List.mem_of_mem_head? first)).2.2,
    fun c last => (plain c (List.mem_of_getLast? last)).2.2⟩

theorem isField_toDigits (n : Nat) : IsField (Nat.toDigits 10 n) := by
  apply isField_plain
  intro c within
  have digit := (Text.allDigits_toDigits n).2 c within
  refine ⟨?_, ?_, Text.notBlank_of_isDigit digit⟩
  · rintro rfl
    contradiction
  · rintro rfl
    contradiction

def Element.written (e : Element) : Field → List Char
  | .offset => Nat.toDigits 10 e.offset
  | .length => Nat.toDigits 10 e.length
  | .fileIndex => e.fileText.toList
  | .jump => e.jump.marker.toList
  | .modifierDepth => Nat.toDigits 10 e.modifierDepth

theorem toList_text (e : Element) :
    e.text.toList = [':'].intercalate (Field.all.map e.written) := by
  simp [Element.text, Field.all, Element.written]
  rfl

theorem toList_fileText (e : Element) :
    e.fileText.toList = match e.fileIndex with
      | some index => Nat.toDigits 10 index
      | none => ['-', '1'] := by
  unfold Element.fileText
  cases e.fileIndex with
  | none => rfl
  | some index => simp

theorem isField_written (writable : e.Writable) (field : Field) : IsField (e.written field) := by
  cases field with
  | offset | length | modifierDepth => exact isField_toDigits _
  | jump => exact writable.marker
  | fileIndex =>
    rw [Element.written, toList_fileText]
    split
    · exact isField_toDigits _
    · exact ⟨by decide, by decide, rfl⟩

def Element.adopt (before e : Element) : Field → Element
  | .offset => { before with offset := e.offset }
  | .length => { before with length := e.length }
  | .fileIndex => { before with fileIndex := e.fileIndex }
  | .jump => { before with jump := e.jump }
  | .modifierDepth => { before with modifierDepth := e.modifierDepth }

theorem set?_written (writable : e.Writable) (field : Field) :
    before.set? field (e.written field) = some (before.adopt e field) := by
  cases field with
  | offset =>
    simp [Element.set?, Element.written, Text.readInt?_toDigits writable.offset, Element.adopt]
  | length =>
    simp [Element.set?, Element.written, Text.readInt?_toDigits writable.length, Element.adopt]
  | modifierDepth =>
    simp [Element.set?, Element.written, Text.readInt?_toDigits writable.modifierDepth,
      Element.adopt]
  | jump => simp [Element.set?, Element.written, writable.jump, Element.adopt]
  | fileIndex =>
    rw [Element.set?, Element.written, toList_fileText, Element.adopt]
    cases known : e.fileIndex with
    | none => rfl
    | some index => simp [Text.readInt?_toDigits (writable.fileIndex _ known)]

theorem adopt_of_empty (writable : e.Writable)
    (marked : e.jump = .unspecified → before.jump = .unspecified) {field : Field}
    (empty : e.written field = []) : before.adopt e field = before := by
  cases field with
  | offset | length | modifierDepth => exact absurd empty Nat.toDigits_ne_nil
  | fileIndex =>
    rw [Element.written, toList_fileText] at empty
    split at empty
    · exact absurd empty Nat.toDigits_ne_nil
    · contradiction
  | jump =>
    have none : e.jump = .unspecified := by
      rw [← writable.jump, ofMarker_eq_unspecified]
      exact String.toList_eq_nil_iff.mp empty
    rw [Element.adopt, none, ← marked none]

theorem update_adopts (writable : e.Writable)
    (marked : e.jump = .unspecified → before.jump = .unspecified) (fields : List Field) :
    before.update number (fields.map fun field => (field, e.written field)) =
      .ok (fields.foldl (·.adopt e ·) before) := by
  induction fields generalizing before with
  | nil => rfl
  | cons field rest ih =>
    have kept : e.jump = .unspecified → (before.adopt e field).jump = .unspecified := by
      cases field with
      | jump => exact id
      | _ => exact marked
    rw [List.map_cons, List.foldl_cons, Element.update, (isField_written writable field).trimmed,
      set?_written writable]
    split
    · next empty =>
      have unchanged := adopt_of_empty writable marked (List.isEmpty_iff.mp empty)
      rw [unchanged]
      exact ih marked
    · exact ih kept

theorem update_written (writable : e.Writable)
    (marked : e.jump = .unspecified → before.jump = .unspecified) :
    before.update number (Field.all.zip (Text.fields ':' e.text.toList)) = .ok e := by
  have unbroken : ∀ text ∈ Field.all.map e.written, ':' ∉ text := by
    intro text mem
    obtain ⟨field, -, rfl⟩ := List.mem_map.mp mem
    exact (isField_written writable field).noColon
  rw [Text.fields_eq_splitOn, toList_text,
    List.splitOn_intercalate _ unbroken (by simp [Field.all])]
  exact update_adopts writable marked Field.all

theorem noSemicolon_text (writable : e.Writable) : ';' ∉ e.text.toList := by
  have separate (field : Field) := (isField_written writable field).noSemicolon
  rw [toList_text]
  simp [Field.all, List.intercalate, separate]

theorem decodeFrom_written {elements : List Element} (readable : Readable before.jump elements) :
    decodeFrom number before (elements.map (·.text.toList)) = .ok elements := by
  induction elements generalizing number before with
  | nil => rfl
  | cons e rest ih =>
    cases readable with
    | cons writable marked later =>
      rw [List.map_cons, decodeFrom, update_written writable marked]
      simp only [bind, Except.bind, ih later, pure, Except.pure]

theorem writable_of_mem {elements : List Element} {jump : Jump} (readable : Readable jump elements)
    (mem : e ∈ elements) : e.Writable := by
  induction readable with
  | nil => contradiction
  | cons writable _ _ ih =>
    rcases List.mem_cons.mp mem with rfl | later
    · exact writable
    · exact ih later

end Written

theorem segments_encode {elements : List Element} {jump : Jump} (readable : Readable jump elements)
    (nonempty : elements ≠ []) : segments (encode elements) = elements.map (·.text.toList) := by
  have unbroken : ∀ text ∈ elements.map (·.text.toList), ';' ∉ text := by
    intro text mem
    obtain ⟨e, among, rfl⟩ := List.mem_map.mp mem
    exact noSemicolon_text (writable_of_mem readable among)
  have joined : (encode elements).toList = [';'].intercalate (elements.map (·.text.toList)) := by
    rw [encode, String.toList_intercalate, List.map_map]
    rfl
  rw [segments, joined]
  exact List.splitOn_intercalate _ unbroken (by simpa using nonempty)

theorem writable_default : ({} : Element).Writable where
  offset := by decide
  length := by decide
  fileIndex := by simp
  marker := ⟨by decide, by decide, rfl⟩
  jump := rfl
  modifierDepth := by decide

theorem decode_readable {raw : String} {elements : List Element}
    (decoded : decode raw = .ok elements) :
    Readable .unspecified elements := by
  have segmented : ∀ segment ∈ Text.fields ';' raw.toList, ';' ∉ segment := by
    intro segment mem
    rw [Text.fields_eq_splitOn] at mem
    exact (Text.mem_splitOn mem).1
  exact decodeFrom_readable writable_default segmented decoded

/-- Whatever a source map leaves out or writes in another way, its elements are decoded again from
their written forms. -/
theorem decode_encode {raw : String} {elements : List Element}
    (decoded : decode raw = .ok elements) :
    decode (encode elements) = .ok elements := by
  have readable := decode_readable decoded
  have nonempty : elements ≠ [] := by
    rintro rfl
    have := length_decode decoded
    contradiction
  rw [decode, Text.fields_eq_splitOn, ← segments, segments_encode readable nonempty]
  exact decodeFrom_written readable

theorem decode_encode_unknown_marker :
    let elements : List Element :=
      [{ offset := 5, length := 1 }, { offset := 5, length := 1, fileIndex := none },
        { offset := 3, length := 1, fileIndex := none, jump := .other "x y" },
      { offset := 3, length := 2, fileIndex := some 1, jump := .other "x y" },
      { offset := 3, length := 2, fileIndex := some 1, jump := .into, modifierDepth := 4 }]
    decode " +5 :1;::-7;3:::  x y ;:2:1:;:::i:4" = .ok elements ∧
      encode elements = "5:1:0::0;5:1:-1::0;3:1:-1:x y:0;3:2:1:x y:0;3:2:1:i:4" ∧
      decode (encode elements) = .ok elements := by
  intro elements
  have decoded : decode " +5 :1;::-7;3:::  x y ;:2:1:;:::i:4" = .ok elements := by rfl
  exact ⟨decoded, by decide +kernel, decode_encode decoded⟩

end SourceMap

end SourceStepper
