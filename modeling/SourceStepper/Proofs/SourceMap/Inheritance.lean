import SourceStepper.Proofs.SourceMap.Segments
import SourceStepper.Proofs.Text.Numeral

/-!
What the fields of an element are. A field that a segment leaves blank keeps what the last segment
before it that does not gives, so the text that counts for a field is found by going back through
the segments, and the fields do not depend on each other. A number that cannot be read ends the
decoding.
-/
namespace SourceStepper.SourceMap

open Text (Signed64)

inductive Value
  | number (n : Nat)
  | file (index : Option Nat)
  | jump (jump : Jump)
  deriving DecidableEq, Repr

def Element.value (e : Element) : Field → Value
  | .offset => .number e.offset
  | .length => .number e.length
  | .fileIndex => .file e.fileIndex
  | .jump => .jump e.jump
  | .modifierDepth => .number e.modifierDepth

def segments (raw : String) : List (List Char) := raw.toList.splitOn ';'

namespace Field

/-- Which of the texts between the colons of a segment belongs to a field. -/
def place : Field → Nat
  | .offset => 0
  | .length => 1
  | .fileIndex => 2
  | .jump => 3
  | .modifierDepth => 4

/-- What a segment has for a field, unless it is missing or blank. -/
def written? (field : Field) (segment : List Char) : Option (List Char) :=
  ((segment.splitOn ':')[field.place]?.map Text.trim).filter (· ≠ [])

/-- The text that counts for a field in a segment: its own, or the nearest one before it. -/
def inForce? (field : Field) (segments : List (List Char)) (k : Nat) : Option (List Char) :=
  (segments.take (k + 1)).reverse.findSome? field.written?

/-- What a text means as a field. -/
inductive Means (text : List Char) : Field → Value → Prop
  | offset {n : Int} (number : Signed64 text n) : Means text .offset (.number n.toNat)
  | length {n : Int} (number : Signed64 text n) : Means text .length (.number n.toNat)
  | file {n : Int} (number : Signed64 text n) (natural : 0 ≤ n) :
    Means text .fileIndex (.file (some n.toNat))
  | noFile {n : Int} (number : Signed64 text n) (negative : n < 0) :
    Means text .fileIndex (.file none)
  | jump : Means text .jump (.jump (Jump.ofMarker (String.ofList text)))
  | modifierDepth {n : Int} (number : Signed64 text n) :
    Means text .modifierDepth (.number n.toNat)

inductive Inherits (field : Field) (before : Value) : Option (List Char) → Value → Prop
  | kept : Inherits field before none before
  | given {text : List Char} {value : Value} (means : Means text field value) :
    Inherits field before (some text) value

/-- A text that should be a number and is none. -/
def Unreadable (field : Field) (text : List Char) : Prop :=
  field ≠ .jump ∧ ∀ n, ¬ Signed64 text n

theorem Inherits.trans {field : Field} {a b c : Value} {earlier? later? : Option (List Char)}
    (earlier : Inherits field a earlier? b) (later : Inherits field b later? c) :
    Inherits field a (later?.or earlier?) c := by
  cases later with
  | kept => exact earlier
  | given means => exact .given means

theorem inForce?_zero (field : Field) (segment : List Char) (rest : List (List Char)) :
    field.inForce? (segment :: rest) 0 = field.written? segment := by
  simp [inForce?]

theorem inForce?_succ (field : Field) (segment : List Char) (rest : List (List Char)) (k : Nat) :
    field.inForce? (segment :: rest) (k + 1) =
      (field.inForce? rest k).or (field.written? segment) := by
  simp [inForce?, List.findSome?_append]

end Field

open SourceMap.Field (Means Inherits Unreadable)

section Update

variable {number : Nat} {e e' : Element} {field : Field} {pairs : List (Field × List Char)}

theorem means_of_set? {text : List Char} (stored : e.set? field text = some e') :
    Means text field (e'.value field) := by
  cases field with
  | jump =>
    cases stored
    exact .jump
  | offset =>
    obtain ⟨n, read, rfl⟩ := Option.map_eq_some_iff.mp stored
    exact .offset (Text.readInt?_eq_some.mp read)
  | length =>
    obtain ⟨n, read, rfl⟩ := Option.map_eq_some_iff.mp stored
    exact .length (Text.readInt?_eq_some.mp read)
  | modifierDepth =>
    obtain ⟨n, read, rfl⟩ := Option.map_eq_some_iff.mp stored
    exact .modifierDepth (Text.readInt?_eq_some.mp read)
  | fileIndex =>
    obtain ⟨n, read, rfl⟩ := Option.map_eq_some_iff.mp stored
    by_cases negative : n < 0
    · simpa [Element.value, negative] using .noFile (Text.readInt?_eq_some.mp read) negative
    · simpa [Element.value, negative] using
        .file (Text.readInt?_eq_some.mp read) (Int.not_lt.mp negative)

theorem value_set?_other {other : Field} {text : List Char} (stored : e.set? field text = some e')
    (ne : other ≠ field) : e'.value other = e.value other := by
  cases field <;> cases other <;> grind [Element.set?, Element.value, Option.map_eq_some_iff]

theorem set?_eq_none {text : List Char} : e.set? field text = none ↔ Unreadable field text := by
  have unread : Text.readInt? text = none ↔ ∀ n, ¬ Signed64 text n := by
    simp only [Option.eq_none_iff_forall_ne_some, ne_eq, Text.readInt?_eq_some]
  cases field <;> simp [Element.set?, Unreadable, unread]

def listed? (field : Field) (pairs : List (Field × List Char)) : Option (List Char) :=
  ((pairs.find? (·.1 = field)).map (Text.trim ·.2)).filter (· ≠ [])

theorem listed?_zip (texts : List (List Char)) :
    listed? field (Field.all.zip texts) = (texts[field.place]?.map Text.trim).filter (· ≠ []) := by
  cases field <;> rcases texts with _ | ⟨a, _ | ⟨b, _ | ⟨c, _ | ⟨d, _ | ⟨e, rest⟩⟩⟩⟩⟩ <;> rfl

theorem ordered_zip (texts : List (List Char)) :
    (Field.all.zip texts).Pairwise (·.1.place < ·.1.place) := by
  -- a segment with few texts lists the first fields only, in the same order
  have ordered : Field.all.Pairwise (·.place < ·.place) := by decide
  rw [List.pairwise_iff_getElem] at ordered ⊢
  intro i j hi hj lt
  rw [List.getElem_zip, List.getElem_zip]
  exact ordered i j (by simp at hi; omega) (by simp at hj; omega) lt

theorem listed?_of_notMem (absent : ∀ pair ∈ pairs, pair.1 ≠ field) :
    listed? field pairs = none := by
  have none_find : pairs.find? (·.1 = field) = none := by simpa using absent
  rw [listed?, none_find]
  rfl

theorem listed?_tail {f : Field} {text : List Char}
    (ordered : ((f, text) :: pairs).Pairwise (·.1.place < ·.1.place)) : listed? f pairs = none :=
  listed?_of_notMem fun pair mem again => by
    have := (List.pairwise_cons.mp ordered).1 pair mem
    simp [again] at this

theorem listed?_cons {f : Field} {text : List Char}
    (ordered : ((f, text) :: pairs).Pairwise (·.1.place < ·.1.place)) :
    listed? field ((f, text) :: pairs) = (listed? field pairs).or (listed? field [(f, text)]) := by
  by_cases same : f = field
  · rw [← same, listed?_tail ordered]
    simp [listed?]
  · simp [listed?, same]

theorem listed?_blank {f : Field} {text : List Char} (blank : (Text.trim text).isEmpty) :
    listed? field [(f, text)] = none := by
  by_cases same : f = field <;> simp_all [listed?]

theorem listed?_self {text : List Char} (full : ¬ (Text.trim text).isEmpty) :
    listed? field [(field, text)] = some (Text.trim text) := by
  simp_all [listed?]

theorem listed?_other {f : Field} {text : List Char} (ne : f ≠ field) :
    listed? field [(f, text)] = none := by
  simp [listed?, ne]

theorem listed?_single {f : Field} {text t : List Char}
    (listed : listed? field [(f, text)] = some t) :
    f = field ∧ Text.trim text = t := by
  by_cases same : f = field <;> simp_all [listed?]

theorem set?_readable {f : Field} {text t : List Char}
    (stored : e.set? f (Text.trim text) = some e') (listed : listed? field [(f, text)] = some t) :
    ¬ Unreadable field t := by
  obtain ⟨rfl, rfl⟩ := listed?_single listed
  rw [← set?_eq_none, stored]
  simp

theorem set?_inherits {f : Field} {text : List Char} (full : ¬ (Text.trim text).isEmpty)
    (stored : e.set? f (Text.trim text) = some e') (field : Field) :
    Inherits field (e.value field) (listed? field [(f, text)]) (e'.value field) := by
  by_cases same : f = field
  · subst same
    rw [listed?_self full]
    exact .given (means_of_set? stored)
  · rw [listed?_other same, value_set?_other stored (Ne.symm same)]
    exact .kept

theorem update_eq_ok (ordered : pairs.Pairwise (·.1.place < ·.1.place))
    (updated : e.update number pairs = .ok e') (field : Field) :
    Inherits field (e.value field) (listed? field pairs) (e'.value field) ∧
      ∀ text, listed? field pairs = some text → ¬ Unreadable field text := by
  induction pairs generalizing e with
  | nil =>
    cases updated
    exact ⟨.kept, fun _ listed => by cases listed⟩
  | cons pair rest ih =>
    obtain ⟨f, text⟩ := pair
    have tail := (List.pairwise_cons.mp ordered).2
    rw [Element.update] at updated
    rw [listed?_cons ordered]
    split at updated
    · next blank =>
      rw [listed?_blank blank, Option.or_none]
      exact ih tail updated
    · next full =>
      split at updated
      · next e₁ stored =>
        obtain ⟨inherits, readable⟩ := ih tail updated
        refine ⟨(set?_inherits full stored field).trans inherits, fun t listed unreadable => ?_⟩
        rcases Option.or_eq_some_iff.mp listed with later | ⟨-, here⟩
        · exact readable t later unreadable
        · exact set?_readable stored here unreadable
      · contradiction

structure Blames (texts : Field → Option (List Char)) (cause : DecodeError) : Prop where
  found : ∃ text, texts cause.field = some text ∧ Unreadable cause.field text ∧
    cause.value = String.ofList text
  first : ∀ field text, texts field = some text → Unreadable field text →
    cause.field.place ≤ field.place

theorem update_eq_error {cause : DecodeError} (ordered : pairs.Pairwise (·.1.place < ·.1.place))
    (failed : e.update number pairs = .error cause) :
    cause.segment = number ∧ Blames (listed? · pairs) cause := by
  induction pairs generalizing e with
  | nil => contradiction
  | cons pair rest ih =>
    obtain ⟨f, text⟩ := pair
    obtain ⟨below, tail⟩ := List.pairwise_cons.mp ordered
    rw [Element.update] at failed
    simp only [listed?_cons ordered]
    split at failed
    · next blank =>
      simpa only [listed?_blank blank, Option.or_none] using ih tail failed
    · next full =>
      split at failed
      · next e₁ stored =>
        obtain ⟨here, ⟨t, listed, unreadable, same⟩, first⟩ := ih tail failed
        refine ⟨here, ⟨t, by simp [listed], unreadable, same⟩, fun field t' among unreadable' => ?_⟩
        rcases Option.or_eq_some_iff.mp among with later | ⟨-, own⟩
        · exact first field t' later unreadable'
        · exact absurd unreadable' (set?_readable stored own)
      · next refused =>
        cases failed
        have own : listed? f [(f, text)] = some (Text.trim text) := listed?_self full
        refine ⟨rfl, ⟨Text.trim text, by simp [listed?_tail ordered, own],
          set?_eq_none.mp refused, rfl⟩,
          fun field t among _ => ?_⟩
        rcases Option.or_eq_some_iff.mp among with later | ⟨-, own⟩
        · -- fields that are listed later have greater places
          by_contra before
          have absent : listed? field rest = none := listed?_of_notMem fun pair mem same =>
            before (same ▸ (below pair mem).le)
          simp [absent] at later
        · exact (listed?_single own).1 ▸ Nat.le_refl _

theorem update_segment_ok {segment : List Char}
    (updated : e.update number (Field.all.zip (Text.fields ':' segment)) = .ok e') (field : Field) :
    Inherits field (e.value field) (field.written? segment) (e'.value field) ∧
      ∀ text, field.written? segment = some text → ¬ Unreadable field text := by
  have written : listed? field _ = field.written? segment := listed?_zip (segment.splitOn ':')
  rw [Text.fields_eq_splitOn] at updated
  exact written ▸ update_eq_ok (ordered_zip _) updated field

theorem update_segment_error {segment : List Char} {cause : DecodeError}
    (failed : e.update number (Field.all.zip (Text.fields ':' segment)) = .error cause) :
    cause.segment = number ∧ Blames (·.written? segment) cause := by
  have written : (listed? · _) = (·.written? segment) :=
    funext fun field => listed?_zip (segment.splitOn ':')
  rw [Text.fields_eq_splitOn] at failed
  exact written ▸ update_eq_error (ordered_zip _) failed

end Update

/-- Segment number `k` has a text for a field that should be a number and is none. -/
def Offends (segments : List (List Char)) (k : Nat) (field : Field) (text : List Char) : Prop :=
  ∃ segment, segments[k]? = some segment ∧ field.written? segment = some text ∧
    Unreadable field text

theorem offends_zero {segment text : List Char} {rest : List (List Char)} {field : Field} :
    Offends (segment :: rest) 0 field text ↔
      field.written? segment = some text ∧ Unreadable field text := by
  simp [Offends]

theorem offends_succ {segment text : List Char} {rest : List (List Char)} {k : Nat}
    {field : Field} :
    Offends (segment :: rest) (k + 1) field text ↔ Offends rest k field text := by
  simp [Offends]

theorem decodeFrom_eq_ok {number : Nat} {e : Element} {segments : List (List Char)}
    {elements : List Element} (decoded : decodeFrom number e segments = .ok elements) :
    (∀ k field text, ¬ Offends segments k field text) ∧
      ∀ k e', elements[k]? = some e' → ∀ field,
        Inherits field (e.value field) (field.inForce? segments k) (e'.value field) := by
  induction segments generalizing number e elements with
  | nil =>
    cases decoded
    exact ⟨fun k field text offends => by simp [Offends] at offends,
      fun k e' at_k => by simp at at_k⟩
  | cons segment rest ih =>
    obtain ⟨e₁, tail, updated, later, rfl⟩ := decodeFrom_cons_eq_ok decoded
    obtain ⟨readable, inherits⟩ := ih later
    have own := update_segment_ok updated
    constructor
    · rintro (_ | k) field text offends
      · obtain ⟨written, unreadable⟩ := offends_zero.mp offends
        exact (own field).2 text written unreadable
      · exact readable k field text (offends_succ.mp offends)
    · -- going back from a later segment, this one comes last
      rintro (_ | k) e' at_k field
      · obtain rfl : e₁ = e' := by simpa using at_k
        rw [Field.inForce?_zero]
        exact (own field).1
      · rw [Field.inForce?_succ]
        exact (own field).1.trans (inherits k e' (by simpa using at_k) field)

theorem decodeFrom_eq_error {number : Nat} {e : Element} {segments : List (List Char)}
    {cause : DecodeError} (failed : decodeFrom number e segments = .error cause) :
    ∃ k text, cause.segment = number + k ∧ Offends segments k cause.field text ∧
      cause.value = String.ofList text ∧
        ∀ k' field text', Offends segments k' field text' →
          k < k' ∨ k = k' ∧ cause.field.place ≤ field.place := by
  induction segments generalizing number e with
  | nil => contradiction
  | cons segment rest ih =>
    rcases decodeFrom_cons_eq_error failed with here | ⟨e₁, updated, later⟩
    · obtain ⟨same, ⟨text, written, unreadable, value⟩, first⟩ := update_segment_error here
      refine ⟨0, text, same, offends_zero.mpr ⟨written, unreadable⟩, value, ?_⟩
      rintro (_ | k') field text' offends
      · obtain ⟨written', unreadable'⟩ := offends_zero.mp offends
        exact .inr ⟨rfl, first field text' written' unreadable'⟩
      · exact .inl (Nat.zero_lt_succ _)
    · obtain ⟨k, text, same, offends, value, first⟩ := ih later
      refine ⟨k + 1, text, by omega, offends_succ.mpr offends, value, ?_⟩
      rintro (_ | k') field text' offends'
      · obtain ⟨written', unreadable'⟩ := offends_zero.mp offends'
        exact absurd unreadable' ((update_segment_ok updated field).2 text' written')
      · have := first k' field text' (offends_succ.mp offends')
        omega

/-- Decoding fails only because of a text that should be a number and is none, and reports the first
such text of the first segment that has one. Otherwise there is one element for each segment, and
each of its fields has the value that the nearest text for it gives, or the default. -/
theorem decode_exact (raw : String) :
    ((∃ elements, decode raw = .ok elements) ↔
      ∀ k field text, ¬ Offends (segments raw) k field text) ∧
      (∀ elements, decode raw = .ok elements →
        elements.length = (segments raw).length ∧
          ∀ k e, elements[k]? = some e → ∀ field,
            Inherits field (({} : Element).value field) (field.inForce? (segments raw) k)
            (e.value field)) ∧
      ∀ cause, decode raw = .error cause →
        ∃ text, Offends (segments raw) cause.segment cause.field text ∧
          cause.value = String.ofList text ∧
            ∀ k field text', Offends (segments raw) k field text' →
              cause.segment < k ∨ cause.segment = k ∧ cause.field.place ≤ field.place := by
  rw [decode, Text.fields_eq_splitOn, ← segments]
  refine ⟨⟨?_, fun readable => ?_⟩, fun elements decoded => ?_, fun cause failed => ?_⟩
  · rintro ⟨elements, decoded⟩
    exact (decodeFrom_eq_ok decoded).1
  · cases decoded : decodeFrom 0 {} (segments raw) with
    | ok elements => exact ⟨elements, rfl⟩
    | error cause =>
      obtain ⟨k, text, -, offends, -⟩ := decodeFrom_eq_error decoded
      exact absurd offends (readable k cause.field text)
  · exact ⟨length_decodeFrom decoded, (decodeFrom_eq_ok decoded).2⟩
  · obtain ⟨k, text, same, offends, value, first⟩ := decodeFrom_eq_error failed
    obtain rfl : cause.segment = k := by omega
    exact ⟨text, offends, value, first⟩

theorem decode_exact_blank :
    (decode " 1:2:-1:o;:4" = .ok [⟨1, 2, none, .out, 0⟩, ⟨1, 4, none, .out, 0⟩] ∧
      Inherits .offset (.number 0) (some ['1']) (.number 1)) ∧
    decode "1:2;3:x:y" = .error ⟨1, .length, "x"⟩ ∧
      Offends (segments "1:2;3:x:y") 1 .length ['x'] := by
  have decoded : decode " 1:2:-1:o;:4" = .ok [⟨1, 2, none, .out, 0⟩, ⟨1, 4, none, .out, 0⟩] := by
    rfl
  have failed : decode "1:2;3:x:y" = .error ⟨1, .length, "x"⟩ := by rfl
  refine ⟨⟨decoded, ((decode_exact _).2.1 _ decoded).2 1 _ rfl .offset⟩, failed, ?_⟩
  obtain ⟨text, offends, value, -⟩ := (decode_exact _).2.2 _ failed
  obtain rfl : text = ['x'] := by simpa using congrArg String.toList value.symm
  exact offends

end SourceStepper.SourceMap
