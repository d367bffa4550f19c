import SourceStepper.Proofs.Text.Split
import SourceStepper.SourceMap.Decode

namespace SourceStepper

namespace SourceMap

theorem decodeFrom_cons_eq_ok {number : Nat} {e : Element} {segment : List Char}
    {rest : List (List Char)} {elements : List Element}
    (decoded : decodeFrom number e (segment :: rest) = .ok elements) :
    ∃ e' tail, e.update number (Field.all.zip (Text.fields ':' segment)) = .ok e' ∧
      decodeFrom (number + 1) e' rest = .ok tail ∧ elements = e' :: tail := by
  rw [decodeFrom] at decoded
  cases updated : e.update number (Field.all.zip (Text.fields ':' segment)) with
  | error cause => simp [updated, bind, Except.bind] at decoded
  | ok e' =>
    cases later : decodeFrom (number + 1) e' rest with
    | error cause => simp [updated, later, bind, Except.bind] at decoded
    | ok tail =>
      have same : e' :: tail = elements := by
        simpa [updated, later, bind, Except.bind, pure, Except.pure] using decoded
      exact ⟨e', tail, rfl, later, same.symm⟩

theorem decodeFrom_cons_eq_error {number : Nat} {e : Element} {segment : List Char}
    {rest : List (List Char)} {cause : DecodeError}
    (failed : decodeFrom number e (segment :: rest) = .error cause) :
    e.update number (Field.all.zip (Text.fields ':' segment)) = .error cause ∨
      ∃ e', e.update number (Field.all.zip (Text.fields ':' segment)) = .ok e' ∧
        decodeFrom (number + 1) e' rest = .error cause := by
  rw [decodeFrom] at failed
  cases updated : e.update number (Field.all.zip (Text.fields ':' segment)) with
  | error cause' => exact .inl (by simpa [updated, bind, Except.bind] using failed)
  | ok e' =>
    cases later : decodeFrom (number + 1) e' rest with
    | error cause' =>
      exact .inr ⟨e', rfl, by simpa [updated, later, bind, Except.bind] using failed⟩
    | ok tail => simp [updated, later, bind, Except.bind, pure, Except.pure] at failed

theorem length_decodeFrom {segment : Nat} {e : Element} {texts : List (List Char)}
    {elements : List Element} (decoded : decodeFrom segment e texts = .ok elements) :
    elements.length = texts.length := by
  induction texts generalizing segment e elements with
  | nil =>
    cases decoded
    rfl
  | cons text rest ih =>
    obtain ⟨e', tail, -, later, rfl⟩ := decodeFrom_cons_eq_ok decoded
    rw [List.length_cons, List.length_cons, ih later]

theorem length_decode {raw : String} {elements : List Element}
    (decoded : decode raw = .ok elements) :
    elements.length = raw.toList.count ';' + 1 := by
  rw [length_decodeFrom decoded, Text.length_fields]

end SourceMap

end SourceStepper
