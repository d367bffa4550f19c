import Mathlib.Data.Finset.Card
import SourceStepper.Breakpoint.Registry
import SourceStepper.Proofs.Text.Utf8

namespace SourceStepper

namespace LinesByFile

variable (m : LinesByFile) (file path : String) (line k : Nat)

theorem mem_all_iff {m : LinesByFile} {b : Breakpoint} :
    b ∈ m.all ↔ m.has b.path b.line = true := by
  simp only [all, List.mem_flatMap, List.mem_map, Prod.exists, OrderedMap.mem_entries_iff, has,
    Option.any_eq_true, OrderedMap.mem_keys_iff]
  constructor
  · rintro ⟨path, lines, held, line, listed, rfl⟩
    exact ⟨lines, held, listed⟩
  · rintro ⟨lines, held, listed⟩
    exact ⟨b.path, lines, held, b.line, listed, rfl⟩

theorem all_increasing : m.all.Pairwise (· < ·) := by
  rw [all, List.pairwise_flatMap]
  constructor
  · rintro ⟨path, lines⟩ -
    rw [List.pairwise_map]
    exact (List.pairwise_map.mpr lines.increasing).imp fun lt => .inr ⟨rfl, lt⟩
  · refine m.increasing.imp fun lt b hb c hc => ?_
    obtain ⟨line, -, rfl⟩ := List.mem_map.mp hb
    obtain ⟨line', -, rfl⟩ := List.mem_map.mp hc
    exact .inl lt

theorem length_all : m.all.length = m.count := by
  rw [all, count, OrderedMap.values]
  induction m.entries with
  | nil => rfl
  | cons e rest ih =>
    rw [List.flatMap_cons, List.length_append, ih, List.map_cons, List.foldr_cons, List.length_map,
      OrderedMap.keys, List.length_map, OrderedMap.size]

def lines : Finset Breakpoint := m.all.toFinset

theorem has_iff : m.has path line = true ↔ ⟨path, line⟩ ∈ m.lines := by
  rw [lines, List.mem_toFinset, mem_all_iff]

theorem card_lines : m.lines.card = m.count := by
  have distinct : m.all.Nodup := m.all_increasing.imp fun lt same => by
    obtain rfl := same
    rcases Breakpoint.lt_def.mp lt with lt | ⟨_, lt⟩
    · exact String.lt_irrefl _ lt
    · exact Nat.lt_irrefl _ lt
  rw [lines, List.toFinset_card_of_nodup distinct, length_all]

theorem has_alter (f : Option (OrderedMap Nat Unit) → Option (OrderedMap Nat Unit)) :
    LinesByFile.has (m.alter file f) path line =
      if path = file then (f (m.get? file)).any (·.contains line) else m.has path line := by
  rw [has, OrderedMap.get?_alter]
  split <;> rfl

theorem lines_insertLine : (m.insertLine file k).lines = insert ⟨file, k⟩ m.lines := by
  ext ⟨path, line⟩
  rw [← has_iff, Finset.mem_insert, ← has_iff, insertLine, has_alter, Breakpoint.mk.injEq]
  by_cases here : path = file
  · subst here
    cases held : m.get? path <;> simp [has, held, OrderedMap.contains_insert]
  · simp [here]

theorem lines_eraseLine : (m.eraseLine file k).lines = m.lines.erase ⟨file, k⟩ := by
  ext ⟨path, line⟩
  rw [← has_iff, Finset.mem_erase, ← has_iff, eraseLine, has_alter, ne_eq, Breakpoint.mk.injEq]
  by_cases here : path = file
  · subst here
    cases held : m.get? path <;> simp [has, held, OrderedMap.contains_erase]
  · simp [here]

theorem lines_sweep : (m.sweep file).lines = m.lines := by
  ext ⟨path, line⟩
  rw [← has_iff, ← has_iff, sweep, has_alter]
  by_cases here : path = file
  · subst here
    cases held : m.get? path with
    | none => simp [has, held]
    | some lines =>
      -- A file whose last line has been erased leaves the map, which has no line more or less by
      -- that.
      cases none : lines.isEmpty with
      | true =>
        have : lines.contains line = false := by
          rw [OrderedMap.contains, OrderedMap.get?, List.isEmpty_iff.mp none]
          rfl
        simp [has, held, none, this]
      | false => simp [has, held, none]
  · simp [here]

end LinesByFile

namespace Registry

inductive Call
  | edit (e : Edit)
  | has (path : String) (line : Nat)
  | shouldStop (path : Option String) (line : Nat)
  | count
  | all

inductive Answer
  | done
  | flag (yes : Bool)
  | number (n : Nat)
  | list (breakpoints : List Breakpoint)
  deriving DecidableEq

def answer (r : Registry) : Call → Answer
  | .edit (.add path line) => .flag (r.add path line).1
  | .edit (.remove path line) => .flag (r.remove path line).1
  | .edit (.toggle path line) => .flag (r.toggle path line).1
  | .edit (.skip ..) | .edit (.unskip ..) | .edit .clear => .done
  | .has path line => .flag (r.has path line)
  | .shouldStop path line => .flag (r.shouldStop path line)
  | .count => .number r.count
  | .all => .list r.all

def after (r : Registry) : Call → Registry
  | .edit e => r.edit e
  | .has .. | .shouldStop .. | .count | .all => r

/-- The breakpoints and the skip marks, as sets of places. -/
structure Sets where
  set : Finset Breakpoint
  skipped : Finset Breakpoint

namespace Sets

def add (s : Sets) (b : Breakpoint) : Sets := { s with set := insert b s.set }

def remove (s : Sets) (b : Breakpoint) : Sets := ⟨s.set.erase b, s.skipped.erase b⟩

def toggle (s : Sets) (b : Breakpoint) : Sets := if b ∈ s.set then s.remove b else s.add b

variable (n : PathNormalizer)

def after (s : Sets) : Call → Sets
  | .edit (.add path line) => s.add ⟨n.normalize path, line⟩
  | .edit (.remove path line) => s.remove ⟨n.normalize path, line⟩
  | .edit (.toggle path line) => s.toggle ⟨n.normalize path, line⟩
  | .edit (.skip path line) => { s with skipped := insert ⟨n.normalize path, line⟩ s.skipped }
  | .edit (.unskip path line) => { s with skipped := s.skipped.erase ⟨n.normalize path, line⟩ }
  | .edit .clear => ⟨∅, ∅⟩
  | .has .. | .shouldStop .. | .count | .all => s

def Before (a b : Breakpoint) : Prop :=
  Text.utf8 a.path.toList < Text.utf8 b.path.toList ∨ a.path = b.path ∧ a.line < b.line

/-- What the sets say to a call, of a registry that normalizes by `n`. -/
def Says (s : Sets) : Call → Answer → Prop
  | .edit (.add path line), a => a = .flag (⟨n.normalize path, line⟩ ∉ s.set)
  | .edit (.remove path line), a => a = .flag (⟨n.normalize path, line⟩ ∈ s.set)
  | .edit (.toggle path line), a =>
    a = .flag (⟨n.normalize path, line⟩ ∈ (s.toggle ⟨n.normalize path, line⟩).set)
  | .edit (.skip ..), a | .edit (.unskip ..), a | .edit .clear, a => a = .done
  | .has path line, a => a = .flag (⟨n.normalize path, line⟩ ∈ s.set)
  | .shouldStop (some path) line, a => a = .flag (⟨n.normalize path, line⟩ ∈ s.set \ s.skipped)
  | .shouldStop none line, a => a = .flag (∃ b ∈ s.set \ s.skipped, b.line = line)
  | .count, a => a = .number s.set.card
  | .all, a => ∃ listed, a = .list listed ∧ (∀ b, b ∈ listed ↔ b ∈ s.set) ∧ listed.Pairwise Before

end Sets

def Marks.sets (m : Marks) : Sets := ⟨m.breakpoints.lines, m.skipped.lines⟩

variable (r : Registry) (path : String) (line : Nat)

theorem has_eq :
    r.has path line = decide (⟨r.normalizer.normalize path, line⟩ ∈ r.marks.sets.set) := by
  rw [Bool.eq_iff_iff, decide_eq_true_iff, has, LinesByFile.has_iff]
  rfl

theorem sets_add :
    (r.add path line).2.marks.sets = r.marks.sets.add ⟨r.normalizer.normalize path, line⟩ := by
  simp only [add, Marks.sets, Sets.add, LinesByFile.lines_insertLine]

theorem sets_remove :
    (r.remove path line).2.marks.sets =
      r.marks.sets.remove ⟨r.normalizer.normalize path, line⟩ := by
  simp only [remove, Marks.sets, Sets.remove, LinesByFile.lines_sweep, LinesByFile.lines_eraseLine]

theorem sets_toggle :
    (r.toggle path line).2.marks.sets =
      r.marks.sets.toggle ⟨r.normalizer.normalize path, line⟩ := by
  rw [toggle, Sets.toggle, has_eq, ← sets_add, ← sets_remove]
  simp only [decide_eq_true_iff]
  split <;> rfl

theorem sets_after (c : Call) : (r.after c).marks.sets = r.marks.sets.after r.normalizer c := by
  cases c with
  | edit e =>
    cases e with
    | add path line => exact r.sets_add path line
    | remove path line => exact r.sets_remove path line
    | toggle path line => exact r.sets_toggle path line
    | skip path line =>
      simp only [after, edit, skip, Marks.sets, Sets.after, LinesByFile.lines_insertLine]
    | unskip path line =>
      simp only [after, edit, unskip, Marks.sets, Sets.after, LinesByFile.lines_eraseLine]
    | clear => rfl
  | has path line => rfl
  | shouldStop path line => rfl
  | count => rfl
  | all => rfl

theorem toggle_answer :
    (r.toggle path line).1 =
      decide (⟨r.normalizer.normalize path, line⟩ ∈
        (r.marks.sets.toggle ⟨r.normalizer.normalize path, line⟩).set) := by
  rw [toggle, Sets.toggle, has_eq]
  by_cases here : ⟨r.normalizer.normalize path, line⟩ ∈ r.marks.sets.set
  · simp [here, Sets.remove]
  · simp [here, Sets.add, add, has_eq]

theorem shouldStop_some :
    r.shouldStop (some path) line =
      decide (⟨r.normalizer.normalize path, line⟩ ∈ r.marks.sets.set \ r.marks.sets.skipped) := by
  rw [Bool.eq_iff_iff, decide_eq_true_iff, Finset.mem_sdiff, shouldStop, has, Bool.and_eq_true,
    Bool.not_eq_true', ← Bool.not_eq_true, LinesByFile.has_iff, LinesByFile.has_iff]
  rfl

theorem shouldStop_none :
    r.shouldStop none line =
      decide (∃ b ∈ r.marks.sets.set \ r.marks.sets.skipped, b.line = line) := by
  rw [Bool.eq_iff_iff, decide_eq_true_iff, shouldStop, List.any_eq_true]
  simp only [Prod.exists, OrderedMap.mem_entries_iff, Bool.and_eq_true, Bool.not_eq_true',
    ← Bool.not_eq_true (LinesByFile.has _ _ _), LinesByFile.has_iff, Finset.mem_sdiff]
  constructor
  · rintro ⟨file, lines, held, listed, kept⟩
    refine ⟨⟨file, line⟩, ⟨(LinesByFile.has_iff ..).mp ?_, kept⟩, rfl⟩
    simp [LinesByFile.has, held, listed]
  · rintro ⟨⟨file, k⟩, ⟨present, kept⟩, rfl⟩
    have present := (LinesByFile.has_iff ..).mpr present
    rw [LinesByFile.has, Option.any_eq_true] at present
    obtain ⟨lines, held, listed⟩ := present
    exact ⟨file, lines, held, listed, kept⟩

theorem all_ordered : r.all.Pairwise Sets.Before := by
  refine r.marks.breakpoints.all_increasing.imp fun lt => ?_
  rcases Breakpoint.lt_def.mp lt with lt | same
  · exact .inl (Text.utf8_lt (String.lt_iff.mp lt))
  · exact .inr same

theorem sets_say (c : Call) : r.marks.sets.Says r.normalizer c (r.answer c) := by
  cases c with
  | edit e =>
    cases e with
    | add path line =>
      simp only [answer, Sets.Says, add, has_eq, decide_not]
    | remove path line => simp only [answer, Sets.Says, remove, has_eq]
    | toggle path line => simp only [answer, Sets.Says, toggle_answer]
    | skip path line => rfl
    | unskip path line => rfl
    | clear => rfl
  | has path line => simp only [answer, Sets.Says, has_eq]
  | shouldStop path line =>
    cases path with
    | some path => simp only [answer, Sets.Says, shouldStop_some]
    | none => simp only [answer, Sets.Says, shouldStop_none]
  | count => exact congrArg Answer.number r.marks.breakpoints.card_lines.symm
  | all => exact ⟨r.all, rfl, fun b => List.mem_toFinset.symm, r.all_ordered⟩

/-- The handles that have been cloned from one, each with its normalizer, and the marks that
they share. -/
structure Handles where
  normalizers : List PathNormalizer
  marks : Marks

/-- Handles of a registry that has been made with a normalizer, and the calls through any of them
with their answers, the latest first. -/
inductive Handled (n : PathNormalizer) : Handles → List (Call × Answer) → Prop
  | made : Handled n ⟨[n], {}⟩ []
  | clone {h : Handles} {log : List (Call × Answer)} {m : PathNormalizer}
      (handled : Handled n h log)
      (held : m ∈ h.normalizers) : Handled n { h with normalizers := m :: h.normalizers } log
  | call {h : Handles} {log : List (Call × Answer)} {m : PathNormalizer} (handled : Handled n h log)
      (held : m ∈ h.normalizers) (c : Call) :
      Handled n { h with marks := (after ⟨m, h.marks⟩ c).marks } ((c, answer ⟨m, h.marks⟩ c) :: log)

def Sets.behind (n : PathNormalizer) : List (Call × Answer) → Sets
  | [] => ⟨∅, ∅⟩
  | (c, _) :: log => (behind n log).after n c

theorem Handled.same_normalizer {n m : PathNormalizer} {h : Handles} {log : List (Call × Answer)}
    (handled : Handled n h log) (held : m ∈ h.normalizers) : m = n := by
  induction handled with
  | made => exact List.mem_singleton.mp held
  | clone handled first ih =>
    rcases List.mem_cons.mp held with rfl | held
    · exact ih first
    · exact ih held
  | call handled first c ih => exact ih held

theorem Handled.sets {n : PathNormalizer} {h : Handles} {log : List (Call × Answer)}
    (handled : Handled n h log) : h.marks.sets = .behind n log := by
  induction handled with
  | made => rfl
  | clone handled held ih => exact ih
  | call handled held c ih =>
    obtain rfl := handled.same_normalizer held
    rw [Sets.behind, ← ih]
    exact sets_after ⟨_, _⟩ c

/-- Whatever has been done through the handles of a registry, every call was answered as the sets
say that the calls before it leave. -/
theorem answers_agree_with_sets {n : PathNormalizer} {h : Handles}
    {log earlier : List (Call × Answer)} {c : Call} {a : Answer} (handled : Handled n h log)
    (said : (c, a) :: earlier <:+ log) :
    (Sets.behind n earlier).Says n c a := by
  induction handled with
  | made => exact absurd (List.suffix_nil.mp said) (List.cons_ne_nil _ _)
  | clone handled held ih => exact ih said
  | call handled held c' ih =>
    rcases List.suffix_cons_iff.mp said with same | said
    · obtain ⟨⟨rfl, rfl⟩, rfl⟩ : (c = c' ∧ a = _) ∧ earlier = _ := by simpa using same
      obtain rfl := handled.same_normalizer held
      rw [← handled.sets]
      exact sets_say ⟨_, _⟩ c
    · exact ih said

theorem clone_sees_what_was_added :
    let path := "./src/main/solidity/A.sol"
    let r : Registry := ⟨default, {}⟩
    let added := r.after (.edit (.add path 3))
    let skipped := added.after (.edit (.skip "A" 3))
    let log : List (Call × Answer) :=
      [(.shouldStop none 3, skipped.answer (.shouldStop none 3)), (.all, skipped.answer .all),
        (.edit (.skip "A" 3), .done), (.edit (.add path 3), r.answer (.edit (.add path 3)))]
    Handled default ⟨[default, default], skipped.marks⟩ log ∧
      (Sets.behind default (log.drop 2)).Says default .all (.list [⟨"A", 3⟩]) ∧
      (Sets.behind default (log.drop 1)).Says default (.shouldStop none 3) (.flag false) := by
  intro path r added skipped log
  have one : default ∈ [(default : PathNormalizer), default] := List.mem_cons_self
  have other : default ∈ [(default : PathNormalizer), default] :=
    List.mem_cons_of_mem _ List.mem_cons_self
  have cloned : Handled default ⟨[default, default], {}⟩ [] := .clone .made List.mem_cons_self
  have first : Handled default ⟨[default, default], added.marks⟩ (log.drop 3) :=
    cloned.call one (.edit (.add path 3))
  have second : Handled default ⟨[default, default], skipped.marks⟩ (log.drop 2) :=
    first.call one (.edit (.skip "A" 3))
  have third : Handled default ⟨[default, default], skipped.marks⟩ (log.drop 1) :=
    second.call other .all
  have handled : Handled default ⟨[default, default], skipped.marks⟩ log :=
    third.call other (.shouldStop none 3)
  have listed : skipped.answer .all = .list [⟨"A", 3⟩] := by decide +kernel
  have passed : skipped.answer (.shouldStop none 3) = .flag false := by decide +kernel
  exact ⟨handled, listed ▸ answers_agree_with_sets handled (List.suffix_cons _ _),
    passed ▸ answers_agree_with_sets handled List.suffix_rfl⟩

end Registry

end SourceStepper
