import SourceStepper.Proofs.Breakpoint.Sets

/-! Whether execution stops at a breakpoint that has just been added. It does unless its line has
been skipped ahead, while there was no breakpoint on it: such a mark waits for the breakpoint. -/
namespace SourceStepper.Registry

section Place

variable (n : PathNormalizer) (place : Breakpoint)

/-- Whether a call takes the breakpoint from a place, and the skip mark with it. -/
def Withdraws : Call × Answer → Prop
  | (.edit (.remove path line), _) => ⟨n.normalize path, line⟩ = place
  | (.edit (.toggle path line), a) => ⟨n.normalize path, line⟩ = place ∧ a = .flag false
  | (.edit .clear, _) => True
  | _ => False

def Skips : Call → Prop
  | .edit (.skip path line) => ⟨n.normalize path, line⟩ = place
  | _ => False

def Unskips : Call → Prop
  | .edit (.unskip path line) => ⟨n.normalize path, line⟩ = place
  | _ => False

/-- Whether a call is one that the owner of a fresh breakpoint would not expect it to outlast: a
skip, a removal or a toggle at its place, or a clearance. -/
def Disturbs : Call → Prop
  | .edit (.skip path line) | .edit (.remove path line) | .edit (.toggle path line) =>
    ⟨n.normalize path, line⟩ = place
  | .edit .clear => True
  | _ => False

/-- A place has been skipped while there was no breakpoint on it, and nothing has taken the
mark away. -/
def SkippedAhead (log : List (Call × Answer)) : Prop :=
  ∃ later skip earlier, log = later ++ skip :: earlier ∧ Skips n place skip.1 ∧
    place ∉ (Sets.behind n earlier).set ∧
    ∀ entry ∈ later, ¬ Withdraws n place entry ∧ ¬ Unskips n place entry.1

end Place

section

variable {n : PathNormalizer} {place : Breakpoint} {s : Sets} {c : Call} {a : Answer}

theorem mem_set_after (said : s.Says n c a) (kept : ¬ Withdraws n place (c, a))
    (held : place ∈ s.set) :
    place ∈ (s.after n c).set := by
  cases c with
  | edit e =>
    cases e with
    | add path line => exact Finset.mem_insert_of_mem held
    | remove path line => exact Finset.mem_erase_of_ne_of_mem (Ne.symm kept) held
    | toggle path line =>
      rw [Sets.after]
      rw [Sets.Says] at said
      rw [Sets.toggle] at said ⊢
      split at said
      · next present =>
        -- the toggle has removed a breakpoint, so it is another one
        rw [if_pos present]
        refine Finset.mem_erase_of_ne_of_mem (fun here => kept ⟨here.symm, ?_⟩) held
        rw [said]
        simp [Sets.remove]
      · next absent =>
        rw [if_neg absent]
        exact Finset.mem_insert_of_mem held
    | skip path line => exact held
    | unskip path line => exact held
    | clear => exact absurd trivial kept
  | has path line => exact held
  | shouldStop path line => exact held
  | count => exact held
  | all => exact held

theorem mem_skipped_after (said : s.Says n c a) :
    place ∈ (s.after n c).skipped ↔
      Skips n place c ∨ place ∈ s.skipped ∧ ¬ Withdraws n place (c, a) ∧ ¬ Unskips n place c := by
  cases c with
  | edit e =>
    cases e with
    | add path line => simp [Sets.after, Sets.add, Skips, Withdraws, Unskips]
    | remove path line =>
      simp [Sets.after, Sets.remove, Skips, Withdraws, Unskips, and_comm, eq_comm]
    | toggle path line =>
      rw [Sets.after]
      rw [Sets.Says] at said
      rw [Sets.toggle] at said ⊢
      split at said
      · next present =>
        rw [if_pos present]
        simp [Sets.remove, Skips, Withdraws, Unskips, said, and_comm, eq_comm]
      · next absent =>
        rw [if_neg absent]
        simp [Sets.add, Skips, Withdraws, Unskips, said]
    | skip path line => simp [Sets.after, Skips, Withdraws, Unskips, eq_comm]
    | unskip path line => simp [Sets.after, Skips, Withdraws, Unskips, and_comm, eq_comm]
    | clear => simp [Sets.after, Skips, Withdraws]
  | has path line => simp [Sets.after, Skips, Withdraws, Unskips]
  | shouldStop path line => simp [Sets.after, Skips, Withdraws, Unskips]
  | count => simp [Sets.after, Skips, Withdraws, Unskips]
  | all => simp [Sets.after, Skips, Withdraws, Unskips]

end

def Answered (n : PathNormalizer) : List (Call × Answer) → Prop
  | [] => True
  | (c, a) :: log => (Sets.behind n log).Says n c a ∧ Answered n log

theorem Handled.answered {n : PathNormalizer} {h : Handles} {log : List (Call × Answer)}
    (handled : Handled n h log) : Answered n log := by
  induction handled with
  | made => trivial
  | clone handled held ih => exact ih
  | call handled held c ih =>
    obtain rfl := handled.same_normalizer held
    refine ⟨?_, ih⟩
    rw [← handled.sets]
    exact sets_say ⟨_, _⟩ c

section

variable {n : PathNormalizer} {place : Breakpoint} {later before log : List (Call × Answer)}

theorem Answered.of_append (answered : Answered n (later ++ before)) : Answered n before := by
  induction later with
  | nil => exact answered
  | cons entry later ih => exact ih answered.2

theorem Answered.set_stays (answered : Answered n (later ++ before))
    (kept : ∀ entry ∈ later, ¬ Withdraws n place entry)
    (held : place ∈ (Sets.behind n before).set) :
    place ∈ (Sets.behind n (later ++ before)).set := by
  induction later with
  | nil => exact held
  | cons entry later ih =>
    rw [List.forall_mem_cons] at kept
    exact mem_set_after answered.1 kept.1 (ih answered.2 kept.2)

theorem Answered.skipped_stays (answered : Answered n (later ++ before))
    (unmarked : ∀ entry ∈ later, ¬ Skips n place entry.1) :
    place ∈ (Sets.behind n (later ++ before)).skipped ↔
      place ∈ (Sets.behind n before).skipped ∧
        ∀ entry ∈ later, ¬ Withdraws n place entry ∧ ¬ Unskips n place entry.1 := by
  induction later with
  | nil => simp
  | cons entry later ih =>
    rw [List.forall_mem_cons] at unmarked
    have said : (Sets.behind n (later ++ before)).Says n entry.1 entry.2 := answered.1
    change place ∈ ((Sets.behind n (later ++ before)).after n entry.1).skipped ↔ _
    rw [mem_skipped_after said, ih answered.2 unmarked.2, List.forall_mem_cons]
    simp only [unmarked.1, false_or]
    tauto

/-- A mark stands where the last call that has to do with it was a skip. -/
theorem Answered.mem_skipped_iff (answered : Answered n log) :
    place ∈ (Sets.behind n log).skipped ↔
      ∃ later skip earlier, log = later ++ skip :: earlier ∧ Skips n place skip.1 ∧
        ∀ entry ∈ later, ¬ Withdraws n place entry ∧ ¬ Unskips n place entry.1 := by
  induction log with
  | nil => simp [Sets.behind]
  | cons entry log ih =>
    have last : place ∈ (Sets.behind n (entry :: log)).skipped ↔ _ := mem_skipped_after answered.1
    rw [last, ih answered.2]
    constructor
    · rintro (skips | ⟨⟨later, skip, earlier, rfl, skips, kept⟩, keeps⟩)
      · exact ⟨[], entry, log, rfl, skips, by simp⟩
      · exact ⟨entry :: later, skip, earlier, rfl, skips, List.forall_mem_cons.mpr ⟨keeps, kept⟩⟩
    · rintro ⟨later, skip, earlier, split, skips, kept⟩
      cases later with
      | nil =>
        obtain ⟨rfl, rfl⟩ := List.cons.inj split
        exact .inl skips
      | cons first later =>
        obtain ⟨rfl, rfl⟩ := List.cons.inj split
        rw [List.forall_mem_cons] at kept
        exact .inr ⟨⟨later, skip, earlier, rfl, skips, kept.2⟩, kept.1⟩

/-- Where there is no breakpoint, a mark has been set when there was none either. -/
theorem Answered.skippedAhead_iff (answered : Answered n log)
    (absent : place ∉ (Sets.behind n log).set) :
    place ∈ (Sets.behind n log).skipped ↔ SkippedAhead n place log := by
  rw [answered.mem_skipped_iff]
  constructor
  · rintro ⟨later, skip, earlier, rfl, skips, kept⟩
    refine ⟨later, skip, earlier, rfl, skips, fun held => absent ?_, kept⟩
    have stays : place ∈ (Sets.behind n (skip :: earlier)).set := by
      refine mem_set_after answered.of_append.1 (fun withdraws => ?_) held
      obtain ⟨c, a⟩ := skip
      cases c with
      | edit e => cases e <;> first | exact skips | exact withdraws
      | _ => exact skips
    exact answered.set_stays (fun entry among => (kept entry among).1) stays
  · rintro ⟨later, skip, earlier, split, skips, -, kept⟩
    exact ⟨later, skip, earlier, split, skips, kept⟩

theorem disturbs_of_withdraws {entry : Call × Answer} (withdraws : Withdraws n place entry) :
    Disturbs n place entry.1 := by
  obtain ⟨c, a⟩ := entry
  cases c with
  | edit e =>
    cases e with
    | remove path line => exact withdraws
    | toggle path line => exact withdraws.1
    | clear => trivial
    | _ => exact withdraws.elim
  | _ => exact withdraws.elim

theorem disturbs_of_skips {c : Call} (skips : Skips n place c) : Disturbs n place c := by
  cases c with
  | edit e =>
    cases e with
    | skip path line => exact skips
    | _ => exact skips.elim
  | _ => exact skips.elim

/-- A breakpoint that has just been added stops execution, as long as nothing is done to its line
that would take it away or skip it, exactly if the line had not been skipped ahead or has been
unskipped since. The path may be known then or not. -/
theorem new_breakpoint_honoured_iff {h : Handles} {after before : List (Call × Answer)}
    {path : String} {line : Nat}
    (handled : Handled n h (after ++ (.edit (.add path line), .flag true) :: before))
    (undisturbed : ∀ entry ∈ after, ¬ Disturbs n ⟨n.normalize path, line⟩ entry.1) :
    ((Registry.mk n h.marks).shouldStop (some path) line = true ∧
        (Registry.mk n h.marks).shouldStop none line = true) ↔
      ¬ SkippedAhead n ⟨n.normalize path, line⟩ before ∨
        ∃ entry ∈ after, Unskips n ⟨n.normalize path, line⟩ entry.1 := by
  generalize here : (⟨n.normalize path, line⟩ : Breakpoint) = place at *
  have answered := handled.answered
  have absent : place ∉ (Sets.behind n before).set := by
    have said := answered.of_append.1
    rw [Sets.Says, here] at said
    simpa using said
  have kept : ∀ entry ∈ after, ¬ Withdraws n place entry := fun entry among withdraws =>
    undisturbed entry among (disturbs_of_withdraws withdraws)
  have unmarked : ∀ entry ∈ after, ¬ Skips n place entry.1 := fun entry among skips =>
    undisturbed entry among (disturbs_of_skips skips)
  have present : place ∈ h.marks.sets.set := by
    rw [handled.sets]
    refine answered.set_stays kept ?_
    rw [Sets.behind, Sets.after, here]
    exact Finset.mem_insert_self ..
  have marked : place ∈ h.marks.sets.skipped ↔
      SkippedAhead n place before ∧ ∀ entry ∈ after, ¬ Unskips n place entry.1 := by
    have ahead := answered.of_append.2.skippedAhead_iff absent
    rw [handled.sets, answered.skipped_stays unmarked, ← ahead]
    exact and_congr Iff.rfl ⟨fun all entry among => (all entry among).2,
      fun all entry among => ⟨kept entry among, all entry among⟩⟩
  have known : (Registry.mk n h.marks).shouldStop (some path) line = true ↔
      place ∉ h.marks.sets.skipped := by
    rw [shouldStop_some, decide_eq_true_iff, Finset.mem_sdiff, here]
    exact and_iff_right present
  have unknown : place ∉ h.marks.sets.skipped →
      (Registry.mk n h.marks).shouldStop none line = true := by
    intro unskipped
    rw [shouldStop_none, decide_eq_true_iff]
    exact ⟨place, Finset.mem_sdiff.mpr ⟨present, unskipped⟩, here ▸ rfl⟩
  rw [known, and_iff_left_of_imp unknown, marked]
  simp only [not_and_or, Classical.not_forall, exists_prop, Classical.not_not]

end

theorem unskipped_breakpoint_honoured :
    let path := "src/main/solidity/A.sol"
    let skipped := Registry.skip ⟨default, {}⟩ "./A.sol" 5
    let added := (skipped.add path 5).2
    let r := added.unskip "A" 5
    let before := [(Call.edit (.skip "./A.sol" 5), Answer.done)]
    let after := [(Call.edit (.unskip "A" 5), Answer.done)]
    Handled default ⟨[default], r.marks⟩ (after ++ (.edit (.add path 5), .flag true) :: before) ∧
      (∀ entry ∈ after, ¬ Disturbs default ⟨PathNormalizer.normalize default path, 5⟩ entry.1) ∧
      SkippedAhead default ⟨PathNormalizer.normalize default path, 5⟩ before ∧
      r.shouldStop (some path) 5 = true ∧ r.shouldStop none 5 = true := by
  intro path skipped added r before after
  have first : Handled default ⟨[default], skipped.marks⟩ before :=
    .call .made List.mem_cons_self (.edit (.skip "./A.sol" 5))
  have second :
      Handled default ⟨[default], added.marks⟩ ((.edit (.add path 5), .flag true) :: before) :=
    first.call List.mem_cons_self (.edit (.add path 5))
  have handled :
      Handled default ⟨[default], r.marks⟩ (after ++ (.edit (.add path 5), .flag true) :: before) :=
    second.call List.mem_cons_self (.edit (.unskip "A" 5))
  have undisturbed : ∀ entry ∈ after,
      ¬ Disturbs default ⟨PathNormalizer.normalize default path, 5⟩ entry.1 := by
    simp [after, Disturbs]
  have same : ∀ spelling ∈ ["./A.sol", "A"],
    (⟨PathNormalizer.normalize default spelling, 5⟩ : Breakpoint) =
      ⟨PathNormalizer.normalize default path, 5⟩ := by decide +kernel
  have ahead : SkippedAhead default ⟨PathNormalizer.normalize default path, 5⟩ before :=
    ⟨[], _, [], rfl, same "./A.sol" (by simp), Finset.notMem_empty _, nofun⟩
  have unskips :
      Unskips default ⟨PathNormalizer.normalize default path, 5⟩ (.edit (.unskip "A" 5)) :=
    same "A" (by simp)
  exact ⟨handled, undisturbed, ahead, (new_breakpoint_honoured_iff handled undisturbed).mpr
    (.inr ⟨_, List.mem_cons_self, unskips⟩)⟩

/-- A line is skipped, and then a breakpoint is set on it, which does not stop execution. -/
theorem skippedAhead_not_honoured :
    let skipped := Registry.skip ⟨default, {}⟩ "Foo.sol" 3
    let r := (skipped.add "Foo.sol" 3).2
    Handled default ⟨[default], r.marks⟩
        [(.edit (.add "Foo.sol" 3), .flag true), (.edit (.skip "Foo.sol" 3), .done)] ∧
      r.shouldStop (some "Foo.sol") 3 = false ∧ r.shouldStop none 3 = false := by
  intro skipped r
  refine ⟨?_, by decide +kernel⟩
  have first : Handled default ⟨[default], skipped.marks⟩ [(.edit (.skip "Foo.sol" 3), .done)] :=
    .call .made List.mem_cons_self (.edit (.skip "Foo.sol" 3))
  exact first.call List.mem_cons_self (.edit (.add "Foo.sol" 3))

end SourceStepper.Registry
