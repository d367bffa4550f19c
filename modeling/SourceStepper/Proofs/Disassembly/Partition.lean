import Mathlib.Tactic.Common
import SourceStepper.Disassembly

namespace SourceStepper

def Instruction.Covers (i : Instruction) (pc : Nat) : Prop := i.pc ≤ pc ∧ pc < i.pc + i.size

/-- Instructions that follow each other without a gap, from one program counter up to another. -/
inductive Tiles : Nat → List Instruction → Nat → Prop
  | nil (stop : Nat) : Tiles stop [] stop
  | cons {i : Instruction} {rest : List Instruction} {stop : Nat}
    (later : Tiles (i.pc + i.size) rest stop) : Tiles i.pc (i :: rest) stop

theorem tiles_disassembleFrom (pc : Nat) (bytes : List UInt8) :
    Tiles pc (disassembleFrom pc bytes) (pc + bytes.length) := by
  induction pc, bytes using disassembleFrom.induct with
  | case1 pc =>
    rw [disassembleFrom]
    exact .nil pc
  | case2 pc opcode rest data ih =>
    have whole : pc + 1 + data.length + (rest.drop (Opcode.immediateSize opcode)).length =
        pc + (opcode :: rest).length := by
      simp only [data, List.length_take, List.length_drop, List.length_cons]
      omega
    rw [whole, Nat.add_assoc pc] at ih
    rw [disassembleFrom, Nat.add_assoc pc]
    exact .cons (i := ⟨pc, opcode, data⟩) ih

theorem bytes_disassembleFrom (pc : Nat) (bytes : List UInt8) :
    (disassembleFrom pc bytes).flatMap Instruction.bytes = bytes := by
  induction pc, bytes using disassembleFrom.induct with
  | case1 pc => rw [disassembleFrom]; rfl
  | case2 pc opcode rest data ih =>
    rw [disassembleFrom, List.flatMap_cons, ih, Instruction.bytes, List.cons_append,
      List.take_append_drop]

namespace Tiles

variable {start stop : Nat} {is : List Instruction} {i j : Instruction}

theorem nothing (tiles : Tiles start [] stop) : start = stop := by
  cases tiles
  rfl

theorem start_le (tiles : Tiles start is stop) : start ≤ stop := by
  induction tiles with
  | nil => exact Nat.le_refl _
  | cons _ ih => omega

theorem bounds (tiles : Tiles start is stop) (within : i ∈ is) :
    start ≤ i.pc ∧ i.pc + i.size ≤ stop := by
  induction tiles with
  | nil => cases within
  | cons later ih =>
    rcases List.mem_cons.mp within with rfl | within
    · exact ⟨Nat.le_refl _, later.start_le⟩
    · have := ih within
      omega

theorem apart (tiles : Tiles start is stop) : is.Pairwise fun i j => i.pc + i.size ≤ j.pc := by
  induction tiles with
  | nil => exact .nil
  | cons later ih => exact .cons (fun j within => (later.bounds within).1) ih

theorem increasing (tiles : Tiles start is stop) : is.Pairwise fun i j => i.pc < j.pc :=
  tiles.apart.imp fun apart => by
    simp only [Instruction.size] at apart
    omega

theorem first (tiles : Tiles start is stop) (head : i ∈ is.head?) : i.pc = start := by
  cases tiles with
  | nil => cases head
  | cons => cases head; rfl

theorem next (tiles : Tiles start is stop) {k : Nat} (this : is[k]? = some i)
    (follows : is[k + 1]? = some j) :
    j.pc = i.pc + i.size := by
  induction tiles generalizing k with
  | nil => cases this
  | cons later ih =>
    cases k with
    | zero =>
      cases this
      exact later.first (by rw [List.head?_eq_getElem?]; exact follows)
    | succ k => exact ih this follows

theorem last (tiles : Tiles start is stop) (back : i ∈ is.getLast?) : i.pc + i.size = stop := by
  induction tiles with
  | nil => cases back
  | @cons first rest stop later ih =>
    cases rest with
    | nil =>
      cases back
      exact later.nothing
    | cons => exact ih (by simpa using back)

theorem exists_covers (tiles : Tiles start is stop) {pc : Nat} (low : start ≤ pc)
    (high : pc < stop) :
    ∃ i ∈ is, i.Covers pc := by
  induction tiles with
  | nil => omega
  | @cons first rest stop later ih =>
    by_cases here : pc < first.pc + first.size
    · exact ⟨first, List.mem_cons_self .., low, here⟩
    · obtain ⟨i, within, covers⟩ := ih (by omega) high
      exact ⟨i, List.mem_cons_of_mem _ within, covers⟩

end Tiles

namespace Disassembly

variable {d : Disassembly} {pc low high place : Nat} {within : high ≤ d.instructions.length}

theorem searchBetween_found (found : d.searchBetween pc low high within = .found place) :
    ∃ i, d.instructions[place]? = some i ∧ i.pc = pc := by
  fun_induction d.searchBetween pc low high within with
  | case1 low high within order middle bound start here =>
    obtain rfl := Search.found.inj found
    exact ⟨_, List.getElem?_eq_getElem bound, here⟩
  | case2 low high within order middle bound start notHere below ih => exact ih found
  | case3 low high within order middle bound start notHere below ih => exact ih found
  | case4 => cases found

theorem pc_lt (increasing : d.instructions.Pairwise fun i j => i.pc < j.pc) {k m : Nat}
    {i j : Instruction} (lt : k < m) (first : d.instructions[k]? = some i)
    (second : d.instructions[m]? = some j) : i.pc < j.pc := by
  obtain ⟨inFirst, rfl⟩ := List.getElem?_eq_some_iff.mp first
  obtain ⟨inSecond, rfl⟩ := List.getElem?_eq_some_iff.mp second
  exact List.pairwise_iff_getElem.mp increasing k m inFirst inSecond lt

structure Divides (d : Disassembly) (pc place : Nat) : Prop where
  within : place ≤ d.instructions.length
  before : ∀ k i, k < place → d.instructions[k]? = some i → i.pc < pc
  behind : ∀ k i, place ≤ k → d.instructions[k]? = some i → pc < i.pc

theorem searchBetween_missing (increasing : d.instructions.Pairwise fun i j => i.pc < j.pc)
    (before : ∀ k i, k < low → d.instructions[k]? = some i → i.pc < pc)
    (behind : ∀ k i, high ≤ k → d.instructions[k]? = some i → pc < i.pc) (order : low ≤ high)
    (missing : d.searchBetween pc low high within = .missing place) : d.Divides pc place := by
  fun_induction d.searchBetween pc low high within with
  | case1 => cases missing
  | case2 low high within order middle bound start notHere below ih =>
    have middle_held : d.instructions[middle]? = some d.instructions[middle] :=
      List.getElem?_eq_getElem bound
    refine ih (fun k i ahead held => ?_) behind (by omega) missing
    rcases Nat.lt_succ_iff_lt_or_eq.mp ahead with lt | rfl
    · exact Nat.lt_trans (pc_lt increasing lt held middle_held) below
    · cases held.symm.trans middle_held
      exact below
  | case3 low high within order middle bound start notHere notBelow ih =>
    have middle_held : d.instructions[middle]? = some d.instructions[middle] :=
      List.getElem?_eq_getElem bound
    have above : pc < d.instructions[middle].pc := by omega
    refine ih before (fun k i ahead held => ?_) (by omega) missing
    rcases Nat.lt_or_eq_of_le ahead with lt | rfl
    · exact Nat.lt_trans above (pc_lt increasing lt middle_held held)
    · cases held.symm.trans middle_held
      exact above
  | case4 low high within empty =>
    have same : high = low := by omega
    subst same
    obtain rfl := Search.missing.inj missing
    exact ⟨within, before, behind⟩

theorem search_missing (increasing : d.instructions.Pairwise fun i j => i.pc < j.pc)
    (missing : d.search pc = .missing place) : d.Divides pc place := by
  refine searchBetween_missing increasing ?_ ?_ (Nat.zero_le _) missing
  · intro k i ahead
    exact absurd ahead (Nat.not_lt_zero k)
  · intro k i behind held
    rw [List.getElem?_eq_none behind] at held
    cases held

theorem at?_eq_some_iff (increasing : d.instructions.Pairwise fun i j => i.pc < j.pc)
    {i : Instruction} :
    d.at? pc = some i ↔ i ∈ d.instructions ∧ i.pc = pc := by
  unfold at?
  split
  · next place found =>
    obtain ⟨j, held, here⟩ := searchBetween_found found
    rw [held, Option.some_inj]
    constructor
    · rintro rfl
      exact ⟨List.mem_of_getElem? held, here⟩
    · rintro ⟨listed, same⟩
      obtain ⟨k, held'⟩ := List.mem_iff_getElem?.mp listed
      rcases Nat.lt_trichotomy place k with lt | rfl | lt
      · have := pc_lt increasing lt held held'
        omega
      · exact Option.some.inj (held.symm.trans held')
      · have := pc_lt increasing lt held' held
        omega
  · next place missing =>
    have divides := search_missing increasing missing
    simp only [reduceCtorEq, false_iff, not_and]
    intro listed same
    obtain ⟨k, held⟩ := List.mem_iff_getElem?.mp listed
    rcases Nat.lt_or_ge k place with lt | ge
    · exact absurd same (Nat.ne_of_lt (divides.before k i lt held))
    · exact absurd same.symm (Nat.ne_of_lt (divides.behind k i ge held))

/-- The last instruction that starts at a program counter or in front of it is the only one that can
cover it. -/
theorem covers_iff_last {start stop : Nat} (tiles : Tiles start d.instructions stop)
    {i : Instruction} (held : d.instructions[place]? = some i) (low : i.pc ≤ pc)
    (later : ∀ k j, place < k → d.instructions[k]? = some j → pc < j.pc) (j : Instruction) :
    (some i).filter (fun i => pc < i.pc + i.size) = some j ↔ j ∈ d.instructions ∧ j.Covers pc := by
  rw [Option.filter_eq_some_iff, Option.some_inj, decide_eq_true_eq]
  constructor
  · rintro ⟨rfl, high⟩
    exact ⟨List.mem_of_getElem? held, low, high⟩
  · rintro ⟨listed, starts, high⟩
    obtain ⟨k, held'⟩ := List.mem_iff_getElem?.mp listed
    rcases Nat.lt_trichotomy place k with lt | rfl | lt
    · exact absurd starts (Nat.not_le_of_lt (later k j lt held'))
    · exact ⟨Option.some.inj (held.symm.trans held'), high⟩
    · obtain ⟨inFirst, rfl⟩ := List.getElem?_eq_some_iff.mp held'
      obtain ⟨inSecond, rfl⟩ := List.getElem?_eq_some_iff.mp held
      have := List.pairwise_iff_getElem.mp tiles.apart k place inFirst inSecond lt
      omega

theorem containing?_eq_some_iff {start stop : Nat} (tiles : Tiles start d.instructions stop)
    {j : Instruction} :
    d.containing? pc = some j ↔ j ∈ d.instructions ∧ j.Covers pc := by
  unfold containing?
  split
  · next place found =>
    obtain ⟨i, held, here⟩ := searchBetween_found found
    simp only [Option.bind_some, held]
    refine covers_iff_last tiles held (Nat.le_of_eq here) (fun k j lt held' => ?_) j
    exact here ▸ pc_lt tiles.increasing lt held held'
  · next missing =>
    have divides := search_missing tiles.increasing missing
    simp only [Option.bind_none, Option.filter_none, reduceCtorEq, false_iff, not_and]
    rintro listed ⟨low, -⟩
    obtain ⟨k, held⟩ := List.mem_iff_getElem?.mp listed
    exact absurd low (Nat.not_le_of_lt (divides.behind k j (Nat.zero_le k) held))
  · next previous missing =>
    have divides := search_missing tiles.increasing missing
    have held :=
      List.getElem?_eq_getElem (show previous < d.instructions.length from divides.within)
    simp only [Option.bind_some, held]
    refine covers_iff_last tiles held (Nat.le_of_lt ?_) (fun k j lt held' => ?_) j
    · exact divides.before previous _ (Nat.lt_succ_self _) held
    · exact divides.behind k j lt held'

theorem containing?_eq_none_iff {stop : Nat} (tiles : Tiles 0 d.instructions stop) :
    d.containing? pc = none ↔ stop ≤ pc := by
  constructor
  · intro nothing
    refine Nat.le_of_not_lt fun within => ?_
    obtain ⟨i, listed, covers⟩ := tiles.exists_covers (Nat.zero_le pc) within
    have found := (containing?_eq_some_iff tiles).mpr ⟨listed, covers⟩
    rw [nothing] at found
    cases found
  · intro beyond
    cases found : d.containing? pc with
    | none => rfl
    | some i =>
      obtain ⟨listed, -, high⟩ := (containing?_eq_some_iff tiles).mp found
      have := (tiles.bounds listed).2
      omega

theorem existsUnique_covers {stop : Nat} (tiles : Tiles 0 d.instructions stop)
    (within : pc < stop) :
    ∃! i, i ∈ d.instructions ∧ i.Covers pc := by
  obtain ⟨i, listed, covers⟩ := tiles.exists_covers (Nat.zero_le pc) within
  refine ⟨i, ⟨listed, covers⟩, fun j other => ?_⟩
  have found := (containing?_eq_some_iff tiles).mpr ⟨listed, covers⟩
  exact Option.some.inj (((containing?_eq_some_iff tiles).mpr other).symm.trans found)

/-- Instructions that cut bytes into pieces, of which each starts where the one in front of
it ends. -/
structure Partitions (is : List Instruction) (bytes : List UInt8) : Prop where
  first : ∀ i ∈ is.head?, i.pc = 0
  next : ∀ (k : Nat) (i j : Instruction), is[k]? = some i → is[k + 1]? = some j →
    j.pc = i.pc + i.size
  increasing : is.Pairwise fun i j => i.pc < j.pc
  last : ∀ i ∈ is.getLast?, i.pc + i.size = bytes.length
  whole : is.flatMap Instruction.bytes = bytes

theorem disassembly_exact (bytes : List UInt8) :
    Partitions (ofBytes bytes).instructions bytes ∧
      (∀ pc, pc < bytes.length → ∃! i, i ∈ (ofBytes bytes).instructions ∧ i.Covers pc) ∧
      (∀ pc i, (ofBytes bytes).containing? pc = some i ↔
        i ∈ (ofBytes bytes).instructions ∧ i.Covers pc) ∧
      (∀ pc, (ofBytes bytes).containing? pc = none ↔ bytes.length ≤ pc) ∧
      ∀ pc i, (ofBytes bytes).at? pc = some i ↔ i ∈ (ofBytes bytes).instructions ∧ i.pc = pc := by
  have tiles : Tiles 0 (ofBytes bytes).instructions bytes.length := by
    have tiles := tiles_disassembleFrom 0 bytes
    rwa [Nat.zero_add] at tiles
  refine ⟨⟨fun i => tiles.first, fun k i j => tiles.next, tiles.increasing, fun i => tiles.last,
    bytes_disassembleFrom 0 bytes⟩, ?_, ?_, ?_, ?_⟩
  · exact fun pc within => existsUnique_covers tiles within
  · exact fun pc i => containing?_eq_some_iff tiles
  · exact fun pc => containing?_eq_none_iff tiles
  · exact fun pc i => at?_eq_some_iff tiles.increasing

end Disassembly

end SourceStepper
