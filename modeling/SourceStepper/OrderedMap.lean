/-!
Finite maps that list their entries by increasing key. A map is determined by what it holds under
each key (`ext_get?`), and every change of it is a change under one key (`get?_alter`).
-/
namespace SourceStepper

class KeyOrder (κ : Type) [LT κ] : Prop where
  irrefl (a : κ) : ¬ a < a
  trans {a b c : κ} : a < b → b < c → a < c
  connected {a b : κ} : ¬ a < b → a ≠ b → b < a

instance : KeyOrder Nat where
  irrefl := Nat.lt_irrefl
  trans := Nat.lt_trans
  connected := by intro a b; omega

instance : KeyOrder String where
  irrefl := String.lt_irrefl
  trans := String.lt_trans
  connected h hne := Std.lt_of_le_of_ne (Std.not_lt.mp h) hne.symm

instance {α : Type} [LT α] [KeyOrder α] : KeyOrder (List α) where
  irrefl l := by
    induction l with
    | nil => exact List.not_lt_nil _
    | cons a l ih =>
      rw [List.cons_lt_cons_iff]
      rintro (h | ⟨_, h⟩)
      · exact KeyOrder.irrefl a h
      · exact ih h
  trans {a b c} := by
    induction a generalizing b c with
    | nil =>
      intro h h'
      cases c with
      | nil => exact absurd h' (List.not_lt_nil _)
      | cons => exact List.nil_lt_cons ..
    | cons x xs ih =>
      intro h h'
      cases b with
      | nil => exact absurd h (List.not_lt_nil _)
      | cons y ys =>
        cases c with
        | nil => exact absurd h' (List.not_lt_nil _)
        | cons z zs =>
          rw [List.cons_lt_cons_iff] at *
          rcases h with h | ⟨rfl, h⟩ <;> rcases h' with h' | ⟨rfl, h'⟩
          · exact .inl (KeyOrder.trans h h')
          · exact .inl h
          · exact .inl h'
          · exact .inr ⟨rfl, ih h h'⟩
  connected {a b} := by
    induction a generalizing b with
    | nil =>
      intro h ne
      cases b with
      | nil => exact absurd rfl ne
      | cons => exact absurd (List.nil_lt_cons ..) h
    | cons x xs ih =>
      intro h ne
      cases b with
      | nil => exact List.nil_lt_cons ..
      | cons y ys =>
        rw [List.cons_lt_cons_iff] at *
        by_cases hxy : x = y
        · subst hxy
          exact .inr ⟨rfl, ih (fun lt => h (.inr ⟨rfl, lt⟩)) (fun eq => ne (eq ▸ rfl))⟩
        · exact .inl (KeyOrder.connected (fun lt => h (.inl lt)) hxy)

/-- A finite map with its entries in the order of their keys. -/
@[ext] structure OrderedMap (κ α : Type) [LT κ] where
  entries : List (κ × α)
  increasing : entries.Pairwise fun a b => a.1 < b.1

namespace OrderedMap

variable {κ α : Type} [LT κ]

instance [DecidableEq κ] [DecidableEq α] : DecidableEq (OrderedMap κ α) := fun a b =>
  decidable_of_iff (a.entries = b.entries) (by rw [OrderedMap.ext_iff])

instance [Repr κ] [Repr α] : Repr (OrderedMap κ α) := ⟨fun m n => reprPrec m.entries n⟩

def empty : OrderedMap κ α := ⟨[], .nil⟩

instance : Inhabited (OrderedMap κ α) := ⟨empty⟩

def keys (m : OrderedMap κ α) : List κ := m.entries.map Prod.fst

def values (m : OrderedMap κ α) : List α := m.entries.map Prod.snd

def isEmpty (m : OrderedMap κ α) : Bool := m.entries.isEmpty

def size (m : OrderedMap κ α) : Nat := m.entries.length

def put (key : κ) : Option α → List (κ × α) → List (κ × α)
  | some value, rest => (key, value) :: rest
  | none, rest => rest

omit [LT κ] in
theorem key_of_mem_put {key : κ} {value : Option α} {rest : List (κ × α)} {x : κ × α}
    (h : x ∈ put key value rest) : x.1 = key ∨ x ∈ rest := by
  cases value with
  | none => exact .inr h
  | some a => simp only [put, List.mem_cons] at h; rcases h with rfl | h <;> simp_all

theorem increasing_put {key : κ} {value : Option α} {rest : List (κ × α)}
    (h : rest.Pairwise fun a b => a.1 < b.1) (below : ∀ x ∈ rest, key < x.1) :
    (put key value rest).Pairwise fun a b => a.1 < b.1 := by
  cases value with
  | none => exact h
  | some a => exact List.pairwise_cons.2 ⟨below, h⟩

variable [DecidableLT κ] [DecidableEq κ]

def get? (m : OrderedMap κ α) (key : κ) : Option α :=
  (m.entries.find? (·.1 = key)).map Prod.snd

def contains (m : OrderedMap κ α) (key : κ) : Bool := (m.get? key).isSome

/-- Entries after `f` has been applied to what they hold under a key, or do not hold. -/
def alterEntries (key : κ) (f : Option α → Option α) : List (κ × α) → List (κ × α)
  | [] => put key (f none) []
  | (k, a) :: rest =>
    if key < k then put key (f none) ((k, a) :: rest)
    else if key = k then put key (f (some a)) rest
    else (k, a) :: alterEntries key f rest

theorem key_of_mem_alterEntries {key : κ} {f : Option α → Option α} {l : List (κ × α)} {x : κ × α}
    (h : x ∈ alterEntries key f l) : x.1 = key ∨ x ∈ l := by
  induction l with
  | nil => exact key_of_mem_put h
  | cons e rest ih =>
    obtain ⟨k, a⟩ := e
    rw [alterEntries] at h
    split at h
    · exact key_of_mem_put h
    · split at h
      · exact (key_of_mem_put h).imp_right (List.mem_cons_of_mem _)
      · rcases List.mem_cons.1 h with rfl | h
        · simp
        · exact (ih h).imp_right (List.mem_cons_of_mem _)

variable [KeyOrder κ]

theorem increasing_alterEntries (key : κ) (f : Option α → Option α) {l : List (κ × α)}
    (h : l.Pairwise fun a b => a.1 < b.1) :
    (alterEntries key f l).Pairwise fun a b => a.1 < b.1 := by
  induction l with
  | nil => exact increasing_put .nil (by simp)
  | cons e rest ih =>
    obtain ⟨k, a⟩ := e
    have ⟨first, tail⟩ := List.pairwise_cons.1 h
    rw [alterEntries]
    split
    · rename_i lt
      refine increasing_put h fun x hx => ?_
      rcases List.mem_cons.1 hx with rfl | hx
      · exact lt
      · exact KeyOrder.trans lt (first x hx)
    · split
      · rename_i eq; subst eq; exact increasing_put tail first
      · rename_i ge ne
        refine List.pairwise_cons.2 ⟨fun x hx => ?_, ih tail⟩
        rcases key_of_mem_alterEntries hx with hx | hx
        · exact hx ▸ KeyOrder.connected ge ne
        · exact first x hx

/-- The map after `f` has been applied to the value under a key, or to its absence. -/
def alter (m : OrderedMap κ α) (key : κ) (f : Option α → Option α) : OrderedMap κ α :=
  ⟨alterEntries key f m.entries, increasing_alterEntries key f m.increasing⟩

def insert (m : OrderedMap κ α) (key : κ) (value : α) : OrderedMap κ α :=
  m.alter key fun _ => some value

def erase (m : OrderedMap κ α) (key : κ) : OrderedMap κ α := m.alter key fun _ => none

/-- The map of a list of entries; of several entries under one key the last counts. -/
def ofList (entries : List (κ × α)) : OrderedMap κ α :=
  entries.foldl (fun m (key, value) => m.insert key value) empty

omit [LT κ] [DecidableLT κ] [KeyOrder κ] in
theorem find?_put {key k : κ} {value : Option α} {rest : List (κ × α)}
    (absent : ∀ x ∈ rest, x.1 ≠ key) :
    ((put key value rest).find? (·.1 = k)).map Prod.snd =
      if k = key then value else (rest.find? (·.1 = k)).map Prod.snd := by
  have none_find : rest.find? (·.1 = key) = none := by simpa using absent
  by_cases hk : k = key
  · subst hk
    cases value with
    | none => simp [put, none_find]
    | some a => simp [put]
  · rw [if_neg hk]
    cases value with
    | none => rfl
    | some a => simp [put, Ne.symm hk]

theorem find?_alterEntries {key : κ} {f : Option α → Option α} (k : κ) {l : List (κ × α)}
    (h : l.Pairwise fun a b => a.1 < b.1) :
    ((alterEntries key f l).find? (·.1 = k)).map Prod.snd =
      if k = key then f ((l.find? (·.1 = key)).map Prod.snd)
      else (l.find? (·.1 = k)).map Prod.snd := by
  induction l with
  | nil => exact find?_put (by simp)
  | cons e rest ih =>
    have first := (List.pairwise_cons.1 h).1
    have tail := (List.pairwise_cons.1 h).2
    rw [alterEntries]
    split
    · rename_i lt
      have above : ∀ x ∈ e :: rest, x.1 ≠ key := by
        intro x hx eq
        rcases List.mem_cons.1 hx with rfl | hx
        · exact KeyOrder.irrefl key (by simpa [eq] using lt)
        · exact KeyOrder.irrefl key (by simpa [eq] using KeyOrder.trans lt (first x hx))
      have absent : (e :: rest).find? (·.1 = key) = none := by simpa using above
      rw [find?_put above, absent]
      rfl
    · split
      · rename_i eq
        subst eq
        rw [find?_put fun x hx he => KeyOrder.irrefl e.1 (by simpa [he] using first x hx)]
        by_cases hk : k = e.1 <;> simp [hk, Ne.symm]
      · rename_i ne
        by_cases hk : e.1 = k
        · subst hk; simp [Ne.symm ne]
        · simp [hk, Ne.symm ne, ih tail]

theorem get?_alter (m : OrderedMap κ α) (key : κ) (f : Option α → Option α) (k : κ) :
    (m.alter key f).get? k = if k = key then f (m.get? key) else m.get? k :=
  find?_alterEntries k m.increasing

theorem get?_insert (m : OrderedMap κ α) (key : κ) (value : α) (k : κ) :
    (m.insert key value).get? k = if k = key then some value else m.get? k :=
  get?_alter ..

theorem get?_erase (m : OrderedMap κ α) (key k : κ) :
    (m.erase key).get? k = if k = key then none else m.get? k :=
  get?_alter ..

omit [DecidableLT κ] [KeyOrder κ] in
theorem contains_of_get? {m : OrderedMap κ α} {key : κ} {value : α}
    (held : m.get? key = some value) :
    m.contains key = true := by
  rw [contains, held]
  rfl

omit [DecidableLT κ] [KeyOrder κ] in
@[simp] theorem contains_empty (k : κ) : (empty : OrderedMap κ α).contains k = false := rfl

theorem contains_insert (m : OrderedMap κ α) (key : κ) (value : α) (k : κ) :
    (m.insert key value).contains k = true ↔ k = key ∨ m.contains k = true := by
  rw [contains, get?_insert, contains]
  by_cases here : k = key <;> simp [here]

theorem contains_erase (m : OrderedMap κ α) (key k : κ) :
    (m.erase key).contains k = true ↔ k ≠ key ∧ m.contains k = true := by
  rw [contains, get?_erase, contains]
  by_cases here : k = key <;> simp [here]

theorem get?_foldl_insert (entries : List (κ × α)) (m : OrderedMap κ α) (k : κ) :
    (entries.foldl (fun m (key, value) => m.insert key value) m).get? k =
      ((entries.reverse.find? (·.1 = k)).map Prod.snd).or (m.get? k) := by
  induction entries generalizing m with
  | nil => rfl
  | cons e rest ih =>
    rw [List.foldl_cons, ih, get?_insert, List.reverse_cons, List.find?_append]
    by_cases here : k = e.1 <;> cases rest.reverse.find? (·.1 = k) <;> simp [here, Ne.symm]

theorem get?_ofList (entries : List (κ × α)) (k : κ) :
    (ofList entries).get? k = (entries.reverse.find? (·.1 = k)).map Prod.snd :=
  (get?_foldl_insert entries empty k).trans (Option.or_none ..)

theorem get?_ofList_of_mem_iff {entries : List (κ × α)} {value : κ → Option α}
    (h : ∀ k a, (k, a) ∈ entries ↔ value k = some a) (k : κ) :
    (ofList entries).get? k = value k := by
  rw [get?_ofList]
  cases found : entries.reverse.find? (·.1 = k) with
  | some e =>
    have here : e.1 = k := by simpa using List.find?_some found
    have held := List.mem_reverse.mp (List.mem_of_find?_eq_some found)
    rw [← here, (h e.1 e.2).mp held]
    rfl
  | none =>
    cases absent : value k with
    | none => rfl
    | some a =>
      have held := List.mem_reverse.mpr ((h k a).mpr absent)
      simpa using List.find?_eq_none.mp found _ held

omit [DecidableLT κ] in
theorem mem_entries_iff {m : OrderedMap κ α} {key : κ} {value : α} :
    (key, value) ∈ m.entries ↔ m.get? key = some value := by
  obtain ⟨l, h⟩ := m
  simp only [get?]
  induction l with
  | nil => simp
  | cons e rest ih =>
    obtain ⟨a, v⟩ := e
    have ⟨first, tail⟩ := List.pairwise_cons.1 h
    have := ih tail
    have fresh : ∀ w, (a, w) ∉ rest := fun w hw => KeyOrder.irrefl a (first _ hw)
    by_cases hk : a = key <;> grind

omit [DecidableLT κ] in
theorem mem_keys_iff {m : OrderedMap κ α} {key : κ} : key ∈ m.keys ↔ m.contains key = true := by
  rw [keys, List.mem_map, contains, Option.isSome_iff_exists]
  constructor
  · rintro ⟨⟨k, value⟩, held, rfl⟩
    exact ⟨value, mem_entries_iff.mp held⟩
  · rintro ⟨value, held⟩
    exact ⟨(key, value), mem_entries_iff.mpr held, rfl⟩

omit [DecidableLT κ] [DecidableEq κ] in
theorem eq_of_mem_iff {l l' : List (κ × α)} (h : l.Pairwise fun a b => a.1 < b.1)
    (h' : l'.Pairwise fun a b => a.1 < b.1) (same : ∀ x, x ∈ l ↔ x ∈ l') : l = l' := by
  induction l generalizing l' with
  | nil =>
    cases l' with
    | nil => rfl
    | cons b _ => exact absurd ((same b).2 (by simp)) (by simp)
  | cons a rest ih =>
    have ⟨first, tail⟩ := List.pairwise_cons.1 h
    cases l' with
    | nil => exact absurd ((same a).1 (by simp)) (by simp)
    | cons b rest' =>
      have ⟨first', tail'⟩ := List.pairwise_cons.1 h'
      have eq : a = b := by
        rcases List.mem_cons.1 ((same a).1 (by simp)) with ha | ha
        · exact ha
        · rcases List.mem_cons.1 ((same b).2 (by simp)) with hb | hb
          · exact hb.symm
          · exact absurd (KeyOrder.trans (first b hb) (first' a ha)) (KeyOrder.irrefl _)
      subst eq
      refine congrArg (a :: ·) (ih tail tail' fun x => ⟨fun hx => ?_, fun hx => ?_⟩)
      · rcases List.mem_cons.1 ((same x).1 (List.mem_cons_of_mem _ hx)) with rfl | hx'
        · exact absurd (first x hx) (KeyOrder.irrefl _)
        · exact hx'
      · rcases List.mem_cons.1 ((same x).2 (List.mem_cons_of_mem _ hx)) with rfl | hx'
        · exact absurd (first' x hx) (KeyOrder.irrefl _)
        · exact hx'

omit [DecidableLT κ] in
theorem ext_get? {m n : OrderedMap κ α} (h : ∀ key, m.get? key = n.get? key) : m = n :=
  OrderedMap.ext (eq_of_mem_iff m.increasing n.increasing fun (key, value) => by
    rw [mem_entries_iff, mem_entries_iff, h key])

end OrderedMap

end SourceStepper
