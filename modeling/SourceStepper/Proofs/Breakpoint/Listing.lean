import Mathlib.Data.List.Sort
import Mathlib.Data.List.TakeWhile
import SourceStepper.Proofs.Breakpoint.Paths
import SourceStepper.Proofs.Text.Blank

/-!
Whether a breakpoint can be removed under the path that a listing shows for it. That path is
normalized again, and is found exactly if nothing is left in it for normalization to take away.
-/
namespace SourceStepper

namespace PathNormalizer

variable {n : PathNormalizer} {cs front : List Char}

theorem dropHere_sublist (cs : List Char) : (dropHere cs).Sublist cs := by
  fun_induction dropHere cs with
  | case1 rest ih => exact (ih.cons _).cons _
  | case2 cs => exact List.Sublist.refl cs

theorem dropHere_eq_self_iff : dropHere cs = cs ↔ ¬ ['.', '/'] <+: cs := by
  constructor
  · rintro kept ⟨rest, rfl⟩
    have shorter := (dropHere_sublist rest).length_le
    have same := congrArg List.length kept
    rw [show dropHere (['.', '/'] ++ rest) = dropHere rest from rfl] at same
    simp only [List.length_append, List.length_cons, List.length_nil] at same
    omega
  · exact dropHere_eq_self

/-- The root occurs in a path behind `front`, and nowhere earlier. -/
def FirstRootAt (n : PathNormalizer) (path front : List Char) : Prop :=
  n.RootAt path front ∧ ∀ earlier, n.RootAt path earlier → front.length ≤ earlier.length

theorem FirstRootAt.cut (first : n.FirstRootAt cs front) :
    ∃ back, Text.cutAt? n.sourceRoot cs = some (front, back) := by
  obtain ⟨⟨back, occurs⟩, first⟩ := first
  exact ⟨back, Text.cutAt?_eq_some.mpr
    ⟨occurs, fun earlier rest again => first earlier ⟨rest, again⟩⟩⟩

theorem dropRoot_cases (n : PathNormalizer) (cs : List Char) :
    n.dropRoot cs = cs ∧ (n.sourceRoot ≠ [] → ∀ front, n.FirstRootAt cs front →
      ¬ StartsName front) ∨
      ∃ front back, n.sourceRoot ≠ [] ∧ n.FirstRootAt cs front ∧ StartsName front ∧
        cs = front ++ (n.sourceRoot ++ back) ∧ n.dropRoot cs = back := by
  by_cases rooted : n.sourceRoot = []
  · exact .inl ⟨by simp [dropRoot, rooted], fun other => absurd rooted other⟩
  · cases found : Text.cutAt? n.sourceRoot cs with
    | none =>
      refine .inl ⟨by simp [dropRoot, found], fun _ front first => ?_⟩
      obtain ⟨back, cut⟩ := first.cut
      rw [found] at cut
      contradiction
    | some parts =>
      obtain ⟨front, back⟩ := parts
      obtain ⟨occurs, first⟩ := Text.cutAt?_eq_some.mp found
      by_cases starts : StartsName front
      · have here : n.FirstRootAt cs front := by
          refine ⟨⟨back, occurs⟩, ?_⟩
          rintro earlier ⟨rest, again⟩
          exact first earlier rest again
        exact .inr ⟨front, back, rooted, here, starts, occurs,
          dropRoot_of_startsName rooted found starts⟩
      · refine .inl ⟨dropRoot_of_within found starts, fun _ front' first' starts' => ?_⟩
        obtain ⟨back', cut⟩ := first'.cut
        obtain ⟨rfl, -⟩ : front = front' ∧ back = back' := by simpa [found] using cut
        exact starts starts'

theorem dropRoot_sublist (n : PathNormalizer) (cs : List Char) : (n.dropRoot cs).Sublist cs := by
  rcases n.dropRoot_cases cs with ⟨kept, -⟩ | ⟨front, back, -, -, -, rfl, dropped⟩
  · rw [kept]
  · rw [dropped, ← List.append_assoc]
    exact List.sublist_append_right ..

theorem dropRoot_eq_self_iff :
    n.dropRoot cs = cs ↔
      (n.sourceRoot ≠ [] → ∀ front, n.FirstRootAt cs front → ¬ StartsName front) := by
  rcases n.dropRoot_cases cs with ⟨kept, within⟩ |
    ⟨front, back, rooted, first, starts, occurs, dropped⟩
  · exact ⟨fun _ => within, fun _ => kept⟩
  · constructor
    · intro kept
      have same := congrArg List.length (kept.symm.trans dropped)
      have positive := List.length_pos_iff.mpr rooted
      rw [occurs, List.length_append, List.length_append] at same
      omega
    · exact fun within => absurd starts (within rooted front first)

theorem dropSuffix_sublist (n : PathNormalizer) (cs : List Char) :
    (n.dropSuffix cs).Sublist cs := by
  by_cases ends : n.suffix <:+ cs
  · obtain ⟨rest, rfl⟩ := ends
    rw [dropSuffix_append]
    exact List.sublist_append_left ..
  · rw [dropSuffix_eq_self ends]

theorem dropSuffix_eq_self_iff : n.dropSuffix cs = cs ↔ (n.suffix ≠ [] → ¬ n.suffix <:+ cs) := by
  constructor
  · rintro kept suffixed ⟨rest, rfl⟩
    rw [dropSuffix_append] at kept
    exact suffixed (List.self_eq_append_right.mp kept)
  · intro other
    by_cases suffixed : n.suffix = []
    · have kept := dropSuffix_append (n := n) cs
      rwa [suffixed, List.append_nil] at kept
    · exact dropSuffix_eq_self (other suffixed)

/-- A path in which normalization finds nothing to take away or to write in another way. -/
structure Settled (n : PathNormalizer) (cs : List Char) : Prop where
  plain : Plain cs
  root : n.sourceRoot ≠ [] → ∀ front, n.FirstRootAt cs front → ¬ StartsName front
  suffix : n.suffix ≠ [] → ¬ n.suffix <:+ cs

theorem withSlashes_no_backslash (cs : List Char) : '\\' ∉ withSlashes cs := by
  simp only [withSlashes, List.mem_map, not_exists, not_and]
  intro c _
  split
  · decide
  · assumption

theorem normalize_no_backslash (n : PathNormalizer) (path : String) :
    '\\' ∉ (n.normalize path).toList := by
  rw [normalize, String.toList_ofList]
  have shorter := ((n.dropSuffix_sublist _).trans (n.dropRoot_sublist _)).trans
    (dropHere_sublist (withSlashes (Text.trim path.toList)))
  exact fun among => withSlashes_no_backslash _ (shorter.subset among)

/-- Whatever one stage leaves is part of what the stage before leaves, so that nothing is gone in
the end only if no stage has taken anything. -/
theorem normalize_eq_self_iff {path : String} : n.normalize path = path ↔
    n.Settled path.toList := by
  constructor
  · intro kept
    have slashes : '\\' ∉ path.toList := kept ▸ n.normalize_no_backslash path
    have trimmed := Text.trim_sublist path.toList
    have same : withSlashes (Text.trim path.toList) = Text.trim path.toList :=
      withSlashes_eq_self fun among => slashes (trimmed.subset among)
    have here := dropHere_sublist (Text.trim path.toList)
    have rootless := n.dropRoot_sublist (dropHere (Text.trim path.toList))
    have bare := n.dropSuffix_sublist (n.dropRoot (dropHere (Text.trim path.toList)))
    have whole := congrArg String.toList kept
    rw [normalize, String.toList_ofList, same] at whole
    rw [whole] at bare
    have first : Text.trim path.toList = path.toList :=
      trimmed.antisymm ((bare.trans rootless).trans here)
    rw [first] at here rootless bare whole
    have second : dropHere path.toList = path.toList := here.antisymm (bare.trans rootless)
    rw [second] at rootless bare whole
    have third : n.dropRoot path.toList = path.toList := rootless.antisymm bare
    rw [third] at whole
    obtain ⟨front, back⟩ := Text.trim_eq_self_iff.mp first
    exact ⟨⟨slashes, front, back, dropHere_eq_self_iff.mp second⟩, dropRoot_eq_self_iff.mp third,
      dropSuffix_eq_self_iff.mp whole⟩
  · intro settled
    have plain := settled.plain.normalize n
    rwa [String.ofList_toList, dropRoot_eq_self_iff.mpr settled.root,
      dropSuffix_eq_self_iff.mpr settled.suffix, String.ofList_toList] at plain

instance (n : PathNormalizer) (cs : List Char) : Decidable (n.Settled cs) :=
  decidable_of_iff (n.normalize (String.ofList cs) = String.ofList cs)
    (by rw [normalize_eq_self_iff, String.toList_ofList])

end PathNormalizer

namespace Registry

/-- A breakpoint is found under the path that it is listed with, and removing it there takes it and
no other one from the list. -/
def Addressable (r : Registry) (b : Breakpoint) : Prop :=
  r.has b.path b.line = true ∧ (r.remove b.path b.line).1 = true ∧
    (r.remove b.path b.line).2.all = r.all.erase b

theorem mem_all {r : Registry} {b : Breakpoint} : b ∈ r.all ↔ b ∈ r.marks.sets.set :=
  List.mem_toFinset.symm

theorem breakpoint_asymm {a b : Breakpoint} (lt : a < b) : ¬ b < a := by
  rcases lt with lt | ⟨same, lt⟩ <;> rintro (lt' | ⟨same', lt'⟩)
  · exact String.lt_irrefl _ (String.lt_trans lt lt')
  · exact String.lt_irrefl _ (same' ▸ lt)
  · exact String.lt_irrefl _ (same ▸ lt')
  · exact Nat.lt_asymm lt lt'

theorem all_nodup (r : Registry) : r.all.Nodup := by
  refine r.marks.breakpoints.all_increasing.imp fun {a b} lt same => ?_
  rw [← same] at lt
  exact breakpoint_asymm lt lt

theorem mem_all_remove (r : Registry) (path : String) (line : Nat) (b : Breakpoint) :
    b ∈ (r.remove path line).2.all ↔ b ≠ ⟨r.normalizer.normalize path, line⟩ ∧ b ∈ r.all := by
  rw [mem_all, sets_remove, mem_all]
  exact Finset.mem_erase

theorem addressable_iff {r : Registry} {b : Breakpoint} (listed : b ∈ r.all) :
    r.Addressable b ↔ r.normalizer.normalize b.path = b.path := by
  constructor
  · rintro ⟨-, -, rest⟩
    have gone : b ∉ (r.remove b.path b.line).2.all := by
      rw [rest]
      exact r.all_nodup.not_mem_erase
    rw [mem_all_remove] at gone
    have same : b = ⟨r.normalizer.normalize b.path, b.line⟩ := by
      by_contra other
      exact gone ⟨other, listed⟩
    exact (congrArg Breakpoint.path same).symm
  · intro kept
    have here : r.has b.path b.line = true := by
      rw [has_eq, kept]
      exact decide_eq_true (mem_all.mp listed)
    have asymm : Std.Asymm fun a b : Breakpoint => a < b := ⟨fun _ _ => breakpoint_asymm⟩
    have same : ∀ a, a ∈ (r.remove b.path b.line).2.all ↔ a ∈ r.all.erase b := by
      intro a
      rw [mem_all_remove, kept, r.all_nodup.mem_erase_iff]
    exact ⟨here, here, (LinesByFile.all_increasing _).eq_of_mem_iff
      (r.marks.breakpoints.all_increasing.sublist List.erase_sublist) same⟩

/-- Whether a call sets a breakpoint under a path with the normal form that the breakpoint shows. -/
def SetBy (n : PathNormalizer) (b : Breakpoint) (c : Call) : Prop :=
  ∃ path, n.normalize path = b.path ∧
    (c = .edit (.add path b.line) ∨ c = .edit (.toggle path b.line))

theorem setBy_of_mem_after {n : PathNormalizer} {s : Sets} {c : Call} {b : Breakpoint}
    (held : b ∈ (s.after n c).set) : b ∈ s.set ∨ SetBy n b c := by
  cases c with
  | edit e =>
    cases e with
    | add path line =>
      rcases Finset.mem_insert.mp held with rfl | held
      · exact .inr ⟨path, rfl, .inl rfl⟩
      · exact .inl held
    | remove path line => exact .inl (Finset.mem_of_mem_erase held)
    | toggle path line =>
      rw [Sets.after, Sets.toggle] at held
      split at held
      · exact .inl (Finset.mem_of_mem_erase held)
      · rcases Finset.mem_insert.mp held with rfl | held
        · exact .inr ⟨path, rfl, .inr rfl⟩
        · exact .inl held
    | skip path line => exact .inl held
    | unskip path line => exact .inl held
    | clear => exact absurd held (Finset.notMem_empty b)
  | has path line => exact .inl held
  | shouldStop path line => exact .inl held
  | count => exact .inl held
  | all => exact .inl held

theorem setBy_of_mem_behind {n : PathNormalizer} {log : List (Call × Answer)} {b : Breakpoint}
    (held : b ∈ (Sets.behind n log).set) : ∃ entry ∈ log, SetBy n b entry.1 := by
  induction log with
  | nil => exact absurd held (Finset.notMem_empty b)
  | cons entry log ih =>
    rcases setBy_of_mem_after held with held | set
    · obtain ⟨earlier, called, set⟩ := ih held
      exact ⟨earlier, .tail _ called, set⟩
    · exact ⟨entry, List.mem_cons_self, set⟩

/-- Whatever has been done through the handles of a registry, an entry of its list shows the normal
form of a path that it has been set with. It can be addressed as it is listed exactly if this path
has no blanks at its ends, no `./` in front, no source root at the first place where its name occurs
and no suffix. -/
theorem listed_addressable_iff {n : PathNormalizer} {h : Handles} {log : List (Call × Answer)}
    (handled : Handled n h log) {b : Breakpoint} (listed : b ∈ (Registry.mk n h.marks).all) :
    (∃ entry ∈ log, SetBy n b entry.1) ∧
      ((Registry.mk n h.marks).Addressable b ↔ n.normalize b.path = b.path) ∧
      ((Registry.mk n h.marks).Addressable b ↔ n.Settled b.path.toList) := by
  have addressable := addressable_iff listed
  have held := mem_all.mp listed
  rw [handled.sets] at held
  exact ⟨setBy_of_mem_behind held, addressable,
    addressable.trans PathNormalizer.normalize_eq_self_iff⟩

theorem listed_name_addressable :
    let path := "./src/main/solidity/token/Token.sol"
    let r := ((Registry.mk default {}).add path 7).2
    let log := [(Call.edit (.add path 7), Answer.flag true)]
    Handled default ⟨[default], r.marks⟩ log ∧ r.all = [⟨"token/Token", 7⟩] ∧
      PathNormalizer.Settled default "token/Token".toList ∧ r.Addressable ⟨"token/Token", 7⟩ := by
  intro path r log
  have handled : Handled default ⟨[default], r.marks⟩ log :=
    .call .made List.mem_cons_self (.edit (.add path 7))
  have all : r.all = [⟨"token/Token", 7⟩] := by decide +kernel
  have listed : ⟨"token/Token", 7⟩ ∈ r.all := by simp [all]
  have settled : PathNormalizer.Settled default "token/Token".toList := by decide +kernel
  exact ⟨handled, all, settled, (listed_addressable_iff handled listed).2.2.mpr settled⟩

/-- The root goes after the `./` in front has gone, and uncovers another one, which the
list shows. -/
theorem listed_path_not_found :
    let path := "src/main/solidity/./Foo.sol"
    let r := ((Registry.mk default {}).add path 3).2
    Handled default ⟨[default], r.marks⟩ [(Call.edit (.add path 3), Answer.flag true)] ∧
      r.all = [⟨"./Foo", 3⟩] ∧ r.has "./Foo" 3 = false ∧ (r.remove "./Foo" 3).1 = false ∧
      (r.remove "./Foo" 3).2.all = [⟨"./Foo", 3⟩] := by
  intro path r
  refine ⟨.call .made List.mem_cons_self (.edit (.add path 3)), ?_⟩
  decide +kernel

end Registry

namespace PathNormalizer

theorem dropRoot_short {root suffix : String} {cs : List Char} (flat : '/' ∉ cs) :
    (ofLayout root suffix).dropRoot cs = cs := by
  rw [dropRoot_eq_self_iff]
  rintro rooted front ⟨⟨back, rfl⟩, -⟩ -
  rcases sourceRoot_startsName root suffix with none | last
  · exact rooted none
  · exact flat (by simp [List.mem_of_getLast? last])

theorem exists_unsettled (root suffix : String) :
    ∃ path, ¬ (ofLayout root suffix).Settled ((ofLayout root suffix).normalize path).toList := by
  generalize made : ofLayout root suffix = n
  have uncovered : ∀ path c, dropHere (withSlashes (Text.trim path.toList)) = [' ', c] → c ≠ '/' →
      (n.suffix ≠ [] → ¬ n.suffix <:+ [' ', c]) → ¬ n.Settled (n.normalize path).toList := by
    intro path c here flat other settled
    have rootless : n.dropRoot [' ', c] = [' ', c] :=
      made ▸ dropRoot_short (by simpa using flat.symm)
    rw [normalize, here, rootless, dropSuffix_eq_self_iff.mpr other,
      String.toList_ofList] at settled
    exact absurd (settled.plain.front ' ' rfl) (by decide)
  -- a suffix can end with one letter only
  by_cases ends : n.suffix <:+ [' ', 'a']
  · refine ⟨"./ b", uncovered "./ b" 'b' (by decide) (by decide) fun suffixed ends' => ?_⟩
    have last : n.suffix.getLast? = some 'a' := by
      obtain ⟨front, same⟩ := ends
      rw [← List.getLast?_append_of_ne_nil front suffixed, same]
      rfl
    have last' : n.suffix.getLast? = some 'b' := by
      obtain ⟨front, same⟩ := ends'
      rw [← List.getLast?_append_of_ne_nil front suffixed, same]
      rfl
    exact absurd (last.symm.trans last') (by decide)
  · exact ⟨"./ a", uncovered "./ a" 'a' (by decide) (by decide) fun _ => ends⟩

end PathNormalizer

end SourceStepper
