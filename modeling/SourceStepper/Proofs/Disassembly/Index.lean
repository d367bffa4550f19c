import SourceStepper.Proofs.Disassembly.Groups

namespace SourceStepper

open SourceMap (Element)
open Text (hexChars)

theorem pc_le_of_mem_disassembleFrom {pc : Nat} {bytes : List UInt8} {i : Instruction}
    (h : i ∈ disassembleFrom pc bytes) : pc ≤ i.pc := by
  induction pc, bytes using disassembleFrom.induct with
  | case1 pc => simp [disassembleFrom] at h
  | case2 pc opcode rest data ih =>
    rw [disassembleFrom] at h
    rcases List.mem_cons.mp h with rfl | h
    · exact Nat.le_refl _
    · have := ih h
      omega

namespace PcIndex

theorem lookup_buildFrom (start : Nat) (bytes : List UInt8) (elements : List Element)
    (pc : Nat) (e : Element) :
    (buildFrom start elements
        ((disassembleFrom start bytes).map fun i => hexChars i.bytes)).lookup pc = some e ↔
      ∃ (k : Nat) (i : Instruction),
        (disassembleFrom start bytes)[k]? = some i ∧ i.pc = pc ∧ elements[k]? = some e := by
  induction start, bytes using disassembleFrom.induct generalizing elements with
  | case1 start => cases elements <;> simp [disassembleFrom, buildFrom]
  | case2 start opcode rest data ih =>
    cases elements with
    | nil => simp [buildFrom]
    | cons first elements =>
      rw [disassembleFrom, List.map_cons, buildFrom, groupWidth_bytes, Instruction.size,
        ← Nat.add_assoc, List.lookup_cons]
      by_cases here : pc = start
      · subst here
        simp only [beq_self_eq_true]
        constructor
        · intro same
          exact ⟨0, _, rfl, rfl, same⟩
        · rintro ⟨k, i, found, starts, same⟩
          cases k with
          | zero => exact same
          | succ k =>
            -- The instructions behind the first one start behind its opcode.
            have := pc_le_of_mem_disassembleFrom (List.mem_of_getElem? found)
            omega
      · have elsewhere : (pc == start) = false := by simpa using here
        simp only [elsewhere]
        rw [ih elements]
        constructor
        · rintro ⟨k, i, found, starts, same⟩
          exact ⟨k + 1, i, found, starts, same⟩
        · rintro ⟨k, i, found, starts, same⟩
          cases k with
          | zero =>
            cases Option.some.inj found
            exact absurd starts.symm here
          | succ k => exact ⟨k, i, found, starts, same⟩

theorem lookup_build (elements : List Element) (bytes : List UInt8) (pc : Nat) (e : Element) :
    (build elements (Groups.ofHex (hexChars bytes))).lookup pc = some e ↔
      ∃ (k : Nat) (i : Instruction),
        (disassembleFrom 0 bytes)[k]? = some i ∧ i.pc = pc ∧ elements[k]? = some e := by
  rw [build, lookup, Groups.ofHex_hexChars]
  exact lookup_buildFrom 0 bytes elements pc e

end PcIndex

end SourceStepper
