import SourceStepper.Disassembly
import SourceStepper.PcIndex
import SourceStepper.Proofs.Text.Hex
import SourceStepper.Proofs.Text.Utf8

namespace SourceStepper

open Text (hexByte hexChars hexCode hexDigit utf8)

namespace Groups

theorem lossy_hexCode {n : Nat} (small : n < 16) (bytes : List UInt8) :
    Text.lossy (hexCode n :: bytes) = hexDigit n :: Text.lossy bytes := by
  rw [← Text.lossy_encode, Text.utf8_hexDigit n small, List.singleton_append]

theorem pieces_hexChars (bytes : List UInt8) :
    pieces (utf8 (hexChars bytes)) = bytes.map hexByte := by
  induction bytes with
  | nil => rfl
  | cons b bytes ih =>
    rw [Text.utf8_hexChars_cons, pieces, ih, lossy_hexCode (Text.high_digit b),
      lossy_hexCode (Text.low_digit b), Text.lossy]
    rfl

/-- Digits do not start with a sign. -/
theorem pieceByte?_hexByte (b : UInt8) : pieceByte? (hexByte b) = some b := by
  have unsigned : ∀ n, n < 16 → hexDigit n ≠ '+' := by decide
  have high := Text.hexValue?_hexDigit _ (Text.high_digit b)
  have low := Text.hexValue?_hexDigit _ (Text.low_digit b)
  have value : readHex? (hexByte b) = some (b.toNat / 16 * 16 + b.toNat % 16) := by
    simp [readHex?, hexByte, high, low]
  unfold pieceByte?
  split
  · next first => exact absurd (List.cons.inj first).1 (unsigned _ (Text.high_digit b))
  · rw [value, Option.map_some, Text.byte_of_digits]

theorem width_hexByte (b : UInt8) : width (hexByte b) - 1 = Opcode.immediateSize b := by
  rw [width, pieceByte?_hexByte, Nat.add_sub_cancel_left]

theorem add_waiting (last : List Char) (earlier : List (List Char)) (remaining : Nat)
    (pieces : List (List Char)) :
    (pieces.foldl Cut.add ⟨last :: earlier, remaining⟩).groups =
      ((pieces.drop remaining).foldl Cut.add ⟨(last ++ (pieces.take remaining).flatten) :: earlier,
        0⟩).groups := by
  induction pieces generalizing last remaining with
  | nil => simp
  | cons piece pieces ih =>
    cases remaining with
    | zero => simp
    | succ remaining =>
      rw [List.foldl_cons, Cut.add, ih, List.take_succ_cons, List.flatten_cons, List.drop_succ_cons,
        List.append_assoc]

theorem add_fresh (groups : List (List Char)) (piece : List Char) :
    Cut.add ⟨groups, 0⟩ piece = ⟨piece :: groups, width piece - 1⟩ := by
  cases groups <;> rfl

theorem cut_hexByte (pc : Nat) (bytes : List UInt8) (groups : List (List Char)) :
    ((bytes.map hexByte).foldl Cut.add ⟨groups, 0⟩).groups =
      ((disassembleFrom pc bytes).map fun i => hexChars i.bytes).reverse ++ groups := by
  induction pc, bytes using disassembleFrom.induct generalizing groups with
  | case1 pc => simp [disassembleFrom]
  | case2 pc opcode rest data ih =>
    have whole : hexByte opcode ++ ((rest.map hexByte).take (Opcode.immediateSize opcode)).flatten =
        hexChars (opcode :: data) := by
      rw [← List.map_take]
      rfl
    rw [List.map_cons, List.foldl_cons, add_fresh, width_hexByte, add_waiting, ← List.map_drop, ih,
      disassembleFrom, List.map_cons, List.reverse_cons, List.append_assoc, whole]
    rfl

theorem group_hexByte (bytes : List UInt8) :
    group (bytes.map hexByte) = (disassembleFrom 0 bytes).map fun i => hexChars i.bytes := by
  rw [group, cut_hexByte 0, List.append_nil, List.reverse_reverse]

end Groups

/-- Hexadecimal text is cut at the instructions of its bytes. -/
theorem Groups.ofHex_hexChars (bytes : List UInt8) :
    ofHex (hexChars bytes) = (disassembleFrom 0 bytes).map fun i => hexChars i.bytes := by
  rw [ofHex, Text.dropHexMark_hexChars, pieces_hexChars, group_hexByte]

/-- The two views of a bytecode agree: the groups of its text, with `0x` or without, are
its instructions. -/
theorem Groups.groups_are_instructions (bytes : List UInt8) :
    (ofHex (Text.hex bytes).toList).map String.ofList =
        (Disassembly.ofBytes bytes).instructions.map (fun i => Text.hex i.bytes) ∧
      (ofHex ("0x" ++ Text.hex bytes).toList).map String.ofList =
        (Disassembly.ofBytes bytes).instructions.map fun i => Text.hex i.bytes := by
  have plain : (ofHex (hexChars bytes)).map String.ofList =
      (Disassembly.ofBytes bytes).instructions.map fun i => Text.hex i.bytes := by
    rw [ofHex_hexChars, List.map_map]
    rfl
  have marked : ofHex ('0' :: 'x' :: hexChars bytes) = ofHex (hexChars bytes) := by
    rw [ofHex, ofHex, Text.dropHexMark_hexChars]
    rfl
  have digits : (Text.hex bytes).toList = hexChars bytes := String.toList_ofList
  constructor
  · rw [digits, plain]
  · rw [String.toList_append, digits]
    exact (congrArg _ marked).trans plain

theorem PcIndex.groupWidth_bytes (i : Instruction) : groupWidth (hexChars i.bytes) = i.size := by
  rw [groupWidth, Text.length_utf8_hexChars, Nat.mul_div_cancel_left _ (by decide)]
  simp [Instruction.bytes, Instruction.size, Nat.add_comm]

end SourceStepper
