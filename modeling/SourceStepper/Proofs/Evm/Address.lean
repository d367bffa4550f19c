import Mathlib.Algebra.Ring.Nat
import SourceStepper.Evm.Address
import SourceStepper.Proofs.Text.Hex

namespace SourceStepper.Evm

theorem bytesOfNat_succ (count n : Nat) :
    bytesOfNat (count + 1) n = bytesOfNat count (n / 256) ++ [UInt8.ofNat n] := by
  rw [bytesOfNat, List.range_succ, List.map_append, List.map_singleton, bytesOfNat]
  congr 1
  · refine List.map_congr_left fun i within => ?_
    have shift : 8 * (count + 1 - 1 - i) = 8 + 8 * (count - 1 - i) := by
      have := List.mem_range.mp within
      omega
    rw [shift, Nat.shiftRight_add, Nat.shiftRight_eq_div_pow n]
  · simp

theorem natOfBytes_bytesOfNat (count n : Nat) :
    natOfBytes (bytesOfNat count n) = n % 256 ^ count := by
  induction count generalizing n with
  | zero => rw [Nat.pow_zero, Nat.mod_one]; rfl
  | succ count ih =>
    rw [bytesOfNat_succ, natOfBytes, List.foldl_append, ← natOfBytes, ih]
    have parts : n % (256 * 256 ^ count) = n % 256 + 256 * (n / 256 % 256 ^ count) := Nat.mod_mul
    simp only [List.foldl_cons, List.foldl_nil, UInt8.toNat_ofNat', Nat.pow_succ', parts]
    omega

theorem length_bytesOfNat (count n : Nat) : (bytesOfNat count n).length = count := by
  simp [bytesOfNat]

namespace Address

theorem ofBytes_bytes (a : Address) : ofBytes a.bytes = a := by
  have small := a.isLt
  have fits : a.toNat < 256 ^ 20 := by simpa using small
  rw [ofBytes, bytes, natOfBytes_bytesOfNat, Nat.mod_eq_of_lt fits, BitVec.ofNat_toNat,
    BitVec.setWidth_eq]

theorem ofText?_plainText (a : Address) : ofText? a.plainText.toList = some a := by
  have text : a.plainText.toList = '0' :: 'x' :: Text.hexChars a.bytes := by
    simp [plainText, Text.hex]
  have digits : (Text.hexChars a.bytes).length = 40 := by
    rw [Text.length_hexChars, bytes, length_bytesOfNat]
  rw [text, ofText?]
  simp only [digits, if_true, Text.unhex?, Text.unhex_hexChars]
  exact congrArg some a.ofBytes_bytes

end Address

end SourceStepper.Evm
