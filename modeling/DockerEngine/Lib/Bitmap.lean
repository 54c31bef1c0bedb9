/-
Bit sets kept in bytes, as C and Go code keeps them: bit `j` of a byte array is bit `j % 8` of byte `j / 8`. A bit is
set with `b | 1 << i`, cleared with `b & ^(1 << i)` and tested with `b & (1 << i) != 0`.

- `testBit_or_shiftLeft`, `testBit_and_not_shiftLeft` and `and_shiftLeft_ne_zero` say what the three byte operations
  do to each bit of the byte.
- `bit m j` is bit `j` of the array `m`, and `bit_set` what a write of byte `j / 8` does to the bits.
- `find?_range_succ` is one turn of a search for the first index below a bound that passes a test.
Nothing here is specific to one program.
-/
import Mathlib
import DockerEngine.Lib.Prelude

namespace DockerEngine.Bitmap

/-! ## Bits of a byte -/

theorem testBit_toNat_eq_getLsbD (b : UInt8) (k : ℕ) : b.toNat.testBit k = b.toBitVec.getLsbD k := by
  rw [← UInt8.toNat_toBitVec, BitVec.testBit_toNat]

/-- the mask `1 << i` of a byte, for `i < 8` -/
theorem toNat_one_shiftLeft {i : ℕ} (hi : i < 8) : ((1 : UInt8) <<< i.toUInt8).toNat = 2 ^ i := by
  have hi' : (i.toUInt8).toNat = i := by
    simp only [Nat.toUInt8_eq, UInt8.toNat_ofNat']
    omega
  have hp : 2 ^ i < 2 ^ 8 := Nat.pow_lt_pow_right (by decide) hi
  rw [UInt8.toNat_shiftLeft, hi', Nat.mod_eq_of_lt hi, UInt8.toNat_one, Nat.one_shiftLeft, Nat.mod_eq_of_lt hp]

theorem getLsbD_one_shiftLeft {i : ℕ} (hi : i < 8) (k : ℕ) :
    ((1 : UInt8) <<< i.toUInt8).toBitVec.getLsbD k = decide (k = i) := by
  rw [← testBit_toNat_eq_getLsbD, toNat_one_shiftLeft hi, Nat.testBit_two_pow]
  exact decide_eq_decide.mpr eq_comm

/-- `b | 1 << i` sets bit `i` and no other -/
theorem testBit_or_shiftLeft (b : UInt8) {i : ℕ} (hi : i < 8) (k : ℕ) :
    (b ||| 1 <<< i.toUInt8).toNat.testBit k = (b.toNat.testBit k || decide (k = i)) := by
  simp only [testBit_toNat_eq_getLsbD, UInt8.toBitVec_or, BitVec.getLsbD_or, getLsbD_one_shiftLeft hi]

/-- `b & ^(1 << i)` clears bit `i` and no other -/
theorem testBit_and_not_shiftLeft (b : UInt8) {i : ℕ} (hi : i < 8) (k : ℕ) :
    (b &&& ~~~(1 <<< i.toUInt8)).toNat.testBit k = (b.toNat.testBit k && decide (k ≠ i)) := by
  simp only [testBit_toNat_eq_getLsbD, UInt8.toBitVec_and, UInt8.toBitVec_not, BitVec.getLsbD_and,
    BitVec.getLsbD_not, getLsbD_one_shiftLeft hi]
  -- past the eighth bit both sides are false, since a byte has no bit there
  by_cases hk : k < 8
  · simp [hk]
  · simp [hk, BitVec.getLsbD_of_ge b.toBitVec k (by omega)]

/-- `b & (1 << i) != 0` tests bit `i` -/
theorem and_shiftLeft_ne_zero (b : UInt8) {i : ℕ} (hi : i < 8) :
    (b &&& 1 <<< i.toUInt8) ≠ 0 ↔ b.toNat.testBit i := by
  rw [ne_eq, ← UInt8.toNat_inj, UInt8.toNat_and, toNat_one_shiftLeft hi, UInt8.toNat_zero, Nat.and_two_pow]
  cases b.toNat.testBit i <;> simp

/-! ## Bits of a byte array -/

variable {n : ℕ}

/-- bit `j` of the byte array `m`: bit `j % 8` of byte `j / 8`, and false past the end -/
def bit (m : Vector UInt8 n) (j : ℕ) : Bool :=
  if h : j / 8 < n then m[j / 8].toNat.testBit (j % 8) else false

theorem bit_eq (m : Vector UInt8 n) {i j : ℕ} (hj : j / 8 = i) (hi : i < n) :
    bit m j = m[i].toNat.testBit (j % 8) := by
  subst hj
  exact dif_pos hi

/-- two bits in the same place of the same byte are one bit -/
theorem eq_of_div_mod {j k : ℕ} (hd : j / 8 = k / 8) (hm : j % 8 = k % 8) : j = k := by
  omega

/-- a write of byte `i` changes the bits of that byte only -/
theorem bit_set (m : Vector UInt8 n) {i : ℕ} (hi : i < n) (b : UInt8) (j : ℕ) :
    bit (m.set i b hi) j = if j / 8 = i then b.toNat.testBit (j % 8) else bit m j := by
  by_cases hj : j / 8 < n
  · rw [bit_eq _ rfl hj, bit_eq _ rfl hj, Vector.getElem_set]
    by_cases hji : j / 8 = i
    · rw [if_pos hji.symm, if_pos hji]
    · rw [if_neg (Ne.symm hji), if_neg hji]
  · have hji : j / 8 ≠ i := by omega
    rw [if_neg hji]
    simp [bit, hj]

/-! ## The first index that passes a test -/

/-- one turn of the search: index `0`, or the search of the rest shifted by one -/
theorem find?_range_succ (p : ℕ → Bool) (r : ℕ) :
    (List.range (r + 1)).find? p = if p 0 then some 0 else ((List.range r).find? fun k => p (k + 1)).map (· + 1) := by
  rw [List.range_succ_eq_map, List.find?_cons, List.find?_map]
  cases p 0 <;> rfl

end DockerEngine.Bitmap
