/-
Byte strings as Go handles them: slices are lists, `copy(dst, src)` overwrites a prefix of `dst`, and
`encoding/binary.BigEndian` reads and writes fixed-width unsigned integers.

- `lit s` is the bytes of a literal of ASCII.
- `copy dst src` is the new contents of `dst`; `writeAt buf i d` is `copy(buf[i:], d)` seen from `buf`.
- `beEncode w n` is the `w`-byte big-endian encoding of `n mod 256^w` (`PutUint32` at `w = 4`) and `beDecode`
  reads a byte string back (`Uint32` at `w = 4`): `beDecode_beEncode`.
Nothing here is specific to one program.
-/
import Mathlib
import DockerEngine.Lib.Prelude

namespace DockerEngine.Bytes

variable {α : Type}

/-- the bytes of a string literal of ASCII -/
def lit (s : String) : List UInt8 := s.toList.map Char.toUInt8

/-! ## `copy` -/

/-- Go's `copy(dst, src)`: the first `min(len(dst), len(src))` elements of `dst` are replaced by `src`'s -/
def copy (dst src : List α) : List α := src.take dst.length ++ dst.drop src.length

@[simp] theorem copy_length (dst src : List α) : (copy dst src).length = dst.length := by
  simp only [copy, List.length_append, List.length_take, List.length_drop]
  omega

theorem copy_of_le {dst src : List α} (h : src.length ≤ dst.length) : copy dst src = src ++ dst.drop src.length := by
  simp [copy, List.take_of_length_le h]

/-- the first `k` elements after a `copy` that moves at least `k` of them -/
theorem take_copy {dst src : List α} {k : ℕ} (hk : k ≤ src.length) (hd : k ≤ dst.length) :
    (copy dst src).take k = src.take k := by
  simp only [copy, List.take_append, List.take_take, List.length_take]
  rw [show k - min dst.length src.length = 0 by omega, List.take_zero, List.append_nil]
  congr 1
  omega

/-- `copy(buf[i:], d)`: the contents of `buf` after `d` is written at offset `i` -/
def writeAt (buf : List α) (i : ℕ) (d : List α) : List α := buf.take i ++ copy (buf.drop i) d

@[simp] theorem writeAt_length {buf : List α} {i : ℕ} (d : List α) (h : i ≤ buf.length) :
    (writeAt buf i d).length = buf.length := by
  simp only [writeAt, List.length_append, List.length_take, copy_length, List.length_drop]
  omega

/-- what a write at offset `i` leaves in front of offset `i + len(d)` -/
theorem take_writeAt {buf d : List α} {i : ℕ} (h : i + d.length ≤ buf.length) :
    (writeAt buf i d).take (i + d.length) = buf.take i ++ d := by
  have hi : (buf.take i).length = i := by simp; omega
  rw [writeAt, List.take_append, hi, List.take_of_length_le (by omega), Nat.add_sub_cancel_left,
    take_copy le_rfl (by simp; omega), List.take_length]

/-! ## Big-endian integers -/

/-- `w` bytes, most significant first, of `n mod 256^w` -/
def beEncode : ℕ → ℕ → List UInt8
  | 0, _ => []
  | w + 1, n => beEncode w (n / 256) ++ [UInt8.ofNat n]

/-- a byte string read as a big-endian natural number -/
def beDecode (bs : List UInt8) : ℕ := bs.foldl (fun acc b => acc * 256 + b.toNat) 0

@[simp] theorem beEncode_length (w n : ℕ) : (beEncode w n).length = w := by
  induction w generalizing n with
  | zero => rfl
  | succ w ih => simp [beEncode, ih]

theorem beDecode_append_singleton (bs : List UInt8) (b : UInt8) :
    beDecode (bs ++ [b]) = beDecode bs * 256 + b.toNat := by
  simp [beDecode, List.foldl_append]

/-- decoding undoes encoding, up to the width: the round trip behind `PutUint32`/`Uint32` -/
theorem beDecode_beEncode (w n : ℕ) : beDecode (beEncode w n) = n % 256 ^ w := by
  induction w generalizing n with
  | zero => simp [beEncode, beDecode, Nat.mod_one]
  | succ w ih =>
    have hb : (UInt8.ofNat n).toNat = n % 256 := by simp
    rw [beEncode, beDecode_append_singleton, ih, hb, pow_succ', Nat.mod_mul]
    ring

theorem beDecode_lt (bs : List UInt8) : beDecode bs < 256 ^ bs.length := by
  induction bs using List.reverseRecOn with
  | nil => simp [beDecode]
  | append_singleton bs b ih =>
    rw [beDecode_append_singleton, List.length_append, List.length_singleton, pow_succ]
    have := b.toNat_lt
    nlinarith

end DockerEngine.Bytes
