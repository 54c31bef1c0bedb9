/-
Lean model of Go's `unicode/utf8` as Go 1.5 has it: `DecodeRune` reads the rune at the start of a byte slice and
`EncodeRune` writes one, and `string(r)` for a rune `r` is the bytes `EncodeRune` writes.

Go strings are byte slices here, `List UInt8`, and runes are natural numbers: every rune the modelled code makes is
non-negative. A byte read as a rune (`rune(s[i])`) is a code point below 256, so `string(rune(b))` is one byte only when
`b` is ASCII and two bytes otherwise (`encodeRune_of_lt_runeSelf`, `encodeRune_latin1`).
-/
import Mathlib
import DockerEngine.Lib.Prelude

namespace DockerEngine.Go.Utf8

/-- `utf8.RuneError`, U+FFFD -/
def runeError : ℕ := 0xFFFD

/-- `utf8.RuneSelf`: runes below it are one byte -/
def runeSelf : ℕ := 0x80

/-- `utf8.MaxRune` -/
def maxRune : ℕ := 0x10FFFF

/-! ## Decoding -/

/-- the low `k` bits of a byte, as `b & mask` for the masks of `utf8.go` -/
def low (b : UInt8) (k : ℕ) : ℕ := b.toNat % 2 ^ k

/-- whether `b` is a continuation byte, `tx <= b < t2` -/
def isCont (b : UInt8) : Bool := 0x80 ≤ b ∧ b < 0xC0

/-- `utf8.DecodeRune(p)` (`decodeRuneInternal` of Go 1.5): the rune at the start of `p` and its length in bytes; an
invalid or short sequence gives `(RuneError, 1)`, and an empty `p` gives `(RuneError, 0)` -/
def decodeRune : List UInt8 → ℕ × ℕ
  | [] => (runeError, 0)
  | c0 :: p =>
    if c0 < 0x80 then (c0.toNat, 1)
    -- an unexpected continuation byte
    else if c0 < 0xC0 then (runeError, 1)
    else
      match p with
      | [] => (runeError, 1)
      | c1 :: p =>
        if !isCont c1 then (runeError, 1)
        else if c0 < 0xE0 then
          let r := low c0 5 * 2 ^ 6 + low c1 6
          if r ≤ 0x7F then (runeError, 1) else (r, 2)
        else
          match p with
          | [] => (runeError, 1)
          | c2 :: p =>
            if !isCont c2 then (runeError, 1)
            else if c0 < 0xF0 then
              let r := low c0 4 * 2 ^ 12 + low c1 6 * 2 ^ 6 + low c2 6
              if r ≤ 0x7FF then (runeError, 1)
              -- a surrogate half
              else if 0xD800 ≤ r ∧ r ≤ 0xDFFF then (runeError, 1)
              else (r, 3)
            else
              match p with
              | [] => (runeError, 1)
              | c3 :: _ =>
                if !isCont c3 then (runeError, 1)
                else if c0 < 0xF8 then
                  let r := low c0 3 * 2 ^ 18 + low c1 6 * 2 ^ 12 + low c2 6 * 2 ^ 6 + low c3 6
                  if r ≤ 0xFFFF ∨ maxRune < r then (runeError, 1) else (r, 4)
                else (runeError, 1)

@[simp] theorem decodeRune_nil : decodeRune [] = (runeError, 0) := rfl

theorem decodeRune_of_lt {b : UInt8} (h : b < 0x80) (p : List UInt8) : decodeRune (b :: p) = (b.toNat, 1) := by
  simp [decodeRune, h]

/-- a non-empty slice always gives a rune of one to four of its bytes, which is what lets a loop over `DecodeRune`
move on -/
theorem decodeRune_size (b : UInt8) (p : List UInt8) :
    1 ≤ (decodeRune (b :: p)).2 ∧ (decodeRune (b :: p)).2 ≤ (b :: p).length := by
  -- one case per number of bytes present, as far as the decoder looks
  rcases p with _ | ⟨c1, _ | ⟨c2, _ | ⟨c3, p⟩⟩⟩ <;> simp only [decodeRune] <;> split_ifs <;> simp

theorem isCont_iff {b : UInt8} : isCont b ↔ 0x80 ≤ b.toNat ∧ b.toNat < 0xC0 := by
  simp [isCont, UInt8.lt_iff_toNat_lt, UInt8.le_iff_toNat_le]

/-- a well-formed two-byte sequence -/
theorem decodeRune_two {c0 c1 : UInt8} (h0 : 0xC0 ≤ c0.toNat ∧ c0.toNat < 0xE0) (h1 : isCont c1)
    (hr : 0x7F < low c0 5 * 2 ^ 6 + low c1 6) (p : List UInt8) :
    decodeRune (c0 :: c1 :: p) = (low c0 5 * 2 ^ 6 + low c1 6, 2) := by
  simp (disch := omega) only [decodeRune, UInt8.lt_iff_toNat_lt, UInt8.reduceToNat, h1, Bool.not_true,
    Bool.false_eq_true, if_false, if_pos, if_neg]

/-- a well-formed three-byte sequence -/
theorem decodeRune_three {c0 c1 c2 : UInt8} (h0 : 0xE0 ≤ c0.toNat ∧ c0.toNat < 0xF0) (h1 : isCont c1)
    (h2 : isCont c2) (hr : 0x7FF < low c0 4 * 2 ^ 12 + low c1 6 * 2 ^ 6 + low c2 6)
    (hs : ¬(0xD800 ≤ low c0 4 * 2 ^ 12 + low c1 6 * 2 ^ 6 + low c2 6 ∧
      low c0 4 * 2 ^ 12 + low c1 6 * 2 ^ 6 + low c2 6 ≤ 0xDFFF)) (p : List UInt8) :
    decodeRune (c0 :: c1 :: c2 :: p) = (low c0 4 * 2 ^ 12 + low c1 6 * 2 ^ 6 + low c2 6, 3) := by
  simp (disch := omega) only [decodeRune, UInt8.lt_iff_toNat_lt, UInt8.reduceToNat, h1, h2, Bool.not_true,
    Bool.false_eq_true, if_false, if_pos, if_neg]

/-- a well-formed four-byte sequence -/
theorem decodeRune_four {c0 c1 c2 c3 : UInt8} (h0 : 0xF0 ≤ c0.toNat ∧ c0.toNat < 0xF8) (h1 : isCont c1)
    (h2 : isCont c2) (h3 : isCont c3)
    (hr : 0xFFFF < low c0 3 * 2 ^ 18 + low c1 6 * 2 ^ 12 + low c2 6 * 2 ^ 6 + low c3 6 ∧
      low c0 3 * 2 ^ 18 + low c1 6 * 2 ^ 12 + low c2 6 * 2 ^ 6 + low c3 6 ≤ maxRune) (p : List UInt8) :
    decodeRune (c0 :: c1 :: c2 :: c3 :: p) =
      (low c0 3 * 2 ^ 18 + low c1 6 * 2 ^ 12 + low c2 6 * 2 ^ 6 + low c3 6, 4) := by
  simp (disch := omega) only [decodeRune, UInt8.lt_iff_toNat_lt, UInt8.reduceToNat, h1, h2, h3, Bool.not_true,
    Bool.false_eq_true, if_false, if_pos, if_neg]

/-- the runes of `s` read one after another with `DecodeRune`, as `for range` and `text/scanner` read a string;
`fuel` bounds the runes left to read -/
def runesAux : ℕ → List UInt8 → List ℕ
  | 0, _ => []
  | _ + 1, [] => []
  | fuel + 1, b :: p => (decodeRune (b :: p)).1 :: runesAux fuel ((b :: p).drop (decodeRune (b :: p)).2)

/-- the runes of `s`: each takes at least one byte, so `s.length` turns read them all -/
def runes (s : List UInt8) : List ℕ := runesAux s.length s

/-- past the length of `s` more fuel reads no more runes -/
theorem runesAux_stable : ∀ {n m : ℕ} {s : List UInt8}, s.length ≤ n → s.length ≤ m → runesAux n s = runesAux m s := by
  intro n
  -- on the fuel; each turn drops at least one byte
  induction n with
  | zero => intro m s hn _; rw [List.length_eq_zero_iff.mp (Nat.le_zero.mp hn)]; cases m <;> rfl
  | succ n ih =>
    intro m s hn hm
    rcases s with _ | ⟨b, p⟩
    · cases m <;> rfl
    obtain ⟨m, rfl⟩ : ∃ m', m = m' + 1 := ⟨m - 1, by simp at hm; omega⟩
    have hsize := decodeRune_size b p
    have hdrop : ((b :: p).drop (decodeRune (b :: p)).2).length ≤ p.length := by simp; omega
    simp only [runesAux]
    exact congrArg (List.cons _) (ih (by simp at hn; omega) (by simp at hm; omega))

theorem runes_cons (b : UInt8) (p : List UInt8) :
    runes (b :: p) = (decodeRune (b :: p)).1 :: runes ((b :: p).drop (decodeRune (b :: p)).2) := by
  have hsize := decodeRune_size b p
  rw [runes, List.length_cons, runesAux, runes]
  exact congrArg _ (runesAux_stable (by simp; omega) le_rfl)

/-! ## Encoding -/

/-- the byte `lead ||| (v % 2^k)` for a lead pattern whose low `k` bits are clear -/
def byteOf (lead v k : ℕ) : UInt8 := (lead + v % 2 ^ k).toUInt8

/-- `utf8.EncodeRune(p, r)`: the bytes of `r`; a surrogate half or a rune past `MaxRune` is written as `RuneError` -/
def encodeRune (r : ℕ) : List UInt8 :=
  if r ≤ 0x7F then [r.toUInt8]
  else if r ≤ 0x7FF then [byteOf 0xC0 (r / 2 ^ 6) 5, byteOf 0x80 r 6]
  else
    let r := if maxRune < r ∨ (0xD800 ≤ r ∧ r ≤ 0xDFFF) then runeError else r
    if r ≤ 0xFFFF then [byteOf 0xE0 (r / 2 ^ 12) 4, byteOf 0x80 (r / 2 ^ 6) 6, byteOf 0x80 r 6]
    else [byteOf 0xF0 (r / 2 ^ 18) 3, byteOf 0x80 (r / 2 ^ 12) 6, byteOf 0x80 (r / 2 ^ 6) 6, byteOf 0x80 r 6]

theorem encodeRune_ne_nil (r : ℕ) : encodeRune r ≠ [] := by
  simp only [encodeRune]
  split_ifs <;> simp

/-- an ASCII rune is its own byte -/
theorem encodeRune_of_lt_runeSelf {r : ℕ} (h : r < runeSelf) : encodeRune r = [r.toUInt8] := by
  simp only [runeSelf] at h
  simp [encodeRune, show r ≤ 0x7F by omega]

/-- an ASCII byte read as a rune is written back as itself -/
theorem encodeRune_toNat_of_lt {b : UInt8} (h : b < 0x80) : encodeRune b.toNat = [b] := by
  have hb := UInt8.lt_iff_toNat_lt.mp h
  simp only [UInt8.reduceToNat] at hb
  rw [encodeRune_of_lt_runeSelf (by simp only [runeSelf]; omega)]
  simp

/-- a byte past ASCII, read as a rune, is written as two bytes: `string(rune(b))` is not `b` -/
theorem encodeRune_latin1 {b : UInt8} (h : 0x80 ≤ b) :
    encodeRune b.toNat = [byteOf 0xC0 (b.toNat / 2 ^ 6) 5, byteOf 0x80 b.toNat 6] := by
  have hb : 0x80 ≤ b.toNat := UInt8.le_iff_toNat_le.mp h
  have hlt : b.toNat < 256 := b.toNat_lt
  simp [encodeRune, show ¬b.toNat ≤ 0x7F by omega, show b.toNat ≤ 0x7FF by omega]

theorem toNat_byteOf {lead v k : ℕ} (h : lead + v % 2 ^ k < 256) : (byteOf lead v k).toNat = lead + v % 2 ^ k := by
  simp only [byteOf, Nat.toUInt8_eq, UInt8.toNat_ofNat']
  omega

/-- a continuation byte `0x80 ||| (v % 64)`, and the six bits it carries -/
theorem cont_byteOf (v : ℕ) : isCont (byteOf 0x80 v 6) ∧ low (byteOf 0x80 v 6) 6 = v % 2 ^ 6 := by
  have h := @toNat_byteOf 0x80 v 6 (by omega)
  rw [isCont_iff, low, h]
  omega

/-- past ASCII every byte of a rune has its top bit set, so none of them is an ASCII character -/
theorem runeSelf_le_of_mem_encodeRune {r : ℕ} (hr : runeSelf ≤ r) {b : UInt8} (hb : b ∈ encodeRune r) :
    runeSelf ≤ b.toNat := by
  have hbyte : ∀ lead v k, 0x80 ≤ lead → lead + 2 ^ k ≤ 256 → runeSelf ≤ (byteOf lead v k).toNat := by
    intro lead v k hlead hk
    have hmod := Nat.mod_lt v (Nat.two_pow_pos k)
    rw [toNat_byteOf (by omega), runeSelf]
    omega
  simp only [runeSelf] at hr
  simp only [encodeRune, show ¬r ≤ 0x7F by omega, if_false] at hb
  -- every byte of every length is a lead or a continuation pattern
  split_ifs at hb <;> simp only [List.mem_cons, List.not_mem_nil, or_false] at hb <;>
    rcases hb with rfl | rfl | rfl | rfl <;> exact hbyte _ _ _ (by norm_num) (by norm_num)

@[simp] theorem encodeRune_length_of_latin1 {b : UInt8} (h : 0x80 ≤ b) : (encodeRune b.toNat).length = 2 := by
  simp [encodeRune_latin1 h]

/-! ## Valid UTF-8

A byte string is valid UTF-8 when it is the encodings of Unicode scalar values one after another. `DecodeRune` reads
back every rune `EncodeRune` writes for a scalar value (`decodeRune_encodeRune_append`), so the runes of a valid
string are the values it encodes (`Valid.flatMap_runes`). -/

/-- a Unicode scalar value: a code point up to `MaxRune` that is not a surrogate half -/
def IsScalar (r : ℕ) : Prop := r ≤ maxRune ∧ ¬(0xD800 ≤ r ∧ r ≤ 0xDFFF)

instance : DecidablePred IsScalar := fun _ => inferInstanceAs (Decidable (_ ∧ _))

/-- valid UTF-8 -/
inductive Valid : List UInt8 → Prop
  | nil : Valid []
  | cons {r : ℕ} {s : List UInt8} : IsScalar r → Valid s → Valid (encodeRune r ++ s)

theorem decodeRune_encodeRune_append {r : ℕ} (hr : IsScalar r) (s : List UInt8) :
    decodeRune (encodeRune r ++ s) = (r, (encodeRune r).length) := by
  obtain ⟨hmax, hsur⟩ := hr
  simp only [maxRune] at hmax
  by_cases h1 : r ≤ 0x7F
  · have hb : (r.toUInt8).toNat = r := by simp only [Nat.toUInt8_eq, UInt8.toNat_ofNat']; omega
    rw [encodeRune_of_lt_runeSelf (by simp only [runeSelf]; omega), List.singleton_append,
      decodeRune_of_lt (UInt8.lt_iff_toNat_lt.mpr (by rw [hb]; simp; omega)), hb]
    rfl
  -- one case per length; in each the decoder's bits put back together give `r`
  obtain ⟨hc1, hl1⟩ := cont_byteOf r
  obtain ⟨hc2, hl2⟩ := cont_byteOf (r / 2 ^ 6)
  obtain ⟨hc3, hl3⟩ := cont_byteOf (r / 2 ^ 12)
  by_cases h2 : r ≤ 0x7FF
  · have h0 := @toNat_byteOf 0xC0 (r / 2 ^ 6) 5 (by omega)
    have hr : low (byteOf 0xC0 (r / 2 ^ 6) 5) 5 * 2 ^ 6 + low (byteOf 0x80 r 6) 6 = r := by
      rw [low, h0, hl1]; omega
    simp only [encodeRune, h1, h2, if_false, if_true, List.cons_append, List.nil_append]
    rw [decodeRune_two (by omega) hc1 (by omega), hr]
    rfl
  have hkeep : (if maxRune < r ∨ (0xD800 ≤ r ∧ r ≤ 0xDFFF) then runeError else r) = r :=
    if_neg (by simp only [maxRune]; omega)
  by_cases h3 : r ≤ 0xFFFF
  · have h0 := @toNat_byteOf 0xE0 (r / 2 ^ 12) 4 (by omega)
    have hr : low (byteOf 0xE0 (r / 2 ^ 12) 4) 4 * 2 ^ 12 + low (byteOf 0x80 (r / 2 ^ 6) 6) 6 * 2 ^ 6 +
        low (byteOf 0x80 r 6) 6 = r := by
      rw [low, h0, hl1, hl2]; omega
    simp only [encodeRune, h1, h2, h3, hkeep, if_false, if_true, List.cons_append, List.nil_append]
    rw [decodeRune_three (by omega) hc2 hc1 (by omega) (by omega), hr]
    rfl
  · have h0 := @toNat_byteOf 0xF0 (r / 2 ^ 18) 3 (by omega)
    have hr : low (byteOf 0xF0 (r / 2 ^ 18) 3) 3 * 2 ^ 18 + low (byteOf 0x80 (r / 2 ^ 12) 6) 6 * 2 ^ 12 +
        low (byteOf 0x80 (r / 2 ^ 6) 6) 6 * 2 ^ 6 + low (byteOf 0x80 r 6) 6 = r := by
      rw [low, h0, hl1, hl2, hl3]; omega
    simp only [encodeRune, h1, h2, h3, hkeep, if_false, List.cons_append, List.nil_append]
    rw [decodeRune_four (by omega) hc3 hc2 hc1 (by simp only [maxRune]; omega), hr]
    rfl

/-! The other way round: what `DecodeRune` reads without error is the encoding of a scalar value
(`decodeRune_valid`), one lemma per length putting the bytes back together. -/

theorem encodeRune_two {c0 c1 : UInt8} (h0 : 0xC0 ≤ c0.toNat ∧ c0.toNat < 0xE0) (h1 : isCont c1)
    (hr : 0x7F < low c0 5 * 2 ^ 6 + low c1 6) : encodeRune (low c0 5 * 2 ^ 6 + low c1 6) = [c0, c1] := by
  have hc1 := isCont_iff.mp h1
  simp only [low] at hr ⊢
  set r := c0.toNat % 2 ^ 5 * 2 ^ 6 + c1.toNat % 2 ^ 6 with hr_def
  simp only [encodeRune, show ¬r ≤ 0x7F by omega, show r ≤ 0x7FF by omega, if_false, if_true, List.cons.injEq,
    and_true]
  constructor <;> apply UInt8.toNat_inj.mp <;> rw [toNat_byteOf (by omega)] <;> omega

theorem encodeRune_three {c0 c1 c2 : UInt8} (h0 : 0xE0 ≤ c0.toNat ∧ c0.toNat < 0xF0) (h1 : isCont c1)
    (h2 : isCont c2) (hr : 0x7FF < low c0 4 * 2 ^ 12 + low c1 6 * 2 ^ 6 + low c2 6)
    (hs : ¬(0xD800 ≤ low c0 4 * 2 ^ 12 + low c1 6 * 2 ^ 6 + low c2 6 ∧
      low c0 4 * 2 ^ 12 + low c1 6 * 2 ^ 6 + low c2 6 ≤ 0xDFFF)) :
    encodeRune (low c0 4 * 2 ^ 12 + low c1 6 * 2 ^ 6 + low c2 6) = [c0, c1, c2] := by
  have hc1 := isCont_iff.mp h1
  have hc2 := isCont_iff.mp h2
  simp only [low] at hr hs ⊢
  set r := c0.toNat % 2 ^ 4 * 2 ^ 12 + c1.toNat % 2 ^ 6 * 2 ^ 6 + c2.toNat % 2 ^ 6 with hr_def
  have hkeep : (if maxRune < r ∨ (0xD800 ≤ r ∧ r ≤ 0xDFFF) then runeError else r) = r :=
    if_neg (by simp only [maxRune]; omega)
  simp only [encodeRune, show ¬r ≤ 0x7F by omega, show ¬r ≤ 0x7FF by omega, hkeep, show r ≤ 0xFFFF by omega,
    if_false, if_true, List.cons.injEq, and_true]
  refine ⟨?_, ?_, ?_⟩ <;> apply UInt8.toNat_inj.mp <;> rw [toNat_byteOf (by omega)] <;> omega

theorem encodeRune_four {c0 c1 c2 c3 : UInt8} (h0 : 0xF0 ≤ c0.toNat ∧ c0.toNat < 0xF8) (h1 : isCont c1)
    (h2 : isCont c2) (h3 : isCont c3)
    (hr : 0xFFFF < low c0 3 * 2 ^ 18 + low c1 6 * 2 ^ 12 + low c2 6 * 2 ^ 6 + low c3 6 ∧
      low c0 3 * 2 ^ 18 + low c1 6 * 2 ^ 12 + low c2 6 * 2 ^ 6 + low c3 6 ≤ maxRune) :
    encodeRune (low c0 3 * 2 ^ 18 + low c1 6 * 2 ^ 12 + low c2 6 * 2 ^ 6 + low c3 6) = [c0, c1, c2, c3] := by
  have hc1 := isCont_iff.mp h1
  have hc2 := isCont_iff.mp h2
  have hc3 := isCont_iff.mp h3
  simp only [low, maxRune] at hr ⊢
  set r := c0.toNat % 2 ^ 3 * 2 ^ 18 + c1.toNat % 2 ^ 6 * 2 ^ 12 + c2.toNat % 2 ^ 6 * 2 ^ 6 + c3.toNat % 2 ^ 6
    with hr_def
  have hkeep : (if maxRune < r ∨ (0xD800 ≤ r ∧ r ≤ 0xDFFF) then runeError else r) = r :=
    if_neg (by simp only [maxRune]; omega)
  simp only [encodeRune, show ¬r ≤ 0x7F by omega, show ¬r ≤ 0x7FF by omega, hkeep, show ¬r ≤ 0xFFFF by omega,
    if_false, List.cons.injEq, and_true]
  refine ⟨?_, ?_, ?_, ?_⟩ <;> apply UInt8.toNat_inj.mp <;> rw [toNat_byteOf (by omega)] <;> omega

/-- a rune `DecodeRune` reads without error is a scalar value, and the bytes it read are its encoding -/
theorem decodeRune_valid {b : UInt8} {p : List UInt8} (h : decodeRune (b :: p) ≠ (runeError, 1)) :
    IsScalar (decodeRune (b :: p)).1 ∧ (b :: p).take (decodeRune (b :: p)).2 = encodeRune (decodeRune (b :: p)).1 := by
  have hb := b.toNat_lt
  by_cases ha : b.toNat < 0x80
  · rw [decodeRune_of_lt (UInt8.lt_iff_toNat_lt.mpr ha)]
    refine ⟨⟨by simp only [maxRune]; omega, by omega⟩, ?_⟩
    rw [encodeRune_of_lt_runeSelf (by simp only [runeSelf]; omega)]
    simp
  -- every other way the decoder can stop is `(RuneError, 1)`, which `h` excludes
  have ha' : ¬b < 0x80 := fun h' => ha (UInt8.lt_iff_toNat_lt.mp h')
  by_cases hc : b.toNat < 0xC0
  · exact absurd (by simp [decodeRune, ha', UInt8.lt_iff_toNat_lt, hc]) h
  have hc' : ¬b < 0xC0 := fun h' => hc (UInt8.lt_iff_toNat_lt.mp h')
  rcases p with _ | ⟨c1, p⟩
  · exact absurd (by simp [decodeRune, ha', hc']) h
  by_cases h1 : isCont c1
  swap
  · exact absurd (by simp [decodeRune, ha', hc', h1]) h
  by_cases h2 : b.toNat < 0xE0
  · have h2' : b < 0xE0 := UInt8.lt_iff_toNat_lt.mpr h2
    by_cases hr : 0x7F < low b 5 * 2 ^ 6 + low c1 6
    · rw [decodeRune_two ⟨by omega, h2⟩ h1 hr]
      refine ⟨⟨?_, ?_⟩, by rw [encodeRune_two ⟨by omega, h2⟩ h1 hr]; rfl⟩ <;> simp only [low, maxRune] <;> omega
    · exact absurd (by simp [decodeRune, ha', hc', h1, h2']; omega) h
  have h2' : ¬b < 0xE0 := fun h' => h2 (UInt8.lt_iff_toNat_lt.mp h')
  rcases p with _ | ⟨c2, p⟩
  · exact absurd (by simp [decodeRune, ha', hc', h1, h2']) h
  by_cases hc2 : isCont c2
  swap
  · exact absurd (by simp [decodeRune, ha', hc', h1, h2', hc2]) h
  by_cases h3 : b.toNat < 0xF0
  · have h3' : b < 0xF0 := UInt8.lt_iff_toNat_lt.mpr h3
    by_cases hr : 0x7FF < low b 4 * 2 ^ 12 + low c1 6 * 2 ^ 6 + low c2 6
    · by_cases hs : 0xD800 ≤ low b 4 * 2 ^ 12 + low c1 6 * 2 ^ 6 + low c2 6 ∧
          low b 4 * 2 ^ 12 + low c1 6 * 2 ^ 6 + low c2 6 ≤ 0xDFFF
      · exact absurd (by simp [decodeRune, ha', hc', h1, h2', hc2, h3']; omega) h
      rw [decodeRune_three ⟨by omega, h3⟩ h1 hc2 hr hs]
      refine ⟨⟨?_, hs⟩, by rw [encodeRune_three ⟨by omega, h3⟩ h1 hc2 hr hs]; rfl⟩
      simp only [low, maxRune]
      omega
    · exact absurd (by simp [decodeRune, ha', hc', h1, h2', hc2, h3']; omega) h
  have h3' : ¬b < 0xF0 := fun h' => h3 (UInt8.lt_iff_toNat_lt.mp h')
  rcases p with _ | ⟨c3, p⟩
  · exact absurd (by simp [decodeRune, ha', hc', h1, h2', hc2, h3']) h
  by_cases hc3 : isCont c3
  swap
  · exact absurd (by simp [decodeRune, ha', hc', h1, h2', hc2, h3', hc3]) h
  by_cases h4 : b.toNat < 0xF8
  · have h4' : b < 0xF8 := UInt8.lt_iff_toNat_lt.mpr h4
    by_cases hr : 0xFFFF < low b 3 * 2 ^ 18 + low c1 6 * 2 ^ 12 + low c2 6 * 2 ^ 6 + low c3 6 ∧
        low b 3 * 2 ^ 18 + low c1 6 * 2 ^ 12 + low c2 6 * 2 ^ 6 + low c3 6 ≤ maxRune
    · rw [decodeRune_four ⟨by omega, h4⟩ h1 hc2 hc3 hr]
      refine ⟨⟨hr.2, ?_⟩, by rw [encodeRune_four ⟨by omega, h4⟩ h1 hc2 hc3 hr]; rfl⟩
      omega
    · exact absurd (by simp [decodeRune, ha', hc', h1, h2', hc2, h3', hc3, h4']; omega) h
  · have h4' : ¬b < 0xF8 := fun h' => h4 (UInt8.lt_iff_toNat_lt.mp h')
    exact absurd (by simp [decodeRune, ha', hc', h1, h2', hc2, h3', hc3, h4']) h

/-- past ASCII a rune read without error is past ASCII too -/
theorem runeSelf_le_of_decodeRune {b : UInt8} {p : List UInt8} (hb : ¬b < 0x80) (h : decodeRune (b :: p) ≠ (runeError, 1)) :
    runeSelf ≤ (decodeRune (b :: p)).1 := by
  obtain ⟨-, htake⟩ := decodeRune_valid h
  by_contra hlt
  have hsize := (decodeRune_size b p).1
  rw [encodeRune_of_lt_runeSelf (not_le.mp hlt)] at htake
  obtain ⟨n, hn⟩ : ∃ n, (decodeRune (b :: p)).2 = n + 1 := ⟨_, (Nat.succ_pred_eq_of_pos hsize).symm⟩
  rw [hn, List.take_succ_cons, List.cons.injEq] at htake
  have hr := htake.1
  apply hb
  rw [UInt8.lt_iff_toNat_lt, hr]
  simp only [Nat.toUInt8_eq, UInt8.toNat_ofNat', runeSelf, UInt8.reduceToNat] at hlt ⊢
  omega

theorem runes_encodeRune_append {r : ℕ} (hr : IsScalar r) (s : List UInt8) :
    runes (encodeRune r ++ s) = r :: runes s := by
  obtain ⟨b, bs, hbs⟩ := List.exists_cons_of_ne_nil (encodeRune_ne_nil r)
  have hdec := decodeRune_encodeRune_append hr s
  rw [hbs, List.cons_append] at hdec
  rw [runes, hbs, List.cons_append, List.length_cons, runesAux, hdec, ← List.cons_append, ← hbs,
    List.drop_left, runes]
  exact congrArg (List.cons r) (runesAux_stable (by simp) le_rfl)

theorem runes_flatMap_encodeRune {rs : List ℕ} (h : ∀ r ∈ rs, IsScalar r) : runes (rs.flatMap encodeRune) = rs := by
  induction rs with
  | nil => rfl
  | cons r rs ih =>
    rw [List.flatMap_cons, runes_encodeRune_append (h r (by simp)), ih fun r' hr' => h r' (by simp [hr'])]

theorem valid_flatMap_encodeRune {rs : List ℕ} (h : ∀ r ∈ rs, IsScalar r) : Valid (rs.flatMap encodeRune) := by
  induction rs with
  | nil => exact .nil
  | cons r rs ih => exact .cons (h r (by simp)) (ih fun r' hr' => h r' (by simp [hr']))

/-- a valid string is the encodings of its runes, and they are scalar values -/
theorem Valid.flatMap_runes {s : List UInt8} (h : Valid s) :
    (∀ r ∈ runes s, IsScalar r) ∧ (runes s).flatMap encodeRune = s := by
  induction h with
  | nil => exact ⟨fun _ hr => absurd hr List.not_mem_nil, rfl⟩
  | cons hr _ ih =>
    rw [runes_encodeRune_append hr]
    refine ⟨?_, by rw [List.flatMap_cons, ih.2]⟩
    rintro r' (_ | ⟨_, hr'⟩)
    · exact hr
    · exact ih.1 r' hr'

/-- `s` with every byte that does not start a rune replaced by U+FFFD: each rune `DecodeRune` reads, written back
with `EncodeRune` -/
def sanitize (s : List UInt8) : List UInt8 := (runes s).flatMap encodeRune

theorem sanitize_cons (b : UInt8) (p : List UInt8) :
    sanitize (b :: p) = encodeRune (decodeRune (b :: p)).1 ++ sanitize ((b :: p).drop (decodeRune (b :: p)).2) := by
  rw [sanitize, runes_cons, List.flatMap_cons, sanitize]

end DockerEngine.Go.Utf8
