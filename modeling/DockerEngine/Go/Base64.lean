/-
Lean model of `encoding/base64` of Go 1.5 for `StdEncoding`: `Encode`, `Decode`, `EncodedLen` and `DecodedLen`.

`Encode` writes four characters of the alphabet for each three bytes, and the last quantum, of one or two bytes, is
padded with `=`. `Decode` reads the characters back four at a time, skipping newlines, and stops at the padding; an
error is the offset of its `CorruptInputError`, and the bytes written before it are not kept. The six-bit values are
natural numbers below 64, and the shifts and masks of the code are divisions and remainders by powers of two.

`decode_encode`: what `Encode` writes, `Decode` reads back as the bytes it was given. It is proved one quantum at a
time (`readQuantum_full`, `readQuantum_one`, `readQuantum_two`), by induction along `encode`.
-/
import Mathlib
import DockerEngine.Lib.Prelude

namespace DockerEngine.Go.Base64

/-- `encodeStd`, the alphabet of `StdEncoding` -/
def encodeStd : List UInt8 :=
  "ABCDEFGHIJKLMNOPQRSTUVWXYZabcdefghijklmnopqrstuvwxyz0123456789+/".toList.map Char.toUInt8

/-- `StdPadding`, `=` -/
def stdPadding : UInt8 := 0x3D

/-- `enc.encode[v]` for a six-bit value `v` -/
def encodeChar (v : ℕ) : UInt8 := encodeStd.getD v 0

/-- `enc.decodeMap[c]`: the value of a character of the alphabet; none for the 0xFF of every other byte -/
def decodeMap (c : UInt8) : Option ℕ := encodeStd.idxOf? c

/-- `enc.EncodedLen(n)` -/
def encodedLen (n : ℕ) : ℕ := (n + 2) / 3 * 4

/-- `enc.DecodedLen(n)` -/
def decodedLen (n : ℕ) : ℕ := n / 4 * 3

/-! ## `Encode` -/

/-- one quantum of `enc.Encode(dst, src)`: the characters for the first bytes of `src`, three or fewer; a missing
byte is a zero in the shifts, and its characters are padding -/
def encodeQuantum (src : List UInt8) : List UInt8 :=
  let s0 := (src.getD 0 0).toNat
  let s1 := (src.getD 1 0).toNat
  let s2 := (src.getD 2 0).toNat
  [encodeChar (s0 / 4), encodeChar (s0 % 4 * 16 + s1 / 16),
    if 2 ≤ src.length then encodeChar (s1 % 16 * 4 + s2 / 64) else stdPadding,
    if 3 ≤ src.length then encodeChar (s2 % 64) else stdPadding]

/-- `enc.Encode(dst, src)`: the quanta of `src`, three bytes each -/
def encode : List UInt8 → List UInt8
  | [] => []
  | b0 :: b1 :: b2 :: src => encodeQuantum [b0, b1, b2] ++ encode src
  | src => encodeQuantum src

/-! ## `Decode` -/

/-- the newlines `decode` skips -/
def isNewline (c : UInt8) : Bool := c = 0x0A ∨ c = 0x0D

/-- what one turn of the loop of `enc.decode` reads: the values `dbuf` read, `dlen`, whether the message ended, the
trailing-garbage error it set, and the bytes left -/
structure Quantum where
  dbuf : List ℕ
  dlen : ℕ
  ended : Bool
  err : Option ℕ
  rest : List UInt8

/-- the loop `for j := range dbuf` of `enc.decode` at `j = 4 - k`, over the bytes `rest` left of the `n` of `src`;
`si` is `n - rest.length` -/
def readQuantum (n : ℕ) : ℕ → List UInt8 → List ℕ → Except ℕ Quantum
  | 0, rest, dbuf => .ok ⟨dbuf, 4, false, none, rest⟩
  | k + 1, [], _ => .error (n - (3 - k))
  | k + 1, c :: rest, dbuf =>
    let rest := rest.dropWhile isNewline
    if c = stdPadding then
      -- the padding: `=` at `j = 2` must be followed by another
      if 3 - k < 2 then .error (n - rest.length - 1)
      else if 3 - k = 2 then
        match rest with
        | [] => .error n
        | c' :: rest' =>
          if c' ≠ stdPadding then .error (n - rest.length - 1)
          else
            let rest := rest'.dropWhile isNewline
            .ok ⟨dbuf, 2, true, if rest ≠ [] then some (n - rest.length) else none, rest⟩
      else .ok ⟨dbuf, 3, true, if rest ≠ [] then some (n - rest.length) else none, rest⟩
    else
      match decodeMap c with
      | none => .error (n - rest.length - 1)
      | some v => readQuantum n k rest (dbuf ++ [v])

/-- the `dlen - 1` bytes of `val := dbuf[0]<<18 | dbuf[1]<<12 | dbuf[2]<<6 | dbuf[3]` that a quantum writes -/
def quantumBytes (dbuf : List ℕ) (dlen : ℕ) : List UInt8 :=
  let val := dbuf.getD 0 0 * 2 ^ 18 + dbuf.getD 1 0 * 2 ^ 12 + dbuf.getD 2 0 * 2 ^ 6 + dbuf.getD 3 0
  [(val / 2 ^ 16).toUInt8, (val / 2 ^ 8).toUInt8, val.toUInt8].take (dlen - 1)

/-- the loop `for si < len(src) && !end` of `enc.decode`; `fuel` bounds the quanta, each of at least one byte -/
def decodeLoop (n : ℕ) : ℕ → List UInt8 → Except ℕ (List UInt8)
  | 0, _ => .ok []
  | _ + 1, [] => .ok []
  | fuel + 1, c :: src => do
    let q ← readQuantum n 4 (c :: src) []
    if q.ended then
      match q.err with
      | some e => .error e
      | none => .ok (quantumBytes q.dbuf q.dlen)
    else (decodeLoop n fuel q.rest).map (quantumBytes q.dbuf q.dlen ++ ·)

/-- `enc.Decode(dst, src)`: the bytes written, or the offset of the `CorruptInputError` -/
def decode (src : List UInt8) : Except ℕ (List UInt8) :=
  decodeLoop src.length (src.length + 1) (src.dropWhile isNewline)

/-! ## The round trip -/

set_option maxRecDepth 8192 in
/-- the alphabet is read back by `decodeMap` -/
theorem decodeMap_encodeChar {v : ℕ} (hv : v < 64) : decodeMap (encodeChar v) = some v := by
  have h : ∀ v : Fin 64, decodeMap (encodeChar v) = some v := by decide
  exact h ⟨v, hv⟩

set_option maxRecDepth 8192 in
/-- no character `Encode` writes is a newline -/
theorem isNewline_encodeChar (v : ℕ) : isNewline (encodeChar v) = false := by
  have h : ∀ c ∈ encodeStd, isNewline c = false := by decide
  by_cases hv : v < encodeStd.length
  · simpa [encodeChar, List.getElem?_eq_getElem hv] using h _ (List.getElem_mem hv)
  · simp [encodeChar, List.getElem?_eq_none (by omega : encodeStd.length ≤ v), isNewline]

set_option maxRecDepth 8192 in
theorem encodeChar_ne_stdPadding (v : ℕ) : encodeChar v ≠ stdPadding := by
  have h : ∀ c ∈ encodeStd, c ≠ stdPadding := by decide
  by_cases hv : v < encodeStd.length
  · simpa [encodeChar, List.getElem?_eq_getElem hv] using h _ (List.getElem_mem hv)
  · simp [encodeChar, List.getElem?_eq_none (by omega : encodeStd.length ≤ v), stdPadding]

@[simp] theorem isNewline_stdPadding : isNewline stdPadding = false := by decide

/-- what `Encode` writes starts with no newline -/
theorem dropWhile_isNewline_encode (src : List UInt8) : (encode src).dropWhile isNewline = encode src := by
  rcases src with _ | ⟨b0, _ | ⟨b1, _ | ⟨b2, src⟩⟩⟩ <;>
    simp [encode, encodeQuantum, isNewline_encodeChar]

/-- the three bytes of a full quantum come back from its four values -/
theorem quantumBytes_full (b0 b1 b2 : UInt8) :
    quantumBytes [b0.toNat / 4, b0.toNat % 4 * 16 + b1.toNat / 16, b1.toNat % 16 * 4 + b2.toNat / 64,
      b2.toNat % 64] 4 = [b0, b1, b2] := by
  have h0 := b0.toNat_lt
  have h1 := b1.toNat_lt
  have h2 := b2.toNat_lt
  simp only [quantumBytes, List.getD_cons_zero, List.getD_cons_succ, List.take_succ_cons, List.take_zero,
    List.cons.injEq, and_true]
  refine ⟨?_, ?_, ?_⟩ <;> apply UInt8.toNat.inj <;> simp <;> omega

section Quantum

variable (n : ℕ) (t : List UInt8)

/-- a full quantum gives its four values and leaves the rest, when the rest starts with no newline -/
theorem readQuantum_full (b0 b1 b2 : UInt8) (ht : t.dropWhile isNewline = t) :
    readQuantum n 4 (encodeQuantum [b0, b1, b2] ++ t) [] =
      .ok ⟨[b0.toNat / 4, b0.toNat % 4 * 16 + b1.toNat / 16, b1.toNat % 16 * 4 + b2.toNat / 64, b2.toNat % 64],
        4, false, none, t⟩ := by
  have h0 := b0.toNat_lt
  have h1 := b1.toNat_lt
  have h2 := b2.toNat_lt
  simp [readQuantum, encodeQuantum, isNewline_encodeChar, encodeChar_ne_stdPadding,
    decodeMap_encodeChar (show b0.toNat / 4 < 64 by omega), decodeMap_encodeChar (show b0.toNat % 4 * 16 + b1.toNat / 16 < 64 by omega),
    decodeMap_encodeChar (show b1.toNat % 16 * 4 + b2.toNat / 64 < 64 by omega),
    decodeMap_encodeChar (show b2.toNat % 64 < 64 by omega), ht]

/-- the last quantum of one byte: two values, then `==` ends the message -/
theorem readQuantum_one (b0 : UInt8) :
    readQuantum n 4 (encodeQuantum [b0]) [] = .ok ⟨[b0.toNat / 4, b0.toNat % 4 * 16], 2, true, none, []⟩ := by
  have h0 := b0.toNat_lt
  simp [readQuantum, encodeQuantum, isNewline_encodeChar, encodeChar_ne_stdPadding,
    decodeMap_encodeChar (show b0.toNat / 4 < 64 by omega), decodeMap_encodeChar (show b0.toNat % 4 * 16 < 64 by omega)]

/-- the last quantum of two bytes: three values, then `=` ends the message -/
theorem readQuantum_two (b0 b1 : UInt8) :
    readQuantum n 4 (encodeQuantum [b0, b1]) [] =
      .ok ⟨[b0.toNat / 4, b0.toNat % 4 * 16 + b1.toNat / 16, b1.toNat % 16 * 4], 3, true, none, []⟩ := by
  have h0 := b0.toNat_lt
  have h1 := b1.toNat_lt
  simp [readQuantum, encodeQuantum, isNewline_encodeChar, encodeChar_ne_stdPadding,
    decodeMap_encodeChar (show b0.toNat / 4 < 64 by omega),
    decodeMap_encodeChar (show b0.toNat % 4 * 16 + b1.toNat / 16 < 64 by omega),
    decodeMap_encodeChar (show b1.toNat % 16 * 4 < 64 by omega)]

end Quantum

/-- one turn of the loop, from the quantum it reads -/
theorem decodeLoop_of_readQuantum {n fuel : ℕ} {c : UInt8} {src : List UInt8} {q : Quantum}
    (h : readQuantum n 4 (c :: src) [] = .ok q) :
    decodeLoop n (fuel + 1) (c :: src) =
      if q.ended then
        match q.err with
        | some e => .error e
        | none => .ok (quantumBytes q.dbuf q.dlen)
      else (decodeLoop n fuel q.rest).map (quantumBytes q.dbuf q.dlen ++ ·) := by
  rw [decodeLoop, h]
  rfl

/-- the loop reads the quanta of `Encode` back, given a turn for each -/
theorem decodeLoop_encode (n : ℕ) (src : List UInt8) :
    ∀ fuel, src.length < 3 * fuel → decodeLoop n fuel (encode src) = .ok src := by
  induction src using encode.induct with
  | case1 => intro fuel _; cases fuel <;> rfl
  | case2 b0 b1 b2 src ih =>
    intro fuel hfuel
    obtain ⟨fuel, rfl⟩ : ∃ f, fuel = f + 1 := ⟨fuel - 1, by simp at hfuel; omega⟩
    have hrest := ih fuel (by simp at hfuel; omega)
    have hq := readQuantum_full n (encode src) b0 b1 b2 (dropWhile_isNewline_encode src)
    obtain ⟨c, cs, hc⟩ : ∃ c cs, encodeQuantum [b0, b1, b2] ++ encode src = c :: cs := ⟨_, _, rfl⟩
    rw [hc] at hq
    rw [encode, hc, decodeLoop_of_readQuantum hq]
    simp [hrest, quantumBytes_full, Except.map]
  | case3 src h0 h3 =>
    intro fuel hfuel
    obtain ⟨fuel, rfl⟩ : ∃ f, fuel = f + 1 := ⟨fuel - 1, by omega⟩
    -- the tail of one or two bytes, with its padding
    rcases src with _ | ⟨b0, _ | ⟨b1, _ | ⟨b2, src⟩⟩⟩
    · exact absurd rfl h0
    · have hq := readQuantum_one n b0
      obtain ⟨c, cs, hc⟩ : ∃ c cs, encodeQuantum [b0] = c :: cs := ⟨_, _, rfl⟩
      rw [hc] at hq
      rw [show encode [b0] = encodeQuantum [b0] from rfl, hc, decodeLoop_of_readQuantum hq]
      have := b0.toNat_lt
      simp only [if_true, quantumBytes, Except.ok.injEq]
      simp only [List.getD_cons_zero, List.getD_cons_succ, List.getD_nil, List.take_succ_cons, List.take_zero,
        List.cons.injEq, and_true]
      apply UInt8.toNat.inj
      simp
      omega
    · have hq := readQuantum_two n b0 b1
      obtain ⟨c, cs, hc⟩ : ∃ c cs, encodeQuantum [b0, b1] = c :: cs := ⟨_, _, rfl⟩
      rw [hc] at hq
      rw [show encode [b0, b1] = encodeQuantum [b0, b1] from rfl, hc, decodeLoop_of_readQuantum hq]
      have := b0.toNat_lt
      have := b1.toNat_lt
      simp only [if_true, quantumBytes, Except.ok.injEq]
      simp only [List.getD_cons_zero, List.getD_cons_succ, List.getD_nil, List.take_succ_cons, List.take_zero,
        List.cons.injEq, and_true]
      constructor <;> apply UInt8.toNat.inj <;> simp <;> omega
    · exact absurd rfl (h3 b0 b1 b2 src)

/-- `Encode` writes `EncodedLen` characters -/
theorem length_encode (src : List UInt8) : (encode src).length = encodedLen src.length := by
  induction src using encode.induct with
  | case1 => rfl
  | case2 b0 b1 b2 src ih =>
    simp only [encode, List.length_append, ih, encodedLen, List.length_cons]
    simp [encodeQuantum]
    omega
  | case3 src h0 h3 =>
    rcases src with _ | ⟨b0, _ | ⟨b1, _ | ⟨b2, src⟩⟩⟩
    · exact absurd rfl h0
    · simp [show encode [b0] = encodeQuantum [b0] from rfl, encodeQuantum, encodedLen]
    · simp [show encode [b0, b1] = encodeQuantum [b0, b1] from rfl, encodeQuantum, encodedLen]
    · exact absurd rfl (h3 b0 b1 b2 src)

/-- what `Encode` writes decodes to the bytes it was given -/
theorem decode_encode (src : List UInt8) : decode (encode src) = .ok src := by
  rw [decode, dropWhile_isNewline_encode]
  apply decodeLoop_encode
  rw [length_encode, encodedLen]
  omega

end DockerEngine.Go.Base64
