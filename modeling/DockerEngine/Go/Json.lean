/-
Lean model of the decoding side of Go's `encoding/json` as `json.Decoder.Decode` uses it on a stream of values: the
scanner's grammar of a value, `unquoteBytes` for the bytes of a string, and one call of `Decode`.

A value is read as the scanner reads it, white space before it skipped: a string as the bytes between its quotes, an
object as its members in order, an array as its elements, and a number, `true` or `false` as its bytes. `unquote`
turns the bytes of a string into the bytes of its value: an escape is replaced, a `\u` escape by the UTF-8 of its
rune (a valid surrogate pair by that of the pair's rune, another surrogate by U+FFFD's), and every other byte is read
rune by rune with `utf8.DecodeRune` and written back with `utf8.EncodeRune`, which turns an invalid byte into U+FFFD.
The first loop of `unquoteBytes`, which only looks for the first byte that needs this, is left out: what it passes
over, the second loop writes back unchanged.
-/
import DockerEngine.Go.Utf8

namespace DockerEngine.Go.Json

open Utf8

/-- a Go byte slice -/
abbrev Bytes := List UInt8

/-- white space between tokens: space, tab, newline and carriage return -/
def isSpace (c : UInt8) : Bool := c = ' '.toUInt8 ∨ c = '\t'.toUInt8 ∨ c = '\n'.toUInt8 ∨ c = '\r'.toUInt8

/-- a decimal digit -/
def isDigit (c : UInt8) : Bool := '0'.toUInt8 ≤ c ∧ c ≤ '9'.toUInt8

/-- the value of a hexadecimal digit, of either case -/
def hexVal? (c : UInt8) : Option ℕ :=
  if isDigit c then some (c.toNat - '0'.toNat)
  else if 'a'.toUInt8 ≤ c ∧ c ≤ 'f'.toUInt8 then some (c.toNat - 'a'.toNat + 10)
  else if 'A'.toUInt8 ≤ c ∧ c ≤ 'F'.toUInt8 then some (c.toNat - 'A'.toNat + 10)
  else none

/-! ## The scanner -/

/-- a JSON value as the decoder reads it -/
inductive Value
  /-- the bytes between the quotes -/
  | str (body : Bytes)
  /-- the members, each key as the bytes between its quotes -/
  | obj (members : List (Bytes × Value))
  | arr (elems : List Value)
  /-- a number, `true` or `false` -/
  | lit (raw : Bytes)
  | null
  deriving Repr

/-- a string after its opening quote: its bytes up to the closing quote, and what follows; none for a syntax error
(a control character, an unknown escape, or no closing quote) -/
def scanString : Bytes → Option (Bytes × Bytes)
  | [] => none
  | c :: rest =>
    if c = '"'.toUInt8 then some ([], rest)
    else if c = '\\'.toUInt8 then
      match rest with
      | [] => none
      | e :: rest' =>
        if e ∈ "\"\\/bfnrt".toList.map Char.toUInt8 then (scanString rest').map fun p => (c :: e :: p.1, p.2)
        else if e = 'u'.toUInt8 then
          match rest' with
          | h1 :: h2 :: h3 :: h4 :: rest'' =>
            if [h1, h2, h3, h4].all fun h => (hexVal? h).isSome then
              (scanString rest'').map fun p => (c :: e :: h1 :: h2 :: h3 :: h4 :: p.1, p.2)
            else none
          | _ => none
        else none
    else if c < 0x20 then none
    else (scanString rest).map fun p => (c :: p.1, p.2)

/-- the digits at the start of `s`, and what follows -/
def scanDigits (s : Bytes) : Bytes × Bytes := (s.takeWhile isDigit, s.dropWhile isDigit)

/-- the exponent of a number, `e` or `E`, a sign and digits, if there is one -/
def scanExponent (s : Bytes) : Option (Bytes × Bytes) :=
  match s with
  | e :: rest =>
    if e = 'e'.toUInt8 ∨ e = 'E'.toUInt8 then
      let (sign, rest) := match rest with
        | c :: r => if c = '+'.toUInt8 ∨ c = '-'.toUInt8 then ([c], r) else ([], rest)
        | [] => ([], [])
      if (scanDigits rest).1 = [] then none else some (e :: sign ++ (scanDigits rest).1, (scanDigits rest).2)
    else some ([], s)
  | [] => some ([], [])

/-- the fraction of a number, a dot and digits, if there is one -/
def scanFraction (s : Bytes) : Option (Bytes × Bytes) :=
  match s with
  | c :: r =>
    if c = '.'.toUInt8 then
      if (scanDigits r).1 = [] then none else some (c :: (scanDigits r).1, (scanDigits r).2)
    else some ([], s)
  | [] => some ([], [])

/-- the integer part of a number: `0`, or digits not starting with `0` -/
def scanInt (s : Bytes) : Option (Bytes × Bytes) :=
  match s with
  | c :: r => if c = '0'.toUInt8 then some ([c], r) else if isDigit c then some (scanDigits s) else none
  | [] => none

/-- a number: an optional minus, the integer part, an optional fraction and exponent -/
def scanNumber (s : Bytes) : Option (Bytes × Bytes) :=
  let (minus, s) := match s with
    | c :: r => if c = '-'.toUInt8 then ([c], r) else ([], s)
    | [] => ([], [])
  do
    let (int, s) ← scanInt s
    let (frac, s) ← scanFraction s
    let (exp, s) ← scanExponent s
    pure (minus ++ int ++ frac ++ exp, s)

mutual
/-- one value, white space before it skipped, and what follows it; `fuel` bounds the nesting -/
def scanValue : ℕ → Bytes → Option (Value × Bytes)
  | 0, _ => none
  | fuel + 1, s =>
    match s.dropWhile isSpace with
    | [] => none
    | c :: rest =>
      if c = '"'.toUInt8 then (scanString rest).map fun p => (.str p.1, p.2)
      else if c = '{'.toUInt8 then
        match rest.dropWhile isSpace with
        | d :: r => if d = '}'.toUInt8 then some (.obj [], r) else (scanMembers fuel (d :: r)).map fun p => (.obj p.1, p.2)
        | [] => none
      else if c = '['.toUInt8 then
        match rest.dropWhile isSpace with
        | d :: r => if d = ']'.toUInt8 then some (.arr [], r) else (scanElems fuel (d :: r)).map fun p => (.arr p.1, p.2)
        | [] => none
      else if c = 'n'.toUInt8 then
        if ("ull".toList.map Char.toUInt8).isPrefixOf rest then some (.null, rest.drop 3) else none
      else if c = 't'.toUInt8 then
        if ("rue".toList.map Char.toUInt8).isPrefixOf rest then some (.lit (c :: rest.take 3), rest.drop 3) else none
      else if c = 'f'.toUInt8 then
        if ("alse".toList.map Char.toUInt8).isPrefixOf rest then some (.lit (c :: rest.take 4), rest.drop 4) else none
      else if c = '-'.toUInt8 ∨ isDigit c then (scanNumber (c :: rest)).map fun p => (.lit p.1, p.2)
      else none

/-- the members of an object from its first key on, and what follows its closing brace -/
def scanMembers : ℕ → Bytes → Option (List (Bytes × Value) × Bytes)
  | 0, _ => none
  | fuel + 1, s =>
    match s.dropWhile isSpace with
    | c :: rest =>
      if c ≠ '"'.toUInt8 then none
      else
        match scanString rest with
        | none => none
        | some (key, r) =>
          match r.dropWhile isSpace with
          | d :: r =>
            if d ≠ ':'.toUInt8 then none
            else
              match scanValue fuel r with
              | none => none
              | some (v, r) =>
                match r.dropWhile isSpace with
                | e :: r =>
                  if e = ','.toUInt8 then (scanMembers fuel r).map fun p => ((key, v) :: p.1, p.2)
                  else if e = '}'.toUInt8 then some ([(key, v)], r)
                  else none
                | [] => none
          | [] => none
    | [] => none

/-- the elements of an array from its first one on, and what follows its closing bracket -/
def scanElems : ℕ → Bytes → Option (List Value × Bytes)
  | 0, _ => none
  | fuel + 1, s =>
    match scanValue fuel s with
    | none => none
    | some (v, r) =>
      match r.dropWhile isSpace with
      | e :: r =>
        if e = ','.toUInt8 then (scanElems fuel r).map fun p => (v :: p.1, p.2)
        else if e = ']'.toUInt8 then some ([v], r)
        else none
      | [] => none
end

/-- what one `Decode` gives: `io.EOF` when only white space is left, an error for a value the scanner refuses or
that the stream ends inside, or the value and the rest of the stream -/
inductive Decoded (α : Type)
  | eof
  | error
  | ok (a : α) (rest : Bytes)
  deriving Repr

/-- the value at the start of a stream, as `dec.Decode` reads it before it unmarshals it -/
def decodeValue (s : Bytes) : Decoded Value :=
  if s.all isSpace then .eof
  else
    match scanValue (s.length + 1) s with
    | some (v, rest) => .ok v rest
    | none => .error

/-! ## `unquoteBytes` -/

/-- `getu4(s)`: the rune of a `\u` escape with four hexadecimal digits at the start of `s` -/
def getu4 : Bytes → Option ℕ
  | b :: u :: h1 :: h2 :: h3 :: h4 :: _ =>
    if b = '\\'.toUInt8 ∧ u = 'u'.toUInt8 then do
      let d1 ← hexVal? h1
      let d2 ← hexVal? h2
      let d3 ← hexVal? h3
      let d4 ← hexVal? h4
      pure (((d1 * 16 + d2) * 16 + d3) * 16 + d4)
    else none
  | _ => none

/-- `utf16.IsSurrogate(r)` -/
def isSurrogate (r : ℕ) : Bool := 0xD800 ≤ r ∧ r < 0xE000

/-- `utf16.DecodeRune(r1, r2)`: the rune of a surrogate pair, U+FFFD for another pair -/
def decodeSurrogates (r1 r2 : ℕ) : ℕ :=
  if 0xD800 ≤ r1 ∧ r1 < 0xDC00 ∧ 0xDC00 ≤ r2 ∧ r2 < 0xE000 then (r1 - 0xD800) * 2 ^ 10 + (r2 - 0xDC00) + 0x10000
  else runeError

/-- the character an escape `\e` stands for, for the escapes of one character -/
def escapeChar? (e : UInt8) : Option UInt8 :=
  if e = '"'.toUInt8 ∨ e = '\\'.toUInt8 ∨ e = '/'.toUInt8 ∨ e = '\''.toUInt8 then some e
  else if e = 'b'.toUInt8 then some 0x08
  else if e = 'f'.toUInt8 then some 0x0C
  else if e = 'n'.toUInt8 then some 0x0A
  else if e = 'r'.toUInt8 then some 0x0D
  else if e = 't'.toUInt8 then some 0x09
  else none

/-- the loop of `unquoteBytes` over the bytes of a string; none where it returns `ok` false -/
def unquote : Bytes → Option Bytes
  | [] => some []
  | c :: rest =>
    if c = '\\'.toUInt8 then
      match rest with
      | [] => none
      | e :: rest' =>
        if e = 'u'.toUInt8 then
          match getu4 (c :: rest) with
          | none => none
          | some rr =>
            if isSurrogate rr then
              -- a valid pair is one rune; the first half alone is U+FFFD, and the second is read on its own
              if decodeSurrogates rr ((getu4 (rest'.drop 4)).getD runeError) ≠ runeError then
                (encodeRune (decodeSurrogates rr ((getu4 (rest'.drop 4)).getD runeError)) ++ ·) <$>
                  unquote (rest'.drop 10)
              else (encodeRune runeError ++ ·) <$> unquote (rest'.drop 4)
            else (encodeRune rr ++ ·) <$> unquote (rest'.drop 4)
        else
          match escapeChar? e with
          | some b => (b :: ·) <$> unquote rest'
          | none => none
    else if c = '"'.toUInt8 ∨ c < 0x20 then none
    else if c < 0x80 then (c :: ·) <$> unquote rest
    -- coerced to well-formed UTF-8
    else (encodeRune (decodeRune (c :: rest)).1 ++ ·) <$> unquote ((c :: rest).drop (decodeRune (c :: rest)).2)
termination_by s => s.length
decreasing_by
  all_goals (try simp_wf)
  all_goals first
    | omega
    | (have hsize := (decodeRune_size c rest).1; omega)

/-! ## What the scanner reads

The scanner reads a value without looking past it: what follows a string, an object, an array or a keyword does not
change how it is read, and neither does what follows a number once something does (`scanValue_append`); more fuel
reads the same value (`scanValue_mono`). So an object written member by member, each value a text the scanner reads
whatever follows it (`ScansTo`), is read back as its members (`decodeValue_object`). -/

/-- what the scanner reads of a string does not depend on what follows its closing quote -/
theorem scanString_append : ∀ {s p r : Bytes}, scanString s = some (p, r) → ∀ t, scanString (s ++ t) = some (p, r ++ t)
  | [], _, _, h, _ => by simp [scanString] at h
  | c :: rest, p, r, h, t => by
    rw [List.cons_append, scanString.eq_def]
    rw [scanString.eq_def] at h
    dsimp only at h ⊢
    split_ifs at h ⊢ with hq hb hc
    · simp only [Option.some.injEq, Prod.mk.injEq] at h
      obtain ⟨rfl, rfl⟩ := h
      rfl
    · -- an escape: one character, or `u` and four hexadecimal digits
      rcases rest with _ | ⟨e, rest'⟩
      · simp at h
      simp only [List.cons_append] at h ⊢
      split_ifs at h ⊢ with he hu
      · obtain ⟨⟨p', r'⟩, hs, heq⟩ := Option.map_eq_some_iff.mp h
        rw [scanString_append hs t]
        simpa using heq
      · rcases rest' with _ | ⟨h1, _ | ⟨h2, _ | ⟨h3, _ | ⟨h4, rest''⟩⟩⟩⟩
        · simp at h
        · simp at h
        · simp at h
        · simp at h
        simp only [List.cons_append] at h ⊢
        split_ifs at h ⊢
        obtain ⟨⟨p', r'⟩, hs, heq⟩ := Option.map_eq_some_iff.mp h
        rw [scanString_append hs t]
        simpa using heq
    · obtain ⟨⟨p', r'⟩, hs, heq⟩ := Option.map_eq_some_iff.mp h
      rw [scanString_append hs t]
      simpa using heq

mutual
/-- more fuel reads the same value: fuel only bounds how deep values nest -/
theorem scanValue_succ : ∀ {n : ℕ} {s : Bytes} {x : Value × Bytes}, scanValue n s = some x → scanValue (n + 1) s = some x
  | 0, _, _, h => by simp [scanValue] at h
  | n + 1, s, x, h => by
    rw [scanValue.eq_def] at h ⊢
    dsimp only at h ⊢
    generalize List.dropWhile isSpace s = s' at h ⊢
    rcases s' with _ | ⟨c, rest⟩
    · exact h
    dsimp only at h ⊢
    -- only an object and an array read further with the fuel
    split_ifs at h ⊢ <;> first | exact h | skip
    · generalize List.dropWhile isSpace rest = r' at h ⊢
      rcases r' with _ | ⟨d, r⟩
      · exact h
      dsimp only at h ⊢
      split_ifs at h ⊢
      · exact h
      · obtain ⟨y, hy, rfl⟩ := Option.map_eq_some_iff.mp h
        rw [scanMembers_succ hy]
        rfl
    · generalize List.dropWhile isSpace rest = r' at h ⊢
      rcases r' with _ | ⟨d, r⟩
      · exact h
      dsimp only at h ⊢
      split_ifs at h ⊢
      · exact h
      · obtain ⟨y, hy, rfl⟩ := Option.map_eq_some_iff.mp h
        rw [scanElems_succ hy]
        rfl
theorem scanMembers_succ : ∀ {n : ℕ} {s : Bytes} {x : List (Bytes × Value) × Bytes},
    scanMembers n s = some x → scanMembers (n + 1) s = some x
  | 0, _, _, h => by simp [scanMembers] at h
  | n + 1, s, x, h => by
    rw [scanMembers.eq_def] at h ⊢
    dsimp only at h ⊢
    generalize List.dropWhile isSpace s = s' at h ⊢
    rcases s' with _ | ⟨c, rest⟩
    · exact h
    dsimp only at h ⊢
    split_ifs at h ⊢
    generalize scanString rest = sr at h ⊢
    rcases sr with _ | ⟨key, r⟩
    · exact h
    dsimp only at h ⊢
    generalize List.dropWhile isSpace r = r' at h ⊢
    rcases r' with _ | ⟨d, r⟩
    · exact h
    dsimp only at h ⊢
    split_ifs at h ⊢
    -- the member's value, then the rest of the members
    cases hv : scanValue n r with
    | none => simp [hv] at h
    | some vr =>
      obtain ⟨v, r⟩ := vr
      rw [hv] at h
      rw [scanValue_succ hv]
      dsimp only at h ⊢
      generalize List.dropWhile isSpace r = r' at h ⊢
      rcases r' with _ | ⟨e, r⟩
      · exact h
      dsimp only at h ⊢
      split_ifs at h ⊢
      · obtain ⟨y, hy, rfl⟩ := Option.map_eq_some_iff.mp h
        rw [scanMembers_succ hy]
        rfl
      · exact h
theorem scanElems_succ : ∀ {n : ℕ} {s : Bytes} {x : List Value × Bytes},
    scanElems n s = some x → scanElems (n + 1) s = some x
  | 0, _, _, h => by simp [scanElems] at h
  | n + 1, s, x, h => by
    rw [scanElems.eq_def] at h ⊢
    dsimp only at h ⊢
    cases hv : scanValue n s with
    | none => simp [hv] at h
    | some vr =>
      obtain ⟨v, r⟩ := vr
      rw [hv] at h
      rw [scanValue_succ hv]
      dsimp only at h ⊢
      generalize List.dropWhile isSpace r = r' at h ⊢
      rcases r' with _ | ⟨e, r⟩
      · exact h
      dsimp only at h ⊢
      split_ifs at h ⊢
      · obtain ⟨y, hy, rfl⟩ := Option.map_eq_some_iff.mp h
        rw [scanElems_succ hy]
        rfl
      · exact h
end

theorem scanValue_mono {n m : ℕ} {s : Bytes} {x : Value × Bytes} (h : scanValue n s = some x) (hnm : n ≤ m) :
    scanValue m s = some x := by
  induction m, hnm using Nat.le_induction with
  | base => exact h
  | succ m _ ih => exact scanValue_succ ih

/-! ### What follows a value -/

theorem dropWhile_append_of_ne_nil {p : UInt8 → Bool} {s : Bytes} (h : s.dropWhile p ≠ []) (t : Bytes) :
    (s ++ t).dropWhile p = s.dropWhile p ++ t := by
  rw [List.dropWhile_append, if_neg (by simpa using h)]

theorem takeWhile_append_of_ne_nil {p : UInt8 → Bool} {s : Bytes} (h : s.dropWhile p ≠ []) (t : Bytes) :
    (s ++ t).takeWhile p = s.takeWhile p := by
  rw [List.takeWhile_append, if_neg]
  intro hlen
  have := congrArg List.length (List.takeWhile_append_dropWhile (p := p) (l := s))
  rw [List.length_append, hlen] at this
  exact h (List.length_eq_zero_iff.mp (by omega))

theorem scanDigits_append {s : Bytes} (h : (scanDigits s).2 ≠ []) (t : Bytes) :
    scanDigits (s ++ t) = ((scanDigits s).1, (scanDigits s).2 ++ t) := by
  simp only [scanDigits] at h ⊢
  rw [takeWhile_append_of_ne_nil h, dropWhile_append_of_ne_nil h]

theorem scanInt_append {s i r : Bytes} (h : scanInt s = some (i, r)) (hr : r ≠ []) (t : Bytes) :
    scanInt (s ++ t) = some (i, r ++ t) := by
  rcases s with _ | ⟨c, s⟩
  · simp [scanInt] at h
  simp only [scanInt, List.cons_append] at h ⊢
  split_ifs at h ⊢ with h0 hd
  · simp only [Option.some.injEq, Prod.mk.injEq] at h
    obtain ⟨rfl, rfl⟩ := h
    rfl
  · simp only [Option.some.injEq] at h
    rw [← List.cons_append, scanDigits_append (by rw [h]; exact hr), h]

theorem scanFraction_append {s f r : Bytes} (h : scanFraction s = some (f, r)) (hr : r ≠ []) (t : Bytes) :
    scanFraction (s ++ t) = some (f, r ++ t) := by
  rcases s with _ | ⟨c, s⟩
  · simp only [scanFraction, Option.some.injEq, Prod.mk.injEq] at h
    exact absurd h.2.symm hr
  simp only [scanFraction, List.cons_append] at h ⊢
  by_cases hdot : c = '.'.toUInt8
  · simp only [hdot, if_true] at h ⊢
    split_ifs at h with hnil
    simp only [Option.some.injEq, Prod.mk.injEq] at h
    obtain ⟨rfl, rfl⟩ := h
    rw [scanDigits_append hr, if_neg hnil]
  · simp only [hdot, if_false, Option.some.injEq, Prod.mk.injEq] at h ⊢
    obtain ⟨rfl, rfl⟩ := h
    exact ⟨rfl, rfl⟩

theorem scanExponent_append {s e r : Bytes} (h : scanExponent s = some (e, r)) (hr : r ≠ []) (t : Bytes) :
    scanExponent (s ++ t) = some (e, r ++ t) := by
  rcases s with _ | ⟨c, s⟩
  · simp only [scanExponent, Option.some.injEq, Prod.mk.injEq] at h
    exact absurd h.2.symm hr
  simp only [scanExponent, List.cons_append] at h ⊢
  by_cases he : c = 'e'.toUInt8 ∨ c = 'E'.toUInt8
  · simp only [he, if_true] at h ⊢
    -- the digits after the sign are not empty, so neither is what follows the `e`
    rcases s with _ | ⟨d, s⟩
    · simp [scanDigits] at h
    simp only [List.cons_append] at h ⊢
    by_cases hsign : d = '+'.toUInt8 ∨ d = '-'.toUInt8
    · simp only [hsign, if_true] at h ⊢
      split_ifs at h with hnil
      simp only [Option.some.injEq, Prod.mk.injEq] at h
      obtain ⟨rfl, rfl⟩ := h
      rw [scanDigits_append hr, if_neg hnil]
    · simp only [hsign, if_false] at h ⊢
      split_ifs at h with hnil
      simp only [Option.some.injEq, Prod.mk.injEq] at h
      obtain ⟨rfl, rfl⟩ := h
      rw [← List.cons_append, scanDigits_append hr, if_neg hnil]
  · simp only [he, if_false, Option.some.injEq, Prod.mk.injEq] at h ⊢
    obtain ⟨rfl, rfl⟩ := h
    exact ⟨rfl, rfl⟩

/-- the integer part, fraction and exponent of a number read one after another -/
theorem scanNumber_parts_append {s minus n r : Bytes}
    (h : (scanInt s >>= fun x => scanFraction x.2 >>= fun y => scanExponent y.2 >>= fun z =>
      pure (minus ++ x.1 ++ y.1 ++ z.1, z.2)) = some (n, r)) (hr : r ≠ []) (t : Bytes) :
    (scanInt (s ++ t) >>= fun x => scanFraction x.2 >>= fun y => scanExponent y.2 >>= fun z =>
      pure (minus ++ x.1 ++ y.1 ++ z.1, z.2)) = some (n, r ++ t) := by
  simp only [Option.bind_eq_bind, Option.bind_eq_some_iff, Option.pure_def, Option.some.injEq] at h
  obtain ⟨⟨i, s1⟩, hi, ⟨f, s2⟩, hf, ⟨e, s3⟩, he, hn⟩ := h
  simp only [Prod.mk.injEq] at hn
  obtain ⟨rfl, rfl⟩ := hn
  -- each piece leaves something after it, since the last one does
  have hs2 : s2 ≠ [] := by rintro rfl; simp [scanExponent] at he; exact hr he.2
  have hs1 : s1 ≠ [] := by rintro rfl; simp [scanFraction] at hf; exact hs2 hf.2
  rw [scanInt_append hi hs1]
  simp only [Option.bind_eq_bind, Option.bind_some, scanFraction_append hf hs2, scanExponent_append he hr,
    Option.pure_def]

theorem scanNumber_append {s n r : Bytes} (h : scanNumber s = some (n, r)) (hr : r ≠ []) (t : Bytes) :
    scanNumber (s ++ t) = some (n, r ++ t) := by
  rcases s with _ | ⟨c, s⟩
  · simp [scanNumber, scanInt] at h
  simp only [scanNumber, List.cons_append] at h ⊢
  by_cases hm : c = '-'.toUInt8
  · simp only [hm, if_true] at h ⊢
    exact scanNumber_parts_append h hr t
  · simp only [hm, if_false] at h ⊢
    exact scanNumber_parts_append h hr t

/-- a keyword the scanner found is still there, with the same text around it, when more follows -/
theorem isPrefixOf_append {l rest : Bytes} (h : l.isPrefixOf rest) (t : Bytes) :
    l.isPrefixOf (rest ++ t) ∧ (rest ++ t).take l.length = rest.take l.length ∧
      (rest ++ t).drop l.length = rest.drop l.length ++ t := by
  have hp := List.isPrefixOf_iff_prefix.mp h
  have hlen := hp.length_le
  exact ⟨List.isPrefixOf_iff_prefix.mpr (hp.trans (List.prefix_append rest t)), List.take_append_of_le_length hlen,
    List.drop_append_of_le_length hlen⟩

mutual
/-- what follows a value does not change how it is read, once something follows it or it is not a number:
only a number's digits could go on into it -/
theorem scanValue_append : ∀ {n : ℕ} {s r : Bytes} {v : Value}, scanValue n s = some (v, r) →
    (r ≠ [] ∨ ∀ raw, v ≠ .lit raw) → ∀ t, scanValue n (s ++ t) = some (v, r ++ t)
  | 0, _, _, _, h, _, _ => by simp [scanValue] at h
  | n + 1, s, r, v, h, hv, t => by
    rw [scanValue.eq_def] at h ⊢
    dsimp only at h ⊢
    have hne : s.dropWhile isSpace ≠ [] := by
      intro h0
      rw [h0] at h
      exact absurd h (by simp)
    rw [dropWhile_append_of_ne_nil hne]
    generalize s.dropWhile isSpace = s' at h hne ⊢
    rcases s' with _ | ⟨c, rest⟩
    · exact absurd rfl hne
    simp only [List.cons_append]
    dsimp only at h ⊢
    by_cases hq : c = '"'.toUInt8
    · simp only [hq, if_true] at h ⊢
      obtain ⟨⟨p, r'⟩, hs, heq⟩ := Option.map_eq_some_iff.mp h
      rw [scanString_append hs t]
      simp only [Prod.mk.injEq] at heq
      obtain ⟨rfl, rfl⟩ := heq
      rfl
    simp only [hq, if_false] at h ⊢
    by_cases hb : c = '{'.toUInt8
    · simp only [hb, if_true] at h ⊢
      have hne' : rest.dropWhile isSpace ≠ [] := by
        intro h0
        rw [h0] at h
        exact absurd h (by simp)
      rw [dropWhile_append_of_ne_nil hne']
      generalize rest.dropWhile isSpace = r' at h hne' ⊢
      rcases r' with _ | ⟨d, r'⟩
      · exact absurd rfl hne'
      simp only [List.cons_append]
      dsimp only at h ⊢
      split_ifs at h ⊢
      · simp only [Option.some.injEq, Prod.mk.injEq] at h
        obtain ⟨rfl, rfl⟩ := h
        rfl
      · obtain ⟨⟨ms, r''⟩, hs, heq⟩ := Option.map_eq_some_iff.mp h
        rw [← List.cons_append, scanMembers_append hs t]
        simp only [Prod.mk.injEq] at heq
        obtain ⟨rfl, rfl⟩ := heq
        rfl
    simp only [hb, if_false] at h ⊢
    by_cases ha : c = '['.toUInt8
    · simp only [ha, if_true] at h ⊢
      have hne' : rest.dropWhile isSpace ≠ [] := by
        intro h0
        rw [h0] at h
        exact absurd h (by simp)
      rw [dropWhile_append_of_ne_nil hne']
      generalize rest.dropWhile isSpace = r' at h hne' ⊢
      rcases r' with _ | ⟨d, r'⟩
      · exact absurd rfl hne'
      simp only [List.cons_append]
      dsimp only at h ⊢
      split_ifs at h ⊢
      · simp only [Option.some.injEq, Prod.mk.injEq] at h
        obtain ⟨rfl, rfl⟩ := h
        rfl
      · obtain ⟨⟨vs, r''⟩, hs, heq⟩ := Option.map_eq_some_iff.mp h
        rw [← List.cons_append, scanElems_append hs t]
        simp only [Prod.mk.injEq] at heq
        obtain ⟨rfl, rfl⟩ := heq
        rfl
    simp only [ha, if_false] at h ⊢
    -- the keywords: what follows them is not read
    by_cases hn : c = 'n'.toUInt8
    · simp only [hn, if_true] at h ⊢
      split_ifs at h with hp
      obtain ⟨hp', -, hdrop⟩ := isPrefixOf_append hp t
      simp only [Option.some.injEq, Prod.mk.injEq] at h
      obtain ⟨rfl, rfl⟩ := h
      simp only [hp', if_true, show (List.map Char.toUInt8 "ull".toList).length = 3 from rfl] at hdrop ⊢
      rw [hdrop]
    simp only [hn, if_false] at h ⊢
    by_cases ht : c = 't'.toUInt8
    · simp only [ht, if_true] at h ⊢
      split_ifs at h with hp
      obtain ⟨hp', htake, hdrop⟩ := isPrefixOf_append hp t
      simp only [Option.some.injEq, Prod.mk.injEq] at h
      obtain ⟨rfl, rfl⟩ := h
      simp only [hp', if_true, show (List.map Char.toUInt8 "rue".toList).length = 3 from rfl] at htake hdrop ⊢
      rw [htake, hdrop]
    simp only [ht, if_false] at h ⊢
    by_cases hf : c = 'f'.toUInt8
    · simp only [hf, if_true] at h ⊢
      split_ifs at h with hp
      obtain ⟨hp', htake, hdrop⟩ := isPrefixOf_append hp t
      simp only [Option.some.injEq, Prod.mk.injEq] at h
      obtain ⟨rfl, rfl⟩ := h
      simp only [hp', if_true, show (List.map Char.toUInt8 "alse".toList).length = 4 from rfl] at htake hdrop ⊢
      rw [htake, hdrop]
    simp only [hf, if_false] at h ⊢
    -- a number: something follows it, or the text of the whole number could change
    split_ifs at h ⊢ with hd
    obtain ⟨⟨raw, r'⟩, hs, heq⟩ := Option.map_eq_some_iff.mp h
    simp only [Prod.mk.injEq] at heq
    obtain ⟨rfl, rfl⟩ := heq
    have hr' : r' ≠ [] := hv.resolve_right fun hlit => hlit raw rfl
    rw [← List.cons_append, scanNumber_append hs hr' t]
    rfl
theorem scanMembers_append : ∀ {n : ℕ} {s r : Bytes} {ms : List (Bytes × Value)}, scanMembers n s = some (ms, r) →
    ∀ t, scanMembers n (s ++ t) = some (ms, r ++ t)
  | 0, _, _, _, h, _ => by simp [scanMembers] at h
  | n + 1, s, r, ms, h, t => by
    rw [scanMembers.eq_def] at h ⊢
    dsimp only at h ⊢
    have hne : s.dropWhile isSpace ≠ [] := by
      intro h0
      rw [h0] at h
      exact absurd h (by simp)
    rw [dropWhile_append_of_ne_nil hne]
    generalize s.dropWhile isSpace = s' at h hne ⊢
    rcases s' with _ | ⟨c, rest⟩
    · exact absurd rfl hne
    simp only [List.cons_append]
    dsimp only at h ⊢
    split_ifs at h ⊢
    -- the key, the colon, the value, then a comma and more members or the closing brace
    cases hk : scanString rest with
    | none => simp [hk] at h
    | some kr =>
      obtain ⟨key, r1⟩ := kr
      rw [hk] at h
      rw [scanString_append hk t]
      dsimp only at h ⊢
      have hne1 : r1.dropWhile isSpace ≠ [] := by
        intro h0
        rw [h0] at h
        exact absurd h (by simp)
      rw [dropWhile_append_of_ne_nil hne1]
      generalize r1.dropWhile isSpace = r1' at h hne1 ⊢
      rcases r1' with _ | ⟨d, r2⟩
      · exact absurd rfl hne1
      simp only [List.cons_append]
      dsimp only at h ⊢
      split_ifs at h ⊢
      cases hv : scanValue n r2 with
      | none => simp [hv] at h
      | some vr =>
        obtain ⟨v, r3⟩ := vr
        rw [hv] at h
        dsimp only at h
        have hne3 : r3.dropWhile isSpace ≠ [] := by
          intro h0
          rw [h0] at h
          exact absurd h (by simp)
        have hr3 : r3 ≠ [] := by
          rintro rfl
          exact hne3 rfl
        rw [scanValue_append hv (.inl hr3) t]
        dsimp only
        rw [dropWhile_append_of_ne_nil hne3]
        generalize r3.dropWhile isSpace = r3' at h hne3 ⊢
        rcases r3' with _ | ⟨e, r4⟩
        · exact absurd rfl hne3
        simp only [List.cons_append]
        dsimp only at h ⊢
        split_ifs at h ⊢
        · obtain ⟨⟨ms', r5⟩, hs, heq⟩ := Option.map_eq_some_iff.mp h
          rw [scanMembers_append hs t]
          simp only [Prod.mk.injEq] at heq
          obtain ⟨rfl, rfl⟩ := heq
          rfl
        · simp only [Option.some.injEq, Prod.mk.injEq] at h
          obtain ⟨rfl, rfl⟩ := h
          rfl
theorem scanElems_append : ∀ {n : ℕ} {s r : Bytes} {vs : List Value}, scanElems n s = some (vs, r) →
    ∀ t, scanElems n (s ++ t) = some (vs, r ++ t)
  | 0, _, _, _, h, _ => by simp [scanElems] at h
  | n + 1, s, r, vs, h, t => by
    rw [scanElems.eq_def] at h ⊢
    dsimp only at h ⊢
    cases hv : scanValue n s with
    | none => simp [hv] at h
    | some vr =>
      obtain ⟨v, r3⟩ := vr
      rw [hv] at h
      dsimp only at h
      have hne3 : r3.dropWhile isSpace ≠ [] := by
        intro h0
        rw [h0] at h
        exact absurd h (by simp)
      have hr3 : r3 ≠ [] := by
        rintro rfl
        exact hne3 rfl
      rw [scanValue_append hv (.inl hr3) t]
      dsimp only
      rw [dropWhile_append_of_ne_nil hne3]
      generalize r3.dropWhile isSpace = r3' at h hne3 ⊢
      rcases r3' with _ | ⟨e, r4⟩
      · exact absurd rfl hne3
      simp only [List.cons_append]
      dsimp only at h ⊢
      split_ifs at h ⊢
      · obtain ⟨⟨vs', r5⟩, hs, heq⟩ := Option.map_eq_some_iff.mp h
        rw [scanElems_append hs t]
        simp only [Prod.mk.injEq] at heq
        obtain ⟨rfl, rfl⟩ := heq
        rfl
      · simp only [Option.some.injEq, Prod.mk.injEq] at h
        obtain ⟨rfl, rfl⟩ := h
        rfl
end

/-! ### Objects written member by member -/

/-- a value's text that the scanner reads as `v` whatever follows it, given enough fuel, leaving at most white
space before what follows -/
def ScansTo (vt : Bytes) (v : Value) : Prop :=
  ∀ m e t, vt.length < m → isSpace e = false →
    ∃ sp, (∀ c ∈ sp, isSpace c) ∧ scanValue m (vt ++ e :: t) = some (v, sp ++ e :: t)

/-- a key the scanner reads back as it is -/
def PlainKey (k : Bytes) : Prop := ∀ r, scanString (k ++ 0x22 :: r) = some (k, r)

/-- a member `"key":value` as the writers put it -/
def memberText (key vt : Bytes) : Bytes := 0x22 :: key ++ 0x22 :: 0x3A :: vt

/-- one member and what follows it -/
theorem scanMembers_member {key vt : Bytes} {v : Value} (hk : PlainKey key) (hv : ScansTo vt v) (e : UInt8)
    (he : isSpace e = false) (t : Bytes) (m : ℕ) (hm : vt.length < m) :
    scanMembers (m + 1) (memberText key vt ++ e :: t) =
      if e = ','.toUInt8 then (scanMembers m t).map fun p => ((key, v) :: p.1, p.2)
      else if e = '}'.toUInt8 then some ([(key, v)], t) else none := by
  obtain ⟨sp, hsp, hscan⟩ := hv m e t hm he
  rw [scanMembers.eq_def]
  have hsp' : (sp ++ e :: t).dropWhile isSpace = e :: t := by
    rw [List.dropWhile_append_of_pos hsp, List.dropWhile_cons, he, if_neg (by decide)]
  simp only [memberText, List.cons_append, List.append_assoc, List.dropWhile_cons,
    show isSpace 34 = false by decide, show isSpace 58 = false by decide, Bool.false_eq_true, if_false,
    show ('"' : Char).toUInt8 = 34 from rfl, show (':' : Char).toUInt8 = 58 from rfl, ne_eq, not_true_eq_false,
    hk (58 :: (vt ++ e :: t)), hscan, hsp']

/-- members each followed by a comma, then a last one and the closing brace, as `MarshalJSONBuf` writes them -/
theorem scanMembers_fields {fields : List (Bytes × Bytes × Value)}
    (hfields : ∀ f ∈ fields, PlainKey f.1 ∧ ScansTo f.2.1 f.2.2) {key vt : Bytes} {v : Value} (hk : PlainKey key)
    (hv : ScansTo vt v) (t : Bytes) (m : ℕ)
    (hm : ((fields.map fun (f : Bytes × Bytes × Value) => memberText f.1 f.2.1 ++ [0x2C]).flatten ++
      memberText key vt).length < m) :
    scanMembers m ((fields.map fun f => memberText f.1 f.2.1 ++ [0x2C]).flatten ++ memberText key vt ++ 0x7D :: t) =
      some (fields.map (fun f => (f.1, f.2.2)) ++ [(key, v)], t) := by
  induction fields generalizing m with
  | nil =>
    obtain ⟨m, rfl⟩ : ∃ m', m = m' + 1 := ⟨m - 1, by simp [memberText] at hm; omega⟩
    simp only [List.map_nil, List.flatten_nil, List.nil_append] at hm ⊢
    rw [scanMembers_member hk hv 0x7D (by decide) t m (by simp [memberText] at hm; omega)]
    rfl
  | cons f fs ih =>
    obtain ⟨hf, hfs⟩ := List.forall_mem_cons.mp hfields
    obtain ⟨m, rfl⟩ : ∃ m', m = m' + 1 := ⟨m - 1, by simp [memberText] at hm; omega⟩
    simp only [List.map_cons, List.flatten_cons, List.append_assoc, List.length_append, List.length_cons,
      List.length_nil] at hm ⊢
    rw [List.singleton_append, scanMembers_member hf.1 hf.2 0x2C (by decide) _ m
      (by simp [memberText] at hm; omega), if_pos (show (44 : UInt8) = ','.toUInt8 from rfl),
      ← List.append_assoc, ih hfs m (by simp only [List.length_append] at hm ⊢; omega)]
    rfl

/-- bytes the scanner passes over inside a string: no control character, quote or backslash -/
theorem scanString_plain {cs : Bytes} (h : ∀ c ∈ cs, 0x20 ≤ c ∧ c ≠ '"'.toUInt8 ∧ c ≠ '\\'.toUInt8) (t : Bytes) :
    scanString (cs ++ t) = (scanString t).map fun p => (cs ++ p.1, p.2) := by
  induction cs with
  | nil => simp
  | cons c cs ih =>
    obtain ⟨⟨hsp, hq, hb⟩, hcs⟩ := List.forall_mem_cons.mp h
    rw [List.cons_append, scanString.eq_def]
    dsimp only
    have hnlt : ¬c < 0x20 := fun hlt =>
      absurd (UInt8.lt_iff_toNat_lt.mp hlt) (not_lt.mpr (UInt8.le_iff_toNat_le.mp hsp))
    rw [if_neg hq, if_neg hb, if_neg hnlt, ih hcs, Option.map_map]
    rfl

/-- an escape the scanner accepts inside a string -/
theorem scanString_escape {e : UInt8} (he : e ∈ "\"\\/bfnrt".toList.map Char.toUInt8) (t : Bytes) :
    scanString ('\\'.toUInt8 :: e :: t) = (scanString t).map fun p => ('\\'.toUInt8 :: e :: p.1, p.2) := by
  rw [scanString.eq_def]
  simp only [show ('\\' : Char).toUInt8 ≠ '"'.toUInt8 by decide, if_false, if_true, he]

/-- a `\\u` escape with four hex digits -/
theorem scanString_escape_u {h1 h2 h3 h4 : UInt8} (hh : [h1, h2, h3, h4].all fun h => (hexVal? h).isSome) (t : Bytes) :
    scanString ('\\'.toUInt8 :: 'u'.toUInt8 :: h1 :: h2 :: h3 :: h4 :: t) =
      (scanString t).map fun p => ('\\'.toUInt8 :: 'u'.toUInt8 :: h1 :: h2 :: h3 :: h4 :: p.1, p.2) := by
  rw [scanString.eq_def]
  simp only [show ('\\' : Char).toUInt8 ≠ '"'.toUInt8 by decide, if_false, if_true,
    show 'u'.toUInt8 ∉ "\"\\/bfnrt".toList.map Char.toUInt8 by decide, hh]

@[simp] theorem scanString_quote (r : Bytes) : scanString (0x22 :: r) = some ([], r) := by
  rw [scanString.eq_def]
  rfl

theorem PlainKey.of_plain {k : Bytes} (h : ∀ c ∈ k, 0x20 ≤ c ∧ c ≠ '"'.toUInt8 ∧ c ≠ '\\'.toUInt8) : PlainKey k := by
  intro r
  rw [scanString_plain h, scanString_quote]
  simp

/-- a value `Decode` reads, with only white space after it, is read the same inside a larger text -/
theorem ScansTo.of_decodeValue {raw rest : Bytes} {v : Value} (h : decodeValue raw = .ok v rest)
    (hrest : ∀ c ∈ rest, isSpace c) (hv : ∀ x, v ≠ .lit x) : ScansTo raw v := by
  intro m e t hm he
  simp only [decodeValue] at h
  split_ifs at h
  split at h
  · next v' rest' hscan =>
    simp only [Decoded.ok.injEq] at h
    obtain ⟨rfl, rfl⟩ := h
    exact ⟨rest', hrest, scanValue_append (scanValue_mono hscan hm) (.inr hv) (e :: t)⟩
  · cases h

/-- an object written as members each followed by a comma, a last member and the closing brace is the one value of
its text -/
theorem decodeValue_object {fields : List (Bytes × Bytes × Value)}
    (hfields : ∀ f ∈ fields, PlainKey f.1 ∧ ScansTo f.2.1 f.2.2) {key vt : Bytes} {v : Value} (hk : PlainKey key)
    (hv : ScansTo vt v) :
    decodeValue (0x7B :: (fields.map fun (f : Bytes × Bytes × Value) => memberText f.1 f.2.1 ++ [0x2C]).flatten ++
      memberText key vt ++ [0x7D]) = .ok (.obj (fields.map (fun f => (f.1, f.2.2)) ++ [(key, v)])) [] := by
  -- the members start with the quote of a key
  obtain ⟨rest, hrest⟩ : ∃ rest, (fields.map fun (f : Bytes × Bytes × Value) => memberText f.1 f.2.1 ++ [0x2C]).flatten ++
      memberText key vt ++ [0x7D] = 0x22 :: rest := by
    cases fields with
    | nil => exact ⟨_, rfl⟩
    | cons f fs => exact ⟨_, rfl⟩
  have hscan := scanMembers_fields hfields hk hv [] (rest.length + 2)
    (by have := congrArg List.length hrest; simp only [List.length_append, List.length_cons] at this ⊢; omega)
  rw [hrest] at hscan
  rw [decodeValue, if_neg (by simp [show isSpace 0x7B = false by decide]), List.cons_append, List.cons_append, hrest,
    List.length_cons, List.length_cons, scanValue.eq_def]
  simp only [List.dropWhile_cons, show isSpace 0x7B = false by decide, show isSpace 0x22 = false by decide,
    Bool.false_eq_true, if_false, show ('"' : Char).toUInt8 = 0x22 from rfl, show ('{' : Char).toUInt8 = 0x7B from rfl,
    show ('}' : Char).toUInt8 = 0x7D from rfl]
  simp only [show ¬(0x7B : UInt8) = 0x22 by decide, show ¬(0x22 : UInt8) = 0x7D by decide, if_false, if_true, hscan,
    Option.map_some]

/-- a string whose body the scanner reads up to its closing quote -/
theorem scanValue_string {body : Bytes} (h : ∀ r, scanString (body ++ 0x22 :: r) = some (body, r)) (m : ℕ)
    (t : Bytes) : scanValue (m + 1) (0x22 :: body ++ 0x22 :: t) = some (.str body, t) := by
  rw [scanValue.eq_def]
  simp only [List.cons_append, List.dropWhile_cons, show isSpace 0x22 = false by decide, Bool.false_eq_true,
    if_false, show ('"' : Char).toUInt8 = 0x22 from rfl, if_true, h, Option.map_some]

theorem ScansTo.string {body : Bytes} (h : ∀ r, scanString (body ++ 0x22 :: r) = some (body, r)) :
    ScansTo (0x22 :: body ++ [0x22]) (.str body) := by
  intro m e t hm _
  obtain ⟨m, rfl⟩ : ∃ m', m = m' + 1 := ⟨m - 1, by simp at hm; omega⟩
  refine ⟨[], by simp, ?_⟩
  rw [List.append_assoc, List.singleton_append, scanValue_string h]
  rfl

/-- such a string is the one value of its text -/
theorem decodeValue_string {body : Bytes} (h : ∀ r, scanString (body ++ 0x22 :: r) = some (body, r)) :
    decodeValue (0x22 :: body ++ [0x22]) = .ok (.str body) [] := by
  rw [decodeValue, if_neg (by simp [show isSpace 0x22 = false by decide]), scanValue_string h]

/-! ### `unquoteBytes`, a byte at a time -/

/-- a byte of ASCII that needs no escape is kept -/
theorem unquote_plain {c : UInt8} (hsp : 0x20 ≤ c) (hlt : c < 0x80) (hq : c ≠ '"'.toUInt8) (hb : c ≠ '\\'.toUInt8)
    (t : Bytes) : unquote (c :: t) = (c :: ·) <$> unquote t := by
  have hnlt : ¬c < 0x20 := fun h => absurd (UInt8.lt_iff_toNat_lt.mp h) (not_lt.mpr (UInt8.le_iff_toNat_le.mp hsp))
  rw [unquote.eq_def]
  dsimp only
  simp [hb, hq, hnlt, hlt]

/-- text of ASCII with nothing to unescape is its own value -/
theorem unquote_of_plain {s : Bytes} (h : ∀ c ∈ s, 0x20 ≤ c ∧ c < 0x80 ∧ c ≠ '"'.toUInt8 ∧ c ≠ '\\'.toUInt8) :
    unquote s = some s := by
  induction s with
  | nil => rw [unquote.eq_def]
  | cons c s ih =>
    obtain ⟨⟨hsp, hlt, hq, hb⟩, hs⟩ := List.forall_mem_cons.mp h
    rw [unquote_plain hsp hlt hq hb, ih hs]
    rfl

/-- a byte past ASCII starts a rune, read by `DecodeRune` -/
theorem unquote_high {c : UInt8} (h : 0x80 ≤ c) (t : Bytes) :
    unquote (c :: t) = (encodeRune (decodeRune (c :: t)).1 ++ ·) <$> unquote ((c :: t).drop (decodeRune (c :: t)).2) := by
  have hc : 0x80 ≤ c.toNat := by simpa using UInt8.le_iff_toNat_le.mp h
  have hnlt : ¬c < 0x80 := by rw [UInt8.lt_iff_toNat_lt]; simpa using hc
  have hb : c ≠ '\\'.toUInt8 := by rintro rfl; exact absurd hc (by decide)
  have hq : ¬(c = '"'.toUInt8 ∨ c < 0x20) := by
    rintro (rfl | h')
    · exact absurd hc (by decide)
    · rw [UInt8.lt_iff_toNat_lt] at h'
      simp at h'
      omega
  rw [unquote.eq_def]
  dsimp only
  simp only [hb, if_false, hq, hnlt]

/-- a two-byte escape other than `\\u` -/
theorem unquote_escape {e b : UInt8} (he : e ≠ 'u'.toUInt8) (hb : escapeChar? e = some b) (t : Bytes) :
    unquote ('\\'.toUInt8 :: e :: t) = (b :: ·) <$> unquote t := by
  rw [unquote.eq_def]
  dsimp only
  simp [he, hb]

/-- a `\\u` escape of a rune outside the surrogates -/
theorem unquote_escape_u {h1 h2 h3 h4 : UInt8} {r : ℕ}
    (hu : getu4 ['\\'.toUInt8, 'u'.toUInt8, h1, h2, h3, h4] = some r) (hs : isSurrogate r = false) (t : Bytes) :
    unquote ('\\'.toUInt8 :: 'u'.toUInt8 :: h1 :: h2 :: h3 :: h4 :: t) = (encodeRune r ++ ·) <$> unquote t := by
  have hu' : getu4 ('\\'.toUInt8 :: 'u'.toUInt8 :: h1 :: h2 :: h3 :: h4 :: t) = some r := by
    simpa [getu4] using hu
  rw [unquote.eq_def]
  dsimp only
  simp [hu', hs]

end DockerEngine.Go.Json
