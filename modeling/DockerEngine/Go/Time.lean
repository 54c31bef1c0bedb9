/-
Lean model of the part of Go's `time` package that the json-file log driver uses: `Time.Format` with the layout
`"2006-01-02T15:04:05.999999999Z07:00"` (`RFC3339Nano`, quoted, as `jsonlog.FastTimeMarshalJSON` writes a time) and
`Time.UnmarshalJSON`, which is `Parse` with the quoted `RFC3339` layout.

A time is its instant, seconds and nanoseconds since 1970-01-01 UTC, with the offset east of UTC of its location at
that instant; the wall clock is the instant moved by the offset. The civil date of a day count is computed by the
days-of-era method, which gives the proleptic Gregorian date that Go's `absDate` gives. `Format` writes the zone
`Z07:00` as hours and minutes of the offset, truncated towards zero as Go's integer division does. `Parse` reads the
fields back and takes the offset it reads off the wall clock; a day past the end of its month is carried into the
next, as `Date` normalizes it. An offset that is not a whole number of minutes loses its seconds in the text.
-/
import DockerEngine.Go.Strings
import DockerEngine.Lib.Prelude
import Mathlib.Tactic

namespace DockerEngine.Go

/-- a `time.Time`: its instant and the offset of its location -/
structure Time where
  /-- seconds since 1970-01-01 UTC -/
  sec : ℤ
  nsec : ℕ
  /-- seconds east of UTC -/
  offset : ℤ
  deriving DecidableEq, Repr

namespace Time

/-- `t.Equal(u)`: the same instant -/
def Equal (t u : Time) : Prop := t.sec = u.sec ∧ t.nsec = u.nsec

instance (t u : Time) : Decidable (Equal t u) := inferInstanceAs (Decidable (_ ∧ _))

/-! ## Civil dates -/

/-- the year, month and day of the day `z` counted from 1970-01-01 -/
def civilFromDays (z : ℤ) : ℤ × ℤ × ℤ :=
  let z := z + 719468
  let era := z / 146097
  let doe := z - era * 146097
  let yoe := (doe - doe / 1460 + doe / 36524 - doe / 146096) / 365
  let doy := doe - (365 * yoe + yoe / 4 - yoe / 100)
  let mp := (5 * doy + 2) / 153
  let d := doy - (153 * mp + 2) / 5 + 1
  let m := if mp < 10 then mp + 3 else mp - 9
  (if m ≤ 2 then yoe + era * 400 + 1 else yoe + era * 400, m, d)

/-- the day, counted from 1970-01-01, of year `y`, month `m` and day `d` of the month -/
def daysFromCivil (y m d : ℤ) : ℤ :=
  let y := if m ≤ 2 then y - 1 else y
  let era := y / 400
  let yoe := y - era * 400
  let mp := if 2 < m then m - 3 else m + 9
  let doy := (153 * mp + 2) / 5 + d - 1
  era * 146097 + yoe * 365 + yoe / 4 - yoe / 100 + doy - 719468

/-- the wall clock of `t` in seconds since 1970-01-01 of its location -/
def wall (t : Time) : ℤ := t.sec + t.offset

/-- `t.Year()` -/
def year (t : Time) : ℤ := (civilFromDays (t.wall / 86400)).1

/-! ## `Format` -/

/-- `appendInt(b, x, width)` for `x ≥ 0`: the decimal digits of `x`, padded with zeros to `width` -/
def appendInt (x : ℕ) (width : ℕ) : Text :=
  let ds := Nat.toDigits 10 x
  List.replicate (width - ds.length) '0' ++ ds

/-- `formatNano(b, nanosec, 9, true)`: a dot and nine digits, trailing zeros trimmed; nothing for no nanoseconds -/
def formatNano (nanosec : ℕ) : Text :=
  let digits := (appendInt nanosec 9).reverse.dropWhile (· = '0')
  if digits = [] then [] else '.' :: digits.reverse

/-- the zone `Z07:00`: `Z` for UTC, otherwise the sign and the hours and minutes of the offset in minutes -/
def formatZone (offset : ℤ) : Text :=
  if offset = 0 then ['Z']
  else
    let zone := offset.tdiv 60
    (if zone < 0 then '-' else '+') :: appendInt (zone.natAbs / 60) 2 ++ ':' :: appendInt (zone.natAbs % 60) 2

/-- `t.Format("\"2006-01-02T15:04:05.999999999Z07:00\"")` for a year of `[0, 9999]` -/
def formatRFC3339Nano (t : Time) : Text :=
  let (y, m, d) := civilFromDays (t.wall / 86400)
  let s := t.wall % 86400
  '"' :: appendInt y.toNat 4 ++ '-' :: appendInt m.toNat 2 ++ '-' :: appendInt d.toNat 2 ++
    'T' :: appendInt (s / 3600).toNat 2 ++ ':' :: appendInt (s / 60 % 60).toNat 2 ++ ':' :: appendInt (s % 60).toNat 2 ++
    formatNano t.nsec ++ formatZone t.offset ++ ['"']

/-! ## `Parse` -/

/-- the value of a decimal digit -/
def digitVal? (c : Char) : Option ℕ := if c.isDigit then some (c.toNat - '0'.toNat) else none

/-- `leadingInt`'s value of a run of digits, all of `s` -/
def digitsVal? : Text → Option ℕ
  | [] => some 0
  | c :: cs => do
    let d ← digitVal? c
    let v ← digitsVal? cs
    pure (d * 10 ^ cs.length + v)

/-- `atoi(s)`: an optional sign and at least one digit, nothing else -/
def atoi? (s : Text) : Option ℤ :=
  let (neg, s) := match s with
    | '-' :: s => (true, s)
    | '+' :: s => (false, s)
    | s => (false, s)
  if s = [] then none else (digitsVal? s).map fun v => if neg then -(v : ℤ) else v

/-- `getnum(s, fixed)`: one or two digits, two if `fixed` -/
def getnum? (s : Text) (fixed : Bool) : Option (ℕ × Text) :=
  match s with
  | c0 :: c1 :: rest =>
    match digitVal? c0, digitVal? c1 with
    | some d0, some d1 => some (d0 * 10 + d1, rest)
    | some d0, none => if fixed then none else some (d0, c1 :: rest)
    | none, _ => none
  | [c0] => if fixed then none else (digitVal? c0).map fun d => (d, [])
  | [] => none

/-- `skip(value, prefix)` for a one-character literal of the layout -/
def skipChar? (c : Char) : Text → Option Text
  | d :: rest => if d = c then some rest else none
  | [] => none

/-- the fractional second `Parse` reads after the seconds when the layout has none: a dot and digits, scaled to
nanoseconds from their count; nothing when the text does not go on with a dot and a digit -/
def parseFraction? (value : Text) : Option (ℕ × Text) :=
  match value with
  | '.' :: c :: _ =>
    if c.isDigit then
      let digits := (value.drop 1).takeWhile Char.isDigit
      do
        let ns ← atoi? digits
        -- `parseNanoseconds`: `ns < 0 || 1e9 <= ns` is out of range
        if ns < 0 ∨ 1000000000 ≤ ns then none
        else some (ns.toNat * 10 ^ (9 - digits.length), value.drop (digits.length + 1))
    else some (0, value)
  | _ => some (0, value)

/-- the zone `Z07:00` as `Parse` reads it: `Z`, or a sign, two hour digits, a colon and two minute digits; the
offset in seconds -/
def parseZone? (value : Text) : Option (ℤ × Text) :=
  match value with
  | 'Z' :: rest => some (0, rest)
  | sign :: h0 :: h1 :: ':' :: m0 :: m1 :: rest => do
    let hr ← atoi? [h0, h1]
    let mm ← atoi? [m0, m1]
    let zoneOffset := (hr * 60 + mm) * 60
    if sign = '+' then some (zoneOffset, rest)
    else if sign = '-' then some (-zoneOffset, rest)
    else none
  | _ => none

/-- `time.Parse("\"2006-01-02T15:04:05Z07:00\"", value)`, as `Time.UnmarshalJSON` calls it; none for a `ParseError` -/
def parseRFC3339 (value : Text) : Option Time := do
  let value ← skipChar? '"' value
  -- `stdLongYear`: four characters, the first a digit
  let year ← if 4 ≤ value.length ∧ (value.head?.map Char.isDigit) = some true then atoi? (value.take 4) else none
  let value ← skipChar? '-' (value.drop 4)
  let (month, value) ← getnum? value true
  if month = 0 ∨ 12 < month then none
  let value ← skipChar? '-' value
  let (day, value) ← getnum? value true
  if 31 < day then none
  let value ← skipChar? 'T' value
  let (hour, value) ← getnum? value false
  if 24 ≤ hour then none
  let value ← skipChar? ':' value
  let (min, value) ← getnum? value true
  if 60 ≤ min then none
  let value ← skipChar? ':' value
  let (sec, value) ← getnum? value true
  if 60 ≤ sec then none
  let (nsec, value) ← parseFraction? value
  let (zoneOffset, value) ← parseZone? value
  let value ← skipChar? '"' value
  if value ≠ [] then none
  -- `Date(year, month, day, hour, min, sec, nsec, UTC)`, then the offset taken off
  let wall := daysFromCivil year month day * 86400 + hour * 3600 + min * 60 + sec
  pure ⟨wall - zoneOffset, nsec, zoneOffset⟩

/-! ## `Parse` reads back what `Format` writes

`Format` writes each field in decimal, padded to its width, and the fraction with its trailing zeros trimmed; `Parse`
reads each one back (`getnum?_appendInt`, `parseFraction?_formatNano`). The date is the civil date of the day count,
and `daysFromCivil` undoes `civilFromDays` for every day (`civilFromDays_spec`). The zone is the one lossy field: it
is read back as the offset in whole minutes (`parseZone?_formatZone`), so the instant moves by the seconds of the
offset (`parseRFC3339_formatRFC3339Nano`), and comes back unchanged when the offset is whole minutes. -/

/-! ### Digits -/

theorem digitVal?_digitChar {n : ℕ} (h : n < 10) : digitVal? n.digitChar = some n := by
  simp [digitVal?, Nat.isDigit_digitChar, h, Nat.toNat_digitChar_sub_48_of_lt_ten h]

theorem digitsVal?_append {l₁ l₂ : Text} {v₁ v₂ : ℕ} (h₁ : digitsVal? l₁ = some v₁) (h₂ : digitsVal? l₂ = some v₂) :
    digitsVal? (l₁ ++ l₂) = some (v₁ * 10 ^ l₂.length + v₂) := by
  induction l₁ generalizing v₁ with
  | nil =>
    obtain rfl : 0 = v₁ := by simpa [digitsVal?] using h₁
    simp [h₂]
  | cons c cs ih =>
    simp only [digitsVal?, Option.bind_eq_bind, Option.bind_eq_some_iff, Option.pure_def, Option.some.injEq] at h₁
    obtain ⟨d, hd, v, hv, rfl⟩ := h₁
    simp only [List.cons_append, digitsVal?, hd, ih hv, Option.bind_eq_bind, Option.bind_some, Option.pure_def,
      List.length_append, Option.some.injEq]
    ring

theorem digitsVal?_replicate_zero (k : ℕ) : digitsVal? (List.replicate k '0') = some 0 := by
  induction k with
  | zero => rfl
  | succ k ih => simp [List.replicate_succ, digitsVal?, ih, digitVal?]

theorem digitsVal?_toDigits (x : ℕ) : digitsVal? (Nat.toDigits 10 x) = some x := by
  induction x using Nat.strong_induction_on with
  | _ x ih =>
    rcases Nat.lt_or_ge x 10 with hx | hx
    · simp [Nat.toDigits_of_lt_base hx, digitsVal?, digitVal?_digitChar hx]
    · rw [Nat.toDigits_of_base_le (by norm_num) hx,
        digitsVal?_append (ih _ (by omega)) 
        (show digitsVal? [(x % 10).digitChar] = some (x % 10) by
          simp [digitsVal?, digitVal?_digitChar (Nat.mod_lt x (by norm_num))])]
      simp only [List.length_singleton, pow_one, Option.some.injEq]
      omega

theorem length_appendInt {x w : ℕ} (hw : 0 < w) (h : x < 10 ^ w) : (appendInt x w).length = w := by
  have := (Nat.length_toDigits_le_iff (by norm_num) hw).mpr h
  simp only [appendInt, List.length_append, List.length_replicate]
  omega

theorem digitsVal?_appendInt (x w : ℕ) : digitsVal? (appendInt x w) = some x := by
  rw [appendInt, digitsVal?_append (digitsVal?_replicate_zero _) (digitsVal?_toDigits x)]
  simp

theorem isDigit_of_mem_appendInt {x w : ℕ} {c : Char} (h : c ∈ appendInt x w) : c.isDigit := by
  simp only [appendInt, List.mem_append, List.mem_replicate] at h
  rcases h with ⟨-, rfl⟩ | h
  · rfl
  · exact Nat.isDigit_of_mem_toDigits (by norm_num) (by norm_num) h

theorem exists_digitsVal? {l : Text} (h : ∀ c ∈ l, c.isDigit) : ∃ v, digitsVal? l = some v := by
  induction l with
  | nil => exact ⟨0, rfl⟩
  | cons c cs ih =>
    obtain ⟨v, hv⟩ := ih fun c' hc' => h c' (by simp [hc'])
    exact ⟨(c.toNat - '0'.toNat) * 10 ^ cs.length + v, by simp [digitsVal?, digitVal?, h c (by simp), hv]⟩

theorem atoi?_of_isDigit {s : Text} (hs : s ≠ []) (hd : ∀ c ∈ s, c.isDigit) :
    atoi? s = (digitsVal? s).map Int.ofNat := by
  obtain ⟨c, cs, rfl⟩ := List.exists_cons_of_ne_nil hs
  have hc := hd c (by simp)
  have hminus : c ≠ '-' := by rintro rfl; exact absurd hc (by decide)
  have hplus : c ≠ '+' := by rintro rfl; exact absurd hc (by decide)
  simp only [atoi?]
  -- the first character is a digit, so neither sign branch is taken
  split
  · simp_all
  · simp_all
  · cases digitsVal? (c :: cs) <;> rfl

theorem atoi?_appendInt {x w : ℕ} (hw : 0 < w) (hx : x < 10 ^ w) : atoi? (appendInt x w) = some (x : ℤ) := by
  rw [atoi?_of_isDigit (List.ne_nil_of_length_pos (by rw [length_appendInt hw hx]; exact hw))
    fun c hc => isDigit_of_mem_appendInt hc, digitsVal?_appendInt]
  rfl

/-- two digits, as `Format` writes a month, a day, an hour, a minute or a second -/
theorem appendInt_two {x : ℕ} (hx : x < 100) : appendInt x 2 = [(x / 10).digitChar, (x % 10).digitChar] := by
  rcases Nat.lt_or_ge x 10 with h | h
  · simp [appendInt, Nat.toDigits_of_lt_base h, Nat.div_eq_of_lt h, Nat.mod_eq_of_lt h]
  · rw [appendInt, Nat.toDigits_of_base_le (by norm_num) h, Nat.toDigits_of_lt_base (by omega)]
    simp

theorem getnum?_appendInt {x : ℕ} (hx : x < 100) (fixed : Bool) (rest : Text) :
    getnum? (appendInt x 2 ++ rest) fixed = some (x, rest) := by
  rw [appendInt_two hx]
  simp only [List.cons_append, List.nil_append, getnum?, digitVal?_digitChar (show x / 10 < 10 by omega),
    digitVal?_digitChar (Nat.mod_lt x (by norm_num))]
  congr 2
  omega

theorem atoi?_two {x : ℕ} (hx : x < 100) : atoi? [(x / 10).digitChar, (x % 10).digitChar] = some (x : ℤ) := by
  rw [← appendInt_two hx]
  exact atoi?_appendInt (by norm_num) (by norm_num; omega)

/-! ### Fields -/

@[simp] theorem skipChar?_cons_self (c : Char) (rest : Text) : skipChar? c (c :: rest) = some rest := by
  simp [skipChar?]

/-- the nine digits of the nanoseconds are the digits `formatNano` keeps, then the zeros it trims -/
theorem appendInt_nine_eq (n : ℕ) :
    appendInt n 9 = ((appendInt n 9).reverse.dropWhile (· = '0')).reverse ++
      List.replicate ((appendInt n 9).reverse.takeWhile (· = '0')).length '0' := by
  have hT : (appendInt n 9).reverse.takeWhile (· = '0') =
      List.replicate ((appendInt n 9).reverse.takeWhile (· = '0')).length '0' :=
    List.eq_replicate_iff.mpr ⟨rfl, fun c hc => by simpa using List.mem_takeWhile_imp hc⟩
  conv_lhs => rw [← List.reverse_reverse (appendInt n 9), ← List.takeWhile_append_dropWhile (p := (· = '0'))
    (l := (appendInt n 9).reverse), List.reverse_append, hT, List.reverse_replicate]

theorem parseFraction?_formatNano {n : ℕ} (hn : n < 10 ^ 9) {rest : Text}
    (hrest : ∀ c r, rest = c :: r → c.isDigit = false ∧ c ≠ '.') :
    parseFraction? (formatNano n ++ rest) = some (n, rest) := by
  have hsplit := appendInt_nine_eq n
  unfold formatNano
  generalize (appendInt n 9).reverse.dropWhile (· = '0') = D at hsplit ⊢
  generalize ((appendInt n 9).reverse.takeWhile (· = '0')).length = k at hsplit
  have hlen : D.length + k = 9 := by
    have := length_appendInt (by norm_num) hn
    rw [hsplit] at this
    simpa using this
  have hdig : ∀ c ∈ D.reverse, c.isDigit := fun c hc => isDigit_of_mem_appendInt (hsplit ▸ List.mem_append_left _ hc)
  obtain ⟨v, hv⟩ := exists_digitsVal? hdig
  have hval : n = v * 10 ^ k := by
    have := digitsVal?_appendInt n 9
    rw [hsplit, digitsVal?_append hv (digitsVal?_replicate_zero _)] at this
    simpa using this.symm
  by_cases hD : D = []
  · -- no digit kept: the nanoseconds are zero and nothing is written before the zone
    subst hD
    obtain rfl : v = 0 := by simpa [digitsVal?] using hv.symm
    simp only [zero_mul] at hval
    subst hval
    rcases rest with _ | ⟨c, r⟩
    · rfl
    · simp [parseFraction?, (hrest c r rfl).2]
  obtain ⟨c, cs, hcs⟩ := List.exists_cons_of_ne_nil (mt List.reverse_eq_nil_iff.mp hD)
  rw [hcs] at hdig hv
  have hc : c.isDigit := hdig c (by simp)
  -- the run of digits after the dot stops where the zone starts
  have htake : (c :: cs ++ rest).takeWhile Char.isDigit = c :: cs := by
    rw [List.takeWhile_append_of_pos hdig]
    rcases rest with _ | ⟨d, r⟩
    · simp
    · simp [(hrest d r rfl).1]
  have hlen' : (c :: cs).length = D.length := by rw [← hcs, List.length_reverse]
  have hvn : v ≤ n := hval ▸ Nat.le_mul_of_pos_right v (Nat.pow_pos (by norm_num))
  simp only [if_neg hD, hcs, List.cons_append, parseFraction?, hc, if_true, List.drop_one, List.tail_cons]
  rw [← List.cons_append, htake, atoi?_of_isDigit (List.cons_ne_nil c cs) hdig, hv]
  have hrange : ¬((v : ℤ) < 0 ∨ 1000000000 ≤ (v : ℤ)) := by omega
  simp only [Option.map_some, Int.ofNat_eq_natCast, Option.bind_eq_bind, Option.bind_some, hrange, if_false,
    Int.toNat_natCast, hlen', List.drop_succ_cons, hval, show 9 - D.length = k by omega]
  rw [← hlen', List.drop_left]

theorem formatZone_head (offset : ℤ) :
    ∃ r, formatZone offset = 'Z' :: r ∨ formatZone offset = '+' :: r ∨ formatZone offset = '-' :: r := by
  unfold formatZone
  split_ifs
  · exact ⟨[], .inl rfl⟩
  · by_cases hneg : offset.tdiv 60 < 0 <;> simp [hneg]

theorem parseZone?_sign {sign h0 h1 m0 m1 : Char} (hs : sign ≠ 'Z') (rest : Text) :
    parseZone? (sign :: h0 :: h1 :: ':' :: m0 :: m1 :: rest) =
      (atoi? [h0, h1]).bind fun hr => (atoi? [m0, m1]).bind fun mm =>
        if sign = '+' then some ((hr * 60 + mm) * 60, rest)
        else if sign = '-' then some (-((hr * 60 + mm) * 60), rest) else none := by
  rw [parseZone?]
  split
  · simp_all
  · simp_all
  · simp_all

/-- the zone as `Format` writes it reads back as the offset in whole minutes -/
theorem parseZone?_formatZone {offset : ℤ} (h : offset.natAbs < 360000) (rest : Text) :
    parseZone? (formatZone offset ++ rest) = some (offset.tdiv 60 * 60, rest) := by
  by_cases h0 : offset = 0
  · subst h0
    rfl
  have hz : (offset.tdiv 60).natAbs = offset.natAbs / 60 := Int.natAbs_tdiv offset 60
  have hhr : (offset.tdiv 60).natAbs / 60 < 100 := by omega
  have hmm : (offset.tdiv 60).natAbs % 60 < 100 := by omega
  simp only [formatZone, h0, if_false, appendInt_two hhr, appendInt_two hmm, List.cons_append, List.nil_append]
  -- the sign is read back as written
  by_cases hneg : offset.tdiv 60 < 0
  · simp only [hneg, if_true, parseZone?_sign (show '-' ≠ 'Z' by decide), atoi?_two hhr, atoi?_two hmm,
      Option.bind_some, show ('-' : Char) ≠ '+' by decide, if_false, Option.some.injEq, Prod.mk.injEq, and_true]
    omega
  · simp only [hneg, if_false, parseZone?_sign (show '+' ≠ 'Z' by decide), atoi?_two hhr, atoi?_two hmm,
      Option.bind_some, if_true, Option.some.injEq, Prod.mk.injEq, and_true]
    omega

/-! ### Civil dates -/

/-- a day of an era of 400 years, from March 1 of its first year, as the century, the four years within it, the
year within those and the day within that year; the last day of a century's last four years is a leap day only in
the era's last century -/
theorem exists_dayOfEra {doe : ℤ} (h0 : 0 ≤ doe) (h1 : doe < 146097) :
    ∃ F K Y D : ℤ, (0 ≤ F ∧ F ≤ 3) ∧ (0 ≤ K ∧ K ≤ 24) ∧ (0 ≤ Y ∧ Y ≤ 3) ∧ (0 ≤ D ∧ D ≤ 365) ∧
      (D = 365 → Y = 3) ∧ (K = 24 → Y = 3 → D = 365 → F = 3) ∧ doe = 36524 * F + 1461 * K + 365 * Y + D := by
  by_cases hlast : doe = 146096
  · exact ⟨3, 24, 3, 365, by omega⟩
  · exact ⟨doe / 36524, doe % 36524 / 1461, min (doe % 36524 % 1461 / 365) 3,
      doe % 36524 % 1461 - 365 * min (doe % 36524 % 1461 / 365) 3, by omega⟩

/-- the year of the era `civilFromDays` computes is the one of the decomposition -/
theorem yearOfEra_eq {F K Y D : ℤ} (hF : 0 ≤ F ∧ F ≤ 3) (hK : 0 ≤ K ∧ K ≤ 24) (hY : 0 ≤ Y ∧ Y ≤ 3)
    (hD : 0 ≤ D ∧ D ≤ 365) (hleap : D = 365 → Y = 3) (hcent : K = 24 → Y = 3 → D = 365 → F = 3) {doe : ℤ}
    (hdoe : doe = 36524 * F + 1461 * K + 365 * Y + D) :
    (doe - doe / 1460 + doe / 36524 - doe / 146096) / 365 = 100 * F + 4 * K + Y := by
  -- the century and the era's last day, then the four-year cycles counted by `doe / 1460`
  have hfg : doe / 36524 - doe / 146096 = F := by
    by_cases hlast : K = 24 ∧ Y = 3 ∧ D = 365
    · obtain ⟨rfl, rfl, rfl⟩ := hlast
      obtain rfl : F = 3 := hcent rfl rfl rfl
      subst hdoe
      norm_num
    · have hlo : 36524 * F ≤ doe := by omega
      have hhi : doe < 36524 * F + 36524 := by omega
      have hc : doe / 36524 = F := by omega
      have he : doe / 146096 = 0 := by omega
      rw [hc, he, sub_zero]
  have he : doe / 1460 = 25 * F + K + (24 * F + K + 365 * Y + D) / 1460 := by omega
  rw [he, show doe - (25 * F + K + (24 * F + K + 365 * Y + D) / 1460) + doe / 36524 - doe / 146096 =
    doe - (25 * F + K + (24 * F + K + 365 * Y + D) / 1460) + (doe / 36524 - doe / 146096) by ring, hfg]
  omega

/-- the date `civilFromDays` computes from the era, the year of the era and the day of that year (from March 1) -/
def civilOfYearDay (era yoe doy : ℤ) : ℤ × ℤ × ℤ :=
  let mp := (5 * doy + 2) / 153
  let d := doy - (153 * mp + 2) / 5 + 1
  let m := if mp < 10 then mp + 3 else mp - 9
  (if m ≤ 2 then yoe + era * 400 + 1 else yoe + era * 400, m, d)

theorem civilFromDays_eq (z : ℤ) :
    civilFromDays z = civilOfYearDay ((z + 719468) / 146097)
      ((z + 719468 - (z + 719468) / 146097 * 146097 - (z + 719468 - (z + 719468) / 146097 * 146097) / 1460 +
        (z + 719468 - (z + 719468) / 146097 * 146097) / 36524 -
        (z + 719468 - (z + 719468) / 146097 * 146097) / 146096) / 365)
      (z + 719468 - (z + 719468) / 146097 * 146097 -
        (365 * ((z + 719468 - (z + 719468) / 146097 * 146097 - (z + 719468 - (z + 719468) / 146097 * 146097) / 1460 +
          (z + 719468 - (z + 719468) / 146097 * 146097) / 36524 -
          (z + 719468 - (z + 719468) / 146097 * 146097) / 146096) / 365) +
        (z + 719468 - (z + 719468) / 146097 * 146097 - (z + 719468 - (z + 719468) / 146097 * 146097) / 1460 +
          (z + 719468 - (z + 719468) / 146097 * 146097) / 36524 -
          (z + 719468 - (z + 719468) / 146097 * 146097) / 146096) / 365 / 4 -
        (z + 719468 - (z + 719468) / 146097 * 146097 - (z + 719468 - (z + 719468) / 146097 * 146097) / 1460 +
          (z + 719468 - (z + 719468) / 146097 * 146097) / 36524 -
          (z + 719468 - (z + 719468) / 146097 * 146097) / 146096) / 365 / 100)) := rfl

theorem daysFromCivil_civilOfYearDay (era : ℤ) {yoe doy : ℤ} (hyoe : 0 ≤ yoe ∧ yoe < 400) (hdoy : 0 ≤ doy ∧ doy ≤ 365) :
    daysFromCivil (civilOfYearDay era yoe doy).1 (civilOfYearDay era yoe doy).2.1 (civilOfYearDay era yoe doy).2.2 =
        era * 146097 + (365 * yoe + yoe / 4 - yoe / 100 + doy) - 719468 ∧
      (1 ≤ (civilOfYearDay era yoe doy).2.1 ∧ (civilOfYearDay era yoe doy).2.1 ≤ 12) ∧
      (1 ≤ (civilOfYearDay era yoe doy).2.2 ∧ (civilOfYearDay era yoe doy).2.2 ≤ 31) := by
  simp only [civilOfYearDay, daysFromCivil]
  split_ifs <;> omega

/-- `daysFromCivil` undoes `civilFromDays`, whose month and day are in range -/
theorem civilFromDays_spec (z : ℤ) :
    daysFromCivil (civilFromDays z).1 (civilFromDays z).2.1 (civilFromDays z).2.2 = z ∧
      (1 ≤ (civilFromDays z).2.1 ∧ (civilFromDays z).2.1 ≤ 12) ∧
      (1 ≤ (civilFromDays z).2.2 ∧ (civilFromDays z).2.2 ≤ 31) := by
  have hdoe0 : 0 ≤ z + 719468 - (z + 719468) / 146097 * 146097 := by omega
  have hdoe1 : z + 719468 - (z + 719468) / 146097 * 146097 < 146097 := by omega
  obtain ⟨F, K, Y, D, hF, hK, hY, hD, hleap, hcent, hdoe⟩ := exists_dayOfEra hdoe0 hdoe1
  have hyoe := yearOfEra_eq hF hK hY hD hleap hcent hdoe
  have hz : z = (z + 719468) / 146097 * 146097 + (z + 719468 - (z + 719468) / 146097 * 146097) - 719468 := by ring
  rw [civilFromDays_eq]
  generalize (z + 719468) / 146097 = era at *
  generalize z + 719468 - era * 146097 = doe at *
  rw [hyoe]
  have hdoy : doe - (365 * (100 * F + 4 * K + Y) + (100 * F + 4 * K + Y) / 4 - (100 * F + 4 * K + Y) / 100) = D := by
    clear hyoe hz hdoe0 hdoe1
    omega
  rw [hdoy]
  obtain ⟨hdays, hm, hd⟩ := daysFromCivil_civilOfYearDay era
    (show 0 ≤ 100 * F + 4 * K + Y ∧ 100 * F + 4 * K + Y < 400 by omega) hD
  exact ⟨by rw [hdays]; omega, hm, hd⟩

/-! ### The round trip -/

theorem parseRFC3339_formatRFC3339Nano {t : Time} (hyear : 0 ≤ t.year ∧ t.year < 10000) (hnsec : t.nsec < 10 ^ 9)
    (hoff : t.offset.natAbs < 360000) :
    parseRFC3339 (formatRFC3339Nano t) = some ⟨t.sec + t.offset.tmod 60, t.nsec, t.offset.tdiv 60 * 60⟩ := by
  obtain ⟨hdays, hm, hd⟩ := civilFromDays_spec (t.wall / 86400)
  simp only [year] at hyear
  simp only [formatRFC3339Nano]
  generalize civilFromDays (t.wall / 86400) = c at hdays hm hd hyear ⊢
  obtain ⟨y, m, d⟩ := c
  simp only at hdays hm hd hyear ⊢
  have hs : 0 ≤ t.wall % 86400 ∧ t.wall % 86400 < 86400 := by omega
  -- every field as the natural number `Format` writes
  obtain ⟨Y, rfl⟩ : ∃ Y : ℕ, y = Y := ⟨y.toNat, by omega⟩
  obtain ⟨M, rfl⟩ : ∃ M : ℕ, m = M := ⟨m.toNat, by omega⟩
  obtain ⟨D, rfl⟩ : ∃ D : ℕ, d = D := ⟨d.toNat, by omega⟩
  obtain ⟨H, hH⟩ : ∃ H : ℕ, t.wall % 86400 / 3600 = H := ⟨(t.wall % 86400 / 3600).toNat, by omega⟩
  obtain ⟨Mi, hMi⟩ : ∃ Mi : ℕ, t.wall % 86400 / 60 % 60 = Mi := ⟨(t.wall % 86400 / 60 % 60).toNat, by omega⟩
  obtain ⟨S, hS⟩ : ∃ S : ℕ, t.wall % 86400 % 60 = S := ⟨(t.wall % 86400 % 60).toNat, by omega⟩
  have hwall : t.wall = t.wall / 86400 * 86400 + H * 3600 + Mi * 60 + S := by omega
  rw [hH, hMi, hS]
  simp only [Int.toNat_natCast]
  obtain ⟨c, cs, hcs, hc, hlen⟩ : ∃ c cs, appendInt Y 4 = c :: cs ∧ c.isDigit ∧ cs.length = 3 := by
    have hl := length_appendInt (x := Y) (w := 4) (by norm_num) (by omega)
    match h : appendInt Y 4, hl with
    | c :: cs, hl => exact ⟨c, cs, rfl, isDigit_of_mem_appendInt (h ▸ List.mem_cons_self), by simpa using hl⟩
  have hatoi := atoi?_appendInt (x := Y) (w := 4) (by norm_num) (by omega)
  rw [hcs] at hatoi ⊢
  simp only [List.cons_append, List.append_assoc]
  have htake : ∀ R, (c :: (cs ++ R)).take 4 = c :: cs := fun R => by
    rw [← List.cons_append, List.take_left' (by simp [hlen])]
  have hdrop : ∀ R, (c :: (cs ++ R)).drop 4 = R := fun R => by
    rw [← List.cons_append, List.drop_left' (by simp [hlen])]
  have hcond : ∀ R, 4 ≤ (c :: (cs ++ R)).length := fun R => by simp [hlen]
  have hM : M < 100 := by omega
  have hD : D < 100 := by omega
  rw [parseRFC3339]
  have hH' : H < 24 := by omega
  have hMi' : Mi < 60 := by omega
  have hS' : S < 60 := by omega
  have hmonth : ¬(M = 0 ∨ 12 < M) := by omega
  have hday : ¬(31 < D) := by omega
  simp -zeta only [skipChar?_cons_self, option_some_bind, hcond, List.head?_cons, Option.map_some, hc, and_self, if_true,
    htake, hatoi, hdrop, getnum?_appendInt hM, getnum?_appendInt hD, getnum?_appendInt (show H < 100 by omega),
    getnum?_appendInt (show Mi < 100 by omega), getnum?_appendInt (show S < 100 by omega), hmonth, hday, if_false,
    not_le.mpr hH', not_le.mpr hMi', not_le.mpr hS']
  -- the zone starts with `Z` or a sign, which ends the fraction
  have hzone : ∀ c r, formatZone t.offset ++ ['"'] = c :: r → c.isDigit = false ∧ c ≠ '.' := by
    intro c r h
    obtain ⟨r', hr' | hr' | hr'⟩ := formatZone_head t.offset <;>
      rw [hr', List.cons_append, List.cons.injEq] at h <;> rw [← h.1] <;> decide
  simp -zeta only [parseFraction?_formatNano hnsec hzone, option_some_bind, parseZone?_formatZone hoff,
    skipChar?_cons_self, ne_eq, not_true_eq_false, if_false]
  simp only [pure, Option.some.injEq, Time.mk.injEq, and_true]
  rw [Int.tmod_def, hdays]
  rw [wall] at hwall ⊢
  omega

theorem mem_formatNano {n : ℕ} {c : Char} (h : c ∈ formatNano n) : c = '.' ∨ c.isDigit := by
  rw [formatNano] at h
  split_ifs at h
  · simp at h
  · rcases List.mem_cons.mp h with rfl | h
    · exact .inl rfl
    · rw [List.mem_reverse] at h
      exact .inr (isDigit_of_mem_appendInt (List.mem_reverse.mp ((List.dropWhile_sublist _).subset h)))

theorem mem_formatZone {offset : ℤ} {c : Char} (h : c ∈ formatZone offset) :
    c = 'Z' ∨ c = '+' ∨ c = '-' ∨ c = ':' ∨ c.isDigit := by
  rw [formatZone] at h
  split_ifs at h
  · simp_all
  · dsimp only at h
    rcases List.mem_cons.mp h with rfl | h
    · split_ifs <;> simp
    · rcases List.mem_append.mp h with h | h
      · exact .inr (.inr (.inr (.inr (isDigit_of_mem_appendInt h))))
      · rcases List.mem_cons.mp h with rfl | h
        · simp
        · exact .inr (.inr (.inr (.inr (isDigit_of_mem_appendInt h))))

/-- the text is quoted, and between the quotes are digits, the separators and the sign of the zone -/
theorem formatRFC3339Nano_quoted (t : Time) :
    ∃ body, formatRFC3339Nano t = '"' :: body ++ ['"'] ∧ ∀ c ∈ body, c.isDigit ∨ c ∈ "-T:.Z+".toList := by
  rw [formatRFC3339Nano]
  generalize civilFromDays (t.wall / 86400) = ymd
  obtain ⟨y, m, d⟩ := ymd
  refine ⟨_, rfl, fun c hc => ?_⟩
  simp only [List.append_eq, List.mem_append, List.mem_cons] at hc
  -- the fields, the separators between them, the fraction and the zone
  rcases hc with (((((((h | rfl | h) | rfl | h) | rfl | h) | rfl | h) | rfl | h) | h) | h)
  all_goals try exact .inl (isDigit_of_mem_appendInt h)
  all_goals try decide
  · rcases mem_formatNano h with rfl | h
    · decide
    · exact .inl h
  · rcases mem_formatZone h with rfl | rfl | rfl | rfl | h
    all_goals try decide
    exact .inl h

end Time

end DockerEngine.Go
