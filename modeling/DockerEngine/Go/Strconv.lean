/-
Lean model of `strconv.Atoi` as Go 1.5 has it on a 64-bit platform: `ParseInt(s, 10, 0)`, an optional sign and then
the digits of `ParseUint(s, 10, 64)`, whose value must fit in an `int64`.

`ParseUint` refuses a non-digit with `ErrSyntax` and a value past `1<<64 - 1` with `ErrRange`, whichever it meets
first; `ParseInt` then refuses a value past the signed range with `ErrRange`. What is accepted is exactly an optional
`+` or `-` and a non-empty run of decimal digits whose value fits (`atoi_eq_ok_iff`), read by `digitsValue`.
`ParseBool` is here too, for the bool flags of `mflag`.
-/
import DockerEngine.Go.Strings
import Mathlib.Tactic

namespace DockerEngine.Go.Strconv

/-- the `Err` of the `*NumError` that `ParseUint` and `ParseInt` return -/
inductive NumErr
  /-- `ErrSyntax` -/
  | errSyntax
  /-- `ErrRange` -/
  | errRange
  deriving DecidableEq, Repr

/-- `strconv.IntSize` on a 64-bit platform -/
def intSize : ℕ := 64

/-- `cutoff64(10)`: the smallest value that overflows when multiplied by ten -/
def cutoff : ℕ := (2 ^ 64 - 1) / 10 + 1

/-- `maxVal` of `ParseUint(s, 10, 64)`, `1<<64 - 1` -/
def maxUint : ℕ := 2 ^ intSize - 1

/-- the value of a decimal digit; base 10 refuses every other character, letters included -/
def digitVal (d : Char) : Option ℕ := if d.isDigit then some (d.toNat - '0'.toNat) else none

/-- the digit loop of `ParseUint(s, 10, 64)`, with `n` the value so far -/
def parseUintLoop (n : ℕ) : Text → Except NumErr ℕ
  | [] => .ok n
  | d :: s =>
    match digitVal d with
    | none => .error .errSyntax
    | some v =>
      -- `n*base` overflows
      if cutoff ≤ n then .error .errRange
      -- `n+v` overflows
      else if maxUint < n * 10 + v then .error .errRange
      else parseUintLoop (n * 10 + v) s

/-- `ParseUint(s, 10, 64)` -/
def parseUint (s : Text) : Except NumErr ℕ :=
  if s = [] then .error .errSyntax else parseUintLoop 0 s

/-- the sign `ParseInt` picks off, and the digits it leaves -/
def splitSign : Text → Bool × Text
  | '+' :: s => (false, s)
  | '-' :: s => (true, s)
  | s => (false, s)

/-- `ParseInt(s, 10, 0)`: `ParseUint`'s value with the sign, which must fit in an `int64` -/
def parseInt (s : Text) : Except NumErr ℤ :=
  if s = [] then .error .errSyntax
  else
    let (neg, s) := splitSign s
    match parseUint s with
    | .error e => .error e
    | .ok un =>
      if !neg ∧ 2 ^ (intSize - 1) ≤ un then .error .errRange
      else if neg ∧ 2 ^ (intSize - 1) < un then .error .errRange
      else .ok (if neg then -(un : ℤ) else un)

/-- `strconv.Atoi(s)` -/
def atoi (s : Text) : Except NumErr ℤ := parseInt s

@[simp] theorem atoi_nil : atoi [] = .error .errSyntax := rfl

/-- `strconv.ParseBool(str)`: the value, and `ErrSyntax` for a text that spells neither -/
def parseBool (str : Text) : Bool × Option NumErr :=
  if str ∈ ["1", "t", "T", "TRUE", "true", "True"].map String.toList then (true, none)
  else if str ∈ ["0", "f", "F", "FALSE", "false", "False"].map String.toList then (false, none)
  else (false, some .errSyntax)

/-- the digit loop of `ParseUint(s, 10, bitSize)` with the value it returns beside its error, as Go 1.5 has it: `0`
with `ErrSyntax`, `1<<64 - 1` with `ErrRange` -/
def parseUintBitsLoop (bitSize n : ℕ) : Text → ℕ × Option NumErr
  | [] => (n, none)
  | d :: s =>
    match digitVal d with
    | none => (0, some .errSyntax)
    | some v =>
      if cutoff ≤ n then (maxUint, some .errRange)
      else if 2 ^ bitSize - 1 < n * 10 + v then (maxUint, some .errRange)
      else parseUintBitsLoop bitSize (n * 10 + v) s

/-- `ParseUint(s, 10, bitSize)`, value and error -/
def parseUintBits (s : Text) (bitSize : ℕ) : ℕ × Option NumErr :=
  if s = [] then (0, some .errSyntax) else parseUintBitsLoop bitSize 0 s

/-- `int(n)` of a `uint64` on a 64-bit platform -/
def intOfUint64 (n : ℕ) : ℤ := if n < 2 ^ (intSize - 1) then n else (n : ℤ) - 2 ^ intSize

/-! ## What `ParseUint` reads -/

/-- the value of decimal digits read after the value `n` -/
def digitsValue (n : ℕ) (s : Text) : ℕ := s.foldl (fun n d => n * 10 + (d.toNat - '0'.toNat)) n

@[simp] theorem digitsValue_nil (n : ℕ) : digitsValue n [] = n := rfl

@[simp] theorem digitsValue_cons (n : ℕ) (d : Char) (s : Text) :
    digitsValue n (d :: s) = digitsValue (n * 10 + (d.toNat - '0'.toNat)) s := by
  simp only [digitsValue, List.foldl_cons]

theorem le_digitsValue (n : ℕ) (s : Text) : n ≤ digitsValue n s := by
  induction s generalizing n with
  | nil => rfl
  | cons d s ih =>
    calc n ≤ n * 10 + (d.toNat - '0'.toNat) := by omega
      _ ≤ _ := ih _

theorem digitVal_of_isDigit {d : Char} (h : d.isDigit = true) : digitVal d = some (d.toNat - '0'.toNat) := by
  simp [digitVal, h]

theorem digitVal_eq_some {d : Char} {v : ℕ} (h : digitVal d = some v) : d.isDigit = true ∧ v = d.toNat - '0'.toNat := by
  unfold digitVal at h
  split at h
  · next hd => exact ⟨hd, (Option.some.inj h).symm⟩
  · cases h

/-- a value that fits never trips the overflow checks on the way to it -/
theorem parseUintLoop_of_digits {n : ℕ} {s : Text} (hd : ∀ d ∈ s, d.isDigit = true)
    (hle : digitsValue n s ≤ maxUint) : parseUintLoop n s = .ok (digitsValue n s) := by
  induction s generalizing n with
  | nil => rfl
  | cons d s ih =>
    have hnext := le_digitsValue (n * 10 + (d.toNat - '0'.toNat)) s
    have hcut : ¬cutoff ≤ n := by
      simp only [cutoff, maxUint, intSize] at hle ⊢
      simp only [digitsValue_cons] at hle
      omega
    have hmax : ¬maxUint < n * 10 + (d.toNat - '0'.toNat) := by simp only [digitsValue_cons] at hle; omega
    simp only [parseUintLoop, digitVal_of_isDigit (hd d List.mem_cons_self), if_neg hcut, if_neg hmax]
    exact ih (fun d' hd' => hd d' (List.mem_cons_of_mem d hd')) hle

theorem parseUintLoop_eq_ok {n m : ℕ} {s : Text} (hn : n ≤ maxUint) (h : parseUintLoop n s = .ok m) :
    (∀ d ∈ s, d.isDigit = true) ∧ m = digitsValue n s ∧ m ≤ maxUint := by
  induction s generalizing n with
  | nil => cases h; exact ⟨by simp, rfl, hn⟩
  | cons d s ih =>
    simp only [parseUintLoop] at h
    split at h
    · cases h
    · next v hv =>
      obtain ⟨hd, rfl⟩ := digitVal_eq_some hv
      split_ifs at h with hcut hmax
      obtain ⟨hds, hm, hle⟩ := ih (by omega) h
      refine ⟨?_, by simpa using hm, hle⟩
      rintro d' (_ | ⟨_, hd'⟩)
      · exact hd
      · exact hds d' hd'

/-- `ParseUint` accepts exactly a non-empty run of digits whose value fits in 64 bits -/
theorem parseUint_eq_ok_iff {s : Text} {m : ℕ} :
    parseUint s = .ok m ↔ s ≠ [] ∧ (∀ d ∈ s, d.isDigit = true) ∧ m = digitsValue 0 s ∧ m ≤ maxUint := by
  unfold parseUint
  split_ifs with hs
  · simp [hs]
  · constructor
    · intro h
      exact ⟨hs, parseUintLoop_eq_ok (Nat.zero_le _) h⟩
    · rintro ⟨-, hd, rfl, hle⟩
      exact parseUintLoop_of_digits hd hle

theorem splitSign_nil : splitSign [] = (false, []) := rfl

/-- `Atoi` accepts exactly an optional sign and a non-empty run of digits whose signed value fits in an `int64` -/
theorem atoi_eq_ok_iff {s : Text} {v : ℤ} :
    atoi s = .ok v ↔ (splitSign s).2 ≠ [] ∧ (∀ d ∈ (splitSign s).2, d.isDigit = true) ∧
      if (splitSign s).1 then digitsValue 0 (splitSign s).2 ≤ 2 ^ 63 ∧ v = -(digitsValue 0 (splitSign s).2 : ℤ)
      else digitsValue 0 (splitSign s).2 < 2 ^ 63 ∧ v = digitsValue 0 (splitSign s).2 := by
  unfold atoi parseInt
  by_cases hs : s = []
  · subst hs; simp [splitSign_nil]
  rw [if_neg hs]
  generalize splitSign s = p
  obtain ⟨neg, ds⟩ := p
  simp only
  split
  · next e he =>
    simp only [reduceCtorEq, false_iff]
    rintro ⟨hne, hd, hv⟩
    -- a value that fits in an `int64` fits in 64 bits, so `ParseUint` would have accepted it
    have hle : digitsValue 0 ds ≤ maxUint := by
      simp only [maxUint, intSize]
      split_ifs at hv <;> omega
    rw [parseUint_eq_ok_iff.mpr ⟨hne, hd, rfl, hle⟩] at he
    cases he
  · next un he =>
    obtain ⟨hne, hd, rfl, -⟩ := parseUint_eq_ok_iff.mp he
    -- past the digits, only the signed bound is left to check
    rw [and_iff_right hne, and_iff_right hd]
    cases neg
    · by_cases hlt : digitsValue 0 ds < 2 ^ 63
      · rw [if_neg (by simp [intSize]; omega), if_neg (by simp)]
        simp only [Bool.false_eq_true, if_false, Except.ok.injEq]
        exact ⟨fun h => ⟨hlt, h.symm⟩, fun h => h.2.symm⟩
      · rw [if_pos (by simp [intSize]; omega)]
        simp only [reduceCtorEq, Bool.false_eq_true, if_false, false_iff, not_and]
        exact fun h => absurd h hlt
    · by_cases hle : digitsValue 0 ds ≤ 2 ^ 63
      · rw [if_neg (by simp), if_neg (by simp [intSize]; omega)]
        simp only [if_true, Except.ok.injEq]
        exact ⟨fun h => ⟨hle, h.symm⟩, fun h => h.2.symm⟩
      · rw [if_neg (by simp), if_pos (by simp [intSize]; omega)]
        simp only [reduceCtorEq, if_true, false_iff, not_and]
        exact fun h => absurd h hle

end DockerEngine.Go.Strconv
