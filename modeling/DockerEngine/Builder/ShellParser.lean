/-
Lean model of `builder/dockerfile/shell_parser.go`: `ProcessWord` and `ProcessWords` expand the quotes and the `$name`,
`${name}`, `${name:+word}` and `${name:-word}` references of a word against a list of `NAME=value` strings.

Both run the same `processStopOn` and keep different parts of its result: `ProcessWord` the expanded text, and
`ProcessWords` the words that a `wordsStruct` splits it into at blanks, where quoted text and escaped characters never
split. So the two fail together, and every word is non-empty (`processWords_ne_nil`). The words are not always the
expanded text less some blanks, though. `processStopOn` adds the value of a `$` reference to the text as it is, and
to the words through `addString`, which reads the value again with a fresh `text/scanner`. That scanner drops a byte
order mark at the start of what it reads and reads an invalid byte as U+FFFD. So a value that starts with U+FEFF, or
that is not valid UTF-8, differs between the two (`processWords_not_blanks_deleted`).

A backslash is undone exactly: for valid UTF-8 that does not start with U+FEFF, `ProcessWord` of the text with a
backslash before each `\`, `$`, `'` and `"` is the text, and `ProcessWords` of it with blanks escaped too is the text as
one word (`processWord_escape`). `processStopOn` takes the rune after a backslash as it is, and no other rune of such a
text is one it treats apart.

The word is read by a `text/scanner` too: `Utf8.runes`, less a leading byte order mark. The Unicode tables of letters
and digits past Latin-1, which `processName` consults, are a parameter (`UnicodeTables`). Each function takes a
`fuel` that bounds its recursion; `processWord` gives twice the runes of the word, one turn for each rune read and one
for each call.
-/
import DockerEngine.Go.Strings
import DockerEngine.Go.Utf8
import DockerEngine.Lib.Prelude

namespace DockerEngine.Dockerfile

open DockerEngine.Go

/-! ## `unicode` and `text/scanner` -/

/-- `unicode.IsSpace(r)` -/
def isSpaceRune (r : ℕ) : Bool := isSpace (Char.ofNat r)

/-- the Unicode tables of letters and of decimal digits past Latin-1 -/
structure UnicodeTables where
  letter : ℕ → Bool
  digit : ℕ → Bool

/-- `unicode.IsLetter(r)`: the letters of Latin-1 are `A`-`Z`, `a`-`z`, `ª`, `µ`, `º` and `À`-`ÿ` but `×` and `÷` -/
def isLetter (u : UnicodeTables) (r : ℕ) : Bool :=
  if r ≤ 0xFF then
    (0x41 ≤ r ∧ r ≤ 0x5A) ∨ (0x61 ≤ r ∧ r ≤ 0x7A) ∨ r = 0xAA ∨ r = 0xB5 ∨ r = 0xBA ∨
      (0xC0 ≤ r ∧ r ≤ 0xFF ∧ r ≠ 0xD7 ∧ r ≠ 0xF7)
  else u.letter r

/-- `unicode.IsDigit(r)` -/
def isDigit (u : UnicodeTables) (r : ℕ) : Bool := if r ≤ 0xFF then 0x30 ≤ r ∧ r ≤ 0x39 else u.digit r

/-- the byte order mark U+FEFF -/
def bom : ℕ := 0xFEFF

/-- the runes a `text/scanner` initialised on `s` returns from `Next`: its first `Peek` skips a byte order mark -/
def scanRunes (s : List UInt8) : List ℕ :=
  match Utf8.runes s with
  | r :: rs => if r = bom then rs else r :: rs
  | [] => []

/-! ## `wordsStruct` -/

/-- a `wordsStruct` -/
structure WordsStruct where
  word : List UInt8
  words : List (List UInt8)
  inWord : Bool

namespace WordsStruct

/-- `addRawChar` -/
def addRawChar (w : WordsStruct) (ch : ℕ) : WordsStruct :=
  { w with word := w.word ++ Utf8.encodeRune ch, inWord := true }

/-- `addChar`: a blank ends the word in hand, and is dropped -/
def addChar (w : WordsStruct) (ch : ℕ) : WordsStruct :=
  if isSpaceRune ch ∧ w.inWord then
    if w.word ≠ [] then { word := [], words := w.words ++ [w.word], inWord := false } else w
  else if !isSpaceRune ch then w.addRawChar ch
  else w

/-- `addString`: the string read again by a new `text/scanner` -/
def addString (w : WordsStruct) (str : List UInt8) : WordsStruct := (scanRunes str).foldl addChar w

/-- `addRawString` -/
def addRawString (w : WordsStruct) (str : List UInt8) : WordsStruct :=
  { w with word := w.word ++ str, inWord := true }

/-- `getWords` -/
def getWords (w : WordsStruct) : List (List UInt8) := if w.word ≠ [] then w.words ++ [w.word] else w.words

/-- no word kept is empty -/
def WordsOK (w : WordsStruct) : Prop := ∀ x ∈ w.words, x ≠ []

theorem wordsOK_addRawChar {w : WordsStruct} (h : w.WordsOK) (ch : ℕ) : (w.addRawChar ch).WordsOK := h

theorem wordsOK_addChar {w : WordsStruct} (h : w.WordsOK) (ch : ℕ) : (w.addChar ch).WordsOK := by
  unfold addChar
  split_ifs with _ hne
  · intro x hx
    rcases List.mem_append.mp hx with hx | hx
    · exact h x hx
    · simpa [List.mem_singleton.mp hx] using hne
  all_goals exact h

theorem wordsOK_addString {w : WordsStruct} (h : w.WordsOK) (str : List UInt8) : (w.addString str).WordsOK := by
  unfold addString
  -- each rune of the value goes through `addChar`
  induction scanRunes str generalizing w with
  | nil => exact h
  | cons r rs ih => exact ih (wordsOK_addChar h r)

theorem wordsOK_addRawString {w : WordsStruct} (h : w.WordsOK) (str : List UInt8) : (w.addRawString str).WordsOK := h

theorem getWords_ne_nil {w : WordsStruct} (h : w.WordsOK) : ∀ x ∈ w.getWords, x ≠ [] := by
  unfold getWords
  split
  · next hne =>
    intro x hx
    rcases List.mem_append.mp hx with hx | hx
    · exact h x hx
    · simpa [List.mem_singleton.mp hx] using hne
  · exact h

end WordsStruct

/-! ## `shellWord` -/

/-- the fields of a `shellWord` other than its scanner -/
structure ShellWord where
  /-- the word, for the error messages -/
  word : List UInt8
  envs : List (List UInt8)

/-- the errors of `processDollar` -/
inductive ShellError
  /-- `fmt.Errorf("Unsupported modifier (%c) in substitution: %s", modifier, sw.word)`; `none` is `scanner.EOF` -/
  | unsupportedModifier (modifier : Option ℕ) (word : List UInt8)
  /-- `fmt.Errorf("Missing ':' in substitution: %s", sw.word)` -/
  | missingColon (word : List UInt8)
  /-- the fuel ran out; `processWord` gives enough for every word -/
  | outOfFuel
  deriving DecidableEq, Repr

/-- `getEnv(name)`: the value after the first `=` of the first entry named `name`; an entry without `=` named
`name` gives the empty string -/
def getEnv (envs : List (List UInt8)) (name : List UInt8) : List UInt8 :=
  match envs with
  | [] => []
  | env :: envs =>
    match env.idxOf? '='.toUInt8 with
    | none => if name = env then [] else getEnv envs name
    | some i => if name = env.take i then env.drop (i + 1) else getEnv envs name

/-- the loop of `processName` -/
def processNameLoop (u : UnicodeTables) : List UInt8 → List ℕ → List UInt8 × List ℕ
  | name, [] => (name, [])
  | name, ch :: sc =>
    -- a name that starts with a digit is that digit alone
    if name = [] ∧ isDigit u ch then (Utf8.encodeRune ch, sc)
    else if !isLetter u ch ∧ !isDigit u ch ∧ ch ≠ '_'.toNat then (name, ch :: sc)
    else processNameLoop u (name ++ Utf8.encodeRune ch) sc

/-- `processName`: a name of letters, digits and `_`, and the runes after it -/
def processName (u : UnicodeTables) (sc : List ℕ) : List UInt8 × List ℕ := processNameLoop u [] sc

/-- the loop of `processSingleQuote` after the opening quote: all runes up to the next `'` are taken as they are -/
def singleQuoteLoop : List UInt8 → List ℕ → List UInt8 × List ℕ
  | result, [] => (result, [])
  | result, ch :: sc => if ch = '\''.toNat then (result, sc) else singleQuoteLoop (result ++ Utf8.encodeRune ch) sc

/-- `processSingleQuote`, with the scanner at the opening quote -/
def processSingleQuote (sc : List ℕ) : List UInt8 × List ℕ := singleQuoteLoop [] sc.tail

section Process

variable (u : UnicodeTables) (sw : ShellWord)

/-- the outcome of a `processDollar`: its value, or the error it returns -/
def dollarValue (name : List UInt8) (modifier : Option ℕ) (word : List UInt8) : Except ShellError (List UInt8) :=
  let newValue := getEnv sw.envs name
  if modifier = some '+'.toNat then .ok (if newValue ≠ [] then word else newValue)
  else if modifier = some '-'.toNat then .ok (if newValue = [] then word else newValue)
  else .error (.unsupportedModifier modifier sw.word)

mutual

/-- the loop of `processStopOn(stopChar)`: the text so far, the `wordsStruct` and the runes left; `none` for `stop` is
`scanner.EOF` -/
def stopOnLoop : ℕ → Option ℕ → List UInt8 → WordsStruct → List ℕ →
    Except ShellError (List UInt8 × WordsStruct × List ℕ)
  | 0, _, _, _, _ => .error .outOfFuel
  | _ + 1, _, result, words, [] => .ok (result, words, [])
  | n + 1, stop, result, words, ch :: sc =>
    if stop = some ch then .ok (result, words, sc)
    else if ch = '\''.toNat then
      let (tmp, sc) := processSingleQuote (ch :: sc)
      stopOnLoop n stop (result ++ tmp) (words.addRawString tmp) sc
    else if ch = '"'.toNat then do
      let (tmp, sc) ← processDoubleQuote n (ch :: sc)
      stopOnLoop n stop (result ++ tmp) (words.addRawString tmp) sc
    else if ch = '$'.toNat then do
      -- the value of a reference is split again into words
      let (tmp, sc) ← processDollar n (ch :: sc)
      stopOnLoop n stop (result ++ tmp) (words.addString tmp) sc
    else if ch = '\\'.toNat then
      match sc with
      -- a backslash at the end ends the loop
      | [] => .ok (result, words, [])
      | c :: sc => stopOnLoop n stop (result ++ Utf8.encodeRune c) (words.addRawChar c) sc
    else stopOnLoop n stop (result ++ Utf8.encodeRune ch) (words.addChar ch) sc

/-- `processStopOn(stopChar)`: the expanded text, its words and the runes left -/
def processStopOn : ℕ → Option ℕ → List ℕ → Except ShellError (List UInt8 × List (List UInt8) × List ℕ)
  | 0, _, _ => .error .outOfFuel
  | n + 1, stop, sc => do
    let (result, words, sc) ← stopOnLoop n stop [] ⟨[], [], false⟩ sc
    pure (result, words.getWords, sc)

/-- the loop of `processDoubleQuote` after the opening quote -/
def doubleQuoteLoop : ℕ → List UInt8 → List ℕ → Except ShellError (List UInt8 × List ℕ)
  | 0, _, _ => .error .outOfFuel
  | _ + 1, result, [] => .ok (result, [])
  | n + 1, result, ch :: sc =>
    if ch = '"'.toNat then .ok (result, sc)
    else if ch = '$'.toNat then do
      let (tmp, sc) ← processDollar n (ch :: sc)
      doubleQuoteLoop n (result ++ tmp) sc
    else if ch = '\\'.toNat then
      match sc with
      -- a backslash at the end is ignored
      | [] => .ok (result, [])
      -- only `\"` and `\$` are escapes; any other backslash is kept
      | c :: sc' =>
        if c = '"'.toNat ∨ c = '$'.toNat then doubleQuoteLoop n (result ++ Utf8.encodeRune c) sc'
        else doubleQuoteLoop n (result ++ Utf8.encodeRune ch) (c :: sc')
    else doubleQuoteLoop n (result ++ Utf8.encodeRune ch) sc

/-- `processDoubleQuote`, with the scanner at the opening quote -/
def processDoubleQuote : ℕ → List ℕ → Except ShellError (List UInt8 × List ℕ)
  | 0, _ => .error .outOfFuel
  | n + 1, sc => doubleQuoteLoop n [] sc.tail

/-- `processDollar`, with the scanner at the `$` -/
def processDollar : ℕ → List ℕ → Except ShellError (List UInt8 × List ℕ)
  | 0, _ => .error .outOfFuel
  | n + 1, sc =>
    match sc.tail with
    | ch :: sc' =>
      if ch = '{'.toNat then
        let (name, sc'') := processName u sc'
        match sc'' with
        | c :: rest =>
          if c = '}'.toNat then .ok (getEnv sw.envs name, rest)
          else if c = ':'.toNat then do
            -- `${name:modifier word}`: the word is processed up to the closing brace
            let modifier := rest.head?
            let (word, _, sc''') ← processStopOn n (some '}'.toNat) rest.tail
            let v ← dollarValue sw name modifier word
            pure (v, sc''')
          else .error (.missingColon sw.word)
        | [] => .error (.missingColon sw.word)
      else
        let (name, sc'') := processName u (ch :: sc')
        .ok (if name = [] then ['$'.toUInt8] else getEnv sw.envs name, sc'')
    | [] => .ok (['$'.toUInt8], [])

end

/-- what `processStopOn(scanner.EOF)` gives for `sw.word`: the expanded text and its words -/
def process : Except ShellError (List UInt8 × List (List UInt8)) := do
  let sc := scanRunes sw.word
  let (result, words, _) ← processStopOn u sw (2 * sc.length + 2) none sc
  pure (result, words)

end Process

/-- `ProcessWord(word, env)` -/
def processWord (u : UnicodeTables) (word : List UInt8) (env : List (List UInt8)) : Except ShellError (List UInt8) :=
  (process u ⟨word, env⟩).map Prod.fst

/-- `ProcessWords(word, env)` -/
def processWords (u : UnicodeTables) (word : List UInt8) (env : List (List UInt8)) :
    Except ShellError (List (List UInt8)) :=
  (process u ⟨word, env⟩).map Prod.snd

/-! ## What the words keep of the text -/

/-- the runes `unicode.IsSpace` accepts -/
def spaceRunes : List ℕ :=
  [0x09, 0x0A, 0x0B, 0x0C, 0x0D, 0x20, 0x85, 0xA0, 0x1680, 0x2000, 0x2001, 0x2002, 0x2003, 0x2004, 0x2005, 0x2006,
    0x2007, 0x2008, 0x2009, 0x200A, 0x2028, 0x2029, 0x202F, 0x205F, 0x3000]

theorem isSpaceRune_mem {c : ℕ} (h : isSpaceRune c = true) : c ∈ spaceRunes := by
  -- `Char.ofNat` keeps a valid code point and maps any other number to NUL, which is no blank
  have hc : (Char.ofNat c).toNat = c ∨ (Char.ofNat c).toNat = 0 := by
    unfold Char.ofNat; split
    · left; rfl
    · right; rfl
  unfold isSpaceRune isSpace at h
  rcases hc with hc | hc
  · rw [hc] at h
    split at h
    -- the runes the match names, then the range U+2000 to U+200A
    all_goals simp_all [spaceRunes]
    omega
  · rw [hc] at h
    exact absurd h (by decide)

/-- `t` is the byte string `s` with some blank characters deleted -/
inductive BlanksDeleted : List UInt8 → List UInt8 → Prop
  | nil : BlanksDeleted [] []
  | keep (b : UInt8) {s t : List UInt8} : BlanksDeleted s t → BlanksDeleted (b :: s) (b :: t)
  | drop {c : ℕ} {s t : List UInt8} : isSpaceRune c = true → BlanksDeleted s t →
      BlanksDeleted (Utf8.encodeRune c ++ s) t

theorem BlanksDeleted.length_le {s t : List UInt8} (h : BlanksDeleted s t) : t.length ≤ s.length := by
  induction h with
  | nil => rfl
  | keep b _ ih => simpa using ih
  | drop _ _ ih => simp only [List.length_append]; omega

/-- a first byte that starts no blank's encoding is kept -/
theorem BlanksDeleted.head {s t : List UInt8} (h : BlanksDeleted s t) {b : UInt8} {s' : List UInt8}
    (hs : s = b :: s') (hb : ∀ c ∈ spaceRunes, (Utf8.encodeRune c).head? ≠ some b) : t.head? = some b := by
  cases h with
  | nil => cases hs
  | keep b' _ => cases hs; rfl
  | drop hc _ =>
    obtain ⟨x, xs, hx⟩ := List.exists_cons_of_ne_nil (Utf8.encodeRune_ne_nil _)
    rw [hx] at hs
    cases hs
    exact absurd (by simp [hx]) (hb _ (isSpaceRune_mem hc))

/-- the ASCII bytes of a Go string literal -/
def ascii (s : String) : List UInt8 := s.toList.map Char.toUInt8

/-- `A=` then U+FEFF then `x` -/
def bomEnv : List UInt8 := ascii "A=" ++ Utf8.encodeRune bom ++ ascii "x"

/-- `A=` then the byte 0xFF, which is not UTF-8 -/
def badEnv : List UInt8 := ascii "A=" ++ [0xFF]

theorem processWords_not_blanks_deleted (u : UnicodeTables) :
    processWord u (ascii "$A") [bomEnv] = .ok (Utf8.encodeRune bom ++ ascii "x") ∧
      processWords u (ascii "$A") [bomEnv] = .ok [ascii "x"] ∧
      ¬BlanksDeleted (Utf8.encodeRune bom ++ ascii "x") (ascii "x") ∧
      processWord u (ascii "$A") [badEnv] = .ok [0xFF] ∧
      processWords u (ascii "$A") [badEnv] = .ok [Utf8.encodeRune Utf8.runeError] ∧
      ¬BlanksDeleted [0xFF] (Utf8.encodeRune Utf8.runeError) := by
  refine ⟨rfl, rfl, ?_, rfl, rfl, ?_⟩
  -- U+FEFF starts with 0xEF, which starts no blank, so the words would start with it too
  · intro h
    have := h.head (by rfl) (by decide)
    revert this
    decide
  -- three bytes cannot come from one by deleting
  · intro h
    have := h.length_le
    revert this
    decide

/-! ## The words are never empty -/

section Words

variable (u : UnicodeTables) (sw : ShellWord)

open WordsStruct

theorem stopOnLoop_wordsOK (n : ℕ) : ∀ {stop : Option ℕ} {result : List UInt8} {w : WordsStruct} {sc : List ℕ}
    {out : List UInt8 × WordsStruct × List ℕ}, w.WordsOK → stopOnLoop u sw n stop result w sc = .ok out →
      out.2.1.WordsOK := by
  -- on the fuel: each turn hands a grown `wordsStruct` to the next
  induction n with
  | zero => intro _ _ _ _ _ _ h; simp [stopOnLoop] at h
  | succ n ih =>
    intro stop result w sc out hw h
    cases sc with
    | nil => simp only [stopOnLoop, Except.ok.injEq] at h; subst h; exact hw
    | cons ch sc =>
      simp only [stopOnLoop] at h
      split_ifs at h with hstop hsq hdq hdol hesc
      · cases h; exact hw
      · exact ih (wordsOK_addRawString hw _) h
      · obtain ⟨x, -, h⟩ := except_bind_eq_ok h
        exact ih (wordsOK_addRawString hw _) h
      · obtain ⟨x, -, h⟩ := except_bind_eq_ok h
        exact ih (wordsOK_addString hw _) h
      -- an escape keeps the next rune as it is, and a trailing one ends the word
      · rcases sc with _ | ⟨c, sc⟩
        · cases h; exact hw
        · exact ih (wordsOK_addRawChar hw _) h
      · exact ih (wordsOK_addChar hw _) h

theorem processStopOn_ne_nil {n : ℕ} {stop : Option ℕ} {sc : List ℕ}
    {out : List UInt8 × List (List UInt8) × List ℕ} (h : processStopOn u sw n stop sc = .ok out) :
    ∀ x ∈ out.2.1, x ≠ [] := by
  cases n with
  | zero => cases h
  | succ n =>
    obtain ⟨⟨result, w, sc'⟩, hloop, hout⟩ := except_bind_eq_ok h
    cases hout
    -- the loop starts from an empty `wordsStruct`, which keeps no word
    have hw : WordsOK ⟨[], [], false⟩ := fun _ hx => absurd hx List.not_mem_nil
    exact getWords_ne_nil (stopOnLoop_wordsOK u sw n hw hloop)

end Words

/-- every word `ProcessWords` gives is non-empty -/
theorem processWords_ne_nil (u : UnicodeTables) (word : List UInt8) (env : List (List UInt8))
    {ws : List (List UInt8)} (h : processWords u word env = .ok ws) : ∀ x ∈ ws, x ≠ [] := by
  obtain ⟨⟨result, ws'⟩, hp, rfl⟩ := except_map_eq_ok h
  obtain ⟨⟨result', words, sc⟩, hstop, hout⟩ := except_bind_eq_ok hp
  cases hout
  exact processStopOn_ne_nil u _ hstop

/-! ## Escaping undone -/

/-- the runes `processStopOn` treats apart: `\`, `$`, `'` and `"` -/
def isShellSpecial (r : ℕ) : Bool := r = '\\'.toNat ∨ r = '$'.toNat ∨ r = '\''.toNat ∨ r = '"'.toNat

/-- a backslash before every rune `p` picks -/
def escapeRunes (p : ℕ → Bool) (rs : List ℕ) : List ℕ := rs.flatMap fun r => if p r then ['\\'.toNat, r] else [r]

/-- `s` with a backslash before every `\`, `$`, `'` and `"` -/
def escape (s : List UInt8) : List UInt8 := s.flatMap fun b => if isShellSpecial b.toNat then ['\\'.toUInt8, b] else [b]

/-- `s` with a backslash before every `\`, `$`, `'`, `"` and blank character -/
def escapeBlanks (s : List UInt8) : List UInt8 :=
  (escapeRunes (fun r => isShellSpecial r || isSpaceRune r) (Utf8.runes s)).flatMap Utf8.encodeRune

/-- what `stopOnLoop` does to the words for a rune that `p` escapes or leaves alone -/
def addEscaped (p : ℕ → Bool) (w : WordsStruct) (r : ℕ) : WordsStruct := if p r then w.addRawChar r else w.addChar r

@[simp] theorem escapeRunes_nil (p : ℕ → Bool) : escapeRunes p [] = [] := rfl

theorem escapeRunes_cons (p : ℕ → Bool) (r : ℕ) (rs : List ℕ) :
    escapeRunes p (r :: rs) = (if p r then ['\\'.toNat, r] else [r]) ++ escapeRunes p rs := by
  simp [escapeRunes]

theorem isScalar_of_mem_escapeRunes {p : ℕ → Bool} {rs : List ℕ} (h : ∀ r ∈ rs, Utf8.IsScalar r) :
    ∀ r ∈ escapeRunes p rs, Utf8.IsScalar r := by
  intro r hr
  obtain ⟨r', hr', hmem⟩ := List.mem_flatMap.mp hr
  split_ifs at hmem <;> simp only [List.mem_cons, List.not_mem_nil, or_false] at hmem
  · rcases hmem with rfl | rfl
    · decide
    · exact h r hr'
  · exact hmem ▸ h r' hr'

@[simp] theorem escape_append (s t : List UInt8) : escape (s ++ t) = escape s ++ escape t := by
  simp [escape]

theorem escape_of_forall {s : List UInt8} (h : ∀ b ∈ s, isShellSpecial b.toNat = false) : escape s = s := by
  induction s with
  | nil => rfl
  | cons b s ih =>
    rw [← List.singleton_append, escape_append, ih fun b' hb' => h b' (by simp [hb'])]
    simp [escape, h b (by simp)]

/-- no byte of a rune past ASCII is special, and an ASCII rune is its own byte -/
theorem escape_encodeRune (r : ℕ) :
    escape (Utf8.encodeRune r) = (if isShellSpecial r then ['\\'.toNat, r] else [r]).flatMap Utf8.encodeRune := by
  by_cases hr : r < Utf8.runeSelf
  · have hb : r.toUInt8.toNat = r := by
      simp only [Utf8.runeSelf] at hr; simp only [Nat.toUInt8_eq, UInt8.toNat_ofNat']; omega
    have hbs : Utf8.encodeRune 92 = ['\\'.toUInt8] := by decide
    rw [Utf8.encodeRune_of_lt_runeSelf hr]
    split_ifs with hs <;> simp [escape, hb, hs, hbs, Utf8.encodeRune_of_lt_runeSelf hr]
  · have hs : isShellSpecial r = false := by
      simp only [Utf8.runeSelf] at hr; simp [isShellSpecial]; omega
    rw [escape_of_forall fun b hb => ?_, hs]
    · simp
    · have := Utf8.runeSelf_le_of_mem_encodeRune (not_lt.mp hr) hb
      simp only [Utf8.runeSelf] at this; simp [isShellSpecial]; omega

theorem escape_flatMap_encodeRune (rs : List ℕ) :
    escape (rs.flatMap Utf8.encodeRune) = (escapeRunes isShellSpecial rs).flatMap Utf8.encodeRune := by
  induction rs with
  | nil => rfl
  | cons r rs ih => rw [List.flatMap_cons, escape_append, ih, escapeRunes_cons, List.flatMap_append, escape_encodeRune]

theorem head?_escapeRunes {p : ℕ → Bool} {rs : List ℕ} (hb : rs.head? ≠ some bom) :
    (escapeRunes p rs).head? ≠ some bom := by
  rcases rs with _ | ⟨r, rs⟩
  · simp
  · rw [escapeRunes_cons]
    split_ifs
    · simp [bom]
    · simpa using hb

/-- the scanner reads back the runes of a string that does not start with a byte order mark -/
theorem scanRunes_flatMap_encodeRune {rs : List ℕ} (h : ∀ r ∈ rs, Utf8.IsScalar r) (hb : rs.head? ≠ some bom) :
    scanRunes (rs.flatMap Utf8.encodeRune) = rs := by
  rw [scanRunes, Utf8.runes_flatMap_encodeRune h]
  rcases rs with _ | ⟨r, rs⟩
  · rfl
  · simp only [List.head?_cons, ne_eq, Option.some.injEq] at hb
    simp [hb]

namespace WordsStruct

theorem addChar_of_not_space {ch : ℕ} (h : isSpaceRune ch = false) (w : WordsStruct) : w.addChar ch = w.addRawChar ch := by
  simp [addChar, h]

/-- runes that all go through `addRawChar` only grow the word in hand -/
theorem foldl_addRawChar (rs : List ℕ) (w : WordsStruct) :
    (rs.foldl addRawChar w).word = w.word ++ rs.flatMap Utf8.encodeRune ∧ (rs.foldl addRawChar w).words = w.words := by
  induction rs generalizing w with
  | nil => simp
  | cons r rs ih =>
    rw [List.foldl_cons, (ih _).1, (ih _).2]
    simp [addRawChar]

end WordsStruct

section Escape

variable (u : UnicodeTables) (sw : ShellWord)

/-- the loop over escaped runes: each escaped rune is taken as it is, each other one goes through the else branch -/
theorem stopOnLoop_escapeRunes {p : ℕ → Bool} (hp : ∀ r, isShellSpecial r → p r) (rs : List ℕ) :
    ∀ {n : ℕ} {result : List UInt8} {w : WordsStruct}, (escapeRunes p rs).length < n →
      stopOnLoop u sw n none result w (escapeRunes p rs) =
        .ok (result ++ rs.flatMap Utf8.encodeRune, rs.foldl (addEscaped p) w, []) := by
  induction rs with
  | nil =>
    intro n result w hn
    obtain ⟨n, rfl⟩ := Nat.exists_eq_add_of_lt hn
    simp [stopOnLoop]
  | cons r rs ih =>
    intro n result w hn
    rw [escapeRunes_cons] at hn ⊢
    obtain ⟨n, rfl⟩ := Nat.exists_eq_add_of_lt hn
    by_cases hr : p r
    · rw [if_pos hr] at hn ⊢
      simp only [List.cons_append, List.nil_append, stopOnLoop]
      -- the backslash is none of the runes tested before it, and the escaped rune is taken as it is
      rw [if_neg (by simp), if_neg (by decide), if_neg (by decide), if_neg (by decide), if_pos trivial,
        ih (by simp; omega)]
      simp [addEscaped, hr]
    · have hs : ¬(r = '\\'.toNat ∨ r = '$'.toNat ∨ r = '\''.toNat ∨ r = '"'.toNat) := by
        intro h
        exact hr (hp r (by simpa [isShellSpecial] using h))
      simp only [not_or] at hs
      obtain ⟨hbs, hdol, hsq, hdq⟩ := hs
      rw [if_neg hr] at hn ⊢
      simp only [List.cons_append, List.nil_append, stopOnLoop]
      rw [if_neg (by simp), if_neg hsq, if_neg hdq, if_neg hdol, if_neg hbs, ih (by simp; omega)]
      simp [addEscaped, hr]

/-- `processStopOn` over a word of escaped runes reads them all, with the fuel `process` gives -/
theorem process_escapeRunes {p : ℕ → Bool} (hp : ∀ r, isShellSpecial r → p r) {rs : List ℕ}
    (hrs : ∀ r ∈ rs, Utf8.IsScalar r) (hb : rs.head? ≠ some bom) (env : List (List UInt8)) :
    process u ⟨(escapeRunes p rs).flatMap Utf8.encodeRune, env⟩ =
      .ok (rs.flatMap Utf8.encodeRune, (rs.foldl (addEscaped p) ⟨[], [], false⟩).getWords) := by
  simp only [process, scanRunes_flatMap_encodeRune (isScalar_of_mem_escapeRunes hrs) (head?_escapeRunes hb)]
  rw [show 2 * (escapeRunes p rs).length + 2 = (2 * (escapeRunes p rs).length + 1) + 1 from rfl, processStopOn,
    stopOnLoop_escapeRunes u _ hp rs (by omega)]
  rfl

end Escape

/-- a byte string is the encodings of its runes, so one that does not start with U+FEFF has no byte order mark as its
first rune -/
theorem head?_runes_ne_bom {s : List UInt8} (hs : (Utf8.runes s).flatMap Utf8.encodeRune = s)
    (hbom : ¬Utf8.encodeRune bom <+: s) : (Utf8.runes s).head? ≠ some bom := by
  intro h
  obtain ⟨rs, hrs⟩ : ∃ rs, Utf8.runes s = bom :: rs := by
    rcases hr : Utf8.runes s with _ | ⟨r, rs⟩
    · simp [hr] at h
    · simp only [hr, List.head?_cons, Option.some.injEq] at h
      exact ⟨rs, by rw [h]⟩
  apply hbom
  rw [← hs, hrs, List.flatMap_cons]
  exact List.prefix_append _ _

theorem processWord_escape (u : UnicodeTables) {s : List UInt8} (hs : Utf8.Valid s)
    (hbom : ¬Utf8.encodeRune bom <+: s) (env : List (List UInt8)) :
    processWord u (escape s) env = .ok s ∧ (s ≠ [] → processWords u (escapeBlanks s) env = .ok [s]) := by
  obtain ⟨hsc, hflat⟩ := hs.flatMap_runes
  have hb := head?_runes_ne_bom hflat hbom
  constructor
  · have hesc : escape s = (escapeRunes isShellSpecial (Utf8.runes s)).flatMap Utf8.encodeRune := by
      conv_lhs => rw [← hflat]
      exact escape_flatMap_encodeRune _
    rw [processWord, hesc, process_escapeRunes u (fun _ h => h) hsc hb, hflat]
    rfl
  · intro hne
    -- every blank is escaped, so every rune goes to the word in hand through `addRawChar`
    have hraw : ∀ w r, addEscaped (fun r => isShellSpecial r || isSpaceRune r) w r = w.addRawChar r := by
      intro w r
      by_cases h : isShellSpecial r || isSpaceRune r
      · simp [addEscaped, h]
      · simp only [Bool.or_eq_true, not_or] at h
        simp [addEscaped, h, WordsStruct.addChar_of_not_space (Bool.eq_false_iff.mpr h.2)]
    have hfold : (Utf8.runes s).foldl (addEscaped fun r => isShellSpecial r || isSpaceRune r) ⟨[], [], false⟩ =
        (Utf8.runes s).foldl WordsStruct.addRawChar ⟨[], [], false⟩ := by
      congr 1
      funext w r
      exact hraw w r
    obtain ⟨hword, hwords⟩ := WordsStruct.foldl_addRawChar (Utf8.runes s) ⟨[], [], false⟩
    rw [processWords, escapeBlanks, process_escapeRunes u (fun _ h => by simp [h]) hsc hb, hfold]
    simp only [Except.map, WordsStruct.getWords, hword, hwords, hflat, List.nil_append, ne_eq, hne, not_false_eq_true,
      if_true]

/-- the UTF-8 text `a$ é\` -/
def sampleWord : List UInt8 := [0x61, 0x24, 0x20, 0xE9, 0x5C].flatMap Utf8.encodeRune

/-- the Unicode tables of a build that knows no letter or digit past Latin-1 -/
def latin1Tables : UnicodeTables := ⟨fun _ => false, fun _ => false⟩

theorem processWord_escape_sampleWord :
    Utf8.Valid sampleWord ∧ ¬Utf8.encodeRune bom <+: sampleWord ∧
      (processWord latin1Tables (escape sampleWord) [] = .ok sampleWord ∧
        (sampleWord ≠ [] → processWords latin1Tables (escapeBlanks sampleWord) [] = .ok [sampleWord])) :=
  have hv : Utf8.Valid sampleWord := Utf8.valid_flatMap_encodeRune (by decide)
  have hb : ¬Utf8.encodeRune bom <+: sampleWord := by decide
  ⟨hv, hb, processWord_escape latin1Tables hv hb []⟩

end DockerEngine.Dockerfile
