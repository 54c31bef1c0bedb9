/-
Lean model of the two word scanners of the Dockerfile parser: `parseWords` of `builder/dockerfile/parser/line_parsers.go`
and `extractBuilderFlags` of `builder/dockerfile/parser/utils.go`.

Both walk the line one BYTE at a time (`ch = rune(rest[pos])`) and grow the word with `word += string(ch)`. A byte
past ASCII read as a rune is a code point of Latin-1, which `string(ch)` writes as two bytes, so a word holding a
character past ASCII comes back re-encoded: `parseWords` of the UTF-8 bytes of `é` is one word `Ã©`, which is not
part of the input (`parseWords_reencodes`), and `extractBuilderFlags` of `--é` gives the flag `--Ã©`
(`extractBuilderFlags_reencodes`). On ASCII lines the scanners keep bytes: the words of `parseWords` occur in the
line, in order and without overlap (`parseWords_occur_in_order`), and a word with no blank, quote or backslash is
returned whole (`parseWords_plain`). Whatever the line, the rest `extractBuilderFlags` returns is a suffix of it and
each flag starts with `--` and is not `--` alone (`extractBuilderFlags_spec`).
-/
import DockerEngine.Go.Strings
import DockerEngine.Go.Utf8

namespace DockerEngine.Parser

open DockerEngine.Go

/-- `unicode.IsSpace(rune(b))` for a byte `b` -/
def isSpaceByte (b : UInt8) : Bool := isSpace (Char.ofNat b.toNat)

/-- `string(rune(b))`: the UTF-8 bytes of the code point `b` -/
def runeString (b : UInt8) : List UInt8 := Utf8.encodeRune b.toNat

/-- an ASCII byte is written back as itself -/
theorem runeString_of_lt {b : UInt8} (h : b < 0x80) : runeString b = [b] := by
  have hb : b.toNat < Utf8.runeSelf := by
    simpa [Utf8.runeSelf] using UInt8.lt_iff_toNat_lt.mp h
  simp [runeString, Utf8.encodeRune_of_lt_runeSelf hb]

/-- the phases of both scanners -/
inductive WordPhase
  /-- looking for the start of a word -/
  | inSpaces
  | inWord
  | inQuote
  deriving DecidableEq, Repr

/-- the variables of the scanning loop between two bytes -/
structure WordsState where
  phase : WordPhase
  word : List UInt8
  quote : UInt8
  blankOK : Bool
  /-- the words found so far, in order -/
  words : List (List UInt8)

/-- the variables before the first byte -/
def WordsState.init : WordsState := ⟨.inSpaces, [], 0, false, []⟩

/-- the words with the current one added when it is not empty or held a quote -/
def WordsState.flush (st : WordsState) : List (List UInt8) :=
  if st.blankOK ∨ st.word ≠ [] then st.words ++ [st.word] else st.words

/-- the current word grown by the bytes `string(ch)` writes for each of `bs` -/
def WordsState.push (st : WordsState) (bs : List UInt8) : WordsState :=
  { st with word := st.word ++ bs.flatMap runeString }

/-- the phase once a byte that is not a blank is met: a word starts, or the one in hand goes on -/
def WordsState.startWord (st : WordsState) : WordsState :=
  if st.phase = .inSpaces then { st with phase := .inWord } else st

@[simp] theorem WordsState.startWord_word (st : WordsState) : st.startWord.word = st.word := by
  unfold WordsState.startWord; split <;> rfl

@[simp] theorem WordsState.startWord_words (st : WordsState) : st.startWord.words = st.words := by
  unfold WordsState.startWord; split <;> rfl

@[simp] theorem WordsState.startWord_quote (st : WordsState) : st.startWord.quote = st.quote := by
  unfold WordsState.startWord; split <;> rfl

theorem WordsState.startWord_phase_ne (st : WordsState) : st.startWord.phase ≠ .inSpaces := by
  unfold WordsState.startWord; split <;> simp_all

theorem WordsState.startWord_of_ne {st : WordsState} (h : st.phase ≠ .inSpaces) : st.startWord = st := by
  simp [WordsState.startWord, h]

/-- the variables after the byte `ch` in a word: a quote opens a quoted part -/
def WordsState.openQuote (st : WordsState) (ch : UInt8) : WordsState :=
  if ch = '\''.toUInt8 ∨ ch = '"'.toUInt8 then { st with quote := ch, blankOK := true, phase := .inQuote } else st

/-- the variables after the byte `ch` in a quoted part: the quote that opened it closes it -/
def WordsState.closeQuote (st : WordsState) (ch : UInt8) : WordsState :=
  if ch = st.quote then { st with phase := .inWord } else st

@[simp] theorem WordsState.openQuote_word (st : WordsState) (ch : UInt8) : (st.openQuote ch).word = st.word := by
  unfold WordsState.openQuote; split <;> rfl

@[simp] theorem WordsState.openQuote_words (st : WordsState) (ch : UInt8) :
    (st.openQuote ch).words = st.words := by
  unfold WordsState.openQuote; split <;> rfl

theorem WordsState.openQuote_phase_ne {st : WordsState} (h : st.phase ≠ .inSpaces) (ch : UInt8) :
    (st.openQuote ch).phase ≠ .inSpaces := by
  unfold WordsState.openQuote; split <;> simp [h]

@[simp] theorem WordsState.closeQuote_word (st : WordsState) (ch : UInt8) : (st.closeQuote ch).word = st.word := by
  unfold WordsState.closeQuote; split <;> rfl

@[simp] theorem WordsState.closeQuote_words (st : WordsState) (ch : UInt8) :
    (st.closeQuote ch).words = st.words := by
  unfold WordsState.closeQuote; split <;> rfl

theorem WordsState.closeQuote_phase_ne {st : WordsState} (h : st.phase ≠ .inSpaces) (ch : UInt8) :
    (st.closeQuote ch).phase ≠ .inSpaces := by
  unfold WordsState.closeQuote; split <;> simp [h]

@[simp] theorem WordsState.push_phase (st : WordsState) (bs : List UInt8) : (st.push bs).phase = st.phase := rfl
@[simp] theorem WordsState.push_words (st : WordsState) (bs : List UInt8) : (st.push bs).words = st.words := rfl
@[simp] theorem WordsState.push_word (st : WordsState) (bs : List UInt8) :
    (st.push bs).word = st.word ++ bs.flatMap runeString := rfl

/-! ## `parseWords` -/

/-- the loop of `parseWords` over the bytes after `pos`; the empty rest is the turn with `pos == len(rest)` -/
def parseWordsLoop : WordsState → List UInt8 → List (List UInt8)
  | st, [] => if st.phase = .inSpaces then st.words else st.flush
  | st, ch :: rest =>
    if st.phase = .inSpaces ∧ isSpaceByte ch then parseWordsLoop st rest
    else
      -- a byte that is not a blank starts a word, and falls through to the word's case
      let st := st.startWord
      if st.phase = .inWord then
        if isSpaceByte ch then
          parseWordsLoop { st with phase := .inSpaces, words := st.flush, word := [], blankOK := false } rest
        else
          -- a quote opens a quoted part and is kept in the word
          let st := st.openQuote ch
          if ch = '\\'.toUInt8 then
            match rest with
            -- a backslash at the end is skipped
            | [] => parseWordsLoop st []
            | c :: rest' => parseWordsLoop (st.push [ch, c]) rest'
          else parseWordsLoop (st.push [ch]) rest
      else
        let st' := st.closeQuote ch
        -- a backslash escapes the next byte except in single quotes
        if ch = '\\'.toUInt8 ∧ st.quote ≠ '\''.toUInt8 then
          match rest with
          | [] => parseWordsLoop { st' with phase := .inWord } []
          | c :: rest' => parseWordsLoop (st'.push [ch, c]) rest'
        else parseWordsLoop (st'.push [ch]) rest

/-- `parseWords(rest)` -/
def parseWords (rest : List UInt8) : List (List UInt8) := parseWordsLoop .init rest

/-- the UTF-8 bytes of `é` come back as the bytes of `Ã©`, which do not occur in the line -/
theorem parseWords_reencodes :
    Utf8.encodeRune 0xE9 = [0xC3, 0xA9] ∧
      parseWords (Utf8.encodeRune 0xE9) = [Utf8.encodeRune 0xC3 ++ Utf8.encodeRune 0xA9] ∧
      ¬(Utf8.encodeRune 0xC3 ++ Utf8.encodeRune 0xA9) <:+: Utf8.encodeRune 0xE9 := by
  refine ⟨by decide, by decide, ?_⟩
  -- four bytes cannot occur in two
  intro h
  have := h.length_le
  simp [Utf8.encodeRune] at this

/-- `ws` occur in `s` in this order, each as a run of consecutive bytes, without overlapping -/
def OccurInOrder : List (List UInt8) → List UInt8 → Prop
  | [], _ => True
  | w :: ws, s => ∃ pre post, s = pre ++ w ++ post ∧ OccurInOrder ws post

theorem OccurInOrder.append_right {ws : List (List UInt8)} {p : List UInt8} (h : OccurInOrder ws p)
    (q : List UInt8) : OccurInOrder ws (p ++ q) := by
  induction ws generalizing p with
  | nil => trivial
  | cons w ws ih =>
    obtain ⟨pre, post, rfl, hpost⟩ := h
    exact ⟨pre, post ++ q, by simp, ih hpost⟩

theorem OccurInOrder.snoc {ws : List (List UInt8)} {p : List UInt8} (h : OccurInOrder ws p) (w q : List UInt8) :
    OccurInOrder (ws ++ [w]) (p ++ w ++ q) := by
  induction ws generalizing p with
  | nil => exact ⟨p, q, rfl, trivial⟩
  | cons w' ws ih =>
    obtain ⟨pre, post, rfl, hpost⟩ := h
    exact ⟨pre, post ++ w ++ q, by simp, ih hpost⟩

theorem OccurInOrder.flush {st : WordsState} {p : List UInt8} (h : OccurInOrder st.words p) (q : List UInt8) :
    OccurInOrder st.flush (p ++ st.word ++ q) := by
  unfold WordsState.flush
  split
  · exact h.snoc _ _
  · simpa [List.append_assoc] using h.append_right (st.word ++ q)

/-- on ASCII bytes `string(ch)` writes back what was read -/
theorem flatMap_runeString {bs : List UInt8} (h : ∀ b ∈ bs, b < 0x80) : bs.flatMap runeString = bs := by
  induction bs with
  | nil => rfl
  | cons b bs ih =>
    simp only [List.flatMap_cons, runeString_of_lt (h b (by simp)), List.singleton_append]
    rw [ih fun x hx => h x (by simp [hx])]

/-- the loop keeps the words it found in the order of the line, on ASCII bytes: `p` is the part of the line before
the word in hand, in which the words found so far occur -/
theorem parseWordsLoop_occur (st : WordsState) (r : List UInt8) (hr : ∀ b ∈ r, b < 0x80)
    (hw : st.phase = .inSpaces → st.word = []) (p : List UInt8) (hp : OccurInOrder st.words p) :
    OccurInOrder (parseWordsLoop st r) (p ++ st.word ++ r) := by
  fun_induction parseWordsLoop st r generalizing p with
  | case1 st _ => simpa using hp.append_right st.word
  | case2 st _ => exact hp.flush []
  | case3 st ch rest h ih =>
    -- a blank between words: the word is empty and the blank joins the part before the next word
    have hnil := hw h.1
    simpa [hnil] using ih (fun b hb => hr b (List.mem_cons_of_mem _ hb)) hw (p ++ [ch]) (hp.append_right [ch])
  | case4 st ch rest _ st1 _ _ ih =>
    have hf := (by simpa [st1] using hp : OccurInOrder st1.words p).flush [ch]
    simp only [st1, WordsState.startWord_word] at hf
    simpa using ih (fun b hb => hr b (List.mem_cons_of_mem _ hb)) (fun _ => rfl) _ hf
  | case5 st st1 _ _ _ st2 ih =>
    have hph : st2.phase ≠ .inSpaces := WordsState.openQuote_phase_ne st.startWord_phase_ne _
    have := ih (by simp) (fun h => absurd h hph) p (by simpa [st2, st1] using hp)
    simpa [st2, st1, List.append_assoc] using this.append_right ['\\'.toUInt8]
  | case6 st st1 _ c rest' _ _ st2 ih =>
    have hph : st2.phase ≠ .inSpaces := WordsState.openQuote_phase_ne st.startWord_phase_ne _
    have hc : ∀ b ∈ ['\\'.toUInt8, c], b < 0x80 := fun b hb => hr b (by simp at hb ⊢; tauto)
    have := ih (fun b hb => hr b (by simp [hb])) (fun h => absurd h hph) p (by simpa [st2, st1] using hp)
    simpa [st2, st1, flatMap_runeString hc] using this
  | case7 st ch rest _ st1 _ _ st2 _ ih =>
    have hph : st2.phase ≠ .inSpaces := WordsState.openQuote_phase_ne st.startWord_phase_ne _
    have := ih (fun b hb => hr b (List.mem_cons_of_mem _ hb)) (fun h => absurd h hph) p
      (by simpa [st2, st1] using hp)
    simpa [st2, st1, runeString_of_lt (hr ch (by simp))] using this
  | case8 st ch _ st1 _ st2 _ ih =>
    have := ih (by simp) (by simp) p (by simpa [st2, st1] using hp)
    simpa [st2, st1, List.append_assoc] using this.append_right [ch]
  | case9 st ch _ st1 _ st2 _ c rest' ih =>
    have hph : st2.phase ≠ .inSpaces := WordsState.closeQuote_phase_ne st.startWord_phase_ne _
    have hc : ∀ b ∈ [ch, c], b < 0x80 := fun b hb => hr b (by simp at hb ⊢; tauto)
    have := ih (fun b hb => hr b (by simp [hb])) (fun h => absurd h hph) p (by simpa [st2, st1] using hp)
    simpa [st2, st1, flatMap_runeString hc] using this
  | case10 st ch rest _ st1 _ st2 _ ih =>
    have hph : st2.phase ≠ .inSpaces := WordsState.closeQuote_phase_ne st.startWord_phase_ne _
    have := ih (fun b hb => hr b (List.mem_cons_of_mem _ hb)) (fun h => absurd h hph) p
      (by simpa [st2, st1] using hp)
    simpa [st2, st1, runeString_of_lt (hr ch (by simp))] using this

/-- on an ASCII line the words `parseWords` returns occur in the line, byte for byte, in order and without
overlapping -/
theorem parseWords_occur_in_order (rest : List UInt8) (h : ∀ b ∈ rest, b < 0x80) :
    OccurInOrder (parseWords rest) rest := by
  simpa [parseWords, WordsState.init] using parseWordsLoop_occur .init rest h (fun _ => rfl) [] trivial

/-- a byte that neither ends nor quotes nor escapes: ASCII, not a blank, not a quote, not a backslash -/
def PlainByte (b : UInt8) : Prop :=
  b < 0x80 ∧ isSpaceByte b = false ∧ b ≠ '\''.toUInt8 ∧ b ≠ '"'.toUInt8 ∧ b ≠ '\\'.toUInt8

/-- inside a word, plain bytes are added one by one until the end of the line -/
theorem parseWordsLoop_plain (st : WordsState) (r : List UInt8) (hph : st.phase = .inWord)
    (hr : ∀ b ∈ r, PlainByte b) (hne : st.blankOK ∨ st.word ≠ [] ∨ r ≠ []) :
    parseWordsLoop st r = st.words ++ [st.word ++ r] := by
  induction r generalizing st with
  | nil =>
    have hflush : st.blankOK ∨ st.word ≠ [] := by simpa using hne
    simp [parseWordsLoop, hph, WordsState.flush, hflush]
  | cons ch r ih =>
    obtain ⟨hlt, hsp, hq1, hq2, hbs⟩ := hr ch (by simp)
    have hst : st.startWord = st := st.startWord_of_ne (by simp [hph])
    have step : parseWordsLoop st (ch :: r) = parseWordsLoop (st.push [ch]) r := by
      simp [parseWordsLoop, hph, hsp, hbs, hst, WordsState.openQuote, hq1, hq2]
    rw [step, ih (st.push [ch]) (by simpa using hph) (fun b hb => hr b (by simp [hb]))
      (by simp [runeString_of_lt hlt])]
    simp [runeString_of_lt hlt]

/-- a non-empty ASCII line with no blank, quote or backslash is one word, returned whole -/
theorem parseWords_plain (rest : List UInt8) (hne : rest ≠ []) (h : ∀ b ∈ rest, PlainByte b) :
    parseWords rest = [rest] := by
  obtain ⟨ch, r, rfl⟩ := List.exists_cons_of_ne_nil hne
  obtain ⟨hlt, hsp, hq1, hq2, hbs⟩ := h ch (by simp)
  have step : parseWords (ch :: r) = parseWordsLoop (WordsState.init.startWord.push [ch]) r := by
    simp [parseWords, parseWordsLoop, WordsState.init, WordsState.startWord, WordsState.openQuote, hsp, hq1, hq2,
      hbs]
  rw [step, parseWordsLoop_plain _ r (by simp [WordsState.init, WordsState.startWord])
    (fun b hb => h b (by simp [hb])) (by simp [runeString_of_lt hlt])]
  simp [WordsState.init, runeString_of_lt hlt]

/-! ## `extractBuilderFlags` -/

/-- the bytes of `--` -/
def dashDash : List UInt8 := ['-'.toUInt8, '-'.toUInt8]

/-- the current word added at the end of a word: `--` alone is dropped -/
def WordsState.flushFlag (st : WordsState) : List (List UInt8) :=
  if st.word ≠ dashDash ∧ (st.blankOK ∨ st.word ≠ []) then st.words ++ [st.word] else st.words

/-- the loop of `extractBuilderFlags` over the bytes after `pos`: the rest of the line and the flags -/
def extractFlagsLoop : WordsState → List UInt8 → List UInt8 × List (List UInt8)
  | st, [] => ([], if st.phase = .inSpaces then st.words else st.flushFlag)
  | st, ch :: rest =>
    if st.phase = .inSpaces ∧ isSpaceByte ch then extractFlagsLoop st rest
    -- only a word that starts with `--` goes on
    else if st.phase = .inSpaces ∧ (ch ≠ '-'.toUInt8 ∨ rest.head? ≠ some '-'.toUInt8) then (ch :: rest, st.words)
    else
      let st := st.startWord
      if st.phase = .inWord then
        if isSpaceByte ch then
          if st.word = dashDash then (ch :: rest, st.words)
          else extractFlagsLoop { st with phase := .inSpaces, words := st.flush, word := [], blankOK := false } rest
        -- a quote is dropped
        else if ch = '\''.toUInt8 ∨ ch = '"'.toUInt8 then
          extractFlagsLoop { st with quote := ch, blankOK := true, phase := .inQuote } rest
        else if ch = '\\'.toUInt8 then
          match rest with
          | [] => extractFlagsLoop st []
          | c :: rest' => extractFlagsLoop (st.push [c]) rest'
        else extractFlagsLoop (st.push [ch]) rest
      else if ch = st.quote then extractFlagsLoop { st with phase := .inWord } rest
      else if ch = '\\'.toUInt8 then
        match rest with
        | [] => extractFlagsLoop { st with phase := .inWord } []
        | c :: rest' => extractFlagsLoop (st.push [c]) rest'
      else extractFlagsLoop (st.push [ch]) rest

/-- `extractBuilderFlags(line)`: the rest of the line and the flags; it never fails -/
def extractBuilderFlags (line : List UInt8) : List UInt8 × List (List UInt8) := extractFlagsLoop .init line

/-- the flag `--é` comes back as `--Ã©` -/
theorem extractBuilderFlags_reencodes :
    extractBuilderFlags (dashDash ++ Utf8.encodeRune 0xE9) =
        ([], [dashDash ++ Utf8.encodeRune 0xC3 ++ Utf8.encodeRune 0xA9]) ∧
      dashDash ++ Utf8.encodeRune 0xE9 ∉ (extractBuilderFlags (dashDash ++ Utf8.encodeRune 0xE9)).2 := by
  refine ⟨by decide, by decide⟩

/-- the rest of the line `extractBuilderFlags` hands on is a suffix of the line -/
theorem extractFlagsLoop_suffix (st : WordsState) (r : List UInt8) : (extractFlagsLoop st r).1 <:+ r := by
  fun_induction extractFlagsLoop st r
  case case1 => exact List.nil_suffix
  -- where the loop stops it returns the line from the current byte on
  case case3 | case4 => exact List.suffix_refl _
  -- otherwise it returns what a later turn returns, from further on in the line
  case case7 | case11 => exact ‹_ <:+ _›.trans List.nil_suffix
  case case8 | case12 => exact ‹_ <:+ _›.trans ((List.suffix_cons _ _).trans (List.suffix_cons _ _))
  all_goals exact ‹_ <:+ _›.trans (List.suffix_cons _ _)

/-- a flag as `extractBuilderFlags` promises it: `--` and more -/
def FlagOK (f : List UInt8) : Prop := dashDash <+: f ∧ f ≠ dashDash

/-- what holds between two bytes of the loop: the flags so far are flags, and the word in hand is empty between words,
a first `-` with a second one next, or starts with `--` -/
def FlagsInv (st : WordsState) (r : List UInt8) : Prop :=
  (∀ f ∈ st.words, FlagOK f) ∧
    (st.phase = .inSpaces ∧ st.word = [] ∨
      st.phase = .inWord ∧ st.word = ['-'.toUInt8] ∧ r.head? = some '-'.toUInt8 ∨
      st.phase ≠ .inSpaces ∧ dashDash <+: st.word)

theorem flush_flagOK {st : WordsState} (hw : ∀ f ∈ st.words, FlagOK f) (hp : dashDash <+: st.word)
    (hne : st.word ≠ dashDash) : ∀ f ∈ st.flush, FlagOK f := by
  unfold WordsState.flush
  split
  · simpa [or_imp, forall_and] using ⟨hw, hp, hne⟩
  · exact hw

theorem flushFlag_flagOK {st : WordsState} (hw : ∀ f ∈ st.words, FlagOK f) (hp : dashDash <+: st.word) :
    ∀ f ∈ st.flushFlag, FlagOK f := by
  unfold WordsState.flushFlag
  split
  · next h => simpa [or_imp, forall_and] using ⟨hw, hp, h.1⟩
  · exact hw

theorem prefix_push {st : WordsState} (h : dashDash <+: st.word) (bs : List UInt8) : dashDash <+: (st.push bs).word :=
  h.trans (List.prefix_append _ _)

theorem FlagsInv.word_nil {st : WordsState} {r : List UInt8} (h : FlagsInv st r) (hsp : st.phase = .inSpaces) :
    st.word = [] := by
  rcases h.2 with ⟨-, hw⟩ | ⟨hph, -⟩ | ⟨hph, -⟩
  · exact hw
  · simp [hsp] at hph
  · exact absurd hsp hph

/-- past a byte other than `-` that did not end the loop, the word in hand starts with `--` -/
theorem FlagsInv.prefix_of_ne {st : WordsState} {ch : UInt8} {rest : List UInt8} (h : FlagsInv st (ch :: rest))
    (hgo : ¬(st.phase = .inSpaces ∧ (ch ≠ '-'.toUInt8 ∨ rest.head? ≠ some '-'.toUInt8))) (hch : ch ≠ '-'.toUInt8) :
    st.phase ≠ .inSpaces ∧ dashDash <+: st.word := by
  rcases h.2 with ⟨hsp, -⟩ | ⟨-, -, hhead⟩ | h3
  · exact absurd ⟨hsp, .inl hch⟩ hgo
  · exact absurd (by simpa using hhead) hch
  · exact h3

/-- in a quoted part the word in hand starts with `--` -/
theorem FlagsInv.prefix_of_quoted {st : WordsState} {r : List UInt8} (h : FlagsInv st r)
    (hin : st.startWord.phase ≠ .inWord) : st.phase ≠ .inSpaces ∧ dashDash <+: st.word := by
  have hsp : st.phase ≠ .inSpaces := fun hsp => hin (by simp [WordsState.startWord, hsp])
  rw [st.startWord_of_ne hsp] at hin
  rcases h.2 with ⟨hsp', -⟩ | ⟨hph, -⟩ | h3
  · exact absurd hsp' hsp
  · exact absurd hph hin
  · exact h3

/-- every flag the loop returns starts with `--` and is not `--` alone -/
theorem extractFlagsLoop_flags (st : WordsState) (r : List UInt8) (h : FlagsInv st r) :
    ∀ f ∈ (extractFlagsLoop st r).2, FlagOK f := by
  fun_induction extractFlagsLoop st r
  case case1 st =>
    -- at the end of the line the word in hand is added when it is a flag
    show ∀ f ∈ (if st.phase = .inSpaces then st.words else st.flushFlag), FlagOK f
    split
    · exact h.1
    · next hph =>
      rcases h.2 with ⟨hsp, -⟩ | ⟨-, -, hhead⟩ | ⟨-, hpre⟩
      · exact absurd hsp hph
      · simp at hhead
      · exact flushFlag_flagOK h.1 hpre
  case case2 st ch rest hsp ih => exact ih ⟨h.1, .inl ⟨hsp.1, h.word_nil hsp.1⟩⟩
  case case3 => exact h.1
  case case4 st ch rest _ _ st1 _ _ _ => simpa [st1] using h.1
  case case5 st ch rest _ hgo st1 _ hsp hne ih =>
    -- a blank ends a flag
    have hch : ch ≠ '-'.toUInt8 := by rintro rfl; revert hsp; decide
    obtain ⟨-, hpre⟩ := h.prefix_of_ne hgo hch
    exact ih ⟨flush_flagOK (by simpa [st1] using h.1) (by simpa [st1] using hpre) hne, .inl ⟨rfl, rfl⟩⟩
  case case6 st ch rest _ hgo st1 _ _ hq ih =>
    have hch : ch ≠ '-'.toUInt8 := by rcases hq with rfl | rfl <;> decide
    obtain ⟨-, hpre⟩ := h.prefix_of_ne hgo hch
    exact ih ⟨by simpa [st1] using h.1, .inr (.inr ⟨by simp, by simpa [st1] using hpre⟩)⟩
  case case7 st st1 _ _ _ _ hgo ih =>
    obtain ⟨-, hpre⟩ := h.prefix_of_ne hgo (by decide)
    exact ih ⟨by simpa [st1] using h.1, .inr (.inr ⟨st.startWord_phase_ne, by simpa [st1] using hpre⟩)⟩
  case case8 st st1 _ c rest' _ _ _ hgo ih =>
    obtain ⟨-, hpre⟩ := h.prefix_of_ne hgo (by decide)
    exact ih ⟨by simpa [st1] using h.1,
      .inr (.inr ⟨by simpa using st.startWord_phase_ne, prefix_push (by simpa [st1] using hpre) _⟩)⟩
  case case9 st ch rest _ hgo st1 hin _ _ _ ih =>
    by_cases hsp : st.phase = .inSpaces
    · -- the first `-` of a word, with the second one next
      have hgo' : ch = '-'.toUInt8 ∧ rest.head? = some '-'.toUInt8 := by simpa [hsp] using hgo
      refine ih ⟨by simpa [st1] using h.1, .inr (.inl ⟨by simpa using hin, ?_, hgo'.2⟩)⟩
      simp [st1, h.word_nil hsp, hgo'.1, runeString_of_lt (show '-'.toUInt8 < 0x80 by decide)]
    · have hst : st.startWord = st := st.startWord_of_ne hsp
      rcases h.2 with ⟨hsp', -⟩ | ⟨-, hw, hhead⟩ | ⟨-, hpre⟩
      · exact absurd hsp' hsp
      · -- the second `-`
        have hch : ch = '-'.toUInt8 := by simpa using hhead
        refine ih ⟨by simpa [st1, hst] using h.1, .inr (.inr ⟨by simp [st1, hst, hsp], ?_⟩)⟩
        simp [st1, hst, hw, hch, dashDash, runeString_of_lt (show '-'.toUInt8 < 0x80 by decide)]
      · exact ih ⟨by simpa [st1, hst] using h.1,
          .inr (.inr ⟨by simp [st1, hst, hsp], prefix_push (by simpa [st1, hst] using hpre) _⟩)⟩
  case case10 st rest st1 hin _ _ ih =>
    obtain ⟨-, hpre⟩ := h.prefix_of_quoted hin
    exact ih ⟨by simpa [st1] using h.1, .inr (.inr ⟨by simp, by simpa [st1] using hpre⟩)⟩
  case case11 st st1 hin _ _ _ ih =>
    obtain ⟨-, hpre⟩ := h.prefix_of_quoted hin
    exact ih ⟨by simpa [st1] using h.1, .inr (.inr ⟨by simp, by simpa [st1] using hpre⟩)⟩
  case case12 st st1 hin c rest' _ _ _ ih =>
    obtain ⟨-, hpre⟩ := h.prefix_of_quoted hin
    exact ih ⟨by simpa [st1] using h.1,
      .inr (.inr ⟨by simpa using st.startWord_phase_ne, prefix_push (by simpa [st1] using hpre) _⟩)⟩
  case case13 st ch rest _ _ st1 hin _ _ ih =>
    obtain ⟨-, hpre⟩ := h.prefix_of_quoted hin
    exact ih ⟨by simpa [st1] using h.1,
      .inr (.inr ⟨by simpa using st.startWord_phase_ne, prefix_push (by simpa [st1] using hpre) _⟩)⟩

/-- whatever the line, `extractBuilderFlags` hands on a suffix of it, and every flag it returns starts with `--` and
is not `--` alone -/
theorem extractBuilderFlags_spec (line : List UInt8) :
    (extractBuilderFlags line).1 <:+ line ∧ ∀ f ∈ (extractBuilderFlags line).2, dashDash <+: f ∧ f ≠ dashDash :=
  ⟨extractFlagsLoop_suffix _ _, extractFlagsLoop_flags _ _ ⟨by simp [WordsState.init], .inl ⟨rfl, rfl⟩⟩⟩

end DockerEngine.Parser
