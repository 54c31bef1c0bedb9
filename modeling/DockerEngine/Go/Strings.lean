/-
Lean model of the functions of Go's `strings` and `unicode` packages that the modelled code calls.

A Go string is modelled as the sequence of its Unicode code points (`Text`); the code modelled here only ever splits
strings at ASCII characters, where bytes and code points agree.
-/
import Mathlib
import DockerEngine.Lib.Prelude

namespace DockerEngine.Go

/-- a Go string, by Unicode code point -/
abbrev Text := List Char

/-- `unicode.IsSpace` -/
def isSpace (c : Char) : Bool :=
  match c.toNat with
  | 0x09 | 0x0A | 0x0B | 0x0C | 0x0D | 0x20 | 0x85 | 0xA0 | 0x1680 | 0x2028 | 0x2029 | 0x202F | 0x205F | 0x3000 =>
    true
  | n => decide (0x2000 ≤ n ∧ n ≤ 0x200A)

/-- `strings.TrimLeftFunc(s, unicode.IsSpace)` -/
def trimLeft (s : Text) : Text := s.dropWhile isSpace

/-- `strings.TrimSpace` -/
def trimSpace (s : Text) : Text := (s.dropWhile isSpace).rdropWhile isSpace

/-- `strings.Split(s, sep)` for a one-character separator -/
def split (s : Text) (sep : Char) : List Text := s.splitOn sep

/-- the loop of `strings.Split(s, sep)` past the piece `cur`: at each index, an occurrence of `sep` ends the piece.
`fuel`, more than the length of `s`, bounds its turns -/
def splitStrLoop (sep : Text) : ℕ → Text → Text → List Text
  | 0, cur, s => [cur ++ s]
  | _ + 1, cur, [] => [cur]
  | fuel + 1, cur, c :: s =>
    if sep ≠ [] ∧ sep.isPrefixOf (c :: s) then cur :: splitStrLoop sep fuel [] ((c :: s).drop sep.length)
    else splitStrLoop sep fuel (cur ++ [c]) s

/-- `strings.Split(s, sep)` for a non-empty separator -/
def splitStr (s sep : Text) : List Text := splitStrLoop sep (s.length + 1) [] s

/-- with no occurrence of the separator left, the loop ends the piece with the rest of the text -/
theorem splitStrLoop_of_not_infix {sep : Text} : ∀ (fuel : ℕ) (cur s : Text), ¬List.IsInfix sep s →
    splitStrLoop sep fuel cur s = [cur ++ s]
  | 0, _, _, _ => rfl
  | _ + 1, cur, [], _ => by simp [splitStrLoop]
  | fuel + 1, cur, c :: s, h => by
    have hprefix : ¬(sep ≠ [] ∧ sep.isPrefixOf (c :: s) = true) := fun hp =>
      h (List.IsPrefix.isInfix (List.isPrefixOf_iff_prefix.mp hp.2))
    rw [splitStrLoop, if_neg hprefix,
      splitStrLoop_of_not_infix fuel _ s fun hs => h (hs.trans (List.infix_cons (List.infix_refl s))),
      List.append_assoc, List.singleton_append]

/-- `strings.TrimPrefix(s, prefix)` -/
def trimPrefix (s pre : Text) : Text := if pre.isPrefixOf s then s.drop pre.length else s

/-- a text without the prefix anywhere in it keeps its start -/
theorem trimPrefix_of_not_infix {s pre : Text} (h : ¬List.IsInfix pre s) : trimPrefix s pre = s := by
  rw [trimPrefix, if_neg]
  exact fun hp => h (List.IsPrefix.isInfix (List.isPrefixOf_iff_prefix.mp hp))

/-- `strings.Contains(s, substr)` -/
def contains (s substr : Text) : Bool := decide (List.IsInfix substr s)

/-- `strings.Join(elems, sep)` for a one-character separator -/
def join (elems : List Text) (sep : Char) : Text := [sep].intercalate elems

/-- `strings.HasPrefix(s, prefix)` -/
def hasPrefix (s pre : Text) : Bool := pre.isPrefixOf s

/-- `strings.HasSuffix(s, suffix)` -/
def hasSuffix (s suffix : Text) : Bool := suffix.isSuffixOf s

/-- `strings.EqualFold(s, t)` on ASCII text, such as HTTP header names, where Unicode case folding is ASCII case
folding -/
def equalFold (s t : Text) : Bool := s.map Char.toLower == t.map Char.toLower

/-- `name[:i]` and `name[i+1:]` for `i := strings.IndexRune(name, c)`, or `none` when `i` is `-1` -/
def cutRune (c : Char) : Text → Option (Text × Text)
  | [] => none
  | x :: s => if x = c then some ([], s) else (cutRune c s).map fun (a, b) => (x :: a, b)

/-- the same at `strings.LastIndex(name, c)` -/
def cutLastRune (c : Char) (s : Text) : Option (Text × Text) :=
  (cutRune c s.reverse).map fun (a, b) => (b.reverse, a.reverse)

theorem cutRune_eq_none {c : Char} {s : Text} (h : c ∉ s) : cutRune c s = none := by
  induction s with
  | nil => rfl
  | cons x s ih =>
    have hx : x ≠ c := fun hx => h (hx ▸ List.mem_cons_self ..)
    rw [cutRune, if_neg hx, ih (fun hs => h (List.mem_cons_of_mem x hs)), Option.map_none]

theorem cutRune_append {c : Char} {a : Text} (ha : c ∉ a) (b : Text) : cutRune c (a ++ c :: b) = some (a, b) := by
  induction a with
  | nil => simp [cutRune]
  | cons x a ih =>
    have hx : x ≠ c := fun hx => ha (hx ▸ List.mem_cons_self ..)
    rw [List.cons_append, cutRune, if_neg hx, ih (fun h => ha (List.mem_cons_of_mem x h)), Option.map_some]

theorem cutRune_eq_some {c : Char} {s a b : Text} (h : cutRune c s = some (a, b)) : c ∉ a ∧ s = a ++ c :: b := by
  induction s generalizing a with
  | nil => cases h
  | cons x s ih =>
    rw [cutRune] at h
    split_ifs at h with hx
    · cases h
      exact ⟨List.not_mem_nil, by rw [hx]; rfl⟩
    · obtain ⟨⟨a', b'⟩, hs, heq⟩ := Option.map_eq_some_iff.mp h
      cases heq
      obtain ⟨ha', rfl⟩ := ih hs
      exact ⟨by simp [Ne.symm hx, ha'], rfl⟩

theorem cutLastRune_append {c : Char} {b : Text} (hb : c ∉ b) (a : Text) :
    cutLastRune c (a ++ c :: b) = some (a, b) := by
  have hb' : c ∉ b.reverse := by simpa using hb
  simp [cutLastRune, cutRune_append hb']

theorem cutLastRune_eq_none {c : Char} {s : Text} (h : c ∉ s) : cutLastRune c s = none := by
  rw [cutLastRune, cutRune_eq_none (by simpa using h), Option.map_none]

theorem cutLastRune_eq_some {c : Char} {s a b : Text} (h : cutLastRune c s = some (a, b)) :
    c ∉ b ∧ s = a ++ c :: b := by
  obtain ⟨⟨b', a'⟩, hs, heq⟩ := Option.map_eq_some_iff.mp h
  cases heq
  obtain ⟨hb, hrev⟩ := cutRune_eq_some hs
  refine ⟨by simpa using hb, ?_⟩
  rw [← List.reverse_reverse s, hrev]
  simp

/-- a text that neither starts nor ends with a space is its own `TrimSpace` -/
theorem trimSpace_eq_self {s : Text} (hhead : ∀ c ∈ s.head?, isSpace c = false)
    (hlast : ∀ c ∈ s.getLast?, isSpace c = false) : trimSpace s = s := by
  have hdrop : s.dropWhile isSpace = s := by
    cases s with
    | nil => rfl
    | cons c s => exact List.dropWhile_cons_of_neg (by simp [hhead c rfl])
  rw [trimSpace, hdrop, List.rdropWhile_eq_self_iff]
  intro hs
  simp [hlast (s.getLast hs) (List.getLast?_eq_some_getLast hs)]

/-- every character of `strings.Join(elems, sep)` is the separator or a character of an element -/
theorem forall_mem_join {p : Char → Prop} {sep : Char} (hsep : p sep) :
    ∀ {elems : List Text}, (∀ e ∈ elems, ∀ c ∈ e, p c) → ∀ c ∈ join elems sep, p c
  | [], _ => by simp [join]
  | [e], h => by simpa [join] using h e (List.mem_singleton_self e)
  | e :: e' :: elems, h => by
    intro c hc
    rw [join, List.intercalate_cons_cons] at hc
    rcases List.mem_append.mp hc with hc | hc
    · rcases List.mem_append.mp hc with hc | hc
      · exact h e (List.mem_cons_self ..) c hc
      · rw [List.mem_singleton.mp hc]
        exact hsep
    · exact forall_mem_join hsep (fun e he => h e (List.mem_cons_of_mem _ he)) c hc

/-- the lower-case hexadecimal digit of `n < 16` -/
def hexDigit (n : ℕ) : Char := "0123456789abcdef".toList.getD n '0'

/-- how `strconv.Quote` writes one character: the short escapes, `\x` and two hexadecimal digits for the other
control characters, and every other character as it is (Go escapes a non-printable character beyond ASCII with `\u`,
which no text modelled here holds) -/
def quoteRune (c : Char) : Text :=
  if c = '"' ∨ c = '\\' then ['\\', c]
  else
    match c.toNat with
    | 7 => ['\\', 'a']
    | 8 => ['\\', 'b']
    | 9 => ['\\', 't']
    | 10 => ['\\', 'n']
    | 11 => ['\\', 'v']
    | 12 => ['\\', 'f']
    | 13 => ['\\', 'r']
    | n => if n < 0x20 ∨ n = 0x7F then ['\\', 'x', hexDigit (n / 16), hexDigit (n % 16)] else [c]

/-- `strconv.Quote(s)`, the verb `%q` of `fmt` -/
def quote (s : Text) : Text := '"' :: s.flatMap quoteRune ++ ['"']

end DockerEngine.Go
