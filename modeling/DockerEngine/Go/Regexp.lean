/-
Lean model of Go's `regexp.MatchString` for the subset of the `regexp/syntax` language that covers the regular
expressions `regexpMatch` builds.

`regexp.Compile` parses with the `Perl` flags: `^` and `$` match only at the beginning and the end of the text, `.`
does not match a newline and a negated class does, a `?` after a repetition operator makes it non-greedy, and a
repetition operator may not follow another one. The parse is split in two here: `lex` reads the tokens (classes and
escapes included) and `parse` builds the syntax tree with the stack of open groups, as `parser.op`,
`parseVerticalBar` and `parseRightParen` do.

A match is a set of positions: `ends s re i` lists the positions where a match of `re` starting at position `i` of
`s` can end, and `MatchString` asks whether a match starts anywhere. Greediness decides which match is reported,
never whether there is one, so the model ignores it.

Syntax outside the subset (`(?flags)`, `{n,m}`, Perl and Unicode classes, `\A \z \b \B \C \Q`, octal and hex escapes,
`[:alpha:]`) makes `compile` return `none`: the model then says nothing about the expression.
-/
import Mathlib.Tactic
import DockerEngine.Go.Strings

namespace DockerEngine.Go.Syntax

/-- `syntax.ErrorCode`, for the errors of the modelled subset -/
inductive ErrorCode
  | errInvalidCharRange
  | errInvalidEscape
  | errInvalidRepeatOp
  | errMissingBracket
  | errMissingParen
  | errMissingRepeatArgument
  | errTrailingBackslash
  | errUnexpectedParen
  deriving DecidableEq, Repr

/-- `syntax.Regexp`, with the operators of the modelled subset -/
inductive Regexp
  | emptyMatch
  | literal (c : Char)
  /-- the characters in one of the ranges, or with `neg` those in none of them -/
  | charClass (neg : Bool) (ranges : List (Char × Char))
  | anyCharNotNL
  | beginText
  | endText
  | star (sub : Regexp)
  | plus (sub : Regexp)
  | quest (sub : Regexp)
  | concat (a b : Regexp)
  | alternate (a b : Regexp)
  deriving DecidableEq, Repr

/-! ## Tokens -/

/-- the repetition operators `*`, `+` and `?` -/
inductive RepeatOp
  | star
  | plus
  | quest
  deriving DecidableEq, Repr

inductive Token
  | lit (c : Char)
  | dot
  | caret
  | dollar
  | leftParen
  | rightParen
  | verticalBar
  | repeatOp (op : RepeatOp)
  | cls (neg : Bool) (ranges : List (Char × Char))
  deriving DecidableEq, Repr

/-- `parseEscape` of `\c`: the character it stands for, an error, or `none` outside the modelled subset -/
def escape (c : Char) : Option (Except ErrorCode Char) :=
  -- escaped punctuation is itself
  if c.toNat < 0x80 ∧ ¬c.isAlphanum then some (.ok c)
  else
    match c with
    | 'a' => some (.ok (Char.ofNat 7))
    | 'f' => some (.ok (Char.ofNat 12))
    | 'n' => some (.ok '\n')
    | 'r' => some (.ok '\r')
    | 't' => some (.ok '\t')
    | 'v' => some (.ok (Char.ofNat 11))
    | '0' | '1' | '2' | '3' | '4' | '5' | '6' | '7' | 'x' | 'p' | 'P' | 'd' | 'D' | 's' | 'S' | 'w' | 'W'
    | 'A' | 'z' | 'b' | 'B' | 'C' | 'Q' => none
    | _ => some (.error .errInvalidEscape)

/-- where `lex` is: at the top level, or inside a class with its sign, whether no item has been read yet, the ranges
read, and the last character read, which is the low end of a range if `-` and a character other than `]` follow -/
inductive Scan
  | top
  | cls (neg first : Bool) (ranges : List (Char × Char)) (pending : Option Char)

/-- a token in front of the tokens of the rest -/
def push (t : Token) (r : Option (Except ErrorCode (List Token))) : Option (Except ErrorCode (List Token)) :=
  r.map (·.map (t :: ·))

/-- go on with the character an escape stands for -/
def withEscape (c : Char) (k : Char → Option (Except ErrorCode (List Token))) :
    Option (Except ErrorCode (List Token)) :=
  (escape c).bind fun
    | .error e => some (.error e)
    | .ok c => k c

/-- the ranges of a class with the pending character added as a range of its own -/
def commit (ranges : List (Char × Char)) : Option Char → List (Char × Char)
  | none => ranges
  | some lo => (lo, lo) :: ranges

/-- the tokens of a regular expression -/
def lex : Scan → Text → Option (Except ErrorCode (List Token))
  | .top, [] => some (.ok [])
  | .top, ['\\'] => some (.error .errTrailingBackslash)
  | .top, '\\' :: e :: t => withEscape e fun c => push (.lit c) (lex .top t)
  | .top, '(' :: '?' :: _ => none
  | .top, '(' :: t => push .leftParen (lex .top t)
  | .top, ')' :: t => push .rightParen (lex .top t)
  | .top, '|' :: t => push .verticalBar (lex .top t)
  | .top, '^' :: t => push .caret (lex .top t)
  | .top, '$' :: t => push .dollar (lex .top t)
  | .top, '.' :: t => push .dot (lex .top t)
  | .top, '{' :: _ => none
  -- a `?` after an operator makes it non-greedy
  | .top, '*' :: '?' :: t => push (.repeatOp .star) (lex .top t)
  | .top, '*' :: t => push (.repeatOp .star) (lex .top t)
  | .top, '+' :: '?' :: t => push (.repeatOp .plus) (lex .top t)
  | .top, '+' :: t => push (.repeatOp .plus) (lex .top t)
  | .top, '?' :: '?' :: t => push (.repeatOp .quest) (lex .top t)
  | .top, '?' :: t => push (.repeatOp .quest) (lex .top t)
  | .top, '[' :: '^' :: t => lex (.cls true true [] none) t
  | .top, '[' :: t => lex (.cls false true [] none) t
  | .top, c :: t => push (.lit c) (lex .top t)
  | .cls .., [] => some (.error .errMissingBracket)
  -- `lo-hi`; but `lo-]` is `lo`, `-` and the end of the class
  | .cls neg _ ranges (some lo), '-' :: ']' :: t => push (.cls neg (('-', '-') :: (lo, lo) :: ranges)) (lex .top t)
  | .cls _ _ _ (some _), ['-', '\\'] => some (.error .errTrailingBackslash)
  | .cls neg _ ranges (some lo), '-' :: '\\' :: e :: t =>
    withEscape e fun hi =>
      if hi < lo then some (.error .errInvalidCharRange) else lex (.cls neg false ((lo, hi) :: ranges) none) t
  | .cls neg _ ranges (some lo), '-' :: hi :: t =>
    if hi < lo then some (.error .errInvalidCharRange) else lex (.cls neg false ((lo, hi) :: ranges) none) t
  -- `]` first in a class is a character of it
  | .cls neg first ranges pending, ']' :: t =>
    if first then lex (.cls neg false (commit ranges pending) (some ']')) t
    else push (.cls neg (commit ranges pending)) (lex .top t)
  | .cls _ _ _ _, '[' :: ':' :: _ => none
  | .cls _ _ _ _, ['\\'] => some (.error .errTrailingBackslash)
  | .cls neg _ ranges pending, '\\' :: e :: t =>
    withEscape e fun lo => lex (.cls neg false (commit ranges pending) (some lo)) t
  | .cls neg _ ranges pending, c :: t => lex (.cls neg false (commit ranges pending) (some c)) t

/-! ## Parsing -/

/-- an open group: the branches before the last `|` and the items of the current branch, both last first -/
structure Frame where
  alts : List Regexp
  items : List Regexp

/-- the concatenation of a branch, items in order -/
def concatOf : List Regexp → Regexp
  | [] => .emptyMatch
  | [r] => r
  | r :: rs => .concat r (concatOf rs)

/-- the alternation of the branches, in order -/
def alternateOf : List Regexp → Regexp
  | [] => .emptyMatch
  | [r] => r
  | r :: rs => .alternate r (alternateOf rs)

/-- the expression a group stands for when it is closed -/
def Frame.close (f : Frame) : Regexp := alternateOf (concatOf f.items.reverse :: f.alts).reverse

def RepeatOp.apply : RepeatOp → Regexp → Regexp
  | .star => .star
  | .plus => .plus
  | .quest => .quest

/-- the single-item tokens -/
def Token.atom : Token → Regexp
  | .lit c => .literal c
  | .dot => .anyCharNotNL
  | .caret => .beginText
  | .dollar => .endText
  | .cls neg ranges => .charClass neg ranges
  | _ => .emptyMatch

/-- the parser over the tokens: the innermost open group `cur`, the groups around it, and whether the last token was
a repetition operator -/
def parse (cur : Frame) (outer : List Frame) (lastRepeat : Bool) : List Token → Except ErrorCode Regexp
  | [] => if outer = [] then .ok cur.close else .error .errMissingParen
  | .repeatOp op :: ts =>
    if lastRepeat then .error .errInvalidRepeatOp
    else
      match cur.items with
      -- nothing to repeat at the start of a group or a branch
      | [] => .error .errMissingRepeatArgument
      | r :: rs => parse { cur with items := op.apply r :: rs } outer true ts
  | .verticalBar :: ts => parse ⟨concatOf cur.items.reverse :: cur.alts, []⟩ outer false ts
  | .leftParen :: ts => parse ⟨[], []⟩ (cur :: outer) false ts
  | .rightParen :: ts =>
    match outer with
    | [] => .error .errUnexpectedParen
    | f :: outer => parse { f with items := cur.close :: f.items } outer false ts
  | t :: ts => parse { cur with items := t.atom :: cur.items } outer false ts

/-- `regexp.Compile(expr)`, `none` outside the modelled subset -/
def compile (expr : Text) : Option (Except ErrorCode Regexp) :=
  (lex .top expr).map (·.bind (parse ⟨[], []⟩ [] false))

/-! ## Matching -/

section Match

variable (s : Text)

/-- the positions reached from `xs` by at most `n` steps of `f` -/
def reach (f : ℕ → List ℕ) : ℕ → List ℕ → List ℕ
  | 0, xs => xs
  | n + 1, xs => reach f n (xs ++ xs.flatMap f).dedup

def inRanges (ranges : List (Char × Char)) (c : Char) : Bool := ranges.any fun r => r.1 ≤ c && c ≤ r.2

/-- the positions where a match of `re` that starts at position `i` of `s` can end; a repetition takes at most
`s.length + 1` steps, enough to reach every position it can reach -/
def ends : Regexp → ℕ → List ℕ
  | .emptyMatch, i => [i]
  | .literal c, i => if s[i]? = some c then [i + 1] else []
  | .charClass neg ranges, i =>
    match s[i]? with
    | some c => if inRanges ranges c != neg then [i + 1] else []
    | none => []
  | .anyCharNotNL, i =>
    match s[i]? with
    | some c => if c ≠ '\n' then [i + 1] else []
    | none => []
  | .beginText, i => if i = 0 then [i] else []
  | .endText, i => if i = s.length then [i] else []
  | .star r, i => reach (ends r) (s.length + 1) [i]
  | .plus r, i => reach (ends r) (s.length + 1) (ends r i)
  | .quest r, i => i :: ends r i
  | .concat a b, i => (ends a i).flatMap (ends b)
  | .alternate a b, i => ends a i ++ ends b i

end Match

/-- `re.MatchString(s)`: whether a match of `re` starts somewhere in `s` -/
def Regexp.matchString (re : Regexp) (s : Text) : Bool :=
  (List.range (s.length + 1)).any fun i => !(ends s re i).isEmpty

end DockerEngine.Go.Syntax

namespace DockerEngine.Go.Regexp

open DockerEngine.Go.Syntax

/-- `regexp.MatchString(pattern, s)` -/
def matchString (pattern s : Text) : Option (Except ErrorCode Bool) :=
  (compile pattern).map (·.map (·.matchString s))

end DockerEngine.Go.Regexp
