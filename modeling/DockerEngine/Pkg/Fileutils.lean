/-
Lean model of the pattern matching of `pkg/fileutils/fileutils.go`, which decides the files a `.dockerignore` leaves
out of a build context.

`CleanPatterns` trims and cleans the patterns and splits each (without its `!`) into directories. `OptimizedMatches`
goes through the patterns in order, and the last pattern that matches the file, or a parent directory of it,
decides: an exception pattern (`!...`) keeps the file in. A pattern is matched by `regexpMatch`, which calls
`filepath.Match` only for its error and then translates the pattern into a regular expression for `regexp`.

`matchesLoop_append` and `matchesLoop_singleton` say how the loop composes; `matches_append_positive` is the
last-match-wins law for a pattern that does not clean to an exception. `CleanPatterns` cleans a pattern before it
takes the `!` off, so an exception is not always the exact negation of the pattern it names (`matches_exception_dot`),
and `regexp` reads what `filepath.Match` takes literally (`regexpMatch_plus`).

`OptimizedMatches` takes `patterns[i]` and `patDirs[i]` together: the model takes the pairs, which `Matches` builds
from the two lists of `CleanPatterns`, of the same length (`cleanPatterns_length`).
-/
import Mathlib.Tactic
import DockerEngine.Go.Filepath
import DockerEngine.Go.Regexp

namespace DockerEngine.Fileutils

open DockerEngine.Go

/-- `exclusion(pattern)`: `pattern[0] == '!'` -/
def exclusion (pattern : Text) : Bool := pattern.head? == some '!'

/-- `empty(pattern)` -/
def empty (pattern : Text) : Bool := pattern.isEmpty

/-! ## `CleanPatterns` -/

/-- the directories of a cleaned pattern, without its `!` -/
def patternDirs (cleaned : Text) : List Text := split (if exclusion cleaned then cleaned.tail else cleaned) '/'

/-- `CleanPatterns(patterns)`: the cleaned patterns, the directories of each (without its `!`), and whether there is
an exception pattern -/
def cleanPatterns : List Text → Except Text (List Text × List (List Text) × Bool)
  | [] => .ok ([], [], false)
  | pattern :: patterns =>
    let pattern := trimSpace pattern
    if empty pattern then cleanPatterns patterns
    else if exclusion pattern ∧ pattern.length = 1 then .error "Illegal exclusion pattern: !".toList
    else
      let cleaned := filepathClean pattern
      (cleanPatterns patterns).map fun r => (cleaned :: r.1, patternDirs cleaned :: r.2.1, exclusion pattern || r.2.2)

theorem cleanPatterns_length {patterns : List Text} {cleaned : List Text} {dirs : List (List Text)} {ex : Bool}
    (h : cleanPatterns patterns = .ok (cleaned, dirs, ex)) : cleaned.length = dirs.length := by
  induction patterns generalizing cleaned dirs ex with
  | nil =>
    cases h
    rfl
  | cons p ps ih =>
    simp only [cleanPatterns] at h
    split at h
    · exact ih h
    · split at h
      · cases h
      · cases hr : cleanPatterns ps with
        | error e => simp [hr, Except.map] at h
        | ok r =>
          simp only [hr, Except.map, Except.ok.injEq, Prod.mk.injEq] at h
          obtain ⟨rfl, rfl, -⟩ := h
          simp [ih hr]

/-- cleaning a list of patterns is cleaning its parts -/
theorem cleanPatterns_append (ps qs : List Text) :
    cleanPatterns (ps ++ qs) = (cleanPatterns ps).bind fun a =>
      (cleanPatterns qs).map fun b => (a.1 ++ b.1, a.2.1 ++ b.2.1, a.2.2 || b.2.2) := by
  induction ps with
  | nil =>
    rw [List.nil_append]
    cases cleanPatterns qs <;> rfl
  | cons p ps ih =>
    simp only [List.cons_append, cleanPatterns]
    split
    · exact ih
    · split
      · rfl
      · rw [ih]
        cases cleanPatterns ps <;> cases cleanPatterns qs <;> simp [Except.map, Except.bind, Bool.or_assoc]

/-- one pattern is dropped, or cleaned to one pattern -/
theorem cleanPatterns_singleton {p : Text} {cleaned : List Text} {dirs : List (List Text)} {ex : Bool}
    (h : cleanPatterns [p] = .ok (cleaned, dirs, ex)) :
    (trimSpace p = [] ∧ cleaned = [] ∧ dirs = []) ∨
      (cleaned = [filepathClean (trimSpace p)] ∧ dirs = [patternDirs (filepathClean (trimSpace p))]) := by
  simp only [cleanPatterns] at h
  split at h
  · rename_i hempty
    cases h
    exact .inl ⟨List.isEmpty_iff.mp hempty, rfl, rfl⟩
  · split at h
    · cases h
    · simp only [Except.map, Except.ok.injEq, Prod.mk.injEq] at h
      obtain ⟨rfl, rfl, -⟩ := h
      exact .inr ⟨rfl, rfl⟩

/-! ## `regexpMatch` -/

/-- the loop of `regexpMatch` that translates a pattern into the body of `regStr` -/
def regStrOf : Text → Text
  | [] => []
  -- `**` at the end accepts everything, as `.gitignore` does
  | ['*', '*'] => ".*".toList
  -- `**/` is `**`
  | '*' :: '*' :: '/' :: t => "((.*/)|([^/]*))".toList ++ regStrOf t
  | '*' :: '*' :: t => "((.*/)|([^/]*))".toList ++ regStrOf t
  | '*' :: t => "[^/]*".toList ++ regStrOf t
  | '?' :: t => "[^/]".toList ++ regStrOf t
  -- the only characters escaped for `regexp`
  | '.' :: t => '\\' :: '.' :: regStrOf t
  | '$' :: t => '\\' :: '$' :: regStrOf t
  | ['\\'] => ['\\']
  | '\\' :: c :: t => '\\' :: c :: regStrOf t
  | c :: t => c :: regStrOf t

/-- `regexpMatch(pattern, path)`; `none` when `regexp` is given syntax outside the model -/
def regexpMatch (pattern path : Text) : Option (Except MatchErr Bool) :=
  match filepathMatch pattern path with
  | .error e => some (.error e)
  | .ok _ =>
    -- an error of `regexp` is reported as `filepath.ErrBadPattern`
    (Regexp.matchString ('^' :: regStrOf pattern ++ ['$']) path).map (·.mapError fun _ => .errBadPattern)

/-- `regexpMatch` and `filepath.Match` disagree on `a+`: `regexp` reads `+` as a repetition -/
theorem regexpMatch_plus :
    regexpMatch "a+".toList "a".toList = some (.ok true) ∧ filepathMatch "a+".toList "a".toList = .ok false := by
  constructor <;> decide

/-! ## `OptimizedMatches` and `Matches` -/

/-- the error `OptimizedMatches` reports for a bad pattern -/
def errorInPattern (pattern : Text) : Text :=
  "Error in pattern (".toList ++ pattern ++ "): syntax error in pattern".toList

/-- the fallback of `OptimizedMatches` when the pattern does not match the file: the pattern's directories against as
many leading directories of the file's parent; an error there counts as no match -/
def parentMatch (parentPathDirs dirs : List Text) : Option Bool :=
  if dirs.length ≤ parentPathDirs.length then
    (regexpMatch (join dirs '/') (join (parentPathDirs.take dirs.length) '/')).map fun
      | .ok m => m
      | .error _ => false
  else some false

/-- whether a pattern of `OptimizedMatches`, without its `!`, matches the file or a parent directory of it -/
def patternMatch (file parentPath : Text) (pd : Text × List Text) : Option (Except Text Bool) :=
  let pattern := if exclusion pd.1 then pd.1.tail else pd.1
  match regexpMatch pattern file with
  | none => none
  | some (.error _) => some (.error (errorInPattern pattern))
  | some (.ok m) =>
    if !m && parentPath != ['.'] then (parentMatch (split parentPath '/') pd.2).map .ok else some (.ok m)

/-- the loop of `OptimizedMatches`: a pattern that matches sets the verdict, to false if it is an exception -/
def matchesLoop (file parentPath : Text) : Bool → List (Text × List Text) → Option (Except Text Bool)
  | matched, [] => some (.ok matched)
  | matched, pd :: pds =>
    match patternMatch file parentPath pd with
    | some (.ok m) => matchesLoop file parentPath (if m then !exclusion pd.1 else matched) pds
    | r => r

/-- `OptimizedMatches(file, patterns, patDirs)`, each pattern paired with its directories -/
def optimizedMatches (file : Text) (patterns : List (Text × List Text)) : Option (Except Text Bool) :=
  matchesLoop file (filepathDir file) false patterns

/-- `Matches(file, patterns)` -/
def «matches» (file : Text) (patterns : List Text) : Option (Except Text Bool) :=
  let file := filepathClean file
  -- the context directory itself is never left out
  if file = ['.'] then some (.ok false)
  else
    match cleanPatterns patterns with
    | .error e => some (.error e)
    | .ok (patterns, patDirs, _) => optimizedMatches file (patterns.zip patDirs)

/-- the loop over two lists of patterns is the loop over the second from the verdict of the first -/
theorem matchesLoop_append (file parentPath : Text) (matched : Bool) (xs ys : List (Text × List Text)) :
    matchesLoop file parentPath matched (xs ++ ys) =
      match matchesLoop file parentPath matched xs with
      | some (.ok m) => matchesLoop file parentPath m ys
      | r => r := by
  induction xs generalizing matched with
  | nil => rfl
  | cons pd xs ih =>
    simp only [List.cons_append, matchesLoop]
    -- an error or a pattern outside the model ends both loops
    rcases patternMatch file parentPath pd with _ | e | m
    · rfl
    · rfl
    · exact ih _

/-- one pattern sets the verdict if it matches and keeps it otherwise -/
theorem matchesLoop_singleton (file parentPath : Text) (matched : Bool) (pd : Text × List Text) :
    matchesLoop file parentPath matched [pd] =
      (patternMatch file parentPath pd).map (·.map fun m => if m then !exclusion pd.1 else matched) := by
  simp only [matchesLoop]
  rcases patternMatch file parentPath pd with _ | e | m
  · rfl
  · rfl
  · rfl

/-- what `Matches` does with a file that is not the context directory -/
theorem matches_eq {file : Text} (patterns : List Text) (hf : filepathClean file ≠ ['.']) :
    «matches» file patterns =
      match cleanPatterns patterns with
      | .error e => some (.error e)
      | .ok (ps, ds, _) => matchesLoop (filepathClean file) (filepathDir (filepathClean file)) false (ps.zip ds) := by
  simp only [«matches», hf, if_false]
  rfl

/-- last match wins: a pattern that does not clean to an exception, put after the others, leaves the file out if it
matches, and keeps the verdict of the others if it does not -/
theorem matches_append_positive (file : Text) (ps : List Text) (p : Text) (b₁ b₂ : Bool)
    (hf : filepathClean file ≠ ['.']) (hp : exclusion (filepathClean (trimSpace p)) = false)
    (h₁ : «matches» file ps = some (.ok b₁)) (h₂ : «matches» file [p] = some (.ok b₂)) :
    «matches» file (ps ++ [p]) = some (.ok (b₁ || b₂)) := by
  rw [matches_eq _ hf] at h₁ h₂ ⊢
  -- both `ps` and `[p]` clean without an error
  rcases hps : cleanPatterns ps with e | ⟨cs, ds, ex⟩
  · simp [hps] at h₁
  rcases hp₁ : cleanPatterns [p] with e | ⟨cs₁, ds₁, ex₁⟩
  · simp [hp₁] at h₂
  simp only [hps, hp₁] at h₁ h₂
  rw [cleanPatterns_append, hps, hp₁]
  simp only [Except.bind, Except.map]
  -- the loop over `ps` gives `b₁`, and `p` goes on from there
  rw [List.zip_append (cleanPatterns_length hps), matchesLoop_append, h₁]
  rcases cleanPatterns_singleton hp₁ with ⟨-, rfl, rfl⟩ | ⟨rfl, rfl⟩
  · cases h₂
    simp [matchesLoop]
  · simp only [List.zip_cons_cons, List.zip_nil_right, matchesLoop_singleton, hp] at h₂ ⊢
    rcases hm : patternMatch (filepathClean file) (filepathDir (filepathClean file))
      (filepathClean (trimSpace p), patternDirs (filepathClean (trimSpace p))) with _ | e | m
    · simp [hm] at h₂
    · simp [hm, Except.map] at h₂
    · simp only [hm, Option.map_some, Except.map, Option.some.injEq, Except.ok.injEq] at h₂ ⊢
      subst h₂
      cases m <;> simp

/-- an exception with a `!` in front of a pattern matches where the pattern does -/
theorem patternMatch_exception (file parentPath c : Text) (dirs : List Text) (hc : exclusion c = false) :
    patternMatch file parentPath ('!' :: c, dirs) = patternMatch file parentPath (c, dirs) := by
  have hbang : exclusion ('!' :: c) = true := rfl
  simp only [patternMatch, hbang, hc, if_true, Bool.false_eq_true, if_false, List.tail_cons]

/-- the exception law, where cleaning keeps the `!` in front of the cleaned pattern: an exception after the other
patterns keeps the file in if the pattern matches it, and keeps the verdict of the others if it does not -/
theorem matches_append_exception (file : Text) (ps : List Text) (p : Text) (b₁ b₂ : Bool)
    (hf : filepathClean file ≠ ['.']) (hp₀ : trimSpace p ≠ []) (hp : exclusion (filepathClean (trimSpace p)) = false)
    (hneg : filepathClean (trimSpace ('!' :: p)) = '!' :: filepathClean (trimSpace p))
    (h₁ : «matches» file ps = some (.ok b₁)) (h₂ : «matches» file [p] = some (.ok b₂)) :
    «matches» file (ps ++ ['!' :: p]) = some (.ok (b₁ && !b₂)) := by
  set c := filepathClean (trimSpace p) with hc
  -- the exception is neither dropped nor a lone `!`
  have hne : empty (trimSpace ('!' :: p)) = false := by
    cases h : trimSpace ('!' :: p) with
    | nil =>
      rw [h, filepathClean_nil] at hneg
      exact absurd (List.cons.inj hneg).1 (by decide)
    | cons _ _ => rfl
  have hlone : ¬(exclusion (trimSpace ('!' :: p)) = true ∧ (trimSpace ('!' :: p)).length = 1) := by
    rintro ⟨hx, hl⟩
    obtain ⟨x, hx'⟩ := List.length_eq_one_iff.mp hl
    have hbang : x = '!' := by simpa [hx', exclusion] using hx
    have hclean : filepathClean ['!'] = ['!'] := by decide
    rw [hx', hbang, hclean] at hneg
    exact filepathClean_ne_nil _ (List.cons.inj hneg).2.symm
  have hdirs : patternDirs ('!' :: c) = patternDirs c := by
    have hbang : exclusion ('!' :: c) = true := rfl
    simp only [patternDirs, hbang, hp, if_true, Bool.false_eq_true, if_false, List.tail_cons]
  have hcl : cleanPatterns ['!' :: p] = .ok (['!' :: c], [patternDirs c], exclusion (trimSpace ('!' :: p))) := by
    simp only [cleanPatterns, hne, hlone, hneg, Bool.false_eq_true, if_false, Except.map, Bool.or_false, hdirs]
  rw [matches_eq _ hf] at h₁ h₂ ⊢
  rcases hps : cleanPatterns ps with e | ⟨cs, ds, ex⟩
  · simp [hps] at h₁
  rcases hp₁ : cleanPatterns [p] with e | ⟨cs₁, ds₁, ex₁⟩
  · simp [hp₁] at h₂
  simp only [hps, hp₁] at h₁ h₂
  rw [cleanPatterns_append, hps, hcl]
  simp only [Except.bind, Except.map]
  rw [List.zip_append (cleanPatterns_length hps), matchesLoop_append, h₁]
  simp only [List.zip_cons_cons, List.zip_nil_right, matchesLoop_singleton,
    patternMatch_exception _ _ _ _ hp]
  -- `p` cleans to `c`, which gives `b₂` alone
  rcases cleanPatterns_singleton hp₁ with ⟨hnil, -, -⟩ | ⟨rfl, rfl⟩
  · exact absurd hnil hp₀
  · simp only [List.zip_cons_cons, List.zip_nil_right, matchesLoop_singleton, ← hc, hp] at h₂
    rcases hm : patternMatch (filepathClean file) (filepathDir (filepathClean file)) (c, patternDirs c) with _ | e | m
    · simp [hm] at h₂
    · simp [hm, Except.map] at h₂
    · simp only [hm, Option.map_some, Except.map, Option.some.injEq, Except.ok.injEq] at h₂ ⊢
      subst h₂
      cases m <;> simp [exclusion]

/-- `*.go` leaves out `main.go`, and the exception `!main.go` after it keeps it in -/
theorem matches_append_exception_main :
    «matches» "main.go".toList (["*.go".toList] ++ ['!' :: "main.go".toList]) = some (.ok (true && !true)) :=
  matches_append_exception _ ["*.go".toList] "main.go".toList true true (by decide) (by decide) (by decide) (by decide)
    (by decide) (by decide)

/-- an exception does not undo the pattern it names: `./foo` cleans to `foo` and leaves `foo` out, but `!./foo` keeps
its `./`, so the exception never matches and `foo` stays out -/
theorem matches_exception_dot :
    «matches» "foo".toList ["foo".toList, "!./foo".toList] = some (.ok true) ∧
      «matches» "foo".toList ["foo".toList] = some (.ok true) ∧
      «matches» "foo".toList ["./foo".toList] = some (.ok true) := by
  refine ⟨?_, ?_, ?_⟩ <;> decide

end DockerEngine.Fileutils
