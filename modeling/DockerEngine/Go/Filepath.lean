/-
Lean model of `Match`, `Clean` and `Dir` of Go's `path/filepath` on Unix (the separator is `/`), as the Go release
the repository builds with has them.

`Match` cuts the pattern into chunks with `scanChunk` (a chunk is preceded by stars or not) and matches them one after
the other with `matchChunk`; a chunk after a star may also match after some characters that are not `/`. The loop
over the chunks is `matchLoop`, whose fuel is the length of the pattern: every round consumes at least one character
of it (`scanChunk_rest_lt`), so the fuel never runs out (`matchLoop_eq`).

`Clean` is modelled by its documented rules on path elements: empty and `.` elements go, `..` removes the element
before it, and stays only at the start of a relative path.
-/
import Mathlib.Tactic
import DockerEngine.Go.Strings

namespace DockerEngine.Go

/-- `filepath.ErrBadPattern` -/
inductive MatchErr
  | errBadPattern
  deriving DecidableEq, Repr

/-! ## `Match` -/

/-- the loop of `scanChunk`: the chunk up to the first `*` outside `[...]`, a `\` taking the character after it along -/
def scanChunkAux (inrange : Bool) : Text → Text × Text
  | [] => ([], [])
  | '\\' :: c :: cs => let r := scanChunkAux inrange cs; ('\\' :: c :: r.1, r.2)
  | '[' :: cs => let r := scanChunkAux true cs; ('[' :: r.1, r.2)
  | ']' :: cs => let r := scanChunkAux false cs; (']' :: r.1, r.2)
  | '*' :: cs => if inrange then let r := scanChunkAux true cs; ('*' :: r.1, r.2) else ([], '*' :: cs)
  | c :: cs => let r := scanChunkAux inrange cs; (c :: r.1, r.2)

/-- `scanChunk(pattern)`: whether the chunk follows stars, the chunk, and the rest of the pattern -/
def scanChunk (pattern : Text) : Bool × Text × Text :=
  let r := scanChunkAux false (pattern.dropWhile (· == '*'))
  (pattern.head? == some '*', r.1, r.2)

/-- `getEsc(chunk)`: the next, possibly escaped, character of a class, which must not end the pattern -/
def getEsc : Text → Except MatchErr (Char × Text)
  | [] | '-' :: _ | ']' :: _ | ['\\'] => .error .errBadPattern
  | '\\' :: r :: nchunk | r :: nchunk => if nchunk = [] then .error .errBadPattern else .ok (r, nchunk)

theorem getEsc_length_lt {chunk rest : Text} {r : Char} (h : getEsc chunk = .ok (r, rest)) :
    rest.length < chunk.length := by
  unfold getEsc at h
  -- the four error patterns, then the escaped and the plain character
  split at h <;> first | cases h | skip
  all_goals
    split at h
    · cases h
    · cases h
      simp

/-- the loop over the ranges of a class in `matchChunk`, for the character `r` of the name: whether a range holds `r`,
and the chunk after the closing `]`; `nrange` counts the ranges read -/
def matchRanges (r : Char) (matched : Bool) (nrange : ℕ) (chunk : Text) : Except MatchErr (Bool × Text) :=
  if chunk.head? = some ']' ∧ 0 < nrange then .ok (matched, chunk.tail)
  else
    match hlo : getEsc chunk with
    | .error e => .error e
    | .ok (lo, chunk₁) =>
      -- `hi = lo` unless a `-` follows
      match hhi : (if chunk₁.head? = some '-' then getEsc chunk₁.tail else .ok (lo, chunk₁)) with
      | .error e => .error e
      | .ok (hi, chunk₂) => matchRanges r (matched || (lo ≤ r && r ≤ hi)) (nrange + 1) chunk₂
termination_by chunk.length
decreasing_by
  have h₁ := getEsc_length_lt hlo
  split at hhi
  · have h₂ := getEsc_length_lt hhi
    simp only [List.length_tail] at h₂
    omega
  · cases hhi
    exact h₁

/-- `matchChunk(chunk, s)`: the rest of `s` if `chunk` matches a prefix of it -/
def matchChunk : Text → Text → Except MatchErr (Option Text)
  | [], s => .ok (some s)
  | _ :: _, [] => .ok none
  | '[' :: chunk, r :: s =>
    if chunk = [] then .error .errBadPattern
    else
      let negated := chunk.head? = some '^'
      match matchRanges r false 0 (if negated then chunk.tail else chunk) with
      | .error e => .error e
      | .ok (matched, chunk) => if matched = negated then .ok none else matchChunk chunk s
  | '?' :: chunk, c :: s => if c = '/' then .ok none else matchChunk chunk s
  | ['\\'], _ :: _ => .error .errBadPattern
  | '\\' :: c :: chunk, d :: s => if c = d then matchChunk chunk s else .ok none
  | c :: chunk, d :: s => if c = d then matchChunk chunk s else .ok none

/-- the search of `Match` for a match of a chunk that follows a star, after skipping one, two, ... characters of the
name that are not `/`; the last chunk must match the whole rest of the name -/
def skipSearch (chunk : Text) (last : Bool) : Text → Except MatchErr (Option Text)
  | [] => .ok none
  | c :: name =>
    if c = '/' then .ok none
    else
      match matchChunk chunk name with
      | .ok (some t) => if last ∧ t ≠ [] then skipSearch chunk last name else .ok (some t)
      | .ok none => skipSearch chunk last name
      | .error e => .error e

/-- the name left after one chunk of the pattern, or `none` if the chunk does not match -/
def chunkRest (star : Bool) (chunk : Text) (last : Bool) (name : Text) : Except MatchErr (Option Text) :=
  match matchChunk chunk name with
  | .ok (some t) =>
    if t = [] ∨ ¬last then .ok (some t) else if star then skipSearch chunk last name else .ok none
  | .ok none => if star then skipSearch chunk last name else .ok none
  | .error e => .error e

/-- the loop of `Match` over the chunks of the pattern -/
def matchLoop : ℕ → Text → Text → Except MatchErr Bool
  | 0, _, _ => .ok false
  | fuel + 1, pattern, name =>
    if pattern = [] then .ok (name = [])
    else
      let (star, chunk, rest) := scanChunk pattern
      -- a trailing star matches the rest of the name unless it has a `/`
      if star ∧ chunk = [] then .ok ('/' ∉ name)
      else
        match chunkRest star chunk (rest = []) name with
        | .ok (some t) => matchLoop fuel rest t
        | .ok none => .ok false
        | .error e => .error e

/-- `filepath.Match(pattern, name)` -/
def filepathMatch (pattern name : Text) : Except MatchErr Bool := matchLoop (pattern.length + 1) pattern name

theorem scanChunkAux_length (inrange : Bool) (p : Text) :
    (scanChunkAux inrange p).1.length + (scanChunkAux inrange p).2.length = p.length := by
  induction inrange, p using scanChunkAux.induct <;> simp_all [scanChunkAux] <;> omega

/-- a round of `Match` consumes a star or a character of the chunk -/
theorem scanChunk_rest_lt {pattern : Text} (hp : pattern ≠ []) (hs : ¬((scanChunk pattern).1 = true ∧
    (scanChunk pattern).2.1 = [])) : (scanChunk pattern).2.2.length < pattern.length := by
  obtain ⟨c, p, rfl⟩ := List.exists_cons_of_ne_nil hp
  have hlen := scanChunkAux_length false ((c :: p).dropWhile (· == '*'))
  by_cases hc : c = '*'
  · subst hc
    have hd := List.length_dropWhile_le (· == '*') p
    simp_all [scanChunk]
    omega
  · have hchunk : (scanChunk (c :: p)).2.1 ≠ [] := by
      simp only [scanChunk, List.dropWhile_cons, beq_iff_eq, hc, if_false]
      unfold scanChunkAux
      split <;> simp_all
    have : 0 < (scanChunk (c :: p)).2.1.length := List.length_pos_iff.mpr hchunk
    simp only [scanChunk, List.dropWhile_cons, beq_iff_eq, hc, if_false] at hlen this ⊢
    simp only [List.length_cons] at hlen ⊢
    omega

/-- with more fuel than characters, `matchLoop` computes `Match`: the fuel never runs out -/
theorem matchLoop_eq (fuel : ℕ) (pattern name : Text) (h : pattern.length < fuel) :
    matchLoop fuel pattern name = matchLoop (fuel + 1) pattern name := by
  induction fuel generalizing pattern name with
  | zero => omega
  | succ n ih =>
    rw [matchLoop, matchLoop]
    split
    · rfl
    · rename_i hp
      have hlt := scanChunk_rest_lt hp
      rcases hsc : scanChunk pattern with ⟨star, chunk, rest⟩
      rw [hsc] at hlt
      dsimp only at hlt ⊢
      split
      · rfl
      · rename_i hs
        have hrest : rest.length < n := by have := hlt hs; omega
        split <;> first | rfl | exact ih _ _ hrest

/-! ## `Clean` and `Dir` -/

/-- the elements of a path after the rules of `Clean`; `acc` holds the elements kept so far, last first -/
def cleanElems (rooted : Bool) : List Text → List Text → List Text
  | acc, [] => acc.reverse
  | acc, e :: es =>
    if e = [] ∨ e = ['.'] then cleanElems rooted acc es
    else if e = ['.', '.'] then
      match acc with
      -- a `..` that could not be eliminated stays, and so does the next one
      | x :: acc' => if x = ['.', '.'] then cleanElems rooted (e :: acc) es else cleanElems rooted acc' es
      -- `/..` is `/`
      | [] => if rooted then cleanElems rooted [] es else cleanElems rooted [e] es
    else cleanElems rooted (e :: acc) es

/-- `filepath.Clean(path)` -/
def filepathClean (path : Text) : Text :=
  let rooted := path.head? = some '/'
  let body := join (cleanElems rooted [] (split path '/')) '/'
  if rooted then '/' :: body else if body = [] then ['.'] else body

@[simp] theorem filepathClean_nil : filepathClean [] = ['.'] := rfl

/-- `Clean` never returns the empty path -/
theorem filepathClean_ne_nil (path : Text) : filepathClean path ≠ [] := by
  unfold filepathClean
  dsimp only
  split
  · simp
  · split <;> simp_all

/-- a path element `Clean` keeps as it is: not empty, not `.` or `..`, and without a separator -/
def PlainElem (e : Text) : Prop := e ≠ [] ∧ e ≠ ['.'] ∧ e ≠ ['.', '.'] ∧ '/' ∉ e

instance : DecidablePred PlainElem := fun e => by unfold PlainElem; infer_instance

/-- no element `split` returns holds the separator -/
theorem notMem_of_mem_split {path e : Text} {sep : Char} (h : e ∈ split path sep) : sep ∉ e := by
  unfold split at h
  induction path generalizing e with
  | nil =>
    simp only [List.splitOn_nil, List.mem_singleton] at h
    subst h
    exact List.not_mem_nil
  | cons c cs ih =>
    rw [List.splitOn_cons_eq_if_modifyHead] at h
    split at h
    · rcases List.mem_cons.mp h with rfl | h
      · exact List.not_mem_nil
      · exact ih h
    · rename_i hc
      -- the first element gets `c` in front, which is not the separator
      obtain ⟨first, rest, hsplit⟩ := List.exists_cons_of_ne_nil (List.splitOn_ne_nil sep cs)
      rw [hsplit, List.modifyHead_cons, List.mem_cons] at h
      rcases h with rfl | h
      · intro hmem
        rcases List.mem_cons.mp hmem with hsep | hmem
        · exact hc (by rw [hsep, beq_self_eq_true])
        · exact ih (by rw [hsplit]; exact List.mem_cons_self) hmem
      · exact ih (by rw [hsplit]; exact List.mem_cons_of_mem _ h)

/-- over empty and plain elements, `Clean` only drops the empty ones -/
theorem cleanElems_of_plain (rooted : Bool) (acc : List Text) {es : List Text}
    (h : ∀ e ∈ es, e = [] ∨ PlainElem e) :
    cleanElems rooted acc es = acc.reverse ++ es.filter fun e => !e.isEmpty := by
  induction es generalizing acc with
  | nil => simp [cleanElems]
  | cons e es ih =>
    have hes : ∀ e ∈ es, e = [] ∨ PlainElem e := fun e' he' => h e' (List.mem_cons_of_mem _ he')
    rcases h e List.mem_cons_self with rfl | ⟨hne, hdot, hdotdot, -⟩
    · simp [cleanElems, ih acc hes]
    · simp only [cleanElems, hne, hdot, hdotdot, or_self, if_false, ih _ hes]
      simp [hne]

/-- `Clean` keeps an absolute path of empty and plain elements, but for its empty elements -/
theorem filepathClean_join {es : List Text} (h : ∀ e ∈ es, e = [] ∨ PlainElem e) :
    filepathClean ('/' :: join es '/') = '/' :: join (es.filter fun e => !e.isEmpty) '/' := by
  cases es with
  | nil => decide
  | cons e es =>
    -- the leading separator is the empty first element of `[] :: e :: es`
    have hjoin : '/' :: join (e :: es) '/' = join ([] :: e :: es) '/' := by
      simp [join, List.intercalate_cons_cons]
    have hall : ∀ e' ∈ [] :: e :: es, e' = [] ∨ PlainElem e' := by
      intro e' he'
      rcases List.mem_cons.mp he' with rfl | he'
      · exact Or.inl rfl
      · exact h e' he'
    have hsep : ∀ e' ∈ [] :: e :: es, '/' ∉ e' := by
      intro e' he'
      rcases hall e' he' with rfl | ⟨-, -, -, hslash⟩
      · exact List.not_mem_nil
      · exact hslash
    have hsplit : split (join ([] :: e :: es) '/') '/' = [] :: e :: es :=
      List.splitOn_intercalate '/' hsep (List.cons_ne_nil _ _)
    unfold filepathClean
    rw [hjoin, hsplit]
    dsimp only
    rw [cleanElems_of_plain _ _ hall]
    simp [join]

theorem join_append {rs es : List Text} (hrs : rs ≠ []) (hes : es ≠ []) :
    join (rs ++ es) '/' = join rs '/' ++ '/' :: join es '/' := by
  induction rs with
  | nil => exact absurd rfl hrs
  | cons r rs ih =>
    cases rs with
    | nil => simp [join, List.intercalate_cons_of_ne_nil hes]
    | cons r' rs =>
      have h := ih (List.cons_ne_nil _ _)
      simp only [join, List.cons_append, List.intercalate_cons_cons] at h ⊢
      rw [h]
      simp

/-- a path whose first element is not empty is not empty -/
theorem join_cons_ne_nil {e : Text} (he : e ≠ []) (es : List Text) : join (e :: es) '/' ≠ [] := by
  cases es <;> simp [join, he]

/-- a path of plain elements splits back into them -/
theorem split_join_plain {es : List Text} (h : ∀ e ∈ es, PlainElem e) (hne : es ≠ []) : split (join es '/') '/' = es :=
  List.splitOn_intercalate '/' (fun e he => (h e he).2.2.2) hne

/-- a path of plain elements is not `.` -/
theorem join_ne_dot {es : List Text} (h : ∀ e ∈ es, PlainElem e) (hne : es ≠ []) : join es '/' ≠ ['.'] := by
  intro hdot
  have hsplit := split_join_plain h hne
  rw [hdot] at hsplit
  have hes : es = [['.']] := by
    rw [← hsplit]
    decide
  exact (h ['.'] (by rw [hes]; exact List.mem_singleton_self _)).2.1 rfl

/-- `Clean` keeps a relative path of plain elements -/
theorem filepathClean_rel_join {es : List Text} (h : ∀ e ∈ es, PlainElem e) (hne : es ≠ []) :
    filepathClean (join es '/') = join es '/' := by
  obtain ⟨e, es', rfl⟩ := List.exists_cons_of_ne_nil hne
  have he := h e List.mem_cons_self
  -- the path starts with its first element, which is not empty and has no separator
  have hhead : (join (e :: es') '/').head? ≠ some '/' := by
    obtain ⟨c, cs, rfl⟩ := List.exists_cons_of_ne_nil he.1
    have hc : c ≠ '/' := fun hc => he.2.2.2 (hc ▸ List.mem_cons_self)
    cases es' <;> simp [join, hc]
  have hbody : join (cleanElems false [] (e :: es')) '/' = join (e :: es') '/' := by
    rw [cleanElems_of_plain _ _ fun x hx => Or.inr (h x hx),
      List.filter_eq_self.mpr fun x hx => by simpa using (h x hx).1]
    rfl
  unfold filepathClean
  rw [split_join_plain h hne]
  simp only [hhead, decide_false, hbody, if_false]
  rw [if_neg (join_cons_ne_nil he.1 es')]

/-- a doubled leading separator goes -/
theorem filepathClean_slash_slash {es : List Text} (h : ∀ e ∈ es, PlainElem e) (hne : es ≠ []) :
    filepathClean ('/' :: '/' :: join es '/') = '/' :: join es '/' := by
  obtain ⟨e, es', rfl⟩ := List.exists_cons_of_ne_nil hne
  have hjoin : '/' :: join (e :: es') '/' = join ([] :: e :: es') '/' := by
    simp [join, List.intercalate_cons_cons]
  have hall : ∀ e' ∈ [] :: e :: es', e' = [] ∨ PlainElem e' := by
    intro e' he'
    rcases List.mem_cons.mp he' with rfl | he'
    · exact Or.inl rfl
    · exact Or.inr (h e' he')
  nth_rewrite 1 [hjoin]
  rw [filepathClean_join hall, List.filter_cons_of_neg (by simp),
    List.filter_eq_self.mpr fun e' he' => by simpa using (h e' he').1]

/-- the elements `Clean` keeps of a rooted path are plain: it drops the `..` that would climb above the root -/
theorem cleanElems_rooted_plain {acc es : List Text} (hacc : ∀ e ∈ acc, PlainElem e) (hes : ∀ e ∈ es, '/' ∉ e) :
    ∀ e ∈ cleanElems true acc es, PlainElem e := by
  induction es generalizing acc with
  | nil =>
    intro e he
    exact hacc e (List.mem_reverse.mp he)
  | cons e es ih =>
    have hes' : ∀ e ∈ es, '/' ∉ e := fun e' he' => hes e' (List.mem_cons_of_mem _ he')
    unfold cleanElems
    by_cases hskip : e = [] ∨ e = ['.']
    · rw [if_pos hskip]
      exact ih hacc hes'
    rw [if_neg hskip]
    by_cases hdotdot : e = ['.', '.']
    · -- `..` removes the element before it, which cannot be `..` itself, and nothing at the root
      rw [if_pos hdotdot]
      cases acc with
      | cons x acc' =>
        have hx : x ≠ ['.', '.'] := (hacc x List.mem_cons_self).2.2.1
        dsimp only
        rw [if_neg hx]
        exact ih (fun e' he' => hacc e' (List.mem_cons_of_mem _ he')) hes'
      | nil => exact ih (fun _ h => absurd h List.not_mem_nil) hes'
    · rw [if_neg hdotdot]
      refine ih (fun e' he' => ?_) hes'
      rcases List.mem_cons.mp he' with rfl | he'
      · obtain ⟨hne, hdot⟩ := not_or.mp hskip
        exact ⟨hne, hdot, hdotdot, hes e' List.mem_cons_self⟩
      · exact hacc e' he'

/-- a rooted path cleans to the root followed by plain elements -/
theorem filepathClean_rooted {path : Text} (h : path.head? = some '/') :
    ∃ es, (∀ e ∈ es, PlainElem e) ∧ filepathClean path = '/' :: join es '/' := by
  refine ⟨cleanElems true [] (split path '/'), cleanElems_rooted_plain (fun _ h => absurd h List.not_mem_nil)
    (fun _ he => notMem_of_mem_split he), ?_⟩
  unfold filepathClean
  simp [h]

/-- `filepath.Dir(path)`: all but the last element, cleaned -/
def filepathDir (path : Text) : Text := filepathClean (path.reverse.dropWhile (· != '/')).reverse

/-- `filepath.Base(path)`: the last element, trailing separators stripped; `.` for the empty path and `/` for one of
separators only -/
def filepathBase (path : Text) : Text :=
  if path = [] then ['.']
  else
    let last := ((path.reverse.dropWhile (· == '/')).takeWhile (· != '/')).reverse
    if last = [] then ['/'] else last

/-! ## `Join` and `Rel` -/

/-- `filepath.Join(a, b)`: the elements from the first non-empty one, joined by a separator and cleaned -/
def filepathJoin (a b : Text) : Text :=
  if a ≠ [] then filepathClean (a ++ '/' :: b) else if b ≠ [] then filepathClean b else []

/-- the loop of `Rel`: what is left of `base` and `targ` from their first differing elements on; `fuel` bounds the
elements, each step taking at least one character of one of them -/
def relLoop : ℕ → Text → Text → Text × Text
  | 0, b, t => (b, t)
  | fuel + 1, b, t =>
    let be := b.takeWhile (· != '/')
    let te := t.takeWhile (· != '/')
    if te ≠ be then (b, t) else relLoop fuel (b.drop (be.length + 1)) (t.drop (te.length + 1))

/-- the error of `Rel` -/
def relError (targ base : Text) : Text := "Rel: can't make ".toList ++ targ ++ " relative to ".toList ++ base

/-- `filepath.Rel(basepath, targpath)` on Unix: one `..` for each element of `base` left, then what is left of `targ` -/
def filepathRel (basepath targpath : Text) : Except Text Text :=
  let base := filepathClean basepath
  let targ := filepathClean targpath
  if targ = base then .ok ['.']
  else
    let base := if base = ['.'] then [] else base
    if (base.head? = some '/') ≠ (targ.head? = some '/') then .error (relError targ base)
    else
      let (b, t) := relLoop (base.length + targ.length + 1) base targ
      if b.takeWhile (· != '/') = ['.', '.'] then .error (relError targ base)
      else if b ≠ [] then
        .ok (['.', '.'] ++ (List.replicate (b.count '/') "/..".toList).flatten ++ if t ≠ [] then '/' :: t else [])
      else .ok t

end DockerEngine.Go
