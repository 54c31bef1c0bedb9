/-
Lean model of the walk of `TarWithOptions` in `pkg/archive/archive.go`, for a source directory and `ExcludePatterns`
alone (no `IncludeFiles`, no `RebaseNames`, no `IncludeSourceDir`): which paths get an entry in the archive.

The walk goes over the source directory from `.` with `filepath.Walk`, and its function decides each path with
`OptimizedMatches`. An excluded file is left out. An excluded directory is left out too, and so are its entries
(`SkipDir`), unless some exception pattern, with a separator after it, starts with the directory and a separator.
Adding a file to the archive never fails here, so its entry is the path; the goroutine ignores what `Walk` returns,
so an error of a pattern ends the archive where it stands.

Every path with an entry is one `Matches` keeps (`tarWithOptions_not_matches`). The converse fails: the prefix test
is literal, so an exception pattern with a wildcard does not keep its directory from being skipped
(`tarWithOptions_skips_exception`).
-/
import DockerEngine.Go.Walk
import DockerEngine.Pkg.Fileutils

namespace DockerEngine.Archive

open Go Fileutils

/-- what the walk of `TarWithOptions` keeps: `seen`, and the paths given an entry, in order -/
structure TarState where
  seen : List Text
  entries : List Text

/-- the `WalkFunc` of `TarWithOptions`, for the cleaned patterns with their directories and whether one of them is an
exception -/
def tarWalkFn (patterns : List (Text × List Text)) (exceptions : Bool) (relFilePath : Text) (isDir : Bool)
    (st : TarState) : Option (TarState × WalkResult) :=
  -- the source directory itself
  if relFilePath = ['.'] ∧ isDir then some (st, .ok)
  else
    -- the include `.` is an exact match only for `.`
    let skip := if ['.'] ≠ relFilePath then optimizedMatches relFilePath patterns else some (.ok false)
    match skip with
    | none => none
    | some (.error e) => some (st, .err e)
    | some (.ok true) =>
      if !isDir then some (st, .ok)
      else if !exceptions then some (st, .skipDir)
      -- an exception pattern that starts with the directory keeps it from being skipped
      else if patterns.any fun p => exclusion p.1 && (relFilePath ++ ['/']).isPrefixOf (p.1.tail ++ ['/']) then
        some (st, .ok)
      else some (st, .skipDir)
    | some (.ok false) =>
      if relFilePath ∈ st.seen then some (st, .ok)
      else some (⟨relFilePath :: st.seen, st.entries ++ [relFilePath]⟩, .ok)

/-- `TarWithOptions(srcPath, &TarOptions{ExcludePatterns: excludePatterns})` for the source directory with the given
entries: the error it returns, or the paths the archive has an entry for -/
def tarWithOptions (entries : List (Text × FileTree)) (excludePatterns : List Text) :
    Option (Except Text (List Text)) :=
  match cleanPatterns excludePatterns with
  | .error e => some (.error e)
  | .ok (patterns, patDirs, exceptions) =>
    (walkRoot (tarWalkFn (patterns.zip patDirs) exceptions) (.dir entries) ⟨[], []⟩).map fun r => .ok r.1.entries

/-! ## Every entry is kept by `Matches` -/

/-- a path the walk reaches: the root `.`, or a path of plain elements -/
def Reached (path : Text) : Prop :=
  path = ['.'] ∨ ∃ es, es ≠ [] ∧ (∀ e ∈ es, PlainElem e) ∧ path = join es '/'

theorem reached_childPath {path name : Text} (hpath : Reached path) (hname : PlainElem name) :
    Reached (childPath path name) := by
  right
  rcases hpath with rfl | ⟨es, hne, hes, rfl⟩
  · refine ⟨[name], List.cons_ne_nil _ _, fun e he => List.mem_singleton.mp he ▸ hname, ?_⟩
    rw [childPath, if_pos rfl]
    simp [join]
  · refine ⟨es ++ [name], by simp, fun e he => ?_, ?_⟩
    · rcases List.mem_append.mp he with he | he
      · exact hes e he
      · exact List.mem_singleton.mp he ▸ hname
    · rw [childPath, if_neg (join_ne_dot hes hne), join_append hne (List.cons_ne_nil _ _)]
      simp [join]

/-- `Matches` keeps a path the walk reaches if `OptimizedMatches` does, with the patterns `CleanPatterns` gives -/
theorem matches_of_optimizedMatches {ps : List Text} {patterns : List Text} {patDirs : List (List Text)}
    {exceptions : Bool} (hclean : cleanPatterns ps = .ok (patterns, patDirs, exceptions)) {path : Text}
    (hreached : Reached path) (hpath : path ≠ ['.'])
    (hm : optimizedMatches path (patterns.zip patDirs) = some (.ok false)) : «matches» path ps = some (.ok false) := by
  obtain ⟨es, hne, hes, rfl⟩ := hreached.resolve_left hpath
  have hc := filepathClean_rel_join hes hne
  rw [matches_eq ps (by rw [hc]; exact hpath), hclean, hc]
  exact hm

/-- a call of the walk function adds at most its own path to the entries, and only if the path is the include `.`
or `OptimizedMatches` keeps it -/
theorem tarWalkFn_entries {patterns : List (Text × List Text)} {exceptions : Bool} {path : Text} {isDir : Bool}
    {st st' : TarState} {r : WalkResult} (h : tarWalkFn patterns exceptions path isDir st = some (st', r)) :
    st'.entries = st.entries ∨
      st'.entries = st.entries ++ [path] ∧ (path = ['.'] ∨ optimizedMatches path patterns = some (.ok false)) := by
  unfold tarWalkFn at h
  split at h
  · cases h
    exact Or.inl rfl
  dsimp only at h
  generalize hskip : (if ['.'] ≠ path then optimizedMatches path patterns else some (.ok false)) = skip at h
  rcases skip with _ | e | _ | _
  · cases h
  · cases h
    exact Or.inl rfl
  · -- kept: the path gets its entry, unless it has one already
    simp only at h
    split_ifs at h
    · cases h
      exact Or.inl rfl
    · cases h
      refine Or.inr ⟨rfl, ?_⟩
      by_cases hdot : ['.'] ≠ path
      · rw [if_pos hdot] at hskip
        exact Or.inr hskip
      · exact Or.inl (not_not.mp hdot).symm
  · -- excluded: the path is skipped, and a directory maybe with its entries
    simp only at h
    split_ifs at h <;> (cases h; exact Or.inl rfl)

/-- `Matches` keeps the context directory `.` -/
theorem matches_dot (ps : List Text) : «matches» ['.'] ps = some (.ok false) := by
  unfold «matches»
  rw [if_pos (by decide)]

/-- the walk gives an entry only to paths `Matches` keeps -/
theorem tarWalkFn_keeps {ps patterns : List Text} {patDirs : List (List Text)} {exceptions : Bool}
    (hclean : cleanPatterns ps = .ok (patterns, patDirs, exceptions)) {path : Text} {isDir : Bool}
    {st st' : TarState} {r : WalkResult} (hreached : Reached path)
    (hst : ∀ p ∈ st.entries, «matches» p ps = some (.ok false))
    (h : tarWalkFn (patterns.zip patDirs) exceptions path isDir st = some (st', r)) :
    ∀ p ∈ st'.entries, «matches» p ps = some (.ok false) := by
  rcases tarWalkFn_entries h with hsame | ⟨hadd, hkept⟩
  · rw [hsame]
    exact hst
  · intro p hp
    rw [hadd] at hp
    rcases List.mem_append.mp hp with hp | hp
    · exact hst p hp
    · rw [List.mem_singleton.mp hp]
      by_cases hdot : path = ['.']
      · rw [hdot]
        exact matches_dot ps
      · exact matches_of_optimizedMatches hclean hreached hdot (hkept.resolve_left hdot)

/-- every path `TarWithOptions` gives an entry to is one `Matches` keeps -/
theorem tarWithOptions_not_matches {entries : List (Text × FileTree)} (hwf : entriesWF entries) {ps out : List Text}
    (h : tarWithOptions entries ps = some (.ok out)) : ∀ p ∈ out, «matches» p ps = some (.ok false) := by
  unfold tarWithOptions at h
  cases hclean : cleanPatterns ps with
  | error e =>
    rw [hclean] at h
    cases h
  | ok res =>
    obtain ⟨patterns, patDirs, exceptions⟩ := res
    rw [hclean] at h
    dsimp only at h
    cases hw : walkRoot (tarWalkFn (patterns.zip patDirs) exceptions) (.dir entries) ⟨[], []⟩ with
    | none =>
      rw [hw] at h
      cases h
    | some res =>
      obtain ⟨st, e⟩ := res
      rw [hw] at h
      cases h
      exact walkRoot_inv _ Reached (fun st : TarState => ∀ p ∈ st.entries, «matches» p ps = some (.ok false))
        (fun _ _ _ _ _ hq hp hc => tarWalkFn_keeps hclean hq hp hc)
        (fun _ _ hq hn => reached_childPath hq hn) (show FileTree.WF (.dir entries) from hwf) (Or.inl rfl) (fun _ h => absurd h List.not_mem_nil) hw

/-! ## Skipped directories -/

/-- `foo/bar` under the patterns `foo` and `!*/bar`: `Matches` keeps it, as the exception `*/bar` matches it, but the
exception does not start with `foo/`, so the walk skips the directory `foo` and the archive is empty -/
theorem tarWithOptions_skips_exception :
    «matches» "foo/bar".toList ["foo".toList, "!*/bar".toList] = some (.ok false) ∧
      tarWithOptions [("foo".toList, .dir [("bar".toList, .file)])] ["foo".toList, "!*/bar".toList] = some (.ok []) := by
  constructor <;> decide

/-- without any exception, `**/b` leaves out the directory `x/y/b`, and the walk skips it, but `Matches` keeps
`x/y/b/c`: the pattern does not match it, nor the first two directories `x/y` of its parent -/
example :
    «matches» "x/y/b/c".toList ["**/b".toList] = some (.ok false) ∧
      tarWithOptions [("x".toList, .dir [("y".toList, .dir [("b".toList, .dir [("c".toList, .file)])])])]
        ["**/b".toList] = some (.ok ["x".toList, "x/y".toList]) := by
  constructor <;> decide

end DockerEngine.Archive
