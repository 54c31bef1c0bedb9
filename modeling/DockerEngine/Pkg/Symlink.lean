/-
Lean model of `evalSymlinksInScope` of `pkg/symlink/fs.go` on Unix.

The filesystem is what `os.Lstat` finds at each path (`none` when the path does not exist); `os.Readlink` of a
symlink returns its target, and neither call fails otherwise. The loop consumes the path one component at a time;
its round counter `n` is the fuel `maxIter + 1 - n` of `evalLoop`, which runs out when the path is not yet consumed
in round `maxIter + 1`.

The counter counts every round, not only the rounds that follow a link: on a filesystem without symlinks, a path of
`k` plain components below the root takes `k + 1` rounds, the first one for the empty component before the leading
separator (`evalLoop_slash`, `evalLoop_error_of_noLinks`). Such a path resolves to itself when `k ≤ maxIter`
and fails with "too many links" otherwise (`evalSymlinksInScope_noLinks`).
-/
import DockerEngine.Go.Filepath
import DockerEngine.Lib.Prelude

namespace DockerEngine.Symlink

open Go

/-- what `os.Lstat` finds at a path -/
inductive Node
  | dir
  | file
  | symlink (target : Text)
  deriving DecidableEq, Repr

/-- a filesystem: what is at each path, `none` where `os.IsNotExist` holds -/
abbrev FS := Text → Option Node

/-- `maxIter` -/
def maxIter : ℕ := 255

/-- `system.IsAbs(path)` on Unix -/
def isAbs (path : Text) : Bool := path.head? == some '/'

/-- the error of a path outside the root -/
def notInScope (path root : Text) : Text := "evalSymlinksInScope: ".toList ++ path ++ " is not in ".toList ++ root

/-- the error of the round bound -/
def tooManyLinks (originalPath : Text) : Text := "evalSymlinksInScope: too many links in ".toList ++ originalPath

/-- the cut at `strings.IndexRune(path, '/')`: the next component, and the path after its separator -/
def nextComponent (path : Text) : Text × Text :=
  let (p, rest) := path.span (· != '/')
  (p, rest.drop 1)

/-- the loop of `evalSymlinksInScope` over the unconsumed `path`, with the buffer `b`; `fuel` is the number of rounds
left before the bound -/
def evalLoop (fs : FS) (root originalPath : Text) : ℕ → Text → Text → Except Text Text
  | _, [], b => .ok b
  | 0, _ :: _, _ => .error (tooManyLinks originalPath)
  | fuel + 1, c :: cs, b =>
    let (p, path) := nextComponent (c :: cs)
    if p = [] then evalLoop fs root originalPath fuel path b
    else
      let cleanP := filepathClean ('/' :: b ++ p)
      -- never `Lstat` "/" itself
      if cleanP = ['/'] then evalLoop fs root originalPath fuel path []
      else
        let fullP := filepathClean (root ++ cleanP)
        match fs fullP with
        | some (.symlink dest) =>
          -- the link target goes in front of the path, and an absolute one restarts at the root
          evalLoop fs root originalPath fuel (dest ++ '/' :: path) (if isAbs dest then [] else b)
        -- a directory, a file, or a path that does not exist
        | _ => evalLoop fs root originalPath fuel path (b ++ p ++ ['/'])

/-- `evalSymlinksInScope(path, root)` -/
def evalSymlinksInScope (fs : FS) (path root : Text) : Except Text Text :=
  let root := filepathClean root
  if path = root then .ok path
  else if !root.isPrefixOf path then .error (notInScope path root)
  else
    let originalPath := path
    let path := path.drop root.length
    let path := if root = ['/'] then '/' :: path else path
    if !List.isPrefixOf ['/'] path then .error (notInScope path root)
    else
      (evalLoop fs root originalPath (maxIter + 1) (filepathClean path) []).map fun b =>
        filepathClean (root ++ filepathClean ('/' :: b))

/-! ## One round -/

/-- a component without a separator is taken whole by `span` -/
theorem span_notMem {c : Text} (hc : '/' ∉ c) (rest : Text) :
    (c ++ rest).span (· != '/') = (c ++ rest.takeWhile (· != '/'), rest.dropWhile (· != '/')) := by
  have hall : ∀ a ∈ c, (a != '/') = true := fun a ha => by
    simpa using fun h : a = '/' => hc (h ▸ ha)
  rw [List.span_eq_takeWhile_dropWhile, List.takeWhile_append_of_pos hall, List.dropWhile_append_of_pos hall]

theorem nextComponent_append {c : Text} (hc : '/' ∉ c) (rest : Text) :
    nextComponent (c ++ '/' :: rest) = (c, rest) := by
  unfold nextComponent
  rw [span_notMem hc]
  simp

theorem nextComponent_of_notMem {c : Text} (hc : '/' ∉ c) : nextComponent c = (c, []) := by
  have h := span_notMem hc []
  rw [List.append_nil] at h
  unfold nextComponent
  rw [h]
  simp

/-- the round bound: a path not yet consumed when the fuel runs out fails -/
theorem evalLoop_zero {fs : FS} {root originalPath path : Text} (hpath : path ≠ []) (b : Text) :
    evalLoop fs root originalPath 0 path b = .error (tooManyLinks originalPath) := by
  obtain ⟨c, cs, rfl⟩ := List.exists_cons_of_ne_nil hpath
  rfl

/-- the empty component before a separator takes a round of its own -/
theorem evalLoop_slash (fs : FS) (root originalPath : Text) (fuel : ℕ) (path b : Text) :
    evalLoop fs root originalPath (fuel + 1) ('/' :: path) b = evalLoop fs root originalPath fuel path b := by
  have hnext : nextComponent ('/' :: path) = ([], path) := by
    simpa using @nextComponent_append [] List.not_mem_nil path
  rw [evalLoop, hnext]
  rfl

/-! ## Filesystems without symlinks -/

/-- `os.Lstat` never finds a symlink -/
def NoLinks (fs : FS) : Prop := ∀ path target, fs path ≠ some (.symlink target)

/-- the buffer after the components `ds`, each followed by a separator -/
def bufOf (ds : List Text) : Text := (ds.map (· ++ ['/'])).flatten

theorem bufOf_append_eq_join (ds : List Text) (c : Text) : bufOf ds ++ c = join (ds ++ [c]) '/' := by
  induction ds with
  | nil => simp [bufOf, join]
  | cons d ds ih =>
    have hne : ds ++ [c] ≠ [] := by simp
    obtain ⟨e, es, hes⟩ := List.exists_cons_of_ne_nil hne
    rw [bufOf, List.map_cons, List.flatten_cons, ← bufOf, List.append_assoc, ih]
    simp only [join, List.cons_append, hes, List.intercalate_cons_cons, List.append_assoc]

theorem bufOf_append (ds : List Text) (c : Text) : bufOf (ds ++ [c]) = bufOf ds ++ c ++ ['/'] := by
  simp [bufOf]

@[simp] theorem evalLoop_nil (fs : FS) (root originalPath : Text) (fuel : ℕ) (b : Text) :
    evalLoop fs root originalPath fuel [] b = .ok b := by
  cases fuel <;> rfl

theorem nextComponent_join {c : Text} (hc : '/' ∉ c) (cs : List Text) :
    nextComponent (join (c :: cs) '/') = (c, join cs '/') := by
  cases cs with
  | nil =>
    simp only [join, List.intercalate_singleton]
    exact nextComponent_of_notMem hc
  | cons c' cs =>
    simp only [join, List.intercalate_cons_cons, List.append_assoc, List.singleton_append]
    exact nextComponent_append hc _

/-- a path of components, the first of which is not empty, is not empty -/
theorem join_ne_nil {c : Text} (hc : c ≠ [] ∧ '/' ∉ c) (cs : List Text) : join (c :: cs) '/' ≠ [] := by
  intro h
  have hnext := nextComponent_join hc.2 cs
  rw [h] at hnext
  exact hc.1 (congrArg Prod.fst hnext).symm

/-- with the plain components `ds` in the buffer, a plain component `c` is a round that appends it -/
theorem evalLoop_plain {fs : FS} (hfs : NoLinks fs) {root originalPath : Text} {ds : List Text}
    (hds : ∀ d ∈ ds, PlainElem d) {c : Text} (hc : PlainElem c) (fuel : ℕ) {path rest : Text}
    (hnext : nextComponent path = (c, rest)) :
    evalLoop fs root originalPath (fuel + 1) path (bufOf ds) =
      evalLoop fs root originalPath fuel rest (bufOf (ds ++ [c])) := by
  obtain ⟨x, xs, rfl⟩ : ∃ x xs, path = x :: xs := by
    cases path with
    | nil =>
      have hc' : c = [] := (congrArg Prod.fst hnext).symm
      exact absurd hc' hc.1
    | cons x xs => exact ⟨x, xs, rfl⟩
  have hplain : ∀ e ∈ ds ++ [c], PlainElem e := by
    intro e he
    rcases List.mem_append.mp he with he | he
    · exact hds e he
    · rw [List.mem_singleton.mp he]
      exact hc
  -- the clean path of the round is the buffer with the component, which is not "/"
  have hclean : filepathClean ('/' :: bufOf ds ++ c) = '/' :: join (ds ++ [c]) '/' := by
    rw [List.cons_append, bufOf_append_eq_join, filepathClean_join fun e he => Or.inr (hplain e he)]
    congr 2
    exact List.filter_eq_self.mpr fun e he => by simpa using (hplain e he).1
  have hroot : filepathClean ('/' :: bufOf ds ++ c) ≠ ['/'] := by
    rw [hclean]
    intro h
    have hjoin : bufOf ds ++ c = [] := by
      rw [bufOf_append_eq_join]
      exact (List.cons.inj h).2
    exact hc.1 (List.append_eq_nil_iff.mp hjoin).2
  rw [evalLoop, hnext]
  dsimp only
  rw [if_neg hc.1, if_neg hroot, bufOf_append]
  cases hfull : fs (filepathClean (root ++ filepathClean ('/' :: bufOf ds ++ c))) with
  | none => rfl
  | some node =>
    cases node with
    | dir => rfl
    | file => rfl
    | symlink target => exact absurd hfull (hfs _ target)

/-- a path of plain components, with fuel for each of them, is consumed into the buffer -/
theorem evalLoop_ok_of_noLinks {fs : FS} (hfs : NoLinks fs) {root originalPath : Text} {cs : List Text}
    (hcs : ∀ c ∈ cs, PlainElem c) {ds : List Text} (hds : ∀ d ∈ ds, PlainElem d) {fuel : ℕ}
    (hfuel : cs.length ≤ fuel) :
    evalLoop fs root originalPath fuel (join cs '/') (bufOf ds) = .ok (bufOf (ds ++ cs)) := by
  induction cs generalizing ds fuel with
  | nil => simp [join]
  | cons c cs ih =>
    obtain ⟨fuel, rfl⟩ : ∃ k, fuel = k + 1 := Nat.exists_eq_succ_of_ne_zero (by simp at hfuel; omega)
    have hc := hcs c List.mem_cons_self
    have hds' : ∀ d ∈ ds ++ [c], PlainElem d := by
      intro d hd
      rcases List.mem_append.mp hd with hd | hd
      · exact hds d hd
      · rw [List.mem_singleton.mp hd]
        exact hc
    rw [evalLoop_plain hfs hds hc fuel (nextComponent_join hc.2.2.2 cs),
      ih (fun c' hc' => hcs c' (List.mem_cons_of_mem _ hc')) hds' (by simpa using hfuel)]
    simp

/-- a path of plain components with less fuel than components runs into the round bound -/
theorem evalLoop_error_of_noLinks {fs : FS} (hfs : NoLinks fs) {root originalPath : Text} {cs : List Text}
    (hcs : ∀ c ∈ cs, PlainElem c) {ds : List Text} (hds : ∀ d ∈ ds, PlainElem d) {fuel : ℕ}
    (hfuel : fuel < cs.length) :
    evalLoop fs root originalPath fuel (join cs '/') (bufOf ds) = .error (tooManyLinks originalPath) := by
  induction cs generalizing ds fuel with
  | nil => simp at hfuel
  | cons c cs ih =>
    have hc := hcs c List.mem_cons_self
    cases fuel with
    | zero => exact evalLoop_zero (join_ne_nil ⟨hc.1, hc.2.2.2⟩ cs) _
    | succ fuel =>
      have hds' : ∀ d ∈ ds ++ [c], PlainElem d := by
        intro d hd
        rcases List.mem_append.mp hd with hd | hd
        · exact hds d hd
        · rw [List.mem_singleton.mp hd]
          exact hc
      rw [evalLoop_plain hfs hds hc fuel (nextComponent_join hc.2.2.2 cs)]
      exact ih (fun c' hc' => hcs c' (List.mem_cons_of_mem _ hc')) hds' (by simpa using hfuel)

/-! ## The whole call -/

/-- the path whose part below `root` is `rel` -/
def underRoot (root rel : Text) : Text := if root = ['/'] then rel else root ++ rel

/-- below a clean root, the call is the loop over the clean part of the path below the root -/
theorem evalSymlinksInScope_underRoot (fs : FS) {root rel : Text} (hroot : filepathClean root = root)
    (hrel : rel.head? = some '/') (hne : rel ≠ ['/']) :
    evalSymlinksInScope fs (underRoot root rel) root =
      (evalLoop fs root (underRoot root rel) (maxIter + 1) (filepathClean rel) []).map fun b =>
        filepathClean (root ++ filepathClean ('/' :: b)) := by
  obtain ⟨rest, rfl⟩ : ∃ rest, rel = '/' :: rest := by
    cases rel with
    | nil => simp at hrel
    | cons x rest =>
      simp only [List.head?_cons, Option.some.injEq] at hrel
      exact ⟨rest, by rw [hrel]⟩
  unfold evalSymlinksInScope
  simp only [hroot]
  by_cases hr : root = ['/']
  · -- `path[len(root):]` drops the root's separator, and the code puts it back
    subst hr
    simp [underRoot, hne]
  · have hlen : (root ++ '/' :: rest) ≠ root := by
      intro h
      have := congrArg List.length h
      simp at this
    simp [underRoot, hr, hlen, List.isPrefixOf_iff_prefix]

/-- on a filesystem without symlinks, a path of plain components below a clean root resolves to itself if it has at
most `maxIter` components, and runs into the round bound otherwise -/
theorem evalSymlinksInScope_noLinks {fs : FS} (hfs : NoLinks fs) {root : Text} (hroot : filepathClean root = root)
    {cs : List Text} (hcs : ∀ c ∈ cs, PlainElem c) (hne : cs ≠ []) :
    evalSymlinksInScope fs (underRoot root ('/' :: join cs '/')) root =
      if cs.length ≤ maxIter then .ok (filepathClean (root ++ '/' :: join cs '/'))
      else .error (tooManyLinks (underRoot root ('/' :: join cs '/'))) := by
  obtain ⟨c, cs', rfl⟩ := List.exists_cons_of_ne_nil hne
  have hc := hcs c List.mem_cons_self
  have hslash : '/' :: join (c :: cs') '/' ≠ ['/'] := by
    intro h
    exact join_ne_nil ⟨hc.1, hc.2.2.2⟩ cs' (List.cons.inj h).2
  have hclean : filepathClean ('/' :: join (c :: cs') '/') = '/' :: join (c :: cs') '/' := by
    rw [filepathClean_join fun e he => Or.inr (hcs e he)]
    congr 2
    exact List.filter_eq_self.mpr fun e he => by simpa using (hcs e he).1
  rw [evalSymlinksInScope_underRoot fs hroot rfl hslash, hclean, maxIter, evalLoop_slash]
  split_ifs with hlen
  · -- the final buffer is the components, each with a separator after it
    have hfinal : filepathClean ('/' :: bufOf (c :: cs')) = '/' :: join (c :: cs') '/' := by
      have hall : ∀ e ∈ c :: cs' ++ [[]], e = [] ∨ PlainElem e := by
        intro e he
        rcases List.mem_append.mp he with he | he
        · exact Or.inr (hcs e he)
        · exact Or.inl (List.mem_singleton.mp he)
      rw [← List.append_nil (bufOf _), bufOf_append_eq_join, filepathClean_join hall]
      congr 2
      rw [List.filter_append, List.filter_eq_self.mpr fun e he => by simpa using (hcs e he).1]
      simp
    rw [show ([] : Text) = bufOf [] from rfl, evalLoop_ok_of_noLinks hfs hcs (by simp) hlen]
    show Except.ok (filepathClean (root ++ filepathClean ('/' :: bufOf ([] ++ c :: cs')))) = _
    rw [List.nil_append, hfinal]
  · rw [show ([] : Text) = bufOf [] from rfl, evalLoop_error_of_noLinks hfs hcs (by simp) (by omega)]
    rfl

/-- the path of 256 components `a` below `/`, on a filesystem with nothing on it, fails with "too many links", while
the path of 255 such components resolves to itself -/
theorem evalSymlinksInScope_deep_path :
    evalSymlinksInScope (fun _ => none) ('/' :: join (List.replicate 256 ['a']) '/') ['/'] =
        .error (tooManyLinks ('/' :: join (List.replicate 256 ['a']) '/')) ∧
      evalSymlinksInScope (fun _ => none) ('/' :: join (List.replicate 255 ['a']) '/') ['/'] =
        .ok ('/' :: join (List.replicate 255 ['a']) '/') := by
  have hfs : NoLinks fun _ => none := fun _ _ h => nomatch h
  have hplain : ∀ n, ∀ c ∈ List.replicate n ['a'], PlainElem c := fun n c hc => by
    rw [List.eq_of_mem_replicate hc]
    decide
  have hroot : filepathClean ['/'] = ['/'] := by decide
  have hunder : ∀ rel, underRoot ['/'] rel = rel := fun rel => if_pos rfl
  -- the lengths are the only facts about the paths the proof needs, so `simp` never unfolds `replicate`
  have hne : ∀ n, List.replicate (n + 1) ['a'] ≠ [] := fun n => List.cons_ne_nil _ _
  constructor
  · have h := evalSymlinksInScope_noLinks hfs hroot (hplain 256) (hne 255)
    rw [if_neg (by rw [List.length_replicate]; decide), hunder] at h
    exact h
  · have h := evalSymlinksInScope_noLinks hfs hroot (hplain 255) (hne 254)
    rw [if_pos (by rw [List.length_replicate]; decide), hunder, List.singleton_append,
      filepathClean_slash_slash (hplain 255) (hne 254)] at h
    exact h

/-- the part below the root is cleaned before any link is followed, so a `..` after a link climbs from the link, not
from its target: `/r/l/..` with `/r/l` a link to `/a/b` resolves to `/r`, not to `/r/a` -/
example :
    evalSymlinksInScope
        (fun p => if p = "/r/l".toList then some (.symlink "/a/b".toList)
          else if p = "/r/a".toList ∨ p = "/r/a/b".toList then some .dir else none)
        "/r/l/..".toList "/r".toList = .ok "/r".toList := by
  decide

/-! ## Confinement -/

/-- the result of the loop, joined to a clean absolute root, is the root or the root followed by plain
components -/
theorem filepathClean_root_confined {root : Text} (hroot : filepathClean root = root) (habs : root.head? = some '/')
    (b : Text) :
    filepathClean (root ++ filepathClean ('/' :: b)) = root ∨
      ∃ es, es ≠ [] ∧ (∀ e ∈ es, PlainElem e) ∧
        filepathClean (root ++ filepathClean ('/' :: b)) = underRoot root ('/' :: join es '/') := by
  obtain ⟨es, hes, hb⟩ := @filepathClean_rooted ('/' :: b) rfl
  obtain ⟨rs, hrs, hr⟩ := filepathClean_rooted habs
  rw [hroot] at hr
  rw [hb]
  by_cases hrs0 : rs = [] <;> by_cases hes0 : es = []
  · -- `//` is the root `/`
    left
    rw [hr, hrs0, hes0]
    decide
  · right
    refine ⟨es, hes0, hes, ?_⟩
    rw [hr, hrs0, underRoot, if_pos (show '/' :: join [] '/' = ['/'] from rfl)]
    exact filepathClean_slash_slash hes hes0
  · -- the root with a trailing separator cleans to the root
    left
    have hall : ∀ x ∈ rs ++ [[]], x = [] ∨ PlainElem x := by
      intro x hx
      rcases List.mem_append.mp hx with hx | hx
      · exact Or.inr (hrs x hx)
      · exact Or.inl (List.mem_singleton.mp hx)
    have hjoin : root ++ '/' :: join es '/' = '/' :: join (rs ++ [[]]) '/' := by
      rw [join_append hrs0 (List.cons_ne_nil _ _), hr, hes0]
      rfl
    rw [hjoin, filepathClean_join hall, List.filter_append,
      List.filter_eq_self.mpr fun x hx => by simpa using (hrs x hx).1, hr]
    simp
  · right
    have hne : root ≠ ['/'] := by
      rw [hr]
      intro h
      obtain ⟨r, rs', hcons⟩ := List.exists_cons_of_ne_nil hrs0
      rw [hcons] at h hrs
      exact join_ne_nil ⟨(hrs r List.mem_cons_self).1, (hrs r List.mem_cons_self).2.2.2⟩ rs' (List.cons.inj h).2
    refine ⟨es, hes0, hes, ?_⟩
    have hall : ∀ x ∈ rs ++ es, PlainElem x := by
      intro x hx
      rcases List.mem_append.mp hx with hx | hx
      · exact hrs x hx
      · exact hes x hx
    have hjoin : root ++ '/' :: join es '/' = '/' :: join (rs ++ es) '/' := by
      rw [join_append hrs0 hes0, hr]
      rfl
    rw [underRoot, if_neg hne, hjoin, filepathClean_join fun x hx => Or.inr (hall x hx),
      List.filter_eq_self.mpr fun x hx => by simpa using (hall x hx).1]

/-- every result of `evalSymlinksInScope` below a clean absolute root is the root or the root followed by plain
components: no `..` climbs out of it, whatever the links -/
theorem evalSymlinksInScope_confined (fs : FS) {root path r : Text} (hroot : filepathClean root = root)
    (habs : root.head? = some '/') (h : evalSymlinksInScope fs path root = .ok r) :
    r = root ∨ ∃ es, es ≠ [] ∧ (∀ e ∈ es, PlainElem e) ∧ r = underRoot root ('/' :: join es '/') := by
  unfold evalSymlinksInScope at h
  simp only [hroot] at h
  split_ifs at h with hpath
  · left
    rw [← hpath]
    exact (Except.ok.inj h).symm
  -- the other branches are errors, or the loop, whose buffer the result joins to the root
  all_goals first
    | exact absurd h (by simp)
    | obtain ⟨b, -, rfl⟩ := except_map_eq_ok h
      exact filepathClean_root_confined hroot habs b

/-- a link that climbs with `..` past the root stays below it: `/r/l -> ../../etc/passwd` resolves to
`/r/etc/passwd` -/
theorem evalSymlinksInScope_confined_climb :
    evalSymlinksInScope (fun p => if p = "/r/l".toList then some (.symlink "../../etc/passwd".toList) else none)
        "/r/l".toList "/r".toList = .ok "/r/etc/passwd".toList ∧
      ("/r/etc/passwd".toList = "/r".toList ∨ ∃ es, es ≠ [] ∧ (∀ e ∈ es, PlainElem e) ∧
        "/r/etc/passwd".toList = underRoot "/r".toList ('/' :: join es '/')) := by
  have h : evalSymlinksInScope (fun p => if p = "/r/l".toList then some (.symlink "../../etc/passwd".toList) else none)
      "/r/l".toList "/r".toList = .ok "/r/etc/passwd".toList := by decide
  exact ⟨h, evalSymlinksInScope_confined _ (by decide) rfl h⟩

end DockerEngine.Symlink
