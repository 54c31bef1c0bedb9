/-
Lean model of `Changes(layers, rw)` in `pkg/archive/changes.go`, which `Driver.Changes` of the AUFS driver
(`daemon/graphdriver/aufs/aufs.go`) calls with the diff directories of the parent layers, the nearest first, and the
diff directory of the layer.

`Changes` walks the rw layer with `filepath.Walk` (`walkChanges`, the entries of a directory in the order of the list,
which `readDirNames` sorts). It skips the root and the AUFS metadata at the root, but not what lies below a metadata
directory. A whiteout `.wh.name` is the deletion of `name`; any other path is an addition unless `os.Stat` finds it in
a lower layer, and a directory that looks as it did there is not recorded (`classify`, `probe`). The first addition or
deletion in a directory brings the modification of that directory in front of it (`record`). A lower layer is a tree
whose nodes `os.Stat` reads as `Lstat` does (`layerStat`): symbolic links in the lower layers are not followed.

`InUnion` is the union of the branches: a path of a branch shows unless a branch above it has the path, a whiteout of
it or of a directory above it, a file in place of a directory above it, or an opaque directory above it.
`changes_add_unseen` is the rule `Changes` follows instead: it reports an addition only at a path that no lower layer
has, whatever whiteouts lie above it. So a file that a lower layer whites out and the rw layer writes again, which is in
the union with the rw layer and not in the union without it, is reported as modified and not as added
(`changes_rewritten_whiteout`).
-/
import DockerEngine.Archive.TreeDiff

namespace DockerEngine.Archive.Aufs

open Go

/-- `syscall.S_IFMT` -/
def sIFMT : ℕ := 0o170000

/-- `IsDir()` of the `os.FileInfo` of a stat: the file type is a directory -/
def isDirStat (st : StatT) : Bool := st.mode &&& sIFMT = sIFDIR

mutual
/-- `os.Stat(filepath.Join(layer, path))` for the path with elements `p` of a layer: `ENOTDIR` when a file stands in
place of a directory on the way, `ENOENT` when the path is missing -/
def layerStat : Tree → List Text → Except Errno StatT
  | t, [] => .ok t.stat
  | .dir _ _ entries, e :: rest => entriesStat entries e rest
  | .file _ _ _, _ :: _ => .error .enotdir
  | .symlink _ _ _, _ :: _ => .error .enotdir
  | .special _ _, _ :: _ => .error .enotdir

/-- the same in the entry named `e` of a directory -/
def entriesStat : List (Text × Tree) → Text → List Text → Except Errno StatT
  | [], _, _ => .error .enoent
  | (n, t) :: entries, e, rest => if n = e then layerStat t rest else entriesStat entries e rest
end

/-- the loop of `Changes` over the lower layers for a path of the rw layer with node `f`: `ChangeAdd` when no layer
has it, `ChangeModify` at the first that has it, and `none` when both are directories that look the same -/
def probe (f : Tree) (p : List Text) : List Tree → Except Errno (Option ChangeType)
  | [] => .ok (some .add)
  | layer :: layers =>
    match layerStat layer p with
    | .error .enoent => probe f p layers
    | .error e => .error e
    | .ok stat =>
      if isDirStat stat ∧ isDirStat f.stat ∧ f.stat.size = stat.size ∧ f.stat.mode = stat.mode ∧
          sameFsTimeSpec f.stat.mtim stat.mtim then .ok none
      else .ok (some .modify)

/-- the errors of `Changes`: the error of `os.Stat`, or `filepath.ErrBadPattern` -/
inductive ChangesError
  | errno (e : Errno)
  | badPattern
  deriving DecidableEq, Repr

/-- what the `WalkFunc` of `Changes` keeps: the changes, and the set `changedDirs` -/
structure WalkState where
  changes : List Change
  changedDirs : List Text

/-- the pattern of the AUFS metadata at the root, `/.wh..wh.*` -/
def metaPattern : Text := ['/'] ++ whiteoutMetaPrefix ++ ['*']

/-- the change `Changes` finds at the path with elements `p` of the rw layer, whose node is `f`: the deletion a whiteout
stands for, or what the lower layers say; `none` for a directory that looks as it did -/
def classify (layers : List Tree) (p : List Text) (f : Tree) : Except ChangesError (Option Change) :=
  let path := pathText p
  let file := filepathBase path
  if hasPrefix file whiteoutPrefix then
    .ok (some ⟨filepathJoin (filepathDir path) (file.drop whiteoutPrefix.length), .delete⟩)
  else
    match probe f p layers with
    | .error e => .error (.errno e)
    | .ok kind => .ok (kind.map fun kind => ⟨path, kind⟩)

/-- the change recorded at `path`, after the modification of its parent when an addition or a deletion is the first
change in it -/
def record (path : Text) (isDir : Bool) (change : Change) (st : WalkState) : WalkState :=
  let st := if isDir then { st with changedDirs := path :: st.changedDirs } else st
  let parent := filepathDir path
  let st :=
    if (change.kind = .add ∨ change.kind = .delete) ∧ parent ∉ st.changedDirs ∧ parent ≠ ['/'] then
      { changes := st.changes ++ [⟨parent, .modify⟩], changedDirs := parent :: st.changedDirs }
    else st
  { st with changes := st.changes ++ [change] }

/-- the `WalkFunc` of `Changes` at the path with elements `p` of the rw layer, whose node is `f` -/
def visit (layers : List Tree) (p : List Text) (f : Tree) (st : WalkState) : Except ChangesError WalkState := do
  let path := pathText p
  -- the root is skipped, and so is the metadata at the root, but not what is below it
  if path = ['/'] then return st
  match filepathMatch metaPattern path with
  | .error _ => throw .badPattern
  | .ok true => return st
  | .ok false =>
    match ← classify layers p f with
    | none => return st
    | some change => return record path (isDirStat f.stat) change st

mutual
/-- `filepath.Walk` of the rw layer with the `WalkFunc` of `Changes`, from the node `f` at `p`: the node, then its
entries in order -/
def walkChanges (layers : List Tree) : List Text → Tree → WalkState → Except ChangesError WalkState
  | p, .dir st cap entries, s => do
    let s ← visit layers p (.dir st cap entries) s
    walkEntries layers p entries s
  | p, .file st cap c, s => visit layers p (.file st cap c) s
  | p, .symlink st cap t, s => visit layers p (.symlink st cap t) s
  | p, .special st cap, s => visit layers p (.special st cap) s

/-- the same over the entries of a directory -/
def walkEntries (layers : List Tree) : List Text → List (Text × Tree) → WalkState → Except ChangesError WalkState
  | _, [], s => .ok s
  | p, (name, t) :: rest, s => do
    let s ← walkChanges layers (p ++ [name]) t s
    walkEntries layers p rest s
end

/-- `Changes(layers, rw)`, the lower layers the top one first -/
def changes (layers : List Tree) (rw : Tree) : Except ChangesError (List Change) :=
  (walkChanges layers [] rw ⟨[], []⟩).map WalkState.changes

/-! ## The union of the branches -/

/-- the branch `b` lets a path `p` of a lower branch show through: it has nothing at `p`, no whiteout of `p` or of a
directory above it, and above `p` only directories, none of them opaque -/
def Transparent (b : Tree) (p : List Text) : Prop :=
  b.sub p = none ∧ (∀ q e, q ++ [e] <+: p → b.sub (q ++ [whiteoutPrefix ++ e]) = none) ∧
    ∀ q, q <+: p → q ≠ p → ∀ n, b.sub q = some n → isDirStat n.stat = true ∧ b.sub (q ++ [whiteoutOpaqueDir]) = none

/-- `p` is a path of the union of the branches `bs`, the top one first: a name that is no whiteout, found in a branch
that every branch above it lets through -/
def InUnion (bs : List Tree) (p : List Text) : Prop :=
  (∀ e ∈ p, ¬whiteoutPrefix <+: e) ∧
    ∃ pre b post, bs = pre ++ b :: post ∧ (b.sub p).isSome ∧ ∀ b' ∈ pre, Transparent b' p

/-! ## What `Changes` takes for an addition -/

/-- the loop over the layers says `ChangeAdd` only when no layer has the path -/
theorem probe_add {f : Tree} {p : List Text} :
    ∀ {layers : List Tree}, probe f p layers = .ok (some .add) → ∀ L ∈ layers, layerStat L p = .error .enoent
  | [], _ => fun _ h => absurd h List.not_mem_nil
  | layer :: layers, h => by
    unfold probe at h
    split at h
    · next hL =>
      intro L hmem
      rcases List.mem_cons.mp hmem with rfl | hmem
      · exact hL
      · exact probe_add h L hmem
    · cases h
    · split_ifs at h <;> cases h

/-- what the walk keeps: every addition is at a path of the rw layer that no lower layer has -/
def AddsUnseen (layers : List Tree) (rw : Tree) (s : WalkState) : Prop :=
  ∀ c ∈ s.changes, c.kind = .add → ∃ p, c.path = pathText p ∧ (rw.sub p).isSome ∧
    ∀ L ∈ layers, layerStat L p = .error .enoent

/-- recording a change adds it, and at most the modification of its parent -/
theorem mem_record {path : Text} {isDir : Bool} {change : Change} {st : WalkState} {c : Change}
    (hc : c ∈ (record path isDir change st).changes) : c ∈ st.changes ∨ c.kind = .modify ∨ c = change := by
  simp only [record] at hc
  split_ifs at hc <;> simp only [List.mem_append, List.mem_singleton, or_assoc] at hc
  all_goals rcases hc with hc | hc | hc
  all_goals first | exact .inl hc | exact .inr (.inr hc) | exact .inr (.inr rfl) | exact .inr (.inl (by rw [hc]))

/-- `Changes` finds an addition only at the path itself, when the lower layers say so -/
theorem classify_add {layers : List Tree} {p : List Text} {f : Tree} {c : Change}
    (h : classify layers p f = .ok (some c)) (hadd : c.kind = .add) :
    c.path = pathText p ∧ probe f p layers = .ok (some .add) := by
  unfold classify at h
  dsimp only at h
  split_ifs at h
  · cases h
    cases hadd
  · split at h
    · cases h
    · next kind hkind =>
      cases kind with
      | none => cases h
      | some kind =>
        cases h
        cases hadd
        exact ⟨rfl, hkind⟩

/-- a call of the `WalkFunc` adds at most a parent's modification and the change of its own path -/
theorem visit_changes {layers : List Tree} {f : Tree} {p : List Text} {s s' : WalkState}
    (h : visit layers p f s = .ok s') :
    ∀ c ∈ s'.changes, c ∈ s.changes ∨ c.kind ≠ .add ∨ (c.path = pathText p ∧ probe f p layers = .ok (some .add)) := by
  intro c hc
  unfold visit at h
  dsimp only at h
  split_ifs at h
  · cases h
    exact .inl hc
  split at h
  · cases h
  · cases h
    exact .inl hc
  · -- past the root and the metadata, the change `classify` finds is recorded
    cases hcl : classify layers p f with
    | error e => simp [hcl, bind, Except.bind] at h
    | ok change =>
      cases change with
      | none =>
        simp only [hcl, bind, Except.bind, pure, Except.pure, Except.ok.injEq] at h
        subst h
        exact .inl hc
      | some change =>
        simp only [hcl, bind, Except.bind, pure, Except.pure, Except.ok.injEq] at h
        subst h
        rcases mem_record hc with hc | hc | rfl
        · exact .inl hc
        · exact .inr (.inl (by rw [hc]; decide))
        · by_cases hadd : c.kind = .add
          · exact .inr (.inr (classify_add hcl hadd))
          · exact .inr (.inl hadd)

theorem visit_inv {layers : List Tree} {rw f : Tree} {p : List Text} (hp : rw.sub p = some f) {s s' : WalkState}
    (hs : AddsUnseen layers rw s) (h : visit layers p f s = .ok s') : AddsUnseen layers rw s' := by
  intro c hc hadd
  rcases visit_changes h c hc with hc | hne | ⟨hpath, hprobe⟩
  · exact hs c hc hadd
  · exact absurd hadd hne
  · exact ⟨p, hpath, by rw [hp]; rfl, probe_add hprobe⟩

mutual
/-- the walk keeps `AddsUnseen`, the node at each path being the rw layer's node there -/
theorem walkChanges_inv (layers : List Tree) (rw : Tree) :
    ∀ (p : List Text) (f : Tree) {s s' : WalkState}, rw.sub p = some f → f.Named → AddsUnseen layers rw s →
      walkChanges layers p f s = .ok s' → AddsUnseen layers rw s'
  | p, .dir st cap entries, s, s', hp, hf, hs, h => by
    simp only [walkChanges, bind, Except.bind] at h
    cases hv : visit layers p (.dir st cap entries) s with
    | error e => simp [hv] at h
    | ok s₁ =>
      simp only [hv] at h
      exact walkEntries_inv layers rw p entries (fun c hc => by
          rw [Tree.sub_append, hp, Option.bind_some, Tree.sub_singleton]
          exact lookup_of_mem hf.entries.2.1 hc)
        (fun c hc => hf.entries.2.2 c hc) (visit_inv hp hs hv) h
  | p, .file st cap c, s, s', hp, _, hs, h => visit_inv hp hs h
  | p, .symlink st cap t, s, s', hp, _, hs, h => visit_inv hp hs h
  | p, .special st cap, s, s', hp, _, hs, h => visit_inv hp hs h

/-- and so does the walk over the entries of a directory -/
theorem walkEntries_inv (layers : List Tree) (rw : Tree) (p : List Text) :
    ∀ (es : List (Text × Tree)) {s s' : WalkState}, (∀ c ∈ es, rw.sub (p ++ [c.1]) = some c.2) →
      (∀ c ∈ es, c.2.Named) → AddsUnseen layers rw s → walkEntries layers p es s = .ok s' → AddsUnseen layers rw s'
  | [], s, s', _, _, hs, h => by
    simp only [walkEntries, Except.ok.injEq] at h
    exact h ▸ hs
  | (name, t) :: rest, s, s', hsub, hnamed, hs, h => by
    simp only [walkEntries, bind, Except.bind] at h
    cases hw : walkChanges layers (p ++ [name]) t s with
    | error e => simp [hw] at h
    | ok s₁ =>
      simp only [hw] at h
      exact walkEntries_inv layers rw p rest (fun c hc => hsub c (List.mem_cons_of_mem _ hc))
        (fun c hc => hnamed c (List.mem_cons_of_mem _ hc))
        (walkChanges_inv layers rw (p ++ [name]) t (hsub _ List.mem_cons_self) (hnamed _ List.mem_cons_self) hs hw) h
end

/-- `Changes` reports an addition only at a path of the rw layer that no lower layer has, whatever whiteouts or
opaque directories the lower layers hold -/
theorem changes_add_unseen {layers : List Tree} {rw : Tree} (hrw : rw.Named) {cs : List Change}
    (h : changes layers rw = .ok cs) :
    ∀ c ∈ cs, c.kind = .add → ∃ p, c.path = pathText p ∧ (rw.sub p).isSome ∧
      ∀ L ∈ layers, layerStat L p = .error .enoent := by
  unfold changes at h
  cases hw : walkChanges layers [] rw ⟨[], []⟩ with
  | error e => simp [hw, Except.map] at h
  | ok s =>
    simp only [hw, Except.map, Except.ok.injEq] at h
    subst h
    exact walkChanges_inv layers rw [] rw (Tree.sub_nil rw) hrw (fun _ hc => absurd hc List.not_mem_nil) hw

/-! ## A file whited out below and written again -/

/-- the upper lower layer: the whiteout of `foo` -/
def whiteoutLayer : Tree := .dir dirStat [] [(whiteoutPrefix ++ "foo".toList, .file fileStat [] [])]

/-- the lower layer: the file `foo` -/
def fooLayer : Tree := .dir dirStat [] [("foo".toList, .file fileStat [] [0])]

/-- the rw layer: `foo` written again -/
def fooRw : Tree := .dir dirStat [] [("foo".toList, .file fileStat [] [1])]

theorem changes_rewritten_whiteout :
    changes [whiteoutLayer, fooLayer] fooRw = .ok [⟨"/foo".toList, .modify⟩] ∧
      InUnion [fooRw, whiteoutLayer, fooLayer] ["foo".toList] ∧ ¬InUnion [whiteoutLayer, fooLayer] ["foo".toList] := by
  refine ⟨by decide, ⟨by decide, [], fooRw, _, rfl, rfl, fun _ h => absurd h List.not_mem_nil⟩, ?_⟩
  rintro ⟨-, pre, b, post, hbs, hb, hpre⟩
  -- `foo` is in the lower layer only, and the whiteout above it hides it
  rcases pre with _ | ⟨b₀, _ | ⟨b₁, pre⟩⟩
  · simp only [List.nil_append, List.cons.injEq] at hbs
    rw [← hbs.1] at hb
    exact absurd hb (by decide)
  · simp only [List.cons_append, List.nil_append, List.cons.injEq] at hbs
    have hwh := (hpre b₀ List.mem_cons_self).2.1 [] "foo".toList (List.prefix_refl _)
    rw [← hbs.1] at hwh
    exact absurd hwh (by decide)
  · simp only [List.cons_append, List.cons.injEq] at hbs
    exact absurd hbs.2.2 (by simp)

end DockerEngine.Archive.Aufs
