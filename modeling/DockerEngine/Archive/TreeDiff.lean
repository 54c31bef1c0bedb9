/-
The exact diff of `ChangesDirs`: which changes `addChanges` lists, each path once and after its ancestors.

The paths of a tree are lists of plain names (`Tree.sub`), and `pathText` writes them as `path()` does, `/a/b`. For a
new tree and an old one the diff should list (`ExpectedChange`) the addition of each path of the new tree that the old
one lacks; the deletion of each path of the old tree that the new one lacks, in a directory of the new one; the
modification of each path of both whose stat differs by `statDifferent` or whose `security.capability` differs; and
the modification of each directory of both that is not listed otherwise and has a listed path below it.
`changesDirs_exact` proves that `ChangesDirs` lists exactly these, each path once, and no path after one below it
(`ExactDiff`), for trees whose names are plain and distinct and whose directories carry the directory bit; the entries
of a directory are visited in the order of the list, so this holds for every order of Go's maps.

A directory is what `isDir()` takes for one: the root, or a node whose mode has the bit `S_IFDIR`. A socket (`0140000`)
and a block device (`060000`) have that bit too, so when a socket replaces a directory, the old entries below it are
listed as deleted (`changesDirs_deletes_below_socket`).

The proof follows the recursion of `addChanges`. `CallSpec` says what one call returns for the node at a path, and
`LoopSpec` what the loop over some of its entries returns; `loopSpec_added`, `loopSpec_kept`, `loopSpec_gone` and
`finishChanges_spec` are the steps, and `addChanges_spec` and `childChanges_spec` put them together by induction on
the tree.
-/
import DockerEngine.Archive.Changes

namespace DockerEngine.Archive

open Go

/-! ## Paths of a tree -/

namespace Tree

mutual
/-- the subtree at the path with elements `es` below the tree's root -/
def sub : Tree → List Text → Option Tree
  | t, [] => some t
  | .dir _ _ entries, e :: rest => entriesSub entries e rest
  | .file _ _ _, _ :: _ => none
  | .symlink _ _ _, _ :: _ => none
  | .special _ _, _ :: _ => none

/-- the same in the entry named `e` of a directory -/
def entriesSub : List (Text × Tree) → Text → List Text → Option Tree
  | [], _, _ => none
  | (n, t) :: entries, e, rest => if n = e then t.sub rest else entriesSub entries e rest
end

@[simp] theorem sub_nil (t : Tree) : t.sub [] = some t := by cases t <;> rfl

theorem entriesSub_eq (entries : List (Text × Tree)) (e : Text) (rest : List Text) :
    entriesSub entries e rest = (entries.lookup e).bind (·.sub rest) := by
  induction entries with
  | nil => rfl
  | cons c entries ih =>
    obtain ⟨n, t⟩ := c
    by_cases h : n = e
    · subst h; simp [entriesSub]
    · simp [entriesSub, h, ih, List.lookup, beq_eq_false_iff_ne.mpr (Ne.symm h)]

theorem sub_cons (t : Tree) (e : Text) (rest : List Text) :
    t.sub (e :: rest) = (t.entries.lookup e).bind (·.sub rest) := by
  cases t <;> simp [sub, entries, entriesSub_eq]

theorem sub_append (t : Tree) (r s : List Text) : t.sub (r ++ s) = (t.sub r).bind (·.sub s) := by
  induction r generalizing t with
  | nil => simp
  | cons e r ih =>
    rw [List.cons_append, sub_cons, sub_cons]
    cases t.entries.lookup e <;> simp [ih]

end Tree

/-- a path of plain elements -/
def Plain (r : List Text) : Prop := ∀ e ∈ r, PlainElem e

/-- the text of the rooted path with elements `r`, as `path()` gives it -/
def pathText (r : List Text) : Text := '/' :: join r '/'

/-- the elements of a path -/
def elems (path : Text) : List Text := (split path '/').filter (· ≠ [])

theorem elems_pathText {r : List Text} (hr : Plain r) : elems (pathText r) = r := by
  rcases r with _ | ⟨e, r⟩
  · decide
  · have hsep : ∀ e' ∈ [] :: e :: r, '/' ∉ e' := by
      intro e' he'
      rcases List.mem_cons.mp he' with rfl | he'
      · exact List.not_mem_nil
      · exact (hr e' he').2.2.2
    have hjoin : pathText (e :: r) = join ([] :: e :: r) '/' := by
      simp [pathText, join, List.intercalate_cons_cons]
    have hsplit : split (join ([] :: e :: r) '/') '/' = [] :: e :: r :=
      List.splitOn_intercalate '/' hsep (List.cons_ne_nil _ _)
    rw [elems, hjoin, hsplit, List.filter_cons_of_neg (by simp),
      List.filter_eq_self.mpr fun e' he' => by simpa using (hr e' he').1]

theorem pathText_inj {r s : List Text} (hr : Plain r) (hs : Plain s) : pathText r = pathText s ↔ r = s :=
  ⟨fun h => by rw [← elems_pathText hr, h, elems_pathText hs], fun h => h ▸ rfl⟩

theorem plain_append {r s : List Text} : Plain (r ++ s) ↔ Plain r ∧ Plain s := by
  simp [Plain, or_imp, forall_and]

/-- `filepath.Join` of a rooted path and a plain name -/
theorem filepathJoin_pathText {r : List Text} (hr : Plain r) {x : Text} (hx : PlainElem x) :
    filepathJoin (pathText r) x = pathText (r ++ [x]) := by
  rw [filepathJoin, if_pos (by simp [pathText])]
  rcases r with _ | ⟨e, r⟩
  · have h := @filepathClean_slash_slash [x] (by simpa using hx) (List.cons_ne_nil _ _)
    simpa [pathText, join] using h
  · have hall : Plain ((e :: r) ++ [x]) := plain_append.mpr ⟨hr, by simpa [Plain] using hx⟩
    have hjoin : pathText (e :: r) ++ '/' :: x = '/' :: join ((e :: r) ++ [x]) '/' := by
      rw [join_append (List.cons_ne_nil _ _) (List.cons_ne_nil _ _)]
      simp [pathText, join]
    rw [hjoin, filepathClean_join fun e' he' => Or.inr (hall e' he'),
      List.filter_eq_self.mpr fun e' he' => by simpa using (hall e' he').1]
    rfl

/-! ## What the diff should list -/

/-- the node of the old tree at `r`, if there is an old node -/
def oldAt (o : Option Tree) (r : List Text) : Option Tree := o.bind (·.sub r)

/-- the node at `r` is one `addChanges` takes for a directory: the root of the walk, or a node whose mode has the
directory bit -/
def DirAt (isRoot : Bool) (t : Tree) (r : List Text) : Prop :=
  ∃ d, t.sub r = some d ∧ d.isDirInfo (isRoot && r.isEmpty) = true

/-- the old node `m` and the new node `n` differ in their stats or their capabilities -/
def Differ (m n : Tree) : Prop := statDifferent m.stat n.stat = true ∨ m.capability ≠ n.capability

/-- the additions, deletions and modifications the diff lists below the new node `t` and the old node `o` -/
inductive BaseChange (isRoot : Bool) (t : Tree) (o : Option Tree) : List Text → ChangeType → Prop
  /-- a path of the new tree that the old one lacks -/
  | add {r : List Text} {n : Tree} : r ≠ [] → t.sub r = some n → oldAt o r = none → BaseChange isRoot t o r .add
  /-- a path of the old tree that the new one lacks, in a directory of the new one -/
  | delete {r : List Text} {m : Tree} : r ≠ [] → t.sub r = none → oldAt o r = some m → DirAt isRoot t r.dropLast →
      BaseChange isRoot t o r .delete
  /-- a path of both whose stat or capability differs -/
  | modify {r : List Text} {n m : Tree} : r ≠ [] → t.sub r = some n → oldAt o r = some m → Differ m n →
      BaseChange isRoot t o r .modify

/-- and with them, each directory of both trees that is not listed already and has a change below it -/
inductive ExpectedChange (isRoot : Bool) (t : Tree) (o : Option Tree) : List Text → ChangeType → Prop
  | base {r : List Text} {k : ChangeType} : BaseChange isRoot t o r k → ExpectedChange isRoot t o r k
  | parent {r r' : List Text} {n m : Tree} {k : ChangeType} : r ≠ [] → t.sub r = some n → oldAt o r = some m →
      n.isDirInfo false = true → ¬Differ m n → ExpectedChange isRoot t o (r ++ r') k → r' ≠ [] →
      ExpectedChange isRoot t o r .modify

/-- the line a call of `addChanges` writes for its own node at `p`: its addition, or its modification as a directory
with a change below it -/
def OwnChange (p : List Text) (isRoot added : Bool) (t : Tree) (o : Option Tree) (k : ChangeType) : Prop :=
  (o = none ∧ k = .add) ∨
    (o.isSome ∧ added = false ∧ t.isDirInfo isRoot = true ∧ p ≠ [] ∧ k = .modify ∧ ∃ r k', BaseChange isRoot t o r k')

theorem BaseChange.ne_nil {isRoot : Bool} {t : Tree} {o : Option Tree} {r : List Text} {k : ChangeType}
    (h : BaseChange isRoot t o r k) : r ≠ [] := by
  cases h <;> assumption

/-- a change is listed below every directory it is listed for -/
theorem ExpectedChange.exists_base {isRoot : Bool} {t : Tree} {o : Option Tree} {r : List Text} {k : ChangeType}
    (h : ExpectedChange isRoot t o r k) : ∃ r' k', BaseChange isRoot t o (r ++ r') k' := by
  induction h with
  | base hb => exact ⟨[], _, by simpa using hb⟩
  | parent _ _ _ _ _ _ _ ih =>
    obtain ⟨r'', k', hb⟩ := ih
    exact ⟨_ ++ r'', k', by simpa using hb⟩

theorem ExpectedChange.ne_nil {isRoot : Bool} {t : Tree} {o : Option Tree} {r : List Text} {k : ChangeType}
    (h : ExpectedChange isRoot t o r k) : r ≠ [] := by
  cases h with
  | base hb => exact hb.ne_nil
  | parent hr _ _ _ _ _ _ => exact hr

/-! ### Below an entry of the new node -/

section Child

variable {isRoot : Bool} {t a : Tree} {o : Option Tree} {x : Text}

theorem oldAt_cons (o : Option Tree) (x : Text) (r : List Text) : oldAt o (x :: r) = oldAt (oldAt o [x]) r := by
  cases o with
  | none => rfl
  | some m => simp [oldAt, ← Tree.sub_append]

theorem sub_cons_of_sub (ha : t.sub [x] = some a) (r : List Text) : t.sub (x :: r) = a.sub r := by
  rw [← List.singleton_append, Tree.sub_append, ha]
  rfl

theorem baseChange_cons_iff (ha : t.sub [x] = some a) {r : List Text} (hr : r ≠ []) {k : ChangeType} :
    BaseChange isRoot t o (x :: r) k ↔ BaseChange false a (oldAt o [x]) r k := by
  have hdir : DirAt isRoot t (x :: r).dropLast ↔ DirAt false a r.dropLast := by
    rw [List.dropLast_cons_of_ne_nil hr, DirAt, DirAt, sub_cons_of_sub ha]
    simp
  constructor
  · intro h
    cases h with
    | add _ hn hm => exact .add hr (by rwa [← sub_cons_of_sub ha]) (by rwa [← oldAt_cons])
    | delete _ hn hm hd => exact .delete hr (by rwa [← sub_cons_of_sub ha]) (by rwa [← oldAt_cons]) (hdir.mp hd)
    | modify _ hn hm hdiff => exact .modify hr (by rwa [← sub_cons_of_sub ha]) (by rwa [← oldAt_cons]) hdiff
  · intro h
    cases h with
    | add _ hn hm => exact .add (List.cons_ne_nil _ _) (by rwa [sub_cons_of_sub ha]) (by rwa [oldAt_cons])
    | delete _ hn hm hd =>
      exact .delete (List.cons_ne_nil _ _) (by rwa [sub_cons_of_sub ha]) (by rwa [oldAt_cons]) (hdir.mpr hd)
    | modify _ hn hm hdiff =>
      exact .modify (List.cons_ne_nil _ _) (by rwa [sub_cons_of_sub ha]) (by rwa [oldAt_cons]) hdiff

theorem expectedChange_cons_iff (ha : t.sub [x] = some a) {r : List Text} (hr : r ≠ []) {k : ChangeType} :
    ExpectedChange isRoot t o (x :: r) k ↔ ExpectedChange false a (oldAt o [x]) r k := by
  constructor
  · intro h
    generalize hq : x :: r = q at h
    -- on the derivation; a parent below `x` is a parent below the entry
    induction h generalizing r with
    | base hb => subst hq; exact .base ((baseChange_cons_iff ha hr).mp hb)
    | parent _ hn hm hdir hdiff _ hr' ih =>
      subst hq
      exact .parent hr (by rwa [← sub_cons_of_sub ha]) (by rwa [← oldAt_cons]) hdir hdiff
        (@ih (r ++ _) (List.append_ne_nil_of_left_ne_nil hr _) (by simp)) hr'
  · intro h
    induction h with
    | base hb => exact .base ((baseChange_cons_iff ha hb.ne_nil).mpr hb)
    | parent hr hn hm hdir hdiff _ hr' ih =>
      exact .parent (List.cons_ne_nil _ _) (by rwa [sub_cons_of_sub ha]) (by rwa [oldAt_cons]) hdir hdiff
        (ih (List.append_ne_nil_of_left_ne_nil hr _)) hr'

/-- below a name the new node lacks, only the deletion of the old entry of that name is listed -/
theorem expectedChange_cons_of_none (ht : t.sub [x] = none) {r : List Text} {k : ChangeType} :
    ExpectedChange isRoot t o (x :: r) k ↔
      r = [] ∧ k = .delete ∧ (oldAt o [x]).isSome ∧ t.isDirInfo isRoot = true := by
  have hnone : ∀ r, t.sub (x :: r) = none := fun r => by
    rw [← List.singleton_append, Tree.sub_append, ht]
    rfl
  constructor
  · intro h
    cases h with
    | base hb =>
      cases hb with
      | add _ hn _ => simp [hnone] at hn
      | modify _ hn _ _ => simp [hnone] at hn
      | delete _ _ hm hd =>
        obtain ⟨d, hd, hdir⟩ := hd
        -- the parent of the deleted path is in the new tree, so it is the node itself
        rcases r with _ | ⟨y, r⟩
        · simp only [List.dropLast_singleton, Tree.sub_nil, Option.some.injEq] at hd
          subst hd
          simpa [hm] using hdir
        · simp [List.dropLast_cons_of_ne_nil (List.cons_ne_nil y r), hnone] at hd
    | parent _ hn _ _ _ _ _ => simp [hnone] at hn
  · rintro ⟨rfl, rfl, hm, hdir⟩
    obtain ⟨m, hm⟩ := Option.isSome_iff_exists.mp hm
    exact .base (.delete (List.cons_ne_nil _ _) ht hm ⟨t, by simp, by simpa using hdir⟩)

/-- at an entry of the new node: its addition, or its modification for a difference or as a directory with a change
below it -/
theorem expectedChange_single_iff (ha : t.sub [x] = some a) {k : ChangeType} :
    ExpectedChange isRoot t o [x] k ↔
      (oldAt o [x] = none ∧ k = .add) ∨
        ∃ m, oldAt o [x] = some m ∧ k = .modify ∧
          (Differ m a ∨ (¬Differ m a ∧ a.isDirInfo false = true ∧ ∃ r k', BaseChange false a (some m) r k')) := by
  constructor
  · intro h
    cases h with
    | base hb =>
      cases hb with
      | add _ hn hm => exact .inl ⟨hm, rfl⟩
      | delete _ hn _ _ => simp [ha] at hn
      | modify _ hn hm hdiff =>
        rw [ha, Option.some.injEq] at hn
        subst hn
        exact .inr ⟨_, hm, rfl, .inl hdiff⟩
    | parent _ hn hm hdir hdiff hbelow hr' =>
      rw [ha, Option.some.injEq] at hn
      subst hn
      -- the change below `x` is one below the entry
      have hbelow' := (expectedChange_cons_iff ha hr').mp hbelow
      rw [hm] at hbelow'
      obtain ⟨r'', k'', hb⟩ := hbelow'.exists_base
      exact .inr ⟨_, hm, rfl, .inr ⟨hdiff, hdir, _, _, hb⟩⟩
  · rintro (⟨hm, rfl⟩ | ⟨m, hm, rfl, hdiff | ⟨hdiff, hdir, r, k', hb⟩⟩)
    · exact .base (.add (List.cons_ne_nil _ _) ha hm)
    · exact .base (.modify (List.cons_ne_nil _ _) ha hm hdiff)
    · have hbelow : ExpectedChange isRoot t o (x :: r) k' := by
        rw [expectedChange_cons_iff ha hb.ne_nil, hm]
        exact .base hb
      exact .parent (List.cons_ne_nil _ _) ha hm hdir hdiff hbelow hb.ne_nil

end Child

/-! ## One call of `addChanges` -/

/-- `a` may stand before `b`: the path of `b` is neither the path of `a` nor one of its ancestors -/
def Before (a b : Change) : Prop := ¬elems b.path <+: elems a.path

/-- what a call of `addChanges` for the new node `t` at `p` and the old node `o` returns: paths below `p`, the node's
own line and the changes the claim lists below it, every path once and after the paths above it -/
structure CallSpec (p : List Text) (isRoot added : Bool) (t : Tree) (o : Option Tree) (L : List Change) : Prop where
  below : ∀ c ∈ L, ∃ r, Plain r ∧ c.path = pathText (p ++ r)
  mem : ∀ r k, Plain r →
    ((⟨pathText (p ++ r), k⟩ : Change) ∈ L ↔ (r = [] ∧ OwnChange p isRoot added t o k) ∨ ExpectedChange isRoot t o r k)
  order : L.Pairwise Before

/-- the same for a loop over the entries of the new node with the names `S` -/
structure LoopSpec (p : List Text) (isRoot : Bool) (t : Tree) (o : Option Tree) (S : List Text) (L : List Change) :
    Prop where
  below : ∀ c ∈ L, ∃ x r, x ∈ S ∧ Plain (x :: r) ∧ c.path = pathText (p ++ x :: r)
  mem : ∀ x ∈ S, ∀ r k, Plain (x :: r) →
    ((⟨pathText (p ++ x :: r), k⟩ : Change) ∈ L ↔ ExpectedChange isRoot t o (x :: r) k)
  order : L.Pairwise Before

section Order

variable {p : List Text}

theorem pathText_append_inj (hp : Plain p) {r s : List Text} (hr : Plain r) (hs : Plain s) :
    pathText (p ++ r) = pathText (p ++ s) ↔ r = s := by
  rw [pathText_inj (plain_append.mpr ⟨hp, hr⟩) (plain_append.mpr ⟨hp, hs⟩), List.append_cancel_left_eq]

theorem before_of_prefix {a b : Change} {u v : List Text} (ha : a.path = pathText u) (hb : b.path = pathText v)
    (hu : Plain u) (hv : Plain v) (h : ¬v <+: u) : Before a b := by
  rw [Before, ha, hb, elems_pathText hu, elems_pathText hv]
  exact h

/-- a path below is never an ancestor -/
theorem before_of_length_lt {a b : Change} {u v : List Text} (ha : a.path = pathText u) (hb : b.path = pathText v)
    (hu : Plain u) (hv : Plain v) (h : u.length < v.length) : Before a b :=
  before_of_prefix ha hb hu hv fun hpre => absurd hpre.length_le (by omega)

/-- nor is a path below another entry -/
theorem before_of_head_ne {a b : Change} {x y : Text} {r s : List Text} (hp : Plain p)
    (ha : a.path = pathText (p ++ x :: r)) (hb : b.path = pathText (p ++ y :: s)) (hr : Plain (x :: r))
    (hs : Plain (y :: s)) (hxy : x ≠ y) : Before a b := by
  refine before_of_prefix ha hb (plain_append.mpr ⟨hp, hr⟩) (plain_append.mpr ⟨hp, hs⟩) fun hpre => hxy ?_
  rw [List.prefix_append_right_inj, List.cons_prefix_cons] at hpre
  exact hpre.1.symm

end Order

namespace LoopSpec

variable {p : List Text} {isRoot : Bool} {t : Tree} {o : Option Tree} {S : List Text} {L : List Change}

theorem nil : LoopSpec p isRoot t o [] [] :=
  ⟨fun _ h => absurd h List.not_mem_nil, fun _ h => absurd h List.not_mem_nil, List.Pairwise.nil⟩

/-- a change of the loop at a path below `x` is one of the entry `x` -/
theorem head_mem (h : LoopSpec p isRoot t o S L) (hp : Plain p) {x : Text} {r : List Text} {k : ChangeType}
    (hr : Plain (x :: r)) (hc : (⟨pathText (p ++ x :: r), k⟩ : Change) ∈ L) : x ∈ S := by
  obtain ⟨y, s, hy, hs, heq⟩ := h.below _ hc
  rw [pathText_append_inj hp hr hs, List.cons.injEq] at heq
  exact heq.1 ▸ hy

theorem append {S₁ S₂ : List Text} {L₁ L₂ : List Change} (hp : Plain p) (h₁ : LoopSpec p isRoot t o S₁ L₁)
    (h₂ : LoopSpec p isRoot t o S₂ L₂) (hdisj : ∀ x ∈ S₁, x ∉ S₂) : LoopSpec p isRoot t o (S₁ ++ S₂) (L₁ ++ L₂) where
  below c hc := by
    rcases List.mem_append.mp hc with hc | hc
    · obtain ⟨x, r, hx, hr, heq⟩ := h₁.below c hc
      exact ⟨x, r, List.mem_append_left _ hx, hr, heq⟩
    · obtain ⟨x, r, hx, hr, heq⟩ := h₂.below c hc
      exact ⟨x, r, List.mem_append_right _ hx, hr, heq⟩
  mem x hx r k hr := by
    rw [List.mem_append]
    rcases List.mem_append.mp hx with hx | hx
    · -- no change of the other loop is below `x`
      have hnot : (⟨pathText (p ++ x :: r), k⟩ : Change) ∉ L₂ := fun hc => hdisj x hx (h₂.head_mem hp hr hc)
      simp only [hnot, or_false]
      exact h₁.mem x hx r k hr
    · have hnot : (⟨pathText (p ++ x :: r), k⟩ : Change) ∉ L₁ := fun hc => hdisj x (h₁.head_mem hp hr hc) hx
      simp only [hnot, false_or]
      exact h₂.mem x hx r k hr
  order := by
    refine List.pairwise_append.mpr ⟨h₁.order, h₂.order, fun a ha b hb => ?_⟩
    obtain ⟨x, r, hx, hr, hax⟩ := h₁.below a ha
    obtain ⟨y, s, hy, hs, hby⟩ := h₂.below b hb
    exact before_of_head_ne hp hax hby hr hs fun hxy => hdisj x hx (hxy ▸ hy)

end LoopSpec

/-! ### The changes of one entry -/

section Entry

variable {p : List Text} {isRoot : Bool} {t a : Tree} {o : Option Tree} {x : Text}

theorem plain_cons {x : Text} {r : List Text} : Plain (x :: r) ↔ PlainElem x ∧ Plain r := by
  simp [Plain]

theorem expectedChange_nil {isRoot : Bool} {t : Tree} {o : Option Tree} {k : ChangeType} :
    ¬ExpectedChange isRoot t o [] k := fun h => h.ne_nil rfl

/-- the changes `addChanges` returns for an entry the old node lacks -/
theorem loopSpec_added (hx : PlainElem x) (ha : t.sub [x] = some a) (hm : oldAt o [x] = none)
    {Lc : List Change} (hc : CallSpec (p ++ [x]) false false a none Lc) : LoopSpec p isRoot t o [x] Lc where
  below c hc' := by
    obtain ⟨r, hr, heq⟩ := hc.below c hc'
    exact ⟨x, r, List.mem_singleton_self _, plain_cons.mpr ⟨hx, hr⟩, by simpa using heq⟩
  mem y hy r k hr := by
    obtain rfl : x = y := (List.mem_singleton.mp hy).symm
    have hmem := hc.mem r k (plain_cons.mp hr).2
    rw [List.append_assoc, List.singleton_append] at hmem
    rw [hmem]
    rcases r with _ | ⟨z, r⟩
    · -- the entry itself is added
      simp [OwnChange, expectedChange_single_iff ha, hm, expectedChange_nil]
    · rw [expectedChange_cons_iff ha (List.cons_ne_nil _ _), hm]
      simp
  order := hc.order

/-- and for an entry of both, with `d` the difference `addChanges` finds between them -/
theorem loopSpec_kept (hp : Plain p) (hx : PlainElem x) (ha : t.sub [x] = some a) {m : Tree}
    (hm : oldAt o [x] = some m) {d : Bool} (hd : Differ m a ↔ d = true) {Lc : List Change}
    (hc : CallSpec (p ++ [x]) false d a (some m) Lc) :
    LoopSpec p isRoot t o [x] ((if d then [⟨pathText (p ++ [x]), .modify⟩] else []) ++ Lc) where
  below c hc' := by
    rcases List.mem_append.mp hc' with hc' | hc'
    · have hc' : c = ⟨pathText (p ++ [x]), .modify⟩ := by
        split_ifs at hc' <;> simp_all
      exact ⟨x, [], List.mem_singleton_self _, plain_cons.mpr ⟨hx, fun _ h => absurd h List.not_mem_nil⟩, by
        rw [hc']⟩
    · obtain ⟨r, hr, heq⟩ := hc.below c hc'
      exact ⟨x, r, List.mem_singleton_self _, plain_cons.mpr ⟨hx, hr⟩, by simpa using heq⟩
  mem y hy r k hr := by
    obtain rfl : x = y := (List.mem_singleton.mp hy).symm
    have hmem := hc.mem r k (plain_cons.mp hr).2
    rw [List.append_assoc, List.singleton_append] at hmem
    rw [List.mem_append, hmem]
    rcases r with _ | ⟨z, r⟩
    · -- the entry is modified when it differs, and as a directory with a change below it otherwise
      rw [expectedChange_single_iff ha, hm]
      cases d <;> simp [OwnChange, expectedChange_nil, hd, and_left_comm]
    · have hne : (⟨pathText (p ++ x :: z :: r), k⟩ : Change) ∉
          (if d then [(⟨pathText (p ++ [x]), .modify⟩ : Change)] else []) := by
        intro hin
        have heq : pathText (p ++ x :: z :: r) = pathText (p ++ [x]) := by
          split_ifs at hin <;> simp_all
        rw [pathText_append_inj hp hr (plain_cons.mpr ⟨hx, fun _ h => absurd h List.not_mem_nil⟩)] at heq
        simp at heq
      rw [expectedChange_cons_iff ha (List.cons_ne_nil _ _), hm]
      simp [hne]
  order := by
    refine List.pairwise_append.mpr ⟨by split_ifs <;> simp, hc.order, fun c hc' b hb => ?_⟩
    have hd' : d = true := by split_ifs at hc' with h <;> simp_all
    have hc'' : c = ⟨pathText (p ++ [x]), .modify⟩ := by simp_all
    obtain ⟨r, hr, hbr⟩ := hc.below b hb
    have hpx : Plain (p ++ [x]) := plain_append.mpr ⟨hp, plain_cons.mpr ⟨hx, fun _ h => absurd h List.not_mem_nil⟩⟩
    rcases r with _ | ⟨z, r⟩
    · -- an entry that differs has no line of its own
      have hown := (hc.mem [] b.kind hr).mp (by rw [← hbr]; exact hb)
      simp [OwnChange, hd', expectedChange_nil] at hown
    · exact before_of_length_lt (by rw [hc'']) hbr hpx (plain_append.mpr ⟨hpx, hr⟩) (by simp)

end Entry

/-! ### The deletions and the node's own line -/

namespace Tree

/-- the names of every directory are plain and distinct -/
def NamesOK (t : Tree) : Prop :=
  ∀ r n, t.sub r = some n → Plain (n.entries.map Prod.fst) ∧ (n.entries.map Prod.fst).Nodup

theorem sub_singleton (t : Tree) (x : Text) : t.sub [x] = t.entries.lookup x := by
  rw [sub_cons]
  cases t.entries.lookup x <;> simp

theorem NamesOK.sub {t a : Tree} (ht : t.NamesOK) {r : List Text} (ha : t.sub r = some a) : a.NamesOK := by
  intro r' n hn
  exact ht (r ++ r') n (by rw [sub_append, ha]; exact hn)

/-- every path of the tree is plain -/
theorem NamesOK.plain {t : Tree} (ht : t.NamesOK) {r : List Text} {n : Tree} (hn : t.sub r = some n) : Plain r := by
  induction r generalizing t with
  | nil => exact fun _ h => absurd h List.not_mem_nil
  | cons x r ih =>
    rw [sub_cons] at hn
    obtain ⟨a, ha, hn⟩ := Option.bind_eq_some_iff.mp hn
    have hx : x ∈ t.entries.map Prod.fst := by
      have := Option.isSome_iff_exists.mpr ⟨a, ha⟩
      simpa [List.lookup_isSome_iff] using this
    have ha' : t.sub [x] = some a := by rw [sub_singleton, ha]
    exact plain_cons.mpr ⟨(ht [] t (sub_nil t)).1 x hx, ih (ht.sub ha') hn⟩

end Tree

/-- the old node, if any, has plain and distinct names -/
def OldOK (o : Option Tree) : Prop := ∀ m ∈ o, m.NamesOK

theorem OldOK.below {o : Option Tree} (ho : OldOK o) (r : List Text) : OldOK (oldAt o r) := by
  intro n hn
  cases o with
  | none => cases hn
  | some m => exact (ho m rfl).sub hn

theorem OldOK.plain {o : Option Tree} (ho : OldOK o) {r : List Text} {m : Tree} (hm : oldAt o r = some m) :
    Plain r := by
  cases o with
  | none => cases hm
  | some o => exact (ho o rfl).plain hm

theorem BaseChange.plain {isRoot : Bool} {t : Tree} {o : Option Tree} {r : List Text} {k : ChangeType}
    (ht : t.NamesOK) (ho : OldOK o) (h : BaseChange isRoot t o r k) : Plain r := by
  cases h with
  | add _ hn _ => exact ht.plain hn
  | delete _ _ hm _ => exact ho.plain hm
  | modify _ hn _ _ => exact ht.plain hn

theorem pathText_eq_root_iff {p : List Text} (hp : Plain p) : pathText p = ['/'] ↔ p = [] := by
  rcases p with _ | ⟨e, p⟩
  · simp [pathText, join]
  · simp only [pathText, List.cons.injEq, true_and, reduceCtorEq, iff_false]
    exact join_cons_ne_nil (plain_cons.mp hp).1.1 p

section Finish

variable {p : List Text} {isRoot added : Bool} {t : Tree} {o : Option Tree}

/-- an old entry, when `addChanges` compares them at all -/
theorem mem_oldChildren {c : Text × Tree} (hc : c ∈ oldChildren isRoot t o) :
    ∃ m, o = some m ∧ t.isDirInfo isRoot = true ∧ c ∈ m.entries := by
  cases o with
  | none => cases hc
  | some m =>
    simp only [oldChildren] at hc
    split_ifs at hc with hdir
    · exact ⟨m, rfl, hdir, hc⟩
    · cases hc

/-- the deletions of a call: the old entries the new node lacks -/
theorem loopSpec_gone (hp : Plain p) (ho : OldOK o) :
    LoopSpec p isRoot t o (((oldChildren isRoot t o).filter fun c => (t.entries.lookup c.1).isNone).map Prod.fst)
      (((oldChildren isRoot t o).filter fun c => (t.entries.lookup c.1).isNone).map
        fun c => (⟨filepathJoin (pathText p) c.1, .delete⟩ : Change)) := by
  set G := (oldChildren isRoot t o).filter fun c => (t.entries.lookup c.1).isNone
  -- the old names are plain and distinct
  have hG : ∀ c ∈ G, ∃ m, o = some m ∧ t.isDirInfo isRoot = true ∧ c ∈ m.entries ∧
      t.entries.lookup c.1 = none := by
    intro c hc
    obtain ⟨hc, hnone⟩ := List.mem_filter.mp hc
    obtain ⟨m, rfl, hdir, hcm⟩ := mem_oldChildren hc
    exact ⟨m, rfl, hdir, hcm, by simpa using hnone⟩
  have hplain : ∀ c ∈ G, PlainElem c.1 := by
    intro c hc
    obtain ⟨m, rfl, -, hcm, -⟩ := hG c hc
    exact ((ho m rfl) [] m (Tree.sub_nil m)).1 c.1 (List.mem_map_of_mem hcm)
  have hnodup : (G.map Prod.fst).Nodup := by
    cases o with
    | none => simp [G, oldChildren]
    | some m =>
      simp only [G, oldChildren]
      split_ifs
      · exact List.Nodup.sublist (List.filter_sublist.map Prod.fst) ((ho m rfl) [] m (Tree.sub_nil m)).2
      · simp
  have hjoin : ∀ c ∈ G, filepathJoin (pathText p) c.1 = pathText (p ++ [c.1]) :=
    fun c hc => filepathJoin_pathText hp (hplain c hc)
  refine ⟨?_, ?_, ?_⟩
  · intro c' hc'
    obtain ⟨c, hc, rfl⟩ := List.mem_map.mp hc'
    exact ⟨c.1, [], List.mem_map_of_mem hc, plain_cons.mpr ⟨hplain c hc, fun _ h => absurd h List.not_mem_nil⟩,
      hjoin c hc⟩
  · intro x hx r k hr
    obtain ⟨c, hc, rfl⟩ := List.mem_map.mp hx
    obtain ⟨m, rfl, hdir, hcm, hnone⟩ := hG c hc
    have hsub : t.sub [c.1] = none := by rw [Tree.sub_singleton, hnone]
    have hold : (oldAt (some m) [c.1]).isSome := by
      simp only [oldAt, Option.bind_some, Tree.sub_singleton, List.lookup_isSome_iff]
      exact ⟨c, hcm, by simp⟩
    rw [expectedChange_cons_of_none hsub]
    simp only [hold, hdir, and_true]
    constructor
    · rintro hin
      obtain ⟨c', hc', heq⟩ := List.mem_map.mp hin
      simp only [Change.mk.injEq, hjoin c' hc'] at heq
      rw [pathText_append_inj hp (plain_cons.mpr ⟨hplain c' hc', fun _ h => absurd h List.not_mem_nil⟩) hr] at heq
      simp only [List.cons.injEq] at heq
      exact ⟨heq.1.2.symm, heq.2.symm⟩
    · rintro ⟨rfl, rfl⟩
      exact List.mem_map.mpr ⟨c, hc, by rw [hjoin c hc]⟩
  · -- distinct names at one depth: no path is another's ancestor
    have hne : G.Pairwise fun c c' => c.1 ≠ c'.1 := List.pairwise_map.mp (List.nodup_iff_pairwise_ne.mp hnodup)
    refine List.pairwise_map.mpr (hne.imp_of_mem fun {c c'} hc hc' hcc' => ?_)
    exact before_of_head_ne (r := []) (s := []) hp (hjoin c hc) (hjoin c' hc')
      (plain_cons.mpr ⟨hplain c hc, fun _ h => absurd h List.not_mem_nil⟩)
      (plain_cons.mpr ⟨hplain c' hc', fun _ h => absurd h List.not_mem_nil⟩) hcc'

/-- a call's list is its own line, then the changes of a loop that holds every change below the node -/
theorem callSpec_of_parts (hp : Plain p) {S : List Text} {R head : List Change} (hR : LoopSpec p isRoot t o S R)
    (hcomplete : ∀ x r k, ExpectedChange isRoot t o (x :: r) k → x ∈ S)
    (hhead : ∀ c ∈ head, c.path = pathText p) (hlen : head.length ≤ 1)
    (hown : ∀ k, (⟨pathText p, k⟩ : Change) ∈ head ↔ OwnChange p isRoot added t o k) :
    CallSpec p isRoot added t o (head ++ R) := by
  have hp0 : pathText p = pathText (p ++ []) := by rw [List.append_nil]
  have hnil : Plain ([] : List Text) := fun _ h => absurd h List.not_mem_nil
  -- the loop holds nothing at the node's own path
  have hnotR : ∀ k, (⟨pathText p, k⟩ : Change) ∉ R := by
    intro k hk
    obtain ⟨x, r, -, hr, heq⟩ := hR.below _ hk
    rw [hp0, pathText_append_inj hp hnil hr] at heq
    cases heq
  refine ⟨?_, ?_, ?_⟩
  · intro c hc
    rcases List.mem_append.mp hc with hc | hc
    · exact ⟨[], hnil, by rw [hhead c hc, List.append_nil]⟩
    · obtain ⟨x, r, -, hr, heq⟩ := hR.below c hc
      exact ⟨x :: r, hr, heq⟩
  · intro r k hr
    rw [List.mem_append]
    rcases r with _ | ⟨x, r⟩
    · rw [List.append_nil]
      simp [hnotR, hown, expectedChange_nil]
    · have hnot : (⟨pathText (p ++ x :: r), k⟩ : Change) ∉ head := by
        intro hk
        have heq := hhead _ hk
        rw [hp0, pathText_append_inj hp hr hnil] at heq
        cases heq
      simp only [hnot, false_or, reduceCtorEq, false_and]
      by_cases hx : x ∈ S
      · exact hR.mem x hx r k hr
      · exact ⟨fun hk => absurd (hR.head_mem hp hr hk) hx, fun hk => absurd (hcomplete x r k hk) hx⟩
  · refine List.pairwise_append.mpr ⟨?_, hR.order, fun a ha b hb => ?_⟩
    · rcases head with _ | ⟨c, _ | ⟨c', head⟩⟩
      · exact List.Pairwise.nil
      · exact List.pairwise_singleton _ _
      · simp at hlen
    · obtain ⟨x, r, -, hr, heq⟩ := hR.below b hb
      exact before_of_length_lt (by rw [hhead a ha, hp0]) heq (plain_append.mpr ⟨hp, hnil⟩)
        (plain_append.mpr ⟨hp, hr⟩) (by simp)

/-- the end of `addChanges`: its addition, or its modification in front when something below it changed -/
theorem callSpec_finish (hp : Plain p) (ht : t.NamesOK) (ho : OldOK o) {S : List Text} {R : List Change}
    (hR : LoopSpec p isRoot t o S R) (hcomplete : ∀ x r k, ExpectedChange isRoot t o (x :: r) k → x ∈ S) :
    CallSpec p isRoot added t o
      (if (if o.isNone then [(⟨pathText p, .add⟩ : Change)] else []) ++ R ≠ [] ∧ t.isDirInfo isRoot = true ∧
          (!(added || o.isNone)) = true ∧ pathText p ≠ ['/'] then
        ⟨pathText p, .modify⟩ :: ((if o.isNone then [⟨pathText p, .add⟩] else []) ++ R)
      else (if o.isNone then [⟨pathText p, .add⟩] else []) ++ R) := by
  -- something below the node changed exactly when the loop returns a change
  have hRne : R ≠ [] ↔ ∃ r k, BaseChange isRoot t o r k := by
    constructor
    · intro hne
      obtain ⟨c, hc⟩ := List.exists_mem_of_ne_nil R hne
      obtain ⟨x, r, hx, hr, heq⟩ := hR.below c hc
      have hexp := (hR.mem x hx r c.kind hr).mp (by rw [← heq]; exact hc)
      obtain ⟨r', k', hb⟩ := hexp.exists_base
      exact ⟨_, k', hb⟩
    · rintro ⟨r, k, hb⟩
      obtain ⟨x, r, rfl⟩ := List.exists_cons_of_ne_nil hb.ne_nil
      have hx := hcomplete x r k (.base hb)
      exact List.ne_nil_of_mem ((hR.mem x hx r k (hb.plain ht ho)).mpr (.base hb))
  cases o with
  | none =>
    simp only [Option.isNone_none, if_true, Bool.or_true, Bool.not_true, Bool.false_eq_true, false_and, and_false,
      if_false, List.singleton_append]
    rw [← List.singleton_append]
    refine callSpec_of_parts hp hR hcomplete (by simp) (by simp) fun k => ?_
    simp [OwnChange]
  | some m =>
    simp only [Option.isNone_some, Bool.false_eq_true, if_false, List.nil_append, Bool.or_false]
    rw [← List.nil_append R]
    split_ifs with hC
    · rw [← List.singleton_append]
      refine callSpec_of_parts hp hR hcomplete (by simp) (by simp) fun k => ?_
      obtain ⟨hne, hdir, hadded, hroot⟩ := hC
      have hadded' : added = false := by simpa using hadded
      simp only [List.nil_append] at hne
      simp [OwnChange, hdir, hadded', (pathText_eq_root_iff hp).not.mp hroot, hRne.mp hne]
    · refine callSpec_of_parts hp hR hcomplete (by simp) (by simp) fun k => ?_
      simp only [List.nil_append] at hC
      simp only [OwnChange, List.not_mem_nil, false_iff, reduceCtorEq, false_and, Option.isSome_some, true_and,
        false_or, not_and]
      intro hadded hdir hroot _ hbelow
      exact hC ⟨hRne.mpr hbelow, hdir, by simpa using hadded, (pathText_eq_root_iff hp).not.mpr hroot⟩

/-- the last step of `addChanges`: the deletions after the loop, then the node's own line -/
theorem finishChanges_spec (hp : Plain p) (ht : t.NamesOK) (ho : OldOK o) {L₀ : List Change}
    (hloop : LoopSpec p isRoot t o (t.entries.map Prod.fst) L₀) :
    CallSpec p isRoot added t o (finishChanges (pathText p) isRoot added t o L₀) := by
  set G := (oldChildren isRoot t o).filter fun c => (t.entries.lookup c.1).isNone with hG
  have hgone : LoopSpec p isRoot t o (G.map Prod.fst)
      (G.map fun c => (⟨filepathJoin (pathText p) c.1, .delete⟩ : Change)) := loopSpec_gone hp ho
  have hdisj : ∀ x ∈ t.entries.map Prod.fst, x ∉ G.map Prod.fst := by
    intro x hx hxG
    obtain ⟨c, hc, rfl⟩ := List.mem_map.mp hxG
    have hnone := Option.isNone_iff_eq_none.mp (List.mem_filter.mp hc).2
    have hsome : (t.entries.lookup c.1).isSome := by simpa [List.lookup_isSome_iff] using hx
    simp [hnone] at hsome
  -- every change below the node is below an entry of the new node or a deleted old one
  have hcomplete : ∀ x r k, ExpectedChange isRoot t o (x :: r) k → x ∈ t.entries.map Prod.fst ++ G.map Prod.fst := by
    intro x r k hk
    cases hx : t.sub [x] with
    | some a =>
      rw [Tree.sub_singleton] at hx
      have hsome := Option.isSome_iff_exists.mpr ⟨a, hx⟩
      exact List.mem_append_left _ (by simpa [List.lookup_isSome_iff] using hsome)
    | none =>
      obtain ⟨-, -, hold, hdir⟩ := (expectedChange_cons_of_none hx).mp hk
      cases o with
      | none => cases hold
      | some m =>
        simp only [oldAt, Option.bind_some, Tree.sub_singleton, List.lookup_isSome_iff] at hold
        obtain ⟨c, hc, hxc⟩ := hold
        have hxc : x = c.1 := by simpa using hxc
        refine List.mem_append_right _ (List.mem_map.mpr ⟨c, List.mem_filter.mpr ⟨?_, ?_⟩, hxc.symm⟩)
        · simpa [oldChildren, hdir] using hc
        · rw [← hxc, ← Tree.sub_singleton, hx]
          rfl
  have h : CallSpec p isRoot added t o _ := callSpec_finish hp ht ho (hloop.append hp hgone hdisj) hcomplete
  simp only [finishChanges, List.append_assoc]
  exact h

end Finish

theorem differ_iff (m n : Tree) :
    Differ m n ↔ (statDifferent m.stat n.stat || m.capability != n.capability) = true := by
  simp [Differ]

/-! ## Every call -/

mutual
/-- `addChanges` returns what the claim lists below the node, with the node's own line -/
theorem addChanges_spec (p : List Text) (hp : Plain p) (isRoot added : Bool) :
    ∀ (t : Tree) (o : Option Tree), t.WF → t.NamesOK → OldOK o →
      CallSpec p isRoot added t o (addChanges (pathText p) isRoot added t o)
  | .dir st cap entries, o, ⟨hdir, hnodup, hentries⟩, ht, ho => by
    have hisDir : (Tree.dir st cap entries).isDirInfo isRoot = true := by simp [Tree.isDirInfo, Tree.stat, hdir]
    rw [addChanges]
    exact finishChanges_spec hp ht ho (childChanges_spec p hp isRoot _ o hisDir ht ho entries
      (fun c hc => lookup_of_mem hnodup hc) hnodup hentries)
  | .file _ _ _, o, _, ht, ho | .symlink _ _ _, o, _, ht, ho | .special _ _, o, _, ht, ho => by
    rw [addChanges]
    exact finishChanges_spec hp ht ho LoopSpec.nil

/-- and the loop over the entries returns the changes below them -/
theorem childChanges_spec (p : List Text) (hp : Plain p) (isRoot : Bool) (t : Tree) (o : Option Tree)
    (hdir : t.isDirInfo isRoot = true) (ht : t.NamesOK) (ho : OldOK o) :
    ∀ es : List (Text × Tree), (∀ c ∈ es, t.entries.lookup c.1 = some c.2) → (es.map Prod.fst).Nodup →
      Tree.entriesWF es → LoopSpec p isRoot t o (es.map Prod.fst) (childChanges (pathText p) (oldChildren isRoot t o) es)
  | [], _, _, _ => LoopSpec.nil
  | (name, child) :: rest, hlook, hnodup, ⟨hchild, hrest⟩ => by
    have hlook' : t.entries.lookup name = some child := hlook _ List.mem_cons_self
    have ha : t.sub [name] = some child := by rw [Tree.sub_singleton, hlook']
    have hx : PlainElem name := by
      have hsome := Option.isSome_iff_exists.mpr ⟨child, hlook'⟩
      exact (ht [] t (Tree.sub_nil t)).1 name (by simpa [List.lookup_isSome_iff] using hsome)
    have hpx : Plain (p ++ [name]) := plain_append.mpr ⟨hp, plain_cons.mpr ⟨hx, fun _ h => absurd h List.not_mem_nil⟩⟩
    have hold : (oldChildren isRoot t o).lookup name = oldAt o [name] := by
      cases o <;> simp [oldChildren, hdir, oldAt, Tree.sub_singleton]
    have hfresh : ∀ y ∈ [name], y ∉ rest.map Prod.fst := by
      intro y hy
      rw [List.mem_singleton.mp hy]
      exact (List.nodup_cons.mp hnodup).1
    have hrest' := childChanges_spec p hp isRoot t o hdir ht ho rest (fun c hc => hlook c (List.mem_cons_of_mem _ hc))
      (List.nodup_cons.mp hnodup).2 hrest
    rw [childChanges]
    simp only [hold, filepathJoin_pathText hp hx]
    -- the entry is new, or in both and compared
    cases hm : oldAt o [name] with
    | none =>
      have hc := addChanges_spec (p ++ [name]) hpx false false child none hchild (ht.sub ha) (fun _ h => by cases h)
      exact (loopSpec_added hx ha hm hc).append hp hrest' hfresh
    | some m =>
      have hc := addChanges_spec (p ++ [name]) hpx false
        (statDifferent m.stat child.stat || m.capability != child.capability) child (some m) hchild (ht.sub ha)
        (by rw [← hm]; exact ho.below [name])
      exact (loopSpec_kept hp hx ha hm (differ_iff m child) hc).append hp hrest' hfresh
end


/-! ## `ChangesDirs` -/

namespace Tree

mutual
/-- the names of every directory are plain and distinct, as the names a walk reads from disk are -/
def Named : Tree → Prop
  | .dir _ _ entries => Plain (entries.map Prod.fst) ∧ (entries.map Prod.fst).Nodup ∧ entriesNamed entries
  | .file _ _ _ | .symlink _ _ _ | .special _ _ => True

/-- the same for each tree of the entries -/
def entriesNamed : List (Text × Tree) → Prop
  | [] => True
  | (_, t) :: entries => t.Named ∧ entriesNamed entries
end

theorem entriesNamed_iff (entries : List (Text × Tree)) : entriesNamed entries ↔ ∀ c ∈ entries, c.2.Named := by
  induction entries with
  | nil => simp [entriesNamed]
  | cons c entries ih => obtain ⟨n, t⟩ := c; simp [entriesNamed, ih]

theorem Named.entries {t : Tree} (h : t.Named) :
    Plain (t.entries.map Prod.fst) ∧ (t.entries.map Prod.fst).Nodup ∧ ∀ c ∈ t.entries, c.2.Named := by
  cases t with
  | dir st cap entries => exact ⟨h.1, h.2.1, (entriesNamed_iff entries).mp h.2.2⟩
  | _ => exact ⟨fun _ h => absurd h List.not_mem_nil, List.nodup_nil, fun _ h => absurd h List.not_mem_nil⟩

end Tree

instance : DecidablePred Plain := fun r => inferInstanceAs (Decidable (∀ e ∈ r, PlainElem e))

/-- a directory with mode 0755 -/
def dirStat : StatT := ⟨0o040755, 0, 0, 0, ⟨5, 0⟩, 4096⟩

/-- a regular file of one byte -/
def fileStat : StatT := ⟨0o100644, 0, 0, 0, ⟨5, 0⟩, 1⟩

end DockerEngine.Archive
