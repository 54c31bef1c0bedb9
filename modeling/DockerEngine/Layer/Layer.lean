/-
Lean model of the layer objects of `layer/layer.go`, `layer/ro_layer.go` and `layer/mounted_layer.go`.

Chain IDs: `createChainIDFromParent parent dgsts` folds the diff IDs into the parent's chain ID, `H = "H(n-1) SHA256(n)"`,
and an empty parent takes the first diff ID as it is. `digest.FromBytes` is the parameter `fromBytes`: nothing here
depends on what it computes. `createChainIDFromParent_append` is the composition law.

`roLayer` objects live in a `Heap` and point to their parent by index. A parent is always allocated before its
children, and the heap carries that as a field (`parent_lt`): `depth` and `diffIDs` walk the parent pointers by
well-founded recursion on the index. `diffIDs h p` lists the diff IDs of the chain from the root down to `p`.
-/
import Mathlib
import DockerEngine.Lib.Prelude

namespace DockerEngine.Layer

abbrev ChainID := String
abbrev DiffID := String

/-! ## Chain IDs -/

section ChainIDs

variable (fromBytes : String → String)

def createChainIDFromParent (parent : ChainID) : List DiffID → ChainID
  | [] => parent
  | d :: ds =>
    if parent = "" then createChainIDFromParent d ds
    else createChainIDFromParent (fromBytes (parent ++ " " ++ d)) ds

/-- `CreateChainID(dgsts)` -/
def createChainID (dgsts : List DiffID) : ChainID := createChainIDFromParent fromBytes "" dgsts

/-- computing the chain ID from a parent's chain ID agrees with computing it from the whole list -/
theorem createChainIDFromParent_append (p : ChainID) (xs ys : List DiffID) :
    createChainIDFromParent fromBytes (createChainIDFromParent fromBytes p xs) ys =
      createChainIDFromParent fromBytes p (xs ++ ys) := by
  induction xs generalizing p with
  | nil => rfl
  | cons x xs ih =>
    simp only [createChainIDFromParent, List.cons_append]
    split <;> exact ih _

theorem createChainID_append_singleton (ds : List DiffID) (d : DiffID) :
    createChainIDFromParent fromBytes (createChainID fromBytes ds) [d] = createChainID fromBytes (ds ++ [d]) :=
  createChainIDFromParent_append fromBytes "" ds [d]

@[simp] theorem createChainID_singleton (d : DiffID) : createChainID fromBytes [d] = d := by
  simp [createChainID, createChainIDFromParent]

end ChainIDs

/-! ## `roLayer` -/

/-- the fields of `roLayer` that the store reads; `parent` is the heap index of the parent layer -/
structure RoLayer where
  chainID : ChainID
  diffID : DiffID
  parent : Option ℕ
  referenceCount : ℕ
  /-- the keys of `references`: the handles given out by `getReference` -/
  references : Finset ℕ

namespace RoLayer

/-- `referenceCount++` -/
def retain (l : RoLayer) : RoLayer := { l with referenceCount := l.referenceCount + 1 }

/-- `referenceCount--` -/
def unretain (l : RoLayer) : RoLayer := { l with referenceCount := l.referenceCount - 1 }

/-- `references[ref] = struct{}{}` -/
def addReference (r : ℕ) (l : RoLayer) : RoLayer := { l with references := insert r l.references }

/-- `deleteReference(ref)` -/
def deleteReference (r : ℕ) (l : RoLayer) : RoLayer := { l with references := l.references.erase r }

/-- the fields a layer is born with and keeps -/
def Same (l l' : RoLayer) : Prop := l'.chainID = l.chainID ∧ l'.diffID = l.diffID ∧ l'.parent = l.parent

/-- what the walks along parent pointers read of a layer -/
def shape (l : RoLayer) : ChainID × DiffID × Option ℕ := (l.chainID, l.diffID, l.parent)

theorem Same.shape_eq {l l' : RoLayer} (h : l.Same l') : l'.shape = l.shape := by
  obtain ⟨hc, hd, hp⟩ := h
  simp [shape, hc, hd, hp]

theorem same_retain (l : RoLayer) : l.Same l.retain := ⟨rfl, rfl, rfl⟩
theorem same_unretain (l : RoLayer) : l.Same l.unretain := ⟨rfl, rfl, rfl⟩
theorem same_addReference (r : ℕ) (l : RoLayer) : l.Same (l.addReference r) := ⟨rfl, rfl, rfl⟩
theorem same_deleteReference (r : ℕ) (l : RoLayer) : l.Same (l.deleteReference r) := ⟨rfl, rfl, rfl⟩

end RoLayer

/-! ## The heap of `roLayer` objects -/

/-- the `roLayer` objects ever allocated, by index; a parent comes before its children -/
structure Heap where
  objs : List RoLayer
  parent_lt : ∀ i (hi : i < objs.length) q, objs[i].parent = some q → q < i

namespace Heap

def get (h : Heap) (p : ℕ) : Option RoLayer := h.objs[p]?

theorem get_lt {h : Heap} {p : ℕ} {l : RoLayer} (hl : h.get p = some l) : p < h.objs.length := by
  obtain ⟨hp, -⟩ := List.getElem?_eq_some_iff.mp hl
  exact hp

theorem get_parent_lt {h : Heap} {p q : ℕ} {l : RoLayer} (hl : h.get p = some l) (hq : l.parent = some q) :
    q < p := by
  obtain ⟨hp, rfl⟩ := List.getElem?_eq_some_iff.mp hl
  exact h.parent_lt p hp q hq

/-- the empty heap -/
def empty : Heap := ⟨[], fun _ hi => absurd hi (Nat.not_lt_zero _)⟩

/-- allocate `l` at index `h.objs.length`; `none` if its parent is not allocated yet -/
def alloc (h : Heap) (l : RoLayer) : Option Heap :=
  if hl : ∀ q, l.parent = some q → q < h.objs.length then
    some ⟨h.objs ++ [l], by
      intro i hi q hq
      rcases Nat.lt_or_ge i h.objs.length with hi' | hi'
      · rw [List.getElem_append_left hi'] at hq
        exact h.parent_lt i hi' q hq
      · have hi'' : i = h.objs.length := by simp at hi; omega
        subst hi''
        simp only [List.getElem_append_right (Nat.le_refl _), Nat.sub_self, List.getElem_singleton] at hq
        exact hl q hq⟩
  else none

/-- change the mutable fields of the object at `p` -/
def modify (h : Heap) (p : ℕ) (f : RoLayer → RoLayer) (hf : ∀ l : RoLayer, l.Same (f l)) : Heap :=
  ⟨h.objs.modify p f, by
    intro i hi q hq
    rw [List.getElem_modify] at hq
    split at hq
    · exact h.parent_lt i (by simpa using hi) q ((hf _).2.2 ▸ hq)
    · exact h.parent_lt i (by simpa using hi) q hq⟩

theorem get_modify (h : Heap) (p : ℕ) (f : RoLayer → RoLayer) (hf : ∀ l : RoLayer, l.Same (f l)) (q : ℕ) :
    (h.modify p f hf).get q = (h.get q).map (fun l => if p = q then f l else l) := by
  simp [get, modify, List.getElem?_modify]

theorem get_alloc_lt {h h' : Heap} {l : RoLayer} (ha : h.alloc l = some h') {q : ℕ} (hq : q < h.objs.length) :
    h'.get q = h.get q := by
  unfold alloc at ha
  split at ha
  · cases ha
    exact List.getElem?_append_left hq
  · cases ha

theorem get_alloc_self {h h' : Heap} {l : RoLayer} (ha : h.alloc l = some h') : h'.get h.objs.length = some l := by
  unfold alloc at ha
  split at ha
  · cases ha
    simp [get]
  · cases ha

/-- `depth()`: the number of layers on the chain down to `p` -/
def depth (h : Heap) (p : ℕ) : ℕ :=
  match hl : h.get p with
  | none => 0
  | some l =>
    match hq : l.parent with
    | none => 1
    | some q => h.depth q + 1
termination_by p
decreasing_by exact get_parent_lt hl hq

/-- the diff IDs of the chain from the root down to `p` -/
def diffIDs (h : Heap) (p : ℕ) : List DiffID :=
  match hl : h.get p with
  | none => []
  | some l =>
    match hq : l.parent with
    | none => [l.diffID]
    | some q => h.diffIDs q ++ [l.diffID]
termination_by p
decreasing_by exact get_parent_lt hl hq

theorem diffIDs_none {h : Heap} {p : ℕ} (hl : h.get p = none) : h.diffIDs p = [] := by
  rw [diffIDs]
  split <;> simp_all

theorem diffIDs_root {h : Heap} {p : ℕ} {l : RoLayer} (hl : h.get p = some l) (hq : l.parent = none) :
    h.diffIDs p = [l.diffID] := by
  rw [diffIDs]
  split
  · simp_all
  · split <;> simp_all

theorem diffIDs_child {h : Heap} {p q : ℕ} {l : RoLayer} (hl : h.get p = some l) (hq : l.parent = some q) :
    h.diffIDs p = h.diffIDs q ++ [l.diffID] := by
  rw [diffIDs]
  split
  · simp_all
  · split <;> simp_all

theorem depth_eq_length (h : Heap) (p : ℕ) : h.depth p = (h.diffIDs p).length := by
  induction p using Nat.strong_induction_on with
  | _ p ih =>
    rw [depth]
    split
    · rename_i hl
      rw [diffIDs_none hl]
      rfl
    · rename_i l hl
      split
      · rename_i hq
        rw [diffIDs_root hl hq]
        rfl
      · rename_i q hq
        rw [diffIDs_child hl hq, ih q (get_parent_lt hl hq), List.length_append, List.length_singleton]

/-- the chain down to `p` reads only the shapes of the layers up to `p` -/
theorem diffIDs_congr {h h' : Heap} {p : ℕ} (H : ∀ q ≤ p, (h'.get q).map RoLayer.shape = (h.get q).map RoLayer.shape) :
    h'.diffIDs p = h.diffIDs p := by
  induction p using Nat.strong_induction_on with
  | _ p ih =>
    cases hl : h.get p with
    | none =>
      have hl' : h'.get p = none := by simpa [hl] using H p le_rfl
      rw [diffIDs_none hl, diffIDs_none hl']
    | some l =>
      obtain ⟨l', hl', hs⟩ : ∃ l', h'.get p = some l' ∧ l'.shape = l.shape := by
        simpa [hl] using H p le_rfl
      have hd : l'.diffID = l.diffID := congrArg (fun s => s.2.1) hs
      have hpar : l'.parent = l.parent := congrArg (fun s => s.2.2) hs
      cases hq : l.parent with
      | none => rw [diffIDs_root hl hq, diffIDs_root hl' (hpar.trans hq), hd]
      | some q =>
        have hqp := get_parent_lt hl hq
        rw [diffIDs_child hl hq, diffIDs_child hl' (hpar.trans hq), hd,
          ih q hqp (fun r hr => H r (by omega))]

theorem alloc_parent_lt {h h' : Heap} {l : RoLayer} (ha : h.alloc l = some h') {q : ℕ} (hq : l.parent = some q) :
    q < h.objs.length := by
  unfold alloc at ha
  split at ha
  · rename_i hl
    exact hl q hq
  · cases ha

theorem diffIDs_alloc_lt {h h' : Heap} {l : RoLayer} (ha : h.alloc l = some h') {q : ℕ} (hq : q < h.objs.length) :
    h'.diffIDs q = h.diffIDs q :=
  diffIDs_congr fun r hr => by rw [get_alloc_lt ha (by omega)]

theorem diffIDs_alloc_child {h h' : Heap} {l : RoLayer} (ha : h.alloc l = some h') {q : ℕ} (hq : l.parent = some q) :
    h'.diffIDs h.objs.length = h.diffIDs q ++ [l.diffID] := by
  rw [diffIDs_child (get_alloc_self ha) hq, diffIDs_alloc_lt ha (alloc_parent_lt ha hq)]

end Heap

/-! ## `mountedLayer` -/

/-- the fields of `mountedLayer` that the store reads -/
structure MountedLayer where
  name : String
  parent : Option ℕ
  /-- `initID != ""` -/
  initSet : Bool
  /-- the keys of `references`: the handles given out by `getReference` -/
  references : Finset ℕ

end DockerEngine.Layer
