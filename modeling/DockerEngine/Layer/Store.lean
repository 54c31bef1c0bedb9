/-
Lean model of `layer/layer_store.go`: `Register`, `Get`, `Release`, `CreateRWLayer`, `GetRWLayer` and
`ReleaseRWLayer`, each made atomically (the store's locks), from `LayerStore.empty`.

`layerMap` maps a chain ID to the heap index of its `roLayer`; `mounts` holds the `mountedLayer`s by name. A handle
(`referencedCacheLayer`, `referencedRWLayer`) is a fresh number together with what its `ChainID()` or `Name()`
returns. Every graph-driver and metadata-store call may fail: each call takes the outcomes of the ones it makes as
an argument (`RegisterFaults`, ...), and the `deleteLayer` of the `n`-th layer a `releaseLayer` cascade reaches fails
when `fails n`. The tar stream is its diff ID. A call returns `none` where the Go code panics, and `releaseLayer` also
where it would dereference a pointer the heap does not hold.
-/
import DockerEngine.Layer.Layer
import DockerEngine.Lib.Machine

namespace DockerEngine.Layer

/-- `maxLayerDepth` -/
def maxLayerDepth : ℕ := 125

/-- the errors the calls return -/
inductive Err where
  /-- `ErrLayerDoesNotExist`: "layer does not exist" -/
  | layerDoesNotExist
  /-- `ErrLayerNotRetained`: "layer not retained" -/
  | layerNotRetained
  /-- `ErrMountDoesNotExist`: "mount does not exist" -/
  | mountDoesNotExist
  /-- `ErrMountNameConflict`: "mount already exists with name" -/
  | mountNameConflict
  /-- `ErrMaxDepthExceeded`: "max depth exceeded" -/
  | maxDepthExceeded
  /-- an error of the graph driver or of the metadata store -/
  | failed
deriving DecidableEq, Repr

/-- a `referencedCacheLayer`: its key in `references`, and its `ChainID()` -/
structure Handle where
  ref : ℕ
  chainID : ChainID
deriving DecidableEq, Repr

/-- a `referencedRWLayer`: its key in `references`, and its `Name()` -/
structure RWHandle where
  ref : ℕ
  name : String
deriving DecidableEq, Repr

/-- `Metadata` of a removed layer, without the sizes the driver reports -/
structure Metadata where
  chainID : ChainID
  diffID : DiffID
deriving DecidableEq, Repr

structure LayerStore where
  heap : Heap
  layerMap : ChainID → Option ℕ
  mounts : List MountedLayer
  /-- the next fresh handle -/
  nextRef : ℕ

namespace LayerStore

def empty : LayerStore := ⟨Heap.empty, fun _ => none, [], 0⟩

/-- update the mutable fields of the layer at `p` -/
def modifyLayer (ls : LayerStore) (p : ℕ) (f : RoLayer → RoLayer) (hf : ∀ l : RoLayer, l.Same (f l)) :
    LayerStore :=
  { ls with heap := ls.heap.modify p f hf }

/-- `getWithoutLock(l)`: the layer stored under `l`, retained -/
def getWithoutLock (ls : LayerStore) (l : ChainID) : Option (LayerStore × ℕ) :=
  (ls.layerMap l).map fun p => (ls.modifyLayer p RoLayer.retain RoLayer.same_retain, p)

/-- `getReference()` of the layer at `p` -/
def getReference (ls : LayerStore) (p : ℕ) (c : ChainID) : LayerStore × Handle :=
  ({ ls.modifyLayer p (RoLayer.addReference ls.nextRef) (RoLayer.same_addReference _) with nextRef := ls.nextRef + 1 },
    ⟨ls.nextRef, c⟩)

def lookupMount (ls : LayerStore) (name : String) : Option MountedLayer := ls.mounts.find? (·.name = name)

/-- `ls.mounts[m.name] = m` -/
def setMount (ls : LayerStore) (m : MountedLayer) : LayerStore :=
  { ls with mounts := m :: ls.mounts.filter (·.name ≠ m.name) }

/-- `delete(ls.mounts, name)` -/
def deleteMount (ls : LayerStore) (name : String) : LayerStore :=
  { ls with mounts := ls.mounts.filter (·.name ≠ name) }

/-! ## `releaseLayer` -/

/-- the loop of `releaseLayer` at layer `p`, `depth` layers up from where it started -/
def releaseLoop (fails : ℕ → Bool) (ls : LayerStore) (p depth : ℕ) (removed : List Metadata) :
    Option (LayerStore × Except Err (List Metadata)) :=
  match hl : ls.heap.get p with
  | none => none
  | some l =>
    -- panic("layer not retained")
    if l.referenceCount = 0 then none
    else
      let ls := ls.modifyLayer p RoLayer.unretain RoLayer.same_unretain
      if l.referenceCount - 1 ≠ 0 then some (ls, .ok removed)
      -- panic("cannot remove layer with child")
      else if removed = [] ∧ 0 < depth then none
      -- panic("cannot delete referenced layer")
      else if l.references.Nonempty then none
      -- `deleteLayer` failed
      else if fails depth then some (ls, .error .failed)
      else
        let ls := { ls with layerMap := Function.update ls.layerMap l.chainID none }
        let removed := removed ++ [⟨l.chainID, l.diffID⟩]
        match hq : l.parent with
        | none => some (ls, .ok removed)
        | some q => releaseLoop fails ls q (depth + 1) removed
termination_by p
decreasing_by exact Heap.get_parent_lt hl hq

/-- `releaseLayer(l)` -/
def releaseLayer (fails : ℕ → Bool) (ls : LayerStore) (p : ℕ) : Option (LayerStore × Except Err (List Metadata)) :=
  releaseLoop fails ls p 0 []

/-! ## The calls -/

/-- the outcomes of the calls `Register` makes; `release` is for the deferred `releaseLayer` of the parent -/
structure RegisterFaults where
  /-- `ls.driver.Create` -/
  create : Bool
  /-- `ls.store.StartTransaction` -/
  startTransaction : Bool
  /-- `tx.TarSplitWriter`, `asm.NewInputTarStream` or `ls.driver.ApplyDiff` in `applyTar` -/
  applyTar : Bool
  /-- a setter of `tx` in `storeLayer` -/
  storeLayer : Bool
  /-- `tx.Commit` -/
  commit : Bool
  release : ℕ → Bool

/-- the outcomes of the calls `CreateRWLayer` makes -/
structure CreateFaults where
  /-- `initMount` -/
  initMount : Bool
  /-- `ls.driver.CreateReadWrite` -/
  createReadWrite : Bool
  /-- a setter of `ls.store` in `saveMount` -/
  saveMount : Bool
  release : ℕ → Bool

/-- the outcomes of the calls `ReleaseRWLayer` makes -/
structure ReleaseRWFaults where
  /-- `ls.driver.Remove(m.mountID)` -/
  removeMount : Bool
  /-- `ls.driver.Remove(m.initID)` -/
  removeInit : Bool
  /-- `ls.store.RemoveMount` -/
  removeMetadata : Bool
  release : ℕ → Bool

/-- what a call returns -/
inductive Ret where
  | layer (l : Handle)
  | rwLayer (l : RWHandle)
  | released (ms : List Metadata)
  | err (e : Err)

/-- the result of a `releaseLayer` as `Release` returns it -/
def Ret.ofRelease : Except Err (List Metadata) → Ret
  | .ok ms => .released ms
  | .error e => .err e

section Calls

variable (fromBytes : String → String)

/-- the chain ID `Register` gives the layer it creates on the parent `p` -/
def newChainID (p : Option (ℕ × RoLayer)) (diffID : DiffID) : ChainID :=
  match p with
  | none => diffID
  | some (_, pl) => createChainIDFromParent fromBytes pl.chainID [diffID]

/-- `p.depth() >= maxLayerDepth` -/
def tooDeep (ls : LayerStore) (p : Option (ℕ × RoLayer)) : Bool :=
  match p with
  | some (q, _) => decide (maxLayerDepth ≤ ls.heap.depth q)
  | none => false

/-- `ls.layerMap[layer.chainID] = layer` for a layer not allocated yet -/
def insertLayer (ls : LayerStore) (l : RoLayer) : Option LayerStore :=
  (ls.heap.alloc l).map fun heap =>
    ⟨heap, Function.update ls.layerMap l.chainID (some ls.heap.objs.length), ls.mounts, ls.nextRef⟩

/-- `Register` once the parent `p` (if any) is retained: the store, the result, and whether `err` is set, which
releases the parent -/
def registerBody (ls : LayerStore) (p : Option (ℕ × RoLayer)) (diffID : DiffID) (f : RegisterFaults) :
    Option (LayerStore × Ret × Bool) :=
  if ls.tooDeep p then some (ls, .err .maxDepthExceeded, true)
  else if f.create ∨ f.startTransaction ∨ f.applyTar then some (ls, .err .failed, true)
  else if f.storeLayer then some (ls, .err .failed, true)
  else
    let chainID := newChainID fromBytes p diffID
    match ls.getWithoutLock chainID with
    -- "layer already exists": the existing layer is returned, and `err` is set
    | some (ls, e) => some ((ls.getReference e chainID).1, .layer (ls.getReference e chainID).2, true)
    | none =>
      if f.commit then some (ls, .err .failed, true)
      else
        (ls.insertLayer ⟨chainID, diffID, p.map (·.1), 1, ∅⟩).map fun ls' =>
          ((ls'.getReference ls.heap.objs.length chainID).1, .layer (ls'.getReference ls.heap.objs.length chainID).2,
            false)

/-- what `registerBody` can do: return an error, return an existing layer, or store a new one -/
theorem registerBody_cases {ls ls' : LayerStore} {p : Option (ℕ × RoLayer)} {d : DiffID} {f : RegisterFaults}
    {r : Ret} {b : Bool} (hr : registerBody fromBytes ls p d f = some (ls', r, b)) :
    ls' = ls ∨
    (∃ ls₁ e, ls.getWithoutLock (newChainID fromBytes p d) = some (ls₁, e) ∧
      ls' = (ls₁.getReference e (newChainID fromBytes p d)).1) ∨
    (ls.tooDeep p = false ∧ ∃ ls₁, ls.insertLayer ⟨newChainID fromBytes p d, d, p.map (·.1), 1, ∅⟩ = some ls₁ ∧
      ls' = (ls₁.getReference ls.heap.objs.length (newChainID fromBytes p d)).1) := by
  unfold registerBody at hr
  split_ifs at hr with hdeep
  · exact Or.inl (Prod.mk.inj (Option.some.inj hr)).1.symm
  · exact Or.inl (Prod.mk.inj (Option.some.inj hr)).1.symm
  · exact Or.inl (Prod.mk.inj (Option.some.inj hr)).1.symm
  all_goals dsimp only at hr; split at hr
  -- the chain ID is taken: the existing layer is returned
  case h_1 ls₁ e he | h_1 ls₁ e he =>
    exact Or.inr (Or.inl ⟨ls₁, e, he, (Prod.mk.inj (Option.some.inj hr)).1.symm⟩)
  -- `tx.Commit` failed
  · exact Or.inl (Prod.mk.inj (Option.some.inj hr)).1.symm
  · obtain ⟨ls₁, h₁, h₂⟩ := Option.map_eq_some_iff.mp hr
    exact Or.inr (Or.inr ⟨by simpa using hdeep, ls₁, h₁, (Prod.mk.inj h₂).1.symm⟩)

/-- `Register(ts, parent)` where `ts` has diff ID `diffID` -/
def register (ls : LayerStore) (parent : ChainID) (diffID : DiffID) (f : RegisterFaults) :
    Option (LayerStore × Ret) :=
  if parent = "" then (registerBody fromBytes ls none diffID f).map fun r => (r.1, r.2.1)
  else
    match ls.getWithoutLock parent with
    | none => some (ls, .err .layerDoesNotExist)
    | some (ls, q) =>
      match ls.heap.get q with
      | none => none
      | some pl =>
        match registerBody fromBytes ls (some (q, pl)) diffID f with
        | none => none
        | some (ls, r, false) => some (ls, r)
        | some (ls, r, true) => (releaseLayer f.release ls q).map fun rel => (rel.1, r)

end Calls

/-- `Get(l)` -/
def get (ls : LayerStore) (l : ChainID) : LayerStore × Ret :=
  match ls.getWithoutLock l with
  | none => (ls, .err .layerDoesNotExist)
  | some (ls, p) => ((ls.getReference p l).1, .layer (ls.getReference p l).2)

/-- `Release(l)` -/
def release (ls : LayerStore) (l : Handle) (fails : ℕ → Bool) : Option (LayerStore × Ret) :=
  match ls.layerMap l.chainID with
  | none => some (ls, .released [])
  | some p =>
    match ls.heap.get p with
    | none => none
    | some layer =>
      if l.ref ∉ layer.references then some (ls, .err .layerNotRetained)
      else
        let ls := ls.modifyLayer p (RoLayer.deleteReference l.ref) (RoLayer.same_deleteReference _)
        (releaseLayer fails ls p).map fun r => (r.1, Ret.ofRelease r.2)

/-- `CreateRWLayer` once the parent `p` (if any) is retained: the store, the result, and whether `err` is set -/
def createRWBody (ls : LayerStore) (name : String) (p : Option ℕ) (initFunc : Bool) (f : CreateFaults) :
    LayerStore × Ret × Bool :=
  if initFunc ∧ f.initMount then (ls, .err .failed, true)
  else if f.createReadWrite ∨ f.saveMount then (ls, .err .failed, true)
  else
    -- `saveMount` stores the mount, and `getReference` hands out its first handle
    ({ ls.setMount ⟨name, p, initFunc, {ls.nextRef}⟩ with nextRef := ls.nextRef + 1 }, .rwLayer ⟨ls.nextRef, name⟩,
      false)

/-- `CreateRWLayer(name, parent, mountLabel, initFunc, storageOpt)`; `initFunc` tells whether one is given -/
def createRWLayer (ls : LayerStore) (name : String) (parent : ChainID) (initFunc : Bool) (f : CreateFaults) :
    Option (LayerStore × Ret) :=
  if (ls.lookupMount name).isSome then some (ls, .err .mountNameConflict)
  else if parent = "" then some ((ls.createRWBody name none initFunc f).1, (ls.createRWBody name none initFunc f).2.1)
  else
    match ls.getWithoutLock parent with
    | none => some (ls, .err .layerDoesNotExist)
    | some (ls, q) =>
      match ls.createRWBody name (some q) initFunc f with
      | (ls, r, false) => some (ls, r)
      | (ls, r, true) => (releaseLayer f.release ls q).map fun rel => (rel.1, r)

/-- `GetRWLayer(id)` -/
def getRWLayer (ls : LayerStore) (name : String) : LayerStore × Ret :=
  match ls.lookupMount name with
  | none => (ls, .err .mountDoesNotExist)
  | some m =>
    ({ ls.setMount { m with references := insert ls.nextRef m.references } with nextRef := ls.nextRef + 1 },
      .rwLayer ⟨ls.nextRef, name⟩)

/-- `ReleaseRWLayer(l)` -/
def releaseRWLayer (ls : LayerStore) (l : RWHandle) (f : ReleaseRWFaults) : Option (LayerStore × Ret) :=
  match ls.lookupMount l.name with
  | none => some (ls, .released [])
  | some m =>
    if l.ref ∉ m.references then some (ls, .err .layerNotRetained)
    else
      let m' := { m with references := m.references.erase l.ref }
      if m'.references.Nonempty then some (ls.setMount m', .released [])
      -- a failed removal retakes the reference
      else if f.removeMount ∨ (m.initSet ∧ f.removeInit) ∨ f.removeMetadata then
        some (ls.setMount { m' with references := insert l.ref m'.references }, .err .failed)
      else
        match m.parent with
        | none => some (ls.deleteMount l.name, .released [])
        | some q => (releaseLayer f.release (ls.deleteMount l.name) q).map fun r => (r.1, Ret.ofRelease r.2)

/-- a call of the store's interface -/
inductive Op where
  | register (parent : ChainID) (diffID : DiffID) (f : RegisterFaults)
  | get (l : ChainID)
  | release (l : Handle) (fails : ℕ → Bool)
  | createRWLayer (name : String) (parent : ChainID) (initFunc : Bool) (f : CreateFaults)
  | getRWLayer (name : String)
  | releaseRWLayer (l : RWHandle) (f : ReleaseRWFaults)

/-- one call; `none` where it panics -/
def step (fromBytes : String → String) (ls : LayerStore) : Op → Option (LayerStore × Ret)
  | .register parent diffID f => ls.register fromBytes parent diffID f
  | .get l => some (ls.get l)
  | .release l fails => ls.release l fails
  | .createRWLayer name parent initFunc f => ls.createRWLayer name parent initFunc f
  | .getRWLayer name => some (ls.getRWLayer name)
  | .releaseRWLayer l f => ls.releaseRWLayer l f

/-- the calls in turn from the empty store; `none` if one panics -/
def run (fromBytes : String → String) (ops : List Op) : Option LayerStore :=
  Machine.runCalls (step fromBytes) empty ops

end LayerStore

end DockerEngine.Layer
