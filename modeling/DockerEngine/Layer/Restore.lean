/-
Lean model of `NewStoreFromGraphDriver` in `layer/layer_store.go`: the store it restores from a metadata store, with
`loadLayer` and `loadMount`.

The metadata store is given as what its calls return: `List` returns `ids` and `mountNames` in its own order, and the
getters return what `layers` and `mounts` hold (a getter of a layer or a mount they hold nothing of fails). Any call
may fail besides: the calls take their outcomes in turn from a stream `faults`, where `true` fails the call, and every
call after the end of the stream succeeds. `loadLayer` recurses on the parent before it stores a layer; its fuel is
one more than the number of layers the store holds, which a chain of distinct layers never exhausts, and `none` stands
for the stack overflow of a parent chain with a cycle.

The restored counts: `restoreLayers` retains the parent of every layer that its own round of the loop over `ids`
loads, and `loadMount` the parent of every mount. A layer that fails to load in its own round and is loaded later as
the parent of another is in `layerMap` without its parent being retained for it (`restore_release_panics`).
-/
import DockerEngine.Layer.Store

namespace DockerEngine.Layer

/-- a `MetadataStore` as `NewStoreFromGraphDriver` reads it: what `List` returns, the diff ID and parent (`""` for none)
of each layer (`GetDiffID`, `GetParent`), and for each mount whether its init ID is set and its parent
(`GetInitID`, `GetMountParent`) -/
structure MetadataStore where
  ids : List ChainID
  mountNames : List String
  layers : List (ChainID × DiffID × ChainID)
  mounts : List (String × Bool × ChainID)

/-- `n` calls to the metadata store in turn: whether all succeed, and the outcomes left after the last one made -/
def calls : ℕ → List Bool → Bool × List Bool
  | 0, faults => (true, faults)
  | n + 1, faults => if faults.headD false then (false, faults.tail) else calls n faults.tail

namespace LayerStore

variable (md : MetadataStore)

/-- `ls.loadLayer(layer)`: the heap index of the layer, loaded with its parents if `layerMap` lacks it -/
def loadLayer : ℕ → LayerStore → List Bool → ChainID → Option (LayerStore × List Bool × Except Err ℕ)
  | 0, _, _, _ => none
  | fuel + 1, ls, faults, layer =>
    match ls.layerMap layer with
    | some p => some (ls, faults, .ok p)
    | none =>
      match md.layers.lookup layer with
      -- `GetDiffID` fails
      | none => some (ls, faults.tail, .error .failed)
      | some (diff, parent) =>
        -- `GetDiffID`, `GetSize`, `GetCacheID` and `GetParent`
        match calls 4 faults with
        | (false, faults) => some (ls, faults, .error .failed)
        | (true, faults) =>
          if parent = "" then
            (ls.insertLayer ⟨layer, diff, none, 0, ∅⟩).map fun ls' => (ls', faults, .ok ls.heap.objs.length)
          else
            match loadLayer fuel ls faults parent with
            | none => none
            | some (ls, faults, .error e) => some (ls, faults, .error e)
            | some (ls, faults, .ok p) =>
              (ls.insertLayer ⟨layer, diff, some p, 0, ∅⟩).map fun ls' => (ls', faults, .ok ls.heap.objs.length)

/-- `ls.loadMount(mount)` -/
def loadMount (fuel : ℕ) (ls : LayerStore) (faults : List Bool) (mount : String) :
    Option (LayerStore × List Bool × Except Err Unit) :=
  if (ls.lookupMount mount).isSome then some (ls, faults, .ok ())
  else
    match md.mounts.lookup mount with
    -- `GetMountID` fails
    | none => some (ls, faults.tail, .error .failed)
    | some (initSet, parent) =>
      -- `GetMountID`, `GetInitID` and `GetMountParent`
      match calls 3 faults with
      | (false, faults) => some (ls, faults, .error .failed)
      | (true, faults) =>
        if parent = "" then some (ls.setMount ⟨mount, none, initSet, ∅⟩, faults, .ok ())
        else
          match loadLayer md fuel ls faults parent with
          | none => none
          | some (ls, faults, .error e) => some (ls, faults, .error e)
          | some (ls, faults, .ok p) =>
            -- `p.referenceCount++`
            some ((ls.modifyLayer p RoLayer.retain RoLayer.same_retain).setMount ⟨mount, some p, initSet, ∅⟩,
              faults, .ok ())

/-- the loop of `NewStoreFromGraphDriver` over `ids`: a layer that fails to load is skipped, and the parent of one
that loads is retained -/
def restoreLayers (fuel : ℕ) : LayerStore → List Bool → List ChainID → Option (LayerStore × List Bool)
  | ls, faults, [] => some (ls, faults)
  | ls, faults, id :: ids =>
    match loadLayer md fuel ls faults id with
    | none => none
    | some (ls, faults, .error _) => restoreLayers fuel ls faults ids
    | some (ls, faults, .ok p) =>
      match ls.heap.get p with
      | none => none
      | some l =>
        match l.parent with
        | none => restoreLayers fuel ls faults ids
        -- `l.parent.referenceCount++`
        | some q => restoreLayers fuel (ls.modifyLayer q RoLayer.retain RoLayer.same_retain) faults ids

/-- the loop of `NewStoreFromGraphDriver` over the mounts: a mount that fails to load is skipped -/
def restoreMounts (fuel : ℕ) : LayerStore → List Bool → List String → Option (LayerStore × List Bool)
  | ls, faults, [] => some (ls, faults)
  | ls, faults, mount :: mounts =>
    match loadMount md fuel ls faults mount with
    | none => none
    | some (ls, faults, _) => restoreMounts fuel ls faults mounts

end LayerStore

open LayerStore

/-- `NewStoreFromGraphDriver(store, driver)`: the error of `store.List()`, or the restored store -/
def newStoreFromGraphDriver (md : MetadataStore) (faults : List Bool) : Option (Except Err LayerStore) :=
  if faults.headD false then some (.error .failed)
  else
    let fuel := md.layers.length + 1
    match restoreLayers md fuel empty faults.tail md.ids with
    | none => none
    | some (ls, faults) => (restoreMounts md fuel ls faults md.mountNames).map fun r => .ok r.1

/-- three layers, `x` the parent of `y` and `y` the parent of `z`, listed from the root down -/
def chainMetadata : MetadataStore :=
  ⟨["x", "y", "z"], [], [("x", "dx", ""), ("y", "dy", "x"), ("z", "dz", "y")], []⟩

/-- restoring `x ← y ← z` when the first call for `y` fails in its own round: `y` is loaded later, as the parent of
`z`, but `x` is never retained for it, so `x` keeps count 0 with its child `y` in `layerMap`, and releasing a handle of
`z` reaches `x` in the cascade of `releaseLayer`, which panics ("layer not retained"); restored without the failure,
`x` has count 1 and the same calls succeed -/
theorem restore_release_panics :
    ((newStoreFromGraphDriver chainMetadata [false, false, false, false, false, true]).map fun r => r.map fun ls =>
        ((ls.heap.get 0).map (·.referenceCount), ls.layerMap "y", (ls.heap.get 1).bind (·.parent),
          (Machine.runCalls (step id) ls [.get "z", .release ⟨0, "z"⟩ fun _ => false]).isSome)) =
      some (.ok (some 0, some 1, some 0, false)) ∧
    ((newStoreFromGraphDriver chainMetadata []).map fun r => r.map fun ls =>
        ((ls.heap.get 0).map (·.referenceCount),
          (Machine.runCalls (step id) ls [.get "z", .release ⟨0, "z"⟩ fun _ => false]).isSome)) =
      some (.ok (some 1, true)) := by
  constructor <;> decide +kernel

end DockerEngine.Layer
