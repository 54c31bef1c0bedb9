/-
Chain IDs name layer chains, over every run of `LayerStore.step`.

`Keeps ls ls'`: `ls'` holds the same layer objects as `ls` up to their mutable fields (reference counts and
handles), and maps no chain ID that `ls` does not map. Every call but a successful `Register` keeps its store in this
sense, `releaseLayer` included. `ChainOK` is the invariant: each layer of `layerMap` is stored under its own chain
ID, that ID is `createChainID` of the diff IDs along its parent pointers, and the chain has at most `maxLayerDepth`
layers. It survives `Keeps` (`ChainOK.keeps`); the layer `Register` adds takes its chain ID from its parent's by
`createChainIDFromParent_append`, and passes the depth check.
-/
import DockerEngine.Layer.Store

namespace DockerEngine.Layer.LayerStore

/-! ## Calls that keep the layer objects -/

/-- the layer objects are the same up to their mutable fields, and `layerMap` only lost entries -/
structure Keeps (ls ls' : LayerStore) : Prop where
  shape : ∀ q, (ls'.heap.get q).map RoLayer.shape = (ls.heap.get q).map RoLayer.shape
  layerMap : ∀ c p, ls'.layerMap c = some p → ls.layerMap c = some p

theorem Keeps.refl (ls : LayerStore) : Keeps ls ls := ⟨fun _ => rfl, fun _ _ h => h⟩

theorem Keeps.trans {ls₁ ls₂ ls₃ : LayerStore} (h₁ : Keeps ls₁ ls₂) (h₂ : Keeps ls₂ ls₃) : Keeps ls₁ ls₃ :=
  ⟨fun q => (h₂.shape q).trans (h₁.shape q), fun c p h => h₁.layerMap c p (h₂.layerMap c p h)⟩

theorem keeps_modifyLayer (ls : LayerStore) (p : ℕ) (f : RoLayer → RoLayer) (hf : ∀ l : RoLayer, l.Same (f l)) :
    Keeps ls (ls.modifyLayer p f hf) := by
  refine ⟨fun q => ?_, fun _ _ h => h⟩
  simp only [modifyLayer, Heap.get_modify, Option.map_map]
  congr 1
  funext l
  simp only [Function.comp_apply]
  split
  · exact (hf l).shape_eq
  · rfl

theorem keeps_getWithoutLock {ls ls' : LayerStore} {c : ChainID} {p : ℕ} (h : ls.getWithoutLock c = some (ls', p)) :
    Keeps ls ls' ∧ ls.layerMap c = some p ∧ ls'.layerMap = ls.layerMap := by
  simp only [getWithoutLock, Option.map_eq_some_iff, Prod.mk.injEq] at h
  obtain ⟨p', hp, rfl, rfl⟩ := h
  exact ⟨keeps_modifyLayer _ _ _ _, hp, rfl⟩

/-- a change to the mounts or to the next handle keeps the layers -/
theorem keeps_of_heap_layerMap {ls ls' : LayerStore} (hh : ls'.heap = ls.heap) (hm : ls'.layerMap = ls.layerMap) :
    Keeps ls ls' :=
  ⟨fun _ => by rw [hh], fun _ _ h => by rwa [hm] at h⟩

theorem keeps_getReference (ls : LayerStore) (p : ℕ) (c : ChainID) : Keeps ls (ls.getReference p c).1 :=
  (keeps_modifyLayer ls p _ (RoLayer.same_addReference ls.nextRef)).trans (keeps_of_heap_layerMap rfl rfl)

theorem keeps_deleteMount (ls : LayerStore) (name : String) : Keeps ls (ls.deleteMount name) :=
  keeps_of_heap_layerMap rfl rfl

/-- removing the entry of `c` from `layerMap` keeps the layers -/
theorem keeps_erase (ls : LayerStore) (c : ChainID) :
    Keeps ls { ls with layerMap := Function.update ls.layerMap c none } := by
  refine ⟨fun _ => rfl, fun c' q hc => ?_⟩
  simp only [Function.update_apply] at hc
  split at hc
  · cases hc
  · exact hc

/-- the cascade of `releaseLayer` only changes counts and removes entries -/
theorem keeps_releaseLoop {fails : ℕ → Bool} {ls ls' : LayerStore} {p d : ℕ} {rm : List Metadata}
    {r : Except Err (List Metadata)} (h : releaseLoop fails ls p d rm = some (ls', r)) : Keeps ls ls' := by
  fun_induction releaseLoop fails ls p d rm with
  | case1 | case2 | case4 | case5 => cases h
  | case3 ls p d rm l _ _ ls₁ _ | case6 ls p d rm l _ _ ls₁ _ _ _ _ =>
    rw [← (Prod.mk.inj (Option.some.inj h)).1]
    exact keeps_modifyLayer _ _ _ _
  | case7 ls p d rm l _ _ ls₁ _ _ _ _ ls₂ rm₂ _ =>
    rw [← (Prod.mk.inj (Option.some.inj h)).1]
    exact (keeps_modifyLayer _ _ _ _).trans (keeps_erase _ _)
  | case8 ls p d rm l _ _ ls₁ _ _ _ _ ls₂ rm₂ q _ ih =>
    exact (keeps_modifyLayer _ _ _ _).trans ((keeps_erase _ _).trans (ih h))

theorem keeps_releaseLayer {fails : ℕ → Bool} {ls ls' : LayerStore} {p : ℕ} {r : Except Err (List Metadata)}
    (h : releaseLayer fails ls p = some (ls', r)) : Keeps ls ls' :=
  keeps_releaseLoop h

theorem keeps_get (ls : LayerStore) (c : ChainID) : Keeps ls (ls.get c).1 := by
  unfold get
  split
  · exact Keeps.refl ls
  · rename_i ls₁ p hg
    exact (keeps_getWithoutLock hg).1.trans (keeps_getReference ls₁ p c)

theorem keeps_release {ls ls' : LayerStore} {l : Handle} {fails : ℕ → Bool} {r : Ret}
    (h : ls.release l fails = some (ls', r)) : Keeps ls ls' := by
  unfold release at h
  split at h
  · cases h
    exact Keeps.refl ls
  · split at h
    · cases h
    · split at h
      · cases h
        exact Keeps.refl ls
      · obtain ⟨rel, hrel, hr⟩ := Option.map_eq_some_iff.mp h
        rw [← (Prod.mk.inj hr).1]
        exact (keeps_modifyLayer _ _ _ _).trans (keeps_releaseLayer hrel)

theorem keeps_createRWBody (ls : LayerStore) (name : String) (p : Option ℕ) (initFunc : Bool) (f : CreateFaults) :
    Keeps ls (ls.createRWBody name p initFunc f).1 := by
  unfold createRWBody
  split_ifs
  · exact Keeps.refl ls
  · exact Keeps.refl ls
  · exact keeps_of_heap_layerMap rfl rfl

theorem keeps_createRWLayer {ls ls' : LayerStore} {name : String} {parent : ChainID} {initFunc : Bool}
    {f : CreateFaults} {r : Ret} (h : ls.createRWLayer name parent initFunc f = some (ls', r)) : Keeps ls ls' := by
  unfold createRWLayer at h
  split_ifs at h
  · cases h
    exact Keeps.refl ls
  · cases h
    exact keeps_createRWBody _ _ _ _ _
  · split at h
    · cases h
      exact Keeps.refl ls
    · rename_i ls₁ q hg
      have hb := keeps_createRWBody ls₁ name (some q) initFunc f
      split at h
      · rename_i ls₂ r₂ hbody
        cases h
        rw [hbody] at hb
        exact (keeps_getWithoutLock hg).1.trans hb
      · rename_i ls₂ r₂ hbody
        obtain ⟨rel, hrel, hr⟩ := Option.map_eq_some_iff.mp h
        rw [← (Prod.mk.inj hr).1]
        rw [hbody] at hb
        exact (keeps_getWithoutLock hg).1.trans (hb.trans (keeps_releaseLayer hrel))

theorem keeps_getRWLayer (ls : LayerStore) (name : String) : Keeps ls (ls.getRWLayer name).1 := by
  unfold getRWLayer
  split
  · exact Keeps.refl ls
  · exact keeps_of_heap_layerMap rfl rfl

theorem keeps_releaseRWLayer {ls ls' : LayerStore} {l : RWHandle} {f : ReleaseRWFaults} {r : Ret}
    (h : ls.releaseRWLayer l f = some (ls', r)) : Keeps ls ls' := by
  unfold releaseRWLayer at h
  split at h
  · cases h
    exact Keeps.refl ls
  · dsimp only at h
    -- the early returns change only the mount
    split_ifs at h <;> try (cases h; exact keeps_of_heap_layerMap rfl rfl)
    split at h
    · cases h
      exact keeps_of_heap_layerMap rfl rfl
    · obtain ⟨rel, hrel, hr⟩ := Option.map_eq_some_iff.mp h
      rw [← (Prod.mk.inj hr).1]
      exact (keeps_deleteMount ls l.name).trans (keeps_releaseLayer hrel)

/-! ## The invariant -/

section Invariant

variable (fromBytes : String → String)

/-- each layer of `layerMap` is stored under its chain ID, which names the diff IDs of its chain, and the chain has
at most `maxLayerDepth` layers -/
def ChainOK (ls : LayerStore) : Prop :=
  ∀ c p, ls.layerMap c = some p → ∃ l, ls.heap.get p = some l ∧ l.chainID = c ∧
    c = createChainID fromBytes (ls.heap.diffIDs p) ∧ (ls.heap.diffIDs p).length ≤ maxLayerDepth

variable {fromBytes}

theorem chainOK_empty : ChainOK fromBytes empty := by
  intro c p h
  cases h

theorem ChainOK.keeps {ls ls' : LayerStore} (h : ChainOK fromBytes ls) (hk : Keeps ls ls') : ChainOK fromBytes ls' := by
  intro c p hc
  obtain ⟨l, hl, hlc, hid, hlen⟩ := h c p (hk.layerMap c p hc)
  obtain ⟨l', hl', hs⟩ : ∃ l', ls'.heap.get p = some l' ∧ l'.shape = l.shape := by
    simpa [hl] using hk.shape p
  have hd : ls'.heap.diffIDs p = ls.heap.diffIDs p := Heap.diffIDs_congr fun q _ => hk.shape q
  refine ⟨l', hl', ?_, by rw [hd]; exact hid, by rw [hd]; exact hlen⟩
  rw [← hlc]
  exact congrArg Prod.fst hs

/-- storing a freshly allocated layer under its chain ID -/
theorem ChainOK.insert {ls : LayerStore} (h : ChainOK fromBytes ls) {l : RoLayer} {heap : Heap}
    (ha : ls.heap.alloc l = some heap)
    (hc : l.chainID = createChainID fromBytes (heap.diffIDs ls.heap.objs.length))
    (hlen : (heap.diffIDs ls.heap.objs.length).length ≤ maxLayerDepth) :
    ChainOK fromBytes ⟨heap, Function.update ls.layerMap l.chainID (some ls.heap.objs.length), ls.mounts, ls.nextRef⟩ := by
  intro c p hcp
  simp only [Function.update_apply] at hcp
  split at hcp
  · -- the new layer
    rename_i heq
    cases hcp
    exact ⟨l, Heap.get_alloc_self ha, heq.symm, heq ▸ hc, hlen⟩
  · -- a layer stored before, below the new index
    obtain ⟨l', hl', hlc, hid, hlen'⟩ := h c p hcp
    have hp := Heap.get_lt hl'
    refine ⟨l', ?_, hlc, ?_, ?_⟩
    · rw [Heap.get_alloc_lt ha hp, hl']
    · rw [Heap.diffIDs_alloc_lt ha hp]
      exact hid
    · rw [Heap.diffIDs_alloc_lt ha hp]
      exact hlen'

/-- the layer `Register` stores names its chain -/
theorem ChainOK.insertLayer {ls ls₁ : LayerStore} {p : Option (ℕ × RoLayer)} {d : DiffID} (h : ChainOK fromBytes ls)
    (hp : ∀ q pl, p = some (q, pl) → ls.heap.get q = some pl ∧ ∃ c, ls.layerMap c = some q)
    (hdeep : ls.tooDeep p = false)
    (hi : ls.insertLayer ⟨newChainID fromBytes p d, d, p.map (·.1), 1, ∅⟩ = some ls₁) : ChainOK fromBytes ls₁ := by
  obtain ⟨heap, ha, rfl⟩ := Option.map_eq_some_iff.mp hi
  apply h.insert ha
  · cases p with
    | none =>
      rw [Heap.diffIDs_root (Heap.get_alloc_self ha) rfl]
      simp [newChainID]
    | some qp =>
      obtain ⟨q, pl⟩ := qp
      obtain ⟨hq, c, hc⟩ := hp q pl rfl
      obtain ⟨l, hl, hlc, hid, -⟩ := h c q hc
      have hpl : pl = l := Option.some.inj (hq.symm.trans hl)
      subst hpl
      -- the parent's chain ID names the parent's chain
      show createChainIDFromParent fromBytes pl.chainID [d] = _
      rw [Heap.diffIDs_alloc_child ha rfl, ← createChainID_append_singleton, ← hid, hlc]
  · cases p with
    | none =>
      rw [Heap.diffIDs_root (Heap.get_alloc_self ha) rfl, List.length_singleton]
      decide
    | some qp =>
      obtain ⟨q, pl⟩ := qp
      have hlt : ¬ maxLayerDepth ≤ ls.heap.depth q := by simpa [tooDeep] using hdeep
      have hlen : (ls.heap.diffIDs q).length < maxLayerDepth := by
        rw [← Heap.depth_eq_length]
        omega
      rw [Heap.diffIDs_alloc_child ha (q := q) rfl, List.length_append, List.length_singleton]
      omega

/-- `Register` once its parent, a layer of `layerMap`, is retained -/
theorem chainOK_registerBody {ls ls' : LayerStore} {p : Option (ℕ × RoLayer)} {d : DiffID} {f : RegisterFaults}
    {r : Ret} {b : Bool} (h : ChainOK fromBytes ls)
    (hp : ∀ q pl, p = some (q, pl) → ls.heap.get q = some pl ∧ ∃ c, ls.layerMap c = some q)
    (hr : registerBody fromBytes ls p d f = some (ls', r, b)) : ChainOK fromBytes ls' := by
  rcases registerBody_cases fromBytes hr with rfl | ⟨ls₁, e, he, rfl⟩ | ⟨hdeep, ls₁, hi, rfl⟩
  · exact h
  · exact (h.keeps (keeps_getWithoutLock he).1).keeps (keeps_getReference _ _ _)
  · exact (h.insertLayer hp hdeep hi).keeps (keeps_getReference _ _ _)

/-- `Register` keeps the invariant: on every path the parent it retains is a layer of `layerMap` -/
theorem chainOK_register {ls ls' : LayerStore} {parent : ChainID} {d : DiffID} {f : RegisterFaults} {r : Ret}
    (h : ChainOK fromBytes ls) (hr : ls.register fromBytes parent d f = some (ls', r)) : ChainOK fromBytes ls' := by
  unfold register at hr
  split at hr
  · -- no parent
    obtain ⟨⟨ls₁, r₁, b₁⟩, h₁, h₂⟩ := Option.map_eq_some_iff.mp hr
    rw [← (Prod.mk.inj h₂).1]
    exact chainOK_registerBody h (fun _ _ he => by cases he) h₁
  · split at hr
    · cases hr
      exact h
    · rename_i ls₁ q hg
      obtain ⟨hk, hq, hmap⟩ := keeps_getWithoutLock hg
      have h₁ := h.keeps hk
      split at hr
      · cases hr
      · rename_i pl hpl
        have hp : ∀ q' pl', some (q, pl) = some (q', pl') → ls₁.heap.get q' = some pl' ∧ ∃ c, ls₁.layerMap c = some q' := by
          intro q' pl' he
          cases he
          exact ⟨hpl, parent, by rw [hmap]; exact hq⟩
        split at hr
        · cases hr
        · rename_i ls₂ r₂ hb
          cases hr
          exact chainOK_registerBody h₁ hp hb
        · -- `err` is set: the parent is released
          rename_i ls₂ r₂ hb
          obtain ⟨rel, hrel, hr'⟩ := Option.map_eq_some_iff.mp hr
          rw [← (Prod.mk.inj hr').1]
          exact (chainOK_registerBody h₁ hp hb).keeps (keeps_releaseLayer hrel)

/-- every call keeps the invariant -/
theorem step_chainOK {ls ls' : LayerStore} {op : Op} {r : Ret} (h : ChainOK fromBytes ls)
    (hs : step fromBytes ls op = some (ls', r)) : ChainOK fromBytes ls' := by
  cases op with
  | register parent d f => exact chainOK_register h hs
  | get c =>
    rw [← show (ls.get c).1 = ls' by rw [Option.some.inj hs]]
    exact h.keeps (keeps_get ls c)
  | release l fails => exact h.keeps (keeps_release hs)
  | createRWLayer name parent initFunc f => exact h.keeps (keeps_createRWLayer hs)
  | getRWLayer name =>
    rw [← show (ls.getRWLayer name).1 = ls' by rw [Option.some.inj hs]]
    exact h.keeps (keeps_getRWLayer ls name)
  | releaseRWLayer l f => exact h.keeps (keeps_releaseRWLayer hs)

theorem run_chainOK {ops : List Op} {ls : LayerStore} (h : run fromBytes ops = some ls) : ChainOK fromBytes ls :=
  Machine.runCalls_inv (step fromBytes) (ChainOK fromBytes) (fun _ _ _ _ => step_chainOK) chainOK_empty h

end Invariant

/-- in every store the calls reach, each layer of `layerMap` is stored under its chain ID, which is `CreateChainID` of
the diff IDs of its chain from the root down, and the chain has at most `maxLayerDepth` layers; chain IDs can be
computed incrementally from a parent's -/
theorem chainID_names_chain (fromBytes : String → String) (ops : List Op) (ls : LayerStore)
    (h : run fromBytes ops = some ls) :
    (∀ c p, ls.layerMap c = some p → ∃ l, ls.heap.get p = some l ∧ l.chainID = c ∧
      c = createChainID fromBytes (ls.heap.diffIDs p) ∧ (ls.heap.diffIDs p).length ≤ maxLayerDepth) ∧
    ∀ (p : ChainID) (xs ys : List DiffID),
      createChainIDFromParent fromBytes (createChainIDFromParent fromBytes p xs) ys =
        createChainIDFromParent fromBytes p (xs ++ ys) :=
  ⟨run_chainOK h, createChainIDFromParent_append fromBytes⟩

/-- a layer `"a"` and a layer `"b"` on it, with `digest.FromBytes` appending a mark: the second is stored under
`CreateChainID(["a", "b"])` -/
theorem chainID_names_chain_ab :
    let ls := (run (· ++ "!") [.register "" "a" ⟨false, false, false, false, false, fun _ => false⟩,
      .register "a" "b" ⟨false, false, false, false, false, fun _ => false⟩]).get (by decide +kernel)
    ls.heap.diffIDs 1 = ["a", "b"] ∧ "a b!" = createChainID (· ++ "!") ["a", "b"] := by
  intro ls
  obtain ⟨hstored, -⟩ := chainID_names_chain _ _ ls (Option.some_get _).symm
  obtain ⟨l, -, -, hc, -⟩ := hstored "a b!" 1 (by decide +kernel)
  have hd : ls.heap.diffIDs 1 = ["a", "b"] := by decide +kernel
  exact ⟨hd, hd ▸ hc⟩

end DockerEngine.Layer.LayerStore
