/-
Lean model of the reference store of `reference/store.go`: the tags and digests of images, held twice, in
`Repositories` (repository name, then reference string, to image ID) and in `referencesByIDCache` (image ID, then
reference string, to the reference).

`Inv` says that the cache is the inverse of the repositories and that no inner map is empty. `addTag`, `addDigest` and
`delete` keep it (`Inv.step`), so every run of them from `NewReferenceStore` does (`run_inv`), and then `References`
lists, sorted and once each, exactly the tags and digests that `Get` resolves to the image (`mem_references_iff_get`).
A name without a tag is not among them, though `Get` resolves it through its `latest` tag.

Saving to and reloading from the JSON file are not modelled: `save` is taken to succeed, and the store starts empty.
-/
import Mathlib.Tactic
import Mathlib.Data.Char
import Mathlib.Data.List.Lex
import Mathlib.Data.List.Sort
import DockerEngine.Go.Strings
import DockerEngine.Lib.Machine
import DockerEngine.Lib.NestedMap

namespace DockerEngine.Reference

open DockerEngine.Go DockerEngine.NestedMap

/-- `image.ID`, by its string -/
abbrev ImageID := Text

/-- `DefaultTag` -/
def defaultTag : Text := "latest".toList

/-- `digest.Canonical`, the name of the digest algorithm -/
def digestCanonical : Text := "sha256".toList

/-- the three implementations of `Named`: a repository name, a name with a tag, and a name with a digest -/
inductive Named
  | namedRef (name : Text)
  | taggedRef (name tag : Text)
  | canonicalRef (name dgst : Text)
  deriving DecidableEq, Repr

namespace Named

/-- `Name()` -/
def name : Named → Text
  | namedRef name | taggedRef name _ | canonicalRef name _ => name

/-- `String()` -/
def string : Named → Text
  | namedRef name => name
  | taggedRef name tag => name ++ ':' :: tag
  | canonicalRef name dgst => name ++ '@' :: dgst

/-- whether the reference is a `Canonical` -/
def isCanonical : Named → Bool
  | canonicalRef .. => true
  | _ => false

/-- `IsNameOnly(ref)`: neither a `NamedTagged` nor a `Canonical` -/
def isNameOnly : Named → Bool
  | namedRef _ => true
  | _ => false

/-- `WithDefaultTag(ref)` -/
def withDefaultTag (ref : Named) : Named := if ref.isNameOnly then taggedRef ref.name defaultTag else ref

/-- what the grammar of `distribution/reference` guarantees of the parts of every reference it builds, as far as the
store depends on it: a name (`anchoredNameRegexp`) and a digest (`DigestRegexp`) have no `@`, and a tag (`TagRegexp`)
has neither `:` nor `@` -/
def Valid : Named → Prop
  | namedRef name => '@' ∉ name
  | taggedRef name tag => '@' ∉ name ∧ ':' ∉ tag ∧ '@' ∉ tag
  | canonicalRef name dgst => '@' ∉ name ∧ '@' ∉ dgst

instance : DecidablePred Valid := fun ref => by
  cases ref <;> unfold Valid <;> infer_instance

@[simp] theorem isNameOnly_withDefaultTag (ref : Named) : ref.withDefaultTag.isNameOnly = false := by
  cases ref <;> rfl

theorem withDefaultTag_of_isNameOnly {ref : Named} (h : ref.isNameOnly = false) : ref.withDefaultTag = ref := by
  simp [withDefaultTag, h]

@[simp] theorem withDefaultTag_withDefaultTag (ref : Named) : ref.withDefaultTag.withDefaultTag = ref.withDefaultTag :=
  withDefaultTag_of_isNameOnly (isNameOnly_withDefaultTag ref)

@[simp] theorem name_withDefaultTag (ref : Named) : ref.withDefaultTag.name = ref.name := by
  cases ref <;> rfl

theorem Valid.withDefaultTag {ref : Named} (h : ref.Valid) : ref.withDefaultTag.Valid := by
  cases ref with
  | namedRef name => exact ⟨h, by decide, by decide⟩
  | taggedRef | canonicalRef => exact h

/-- a string splits in one way only at the last occurrence of a separator -/
theorem append_cons_cancel_of_notMem {α : Type} {c : α} {x₁ x₂ z₁ z₂ : List α} (h₁ : c ∉ z₁) (h₂ : c ∉ z₂)
    (h : x₁ ++ c :: z₁ = x₂ ++ c :: z₂) : x₁ = x₂ ∧ z₁ = z₂ := by
  induction x₁ generalizing x₂ with
  | nil =>
    cases x₂ with
    | nil => exact ⟨rfl, List.cons.inj h |>.2⟩
    | cons y x₂ =>
      -- the separator would occur in `z₁`
      obtain ⟨rfl, rfl⟩ := List.cons.inj h
      simp at h₁
  | cons x x₁ ih =>
    cases x₂ with
    | nil =>
      obtain ⟨rfl, rfl⟩ := List.cons.inj h
      simp at h₂
    | cons y x₂ =>
      rw [List.cons_append, List.cons_append, List.cons.injEq] at h
      obtain ⟨rfl, htail⟩ := h
      obtain ⟨rfl, rfl⟩ := ih htail
      exact ⟨rfl, rfl⟩

/-- the string of a tag has no `@`, that of a digest has one -/
theorem string_tagged_ne_canonical {name tag name' dgst : Text} (h : (taggedRef name tag).Valid) :
    (taggedRef name tag).string ≠ (canonicalRef name' dgst).string := by
  intro heq
  have hmem : '@' ∈ (canonicalRef name' dgst).string := by simp [string]
  rw [← heq] at hmem
  simp [string, h.1, h.2.2] at hmem

/-- `String()` tells apart the tags and digests the grammar builds -/
theorem string_inj {ref ref' : Named} (hv : ref.Valid) (hv' : ref'.Valid) (hn : ref.isNameOnly = false)
    (hn' : ref'.isNameOnly = false) (h : ref.string = ref'.string) : ref = ref' := by
  cases ref with
  | namedRef => cases hn
  | taggedRef name tag =>
    cases ref' with
    | namedRef => cases hn'
    | taggedRef name' tag' =>
      -- a tag has no `:`, so the last `:` ends the name
      obtain ⟨rfl, rfl⟩ := append_cons_cancel_of_notMem hv.2.1 hv'.2.1 h
      rfl
    | canonicalRef => exact absurd h (string_tagged_ne_canonical hv)
  | canonicalRef name dgst =>
    cases ref' with
    | namedRef => cases hn'
    | taggedRef => exact absurd h.symm (string_tagged_ne_canonical hv')
    | canonicalRef name' dgst' =>
      -- a digest has no `@`, so the last `@` ends the name
      obtain ⟨rfl, rfl⟩ := append_cons_cancel_of_notMem hv.2 hv'.2 h
      rfl

end Named

open Named

/-! ## The store -/

/-- `store`: `Repositories` and `referencesByIDCache` -/
structure Store where
  repositories : Map2 Text Text ImageID
  referencesByIDCache : Map2 ImageID Text Named

/-- `NewReferenceStore` of a path with no JSON file yet -/
def newReferenceStore : Store := ⟨∅, ∅⟩

/-- `ErrDoesNotExist` -/
def errDoesNotExist : Text := "reference does not exist".toList

/-- the end of `addReference`: `repository[refStr] = id` and `store.referencesByIDCache[id][refStr] = ref` -/
def setReference (store : Store) (ref : Named) (id : ImageID) : Store :=
  ⟨insert2 ref.name ref.string id store.repositories, insert2 id ref.string ref store.referencesByIDCache⟩

/-- `store.addReference(ref, id, force)`, with the error it returns -/
def addReference (store : Store) (ref : Named) (id : ImageID) (force : Bool) : Store × Option Text :=
  if ref.name = digestCanonical then
    (store, some "refusing to create an ambiguous tag using digest algorithm as name".toList)
  else
    -- a missing repository is created before the checks
    let store := { store with repositories := ensure ref.name store.repositories }
    let refStr := ref.string
    match lookup2 ref.name refStr store.repositories with
    | none => (setReference store ref id, none)
    | some oldID =>
      match ref with
      -- force only works for tags
      | .canonicalRef _ dgst => (store, some ("Cannot overwrite digest ".toList ++ dgst))
      | _ =>
        if !force then
          (store, some ("Conflict: Tag ".toList ++ ref.string ++ " is already set to image ".toList ++ oldID ++
            ", if you want to replace it, please use -f option".toList))
        else
          (setReference { store with referencesByIDCache := erase2 oldID refStr store.referencesByIDCache } ref id,
            none)

/-- `store.AddTag(ref, id, force)` -/
def addTag (store : Store) (ref : Named) (id : ImageID) (force : Bool) : Store × Option Text :=
  if ref.isCanonical then (store, some "refusing to create a tag with a digest reference".toList)
  else addReference store ref.withDefaultTag id force

/-- `store.AddDigest(ref, id, force)`, for the `Canonical` `ref` of `name` and `dgst` -/
def addDigest (store : Store) (name dgst : Text) (id : ImageID) (force : Bool) : Store × Option Text :=
  addReference store (.canonicalRef name dgst) id force

/-- `store.Delete(ref)`: whether a reference was deleted, and the error -/
def delete (store : Store) (ref : Named) : Store × Bool × Option Text :=
  let ref := ref.withDefaultTag
  match store.repositories.lookup ref.name with
  | none => (store, false, some errDoesNotExist)
  | some repository =>
    match repository.lookup ref.string with
    | some id =>
      (⟨erase2 ref.name ref.string store.repositories, erase2 id ref.string store.referencesByIDCache⟩, true, none)
    | none => (store, false, some errDoesNotExist)

/-- `store.Get(ref)` -/
def get (store : Store) (ref : Named) : Except Text ImageID :=
  let ref := ref.withDefaultTag
  match lookup2 ref.name ref.string store.repositories with
  | some id => .ok id
  | none => .error errDoesNotExist

/-- the loop of `store.References(id)` over `store.referencesByIDCache[id]` -/
def cachedReferences (store : Store) (id : ImageID) : List Named :=
  ((store.referencesByIDCache.lookup id).map fun m => m.entries.map Sigma.snd).getD []

/-- `store.References(id)`: the cached references of `id`, sorted by `String()`. `sort.Sort` is not stable, but the
strings of the references of one ID are their distinct keys, so every sort gives the same list. -/
def references (store : Store) (id : ImageID) : List Named :=
  (cachedReferences store id).insertionSort fun a b => a.string ≤ b.string

/-! ## Runs -/

/-- the calls that change the store -/
inductive Op
  | addTag (ref : Named) (id : ImageID) (force : Bool)
  | addDigest (name dgst : Text) (id : ImageID) (force : Bool)
  | delete (ref : Named)
  deriving DecidableEq, Repr

/-- what the calls return -/
inductive Ret
  | added (err : Option Text)
  | deleted (ok : Bool) (err : Option Text)
  deriving DecidableEq, Repr

def step (store : Store) : Op → Store × Ret
  | .addTag ref id force => let r := addTag store ref id force; (r.1, .added r.2)
  | .addDigest name dgst id force => let r := addDigest store name dgst id force; (r.1, .added r.2)
  | .delete ref => let r := delete store ref; (r.1, .deleted r.2.1 r.2.2)

/-- the references of the calls are ones the grammar builds -/
def Op.Valid : Op → Prop
  | .addTag ref _ _ => ref.Valid
  | .addDigest name dgst _ _ => (canonicalRef name dgst).Valid
  | .delete _ => True

instance : DecidablePred Op.Valid := fun op => by
  cases op <;> unfold Op.Valid <;> infer_instance

/-- the calls `ops` in turn, from a new store -/
def run (ops : List Op) : Option Store := Machine.runCalls (fun store op => some (step store op)) newReferenceStore ops

/-! ## Failed calls -/

/-- a repository is created only where none is, so an `addReference` that fails leaves the store as it was -/
theorem addReference_error {store store' : Store} {ref : Named} {id : ImageID} {force : Bool} {e : Text}
    (h : addReference store ref id force = (store', some e)) : store' = store := by
  unfold addReference at h
  by_cases hname : ref.name = digestCanonical
  · rw [if_pos hname] at h
    exact (Prod.mk.inj h).1.symm
  · rw [if_neg hname] at h
    dsimp only at h
    split at h
    · cases h
    · rename_i oldID hold
      -- the reference is in its repository, which therefore existed
      have hrepo : ensure ref.name store.repositories = store.repositories := by
        rw [lookup2_ensure, lookup2, Option.bind_eq_some_iff] at hold
        obtain ⟨repository, hrepo, _⟩ := hold
        exact ensure_of_lookup hrepo
      rw [hrepo] at h
      split at h
      · exact (Prod.mk.inj h).1.symm
      · cases force
        · exact (Prod.mk.inj h).1.symm
        · cases h

theorem addTag_error {store store' : Store} {ref : Named} {id : ImageID} {force : Bool} {e : Text}
    (h : addTag store ref id force = (store', some e)) : store' = store := by
  unfold addTag at h
  split_ifs at h
  · exact (Prod.mk.inj h).1.symm
  · exact addReference_error h

/-- a call that adds and fails leaves the store as it was -/
theorem step_added_error {store store' : Store} {op : Op} {e : Text} (h : step store op = (store', .added (some e))) :
    store' = store := by
  cases op with
  | addTag ref id force =>
    simp only [step, Prod.mk.injEq, Ret.added.injEq] at h
    exact addTag_error (Prod.ext h.1 h.2)
  | addDigest name dgst id force =>
    simp only [step, Prod.mk.injEq, Ret.added.injEq] at h
    exact addReference_error (Prod.ext h.1 h.2)
  | delete ref => simp [step] at h

/-! ## The invariant -/

/-- the cache is the inverse of the repositories, and neither has an empty inner map -/
structure Inv (store : Store) : Prop where
  repositories_noEmpty : NoEmpty store.repositories
  cache_noEmpty : NoEmpty store.referencesByIDCache
  /-- every cached reference is stored, under its own string, and is a tag or a digest that the grammar builds -/
  cached : ∀ id k ref, lookup2 id k store.referencesByIDCache = some ref →
    ref.string = k ∧ lookup2 ref.name k store.repositories = some id ∧ ref.Valid ∧ ref.isNameOnly = false
  /-- every stored reference is cached -/
  stored : ∀ name k id, lookup2 name k store.repositories = some id →
    ∃ ref, lookup2 id k store.referencesByIDCache = some ref ∧ ref.name = name

theorem inv_newReferenceStore : Inv newReferenceStore where
  repositories_noEmpty := noEmpty_empty
  cache_noEmpty := noEmpty_empty
  cached _ _ _ h := by simp [newReferenceStore, lookup2] at h
  stored _ _ _ h := by simp [newReferenceStore, lookup2] at h

section SetReference

variable {store : Store} (h : Inv store) {ref : Named} (hv : ref.Valid) (hn : ref.isNameOnly = false)
include h hv hn

/-- the cached references under the key of `ref` are `ref`, stored under its name -/
theorem Inv.cached_key {id : ImageID} {ref' : Named} (hc : lookup2 id ref.string store.referencesByIDCache = some ref') :
    ref' = ref ∧ lookup2 ref.name ref.string store.repositories = some id := by
  obtain ⟨hs, hrepo, hv', hn'⟩ := h.cached _ _ _ hc
  have heq : ref' = ref := string_inj hv' hv hn' hn hs
  subst heq
  exact ⟨rfl, hrepo⟩

/-- `setReference` restores the invariant from a cache that holds nothing under the key of `ref` and keeps the rest of
the inverse -/
theorem Inv.setReference_of (id : ImageID) {cache₀ : Map2 ImageID Text Named} (hne : NoEmpty cache₀)
    (hsub : ∀ id' k ref', lookup2 id' k cache₀ = some ref' → lookup2 id' k store.referencesByIDCache = some ref')
    (hkey : ∀ id', lookup2 id' ref.string cache₀ = none)
    (hstored : ∀ name k id', lookup2 name k store.repositories = some id' → ¬(name = ref.name ∧ k = ref.string) →
      ∃ ref', lookup2 id' k cache₀ = some ref' ∧ ref'.name = name) :
    Inv (setReference ⟨store.repositories, cache₀⟩ ref id) where
  repositories_noEmpty := h.repositories_noEmpty.insert2 _ _ _
  cache_noEmpty := hne.insert2 _ _ _
  cached id' k ref' hc := by
    simp only [setReference, lookup2_insert2] at hc ⊢
    split_ifs at hc with hkey'
    · -- the new entry
      obtain ⟨rfl, rfl⟩ := hkey'
      cases hc
      simp [hv, hn]
    · obtain ⟨hs, hrepo, hv', hn'⟩ := h.cached _ _ _ (hsub _ _ _ hc)
      refine ⟨hs, ?_, hv', hn'⟩
      rw [if_neg]
      · exact hrepo
      · rintro ⟨-, rfl⟩
        rw [hkey] at hc
        cases hc
  stored name k id' hs := by
    simp only [setReference, lookup2_insert2] at hs ⊢
    split_ifs at hs with hnk
    · obtain ⟨rfl, rfl⟩ := hnk
      cases hs
      exact ⟨ref, by simp, rfl⟩
    · obtain ⟨ref', hc, hname⟩ := hstored name k id' hs hnk
      refine ⟨ref', ?_, hname⟩
      rw [if_neg]
      · exact hc
      · rintro ⟨-, rfl⟩
        rw [hkey] at hc
        cases hc

/-- adding a reference that is not stored -/
theorem Inv.setReference_new (id : ImageID) (hnone : lookup2 ref.name ref.string store.repositories = none) :
    Inv (setReference store ref id) := by
  refine h.setReference_of hv hn id h.cache_noEmpty (fun _ _ _ hc => hc) ?_ ?_
  · intro id'
    cases hc : lookup2 id' ref.string store.referencesByIDCache with
    | none => rfl
    | some ref' =>
      have := (h.cached_key hv hn hc).2
      rw [hnone] at this
      cases this
  · intro name k id' hs _
    exact h.stored name k id' hs

/-- moving a stored tag to another image: its entry in the cache of the old image is deleted first -/
theorem Inv.setReference_moved (id : ImageID) {oldID : ImageID}
    (hold : lookup2 ref.name ref.string store.repositories = some oldID) :
    Inv (setReference { store with referencesByIDCache := erase2 oldID ref.string store.referencesByIDCache } ref id) := by
  refine h.setReference_of hv hn id (h.cache_noEmpty.erase2 _ _) ?_ ?_ ?_
  · intro id' k ref' hc
    rw [lookup2_erase2] at hc
    split_ifs at hc
    exact hc
  · intro id'
    rw [lookup2_erase2]
    split_ifs with hk
    · rfl
    · -- the only cached reference under the key is `ref`, cached for `oldID`
      cases hc : lookup2 id' ref.string store.referencesByIDCache with
      | none => rfl
      | some ref' =>
        have := (h.cached_key hv hn hc).2
        rw [hold] at this
        cases this
        exact absurd ⟨rfl, rfl⟩ hk
  · intro name k id' hs hnk
    obtain ⟨ref', hc, hname⟩ := h.stored name k id' hs
    refine ⟨ref', ?_, hname⟩
    rw [lookup2_erase2, if_neg]
    · exact hc
    · rintro ⟨-, rfl⟩
      obtain ⟨rfl, -⟩ := h.cached_key hv hn hc
      exact hnk ⟨hname.symm, rfl⟩

end SetReference

theorem Inv.addReference {store : Store} (h : Inv store) {ref : Named} (hv : ref.Valid) (hn : ref.isNameOnly = false)
    (id : ImageID) (force : Bool) : Inv (addReference store ref id force).1 := by
  unfold DockerEngine.Reference.addReference
  by_cases hname : ref.name = digestCanonical
  · rw [if_pos hname]
    exact h
  · rw [if_neg hname]
    dsimp only
    rw [lookup2_ensure]
    split
    · rename_i hnone
      simp only [setReference, insert2_ensure]
      exact h.setReference_new hv hn id hnone
    · rename_i oldID hold
      have hrepo : ensure ref.name store.repositories = store.repositories := by
        rw [lookup2, Option.bind_eq_some_iff] at hold
        obtain ⟨repository, hrepo, _⟩ := hold
        exact ensure_of_lookup hrepo
      simp only [hrepo]
      split
      · exact h
      · cases force
        · exact h
        · exact h.setReference_moved hv hn id hold

theorem Inv.delete {store : Store} (h : Inv store) (ref : Named) : Inv (delete store ref).1 := by
  unfold DockerEngine.Reference.delete
  dsimp only
  split
  · exact h
  · rename_i repository hrepo
    split
    · rename_i id hid
      set r := ref.withDefaultTag
      have hs : lookup2 r.name r.string store.repositories = some id := by simp [lookup2, hrepo, hid]
      -- the entry of the reference in the cache, deleted with it
      obtain ⟨ref₀, hc₀, hname₀⟩ := h.stored _ _ _ hs
      exact {
        repositories_noEmpty := h.repositories_noEmpty.erase2 _ _
        cache_noEmpty := h.cache_noEmpty.erase2 _ _
        cached := by
          intro id' k ref' hc
          rw [lookup2_erase2] at hc ⊢
          split_ifs at hc with hk
          obtain ⟨hs', hrepo', hv', hn'⟩ := h.cached _ _ _ hc
          refine ⟨hs', ?_, hv', hn'⟩
          rw [if_neg]
          · exact hrepo'
          · rintro ⟨hname, rfl⟩
            rw [hname, hs] at hrepo'
            exact hk ⟨(Option.some.inj hrepo').symm, rfl⟩
        stored := by
          intro name k id' hs'
          rw [lookup2_erase2] at hs' ⊢
          split_ifs at hs' with hnk
          obtain ⟨ref', hc, hname⟩ := h.stored _ _ _ hs'
          refine ⟨ref', ?_, hname⟩
          rw [if_neg]
          · exact hc
          · rintro ⟨rfl, rfl⟩
            rw [hc₀] at hc
            cases hc
            exact hnk ⟨hname.symm.trans hname₀, rfl⟩ }
    · exact h

/-- every call whose references the grammar builds keeps the invariant -/
theorem Inv.step {store : Store} (h : Inv store) {op : Op} (hop : op.Valid) : Inv (step store op).1 := by
  cases op with
  | addTag ref id force =>
    have hv : ref.Valid := hop
    show Inv (addTag store ref id force).1
    unfold addTag
    split
    · exact h
    · exact h.addReference hv.withDefaultTag (isNameOnly_withDefaultTag ref) id force
  | addDigest name dgst id force =>
    have hv : (canonicalRef name dgst).Valid := hop
    exact h.addReference hv rfl id force
  | delete ref => exact h.delete ref

theorem run_isSome (ops : List Op) : (run ops).isSome :=
  Machine.runCalls_isSome _ (fun _ _ => rfl) _ ops

theorem run_inv {ops : List Op} (hops : ∀ op ∈ ops, op.Valid) {store : Store} (h : run ops = some store) :
    Inv store :=
  Machine.runCalls_inv_of _ Op.Valid Inv
    (fun _ _ _ _ hs hop hc => by
      obtain ⟨rfl, -⟩ := Prod.mk.inj (Option.some.inj hc)
      exact hs.step hop)
    inv_newReferenceStore hops h

/-! ## `References` and `Get` -/

/-- the references of an image are its cached ones -/
theorem mem_references {store : Store} {id : ImageID} {ref : Named} :
    ref ∈ references store id ↔ ∃ k, lookup2 id k store.referencesByIDCache = some ref := by
  unfold references cachedReferences
  rw [List.mem_insertionSort]
  cases hm : store.referencesByIDCache.lookup id with
  | none => simp [lookup2, hm]
  | some refs => simp [lookup2, hm, mem_values]

/-- the strings of the references of an image are the keys they are cached under -/
theorem Inv.map_string_cachedReferences {store : Store} (h : Inv store) (id : ImageID) :
    (cachedReferences store id).map string = ((store.referencesByIDCache.lookup id).map AList.keys).getD [] := by
  unfold cachedReferences
  cases hm : store.referencesByIDCache.lookup id with
  | none => rfl
  | some refs =>
    simp only [Option.map_some, Option.getD_some, List.map_map, AList.keys, List.keys]
    apply List.map_congr_left
    rintro ⟨k, ref⟩ hmem
    have hc : lookup2 id k store.referencesByIDCache = some ref := by
      rw [lookup2, hm, Option.bind_some]
      exact AList.mem_lookup_iff.mpr hmem
    exact (h.cached _ _ _ hc).1

/-- `References` is sorted by `String()`, and no two of its references have one string -/
theorem Inv.references_sorted {store : Store} (h : Inv store) (id : ImageID) :
    (references store id).Pairwise fun a b => a.string < b.string := by
  let le : Named → Named → Prop := fun a b => a.string ≤ b.string
  have : Std.Total le := ⟨fun a b => le_total a.string b.string⟩
  have : IsTrans Named le := ⟨fun _ _ _ => le_trans⟩
  have hsorted := List.pairwise_insertionSort le (cachedReferences store id)
  -- the strings are the keys of one map
  have hnodup : ((references store id).map string).Nodup := by
    rw [references, ((List.perm_insertionSort le _).map string).nodup_iff, h.map_string_cachedReferences]
    cases store.referencesByIDCache.lookup id with
    | none => exact List.nodup_nil
    | some refs => exact refs.keys_nodup
  have hne : (references store id).Pairwise fun a b => a.string ≠ b.string := List.pairwise_map.mp hnodup
  exact (hsorted.and hne).imp fun hab => lt_of_le_of_ne hab.1 hab.2

/-- `References` holds tags and digests that the grammar builds -/
theorem Inv.valid_of_mem_references {store : Store} (h : Inv store) {id : ImageID} {ref : Named}
    (hmem : ref ∈ references store id) : ref.Valid ∧ ref.isNameOnly = false := by
  obtain ⟨k, hc⟩ := mem_references.mp hmem
  obtain ⟨-, -, hv, hn⟩ := h.cached _ _ _ hc
  exact ⟨hv, hn⟩

/-- `Get` reads a name without a tag as its `latest` tag -/
theorem get_withDefaultTag (store : Store) (ref : Named) : get store ref.withDefaultTag = get store ref := by
  simp [get]

/-- a tag or a digest is among the references of an image exactly when `Get` resolves it to the image -/
theorem Inv.mem_references_iff_get {store : Store} (h : Inv store) {ref : Named} (hv : ref.Valid)
    (hn : ref.isNameOnly = false) (id : ImageID) : ref ∈ references store id ↔ get store ref = .ok id := by
  rw [mem_references, ← get_withDefaultTag, withDefaultTag_of_isNameOnly hn]
  constructor
  · rintro ⟨k, hc⟩
    obtain ⟨rfl, hrepo, -, -⟩ := h.cached _ _ _ hc
    simp [get, withDefaultTag_of_isNameOnly hn, hrepo]
  · intro hget
    cases hs : lookup2 ref.name ref.string store.repositories with
    | none => simp [get, withDefaultTag_of_isNameOnly hn, hs] at hget
    | some id' =>
      have hid : id' = id := by simpa [get, withDefaultTag_of_isNameOnly hn, hs] using hget
      subst hid
      -- the reference is stored, so one with its string is cached, and that one is `ref`
      obtain ⟨ref', hc, -⟩ := h.stored _ _ _ hs
      obtain ⟨rfl, -⟩ := h.cached_key hv hn hc
      exact ⟨_, hc⟩

/-! ## The by-ID cache over whole runs -/

/-- after every run of calls whose references the grammar builds, `References` lists, sorted by `String()` and once
each, the tags and digests that `Get` resolves to the image; a name without a tag is never listed, and resolves as its
`latest` tag does; no inner map is empty; and a failed add leaves the store as it was -/
theorem references_exact_inverse (ops : List Op) (hops : ∀ op ∈ ops, op.Valid) :
    ∃ store, run ops = some store ∧
      (∀ id, (references store id).Pairwise fun a b => a.string < b.string) ∧
      (∀ id ref, ref ∈ references store id → ref.Valid ∧ ref.isNameOnly = false) ∧
      (∀ id ref, ref.Valid → (ref.withDefaultTag ∈ references store id ↔ get store ref = .ok id)) ∧
      NoEmpty store.repositories ∧ NoEmpty store.referencesByIDCache ∧
      ∀ op store' e, step store op = (store', .added (some e)) → store' = store := by
  obtain ⟨store, hrun⟩ := Option.isSome_iff_exists.mp (run_isSome ops)
  have h := run_inv hops hrun
  refine ⟨store, hrun, h.references_sorted, fun _ _ => h.valid_of_mem_references, ?_, h.repositories_noEmpty,
    h.cache_noEmpty, fun _ _ _ => step_added_error⟩
  intro id ref hv
  rw [h.mem_references_iff_get hv.withDefaultTag (isNameOnly_withDefaultTag ref), get_withDefaultTag]

theorem references_exact_inverse_busybox :
    (∀ op ∈ [Op.addTag (.namedRef "busybox".toList) "id1".toList false], op.Valid) ∧
      ∃ store, run [Op.addTag (.namedRef "busybox".toList) "id1".toList false] = some store ∧
        (∀ id, (references store id).Pairwise fun a b => a.string < b.string) ∧
        (∀ id ref, ref ∈ references store id → ref.Valid ∧ ref.isNameOnly = false) ∧
        (∀ id ref, ref.Valid → (ref.withDefaultTag ∈ references store id ↔ get store ref = .ok id)) ∧
        NoEmpty store.repositories ∧ NoEmpty store.referencesByIDCache ∧
        ∀ op store' e, step store op = (store', .added (some e)) → store' = store :=
  ⟨by decide, references_exact_inverse _ (by decide)⟩

/-- `Get` resolves `busybox` after `AddTag(busybox, id1)`, but `References(id1)` lists only `busybox:latest` -/
theorem references_omit_name_only :
    (run [.addTag (.namedRef "busybox".toList) "id1".toList false]).map
        (fun store => (get store (.namedRef "busybox".toList), references store "id1".toList)) =
      some (.ok "id1".toList, [.taggedRef "busybox".toList "latest".toList]) := by
  decide

end DockerEngine.Reference
