/-
Maps of maps, as association lists, with the bookkeeping that Go code does on a `map[A]map[B]V`: setting `m[a][b]`
creates the inner map `m[a]` if it is missing (`insert2`), and deleting `m[a][b]` deletes `m[a]` with it once it is
empty (`erase2`).

`lookup2_insert2` and `lookup2_erase2` say what a lookup sees after each, and `NoEmpty` (no inner map is empty)
is kept by both.
-/
import Mathlib
import DockerEngine.Lib.Prelude

namespace DockerEngine.NestedMap

variable {α β γ : Type} [DecidableEq α] [DecidableEq β]

/-- a map of maps -/
abbrev Map2 (α β γ : Type) := AList fun _ : α => AList fun _ : β => γ

/-- `m[a][b]` -/
def lookup2 (a : α) (b : β) (m : Map2 α β γ) : Option γ := (m.lookup a).bind (·.lookup b)

/-- `m[a][b] = v`, with `m[a]` created if it is missing -/
def insert2 (a : α) (b : β) (v : γ) (m : Map2 α β γ) : Map2 α β γ :=
  m.insert a (((m.lookup a).getD ∅).insert b v)

/-- `delete(m[a], b)`, and `delete(m, a)` if `m[a]` is left empty -/
def erase2 (a : α) (b : β) (m : Map2 α β γ) : Map2 α β γ :=
  match m.lookup a with
  | none => m
  | some inner =>
    if (inner.erase b).keys = [] then m.erase a else m.insert a (inner.erase b)

/-- `m[a] = make(...)` if `m[a]` is missing -/
def ensure (a : α) (m : Map2 α β γ) : Map2 α β γ :=
  match m.lookup a with
  | some _ => m
  | none => m.insert a ∅

/-- no inner map is empty -/
def NoEmpty (m : Map2 α β γ) : Prop := ∀ a inner, m.lookup a = some inner → inner.keys ≠ []

theorem lookup_eq_none_of_keys {δ : Type} {inner : AList fun _ : β => δ} (h : inner.keys = []) (b : β) :
    inner.lookup b = none := by
  rw [AList.lookup_eq_none, AList.mem_keys, h]
  exact List.not_mem_nil

theorem lookup2_insert2 (a a' : α) (b b' : β) (v : γ) (m : Map2 α β γ) :
    lookup2 a' b' (insert2 a b v m) = if a' = a ∧ b' = b then some v else lookup2 a' b' m := by
  unfold lookup2 insert2
  by_cases ha : a' = a
  · subst ha
    rw [AList.lookup_insert]
    by_cases hb : b' = b
    · subst hb
      simp [AList.lookup_insert]
    · simp only [Option.bind_some, AList.lookup_insert_ne hb, hb, and_false, if_false]
      cases m.lookup a' <;> simp
  · simp [AList.lookup_insert_ne ha, ha]

theorem lookup2_erase2 (a a' : α) (b b' : β) (m : Map2 α β γ) :
    lookup2 a' b' (erase2 a b m) = if a' = a ∧ b' = b then none else lookup2 a' b' m := by
  unfold erase2
  cases hm : m.lookup a with
  | none =>
    -- nothing is stored under `a`, so there is nothing to delete
    by_cases ha : a' = a
    · subst ha
      simp [lookup2, hm]
    · simp [ha]
  | some inner =>
    simp only [lookup2]
    by_cases ha : a' = a
    · subst ha
      split
      · rename_i hempty
        -- the inner map is left empty: `b` was its only key
        rw [AList.lookup_erase, hm]
        by_cases hb : b' = b
        · simp [hb]
        · have hnone := lookup_eq_none_of_keys hempty b'
          rw [AList.lookup_erase_ne hb] at hnone
          simp [hb, hnone]
      · rw [AList.lookup_insert, hm]
        by_cases hb : b' = b
        · subst hb
          simp [AList.lookup_erase]
        · simp [AList.lookup_erase_ne hb, hb]
    · split
      · simp [AList.lookup_erase_ne ha, ha]
      · simp [AList.lookup_insert_ne ha, ha]

omit [DecidableEq β] in
theorem ensure_of_lookup {a : α} {m : Map2 α β γ} {inner : AList fun _ : β => γ} (h : m.lookup a = some inner) :
    ensure a m = m := by
  rw [ensure, h]

/-- creating `m[a]` changes no lookup: the map it creates is empty -/
theorem lookup2_ensure (a a' : α) (b : β) (m : Map2 α β γ) : lookup2 a' b (ensure a m) = lookup2 a' b m := by
  unfold ensure
  cases hm : m.lookup a with
  | some _ => rfl
  | none =>
    by_cases ha : a' = a
    · subst ha
      simp [lookup2, hm, AList.lookup_insert]
    · simp [lookup2, AList.lookup_insert_ne ha]

/-- setting `m[a][b]` after creating `m[a]` is setting it -/
theorem insert2_ensure (a : α) (b : β) (v : γ) (m : Map2 α β γ) :
    insert2 a b v (ensure a m) = insert2 a b v m := by
  unfold ensure
  cases hm : m.lookup a with
  | some _ => rfl
  | none => simp [insert2, hm, AList.lookup_insert, AList.insert_insert]

omit [DecidableEq β] in
theorem noEmpty_empty : NoEmpty (∅ : Map2 α β γ) := by
  intro a inner h
  simp at h

theorem NoEmpty.insert2 {m : Map2 α β γ} (h : NoEmpty m) (a : α) (b : β) (v : γ) : NoEmpty (insert2 a b v m) := by
  intro a' inner hl
  unfold DockerEngine.NestedMap.insert2 at hl
  by_cases ha : a' = a
  · subst ha
    rw [AList.lookup_insert] at hl
    cases hl
    simp [AList.keys_insert]
  · rw [AList.lookup_insert_ne ha] at hl
    exact h a' inner hl

theorem NoEmpty.erase2 {m : Map2 α β γ} (h : NoEmpty m) (a : α) (b : β) : NoEmpty (erase2 a b m) := by
  intro a' inner' hl
  unfold DockerEngine.NestedMap.erase2 at hl
  cases hm : m.lookup a with
  | none =>
    rw [hm] at hl
    exact h a' inner' hl
  | some inner =>
    rw [hm] at hl
    simp only at hl
    by_cases ha : a' = a
    · subst ha
      split at hl
      · simp [AList.lookup_erase] at hl
      · rename_i hne
        rw [AList.lookup_insert] at hl
        cases hl
        exact hne
    · split at hl
      · rw [AList.lookup_erase_ne ha] at hl
        exact h a' inner' hl
      · rw [AList.lookup_insert_ne ha] at hl
        exact h a' inner' hl

/-- the values of a map are the values its keys look up -/
theorem mem_values {δ : Type} {inner : AList fun _ : β => δ} {v : δ} :
    v ∈ inner.entries.map Sigma.snd ↔ ∃ b, inner.lookup b = some v := by
  constructor
  · intro hv
    obtain ⟨⟨b, v'⟩, hmem, rfl⟩ := List.mem_map.mp hv
    exact ⟨b, AList.mem_lookup_iff.mpr hmem⟩
  · rintro ⟨b, hb⟩
    exact List.mem_map.mpr ⟨⟨b, v⟩, AList.mem_lookup_iff.mp hb, rfl⟩

end DockerEngine.NestedMap
