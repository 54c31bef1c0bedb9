/-
Lean model of `pkg/registrar/registrar.go`: names reserved to keys, indexed both ways, in `names` (name to key) and
in `idx` (key to the list of its names, in the order they were reserved).

`Inv` says that the two indexes are inverse, that no list repeats a name and that no key maps to an empty list.
`Reserve`, `Release` and `Delete` keep it (`Inv.step`). Over a whole run, `Get(name)` is the key of the last
successful `Reserve` of the name, unless a `Release` of the name or a `Delete` of the key came after it
(`run_lastReservation`), which is a fact about the run and its results alone (`lastReservation_append`).
-/
import Mathlib.Data.List.AList
import DockerEngine.Lib.Machine

namespace DockerEngine

/-- `Registrar`: `idx` and `names` -/
structure Registrar where
  idx : AList fun _ : String => List String
  names : AList fun _ : String => String

namespace Registrar

/-- the errors of the package -/
inductive Err
  /-- `ErrNameReserved`: "name is reserved" -/
  | nameReserved
  /-- `ErrNameNotReserved`: "name is not reserved" -/
  | nameNotReserved
  /-- `ErrNoSuchKey`: "provided key does not exist" -/
  | noSuchKey
  deriving DecidableEq, Repr

/-- `NewRegistrar()` -/
def newRegistrar : Registrar := ⟨∅, ∅⟩

/-- `r.idx[key]`, which is `nil` for a key `idx` does not hold -/
def keyNames (r : Registrar) (key : String) : List String := (r.idx.lookup key).getD []

/-- `r.Reserve(name, key)` -/
def reserve (r : Registrar) (name key : String) : Registrar × Option Err :=
  match r.names.lookup name with
  | some k => if k ≠ key then (r, some .nameReserved) else (r, none)
  | none => (⟨r.idx.insert key (r.keyNames key ++ [name]), r.names.insert name key⟩, none)

/-- `r.Release(name)` -/
def release (r : Registrar) (name : String) : Registrar :=
  match r.names.lookup name with
  | none => r
  | some key =>
    -- the loop splices out the first occurrence of the name, if it finds one
    let idx := if name ∈ r.keyNames key then r.idx.insert key ((r.keyNames key).erase name) else r.idx
    if (idx.lookup key).getD [] = [] then ⟨idx.erase key, r.names.erase name⟩ else ⟨idx, r.names.erase name⟩

/-- `r.Delete(key)` -/
def delete (r : Registrar) (key : String) : Registrar :=
  ⟨r.idx.erase key, (r.keyNames key).foldl (fun names name => names.erase name) r.names⟩

/-- `r.GetNames(key)` -/
def getNames (r : Registrar) (key : String) : Except Err (List String) :=
  match r.idx.lookup key with
  | some names => .ok names
  | none => .error .noSuchKey

/-- `r.Get(name)` -/
def get (r : Registrar) (name : String) : Except Err String :=
  match r.names.lookup name with
  | some key => .ok key
  | none => .error .nameNotReserved

/-! ## Runs -/

/-- the calls that change the registrar -/
inductive Op
  | reserve (name key : String)
  | release (name : String)
  | delete (key : String)
  deriving DecidableEq, Repr

/-- what the calls return -/
inductive Ret
  | reserved (err : Option Err)
  | done
  deriving DecidableEq, Repr

def step (r : Registrar) : Op → Option (Registrar × Ret)
  | .reserve name key => some ((r.reserve name key).1, .reserved (r.reserve name key).2)
  | .release name => some (r.release name, .done)
  | .delete key => some (r.delete key, .done)

/-! ## Lookups after each call -/

@[simp] theorem keyNames_newRegistrar (key : String) : newRegistrar.keyNames key = [] := rfl

theorem keyNames_insert (r : Registrar) (names : AList fun _ : String => String) (key key' : String)
    (l : List String) : ({ idx := r.idx.insert key l, names := names } : Registrar).keyNames key' =
      if key' = key then l else r.keyNames key' := by
  unfold keyNames
  split_ifs with h
  · subst h
    rw [AList.lookup_insert, Option.getD_some]
  · rw [AList.lookup_insert_ne h]

theorem keyNames_erase (r : Registrar) (names : AList fun _ : String => String) (key key' : String) :
    ({ idx := r.idx.erase key, names := names } : Registrar).keyNames key' =
      if key' = key then [] else r.keyNames key' := by
  unfold keyNames
  split_ifs with h
  · subst h
    rw [AList.lookup_erase, Option.getD_none]
  · rw [AList.lookup_erase_ne h]

theorem keyNames_erase_insert (r : Registrar) (names : AList fun _ : String => String) (key key' : String)
    (l : List String) : ({ idx := (r.idx.insert key l).erase key, names := names } : Registrar).keyNames key' =
      if key' = key then [] else r.keyNames key' := by
  unfold keyNames
  split_ifs with h
  · subst h
    rw [AList.lookup_erase, Option.getD_none]
  · rw [AList.lookup_erase_ne h, AList.lookup_insert_ne h]

/-- deleting names one after the other -/
theorem lookup_foldl_erase (l : List String) (names : AList fun _ : String => String) (name : String) :
    (l.foldl (fun names n => names.erase n) names).lookup name = if name ∈ l then none else names.lookup name := by
  induction l generalizing names with
  | nil => simp
  | cons n l ih =>
    rw [List.foldl_cons, ih]
    by_cases hl : name ∈ l
    · simp [hl]
    · by_cases hn : name = n
      · subst hn
        simp [AList.lookup_erase]
      · simp [hl, hn, AList.lookup_erase_ne hn]

theorem get_eq_ok_iff (r : Registrar) (name key : String) :
    r.get name = .ok key ↔ r.names.lookup name = some key := by
  unfold get
  cases r.names.lookup name with
  | none => simp
  | some k => simp

/-! ## `Reserve` -/

/-- `Reserve` succeeds exactly when the name is free or already reserved to the key -/
theorem reserve_ok_iff (r : Registrar) (name key : String) :
    (r.reserve name key).2 = none ↔ r.names.lookup name = none ∨ r.names.lookup name = some key := by
  unfold reserve
  cases hl : r.names.lookup name with
  | none => simp
  | some k =>
    by_cases hk : k = key
    · simp [hk]
    · simp [hk]

/-- a failed `Reserve` changes nothing -/
theorem reserve_error {r : Registrar} {name key : String} {e : Err} (h : (r.reserve name key).2 = some e) :
    (r.reserve name key).1 = r := by
  unfold reserve at h ⊢
  cases hl : r.names.lookup name with
  | none => simp [hl] at h
  | some k =>
    simp only [hl] at h ⊢
    split_ifs <;> rfl

/-! ## The invariant -/

/-- the indexes are inverse, a list repeats no name, and no key maps to an empty list -/
structure Inv (r : Registrar) : Prop where
  inverse : ∀ name key, r.names.lookup name = some key ↔ name ∈ r.keyNames key
  nodup : ∀ key names, r.idx.lookup key = some names → names.Nodup
  nonempty : ∀ key names, r.idx.lookup key = some names → names ≠ []

theorem inv_newRegistrar : Inv newRegistrar where
  inverse name key := by simp [newRegistrar, keyNames]
  nodup _ _ h := by simp [newRegistrar] at h
  nonempty _ _ h := by simp [newRegistrar] at h

theorem Inv.keyNames_nodup {r : Registrar} (h : Inv r) (key : String) : (r.keyNames key).Nodup := by
  unfold keyNames
  cases hl : r.idx.lookup key with
  | none => exact List.nodup_nil
  | some names => exact h.nodup key names hl

/-- a name is in the list of one key only -/
theorem Inv.key_unique {r : Registrar} (h : Inv r) {name key key' : String} (h₁ : name ∈ r.keyNames key)
    (h₂ : name ∈ r.keyNames key') : key = key' := by
  have e₁ := (h.inverse name key).mpr h₁
  have e₂ := (h.inverse name key').mpr h₂
  rw [e₁] at e₂
  exact Option.some.inj e₂

theorem Inv.reserve {r : Registrar} (h : Inv r) (name key : String) : Inv (r.reserve name key).1 := by
  unfold Registrar.reserve
  cases hl : r.names.lookup name with
  | some k =>
    dsimp only
    split_ifs <;> exact h
  | none =>
    -- a free name is in no list
    have hfree : ∀ key', name ∉ r.keyNames key' := fun key' hmem => by
      rw [← h.inverse] at hmem
      rw [hl] at hmem
      cases hmem
    refine ⟨fun name' key' => ?_, fun key' names hk => ?_, fun key' names hk => ?_⟩
    · rw [keyNames_insert]
      by_cases hn : name' = name
      · subst hn
        rw [AList.lookup_insert]
        by_cases hk : key' = key
        · simp [hk]
        · simp [hk, Ne.symm hk, hfree key']
      · rw [AList.lookup_insert_ne hn]
        by_cases hk : key' = key
        · subst hk
          simp [hn, h.inverse]
        · simp [hk, h.inverse]
    · by_cases hk' : key' = key
      · subst hk'
        rw [AList.lookup_insert] at hk
        cases hk
        exact (h.keyNames_nodup key').append (List.nodup_singleton name)
          (fun a ha hb => hfree key' (List.mem_singleton.mp hb ▸ ha))
      · rw [AList.lookup_insert_ne hk'] at hk
        exact h.nodup key' names hk
    · by_cases hk' : key' = key
      · subst hk'
        rw [AList.lookup_insert] at hk
        cases hk
        simp
      · rw [AList.lookup_insert_ne hk'] at hk
        exact h.nonempty key' names hk

theorem Inv.release {r : Registrar} (h : Inv r) (name : String) : Inv (r.release name) := by
  unfold Registrar.release
  cases hl : r.names.lookup name with
  | none => exact h
  | some key =>
    have hmem : name ∈ r.keyNames key := (h.inverse name key).mp hl
    simp only [hmem, if_true]
    have hnodup : ((r.keyNames key).erase name).Nodup := (h.keyNames_nodup key).erase name
    have hnot : name ∉ (r.keyNames key).erase name := (h.keyNames_nodup key).not_mem_erase
    have hl_mem : ∀ n, n ∈ (r.keyNames key).erase name ↔ n ≠ name ∧ n ∈ r.keyNames key := fun n =>
      (h.keyNames_nodup key).mem_erase_iff
    -- `l` is the list of `key` after the splice
    generalize (r.keyNames key).erase name = l at hnodup hnot hl_mem ⊢
    -- the registrar with the name spliced out, before an empty list is deleted
    have hinv : ∀ name' key', (r.names.erase name).lookup name' = some key' ↔
        name' ∈ (if key' = key then l else r.keyNames key') := by
      intro name' key'
      by_cases hn : name' = name
      · subst hn
        rw [AList.lookup_erase]
        by_cases hk : key' = key
        · simp [hk, hnot]
        · simp only [hk, if_false, reduceCtorEq, false_iff]
          intro hm
          exact hk (h.key_unique hm hmem)
      · rw [AList.lookup_erase_ne hn, h.inverse]
        by_cases hk : key' = key
        · subst hk
          simp [hl_mem, hn]
        · simp [hk]
    split_ifs with hempty
    · refine ⟨fun name' key' => ?_, fun key' names hk => ?_, fun key' names hk => ?_⟩
      · rw [keyNames_erase_insert, hinv]
        by_cases hk : key' = key
        · simp only [hk, if_true]
          rw [AList.lookup_insert, Option.getD_some] at hempty
          rw [hempty]
        · simp [hk]
      · by_cases hk' : key' = key
        · subst hk'
          rw [AList.lookup_erase] at hk
          cases hk
        · rw [AList.lookup_erase_ne hk', AList.lookup_insert_ne hk'] at hk
          exact h.nodup key' names hk
      · by_cases hk' : key' = key
        · subst hk'
          rw [AList.lookup_erase] at hk
          cases hk
        · rw [AList.lookup_erase_ne hk', AList.lookup_insert_ne hk'] at hk
          exact h.nonempty key' names hk
    · refine ⟨fun name' key' => ?_, fun key' names hk => ?_, fun key' names hk => ?_⟩
      · rw [keyNames_insert, hinv]
      · by_cases hk' : key' = key
        · subst hk'
          rw [AList.lookup_insert] at hk
          cases hk
          exact hnodup
        · rw [AList.lookup_insert_ne hk'] at hk
          exact h.nodup key' names hk
      · by_cases hk' : key' = key
        · subst hk'
          rw [AList.lookup_insert] at hk
          cases hk
          rw [AList.lookup_insert, Option.getD_some] at hempty
          exact hempty
        · rw [AList.lookup_insert_ne hk'] at hk
          exact h.nonempty key' names hk

/-- after `Delete(key)` a name is reserved as before, unless it was reserved to `key` -/
theorem Inv.lookup_delete {r : Registrar} (h : Inv r) (key name : String) :
    (r.delete key).names.lookup name =
      if r.names.lookup name = some key then none else r.names.lookup name := by
  simp only [Registrar.delete, lookup_foldl_erase, ← h.inverse]

theorem Inv.delete {r : Registrar} (h : Inv r) (key : String) : Inv (r.delete key) := by
  refine ⟨fun name' key' => ?_, fun key' names hk => ?_, fun key' names hk => ?_⟩
  · rw [h.lookup_delete, Registrar.delete, keyNames_erase]
    by_cases hn : r.names.lookup name' = some key
    · rw [if_pos hn]
      by_cases hk : key' = key
      · simp [hk]
      · simp only [hk, if_false, reduceCtorEq, false_iff]
        intro hm
        exact hk (h.key_unique hm ((h.inverse name' key).mp hn))
    · rw [if_neg hn]
      by_cases hk : key' = key
      · subst hk
        simp [hn]
      · simp [hk, h.inverse]
  · by_cases hk' : key' = key
    · subst hk'
      simp [Registrar.delete, AList.lookup_erase] at hk
    · simp only [Registrar.delete, AList.lookup_erase_ne hk'] at hk
      exact h.nodup key' names hk
  · by_cases hk' : key' = key
    · subst hk'
      simp [Registrar.delete, AList.lookup_erase] at hk
    · simp only [Registrar.delete, AList.lookup_erase_ne hk'] at hk
      exact h.nonempty key' names hk

theorem Inv.step {r r' : Registrar} {op : Op} {ret : Ret} (h : Inv r) (hs : step r op = some (r', ret)) :
    Inv r' := by
  cases op with
  | reserve name key =>
    cases hs
    exact h.reserve name key
  | release name =>
    cases hs
    exact h.release name
  | delete key =>
    cases hs
    exact h.delete key

/-! ## `Get` over a run -/

/-- `Reserve(name, key)` at some position `i` of the run succeeded, no later `Reserve` of the name succeeded, and no
`Release(name)` or `Delete(key)` came after it -/
def LastReservation (ops : List Op) (rets : List Ret) (name key : String) : Prop :=
  ∃ i : ℕ, ops[i]? = some (Op.reserve name key) ∧ rets[i]? = some (Ret.reserved none) ∧
    ∀ j : ℕ, i < j → (∀ key', ops[j]? = some (Op.reserve name key') → rets[j]? ≠ some (Ret.reserved none)) ∧
      ops[j]? ≠ some (Op.release name) ∧ ops[j]? ≠ some (Op.delete key)

/-- how one more call changes `LastReservation`: it is that reservation, or it leaves an earlier one standing -/
theorem lastReservation_append {ops : List Op} {rets : List Ret} (hlen : rets.length = ops.length) (op : Op)
    (ret : Ret) (name key : String) :
    LastReservation (ops ++ [op]) (rets ++ [ret]) name key ↔
      (op = .reserve name key ∧ ret = .reserved none) ∨
      (LastReservation ops rets name key ∧ (∀ key', op = .reserve name key' → ret ≠ .reserved none) ∧
        op ≠ .release name ∧ op ≠ .delete key) := by
  constructor
  · rintro ⟨i, hi, hr, hlater⟩
    rcases Nat.lt_or_ge i ops.length with hlt | hge
    · -- an earlier reservation: the new call is one of those after it
      right
      rw [List.getElem?_append_left hlt] at hi
      rw [List.getElem?_append_left (hlen ▸ hlt)] at hr
      have hnew := hlater ops.length hlt
      rw [List.getElem?_append_right le_rfl, Nat.sub_self, List.getElem?_cons_zero,
        List.getElem?_append_right (hlen ▸ le_rfl), hlen, Nat.sub_self, List.getElem?_cons_zero] at hnew
      refine ⟨⟨i, hi, hr, fun j hij => ?_⟩, fun key' hk => ?_, ?_, ?_⟩
      · rcases Nat.lt_or_ge j ops.length with hj | hj
        · have := hlater j hij
          rwa [List.getElem?_append_left hj, List.getElem?_append_left (hlen ▸ hj)] at this
        · rw [List.getElem?_eq_none hj, List.getElem?_eq_none (hlen ▸ hj)]
          simp
      · intro hret
        exact hnew.1 key' (by rw [hk]) (by rw [hret])
      · intro hop
        exact hnew.2.1 (by rw [hop])
      · intro hop
        exact hnew.2.2 (by rw [hop])
    · -- the new call itself
      have hi' : i = ops.length := by
        have := (List.getElem?_eq_some_iff.mp hi).1
        simp at this
        omega
      subst hi'
      left
      rw [List.getElem?_append_right le_rfl, Nat.sub_self, List.getElem?_cons_zero] at hi
      rw [List.getElem?_append_right (hlen ▸ le_rfl), hlen, Nat.sub_self, List.getElem?_cons_zero] at hr
      exact ⟨(Option.some.inj hi), Option.some.inj hr⟩
  · rintro (⟨rfl, rfl⟩ | ⟨⟨i, hi, hr, hlater⟩, hres, hrel, hdel⟩)
    · refine ⟨ops.length, ?_, ?_, fun j hj => ?_⟩
      · simp
      · rw [List.getElem?_append_right (hlen ▸ le_rfl), hlen, Nat.sub_self, List.getElem?_cons_zero]
      · have h₁ : (ops ++ [Op.reserve name key])[j]? = none := List.getElem?_eq_none (by simp; omega)
        have h₂ : (rets ++ [Ret.reserved none])[j]? = none := List.getElem?_eq_none (by simp; omega)
        simp [h₁, h₂]
    · have hlt : i < ops.length := (List.getElem?_eq_some_iff.mp hi).1
      refine ⟨i, by rw [List.getElem?_append_left hlt, hi], by rw [List.getElem?_append_left (hlen ▸ hlt), hr],
        fun j hij => ?_⟩
      rcases Nat.lt_or_ge j ops.length with hj | hj
      · rw [List.getElem?_append_left hj, List.getElem?_append_left (hlen ▸ hj)]
        exact hlater j hij
      · rcases Nat.lt_or_ge ops.length j with hj' | hj'
        · have h₁ : (ops ++ [op])[j]? = none := List.getElem?_eq_none (by simp; omega)
          have h₂ : (rets ++ [ret])[j]? = none := List.getElem?_eq_none (by simp; omega)
          simp [h₁, h₂]
        · have hj'' : j = ops.length := by omega
          subst hj''
          rw [List.getElem?_append_right le_rfl, Nat.sub_self, List.getElem?_cons_zero,
            List.getElem?_append_right (hlen ▸ le_rfl), hlen, Nat.sub_self, List.getElem?_cons_zero]
          refine ⟨fun key' hk hr' => hres key' (Option.some.inj hk) (Option.some.inj hr'), fun hop => ?_,
            fun hop => ?_⟩
          · exact hrel (Option.some.inj hop)
          · exact hdel (Option.some.inj hop)

/-- `Reserve` sets the key of a free name only -/
theorem lookup_reserve (r : Registrar) (name name' key' : String) :
    (r.reserve name' key').1.names.lookup name =
      if name = name' ∧ r.names.lookup name' = none then some key' else r.names.lookup name := by
  unfold Registrar.reserve
  cases hl : r.names.lookup name' with
  | some k =>
    simp only [reduceCtorEq, and_false, if_false]
    split_ifs <;> rfl
  | none =>
    simp only [and_true]
    split_ifs with hn
    · rw [hn, AList.lookup_insert]
    · exact AList.lookup_insert_ne hn

/-- both branches of the empty-list check of `Release` delete the name from `names` -/
theorem release_names {r : Registrar} {name key : String} (hl : r.names.lookup name = some key) :
    (r.release name).names = r.names.erase name := by
  unfold Registrar.release
  rw [hl]
  dsimp only
  split_ifs <;> rfl

theorem lookup_release (r : Registrar) (name name' : String) :
    (r.release name').names.lookup name = if name = name' then none else r.names.lookup name := by
  cases hl : r.names.lookup name' with
  | none =>
    have hr : r.release name' = r := by
      unfold Registrar.release
      rw [hl]
    rw [hr]
    split_ifs with hn
    · rw [hn, hl]
    · rfl
  | some key =>
    rw [release_names hl]
    split_ifs with hn
    · rw [hn, AList.lookup_erase]
    · exact AList.lookup_erase_ne hn

/-- the key `Get` returns after one more call -/
theorem Inv.lookup_step {r r' : Registrar} {op : Op} {ret : Ret} (h : Inv r)
    (hs : Registrar.step r op = some (r', ret)) (name key : String) :
    r'.names.lookup name = some key ↔
      (op = .reserve name key ∧ ret = .reserved none) ∨
      (r.names.lookup name = some key ∧ (∀ key', op = .reserve name key' → ret ≠ .reserved none) ∧
        op ≠ .release name ∧ op ≠ .delete key) := by
  cases op with
  | reserve name' key' =>
    cases hs
    rw [lookup_reserve]
    by_cases hn : name = name'
    · subst hn
      -- the result of the call is what decides: it fails exactly when the name is reserved to another key
      cases hl : r.names.lookup name with
      | none => simp [Registrar.reserve, hl]
      | some k =>
        by_cases hk : k = key'
        · subst hk
          simp [Registrar.reserve, hl]
        · simp [Registrar.reserve, hl, hk]
    · simp [hn, Ne.symm hn]
  | release name' =>
    cases hs
    rw [lookup_release]
    by_cases hn : name = name'
    · simp [hn]
    · simp [hn, Ne.symm hn]
  | delete key' =>
    cases hs
    rw [h.lookup_delete]
    by_cases h' : r.names.lookup name = some key'
    · simp [h']
    · rw [if_neg h']
      simp only [reduceCtorEq, false_and, false_or, ne_eq, Op.delete.injEq, not_false_eq_true,
        IsEmpty.forall_iff, implies_true, true_and]
      constructor
      · intro hk
        refine ⟨hk, fun e => h' ?_⟩
        rw [hk, e]
      · exact fun hk => hk.1

/-- along a run, the invariant holds, the results are one for each call, and `Get(name)` is `key` exactly when
`Reserve(name, key)` was the last successful reservation of the name and no `Release(name)` or `Delete(key)`
followed it -/
theorem run_lastReservation (ops : List Op) :
    ∃ r rets, Machine.runTrace step newRegistrar ops = some (r, rets) ∧ Inv r ∧ rets.length = ops.length ∧
      ∀ name key, r.names.lookup name = some key ↔ LastReservation ops rets name key := by
  induction ops using List.reverseRecOn with
  | nil =>
    refine ⟨newRegistrar, [], rfl, inv_newRegistrar, rfl, fun name key => ?_⟩
    simp [newRegistrar, LastReservation]
  | append_singleton ops op ih =>
    obtain ⟨r, rets, hrun, hinv, hlen, hget⟩ := ih
    obtain ⟨⟨r', ret⟩, hs⟩ : ∃ x, step r op = some x := by cases op <;> exact ⟨_, rfl⟩
    refine ⟨r', rets ++ [ret], ?_, hinv.step hs, by simp [hlen], fun name key => ?_⟩
    · rw [Machine.runTrace_append_singleton, hrun, Option.bind_some, hs, Option.map_some]
    · rw [hinv.lookup_step hs, lastReservation_append hlen, hget]

/-- every state a run reaches: the indexes are inverse, a name is in one list at most and once in it, no key maps to
an empty list, `Reserve` succeeds exactly when the name is free or reserved to the key and changes nothing when it
fails, and `Get` returns the key of the last successful reservation that no `Release` or `Delete` undid -/
theorem registrar_indexes_inverse (ops : List Op) :
    ∃ r rets, Machine.runTrace step newRegistrar ops = some (r, rets) ∧
      (∀ name key, r.names.lookup name = some key ↔ name ∈ r.keyNames key) ∧
      (∀ name key key', name ∈ r.keyNames key → name ∈ r.keyNames key' → key = key') ∧
      (∀ key, (r.keyNames key).Nodup) ∧
      (∀ key names, r.idx.lookup key = some names → names ≠ []) ∧
      (∀ name key, (r.reserve name key).2 = none ↔
        r.names.lookup name = none ∨ r.names.lookup name = some key) ∧
      (∀ name key e, (r.reserve name key).2 = some e → (r.reserve name key).1 = r) ∧
      ∀ name key, r.get name = .ok key ↔ LastReservation ops rets name key := by
  obtain ⟨r, rets, hrun, hinv, -, hget⟩ := run_lastReservation ops
  refine ⟨r, rets, hrun, hinv.inverse, fun _ _ _ => hinv.key_unique, hinv.keyNames_nodup, hinv.nonempty,
    reserve_ok_iff r, fun _ _ _ => reserve_error, fun name key => ?_⟩
  rw [get_eq_ok_iff, hget]

end Registrar

end DockerEngine
