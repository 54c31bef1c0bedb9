/-
General facts the models share: how a Go function that returns a value and an error composes, in `Except` (the
result of `x >>= f` or of `x.map f` is a value only if `x` gives one), how a count over a list changes when one
element is changed in place, and the last elements of a list (`rtake`, `rtakeWhile`) as it grows.

Texts and byte strings compare element by element; the instances below name that once, so that every membership test
of a model decides with the same proof.
-/
import Mathlib

namespace DockerEngine

variable {ε α β : Type}

instance lawfulBEqText : LawfulBEq (List Char) := inferInstance

instance lawfulBEqBytes : LawfulBEq (List UInt8) := inferInstance

theorem except_bind_eq_ok {x : Except ε α} {f : α → Except ε β} {r : β} (h : (x >>= f) = .ok r) :
    ∃ a, x = .ok a ∧ f a = .ok r := by
  cases x with
  | error e => cases h
  | ok a => exact ⟨a, rfl, h⟩

theorem except_bind_eq_error {x : Except ε α} {f : α → Except ε β} {e : ε} (h : (x >>= f) = .error e) :
    x = .error e ∨ ∃ a, x = .ok a ∧ f a = .error e := by
  cases x with
  | error e' => cases h; exact Or.inl rfl
  | ok a => exact Or.inr ⟨a, rfl, h⟩

/-- a step of an `Option` chain that gives a value passes it on -/
theorem option_some_bind (a : α) (f : α → Option β) : (some a >>= f) = f a := rfl

theorem except_map_eq_ok {f : α → β} {x : Except ε α} {r : β} (h : x.map f = .ok r) :
    ∃ a, x = .ok a ∧ f a = r := by
  cases x with
  | error e => cases h
  | ok a => exact ⟨a, rfl, Except.ok.inj h⟩

/-- a value `lookup` finds is paired with its key in the list -/
theorem mem_of_lookup_eq_some [BEq α] [LawfulBEq α] {l : List (α × β)} {k : α} {b : β} (h : l.lookup k = some b) :
    (k, b) ∈ l := by
  obtain ⟨l₁, l₂, rfl, -⟩ := List.lookup_eq_some_iff.mp h
  exact List.mem_append_right _ List.mem_cons_self

/-- a key `lookup` misses is none of the list's keys -/
theorem not_mem_keys_of_lookup_eq_none [BEq α] [LawfulBEq α] {l : List (α × β)} {k : α} (h : l.lookup k = none) :
    k ∉ l.map Prod.fst := by
  rw [List.lookup_eq_none_iff] at h
  intro hk
  obtain ⟨p, hp, rfl⟩ := List.mem_map.mp hk
  simpa using h p hp

/-- changing the element at `i` changes a count by what the element counted before and after -/
theorem countP_modify (p : α → Bool) (f : α → α) :
    ∀ (l : List α) (i : ℕ) (h : i < l.length),
      (l.modify i f).countP p + (if p l[i] then 1 else 0) = l.countP p + (if p (f l[i]) then 1 else 0)
  | [], _, h => absurd h (Nat.not_lt_zero _)
  | a :: l, 0, _ => by
    simp only [List.modify_zero_cons, List.countP_cons, List.getElem_cons_zero]
    omega
  | a :: l, i + 1, h => by
    have ih := countP_modify p f l i (Nat.lt_of_succ_lt_succ h)
    simp only [List.modify_succ_cons, List.countP_cons, List.getElem_cons_succ]
    omega

/-- an element appended at the end is at the old length, and every other index is as it was -/
theorem getElem?_append_singleton (l : List α) (a : α) (m : ℕ) :
    (l ++ [a])[m]? = if m = l.length then some a else l[m]? := by
  split_ifs with hm
  · rw [hm, List.getElem?_concat_length]
  · rcases Nat.lt_or_gt_of_ne hm with hlt | hgt
    · rw [List.getElem?_append_left hlt]
    · rw [List.getElem?_eq_none (by simp; omega), List.getElem?_eq_none (by omega)]

/-- an element of a list with one element changed is an old element or the changed one -/
theorem mem_modify {l : List α} {i : ℕ} {f : α → α} {a : α} (h : a ∈ l.modify i f) : a ∈ l ∨ ∃ x ∈ l, a = f x := by
  obtain ⟨j, hj, rfl⟩ := List.getElem_of_mem h
  have hj' : j < l.length := by simpa using hj
  rw [List.getElem_modify]
  split_ifs
  · exact Or.inr ⟨l[j], List.getElem_mem hj', rfl⟩
  · exact Or.inl (List.getElem_mem hj')

/-- the same, knowing that the changed element is the one at `i` -/
theorem mem_modify_getElem {l : List α} {i : ℕ} (hi : i < l.length) {f : α → α} {a : α} (h : a ∈ l.modify i f) :
    a ∈ l ∨ a = f l[i] := by
  obtain ⟨j, hj, rfl⟩ := List.getElem_of_mem h
  have hj' : j < l.length := by simpa using hj
  rw [List.getElem_modify]
  split_ifs with hij
  · subst hij
    exact Or.inr rfl
  · exact Or.inl (List.getElem_mem hj')

end DockerEngine
