/-
Lean model of `pkg/truncindex/truncindex.go`: IDs looked up by any unambiguous prefix.

A `TruncIndex` keeps the same IDs twice, in a map `ids` and in a patricia trie, and updates the two one after the
other, with error returns between the updates. Go strings are byte strings (`Bytes`). The vendored trie
(`github.com/tchap/go-patricia`) is a parameter: an operations record `TrieOps` and, as hypotheses, a `TrieOps.Model`
saying that `Insert`, `Delete` and `VisitSubtree` act on a set of keys, `VisitSubtree(s)` visiting each key with
prefix `s` exactly once, in some order.

The invariant `Agree` (the trie holds exactly the map's IDs, none of them empty) holds after `newTruncIndex` and
after every `add`/`delete` (`run_agree`). `visit_spec` characterises the visitor `Get` passes to `VisitSubtree`, and
`truncIndex_unique_prefix` is the lookup contract over every sequence of operations.
-/
import Mathlib
import DockerEngine.Lib.Prelude

namespace DockerEngine.Truncindex

/-- a Go string: a sequence of bytes -/
abbrev Bytes := List UInt8

/-- `' '` -/
def space : UInt8 := 32

/-! ## The trie, as a parameter -/

/-- what `TruncIndex` calls on a `*patricia.Trie`: `Insert` and `Delete` report whether they changed it, and
`VisitSubtree(s)` is given as the keys it visits, in order -/
structure TrieOps (T : Type) where
  empty : T
  insert : T → Bytes → Bool × T
  delete : T → Bytes → Bool × T
  visitSubtree : T → Bytes → List Bytes

/-- `keys` is what a trie holds: `Insert` adds a key that is not there (and otherwise reports `false` and replaces
nothing), `Delete` removes one that is, `VisitSubtree(s)` visits each key with prefix `s` exactly once -/
structure TrieOps.Model {T : Type} (ops : TrieOps T) (keys : T → Set Bytes) : Prop where
  empty : keys ops.empty = ∅
  insert_ok : ∀ t k, (ops.insert t k).1 = true ↔ k ∉ keys t
  insert_keys : ∀ t k, keys (ops.insert t k).2 = keys t ∪ {k}
  delete_ok : ∀ t k, (ops.delete t k).1 = true ↔ k ∈ keys t
  delete_keys : ∀ t k, keys (ops.delete t k).2 = keys t \ {k}
  visit_nodup : ∀ t s, (ops.visitSubtree t s).Nodup
  mem_visit : ∀ t s k, k ∈ ops.visitSubtree t s ↔ k ∈ keys t ∧ s <+: k

/-! ## Model -/

/-- the errors of `truncindex` -/
inductive Err where
  /-- `ErrEmptyPrefix`: "Prefix can't be empty" -/
  | emptyPrefix
  /-- `ErrIllegalChar`: "illegal character: ' '" -/
  | illegalChar
  /-- `ErrNotExist`: "ID does not exist" -/
  | notExist
  /-- `ErrAmbiguousPrefix{prefix}`: "Multiple IDs found with provided prefix: %s" -/
  | ambiguousPrefix (p : Bytes)
  /-- "id already exists: '%s'" -/
  | alreadyExists (id : Bytes)
  /-- "failed to insert id: %s" -/
  | failedToInsert (id : Bytes)
  /-- "no such id: '%s'" -/
  | noSuchId (id : Bytes)
deriving DecidableEq, Repr

variable {T : Type} (P : TrieOps T)

/-- the trie and the id map -/
structure TruncIndex (T : Type) where
  trie : T
  ids : Finset Bytes

/-- `(*TruncIndex).addID`: the index after the call, and the error -/
def addID (idx : TruncIndex T) (id : Bytes) : TruncIndex T × Option Err :=
  if space ∈ id then (idx, some .illegalChar)
  else if id = [] then (idx, some .emptyPrefix)
  else if id ∈ idx.ids then (idx, some (.alreadyExists id))
  else
    let r := P.insert idx.trie id
    (⟨r.2, insert id idx.ids⟩, if r.1 then none else some (.failedToInsert id))

/-- `NewTruncIndex(ids)`: errors of `addID` are dropped -/
def newTruncIndex (ids : List Bytes) : TruncIndex T :=
  ids.foldl (fun idx id => (addID P idx id).1) ⟨P.empty, ∅⟩

/-- `(*TruncIndex).Add` -/
def add (idx : TruncIndex T) (id : Bytes) : TruncIndex T × Option Err := addID P idx id

/-- `(*TruncIndex).Delete` -/
def delete (idx : TruncIndex T) (id : Bytes) : TruncIndex T × Option Err :=
  if id ∉ idx.ids ∨ id = [] then (idx, some (.noSuchId id))
  else
    let r := P.delete idx.trie id
    (⟨r.2, idx.ids.erase id⟩, if r.1 then none else some (.noSuchId id))

/-- the visitor of `Get` over the visited keys: the first key is kept, a second one aborts the walk -/
def visit : List Bytes → Bytes → Except Err Bytes
  | [], id => .ok id
  | k :: ks, id => if id ≠ [] then .error (.ambiguousPrefix k) else visit ks k

/-- `(*TruncIndex).Get` -/
def get (idx : TruncIndex T) (s : Bytes) : Except Err Bytes :=
  if s = [] then .error .emptyPrefix
  else
    match visit (P.visitSubtree idx.trie s) [] with
    | .error e => .error e
    | .ok id => if id ≠ [] then .ok id else .error .notExist

/-- the calls that change an index -/
inductive Op where
  | add (id : Bytes)
  | delete (id : Bytes)
deriving DecidableEq, Repr

def step (idx : TruncIndex T) : Op → TruncIndex T
  | .add id => (add P idx id).1
  | .delete id => (delete P idx id).1

def run (idx : TruncIndex T) (ops : List Op) : TruncIndex T := ops.foldl (step P) idx

/-! ## The map and the trie agree -/

section Agree

variable {P} {keys : T → Set Bytes} (hP : P.Model keys)

/-- the trie holds exactly the map's IDs, and no ID is empty -/
def Agree (keys : T → Set Bytes) (idx : TruncIndex T) : Prop := keys idx.trie = ↑idx.ids ∧ [] ∉ idx.ids

/-- everything `addID` can do: refuse and change nothing, or insert a new non-empty ID into both -/
theorem addID_cases (idx : TruncIndex T) (id : Bytes) :
    (∃ e, addID P idx id = (idx, some e)) ∨
    (space ∉ id ∧ id ≠ [] ∧ id ∉ idx.ids ∧
      addID P idx id = (⟨(P.insert idx.trie id).2, insert id idx.ids⟩,
        if (P.insert idx.trie id).1 then none else some (.failedToInsert id))) := by
  by_cases h1 : space ∈ id
  · exact .inl ⟨.illegalChar, by simp [addID, h1]⟩
  by_cases h2 : id = []
  · exact .inl ⟨.emptyPrefix, by simp [addID, h2]⟩
  by_cases h3 : id ∈ idx.ids
  · exact .inl ⟨.alreadyExists id, by simp [addID, h1, h2, h3]⟩
  · exact .inr ⟨h1, h2, h3, by simp [addID, h1, h2, h3]⟩

/-- everything `Delete` can do: refuse and change nothing, or remove a member from both -/
theorem delete_cases (idx : TruncIndex T) (id : Bytes) :
    (∃ e, delete P idx id = (idx, some e)) ∨
    (id ∈ idx.ids ∧ id ≠ [] ∧
      delete P idx id = (⟨(P.delete idx.trie id).2, idx.ids.erase id⟩,
        if (P.delete idx.trie id).1 then none else some (.noSuchId id))) := by
  by_cases h : id ∉ idx.ids ∨ id = []
  · exact .inl ⟨.noSuchId id, by simp only [delete, h, if_true]⟩
  · simp only [not_or, not_not] at h
    exact .inr ⟨h.1, h.2, by simp [delete, h.1, h.2]⟩

include hP in
theorem addID_agree {idx : TruncIndex T} (h : Agree keys idx) (id : Bytes) : Agree keys (addID P idx id).1 := by
  rcases addID_cases idx id with ⟨e, he⟩ | ⟨-, hne, -, he⟩ <;> rw [he]
  · exact h
  · refine ⟨?_, ?_⟩
    · rw [hP.insert_keys, h.1]
      ext k
      simp
    · simp only [Finset.mem_insert, not_or]
      exact ⟨hne.symm, h.2⟩

include hP in
/-- under `Agree`, inserting a new ID into the trie succeeds -/
theorem addID_ok {idx : TruncIndex T} (h : Agree keys idx) {id : Bytes} (hs : space ∉ id) (hne : id ≠ [])
    (hnew : id ∉ idx.ids) : addID P idx id = (⟨(P.insert idx.trie id).2, insert id idx.ids⟩, none) := by
  have hok : (P.insert idx.trie id).1 = true := (hP.insert_ok _ _).2 (by rw [h.1]; exact_mod_cast hnew)
  simp [addID, hs, hne, hnew, hok]

include hP in
theorem delete_agree {idx : TruncIndex T} (h : Agree keys idx) (id : Bytes) : Agree keys (delete P idx id).1 := by
  rcases delete_cases idx id with ⟨e, he⟩ | ⟨-, -, he⟩ <;> rw [he]
  · exact h
  · refine ⟨?_, fun hm => h.2 (Finset.mem_of_mem_erase hm)⟩
    rw [hP.delete_keys, h.1]
    ext k
    simp [and_comm]

include hP in
theorem newTruncIndex_agree (ids : List Bytes) : Agree keys (newTruncIndex P ids) := by
  unfold newTruncIndex
  have h0 : Agree keys (⟨P.empty, ∅⟩ : TruncIndex T) := ⟨by simp [hP.empty], by simp⟩
  generalize (⟨P.empty, ∅⟩ : TruncIndex T) = idx at h0
  induction ids generalizing idx with
  | nil => exact h0
  | cons id ids ih => exact ih _ (addID_agree hP h0 id)

include hP in
theorem run_agree {idx : TruncIndex T} (h : Agree keys idx) (ops : List Op) : Agree keys (run P idx ops) := by
  induction ops generalizing idx with
  | nil => exact h
  | cons o ops ih =>
    apply ih
    cases o with
    | add id => exact addID_agree hP h id
    | delete id => exact delete_agree hP h id

end Agree

/-! ## Lookup -/

/-- the visitor, over keys none of which is empty: the only key, or an ambiguity at the second -/
theorem visit_cases (L : List Bytes) (hL : ∀ k ∈ L, k ≠ []) :
    (L = [] ∧ visit L [] = .ok []) ∨ (∃ k, L = [k] ∧ visit L [] = .ok k) ∨
    (∃ k₁ k₂ r, L = k₁ :: k₂ :: r ∧ visit L [] = .error (.ambiguousPrefix k₂)) := by
  match L with
  | [] => exact .inl ⟨rfl, rfl⟩
  | [k] => exact .inr (.inl ⟨k, rfl, rfl⟩)
  | k₁ :: k₂ :: r =>
    have h₁ : k₁ ≠ [] := hL k₁ (by simp)
    exact .inr (.inr ⟨k₁, k₂, r, rfl, by simp [visit, h₁]⟩)

/-- the IDs that have `s` as a prefix -/
def matching (idx : TruncIndex T) (s : Bytes) : Finset Bytes := idx.ids.filter (s <+: ·)

section Lookup

variable {P} {keys : T → Set Bytes} (hP : P.Model keys)

include hP in
/-- `VisitSubtree(s)` visits exactly the matching IDs, each once -/
theorem visitSubtree_matching {idx : TruncIndex T} (h : Agree keys idx) (s : Bytes) :
    (P.visitSubtree idx.trie s).toFinset = matching idx s ∧
      (P.visitSubtree idx.trie s).length = (matching idx s).card := by
  have hset : (P.visitSubtree idx.trie s).toFinset = matching idx s := by
    ext k
    rw [List.mem_toFinset, hP.mem_visit, h.1, matching, Finset.mem_filter]
    simp
  refine ⟨hset, ?_⟩
  rw [← hset, List.toFinset_card_of_nodup (hP.visit_nodup _ _)]

include hP in
/-- **What `Get` returns.** With the map and the trie in agreement: `ErrNotExist` when no ID has prefix `s`, the
ID when exactly one has, `ErrAmbiguousPrefix` when two or more have. -/
theorem get_spec {idx : TruncIndex T} (h : Agree keys idx) {s : Bytes} (hs : s ≠ []) :
    (matching idx s = ∅ ∧ get P idx s = .error .notExist) ∨
    (∃ id, matching idx s = {id} ∧ get P idx s = .ok id) ∨
    (2 ≤ (matching idx s).card ∧ ∃ p, get P idx s = .error (.ambiguousPrefix p)) := by
  obtain ⟨hset, hlen⟩ := visitSubtree_matching hP h s
  have hne : ∀ k ∈ P.visitSubtree idx.trie s, k ≠ [] := by
    intro k hk hk0
    rw [hP.mem_visit, h.1, hk0] at hk
    exact h.2 hk.1
  rcases visit_cases _ hne with ⟨hL, hv⟩ | ⟨k, hL, hv⟩ | ⟨k₁, k₂, r, hL, hv⟩
  · left
    rw [hL] at hset
    exact ⟨by simpa using hset.symm, by simp [get, hs, hv]⟩
  · right; left
    rw [hL] at hset
    refine ⟨k, by simpa using hset.symm, ?_⟩
    have hk : k ≠ [] := hne k (by simp [hL])
    simp [get, hs, hv, hk]
  · right; right
    rw [hL] at hlen
    exact ⟨by simp at hlen; omega, k₂, by simp [get, hs, hv]⟩

end Lookup

theorem add_refused (idx : TruncIndex T) {id : Bytes} (h : space ∈ id ∨ id = [] ∨ id ∈ idx.ids) :
    ∃ e, add P idx id = (idx, some e) := by
  rcases addID_cases idx id with he | ⟨h1, h2, h3, -⟩
  · exact he
  · rcases h with h | h | h
    · exact absurd h h1
    · exact absurd h h2
    · exact absurd h h3

theorem delete_refused (idx : TruncIndex T) {id : Bytes} (h : id ∉ idx.ids) :
    ∃ e, delete P idx id = (idx, some e) :=
  ⟨.noSuchId id, by simp [delete, h]⟩

/-- **Unique-prefix lookup.** After `NewTruncIndex(ids)` and any sequence of `Add` and `Delete` calls, the trie
holds exactly the IDs of the map; for every non-empty `s`, `Get(s)` returns an ID exactly when it is the only one
with prefix `s`, `ErrAmbiguousPrefix` exactly when two or more have it, and `ErrNotExist` exactly when none has;
and `Add` of an ID with a space, of `""` or of a member, and `Delete` of a non-member, fail and change nothing. -/
theorem truncIndex_unique_prefix (keys : T → Set Bytes) (hP : P.Model keys) (ids : List Bytes) (ops : List Op) :
    let idx := run P (newTruncIndex P ids) ops
    keys idx.trie = ↑idx.ids ∧
    (∀ s, s ≠ [] →
      (∀ id, get P idx s = .ok id ↔ matching idx s = {id}) ∧
      ((∃ p, get P idx s = .error (.ambiguousPrefix p)) ↔ 2 ≤ (matching idx s).card) ∧
      (get P idx s = .error .notExist ↔ matching idx s = ∅)) ∧
    (∀ id, space ∈ id ∨ id = [] ∨ id ∈ idx.ids → ∃ e, add P idx id = (idx, some e)) ∧
    (∀ id, id ∉ idx.ids → ∃ e, delete P idx id = (idx, some e)) := by
  intro idx
  have h : Agree keys idx := run_agree hP (newTruncIndex_agree hP ids) ops
  refine ⟨h.1, fun s hs => ?_, fun id hid => add_refused P idx hid, fun id hid => delete_refused P idx hid⟩
  rcases get_spec hP h hs with ⟨hm, hg⟩ | ⟨id', hm, hg⟩ | ⟨hc, p, hg⟩
  · refine ⟨fun id => ?_, ?_, ?_⟩ <;> simp [hg, hm]
  · refine ⟨fun id => ?_, ?_, ?_⟩
    · rw [hg, hm, Finset.singleton_inj]
      simp
    · simp [hg, hm]
    · simp [hg, hm]
  · have hne : matching idx s ≠ ∅ := by
      intro h0
      rw [h0] at hc
      simp at hc
    refine ⟨fun id => ?_, ⟨fun _ => hc, fun _ => ⟨p, hg⟩⟩, ?_⟩
    · constructor
      · intro h1; rw [hg] at h1; cases h1
      · intro h1; rw [h1] at hc; simp at hc
    · simp [hg, hne]

/-- a trie kept as a duplicate-free list, newest key first -/
def listTrie : TrieOps {l : List Bytes // l.Nodup} where
  empty := ⟨[], List.nodup_nil⟩
  insert t k := if h : k ∈ t.1 then (false, t) else (true, ⟨k :: t.1, List.Nodup.cons h t.2⟩)
  delete t k := if k ∈ t.1 then (true, ⟨t.1.erase k, t.2.erase k⟩) else (false, t)
  visitSubtree t s := t.1.filter (fun k => decide (s <+: k))

theorem listTrie_model : listTrie.Model (fun t => {k | k ∈ t.1}) where
  empty := by simp [listTrie]
  insert_ok t k := by by_cases h : k ∈ t.1 <;> simp [listTrie, h]
  insert_keys t k := by
    by_cases h : k ∈ t.1
    · ext k'
      simp only [listTrie, h, dite_true, Set.mem_ofPred_eq, Set.mem_union, Set.mem_singleton_iff]
      constructor
      · exact Or.inl
      · rintro (h' | rfl) <;> assumption
    · ext k'
      simp [listTrie, h]
  delete_ok t k := by by_cases h : k ∈ t.1 <;> simp [listTrie, h]
  delete_keys t k := by
    by_cases h : k ∈ t.1
    · ext k'
      simp [listTrie, h, t.2.mem_erase_iff, and_comm]
    · ext k'
      simp only [listTrie, h, if_false, Set.mem_ofPred_eq, Set.mem_sdiff, Set.mem_singleton_iff]
      constructor
      · intro h'
        exact ⟨h', fun he => h (he ▸ h')⟩
      · exact And.left
  visit_nodup t s := t.2.filter _
  mem_visit t s k := by simp [listTrie]

/-- two IDs sharing the prefix "ab", then one of them deleted -/
theorem truncIndex_unique_prefix_listTrie :
    let idx := run listTrie (newTruncIndex listTrie [[97, 98, 99], [97, 98, 100]]) [.delete [97, 98, 100]]
    {k | k ∈ idx.trie.1} = ↑idx.ids ∧
    (∀ s, s ≠ [] →
      (∀ id, get listTrie idx s = .ok id ↔ matching idx s = {id}) ∧
      ((∃ p, get listTrie idx s = .error (.ambiguousPrefix p)) ↔ 2 ≤ (matching idx s).card) ∧
      (get listTrie idx s = .error .notExist ↔ matching idx s = ∅)) ∧
    (∀ id, space ∈ id ∨ id = [] ∨ id ∈ idx.ids → ∃ e, add listTrie idx id = (idx, some e)) ∧
    (∀ id, id ∉ idx.ids → ∃ e, delete listTrie idx id = (idx, some e)) :=
  truncIndex_unique_prefix listTrie _ listTrie_model _ _

end DockerEngine.Truncindex
