/-
Lean model of `fixManifestLayers` in `distribution/pull_v2.go`, which checks the layers of a schema-1 manifest and
removes the repeated ones before `pullSchema1` downloads them.

A manifest is its `FSLayers` and its `History`, the two lists the function edits; a layer is of any type. The
`V1Compatibility` of each history entry is decoded by `json.Unmarshal`, which is a parameter: the results hold for
every decoder. An image is the `ID` and the `Parent` of its `image.V1Image`, the fields the function reads, and
`runtime.GOOS` is not `"windows"`.

`fixManifestLayers_spec`: with at least one layer and as many history entries as layers, the function returns nil
exactly when every entry decodes to an image with a valid ID, the last image has no parent, equal IDs are consecutive
(`ConsecutiveRuns`) and every image whose ID differs from the next one's has that ID as its parent (`ParentChain`).
It has then removed from both lists every entry of a run of equal IDs but the last (`keepRunLasts`), so each layer
keeps its history entry, and the images left have distinct IDs and are a chain of parents down to the base layer.
The duplicate check is `checkDuplicates_eq_ok_iff` against `ConsecutiveRuns`, and the backwards loop is
`removeRepeated_spec`: a deletion at `i` leaves the indices below `i` alone.
-/
import DockerEngine.Go.Strings
import DockerEngine.Lib.Prelude
import Mathlib.Data.List.GetD
import Mathlib.Tactic

namespace DockerEngine.Distribution.Schema1

open Go

/-- the fields of `image.V1Image` that `fixManifestLayers` reads -/
structure V1Image where
  id : Text
  parent : Text
  deriving DecidableEq, Repr

/-- `schema1.History` -/
structure History where
  v1Compatibility : Text
  deriving DecidableEq, Repr

/-- the layers and the history of a `schema1.Manifest` -/
structure Manifest (Layer : Type) where
  fsLayers : List Layer
  history : List History
  deriving DecidableEq, Repr

/-- the errors of `fixManifestLayers` -/
inductive FixError
  /-- the error of `json.Unmarshal` -/
  | unmarshal
  /-- `fmt.Errorf("image ID %q is invalid", id)` of `v1.ValidateID` -/
  | invalidID (id : Text)
  /-- `errors.New("Invalid parent ID in the base layer of the image.")` -/
  | invalidBaseParent
  /-- `fmt.Errorf("ID %+v appears multiple times in manifest", img.ID)` -/
  | duplicateID (id : Text)
  /-- `fmt.Errorf("Invalid parent ID. Expected %v, got %v.", imgs[i+1].ID, imgs[i].Parent)` -/
  | invalidParent (expected got : Text)
  /-- an index out of range: `m.History[i]` past the history, or `imgs[len(imgs)-1]` without layers -/
  | panic
  deriving DecidableEq, Repr

/-- `validHex.MatchString(id)` of `v1.ValidateID`, with `validHex` the expression `^([a-f0-9]{64})$` -/
def validID (id : Text) : Bool := id.length = 64 ∧ id.all fun c => ('a' ≤ c ∧ c ≤ 'f') ∨ ('0' ≤ c ∧ c ≤ '9')

section Fix

variable {Layer : Type} (unmarshal : Text → Option V1Image)

/-- the loop `for i := range m.FSLayers`: the image of each history entry, decoded and its ID validated -/
def decodeImages : List Layer → List History → Except FixError (List V1Image)
  | [], _ => .ok []
  | _ :: _, [] => .error .panic
  | _ :: fsLayers, h :: history =>
    match unmarshal h.v1Compatibility with
    | none => .error .unmarshal
    | some img => if validID img.id then (decodeImages fsLayers history).map (img :: ·) else .error (.invalidID img.id)

/-- the loop over `imgs` that checks for duplicates, with the IDs in `idmap` and the last one -/
def checkDuplicates : List Text → Text → List V1Image → Except FixError Unit
  | _, _, [] => .ok ()
  | idmap, lastID, img :: imgs =>
    -- an ID right after itself is skipped here and removed later
    if img.id ≠ lastID ∧ img.id ∈ idmap then .error (.duplicateID img.id)
    else checkDuplicates (img.id :: idmap) img.id imgs

/-- the backwards loop `for i := len(imgs) - 2; i >= 0; i--` from `i = k - 1` down -/
def removeRepeated (imgs : List V1Image) : ℕ → Manifest Layer → Except FixError (Manifest Layer)
  | 0, m => .ok m
  | i + 1, m =>
    let img := imgs.getD i ⟨[], []⟩
    let next := imgs.getD (i + 1) ⟨[], []⟩
    if img.id = next.id then removeRepeated imgs i ⟨m.fsLayers.eraseIdx i, m.history.eraseIdx i⟩
    else if img.parent ≠ next.id then .error (.invalidParent next.id img.parent)
    else removeRepeated imgs i m

/-- `fixManifestLayers(m)`: the manifest it leaves, or its error -/
def fixManifestLayers (m : Manifest Layer) : Except FixError (Manifest Layer) := do
  let imgs ← decodeImages unmarshal m.fsLayers m.history
  match imgs.getLast? with
  | none => .error .panic
  | some base =>
    if base.parent ≠ [] then .error .invalidBaseParent
    else do
      checkDuplicates [] [] imgs
      removeRepeated imgs (imgs.length - 1) m

end Fix

/-! ## What is accepted -/

/-- equal IDs are consecutive: an ID met again was met at every index between -/
def ConsecutiveRuns (ids : List Text) : Prop :=
  ∀ (i j k : ℕ) (x : Text), i < j → j < k → ids[i]? = some x → ids[k]? = some x → ids[j]? = some x

/-- each image whose ID differs from the next one's has that ID as its parent -/
def ParentChain (imgs : List V1Image) : Prop :=
  ∀ (i : ℕ) (a b : V1Image), imgs[i]? = some a → imgs[i + 1]? = some b → a.id ≠ b.id → a.parent = b.id

/-- what `fixManifestLayers` accepts: every history entry decodes to an image with a valid ID, the last image has no
parent, equal IDs are consecutive, and the parents chain the images -/
def Accepted {Layer : Type} (unmarshal : Text → Option V1Image) (m : Manifest Layer) : Prop :=
  ∃ imgs, m.history.mapM (fun h => unmarshal h.v1Compatibility) = some imgs ∧ (∀ img ∈ imgs, validID img.id) ∧
    imgs.getLast?.map V1Image.parent = some [] ∧ ConsecutiveRuns (imgs.map V1Image.id) ∧ ParentChain imgs

/-- the entries of `l` that are the last of a run of equal IDs in `ids` -/
def keepRunLasts {α : Type} : List Text → List α → List α
  | i :: j :: ids, x :: xs => if i = j then keepRunLasts (j :: ids) xs else x :: keepRunLasts (j :: ids) xs
  | [_], x :: _ => [x]
  | _, _ => []


/-! ## The decoding loop and the duplicate check -/

section Loops

variable {Layer : Type} (unmarshal : Text → Option V1Image)

/-- the loop decodes every history entry, and every ID it keeps is valid -/
theorem decodeImages_eq_ok_iff {fsLayers : List Layer} {history : List History}
    (hlen : fsLayers.length = history.length) {imgs : List V1Image} :
    decodeImages unmarshal fsLayers history = .ok imgs ↔
      history.mapM (fun h => unmarshal h.v1Compatibility) = some imgs ∧ ∀ img ∈ imgs, validID img.id := by
  induction fsLayers generalizing history imgs with
  | nil =>
    rw [List.eq_nil_of_length_eq_zero hlen.symm]
    simp only [decodeImages, List.mapM_nil, Except.ok.injEq]
    constructor
    · rintro rfl
      exact ⟨rfl, by simp⟩
    · rintro ⟨hm, -⟩
      exact Option.some.inj hm
  | cons l fsLayers ih =>
    obtain _ | ⟨h, history⟩ := history
    · simp at hlen
    have ih' := @ih history (by simpa using hlen)
    cases hu : unmarshal h.v1Compatibility with
    | none => simp [decodeImages, hu]
    | some img =>
      -- the entry decodes, and the rest of the loop is the induction hypothesis
      have hmapM : ∀ {imgs : List V1Image}, (h :: history).mapM (fun h => unmarshal h.v1Compatibility) = some imgs ↔
          ∃ rest, history.mapM (fun h => unmarshal h.v1Compatibility) = some rest ∧ img :: rest = imgs := by
        intro imgs
        simp [hu, Option.bind_eq_some_iff]
      rw [hmapM]
      simp only [decodeImages, hu]
      by_cases hv : validID img.id
      · simp only [hv, if_true]
        constructor
        · intro hmap
          obtain ⟨rest, hrest, rfl⟩ := except_map_eq_ok hmap
          obtain ⟨hm, hval⟩ := ih'.mp hrest
          exact ⟨⟨rest, hm, rfl⟩, by simpa [hv] using hval⟩
        · rintro ⟨⟨rest, hrest, rfl⟩, hval⟩
          rw [ih'.mpr ⟨hrest, fun x hx => hval x (List.mem_cons_of_mem _ hx)⟩]
          rfl
      · simp only [hv, if_false, reduceCtorEq, false_iff, not_and]
        rintro ⟨rest, -, rfl⟩ hval
        exact hv (hval img List.mem_cons_self)

/-- the loop decodes one image per layer -/
theorem length_decodeImages {fsLayers : List Layer} {history : List History} {imgs : List V1Image}
    (h : decodeImages unmarshal fsLayers history = .ok imgs) : imgs.length = fsLayers.length := by
  induction fsLayers generalizing history imgs with
  | nil =>
    cases h
    rfl
  | cons l fsLayers ih =>
    obtain _ | ⟨e, history⟩ := history
    · cases h
    simp only [decodeImages] at h
    split at h
    · cases h
    · split_ifs at h
      obtain ⟨rest, hrest, rfl⟩ := except_map_eq_ok h
      simp [ih hrest]

/-- the duplicate check passes when every ID that is not the one before it is new: not in `idmap`, and not earlier
among the images -/
theorem checkDuplicates_eq_ok_iff (idmap : List Text) (lastID : Text) (imgs : List V1Image) :
    checkDuplicates idmap lastID imgs = .ok () ↔
      ∀ (k : ℕ) (x : Text), (imgs.map V1Image.id)[k]? = some x → (lastID :: imgs.map V1Image.id)[k]? ≠ some x →
        x ∉ idmap ∧ x ∉ (imgs.map V1Image.id).take k := by
  induction imgs generalizing idmap lastID with
  | nil => simp [checkDuplicates]
  | cons img imgs ih =>
    rw [checkDuplicates]
    split_ifs with hdup
    · -- the image at index 0 is the duplicate
      simp only [false_iff, not_forall]
      exact ⟨0, img.id, by simp, by simpa [eq_comm] using hdup.1, fun h => h.1 hdup.2⟩
    · rw [ih]
      constructor
      · intro h k x hk hne
        cases k with
        | zero =>
          obtain rfl : img.id = x := by simpa using hk
          have hlast : img.id ≠ lastID := by simpa [eq_comm] using hne
          exact ⟨fun hmem => hdup ⟨hlast, hmem⟩, by simp⟩
        | succ k =>
          obtain ⟨hnew, hearlier⟩ := h k x (by simpa using hk) (by simpa using hne)
          rw [List.mem_cons, not_or] at hnew
          simp only [List.map_cons, List.take_succ_cons, List.mem_cons, not_or]
          exact ⟨hnew.2, hnew.1, hearlier⟩
      · intro h k x hk hne
        obtain ⟨hnew, hearlier⟩ := h (k + 1) x (by simpa using hk) (by simpa using hne)
        simp only [List.map_cons, List.take_succ_cons, List.mem_cons, not_or] at hearlier
        exact ⟨by simp [hearlier.1, hnew], hearlier.2⟩

/-- an element at an index below `n` is in the first `n` -/
theorem mem_take_of_getElem? {α : Type} {l : List α} {i n : ℕ} {x : α} (hi : i < n) (h : l[i]? = some x) :
    x ∈ l.take n := by
  have hget : (l.take n)[i]? = some x := by rw [List.getElem?_take, if_pos hi, h]
  exact List.mem_of_getElem? hget

/-- equal IDs are consecutive when every ID that differs from the one before it is met for the first time -/
theorem consecutiveRuns_iff_new (ids : List Text) :
    ConsecutiveRuns ids ↔ ∀ (k : ℕ) (x : Text), ids[k + 1]? = some x → ids[k]? ≠ some x → x ∉ ids.take (k + 1) := by
  constructor
  · intro h k x hk hne hmem
    obtain ⟨i, hi⟩ := List.mem_iff_getElem?.mp hmem
    rw [List.getElem?_take] at hi
    split_ifs at hi with hik
    -- the earlier `x` at `i` and the one at `k + 1` enclose `k`
    rcases Nat.lt_or_eq_of_le (Nat.le_of_lt_succ hik) with hlt | rfl
    · exact hne (h i k (k + 1) x hlt (Nat.lt_succ_self k) hi hk)
    · exact hne hi
  · intro h i j k x hij hjk hi hk
    -- down from `k`: each index where `x` is met is met right after another `x`, back to `j`
    induction k with
    | zero => omega
    | succ k ih =>
      by_cases hkx : ids[k]? = some x
      · rcases Nat.lt_or_eq_of_le (Nat.le_of_lt_succ hjk) with hlt | rfl
        · exact ih hlt hkx
        · exact hkx
      · exact absurd (mem_take_of_getElem? (by omega) hi) (h k x hk hkx)

/-- the check from an empty `idmap` passes exactly when equal IDs are consecutive -/
theorem checkDuplicates_nil_eq_ok_iff (imgs : List V1Image) :
    checkDuplicates [] [] imgs = .ok () ↔ ConsecutiveRuns (imgs.map V1Image.id) := by
  rw [checkDuplicates_eq_ok_iff, consecutiveRuns_iff_new]
  constructor
  · intro h k x hk hne
    exact (h (k + 1) x hk (by simpa using hne)).2
  · intro h k x hk hne
    cases k with
    | zero => simp
    | succ k => exact ⟨List.not_mem_nil, h k x hk (by simpa using hne)⟩

end Loops

/-! ## The entries kept -/

section Keep

variable {α β : Type}

@[simp] theorem keepRunLasts_nil_right (ids : List Text) : keepRunLasts ids ([] : List α) = [] := by
  rcases ids with _ | ⟨i, _ | ⟨j, ids⟩⟩ <;> rfl

@[simp] theorem keepRunLasts_nil_left (l : List α) : keepRunLasts [] l = [] := by
  cases l <;> rfl

theorem keepRunLasts_sublist : ∀ (ids : List Text) (l : List α), (keepRunLasts ids l).Sublist l
  | i :: j :: ids, x :: xs => by
    rw [keepRunLasts]
    split_ifs
    · exact (keepRunLasts_sublist (j :: ids) xs).cons x
    · exact (keepRunLasts_sublist (j :: ids) xs).cons_cons x
  | [_], x :: xs => by simp [keepRunLasts]
  | [], l => by simp
  | _ :: _, [] => by simp

theorem keepRunLasts_map (f : α → β) : ∀ (ids : List Text) (l : List α),
    (keepRunLasts ids l).map f = keepRunLasts ids (l.map f)
  | i :: j :: ids, x :: xs => by
    simp only [List.map_cons, keepRunLasts]
    split_ifs <;> simp [keepRunLasts_map f (j :: ids) xs]
  | [_], x :: xs => rfl
  | [], l => by simp
  | _ :: _, [] => by simp

/-- the same entries are kept of two lists side by side -/
theorem keepRunLasts_zip : ∀ (ids : List Text) (l₁ : List α) (l₂ : List β),
    keepRunLasts ids (l₁.zip l₂) = (keepRunLasts ids l₁).zip (keepRunLasts ids l₂)
  | i :: j :: ids, x :: xs, y :: ys => by
    simp only [List.zip_cons_cons, keepRunLasts]
    split_ifs <;> simp [keepRunLasts_zip (j :: ids) xs ys]
  | [_], _ :: _, _ :: _ => rfl
  | [], _, _ => by simp
  | _ :: _, [], _ => by simp
  | _ :: _, _ :: _, [] => by simp

/-- the first entry kept is of the first run -/
theorem head?_keepRunLasts (f : α → Text) : ∀ l : List α,
    (keepRunLasts (l.map f) l).head?.map f = l.head?.map f
  | a :: b :: l => by
    have ih := head?_keepRunLasts f (b :: l)
    simp only [List.map_cons, keepRunLasts] at ih ⊢
    split_ifs with hab
    · rw [ih, List.head?_cons, List.head?_cons, Option.map_some, Option.map_some, hab]
    · rfl
  | [_] => rfl
  | [] => by simp

/-- the last entry is kept -/
theorem getLast?_keepRunLasts : ∀ (ids : List Text) (l : List α), ids.length = l.length →
    (keepRunLasts ids l).getLast? = l.getLast?
  | i :: j :: ids, x :: y :: xs, hlen => by
    have ih := getLast?_keepRunLasts (j :: ids) (y :: xs) (by simpa using hlen)
    rw [keepRunLasts]
    split_ifs
    · rw [ih, List.getLast?_cons_cons]
    · rw [List.getLast?_cons, ih, List.getLast?_cons_cons, List.getLast?_cons, Option.getD_some]
  | [_], [_], _ => rfl
  | [], [], _ => rfl
  | [_], _ :: _ :: _, hlen => by simp at hlen
  | _ :: _ :: _, [_], hlen => by simp at hlen
  | [], _ :: _, hlen => by simp at hlen
  | _ :: _, [], hlen => by simp at hlen

end Keep

/-- equal IDs are consecutive in the IDs after the first -/
theorem ConsecutiveRuns.tail {i : Text} {ids : List Text} (h : ConsecutiveRuns (i :: ids)) : ConsecutiveRuns ids :=
  fun a b c x hab hbc ha hc => h (a + 1) (b + 1) (c + 1) x (by omega) (by omega) ha hc

/-- with equal IDs consecutive, the IDs kept are distinct -/
theorem nodup_keepRunLasts : ∀ ids : List Text, ConsecutiveRuns ids → (keepRunLasts ids ids).Nodup
  | i :: j :: ids, h => by
    have ih := nodup_keepRunLasts (j :: ids) h.tail
    rw [keepRunLasts]
    split_ifs with hij
    · exact ih
    · refine List.nodup_cons.mpr ⟨fun hmem => ?_, ih⟩
      -- an `i` after `j` would make `j` an `i` too
      obtain ⟨k, hk⟩ := List.mem_iff_getElem?.mp ((keepRunLasts_sublist _ _).subset hmem)
      rcases k with _ | k
      · exact hij (Option.some.inj hk).symm
      · exact hij (Option.some.inj (h 0 1 (k + 2) i (by omega) (by omega) rfl hk)).symm
  | [_], _ => List.nodup_singleton _
  | [], _ => by simp

/-- the images whose ID differs from the next one's, in the tail -/
theorem ParentChain.tail {a : V1Image} {imgs : List V1Image} (h : ParentChain (a :: imgs)) : ParentChain imgs :=
  fun i => h (i + 1)

/-- with the parents chaining the images, each image kept has the next one kept as its parent -/
theorem isChain_keepRunLasts : ∀ imgs : List V1Image, ParentChain imgs →
    List.IsChain (fun a b => a.parent = b.id) (keepRunLasts (imgs.map V1Image.id) imgs)
  | a :: b :: imgs, h => by
    have ih := isChain_keepRunLasts (b :: imgs) h.tail
    simp only [List.map_cons, keepRunLasts] at ih ⊢
    split_ifs with hab
    · exact ih
    · refine ih.cons fun c hc => ?_
      -- the first image kept after `a` has `b`'s ID
      have hhead := head?_keepRunLasts V1Image.id (b :: imgs)
      rw [Option.mem_def] at hc
      simp only [List.map_cons, hc, Option.map_some, List.head?_cons, Option.some.injEq] at hhead
      rw [hhead]
      exact h 0 a b rfl rfl hab
  | [_], _ => List.isChain_singleton _
  | [], _ => by simp


/-! ## The backwards loop -/

/-- the entries of `l` below `k` as they are, and from `k` on those that are the last of their run: what the loop
has left of `l` when it comes down to `k` -/
def keepRunLastsFrom {α : Type} (ids : List Text) (l : List α) (k : ℕ) : List α :=
  l.take k ++ keepRunLasts (ids.drop k) (l.drop k)

section Loop

variable {α : Type} {ids : List Text} {l : List α}

/-- one run step of `keepRunLasts` at index `i` -/
theorem keepRunLasts_drop {i : ℕ} (hi : i + 1 < ids.length) (hl : i < l.length) :
    keepRunLasts (ids.drop i) (l.drop i) =
      if ids[i] = ids[i + 1] then keepRunLasts (ids.drop (i + 1)) (l.drop (i + 1))
      else l[i] :: keepRunLasts (ids.drop (i + 1)) (l.drop (i + 1)) := by
  rw [List.drop_eq_getElem_cons (by omega : i < ids.length), List.drop_eq_getElem_cons hi,
    List.drop_eq_getElem_cons hl, keepRunLasts]

@[simp] theorem keepRunLastsFrom_zero : keepRunLastsFrom ids l 0 = keepRunLasts ids l := by
  simp [keepRunLastsFrom]

/-- at the last index nothing has been removed yet -/
theorem keepRunLastsFrom_last {n : ℕ} (hids : ids.length = n + 1) (hl : l.length = n + 1) :
    keepRunLastsFrom ids l n = l := by
  obtain ⟨a, ha⟩ : ∃ a, ids.drop n = [a] := List.length_eq_one_iff.mp (by simp [hids])
  obtain ⟨x, hx⟩ : ∃ x, l.drop n = [x] := List.length_eq_one_iff.mp (by simp [hl])
  unfold keepRunLastsFrom
  rw [ha, hx]
  change l.take n ++ [x] = l
  rw [← hx, List.take_append_drop]

/-- an entry whose ID differs from the next one's stays -/
theorem keepRunLastsFrom_succ_of_ne {i : ℕ} (hi : i + 1 < ids.length) (hl : l.length = ids.length)
    (hne : ids[i] ≠ ids[i + 1]) : keepRunLastsFrom ids l (i + 1) = keepRunLastsFrom ids l i := by
  have hil : i < l.length := by omega
  unfold keepRunLastsFrom
  rw [keepRunLasts_drop hi hil, if_neg hne, List.take_add_one, List.getElem?_eq_getElem hil, Option.toList_some,
    List.append_assoc, List.singleton_append]

/-- an entry whose ID is the next one's is the one `eraseIdx` removes -/
theorem eraseIdx_keepRunLastsFrom {i : ℕ} (hi : i + 1 < ids.length) (hl : l.length = ids.length)
    (heq : ids[i] = ids[i + 1]) : (keepRunLastsFrom ids l (i + 1)).eraseIdx i = keepRunLastsFrom ids l i := by
  have hil : i < l.length := by omega
  have htake : (l.take i).length ≤ i := by simp
  unfold keepRunLastsFrom
  rw [keepRunLasts_drop hi hil, if_pos heq, List.take_add_one, List.getElem?_eq_getElem hil, Option.toList_some,
    List.append_assoc, List.eraseIdx_append_of_length_le htake, List.length_take, Nat.min_eq_left hil.le,
    Nat.sub_self, List.singleton_append, List.eraseIdx_cons_zero]

end Loop

section Fix

variable {Layer : Type} (unmarshal : Text → Option V1Image)

/-- the link between the images at `i` and `i + 1`, read at their indices -/
theorem parentLink_iff {imgs : List V1Image} {i : ℕ} (hi : i + 1 < imgs.length) :
    (∀ a b, imgs[i]? = some a → imgs[i + 1]? = some b → a.id ≠ b.id → a.parent = b.id) ↔
      (imgs[i].id ≠ imgs[i + 1].id → imgs[i].parent = imgs[i + 1].id) := by
  simp [List.getElem?_eq_getElem hi, List.getElem?_eq_getElem (by omega : i < imgs.length)]

/-- the loop from `k` down passes when the images below `k` chain by their parents, and then leaves of each list the
entries that are the last of their run -/
theorem removeRepeated_eq_ok_iff (imgs : List V1Image) (m : Manifest Layer)
    (hfs : m.fsLayers.length = imgs.length) (hh : m.history.length = imgs.length) {k : ℕ} (hk : k < imgs.length)
    {m' : Manifest Layer} :
    removeRepeated imgs k ⟨keepRunLastsFrom (imgs.map V1Image.id) m.fsLayers k,
        keepRunLastsFrom (imgs.map V1Image.id) m.history k⟩ = .ok m' ↔
      (∀ i < k, ∀ a b, imgs[i]? = some a → imgs[i + 1]? = some b → a.id ≠ b.id → a.parent = b.id) ∧
        m' = ⟨keepRunLasts (imgs.map V1Image.id) m.fsLayers, keepRunLasts (imgs.map V1Image.id) m.history⟩ := by
  induction k generalizing m' with
  | zero => simp [removeRepeated, eq_comm]
  | succ i ih =>
    have hids : i + 1 < (imgs.map V1Image.id).length := by simpa using hk
    have hfs' : m.fsLayers.length = (imgs.map V1Image.id).length := by simpa using hfs
    have hh' : m.history.length = (imgs.map V1Image.id).length := by simpa using hh
    rw [Nat.forall_lt_succ_right, parentLink_iff hk]
    simp only [removeRepeated, List.getD_eq_getElem _ _ hk, List.getD_eq_getElem _ _ (by omega : i < imgs.length)]
    by_cases heq : imgs[i].id = imgs[i + 1].id
    · -- a repeated image: the deletion at `i` turns the state at `i + 1` into the one at `i`
      have heq' : (imgs.map V1Image.id)[i] = (imgs.map V1Image.id)[i + 1] := by simpa using heq
      rw [if_pos heq, eraseIdx_keepRunLastsFrom hids hfs' heq', eraseIdx_keepRunLastsFrom hids hh' heq', ih (by omega)]
      simp [heq]
    · have hne : (imgs.map V1Image.id)[i] ≠ (imgs.map V1Image.id)[i + 1] := by simpa using heq
      rw [if_neg heq]
      by_cases hpar : imgs[i].parent = imgs[i + 1].id
      · rw [if_neg (not_not.mpr hpar), keepRunLastsFrom_succ_of_ne hids hfs' hne,
          keepRunLastsFrom_succ_of_ne hids hh' hne, ih (by omega)]
        simp [hpar]
      · rw [if_pos hpar]
        simp [heq, hpar]

/-- the images chain by their parents when each of the first `n` does -/
theorem parentChain_iff_below {imgs : List V1Image} {n : ℕ} (hn : imgs.length = n + 1) :
    ParentChain imgs ↔ ∀ i < n, ∀ a b, imgs[i]? = some a → imgs[i + 1]? = some b → a.id ≠ b.id → a.parent = b.id := by
  constructor
  · intro h i _
    exact h i
  · intro h i a b ha hb
    have hi : i + 1 < imgs.length := (List.getElem?_eq_some_iff.mp hb).1
    exact h i (by omega) a b ha hb

/-- the whole backwards loop passes when the images chain by their parents, and leaves the last entry of each run -/
theorem removeRepeated_eq_ok_iff_parentChain (imgs : List V1Image) (m : Manifest Layer) (hne : imgs ≠ [])
    (hfs : m.fsLayers.length = imgs.length) (hh : m.history.length = imgs.length) {m' : Manifest Layer} :
    removeRepeated imgs (imgs.length - 1) m = .ok m' ↔
      ParentChain imgs ∧
        m' = ⟨keepRunLasts (imgs.map V1Image.id) m.fsLayers, keepRunLasts (imgs.map V1Image.id) m.history⟩ := by
  obtain ⟨n, hn⟩ : ∃ n, imgs.length = n + 1 := Nat.exists_eq_add_one.mpr (List.length_pos_iff.mpr hne)
  have hids : (imgs.map V1Image.id).length = n + 1 := by simp [hn]
  have h := @removeRepeated_eq_ok_iff Layer imgs m hfs hh n (by omega) m'
  -- the loop starts from the manifest as it is
  rw [keepRunLastsFrom_last hids (by omega), keepRunLastsFrom_last hids (by omega)] at h
  rw [hn, Nat.add_sub_cancel, parentChain_iff_below hn]
  exact h

/-- `fixManifestLayers` returns nil when each of its checks passes in turn -/
theorem fixManifestLayers_eq_ok_iff (m m' : Manifest Layer) :
    fixManifestLayers unmarshal m = .ok m' ↔
      ∃ imgs base, decodeImages unmarshal m.fsLayers m.history = .ok imgs ∧ imgs.getLast? = some base ∧
        base.parent = [] ∧ checkDuplicates [] [] imgs = .ok () ∧ removeRepeated imgs (imgs.length - 1) m = .ok m' := by
  unfold fixManifestLayers
  cases hd : decodeImages unmarshal m.fsLayers m.history with
  | error e => simp [bind, Except.bind]
  | ok imgs =>
    cases hl : imgs.getLast? with
    | none => simp [hl, bind, Except.bind]
    | some base =>
      by_cases hp : base.parent = []
      · cases hc : checkDuplicates [] [] imgs <;> simp [hl, hp, hc, bind, Except.bind]
      · simp [hl, hp, bind, Except.bind]

/-- with at least one layer and a history entry for each, `fixManifestLayers` returns nil exactly when the images
decode with valid IDs, the base has no parent, equal IDs are consecutive and the parents chain the images; it then
leaves the last entry of each run -/
theorem fixManifestLayers_eq_ok_iff_runs (m m' : Manifest Layer) (hne : m.fsLayers ≠ [])
    (hlen : m.fsLayers.length = m.history.length) :
    fixManifestLayers unmarshal m = .ok m' ↔
      ∃ imgs, decodeImages unmarshal m.fsLayers m.history = .ok imgs ∧ imgs.getLast?.map V1Image.parent = some [] ∧
        ConsecutiveRuns (imgs.map V1Image.id) ∧ ParentChain imgs ∧
        m' = ⟨keepRunLasts (imgs.map V1Image.id) m.fsLayers, keepRunLasts (imgs.map V1Image.id) m.history⟩ := by
  rw [fixManifestLayers_eq_ok_iff]
  constructor
  · rintro ⟨imgs, base, hd, hl, hp, hc, hr⟩
    have hfs := (length_decodeImages unmarshal hd).symm
    have himgs : imgs ≠ [] := by rintro rfl; simp at hfs; exact hne hfs
    obtain ⟨hpc, rfl⟩ := (removeRepeated_eq_ok_iff_parentChain imgs m himgs hfs (by omega)).mp hr
    exact ⟨imgs, hd, by simp [hl, hp], (checkDuplicates_nil_eq_ok_iff imgs).mp hc, hpc, rfl⟩
  · rintro ⟨imgs, hd, hl, hcr, hpc, rfl⟩
    have hfs := (length_decodeImages unmarshal hd).symm
    have himgs : imgs ≠ [] := by rintro rfl; simp at hfs; exact hne hfs
    obtain ⟨base, hbase, hp⟩ := Option.map_eq_some_iff.mp hl
    refine ⟨imgs, base, hd, hbase, hp, (checkDuplicates_nil_eq_ok_iff imgs).mpr hcr, ?_⟩
    exact (removeRepeated_eq_ok_iff_parentChain imgs m himgs hfs (by omega)).mpr ⟨hpc, rfl⟩

theorem fixManifestLayers_spec (m : Manifest Layer) (hne : m.fsLayers ≠ [])
    (hlen : m.fsLayers.length = m.history.length) :
    ((∃ m', fixManifestLayers unmarshal m = .ok m') ↔ Accepted unmarshal m) ∧
      ∀ m', fixManifestLayers unmarshal m = .ok m' →
        ∃ imgs, m.history.mapM (fun h => unmarshal h.v1Compatibility) = some imgs ∧
          m'.fsLayers = keepRunLasts (imgs.map V1Image.id) m.fsLayers ∧
          m'.history = keepRunLasts (imgs.map V1Image.id) m.history ∧
          m'.fsLayers.zip m'.history = keepRunLasts (imgs.map V1Image.id) (m.fsLayers.zip m.history) ∧
          ((keepRunLasts (imgs.map V1Image.id) imgs).map V1Image.id).Nodup ∧
          List.IsChain (fun a b => a.parent = b.id) (keepRunLasts (imgs.map V1Image.id) imgs) ∧
          (keepRunLasts (imgs.map V1Image.id) imgs).getLast?.map V1Image.parent = some [] := by
  constructor
  · constructor
    · rintro ⟨m', hm'⟩
      obtain ⟨imgs, hd, hl, hcr, hpc, -⟩ := (fixManifestLayers_eq_ok_iff_runs unmarshal m m' hne hlen).mp hm'
      obtain ⟨hmap, hval⟩ := (decodeImages_eq_ok_iff unmarshal hlen).mp hd
      exact ⟨imgs, hmap, hval, hl, hcr, hpc⟩
    · rintro ⟨imgs, hmap, hval, hl, hcr, hpc⟩
      have hd := (decodeImages_eq_ok_iff unmarshal hlen).mpr ⟨hmap, hval⟩
      exact ⟨_, (fixManifestLayers_eq_ok_iff_runs unmarshal m _ hne hlen).mpr ⟨imgs, hd, hl, hcr, hpc, rfl⟩⟩
  · intro m' hm'
    obtain ⟨imgs, hd, hl, hcr, hpc, rfl⟩ := (fixManifestLayers_eq_ok_iff_runs unmarshal m m' hne hlen).mp hm'
    refine ⟨imgs, ((decodeImages_eq_ok_iff unmarshal hlen).mp hd).1, rfl, rfl, (keepRunLasts_zip _ _ _).symm, ?_,
      isChain_keepRunLasts imgs hpc, ?_⟩
    · rw [keepRunLasts_map]
      exact nodup_keepRunLasts _ hcr
    · rw [getLast?_keepRunLasts _ _ (by simp)]
      exact hl

end Fix

/-! ## A manifest with a repeated layer -/

/-- the IDs `aa…a` and `bb…b` -/
def idA : Text := List.replicate 64 'a'
def idB : Text := List.replicate 64 'b'

/-- a decoder that knows two history entries: image `a` on top of the base image `b` -/
def sampleUnmarshal (t : Text) : Option V1Image :=
  if t = ['a'] then some ⟨idA, idB⟩ else if t = ['b'] then some ⟨idB, []⟩ else none

/-- three layers, the last two of the base image -/
def repeatedBase : Manifest ℕ := ⟨[0, 1, 2], [⟨['a']⟩, ⟨['b']⟩, ⟨['b']⟩]⟩

example : fixManifestLayers sampleUnmarshal repeatedBase = .ok ⟨[0, 2], [⟨['a']⟩, ⟨['b']⟩]⟩ := by decide

theorem fixManifestLayers_spec_repeatedBase :
    repeatedBase.fsLayers ≠ [] ∧ repeatedBase.fsLayers.length = repeatedBase.history.length ∧
      Accepted sampleUnmarshal repeatedBase :=
  ⟨by decide, rfl, (fixManifestLayers_spec sampleUnmarshal repeatedBase (by decide) rfl).1.mp
    ⟨⟨[0, 2], [⟨['a']⟩, ⟨['b']⟩]⟩, by decide⟩⟩

end DockerEngine.Distribution.Schema1
