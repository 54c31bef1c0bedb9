/-
Lean model of `sort.Sort` as Go 1.5's `sort.go` has it. `quickSort` partitions with `doPivot` (Bentley and McIlroy,
"Engineering a Sort Function") while more than seven elements are left. It falls back to `heapSort` past a depth of
`2*ceil(lg(n+1))`, and finishes ranges of at most seven elements with `insertionSort`.

The data is a list, `Less(i, j)` compares the elements at `i` and `j` (`lessAt`), and every change the algorithm makes
is a `Swap` (`swapAt`). So whatever `Less` is, the result is a permutation of the input (`sortSort_perm`). Each loop
runs on a count that bounds its turns: the number of elements left to look at, or for `siftDown` the size of the heap.

`Contract` is what the documentation of `sort.Sort` promises and no more: a permutation in which no element is `Less`
than one before it. For an order by a key whose "not less" is antisymmetric, results of the contract on permuted inputs
have the same keys in the same order (`Contract.map_eq`). For any other `Less` the contract fixes much less, and the
algorithm decides.
-/
import Mathlib
import DockerEngine.Lib.Prelude

namespace DockerEngine.Go.Sort

open scoped List

variable {α : Type} (less : α → α → Bool)

/-! ## The algorithm -/

/-- `data.Less(i, j)` -/
def lessAt (l : List α) (i j : ℕ) : Bool :=
  match l[i]?, l[j]? with
  | some x, some y => less x y
  | _, _ => false

/-- `data.Swap(i, j)` -/
def swapAt (l : List α) (i j : ℕ) : List α :=
  if h : i < l.length ∧ j < l.length then (l.set i l[j]).set j l[i] else l

/-- the inner loop of `insertionSort`, `for j := i; j > a && data.Less(j, j-1); j--` -/
def insertDown (a : ℕ) : ℕ → List α → List α
  | 0, l => l
  | j + 1, l => if a < j + 1 ∧ lessAt less l (j + 1) j then insertDown a j (swapAt l (j + 1) j) else l

/-- `insertionSort(data, a, b)` -/
def insertionSort (l : List α) (a b : ℕ) : List α :=
  (List.range' (a + 1) (b - (a + 1))).foldl (fun l i => insertDown less a i l) l

/-- `siftDown(data, lo, hi, first)` from `root`; `fuel`, at least `hi - root`, bounds the turns, since each one moves
`root` down to a child below `hi` -/
def siftDown (hi first : ℕ) : ℕ → ℕ → List α → List α
  | 0, _, l => l
  | fuel + 1, root, l =>
    let child := 2 * root + 1
    if hi ≤ child then l
    else
      let child := if child + 1 < hi ∧ lessAt less l (first + child) (first + child + 1) then child + 1 else child
      if !lessAt less l (first + root) (first + child) then l
      else siftDown hi first fuel child (swapAt l (first + root) (first + child))

/-- `heapSort(data, a, b)` -/
def heapSort (l : List α) (a b : ℕ) : List α :=
  let first := a
  let hi := b - a
  -- build a heap with the greatest element at the top
  let l := (List.range ((hi - 1) / 2 + 1)).reverse.foldl (fun l i => siftDown less hi first hi i l) l
  -- pop elements, largest first, into the end of the data
  (List.range hi).reverse.foldl (fun l i => siftDown less i first i 0 (swapAt l first (first + i))) l

/-- `medianOfThree(data, a, b, c)`: a bubble sort of three elements, which moves their median to `a` -/
def medianOfThree (l : List α) (a b c : ℕ) : List α :=
  let l := if lessAt less l a b then swapAt l a b else l
  let l := if lessAt less l c a then swapAt l c a else l
  if lessAt less l a b then swapAt l a b else l

/-- `swapRange(data, a, b, n)` -/
def swapRange (l : List α) (a b n : ℕ) : List α := (List.range n).foldl (fun l i => swapAt l (a + i) (b + i)) l

/-- the first inner loop of `doPivot`, over the `c - b` unexamined elements: `b` passes elements below the pivot,
and an element equal to it is swapped down to `a` -/
def scanUp (pivot : ℕ) : ℕ → List α → ℕ → ℕ → List α × ℕ × ℕ
  | 0, l, a, b => (l, a, b)
  | k + 1, l, a, b =>
    if lessAt less l b pivot then scanUp pivot k l a (b + 1)
    else if !lessAt less l pivot b then scanUp pivot k (swapAt l a b) (a + 1) (b + 1)
    else (l, a, b)

/-- the second inner loop, from `c` down over the same elements: `c` passes elements above the pivot, and an element
equal to it is swapped up to `d` -/
def scanDown (pivot : ℕ) : ℕ → List α → ℕ → ℕ → List α × ℕ × ℕ
  | 0, l, c, d => (l, c, d)
  | k + 1, l, c, d =>
    if lessAt less l pivot (c - 1) then scanDown pivot k l (c - 1) d
    else if !lessAt less l (c - 1) pivot then scanDown pivot k (swapAt l (c - 1) (d - 1)) (c - 1) (d - 1)
    else (l, c, d)

/-- the outer loop of `doPivot`; each turn that goes on swaps `data[b]` and `data[c-1]` and moves both inwards, so
`fuel`, at least `(c - b) / 2 + 1`, bounds the turns -/
def partitionLoop (pivot : ℕ) : ℕ → List α → ℕ → ℕ → ℕ → ℕ → List α × ℕ × ℕ × ℕ × ℕ
  | 0, l, a, b, c, d => (l, a, b, c, d)
  | fuel + 1, l, a, b, c, d =>
    let (l, a, b) := scanUp less pivot (c - b) l a b
    let (l, c, d) := scanDown less pivot (c - b) l c d
    if c ≤ b then (l, a, b, c, d)
    else partitionLoop pivot fuel (swapAt l b (c - 1)) a (b + 1) (c - 1) d

/-- `doPivot(data, lo, hi)`: the data with the elements equal to the pivot moved to the middle, and the bounds
`midlo, midhi` of that middle -/
def doPivot (l : List α) (lo hi : ℕ) : List α × ℕ × ℕ :=
  let m := lo + (hi - lo) / 2
  let l :=
    if 40 < hi - lo then
      -- Tukey's ninther, the median of three medians of three
      let s := (hi - lo) / 8
      let l := medianOfThree less l lo (lo + s) (lo + 2 * s)
      let l := medianOfThree less l m (m - s) (m + s)
      medianOfThree less l (hi - 1) (hi - 1 - s) (hi - 1 - 2 * s)
    else l
  let l := medianOfThree less l lo m (hi - 1)
  let (l, a, b, c, d) := partitionLoop less lo (hi - lo) l (lo + 1) (lo + 1) hi hi
  let n := min (b - a) (a - lo)
  let l := swapRange l lo (b - n) n
  let n := min (hi - d) (d - c)
  let l := swapRange l c (hi - n) n
  (l, lo + b - a, hi - (d - c))

/-- `quickSort(data, a, b, maxDepth)`; the loop `for b-a > 7`, which recurses on the smaller side and goes on with the
larger, is a call on each side. `fuel`, at least `b - a`, bounds the depth of the calls -/
def quickSort : ℕ → List α → ℕ → ℕ → ℕ → List α
  | 0, l, _, _, _ => l
  | fuel + 1, l, a, b, maxDepth =>
    if 7 < b - a then
      if maxDepth = 0 then heapSort less l a b
      else
        let (l, mlo, mhi) := doPivot less l a b
        if mlo - a < b - mhi then quickSort fuel (quickSort fuel l a mlo (maxDepth - 1)) mhi b (maxDepth - 1)
        else quickSort fuel (quickSort fuel l mhi b (maxDepth - 1)) a mlo (maxDepth - 1)
    else if 1 < b - a then insertionSort less l a b
    else l

/-- `for i := n; i > 0; i >>= 1 { maxDepth++ }`, the number of binary digits of `i`; `fuel`, at least `i`, bounds the
turns -/
def depthLoop : ℕ → ℕ → ℕ
  | 0, _ => 0
  | fuel + 1, i => if i = 0 then 0 else depthLoop fuel (i / 2) + 1

/-- `sort.Sort(data)` -/
def sortSort (l : List α) : List α :=
  quickSort less (l.length + 1) l 0 l.length (2 * depthLoop l.length l.length)

/-! ## Every step is a swap -/

theorem swapAt_perm (l : List α) (i j : ℕ) : swapAt l i j ~ l := by
  unfold swapAt
  split
  · next h => exact List.set_set_perm h.1 h.2
  · rfl

theorem foldl_perm {β : Type} {f : List α → β → List α} (hf : ∀ l x, f l x ~ l) :
    ∀ (xs : List β) (l : List α), xs.foldl f l ~ l
  | [], _ => List.Perm.refl _
  | x :: xs, l => (foldl_perm hf xs (f l x)).trans (hf l x)

theorem insertDown_perm (a : ℕ) : ∀ (j : ℕ) (l : List α), insertDown less a j l ~ l
  | 0, _ => List.Perm.refl _
  | j + 1, l => by
    unfold insertDown
    split_ifs
    · exact (insertDown_perm a j _).trans (swapAt_perm l _ _)
    · rfl

theorem insertionSort_perm (l : List α) (a b : ℕ) : insertionSort less l a b ~ l :=
  foldl_perm (fun l i => insertDown_perm less a i l) _ l

theorem siftDown_perm (hi first : ℕ) : ∀ (fuel root : ℕ) (l : List α), siftDown less hi first fuel root l ~ l
  | 0, _, _ => List.Perm.refl _
  | fuel + 1, root, l => by
    unfold siftDown
    dsimp only
    -- a leaf, or one of the two children, then either the heap holds or one swap
    split_ifs
    · rfl
    · rfl
    · exact (siftDown_perm hi first fuel _ _).trans (swapAt_perm l _ _)
    · rfl
    · exact (siftDown_perm hi first fuel _ _).trans (swapAt_perm l _ _)

theorem heapSort_perm (l : List α) (a b : ℕ) : heapSort less l a b ~ l := by
  unfold heapSort
  refine (foldl_perm (fun l i => ?_) _ _).trans (foldl_perm (fun l i => siftDown_perm less _ a _ i l) _ l)
  exact (siftDown_perm less i a i 0 _).trans (swapAt_perm l _ _)

theorem medianOfThree_perm (l : List α) (a b c : ℕ) : medianOfThree less l a b c ~ l := by
  -- three conditional swaps
  have step (l : List α) (i j : ℕ) (p : Bool) : (if p then swapAt l i j else l) ~ l := by
    split
    · exact swapAt_perm l i j
    · rfl
  exact (step _ a b _).trans ((step _ c a _).trans (step l a b _))

theorem swapRange_perm (l : List α) (a b n : ℕ) : swapRange l a b n ~ l :=
  foldl_perm (fun l _ => swapAt_perm l _ _) _ l

theorem scanUp_perm (pivot : ℕ) : ∀ (k : ℕ) (l : List α) (a b : ℕ), (scanUp less pivot k l a b).1 ~ l
  | 0, _, _, _ => List.Perm.refl _
  | k + 1, l, a, b => by
    unfold scanUp
    split_ifs
    · exact scanUp_perm pivot k l a _
    · exact (scanUp_perm pivot k _ _ _).trans (swapAt_perm l a b)
    · rfl

theorem scanDown_perm (pivot : ℕ) : ∀ (k : ℕ) (l : List α) (c d : ℕ), (scanDown less pivot k l c d).1 ~ l
  | 0, _, _, _ => List.Perm.refl _
  | k + 1, l, c, d => by
    unfold scanDown
    split_ifs
    · exact scanDown_perm pivot k l _ d
    · exact (scanDown_perm pivot k _ _ _).trans (swapAt_perm l _ _)
    · rfl

theorem partitionLoop_perm (pivot : ℕ) :
    ∀ (fuel : ℕ) (l : List α) (a b c d : ℕ), (partitionLoop less pivot fuel l a b c d).1 ~ l
  | 0, _, _, _, _, _ => List.Perm.refl _
  | fuel + 1, l, a, b, c, d => by
    -- the two scans, and then either the end of the loop or one more swap
    have hup := scanUp_perm less pivot (c - b) l a b
    rcases hs : scanUp less pivot (c - b) l a b with ⟨l1, a1, b1⟩
    -- the second scan starts from the `b` the first one reached
    have hdown := scanDown_perm less pivot (c - b1) l1 c d
    rcases ht : scanDown less pivot (c - b1) l1 c d with ⟨l2, c2, d2⟩
    rw [hs] at hup
    rw [ht] at hdown
    simp only [partitionLoop, hs, ht]
    split_ifs
    · exact hdown.trans hup
    · exact (partitionLoop_perm pivot fuel _ _ _ _ _).trans ((swapAt_perm l2 _ _).trans (hdown.trans hup))

theorem doPivot_perm (l : List α) (lo hi : ℕ) : (doPivot less l lo hi).1 ~ l := by
  unfold doPivot
  dsimp only
  -- with or without the ninther, then the median of three, the partition and the two block swaps
  split_ifs
  all_goals
    refine (swapRange_perm _ _ _ _).trans ((swapRange_perm _ _ _ _).trans ?_)
    refine (partitionLoop_perm less _ _ _ _ _ _ _).trans ((medianOfThree_perm less _ _ _ _).trans ?_)
  · exact (medianOfThree_perm less _ _ _ _).trans
      ((medianOfThree_perm less _ _ _ _).trans (medianOfThree_perm less _ _ _ _))
  · rfl

theorem quickSort_perm : ∀ (fuel : ℕ) (l : List α) (a b maxDepth : ℕ), quickSort less fuel l a b maxDepth ~ l
  | 0, _, _, _, _ => List.Perm.refl _
  | fuel + 1, l, a, b, maxDepth => by
    unfold quickSort
    by_cases hbig : 7 < b - a
    · rw [if_pos hbig]
      by_cases hdepth : maxDepth = 0
      · rw [if_pos hdepth]
        exact heapSort_perm less l a b
      · rw [if_neg hdepth]
        split
        next l' mlo mhi hp =>
          have hpivot := doPivot_perm less l a b
          rw [hp] at hpivot
          -- one call on each side of the middle, the smaller side first
          split_ifs
          · exact (quickSort_perm fuel _ _ _ _).trans ((quickSort_perm fuel _ _ _ _).trans hpivot)
          · exact (quickSort_perm fuel _ _ _ _).trans ((quickSort_perm fuel _ _ _ _).trans hpivot)
    · rw [if_neg hbig]
      split_ifs
      · exact insertionSort_perm less l a b
      · rfl

/-- whatever `Less` is, `sort.Sort` only moves the data around -/
theorem sortSort_perm (l : List α) : sortSort less l ~ l := quickSort_perm less _ l _ _ _

/-! ## The documented contract -/

/-- what the documentation of `sort.Sort` promises: a permutation of the data in which no element is `Less` than one
before it -/
def Contract (sort : List α → List α) : Prop :=
  ∀ l, sort l ~ l ∧ (sort l).Pairwise fun x y => less y x = false

/-- ordered by a key, the results of the contract on two lists with the same keys have the same keys in the same
order; the elements of one key may come in any order -/
theorem Contract.map_eq {β : Type} [LT β] [DecidableRel fun a b : β => a < b] [Std.Antisymm fun a b : β => ¬b < a]
    {key : α → β} {sort : List α → List α} (h : Contract (fun x y => decide (key x < key y)) sort)
    {l₁ l₂ : List α} (hl : l₁.map key ~ l₂.map key) : (sort l₁).map key = (sort l₂).map key := by
  obtain ⟨hp₁, hs₁⟩ := h l₁
  obtain ⟨hp₂, hs₂⟩ := h l₂
  -- both key lists are sorted by "not less", which is antisymmetric
  have hsorted₁ : ((sort l₁).map key).Pairwise fun a b => ¬b < a :=
    List.pairwise_map.mpr (hs₁.imp fun hxy => by simpa using hxy)
  have hsorted₂ : ((sort l₂).map key).Pairwise fun a b => ¬b < a :=
    List.pairwise_map.mpr (hs₂.imp fun hxy => by simpa using hxy)
  exact List.Perm.eq_of_pairwise' hsorted₁ hsorted₂ (((hp₁.map key).trans hl).trans (hp₂.map key).symm)

end DockerEngine.Go.Sort
