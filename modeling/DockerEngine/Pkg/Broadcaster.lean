/-
Lean model of `pkg/broadcaster/unbuffered.go`: an `Unbuffered` hands each write to all its writers, in the order they
were added, and evicts those whose `Write` failed or was short. The writers are any values; what `sw.Write(p)` returns
for each is the environment's, given as `written`.

`Write` collects the indices of the writers to evict, then removes them one at a time, the `n`-th at `i - n` as the
`n` removals before it have moved it down (`removeEvicted`). `write_evicts_failed`: this leaves exactly the writers
whose write went through, in their order, as a filter would, for every list of writers and every outcome of the
writes.
-/
import Mathlib
import DockerEngine.Lib.Prelude

namespace DockerEngine.Broadcaster

variable {α : Type}

/-- what `sw.Write(p)` returned: the count, and whether the error is not `nil` -/
structure Written where
  n : ℕ
  failed : Bool
  deriving DecidableEq, Repr

/-- whether the writer is evicted: `err != nil || n != len(p)` -/
def Written.evicts (len : ℕ) (w : Written) : Bool := w.failed || w.n != len

/-- the first loop of `Write`: the indices, from `i` on, of the writers to evict -/
def collectEvict (written : α → Written) (len : ℕ) : ℕ → List α → List ℕ
  | _, [] => []
  | i, sw :: rest =>
    if (written sw).evicts len then i :: collectEvict written len (i + 1) rest else collectEvict written len (i + 1) rest

/-- the second loop: `w.writers = append(w.writers[:i-n], w.writers[i-n+1:]...)` for the `n`-th index `i` -/
def removeEvicted : ℕ → List ℕ → List α → List α
  | _, [], ws => ws
  | n, i :: evict, ws => removeEvicted (n + 1) evict (ws.take (i - n) ++ ws.drop (i - n + 1))

/-- `Add(writer)` -/
def Unbuffered.add (writers : List α) (writer : α) : List α := writers ++ [writer]

/-- `Write(p)`: the writers after it, and the count it returns with a `nil` error -/
def Unbuffered.write (writers : List α) (written : α → Written) (p : List UInt8) : List α × ℕ :=
  (removeEvicted 0 (collectEvict written p.length 0 writers) writers, p.length)

/-- `Clean()`: every writer closed, and none left -/
def Unbuffered.clean (_writers : List α) : List α := []

/-- the writers kept by a write -/
def kept (written : α → Written) (len : ℕ) (sw : α) : Bool := !(written sw).evicts len

/-- the eviction from the writer at index `j` on, with `kept` the writers before it that stayed and `n` removed:
the writer at `j` is at `j - n = kept.length` when its turn comes -/
theorem removeEvicted_collectEvict (written : α → Written) (len : ℕ) :
    ∀ (rest ws : List α) (n j : ℕ), ws.length + n = j →
      removeEvicted n (collectEvict written len j rest) (ws ++ rest) = ws ++ rest.filter (kept written len)
  | [], ws, n, j, _ => by simp [collectEvict, removeEvicted]
  | sw :: rest, ws, n, j, h => by
    have hj : j - n = ws.length := by omega
    by_cases he : (written sw).evicts len
    · -- the writer goes: what is before it stays, what is after it moves down by one
      have hcut : (ws ++ sw :: rest).take ws.length ++ (ws ++ sw :: rest).drop (ws.length + 1) = ws ++ rest := by
        simp
      have := removeEvicted_collectEvict written len rest ws (n + 1) (j + 1) (by omega)
      simp only [collectEvict, he, if_true, removeEvicted, hj, hcut]
      simpa [kept, he] using this
    · -- the writer stays, and joins those before the next index
      have := removeEvicted_collectEvict written len rest (ws ++ [sw]) n (j + 1) (by simp; omega)
      simp only [collectEvict, he, Bool.false_eq_true, if_false]
      simpa [kept, he] using this

/-- `Write` keeps exactly the writers whose write went through, in their order -/
theorem write_evicts_failed (writers : List α) (written : α → Written) (p : List UInt8) :
    (Unbuffered.write writers written p).1 = writers.filter (kept written p.length) :=
  removeEvicted_collectEvict written p.length writers [] 0 0 rfl

end DockerEngine.Broadcaster
