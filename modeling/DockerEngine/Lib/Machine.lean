/-
Runs of a deterministic step function, for loops that the models execute with fuel, and runs of a sequence of
calls, each of which the state may refuse.

`run step k s` applies `step` `k` times. States that `step` fixes are final. The two rules used by the models:
- `run_inv`: an invariant of one step holds after every run;
- `run_final`: if every step from a non-final state lowers a natural-number measure (under an invariant), a run of
  at least that many steps ends in a final state, and stays there (`run_of_fixed`).

`runCalls step s cs` makes the calls `cs` in turn and is `none` once one is refused. `runCalls_inv` is the invariant
rule (`runCalls_inv_of` for the calls a predicate allows); `runCalls_observe` computes an observation of the final
state that each call updates on its own.
`runTrace` also keeps the results of the calls, and `runTrace_simulate` is the simulation rule: an implementation
whose every call, from a state related to the specification's, gives the specification's result and leads to related
states gives the results of every run of the specification.
`untilFail ok n cs` makes the calls `cs`, each of which fails or not as `ok` says by its number in the run, and stops
after the first that fails: all of them when none fails (`untilFail_of_ok`), and those up to the failing one
(`untilFail_of_fail`).
-/
import Mathlib
import DockerEngine.Lib.Prelude

namespace DockerEngine.Machine

variable {σ : Type} (step : σ → σ)

/-- `k` steps -/
def run : ℕ → σ → σ
  | 0, s => s
  | k + 1, s => run k (step s)

@[simp] theorem run_zero (s : σ) : run step 0 s = s := rfl

theorem run_succ (k : ℕ) (s : σ) : run step (k + 1) s = run step k (step s) := rfl

theorem run_add (a b : ℕ) (s : σ) : run step (a + b) s = run step b (run step a s) := by
  induction a generalizing s with
  | zero => simp
  | succ a ih => rw [Nat.add_right_comm, run_succ, run_succ, ih]

/-- a state the step fixes is never left -/
theorem run_of_fixed {s : σ} (h : step s = s) (k : ℕ) : run step k s = s := by
  induction k with
  | zero => rfl
  | succ k ih => rw [run_succ, h, ih]

/-- the invariant rule -/
theorem run_inv (I : σ → Prop) (hI : ∀ s, I s → I (step s)) {s : σ} (hs : I s) (k : ℕ) : I (run step k s) := by
  induction k generalizing s with
  | zero => exact hs
  | succ k ih => exact ih (hI s hs)

/-- the variant rule: a measure that every non-final step lowers bounds the steps to a final state -/
theorem run_final (I final : σ → Prop) (μ : σ → ℕ) (hI : ∀ s, I s → I (step s))
    (hfix : ∀ s, final s → step s = s) (hdec : ∀ s, I s → ¬ final s → μ (step s) < μ s)
    {s : σ} (hs : I s) {k : ℕ} (hk : μ s ≤ k) : final (run step k s) := by
  induction k generalizing s with
  | zero =>
    by_contra hf
    have := hdec s hs (by simpa using hf)
    omega
  | succ k ih =>
    by_cases hf : final s
    · rwa [run_of_fixed step (hfix s hf)]
    · rw [run_succ]
      exact ih (hI s hs) (by have := hdec s hs hf; omega)

/-! ## Sequences of calls -/

section Calls

variable {γ ρ : Type} (call : σ → γ → Option (σ × ρ))

/-- make the calls in turn; `none` once one is refused -/
def runCalls : σ → List γ → Option σ
  | s, [] => some s
  | s, c :: cs => (call s c).bind fun r => runCalls r.1 cs

@[simp] theorem runCalls_nil (s : σ) : runCalls call s [] = some s := rfl

theorem runCalls_cons (s : σ) (c : γ) (cs : List γ) :
    runCalls call s (c :: cs) = (call s c).bind fun r => runCalls call r.1 cs := rfl

/-- the invariant rule for the calls that `P` allows -/
theorem runCalls_inv_of (P : γ → Prop) (I : σ → Prop)
    (hI : ∀ s c s' r, I s → P c → call s c = some (s', r) → I s') {s s' : σ} {cs : List γ} (hs : I s) (hP : ∀ c ∈ cs, P c) (h : runCalls call s cs = some s') : I s' := by
  induction cs generalizing s with
  | nil => exact Option.some.inj h ▸ hs
  | cons c cs ih =>
    rw [runCalls_cons, Option.bind_eq_some_iff] at h
    obtain ⟨⟨s₁, r⟩, h₁, h₂⟩ := h
    have hs₁ : I s₁ := hI s c s₁ r hs (hP c List.mem_cons_self) h₁
    exact ih hs₁ (fun c hc => hP c (List.mem_cons_of_mem _ hc)) h₂

/-- the invariant rule for calls -/
theorem runCalls_inv (I : σ → Prop) (hI : ∀ s c s' r, I s → call s c = some (s', r) → I s')
    {s s' : σ} {cs : List γ} (hs : I s) (h : runCalls call s cs = some s') : I s' :=
  runCalls_inv_of call (fun _ => True) I (fun s c s' r hs _ h => hI s c s' r hs h) hs (fun _ _ => trivial) h

/-- calls that are never refused make a run that is never refused -/
theorem runCalls_isSome (htotal : ∀ s c, (call s c).isSome) (s : σ) (cs : List γ) :
    (runCalls call s cs).isSome := by
  induction cs generalizing s with
  | nil => rfl
  | cons c cs ih =>
    obtain ⟨⟨s₁, r⟩, h₁⟩ := Option.isSome_iff_exists.mp (htotal s c)
    rw [runCalls_cons, h₁, Option.bind_some]
    exact ih s₁

/-- an observation that each call updates from its old value alone is the fold of the updates -/
theorem runCalls_observe {β : Type} (f : σ → β) (g : β → γ → β)
    (hg : ∀ s c s' r, call s c = some (s', r) → f s' = g (f s) c)
    {s s' : σ} {cs : List γ} (h : runCalls call s cs = some s') : f s' = cs.foldl g (f s) := by
  induction cs generalizing s with
  | nil => rw [← Option.some.inj h]; rfl
  | cons c cs ih =>
    rw [runCalls_cons, Option.bind_eq_some_iff] at h
    obtain ⟨⟨s₁, r⟩, h₁, h₂⟩ := h
    rw [ih h₂, hg s c s₁ r h₁, List.foldl_cons]

/-- make the calls in turn, keeping their results; `none` once one is refused -/
def runTrace : σ → List γ → Option (σ × List ρ)
  | s, [] => some (s, [])
  | s, c :: cs => (call s c).bind fun r => (runTrace r.1 cs).map fun t => (t.1, r.2 :: t.2)

@[simp] theorem runTrace_nil (s : σ) : runTrace call s [] = some (s, []) := rfl

theorem runTrace_cons (s : σ) (c : γ) (cs : List γ) :
    runTrace call s (c :: cs) = (call s c).bind fun r => (runTrace call r.1 cs).map fun t => (t.1, r.2 :: t.2) :=
  rfl

/-- a run of `cs ++ [c]` is the run of `cs` and then the call `c` -/
theorem runTrace_append_singleton (s : σ) (cs : List γ) (c : γ) :
    runTrace call s (cs ++ [c]) =
      (runTrace call s cs).bind fun t => (call t.1 c).map fun r => (r.1, t.2 ++ [r.2]) := by
  induction cs generalizing s with
  | nil =>
    simp only [List.nil_append, runTrace_cons, runTrace_nil, Option.map_some, Option.bind_some]
    cases call s c <;> rfl
  | cons c₀ cs ih =>
    simp only [List.cons_append, runTrace_cons, ih]
    cases call s c₀ with
    | none => rfl
    | some r₀ =>
      simp only [Option.bind_some]
      cases runTrace call r₀.1 cs with
      | none => rfl
      | some t =>
        simp only [Option.bind_some, Option.map_some]
        cases call t.1 c <;> rfl

/-- the simulation rule, for the calls that `P` allows -/
theorem runTrace_simulate {τ : Type} (spec : τ → γ → Option (τ × ρ)) (R : σ → τ → Prop) (P : γ → Prop)
    (hstep : ∀ s a c a' r, R s a → P c → spec a c = some (a', r) → ∃ s', call s c = some (s', r) ∧ R s' a')
    {s : σ} {a a' : τ} {cs : List γ} {rs : List ρ} (hR : R s a) (hP : ∀ c ∈ cs, P c)
    (h : runTrace spec a cs = some (a', rs)) : ∃ s', runTrace call s cs = some (s', rs) ∧ R s' a' := by
  induction cs generalizing s a rs with
  | nil =>
    obtain ⟨rfl, rfl⟩ := Prod.mk.inj (Option.some.inj h)
    exact ⟨s, rfl, hR⟩
  | cons c cs ih =>
    rw [runTrace_cons, Option.bind_eq_some_iff] at h
    obtain ⟨⟨a₁, r⟩, h₁, h₂⟩ := h
    rw [Option.map_eq_some_iff] at h₂
    obtain ⟨⟨a₂, rs'⟩, h₂, heq⟩ := h₂
    obtain ⟨rfl, rfl⟩ := Prod.mk.inj heq
    obtain ⟨s₁, hs₁, hR₁⟩ := hstep s a c a₁ r hR (hP c List.mem_cons_self) h₁
    obtain ⟨s₂, hs₂, hR₂⟩ := ih hR₁ (fun c hc => hP c (List.mem_cons_of_mem _ hc)) h₂
    exact ⟨s₂, by simp [runTrace_cons, hs₁, hs₂], hR₂⟩

end Calls

section UntilFail

variable {α : Type} (ok : ℕ → Bool)

/-- the calls of a list made in order, the `n`-th call of the run first, until one fails: those made, and whether
one failed -/
def untilFail (n : ℕ) : List α → List α × Bool
  | [] => ([], false)
  | a :: as => if ok n then (a :: (untilFail (n + 1) as).1, (untilFail (n + 1) as).2) else ([a], true)

theorem untilFail_of_ok : ∀ (n : ℕ) (l : List α), (∀ i < l.length, ok (n + i)) → untilFail ok n l = (l, false)
  | _, [], _ => rfl
  | n, a :: as, h => by
    have h0 := h 0 (by simp)
    rw [untilFail, if_pos (by simpa using h0), untilFail_of_ok (n + 1) as fun i hi => by
      simpa [Nat.add_assoc, Nat.add_comm 1 i] using h (i + 1) (by simp; omega)]

theorem untilFail_of_fail : ∀ (n : ℕ) (l : List α) (i : ℕ), i < l.length → ok (n + i) = false →
    (∀ j < i, ok (n + j)) → untilFail ok n l = (l.take (i + 1), true)
  | _, [], _, hi, _, _ => absurd hi (by simp)
  | n, a :: as, 0, _, hfail, _ => by
    rw [untilFail, if_neg (by simpa using hfail)]
    rfl
  | n, a :: as, i + 1, hi, hfail, hbefore => by
    have h0 := hbefore 0 (by omega)
    rw [untilFail, if_pos (by simpa using h0), untilFail_of_fail (n + 1) as i (by simpa using hi)
      (by simpa [Nat.add_assoc, Nat.add_comm 1 i] using hfail)
      (fun j hj => by simpa [Nat.add_assoc, Nat.add_comm 1 j] using hbefore (j + 1) (by omega))]
    rfl

end UntilFail

end DockerEngine.Machine
