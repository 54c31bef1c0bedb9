/-
Reachable states of a step relation, for the models of concurrent code: a state is reachable when some sequence of
steps leads to it from the initial one (`Relation.ReflTransGen` of Mathlib), so a fact about every reachable state is
a fact about every interleaving of the steps.

Two rules:
- `reachable_inv`: an invariant that every step keeps holds in every reachable state;
- `reachable_refines`: a map under which every step (from a state of an invariant) is a step of an abstract relation
  or leaves the image unchanged (a stutter) sends every reachable state to an abstractly reachable one, so an
  invariant of the abstract system holds of the image of every concrete reachable state (`refines_inv`).

`runSteps` makes a given list of steps of a partial step function, and what it reaches is reachable
(`reachable_of_runSteps`), by steps of a given kind when all of them are (`reachable_of_runSteps_of_forall`).
-/
import Mathlib

namespace DockerEngine.Refinement

open Relation

variable {α β : Type} {r : α → α → Prop} {R : β → β → Prop} {I : α → Prop} {a b : α}

/-- the invariant rule -/
theorem reachable_inv (hstep : ∀ x y, I x → r x y → I y) (h : ReflTransGen r a b) (ha : I a) : I b := by
  induction h with
  | refl => exact ha
  | tail _ hxy ih => exact hstep _ _ ih hxy

/-- the refinement rule, with stutters -/
theorem reachable_refines (f : α → β) (hinv : ∀ x y, I x → r x y → I y)
    (hstep : ∀ x y, I x → r x y → R (f x) (f y) ∨ f x = f y) (h : ReflTransGen r a b) (ha : I a) :
    ReflTransGen R (f a) (f b) := by
  induction h with
  | refl => exact ReflTransGen.refl
  | tail hab hxy ih =>
    have hx := reachable_inv hinv hab ha
    rcases hstep _ _ hx hxy with hR | heq
    · exact ih.tail hR
    · exact heq ▸ ih

/-- an invariant of the abstract system holds of the image of every concrete reachable state -/
theorem refines_inv (f : α → β) {J : β → Prop} (hJ : ∀ x y, J x → R x y → J y) (hinv : ∀ x y, I x → r x y → I y)
    (hstep : ∀ x y, I x → r x y → R (f x) (f y) ∨ f x = f y) (h : ReflTransGen r a b) (ha : I a) (hfa : J (f a)) :
    J (f b) :=
  reachable_inv hJ (reachable_refines f hinv hstep h ha) hfa

/-- the steps `es` in turn, each of which may be refused -/
def runSteps {ε : Type} (step : α → ε → Option α) : α → List ε → Option α
  | a, [] => some a
  | a, e :: es => (step a e).bind fun b => runSteps step b es

/-- what a list of steps, each with property `P`, reaches is reachable by steps with property `P` -/
theorem reachable_of_runSteps_of_forall {ε : Type} (step : α → ε → Option α) (P : ε → Prop) :
    ∀ (es : List ε) (a : α), (∀ e ∈ es, P e) → runSteps step a es = some b →
      ReflTransGen (fun x y => ∃ e, P e ∧ step x e = some y) a b
  | [], a, _, h => by
    cases h
    exact ReflTransGen.refl
  | e :: es, a, hP, h => by
    obtain ⟨c, hc, h⟩ := Option.bind_eq_some_iff.mp h
    exact ReflTransGen.head ⟨e, hP e List.mem_cons_self, hc⟩
      (reachable_of_runSteps_of_forall step P es c (fun e he => hP e (List.mem_cons_of_mem _ he)) h)

theorem reachable_of_runSteps {ε : Type} (step : α → ε → Option α) (es : List ε) (a : α)
    (h : runSteps step a es = some b) : ReflTransGen (fun x y => ∃ e, step x e = some y) a b :=
  ReflTransGen.mono (fun _ _ ⟨e, _, he⟩ => ⟨e, he⟩) _ _
    (reachable_of_runSteps_of_forall step (fun _ => True) es a (fun _ _ => trivial) h)

end DockerEngine.Refinement
