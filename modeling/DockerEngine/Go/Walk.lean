/-
Lean model of `filepath.Walk` of Go's `path/filepath`, over a directory tree.

A tree is a file or a directory with its entries, each a name and a tree, in the order `readDirNames` returns them
(sorted by name). The walk visits paths relative to its root, which is `.`: the entry `name` of the directory `path`
is `childPath path name`, as `filepath.Rel` names it. `Lstat` and `readDirNames` never fail here, so the `WalkFunc`
is only called without an error; it may change a state `σ`, and `none` stands for a call outside the model.

`walk` calls the function on a path before it walks the entries of a directory; `SkipDir` returned for a directory
skips its entries, and returned for a file skips the rest of the directory the file is in. `walk_inv` is the rule for
invariants: a property of the state that every call keeps, at the paths a walk reaches, holds after the walk.
-/
import DockerEngine.Go.Filepath

namespace DockerEngine.Go

/-- a directory tree -/
inductive FileTree
  | file
  | dir (entries : List (Text × FileTree))
  deriving Repr

/-- `info.IsDir()` -/
def FileTree.isDir : FileTree → Bool
  | .file => false
  | .dir _ => true

/-- what a `WalkFunc` returns: `nil`, `filepath.SkipDir`, or another error -/
inductive WalkResult
  | ok
  | skipDir
  | err (e : Text)
  deriving DecidableEq, Repr

/-- the path of the entry `name` of the directory `path`, relative to the root `.` of the walk -/
def childPath (path name : Text) : Text := if path = ['.'] then name else path ++ '/' :: name

mutual
/-- every name in the tree is a plain path element, as a name in a directory is -/
def FileTree.WF : FileTree → Prop
  | .file => True
  | .dir entries => entriesWF entries

/-- every name of the entries, and in their trees, is a plain path element -/
def entriesWF : List (Text × FileTree) → Prop
  | [] => True
  | (name, t) :: rest => PlainElem name ∧ t.WF ∧ entriesWF rest
end

section Walk

variable {σ : Type} (walkFn : Text → Bool → σ → Option (σ × WalkResult))

mutual
/-- `walk(path, info, walkFn)` -/
def walk : Text → FileTree → σ → Option (σ × WalkResult)
  | path, .file, st =>
    match walkFn path false st with
    | none => none
    | some (st, r) => some (st, r)
  | path, .dir entries, st =>
    match walkFn path true st with
    | none => none
    | some (st, .ok) => walkEntries path entries st
    -- `SkipDir` for a directory skips its entries
    | some (st, .skipDir) => some (st, .ok)
    | some (st, .err e) => some (st, .err e)

/-- the loop of `walk` over the entries of the directory `path` -/
def walkEntries : Text → List (Text × FileTree) → σ → Option (σ × WalkResult)
  | _, [], st => some (st, .ok)
  | path, (name, t) :: rest, st =>
    match walk (childPath path name) t st with
    | none => none
    | some (st, .ok) => walkEntries path rest st
    -- a directory that returns `SkipDir` has skipped itself; a file that returns it skips the rest of the directory
    | some (st, .skipDir) => if t.isDir then walkEntries path rest st else some (st, .skipDir)
    | some (st, .err e) => some (st, .err e)
end

/-- `filepath.Walk(root, walkFn)` from the root `.`: the state, and the error returned -/
def walkRoot (t : FileTree) (st : σ) : Option (σ × Option Text) :=
  (walk walkFn ['.'] t st).map fun
    | (st, .err e) => (st, some e)
    | (st, _) => (st, none)

section Inv

variable (Q : Text → Prop) (P : σ → Prop)
  (hcall : ∀ path isDir st st' r, Q path → P st → walkFn path isDir st = some (st', r) → P st')
  (hchild : ∀ path name, Q path → PlainElem name → Q (childPath path name))
include hcall hchild

-- each of the two theorems uses one hypothesis itself and the other through the other theorem
set_option linter.unusedSectionVars false in
mutual
/-- an invariant of the state that every call keeps at the paths `Q` holds of holds after a walk -/
theorem walk_inv : ∀ (path : Text) (t : FileTree) {st st' : σ} {r : WalkResult}, t.WF → Q path → P st →
    walk walkFn path t st = some (st', r) → P st'
  | path, .file, st, st', r, _, hq, hp, h => by
    unfold walk at h
    cases hc : walkFn path false st with
    | none => simp [hc] at h
    | some res =>
      obtain ⟨st₁, r₁⟩ := res
      simp only [hc, Option.some.injEq, Prod.mk.injEq] at h
      obtain ⟨rfl, -⟩ := h
      exact hcall path false st st₁ r₁ hq hp hc
  | path, .dir entries, st, st', r, hwf, hq, hp, h => by
    unfold walk at h
    cases hc : walkFn path true st with
    | none => simp [hc] at h
    | some res =>
      obtain ⟨st₁, r₁⟩ := res
      have hp₁ := hcall path true st st₁ r₁ hq hp hc
      rw [hc] at h
      cases r₁ with
      | ok => exact walkEntries_inv path entries hwf hq hp₁ h
      | skipDir =>
        cases h
        exact hp₁
      | err e =>
        cases h
        exact hp₁

/-- the same for the loop over the entries of a directory -/
theorem walkEntries_inv : ∀ (path : Text) (entries : List (Text × FileTree)) {st st' : σ} {r : WalkResult},
    entriesWF entries → Q path → P st → walkEntries walkFn path entries st = some (st', r) → P st'
  | path, [], st, st', r, _, _, hp, h => by
    unfold walkEntries at h
    cases h
    exact hp
  | path, (name, t) :: rest, st, st', r, hwf, hq, hp, h => by
    obtain ⟨hname, ht, hrest⟩ := hwf
    unfold walkEntries at h
    cases hw : walk walkFn (childPath path name) t st with
    | none => simp [hw] at h
    | some res =>
      obtain ⟨st₁, r₁⟩ := res
      have hp₁ := walk_inv (childPath path name) t ht (hchild path name hq hname) hp hw
      rw [hw] at h
      cases r₁ with
      | ok => exact walkEntries_inv path rest hrest hq hp₁ h
      | skipDir =>
        dsimp only at h
        split at h
        · exact walkEntries_inv path rest hrest hq hp₁ h
        · cases h
          exact hp₁
      | err e =>
        cases h
        exact hp₁
end

/-- the rule for invariants from the root `.` -/
theorem walkRoot_inv {t : FileTree} {st st' : σ} {e : Option Text} (hwf : t.WF) (hq : Q ['.']) (hp : P st)
    (h : walkRoot walkFn t st = some (st', e)) : P st' := by
  unfold walkRoot at h
  cases hw : walk walkFn ['.'] t st with
  | none => simp [hw] at h
  | some res =>
    obtain ⟨st₁, r₁⟩ := res
    have hp₁ := walk_inv walkFn Q P hcall hchild ['.'] t hwf hq hp hw
    rw [hw] at h
    cases r₁ <;> (simp only [Option.map_some, Option.some.injEq, Prod.mk.injEq] at h; rw [← h.1]; exact hp₁)

end Inv

end Walk

end DockerEngine.Go
