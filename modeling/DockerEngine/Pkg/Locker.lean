/-
Lean model of `pkg/locker/locker.go`: a `Locker` keeps `locks`, a map from names to counters (`lockCtr`), each a mutex
and `waiters`, the number of callers counted on it.

`Lock(name)` runs in three steps that other callers may interleave: under `l.mu` it takes the name's counter, making
one if there is none, and counts itself on it (`lockEnter`); it locks the counter's mutex, blocked while it is locked
(`acquire`); it takes itself off the count and returns (`lockExit`). `Unlock(name)` is one step under `l.mu`: the
counter is deleted from the map when no caller is counted on it, and its mutex is unlocked; a mutex that is not locked
is the fatal error of `sync` (`none`). Counters live at addresses below `next`, which is never reused, as
`&lockCtr{}` makes a new one; `waiters` is an `int32`, an integer here (it takes 2^31 callers to overflow it).

The callers are any list of names, each caller calling `Lock` and then `Unlock` of its name; a state is reachable when
some interleaving of their steps leads to it. `Inv` holds in every reachable state (`inv_of_reachable`): the map is
one to one onto counters, a caller counted on a counter is a caller of that counter's name, `waiters` is the number of
callers counted, a mutex is locked exactly when one caller of its name has it, and a counter in the map is locked or
waited on. From it:
- `locker_refines_mutexes`: seen per caller (ready, wanting, holding, released), every reachable state is a reachable
  state of one mutex per name, where a caller takes a name's mutex only when no caller holds it;
- `locker_mutual_exclusion`: at most one caller has a name's mutex;
- `locker_unlock_ok`: `Unlock` by a caller that holds its name returns `nil`: never `ErrNoSuchLock`, never the fatal
  error;
- `locker_locks_iff_active`: the map has a counter for a name exactly when a caller of that name is in `Lock` or holds
  it, so the map keeps no counter nobody uses.
-/
import DockerEngine.Go.Strings
import DockerEngine.Lib.Refinement

namespace DockerEngine.Locking

open Go Relation Refinement

/-- `ErrNoSuchLock`, "no such lock" -/
inductive LockerError where
  | noSuchLock
  deriving DecidableEq, Repr

/-- a `lockCtr`: whether its mutex is locked, and `waiters` -/
structure LockCtr where
  locked : Bool
  waiters : ℤ
  deriving DecidableEq, Repr

/-- `inc()` -/
def LockCtr.inc (c : LockCtr) : LockCtr := { c with waiters := c.waiters + 1 }

/-- `dec()` -/
def LockCtr.dec (c : LockCtr) : LockCtr := { c with waiters := c.waiters - 1 }

/-- a `Locker`: the map `locks` from names to the addresses of counters, and the counters made so far, all at
addresses below `next` -/
structure Locker where
  locks : Text → Option ℕ
  heap : ℕ → LockCtr
  next : ℕ

/-- `New()` -/
def Locker.new : Locker := ⟨fun _ => none, fun _ => ⟨false, 0⟩, 0⟩

/-- the counter at `p`, changed by `f` -/
def Locker.modify (l : Locker) (p : ℕ) (f : LockCtr → LockCtr) : Locker :=
  { l with heap := Function.update l.heap p (f (l.heap p)) }

/-- the part of `l.Lock(name)` under `l.mu`: the name's counter, made if there is none, counts one more waiter; the
address of the counter the caller then waits on -/
def Locker.lockEnter (l : Locker) (name : Text) : Locker × ℕ :=
  match l.locks name with
  | some p => (l.modify p LockCtr.inc, p)
  | none =>
    -- nameLock = &lockCtr{}; l.locks[name] = nameLock
    let l' : Locker := ⟨Function.update l.locks name (some l.next), Function.update l.heap l.next ⟨false, 0⟩, l.next + 1⟩
    (l'.modify l.next LockCtr.inc, l.next)

/-- `nameLock.Lock()`: `none` while the mutex is locked, where the caller is blocked -/
def Locker.acquire (l : Locker) (p : ℕ) : Option Locker :=
  if (l.heap p).locked then none else some (l.modify p fun c => { c with locked := true })

/-- `nameLock.dec()`, after which `Lock` returns -/
def Locker.lockExit (l : Locker) (p : ℕ) : Locker := l.modify p LockCtr.dec

/-- `l.Unlock(name)`: `ErrNoSuchLock` for a name with no counter; otherwise the counter is deleted from the map when no
caller is counted on it, and its mutex unlocked; `none` for the fatal error of unlocking a mutex that is not locked -/
def Locker.unlock (l : Locker) (name : Text) : Option (Locker × Option LockerError) :=
  match l.locks name with
  | none => some (l, some .noSuchLock)
  | some p =>
    let l := if (l.heap p).waiters = 0 then { l with locks := Function.update l.locks name none } else l
    if (l.heap p).locked then some (l.modify p fun c => { c with locked := false }, none) else none

/-! ## Callers -/

/-- where a caller of `Lock(name)` and then `Unlock(name)` is -/
inductive Phase where
  /-- before `Lock` -/
  | ready
  /-- counted on the counter at `p`, waiting for its mutex -/
  | waiting (p : ℕ)
  /-- with the mutex of the counter at `p`, still counted -/
  | acquired (p : ℕ)
  /-- `Lock` has returned -/
  | holding
  /-- `Unlock` has returned this error, or `nil` -/
  | unlocked (err : Option LockerError)
  /-- `Unlock` met the fatal error -/
  | crashed
  deriving DecidableEq, Repr

/-- the counter a caller is counted on: from `lockEnter` to `lockExit` -/
def Phase.ctr : Phase → Option ℕ
  | .waiting p => some p
  | .acquired p => some p
  | _ => none

/-- whether a caller has its name's mutex: from `acquire` to `Unlock` -/
def Phase.owns : Phase → Bool
  | .acquired _ => true
  | .holding => true
  | _ => false

/-- a caller: its name, and its phase -/
structure Caller where
  name : Text
  phase : Phase
  deriving DecidableEq, Repr

/-- the caller, moved on to phase `ph` -/
def Caller.setPhase (ph : Phase) (c : Caller) : Caller := { c with phase := ph }

/-- the locker and its callers -/
structure System where
  locker : Locker
  callers : List Caller

/-- the steps of the callers, each named by the caller that takes it -/
inductive Event where
  | lockEnter (i : ℕ)
  | acquire (i : ℕ)
  | lockExit (i : ℕ)
  | unlock (i : ℕ)
  deriving DecidableEq, Repr

/-- the step of event `e`; `none` when the caller is not at that step or is blocked -/
def System.step (s : System) : Event → Option System
  | .lockEnter i =>
    match s.callers[i]? with
    | some ⟨name, .ready⟩ =>
      let r := s.locker.lockEnter name
      some ⟨r.1, s.callers.modify i (Caller.setPhase (.waiting r.2))⟩
    | _ => none
  | .acquire i =>
    match s.callers[i]? with
    | some ⟨_, .waiting p⟩ => (s.locker.acquire p).map fun l => ⟨l, s.callers.modify i (Caller.setPhase (.acquired p))⟩
    | _ => none
  | .lockExit i =>
    match s.callers[i]? with
    | some ⟨_, .acquired p⟩ => some ⟨s.locker.lockExit p, s.callers.modify i (Caller.setPhase .holding)⟩
    | _ => none
  | .unlock i =>
    match s.callers[i]? with
    | some ⟨name, .holding⟩ =>
      match s.locker.unlock name with
      | some (l, err) => some ⟨l, s.callers.modify i (Caller.setPhase (.unlocked err))⟩
      | none => some ⟨s.locker, s.callers.modify i (Caller.setPhase .crashed)⟩
    | _ => none

/-- one step of some caller -/
def System.Next (s s' : System) : Prop := ∃ e, s.step e = some s'

/-- a new locker, and callers of `names`, none of them started -/
def System.init (names : List Text) : System := ⟨Locker.new, names.map fun n => ⟨n, .ready⟩⟩

/-- the states some interleaving of the callers' steps leads to -/
def Reachable (names : List Text) (s : System) : Prop := ReflTransGen System.Next (System.init names) s

/-! ## The locker's operations -/

section Operations

variable {l : Locker} {name : Text} {p : ℕ}

@[simp] theorem modify_locks (l : Locker) (p : ℕ) (f : LockCtr → LockCtr) : (l.modify p f).locks = l.locks := rfl

@[simp] theorem modify_next (l : Locker) (p : ℕ) (f : LockCtr → LockCtr) : (l.modify p f).next = l.next := rfl

theorem modify_heap (l : Locker) (p : ℕ) (f : LockCtr → LockCtr) (q : ℕ) :
    (l.modify p f).heap q = if q = p then f (l.heap p) else l.heap q := by
  simp only [Locker.modify, Function.update_apply]

theorem lockEnter_of_some (h : l.locks name = some p) : l.lockEnter name = (l.modify p LockCtr.inc, p) := by
  simp [Locker.lockEnter, h]

/-- a name with no counter gets a new one, at `next`, with one waiter -/
theorem lockEnter_of_none (h : l.locks name = none) :
    l.lockEnter name =
      (⟨Function.update l.locks name (some l.next), Function.update l.heap l.next ⟨false, 1⟩, l.next + 1⟩, l.next) := by
  simp [Locker.lockEnter, h, Locker.modify, LockCtr.inc]

theorem acquire_eq_some (h : l.acquire p = some l') :
    (l.heap p).locked = false ∧ l' = l.modify p fun c => { c with locked := true } := by
  unfold Locker.acquire at h
  -- a locked mutex gives none, so the mutex was free
  split_ifs at h with hl
  exact ⟨by simpa using hl, (Option.some.inj h).symm⟩

/-- `Unlock` of a name whose mutex is locked: no error, the counter deleted when nobody is counted on it -/
theorem unlock_of_locked (h : l.locks name = some p) (hl : (l.heap p).locked = true) :
    l.unlock name = some ((if (l.heap p).waiters = 0 then { l with locks := Function.update l.locks name none }
      else l).modify p fun c => { c with locked := false }, none) := by
  unfold Locker.unlock
  rw [h]
  dsimp only
  split_ifs <;> simp_all

end Operations

/-! ## The invariant -/

/-- a caller counted on the counter at `p` -/
def Caller.countedOn (p : ℕ) (c : Caller) : Bool := c.phase.ctr == some p

/-- a caller of the name `n` that has its mutex -/
def Caller.ownerOf (n : Text) (c : Caller) : Bool := c.name == n && c.phase.owns

@[simp] theorem setPhase_name (ph : Phase) (c : Caller) : (c.setPhase ph).name = c.name := rfl

@[simp] theorem setPhase_phase (ph : Phase) (c : Caller) : (c.setPhase ph).phase = ph := rfl

/-- what holds in every reachable state -/
structure Inv (s : System) : Prop where
  /-- the counters in the map are below `next` -/
  fresh : ∀ n p, s.locker.locks n = some p → p < s.locker.next
  /-- no two names share a counter -/
  inj : ∀ n m p, s.locker.locks n = some p → s.locker.locks m = some p → n = m
  /-- a caller counted on a counter is a caller of its name -/
  counted : ∀ c ∈ s.callers, ∀ p, c.phase.ctr = some p → s.locker.locks c.name = some p
  /-- a caller that holds its name has a counter for it -/
  holds : ∀ c ∈ s.callers, c.phase = .holding → (s.locker.locks c.name).isSome
  /-- `waiters` counts the callers counted on the counter -/
  waiters : ∀ n p, s.locker.locks n = some p → (s.locker.heap p).waiters = s.callers.countP (Caller.countedOn p)
  /-- the mutex is locked exactly when one caller of the name has it -/
  owners : ∀ n p, s.locker.locks n = some p →
    s.callers.countP (Caller.ownerOf n) = (s.locker.heap p).locked.toNat
  /-- a counter in the map is locked or waited on -/
  busy : ∀ n p, s.locker.locks n = some p → (s.locker.heap p).locked ∨ 0 < (s.locker.heap p).waiters
  /-- no `Unlock` has failed -/
  ok : ∀ c ∈ s.callers, c.phase ≠ .crashed ∧ c.phase ≠ .unlocked (some .noSuchLock)

section Inv

variable {s : System}

/-- a caller that has its name's mutex has a counter for the name -/
theorem Inv.locks_of_owns (hs : Inv s) {c : Caller} (hc : c ∈ s.callers) (ho : c.phase.owns = true) :
    (s.locker.locks c.name).isSome := by
  cases hph : c.phase with
  | acquired p => simp [hs.counted c hc p (by simp [hph, Phase.ctr])]
  | holding => exact hs.holds c hc hph
  | _ => simp [hph, Phase.owns] at ho

/-- ... and that counter's mutex is locked -/
theorem Inv.locked_of_owns (hs : Inv s) {c : Caller} (hc : c ∈ s.callers) (ho : c.phase.owns = true) {p : ℕ}
    (hp : s.locker.locks c.name = some p) : (s.locker.heap p).locked = true := by
  have hpos : 0 < s.callers.countP (Caller.ownerOf c.name) :=
    List.countP_pos_iff.mpr ⟨c, hc, by simp [Caller.ownerOf, ho]⟩
  rw [hs.owners _ _ hp] at hpos
  cases hl : (s.locker.heap p).locked with
  | true => rfl
  | false => simp [hl] at hpos

/-- a name with no counter has no caller in `Lock` or holding it -/
theorem Inv.idle_of_none (hs : Inv s) {n : Text} (hn : s.locker.locks n = none) {c : Caller} (hc : c ∈ s.callers)
    (hname : c.name = n) : c.phase.ctr = none ∧ c.phase.owns = false := by
  constructor
  · cases hctr : c.phase.ctr with
    | none => rfl
    | some p =>
      have := hs.counted c hc p hctr
      rw [hname, hn] at this
      cases this
  · cases ho : c.phase.owns with
    | false => rfl
    | true =>
      have := hs.locks_of_owns hc ho
      rw [hname, hn] at this
      cases this

theorem Inv.waiters_nonneg (hs : Inv s) {n : Text} {p : ℕ} (hp : s.locker.locks n = some p) :
    0 ≤ (s.locker.heap p).waiters := by
  rw [hs.waiters n p hp]
  exact Int.natCast_nonneg _

end Inv

theorem inv_init (names : List Text) : Inv (System.init names) where
  fresh _ _ h := by cases h
  inj _ _ _ h := by cases h
  counted c hc p hp := by
    obtain ⟨n, -, rfl⟩ := List.mem_map.mp hc
    cases hp
  holds c hc hp := by
    obtain ⟨n, -, rfl⟩ := List.mem_map.mp hc
    cases hp
  waiters _ _ h := by cases h
  owners _ _ h := by cases h
  busy _ _ h := by cases h
  ok c hc := by
    obtain ⟨n, -, rfl⟩ := List.mem_map.mp hc
    exact ⟨nofun, nofun⟩

/-! ## One step -/

section Step

variable {s s' : System} {i : ℕ}

theorem step_lockEnter (h : s.step (.lockEnter i) = some s') :
    ∃ hi : i < s.callers.length, s.callers[i].phase = .ready ∧
      s' = ⟨(s.locker.lockEnter s.callers[i].name).1,
        s.callers.modify i (Caller.setPhase (.waiting (s.locker.lockEnter s.callers[i].name).2))⟩ := by
  simp only [System.step] at h
  split at h
  · rename_i name heq
    obtain ⟨hi, hc⟩ := List.getElem?_eq_some_iff.mp heq
    refine ⟨hi, by rw [hc], ?_⟩
    rw [hc]
    exact (Option.some.inj h).symm
  · cases h

theorem step_acquire (h : s.step (.acquire i) = some s') :
    ∃ hi : i < s.callers.length, ∃ p, s.callers[i].phase = .waiting p ∧ (s.locker.heap p).locked = false ∧
      s' = ⟨s.locker.modify p fun c => { c with locked := true }, s.callers.modify i (Caller.setPhase (.acquired p))⟩ := by
  simp only [System.step] at h
  split at h
  · rename_i name p heq
    obtain ⟨hi, hc⟩ := List.getElem?_eq_some_iff.mp heq
    obtain ⟨l, hl, rfl⟩ := Option.map_eq_some_iff.mp h
    obtain ⟨hfree, rfl⟩ := acquire_eq_some hl
    exact ⟨hi, p, by rw [hc], hfree, rfl⟩
  · cases h

theorem step_lockExit (h : s.step (.lockExit i) = some s') :
    ∃ hi : i < s.callers.length, ∃ p, s.callers[i].phase = .acquired p ∧
      s' = ⟨s.locker.lockExit p, s.callers.modify i (Caller.setPhase .holding)⟩ := by
  simp only [System.step] at h
  split at h
  · rename_i name p heq
    obtain ⟨hi, hc⟩ := List.getElem?_eq_some_iff.mp heq
    exact ⟨hi, p, by rw [hc], (Option.some.inj h).symm⟩
  · cases h

theorem step_unlock (h : s.step (.unlock i) = some s') :
    ∃ hi : i < s.callers.length, s.callers[i].phase = .holding ∧
      ((∃ l err, s.locker.unlock s.callers[i].name = some (l, err) ∧
        s' = ⟨l, s.callers.modify i (Caller.setPhase (.unlocked err))⟩) ∨
      (s.locker.unlock s.callers[i].name = none ∧ s' = ⟨s.locker, s.callers.modify i (Caller.setPhase .crashed)⟩)) := by
  simp only [System.step] at h
  split at h
  · rename_i name heq
    obtain ⟨hi, hc⟩ := List.getElem?_eq_some_iff.mp heq
    refine ⟨hi, by rw [hc], ?_⟩
    rw [hc]
    split at h
    · rename_i l err hu
      exact .inl ⟨l, err, hu, (Option.some.inj h).symm⟩
    · rename_i hu
      exact .inr ⟨hu, (Option.some.inj h).symm⟩
  · cases h

end Step

/-! ## Each step keeps the invariant -/

section Counts

variable {α : Type} (P : α → Bool) {l : List α} {i : ℕ} (hi : i < l.length) {f : α → α}

/-- a count that the changed element meets before and after is unchanged -/
theorem countP_modify_of_eq (h : P (f l[i]) = P l[i]) : (l.modify i f).countP P = l.countP P := by
  have := countP_modify P f l i hi
  rw [h] at this
  omega

/-- a count that only the changed element meets after gains one -/
theorem countP_modify_of_new (h₁ : P l[i] = false) (h₂ : P (f l[i]) = true) :
    (l.modify i f).countP P = l.countP P + 1 := by
  have := countP_modify P f l i hi
  rw [h₁, h₂] at this
  simpa using this

/-- a count that only the changed element met before loses one -/
theorem countP_modify_of_old (h₁ : P l[i] = true) (h₂ : P (f l[i]) = false) :
    (l.modify i f).countP P + 1 = l.countP P := by
  have := countP_modify P f l i hi
  rw [h₁, h₂] at this
  simpa using this

end Counts

section Preserve

variable {s : System} {i : ℕ}

theorem inv_lockEnter_of_some (hs : Inv s) (hi : i < s.callers.length) (hready : s.callers[i].phase = .ready)
    {p : ℕ} (hp : s.locker.locks s.callers[i].name = some p) :
    Inv ⟨s.locker.modify p LockCtr.inc, s.callers.modify i (Caller.setPhase (.waiting p))⟩ where
  fresh := hs.fresh
  inj := hs.inj
  counted d hd q hq := by
    rcases mem_modify_getElem hi hd with hd | rfl
    · exact hs.counted d hd q hq
    · simp only [setPhase_phase, Phase.ctr, Option.some.injEq] at hq
      subst hq
      exact hp
  holds d hd hh := by
    rcases mem_modify_getElem hi hd with hd | rfl
    · exact hs.holds d hd hh
    · cases hh
  waiters m q hq := by
    dsimp only at hq ⊢
    rw [modify_locks] at hq
    rw [modify_heap]
    have hc : Caller.countedOn q s.callers[i] = false := by simp [Caller.countedOn, hready, Phase.ctr]
    by_cases hqp : q = p
    · -- the caller is now counted on its counter
      subst hqp
      rw [if_pos rfl, countP_modify_of_new _ hi hc (by simp [Caller.countedOn, Phase.ctr])]
      simp only [LockCtr.inc]
      rw [hs.waiters m q hq]
      push_cast
      rfl
    · rw [if_neg hqp, hs.waiters m q hq,
        countP_modify_of_eq _ hi (by rw [hc]; simp [Caller.countedOn, Phase.ctr, Ne.symm hqp])]
  owners m q hq := by
    dsimp only at hq ⊢
    rw [modify_locks] at hq
    have hheap : ((s.locker.modify p LockCtr.inc).heap q).locked = (s.locker.heap q).locked := by
      rw [modify_heap]
      split_ifs with hqp
      · rw [hqp]
        rfl
      · rfl
    rw [hheap, ← hs.owners m q hq]
    exact countP_modify_of_eq _ hi (by simp [Caller.ownerOf, hready, Phase.owns])
  busy m q hq := by
    dsimp only at hq ⊢
    rw [modify_locks] at hq
    rw [modify_heap]
    split_ifs with hqp
    · subst hqp
      have := hs.waiters_nonneg hq
      exact .inr (by simp only [LockCtr.inc]; omega)
    · exact hs.busy m q hq
  ok d hd := by
    rcases mem_modify_getElem hi hd with hd | rfl
    · exact hs.ok d hd
    · exact ⟨nofun, nofun⟩

/-- `Lock` of a name with no counter: the new counter, at `next`, is the name's only one -/
theorem inv_lockEnter_of_none (hs : Inv s) (hi : i < s.callers.length) (hready : s.callers[i].phase = .ready)
    (hn : s.locker.locks s.callers[i].name = none) :
    Inv ⟨⟨Function.update s.locker.locks s.callers[i].name (some s.locker.next),
      Function.update s.locker.heap s.locker.next ⟨false, 1⟩, s.locker.next + 1⟩,
      s.callers.modify i (Caller.setPhase (.waiting s.locker.next))⟩ where
  fresh m q hq := by
    dsimp only at hq ⊢
    rw [Function.update_apply] at hq
    split_ifs at hq
    · cases hq
      omega
    · have := hs.fresh m q hq
      omega
  inj m m' q hm hm' := by
    dsimp only at hm hm'
    rw [Function.update_apply] at hm hm'
    -- the new counter is no old one's
    split_ifs at hm hm' with h₁ h₂ h₂
    · exact h₁.trans h₂.symm
    · cases hm
      exact absurd (hs.fresh m' _ hm') (lt_irrefl _)
    · cases hm'
      exact absurd (hs.fresh m _ hm) (lt_irrefl _)
    · exact hs.inj m m' q hm hm'
  counted d hd q hq := by
    dsimp only
    rcases mem_modify_getElem hi hd with hd | rfl
    · have hold := hs.counted d hd q hq
      have hne : d.name ≠ s.callers[i].name := fun h => by rw [h, hn] at hold; cases hold
      rw [Function.update_of_ne hne]
      exact hold
    · simp only [setPhase_phase, Phase.ctr, Option.some.injEq] at hq
      subst hq
      simp
  holds d hd hh := by
    dsimp only
    rcases mem_modify_getElem hi hd with hd | rfl
    · rw [Function.update_apply]
      split_ifs
      · rfl
      · exact hs.holds d hd hh
    · cases hh
  waiters m q hq := by
    dsimp only at hq ⊢
    rw [Function.update_apply] at hq
    have hc : Caller.countedOn q s.callers[i] = false := by simp [Caller.countedOn, hready, Phase.ctr]
    split_ifs at hq with hm
    · -- the new counter: this caller alone is counted on it
      cases hq
      have hnone : s.callers.countP (Caller.countedOn s.locker.next) = 0 := by
        refine List.countP_eq_zero.mpr fun d hd hq => ?_
        have hold := hs.counted d hd s.locker.next (by simpa [Caller.countedOn] using hq)
        exact lt_irrefl _ (hs.fresh _ _ hold)
      rw [Function.update_self, countP_modify_of_new _ hi hc (by simp [Caller.countedOn, Phase.ctr]), hnone]
      rfl
    · have hq' : q ≠ s.locker.next := (hs.fresh m q hq).ne
      rw [Function.update_of_ne hq', hs.waiters m q hq,
        countP_modify_of_eq _ hi (by rw [hc]; simp [Caller.countedOn, Phase.ctr, Ne.symm hq'])]
  owners m q hq := by
    dsimp only at hq ⊢
    rw [Function.update_apply] at hq
    have hc : ∀ m, Caller.ownerOf m s.callers[i] = false := fun m => by simp [Caller.ownerOf, hready, Phase.owns]
    rw [countP_modify_of_eq _ hi (by rw [hc]; simp [Caller.ownerOf, Phase.owns])]
    split_ifs at hq with hm
    · -- no caller had the name's mutex, and the new one is not locked
      cases hq
      simp only [Function.update_self, Bool.toNat_false]
      subst hm
      refine List.countP_eq_zero.mpr fun d hd ho => ?_
      simp only [Caller.ownerOf, Bool.and_eq_true, beq_iff_eq] at ho
      have := (hs.idle_of_none hn hd ho.1).2
      rw [ho.2] at this
      cases this
    · simp only [Function.update_of_ne (hs.fresh m q hq).ne]
      exact hs.owners m q hq
  busy m q hq := by
    dsimp only at hq ⊢
    rw [Function.update_apply] at hq
    split_ifs at hq with hm
    · cases hq
      rw [Function.update_self]
      exact .inr (by decide)
    · rw [Function.update_of_ne (hs.fresh m q hq).ne]
      exact hs.busy m q hq
  ok d hd := by
    rcases mem_modify_getElem hi hd with hd | rfl
    · exact hs.ok d hd
    · exact ⟨nofun, nofun⟩

/-- a caller takes a free mutex: its name's only owner -/
theorem inv_acquire (hs : Inv s) (hi : i < s.callers.length) {p : ℕ} (hwait : s.callers[i].phase = .waiting p)
    (hfree : (s.locker.heap p).locked = false) :
    Inv ⟨s.locker.modify p fun c => { c with locked := true }, s.callers.modify i (Caller.setPhase (.acquired p))⟩ where
  fresh := hs.fresh
  inj := hs.inj
  counted d hd q hq := by
    rcases mem_modify_getElem hi hd with hd | rfl
    · exact hs.counted d hd q hq
    · simp only [setPhase_phase, Phase.ctr, Option.some.injEq] at hq
      subst hq
      exact hs.counted _ (List.getElem_mem hi) p (by simp [hwait, Phase.ctr])
  holds d hd hh := by
    rcases mem_modify_getElem hi hd with hd | rfl
    · exact hs.holds d hd hh
    · cases hh
  waiters m q hq := by
    dsimp only at hq ⊢
    rw [modify_locks] at hq
    have hw : ((s.locker.modify p fun c => { c with locked := true }).heap q).waiters = (s.locker.heap q).waiters := by
      rw [modify_heap]
      split_ifs with hqp
      · rw [hqp]
      · rfl
    -- counted on `p` before and after
    rw [hw, hs.waiters m q hq, countP_modify_of_eq _ hi (by simp [Caller.countedOn, hwait, Phase.ctr])]
  owners m q hq := by
    dsimp only at hq ⊢
    rw [modify_locks] at hq
    have hp : s.locker.locks s.callers[i].name = some p :=
      hs.counted _ (List.getElem_mem hi) p (by simp [hwait, Phase.ctr])
    by_cases hm : m = s.callers[i].name
    · -- the name's mutex: no owner before, this caller after
      subst hm
      obtain rfl : q = p := Option.some.inj (hq.symm.trans hp)
      have hnone := hs.owners _ q hq
      rw [hfree, Bool.toNat_false] at hnone
      rw [modify_heap, if_pos rfl, countP_modify_of_new _ hi (by simp [Caller.ownerOf, hwait, Phase.owns])
        (by simp [Caller.ownerOf, Phase.owns]), hnone]
      rfl
    · have hqp : q ≠ p := fun h => hm (hs.inj m _ p (h ▸ hq) hp)
      have hbeq : (s.callers[i].name == m) = false := beq_eq_false_iff_ne.mpr (Ne.symm hm)
      rw [modify_heap, if_neg hqp, ← hs.owners m q hq]
      exact countP_modify_of_eq _ hi (by simp [Caller.ownerOf, hbeq])
  busy m q hq := by
    dsimp only at hq ⊢
    rw [modify_locks] at hq
    rw [modify_heap]
    split_ifs with hqp
    · exact .inl rfl
    · exact hs.busy m q hq
  ok d hd := by
    rcases mem_modify_getElem hi hd with hd | rfl
    · exact hs.ok d hd
    · exact ⟨nofun, nofun⟩

/-- `Lock` returns: the caller is off the count and holds the name -/
theorem inv_lockExit (hs : Inv s) (hi : i < s.callers.length) {p : ℕ} (hacq : s.callers[i].phase = .acquired p) :
    Inv ⟨s.locker.lockExit p, s.callers.modify i (Caller.setPhase .holding)⟩ where
  fresh := hs.fresh
  inj := hs.inj
  counted d hd q hq := by
    rcases mem_modify_getElem hi hd with hd | rfl
    · exact hs.counted d hd q hq
    · cases hq
  holds d hd hh := by
    rcases mem_modify_getElem hi hd with hd | rfl
    · exact hs.holds d hd hh
    · simp [Locker.lockExit, hs.counted _ (List.getElem_mem hi) p (by simp [hacq, Phase.ctr])]
  waiters m q hq := by
    dsimp only [Locker.lockExit] at hq ⊢
    rw [modify_locks] at hq
    rw [modify_heap]
    have hc : Caller.countedOn q (s.callers[i].setPhase .holding) = false := by simp [Caller.countedOn, Phase.ctr]
    by_cases hqp : q = p
    · -- the caller is off the count
      subst hqp
      have hcount := countP_modify_of_old _ hi (by simp [Caller.countedOn, hacq, Phase.ctr]) hc
      rw [if_pos rfl, LockCtr.dec, hs.waiters m q hq, ← hcount]
      push_cast
      ring
    · rw [if_neg hqp, hs.waiters m q hq, countP_modify_of_eq _ hi (by rw [hc]; simp [Caller.countedOn, hacq,
        Phase.ctr, Ne.symm hqp])]
  owners m q hq := by
    dsimp only [Locker.lockExit] at hq ⊢
    rw [modify_locks] at hq
    have hheap : ((s.locker.modify p LockCtr.dec).heap q).locked = (s.locker.heap q).locked := by
      rw [modify_heap]
      split_ifs with hqp
      · rw [hqp]
        rfl
      · rfl
    rw [hheap, ← hs.owners m q hq]
    exact countP_modify_of_eq _ hi (by simp [Caller.ownerOf, hacq, Phase.owns])
  busy m q hq := by
    dsimp only [Locker.lockExit] at hq ⊢
    rw [modify_locks] at hq
    rw [modify_heap]
    split_ifs with hqp
    · -- the caller still has the mutex
      subst hqp
      have hp := hs.counted _ (List.getElem_mem hi) q (by simp [hacq, Phase.ctr])
      exact .inl (hs.locked_of_owns (List.getElem_mem hi) (by simp [hacq, Phase.owns]) hp)
    · exact hs.busy m q hq
  ok d hd := by
    rcases mem_modify_getElem hi hd with hd | rfl
    · exact hs.ok d hd
    · exact ⟨nofun, nofun⟩

/-- `Unlock` when no caller is counted on the counter: it leaves the map -/
theorem inv_unlock_of_idle (hs : Inv s) (hi : i < s.callers.length) (hhold : s.callers[i].phase = .holding) {p : ℕ}
    (hp : s.locker.locks s.callers[i].name = some p) (hl : (s.locker.heap p).locked = true)
    (hw : (s.locker.heap p).waiters = 0) :
    Inv ⟨({ s.locker with locks := Function.update s.locker.locks s.callers[i].name none }).modify p
      (fun c => { c with locked := false }), s.callers.modify i (Caller.setPhase (.unlocked none))⟩ where
  fresh m q hq := by
    dsimp only [modify_locks] at hq ⊢
    rw [Function.update_apply] at hq
    split_ifs at hq
    exact hs.fresh m q hq
  inj m m' q hm hm' := by
    dsimp only [modify_locks] at hm hm'
    rw [Function.update_apply] at hm hm'
    split_ifs at hm hm'
    exact hs.inj m m' q hm hm'
  counted d hd q hq := by
    dsimp only [modify_locks]
    rcases mem_modify_getElem hi hd with hd | rfl
    · have hold := hs.counted d hd q hq
      -- nobody is counted on the deleted counter
      have hne : d.name ≠ s.callers[i].name := by
        intro h
        rw [h, hp] at hold
        cases hold
        have hzero : s.callers.countP (Caller.countedOn p) = 0 := by
          have := hs.waiters _ _ hp
          omega
        exact absurd hzero (List.countP_pos_iff.mpr ⟨d, hd, by simp [Caller.countedOn, hq]⟩).ne'
      rw [Function.update_of_ne hne]
      exact hold
    · cases hq
  holds d hd hh := by
    dsimp only [modify_locks]
    by_cases hne : d.name = s.callers[i].name
    · -- the caller was the name's only owner, and owns it no more
      exfalso
      have hold : s.callers.countP (Caller.ownerOf s.callers[i].name) = 1 := by rw [hs.owners _ _ hp, hl]; rfl
      have hnew := countP_modify_of_old (Caller.ownerOf s.callers[i].name) hi (f := Caller.setPhase (.unlocked none))
        (by simp [Caller.ownerOf, hhold, Phase.owns]) (by simp [Caller.ownerOf, Phase.owns])
      have hpos : 0 < (s.callers.modify i (Caller.setPhase (.unlocked none))).countP
          (Caller.ownerOf s.callers[i].name) :=
        List.countP_pos_iff.mpr ⟨d, hd, by simp [Caller.ownerOf, hne, hh, Phase.owns]⟩
      omega
    · rcases mem_modify_getElem hi hd with hd | rfl
      · rw [Function.update_of_ne hne]
        exact hs.holds d hd hh
      · cases hh
  waiters m q hq := by
    dsimp only [modify_locks] at hq ⊢
    rw [Function.update_apply] at hq
    split_ifs at hq with hm
    have hqp : q ≠ p := fun h => hm (hs.inj m _ p (h ▸ hq) hp)
    rw [modify_heap, if_neg hqp, hs.waiters m q hq,
      countP_modify_of_eq _ hi (by simp [Caller.countedOn, hhold, Phase.ctr])]
  owners m q hq := by
    dsimp only [modify_locks] at hq ⊢
    rw [Function.update_apply] at hq
    split_ifs at hq with hm
    have hqp : q ≠ p := fun h => hm (hs.inj m _ p (h ▸ hq) hp)
    have hbeq : (s.callers[i].name == m) = false := beq_eq_false_iff_ne.mpr (Ne.symm hm)
    rw [modify_heap, if_neg hqp, ← hs.owners m q hq]
    exact countP_modify_of_eq _ hi (by simp [Caller.ownerOf, hbeq])
  busy m q hq := by
    dsimp only [modify_locks] at hq ⊢
    rw [Function.update_apply] at hq
    split_ifs at hq with hm
    have hqp : q ≠ p := fun h => hm (hs.inj m _ p (h ▸ hq) hp)
    rw [modify_heap, if_neg hqp]
    exact hs.busy m q hq
  ok d hd := by
    rcases mem_modify_getElem hi hd with hd | rfl
    · exact hs.ok d hd
    · exact ⟨nofun, by simp⟩

/-- `Unlock` when callers are counted on the counter: it stays, free for one of them -/
theorem inv_unlock_of_waited (hs : Inv s) (hi : i < s.callers.length) (hhold : s.callers[i].phase = .holding)
    {p : ℕ} (hp : s.locker.locks s.callers[i].name = some p) (hl : (s.locker.heap p).locked = true)
    (hw : (s.locker.heap p).waiters ≠ 0) :
    Inv ⟨s.locker.modify p (fun c => { c with locked := false }), s.callers.modify i (Caller.setPhase (.unlocked none))⟩ where
  fresh := hs.fresh
  inj := hs.inj
  counted d hd q hq := by
    rcases mem_modify_getElem hi hd with hd | rfl
    · exact hs.counted d hd q hq
    · cases hq
  holds d hd hh := by
    rcases mem_modify_getElem hi hd with hd | rfl
    · exact hs.holds d hd hh
    · cases hh
  waiters m q hq := by
    dsimp only at hq ⊢
    rw [modify_locks] at hq
    have hwq : ((s.locker.modify p fun c => { c with locked := false }).heap q).waiters = (s.locker.heap q).waiters := by
      rw [modify_heap]
      split_ifs with hqp
      · rw [hqp]
      · rfl
    rw [hwq, hs.waiters m q hq, countP_modify_of_eq _ hi (by simp [Caller.countedOn, hhold, Phase.ctr])]
  owners m q hq := by
    dsimp only at hq ⊢
    rw [modify_locks] at hq
    by_cases hm : m = s.callers[i].name
    · -- the name's only owner lets go
      subst hm
      obtain rfl : q = p := Option.some.inj (hq.symm.trans hp)
      have hold : s.callers.countP (Caller.ownerOf s.callers[i].name) = 1 := by rw [hs.owners _ _ hp, hl]; rfl
      have hnew := countP_modify_of_old (Caller.ownerOf s.callers[i].name) hi (f := Caller.setPhase (.unlocked none))
        (by simp [Caller.ownerOf, hhold, Phase.owns]) (by simp [Caller.ownerOf, Phase.owns])
      rw [modify_heap, if_pos rfl]
      simp only [Bool.toNat_false]
      omega
    · have hqp : q ≠ p := fun h => hm (hs.inj m _ p (h ▸ hq) hp)
      have hbeq : (s.callers[i].name == m) = false := beq_eq_false_iff_ne.mpr (Ne.symm hm)
      rw [modify_heap, if_neg hqp, ← hs.owners m q hq]
      exact countP_modify_of_eq _ hi (by simp [Caller.ownerOf, hbeq])
  busy m q hq := by
    dsimp only at hq ⊢
    rw [modify_locks] at hq
    rw [modify_heap]
    split_ifs with hqp
    · subst hqp
      have := hs.waiters_nonneg hp
      exact .inr (by dsimp only; omega)
    · exact hs.busy m q hq
  ok d hd := by
    rcases mem_modify_getElem hi hd with hd | rfl
    · exact hs.ok d hd
    · exact ⟨nofun, by simp⟩

end Preserve

/-! ## Every reachable state -/

section Reach

variable {s : System}

/-- a caller that holds its name finds its counter in the map, locked -/
theorem Inv.counter_of_holding (hs : Inv s) {i : ℕ} (hi : i < s.callers.length) (hhold : s.callers[i].phase = .holding) :
    ∃ p, s.locker.locks s.callers[i].name = some p ∧ (s.locker.heap p).locked = true := by
  obtain ⟨p, hp⟩ := Option.isSome_iff_exists.mp (hs.holds _ (List.getElem_mem hi) hhold)
  exact ⟨p, hp, hs.locked_of_owns (List.getElem_mem hi) (by simp [hhold, Phase.owns]) hp⟩

/-- every step keeps the invariant -/
theorem inv_step {s' : System} (hs : Inv s) (h : s.Next s') : Inv s' := by
  obtain ⟨e, he⟩ := h
  cases e with
  | lockEnter i =>
    obtain ⟨hi, hready, rfl⟩ := step_lockEnter he
    cases hn : s.locker.locks s.callers[i].name with
    | none =>
      rw [lockEnter_of_none hn]
      exact inv_lockEnter_of_none hs hi hready hn
    | some p =>
      rw [lockEnter_of_some hn]
      exact inv_lockEnter_of_some hs hi hready hn
  | acquire i =>
    obtain ⟨hi, p, hwait, hfree, rfl⟩ := step_acquire he
    exact inv_acquire hs hi hwait hfree
  | lockExit i =>
    obtain ⟨hi, p, hacq, rfl⟩ := step_lockExit he
    exact inv_lockExit hs hi hacq
  | unlock i =>
    obtain ⟨hi, hhold, hr⟩ := step_unlock he
    obtain ⟨p, hp, hl⟩ := hs.counter_of_holding hi hhold
    rw [unlock_of_locked hp hl] at hr
    rcases hr with ⟨l, err, hu, rfl⟩ | ⟨hu, -⟩
    · simp only [Option.some.injEq, Prod.mk.injEq] at hu
      obtain ⟨rfl, rfl⟩ := hu
      split_ifs with hw
      · exact inv_unlock_of_idle hs hi hhold hp hl hw
      · exact inv_unlock_of_waited hs hi hhold hp hl hw
    · cases hu

theorem inv_of_reachable {names : List Text} (h : Reachable names s) : Inv s :=
  reachable_inv (fun _ _ => inv_step) h (inv_init names)

end Reach

/-! ## One mutex per name -/

/-- a caller seen from outside: it has not asked for its name's mutex, waits for it, holds it, or has let it go -/
inductive Seen where
  | ready
  | wanting
  | holding
  | released
  deriving DecidableEq, Repr

/-- the steps of callers of one mutex per name: a caller takes its name's mutex only when no caller of the name holds
it -/
inductive MutexStep : List (Text × Seen) → List (Text × Seen) → Prop
  | request (l : List (Text × Seen)) (i : ℕ) (hi : i < l.length) (h : l[i].2 = .ready) :
    MutexStep l (l.set i (l[i].1, .wanting))
  | take (l : List (Text × Seen)) (i : ℕ) (hi : i < l.length) (h : l[i].2 = .wanting)
    (hfree : ∀ x ∈ l, x.1 = l[i].1 → x.2 ≠ .holding) : MutexStep l (l.set i (l[i].1, .holding))
  | release (l : List (Text × Seen)) (i : ℕ) (hi : i < l.length) (h : l[i].2 = .holding) :
    MutexStep l (l.set i (l[i].1, .released))

/-- a caller of `n` that holds its mutex -/
def holderOf (n : Text) (x : Text × Seen) : Bool := x.1 == n && x.2 == .holding

/-- at most one caller holds each name -/
def Exclusive (l : List (Text × Seen)) : Prop := ∀ n, l.countP (holderOf n) ≤ 1

/-- a caller that lets go, or asks, holds nothing new -/
theorem countP_holderOf_set_le {l : List (Text × Seen)} {i : ℕ} (hi : i < l.length) {a : Text × Seen}
    (ha : a.2 ≠ .holding) (n : Text) : (l.set i a).countP (holderOf n) ≤ l.countP (holderOf n) := by
  rw [List.countP_set hi]
  have hle : (if holderOf n l[i] = true then 1 else 0) ≤ l.countP (holderOf n) := by
    split_ifs with hh
    · exact List.countP_pos_iff.mpr ⟨l[i], List.getElem_mem hi, hh⟩
    · exact Nat.zero_le _
  have hnot : holderOf n a = false := by simp [holderOf, ha]
  rw [hnot]
  simp only [Bool.false_eq_true, if_false]
  omega

theorem exclusive_step {l l' : List (Text × Seen)} (hl : Exclusive l) (h : MutexStep l l') : Exclusive l' := by
  intro n
  cases h with
  | request i hi _ => exact (countP_holderOf_set_le hi (by simp) n).trans (hl n)
  | release i hi _ => exact (countP_holderOf_set_le hi (by simp) n).trans (hl n)
  | take i hi hwant hfree =>
    by_cases hn : l[i].1 = n
    · -- nobody held the name before
      subst hn
      have hzero : l.countP (holderOf l[i].1) = 0 :=
        List.countP_eq_zero.mpr fun x hx hh => by
          simp only [holderOf, Bool.and_eq_true, beq_iff_eq] at hh
          exact hfree x hx hh.1 hh.2
      rw [List.countP_set hi, hzero]
      split_ifs <;> simp
    · have hnot : holderOf n (l[i].1, Seen.holding) = false := by simp [holderOf, hn]
      rw [List.countP_set hi, hnot]
      have := hl n
      simp only [Bool.false_eq_true, if_false]
      omega

/-- what a phase is from outside -/
def Phase.seen : Phase → Seen
  | .ready => .ready
  | .waiting _ => .wanting
  | .acquired _ => .holding
  | .holding => .holding
  | .unlocked _ => .released
  | .crashed => .released

/-- the callers seen from outside -/
def System.view (s : System) : List (Text × Seen) := s.callers.map fun c => (c.name, c.phase.seen)

theorem seen_eq_holding {ph : Phase} : ph.seen = .holding ↔ ph.owns = true := by
  cases ph <;> simp [Phase.seen, Phase.owns]

/-- the holders seen from outside are the callers that have their name's mutex -/
theorem countP_view (s : System) (n : Text) : s.view.countP (holderOf n) = s.callers.countP (Caller.ownerOf n) := by
  rw [System.view, List.countP_map]
  congr 1
  funext c
  simp only [Function.comp, holderOf, Caller.ownerOf]
  cases h : c.phase.owns <;> simp [seen_eq_holding, h]

theorem view_init (names : List Text) : (System.init names).view = names.map fun n => (n, Seen.ready) := by
  simp [System.view, System.init, Function.comp_def, Phase.seen]

theorem exclusive_init (names : List Text) : Exclusive (names.map fun n => (n, Seen.ready)) := by
  intro n
  rw [List.countP_eq_zero.mpr fun x hx => by
    obtain ⟨m, -, rfl⟩ := List.mem_map.mp hx
    simp [holderOf]]
  exact Nat.zero_le _

/-- a caller moved on: its view changes at its place only -/
theorem view_modify {s : System} {L : Locker} {i : ℕ} (hi : i < s.callers.length) (ph : Phase) :
    (System.view ⟨L, s.callers.modify i (Caller.setPhase ph)⟩) = s.view.set i (s.callers[i].name, ph.seen) := by
  have hset : s.callers.modify i (Caller.setPhase ph) = s.callers.set i (s.callers[i].setPhase ph) := by
    apply List.ext_getElem
    · simp
    · intro m h₁ h₂
      simp only [List.getElem_modify, List.getElem_set]
      split_ifs <;> simp_all
  simp [System.view, hset]

/-- each step of `Locker` is a step of one mutex per name, or leaves what is seen as it is -/
theorem step_refines {s s' : System} (hs : Inv s) (h : s.Next s') : MutexStep s.view s'.view ∨ s.view = s'.view := by
  obtain ⟨e, he⟩ := h
  have hlen : ∀ {i}, i < s.callers.length → i < s.view.length := fun hi => by simpa [System.view] using hi
  have hget : ∀ {i} (hi : i < s.callers.length) (hv : i < s.view.length),
      s.view[i] = (s.callers[i].name, s.callers[i].phase.seen) := fun _ _ => by simp [System.view]
  cases e with
  | lockEnter i =>
    obtain ⟨hi, hready, rfl⟩ := step_lockEnter he
    left
    rw [view_modify hi]
    have := MutexStep.request s.view i (hlen hi) (by rw [hget hi (hlen hi), hready]; rfl)
    rwa [hget hi (hlen hi)] at this
  | acquire i =>
    obtain ⟨hi, p, hwait, hfree, rfl⟩ := step_acquire he
    left
    rw [view_modify hi]
    have hp := hs.counted _ (List.getElem_mem hi) p (by simp [hwait, Phase.ctr])
    -- no caller of the name has its mutex, since it is free
    have hnone : s.callers.countP (Caller.ownerOf s.callers[i].name) = 0 := by
      rw [hs.owners _ _ hp, hfree]
      rfl
    have htake := MutexStep.take s.view i (hlen hi) (by rw [hget hi (hlen hi), hwait]; rfl) (fun x hx hname hhold => by
      rw [hget hi (hlen hi)] at hname
      have hpos : 0 < s.view.countP (holderOf s.callers[i].name) :=
        List.countP_pos_iff.mpr ⟨x, hx, by simp [holderOf, hname, hhold]⟩
      rw [countP_view, hnone] at hpos
      exact lt_irrefl 0 hpos)
    rwa [hget hi (hlen hi)] at htake
  | lockExit i =>
    obtain ⟨hi, p, hacq, rfl⟩ := step_lockExit he
    right
    rw [view_modify hi]
    have hv := hlen hi
    have : (s.callers[i].name, Phase.holding.seen) = s.view[i] := by rw [hget hi hv, hacq]; rfl
    rw [this, List.set_getElem_self]
  | unlock i =>
    obtain ⟨hi, hhold, hr⟩ := step_unlock he
    left
    rcases hr with ⟨l, err, -, rfl⟩ | ⟨-, rfl⟩
    · rw [view_modify hi]
      have := MutexStep.release s.view i (hlen hi) (by rw [hget hi (hlen hi), hhold]; rfl)
      rwa [hget hi (hlen hi)] at this
    · rw [view_modify hi]
      have := MutexStep.release s.view i (hlen hi) (by rw [hget hi (hlen hi), hhold]; rfl)
      rwa [hget hi (hlen hi)] at this

/-! ## What a reachable state holds of each caller -/

section Callers

variable {s : System}

/-- a caller that has returned from `Unlock` got `nil` -/
theorem Inv.unlocked_of_released (hs : Inv s) {c : Caller} (hc : c ∈ s.callers) (hrel : c.phase.seen = .released) :
    c.phase = .unlocked none := by
  obtain ⟨hcrash, herr⟩ := hs.ok c hc
  cases hph : c.phase with
  | unlocked err =>
    -- `ErrNoSuchLock` is the only error `Unlock` returns
    cases err with
    | none => rfl
    | some e => cases e; exact absurd hph herr
  | crashed => exact absurd hph hcrash
  | _ => simp [hph, Phase.seen] at hrel

/-- the map has a counter for a name exactly when a caller of the name is in `Lock` or holds it -/
theorem Inv.locks_isSome_iff (hs : Inv s) (n : Text) :
    (s.locker.locks n).isSome ↔ ∃ c ∈ s.callers, c.name = n ∧ (c.phase.ctr.isSome ∨ c.phase = .holding) := by
  constructor
  · intro hn
    obtain ⟨p, hp⟩ := Option.isSome_iff_exists.mp hn
    rcases hs.busy n p hp with hl | hw
    · -- the mutex is locked: a caller of the name has it
      have hpos : 0 < s.callers.countP (Caller.ownerOf n) := by
        rw [hs.owners n p hp, hl]
        decide
      obtain ⟨c, hc, hown⟩ := List.countP_pos_iff.mp hpos
      simp only [Caller.ownerOf, Bool.and_eq_true, beq_iff_eq] at hown
      refine ⟨c, hc, hown.1, ?_⟩
      cases hph : c.phase <;> simp_all [Phase.owns, Phase.ctr]
    · -- a caller is counted on the counter: one of the name, as the map is one to one
      rw [hs.waiters n p hp] at hw
      obtain ⟨c, hc, hcnt⟩ := List.countP_pos_iff.mp (by exact_mod_cast hw)
      have hctr : c.phase.ctr = some p := by simpa [Caller.countedOn] using hcnt
      exact ⟨c, hc, hs.inj _ _ _ (hs.counted c hc p hctr) hp, Or.inl (by simp [hctr])⟩
  · rintro ⟨c, hc, rfl, hctr | hhold⟩
    · obtain ⟨p, hp⟩ := Option.isSome_iff_exists.mp hctr
      simp [hs.counted c hc p hp]
    · exact hs.holds c hc hhold

end Callers

/-! ## Some caller can always move on -/

section Progress

variable {s s' : System} {i : ℕ}

theorem next_of_isSome {e : Event} (h : (s.step e).isSome) : ∃ s', s.Next s' :=
  let ⟨s', hs'⟩ := Option.isSome_iff_exists.mp h
  ⟨s', e, hs'⟩

/-- a caller moves on from every phase but waiting on a locked mutex, and the end -/
theorem exists_next_of_phase (hi : i < s.callers.length)
    (hph : s.callers[i].phase = .ready ∨ s.callers[i].phase.owns ∨
      ∃ p, s.callers[i].phase = .waiting p ∧ (s.locker.heap p).locked = false) : ∃ s', s.Next s' := by
  have hget : s.callers[i]? = some ⟨s.callers[i].name, s.callers[i].phase⟩ := List.getElem?_eq_getElem hi
  rcases hph with hready | ho | ⟨p, hwait, hfree⟩
  · exact next_of_isSome (e := .lockEnter i) (by simp [System.step, hget, hready])
  · cases hph : s.callers[i].phase with
    | acquired p => exact next_of_isSome (e := .lockExit i) (by simp [System.step, hget, hph])
    | holding =>
      -- `Unlock` returns, or meets the fatal error: a step either way
      refine next_of_isSome (e := .unlock i) ?_
      simp only [System.step, hget, hph]
      split <;> rfl
    | _ => simp [hph, Phase.owns] at ho
  · exact next_of_isSome (e := .acquire i) (by simp [System.step, hget, hwait, Locker.acquire, hfree])

/-- no deadlock: a caller that has not returned from `Unlock` can move on, or the caller with its name's mutex can -/
theorem Inv.exists_next (hs : Inv s) (hi : i < s.callers.length) (hbusy : s.callers[i].phase.seen ≠ .released) :
    ∃ s', s.Next s' := by
  cases hph : s.callers[i].phase with
  | ready => exact exists_next_of_phase hi (.inl hph)
  | acquired p => exact exists_next_of_phase hi (.inr (.inl (by simp [hph, Phase.owns])))
  | holding => exact exists_next_of_phase hi (.inr (.inl (by simp [hph, Phase.owns])))
  | unlocked _ => simp [hph, Phase.seen] at hbusy
  | crashed => simp [hph, Phase.seen] at hbusy
  | waiting p =>
    cases hl : (s.locker.heap p).locked with
    | false => exact exists_next_of_phase hi (.inr (.inr ⟨p, hph, hl⟩))
    | true =>
      -- the mutex is locked, so a caller of the name has it, and that one can move on
      have hp := hs.counted _ (List.getElem_mem hi) p (by simp [hph, Phase.ctr])
      have hpos : 0 < s.callers.countP (Caller.ownerOf s.callers[i].name) := by
        rw [hs.owners _ _ hp, hl]
        decide
      obtain ⟨c, hc, hown⟩ := List.countP_pos_iff.mp hpos
      obtain ⟨j, hj, rfl⟩ := List.getElem_of_mem hc
      simp only [Caller.ownerOf, Bool.and_eq_true] at hown
      exact exists_next_of_phase hj (.inr (.inl hown.2))

/-- the steps a caller has left -/
def Phase.left : Phase → ℕ
  | .ready => 4
  | .waiting _ => 3
  | .acquired _ => 2
  | .holding => 1
  | .unlocked _ => 0
  | .crashed => 0

/-- the steps the callers have left -/
def System.left (s : System) : ℕ := (s.callers.map fun c => c.phase.left).sum

theorem sum_set_add_getElem {l : List ℕ} {i : ℕ} (hi : i < l.length) (a : ℕ) : (l.set i a).sum + l[i] = l.sum + a := by
  induction l generalizing i with
  | nil => simp at hi
  | cons b l ih =>
    cases i with
    | zero => simp only [List.set_cons_zero, List.sum_cons, List.getElem_cons_zero]; omega
    | succ i =>
      simp only [List.set_cons_succ, List.sum_cons, List.getElem_cons_succ]
      have := ih (by simpa using hi)
      omega

theorem left_modify {L : Locker} (hi : i < s.callers.length) (ph : Phase) :
    System.left ⟨L, s.callers.modify i (Caller.setPhase ph)⟩ + s.callers[i].phase.left = s.left + ph.left := by
  have hlen : i < (s.callers.map fun c => c.phase.left).length := by simpa using hi
  have := sum_set_add_getElem hlen ph.left
  simp only [List.getElem_map] at this
  simpa [System.left, List.modify_eq_set_get _ hi, List.map_set] using this

/-- every step moves one caller on -/
theorem left_step (h : s.Next s') : s'.left < s.left := by
  obtain ⟨e, he⟩ := h
  cases e with
  | lockEnter i =>
    obtain ⟨hi, hready, rfl⟩ := step_lockEnter he
    have := left_modify (L := (s.locker.lockEnter s.callers[i].name).1) hi (.waiting (s.locker.lockEnter s.callers[i].name).2)
    simp only [hready, Phase.left] at this
    omega
  | acquire i =>
    obtain ⟨hi, p, hwait, -, rfl⟩ := step_acquire he
    have := left_modify (L := s.locker.modify p fun c => { c with locked := true }) hi (.acquired p)
    simp only [hwait, Phase.left] at this
    omega
  | lockExit i =>
    obtain ⟨hi, p, hacq, rfl⟩ := step_lockExit he
    have := left_modify (L := s.locker.lockExit p) hi .holding
    simp only [hacq, Phase.left] at this
    omega
  | unlock i =>
    obtain ⟨hi, hhold, ⟨l, err, -, rfl⟩ | ⟨-, rfl⟩⟩ := step_unlock he
    · have := left_modify (L := l) hi (.unlocked err)
      simp only [hhold, Phase.left] at this
      omega
    · have := left_modify (L := s.locker) hi .crashed
      simp only [hhold, Phase.left] at this
      omega

end Progress

/-- the state the steps `es` lead to from the start, none of them refused, is reachable -/
theorem reachable_of_run {names : List Text} {es : List Event} {s : System}
    (h : runSteps System.step (System.init names) es = some s) : Reachable names s :=
  reachable_of_runSteps System.step es _ h

/-- two callers of one name: the first holds it while the second waits -/
theorem holding_wanting_reachable :
    ∃ s, Reachable [['a'], ['a']] s ∧ s.view = [(['a'], .holding), (['a'], .wanting)] := by
  have hrun : (runSteps System.step (System.init [['a'], ['a']])
      [.lockEnter 0, .lockEnter 1, .acquire 0, .lockExit 0]).map System.view =
        some [(['a'], .holding), (['a'], .wanting)] := rfl
  obtain ⟨s, hs, hview⟩ := Option.map_eq_some_iff.mp hrun
  exact ⟨s, reachable_of_run hs, hview⟩

/-! ## What the callers of a `Locker` get -/

section Main

variable {names : List Text} {s : System}

/-- every reachable state, seen per caller, is reachable for one mutex per name -/
theorem locker_refines_mutexes (h : Reachable names s) :
    ReflTransGen MutexStep (names.map fun n => (n, Seen.ready)) s.view := by
  have := reachable_refines (r := System.Next) System.view (fun x y => @inv_step x y) (fun x y => @step_refines x y) h
    (inv_init names)
  rwa [view_init] at this

theorem locker_refines_mutexes_aa :
    ∃ s, Reachable [['a'], ['a']] s ∧ s.view = [(['a'], .holding), (['a'], .wanting)] ∧
      ReflTransGen MutexStep ([['a'], ['a']].map fun n => (n, Seen.ready)) s.view := by
  obtain ⟨s, h, hview⟩ := holding_wanting_reachable
  exact ⟨s, h, hview, locker_refines_mutexes h⟩

/-- at most one caller has a name's mutex: the exclusion of one mutex per name, carried down by the refinement -/
theorem locker_mutual_exclusion (h : Reachable names s) (n : Text) : s.callers.countP (Caller.ownerOf n) ≤ 1 := by
  have hex : Exclusive s.view :=
    refines_inv (r := System.Next) System.view (fun _ _ => exclusive_step) (fun x y => @inv_step x y)
      (fun x y => @step_refines x y) h
      (inv_init names) (by rw [view_init]; exact exclusive_init names)
  rw [← countP_view]
  exact hex n

theorem locker_mutual_exclusion_aa :
    ∃ s, Reachable [['a'], ['a']] s ∧ s.view = [(['a'], .holding), (['a'], .wanting)] ∧
      s.callers.countP (Caller.ownerOf ['a']) ≤ 1 := by
  obtain ⟨s, h, hview⟩ := holding_wanting_reachable
  exact ⟨s, h, hview, locker_mutual_exclusion h ['a']⟩

/-- no caller's `Unlock` has failed: neither `ErrNoSuchLock` nor the fatal error of an unlocked mutex -/
theorem locker_unlock_ok (h : Reachable names s) : ∀ c ∈ s.callers, c.phase.seen = .released → c.phase = .unlocked none :=
  fun _ hc => (inv_of_reachable h).unlocked_of_released hc

/-- a caller that has been through `Lock` and `Unlock` -/
theorem locker_unlock_ok_a :
    ∃ s, Reachable [['a']] s ∧ s.view = [(['a'], .released)] ∧
      ∀ c ∈ s.callers, c.phase.seen = .released → c.phase = .unlocked none := by
  have hrun : (runSteps System.step (System.init [['a']]) [.lockEnter 0, .acquire 0, .lockExit 0, .unlock 0]).map
      System.view = some [(['a'], .released)] := rfl
  obtain ⟨s, hs, hview⟩ := Option.map_eq_some_iff.mp hrun
  exact ⟨s, reachable_of_run hs, hview, locker_unlock_ok (reachable_of_run hs)⟩

/-- from every reachable state some interleaving lets every caller return from `Unlock` with `nil`, and the map is then
empty: a counter is never left behind -/
theorem locker_runs_finish (h : Reachable names s) :
    ∃ s', ReflTransGen System.Next s s' ∧ (∀ c ∈ s'.callers, c.phase = .unlocked none) ∧
      ∀ n, s'.locker.locks n = none := by
  -- on the steps the callers have left, which every step lessens
  induction hk : s.left using Nat.strong_induction_on generalizing s with
  | _ k ih =>
    have hs := inv_of_reachable h
    by_cases hdone : ∀ c ∈ s.callers, c.phase.seen = .released
    · have hfin : ∀ c ∈ s.callers, c.phase = .unlocked none := fun c hc => hs.unlocked_of_released hc (hdone c hc)
      refine ⟨s, .refl, hfin, fun n => ?_⟩
      -- no caller is in `Lock` or holds a name
      have hidle : ¬ (s.locker.locks n).isSome := by
        rw [hs.locks_isSome_iff]
        rintro ⟨c, hc, -, hact⟩
        simp [hfin c hc, Phase.ctr] at hact
      simpa using hidle
    · obtain ⟨c, hc, hbusy⟩ := not_forall₂.mp hdone
      obtain ⟨j, hj, rfl⟩ := List.getElem_of_mem hc
      obtain ⟨s'', hnext⟩ := hs.exists_next hj hbusy
      obtain ⟨s', hrun, hfin⟩ := ih _ (hk ▸ left_step hnext) (h.tail hnext) rfl
      exact ⟨s', .head hnext hrun, hfin⟩

theorem locker_runs_finish_aa :
    ∃ s, Reachable [['a'], ['a']] s ∧ s.view = [(['a'], .holding), (['a'], .wanting)] ∧
      ∃ s', ReflTransGen System.Next s s' ∧ (∀ c ∈ s'.callers, c.phase = .unlocked none) ∧
        ∀ n, s'.locker.locks n = none := by
  obtain ⟨s, h, hview⟩ := holding_wanting_reachable
  exact ⟨s, h, hview, locker_runs_finish h⟩

end Main

end DockerEngine.Locking
