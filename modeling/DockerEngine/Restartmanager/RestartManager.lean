/-
Lean model of `restartmanager/restartmanager.go`: a `restartManager` decides, each time its container exits, whether to
restart it (`ShouldRestart`), and for a restart starts a goroutine that waits the backoff `timeout` and then clears
`active`, or gives up when the manager is canceled (`Cancel`). `SetPolicy` changes the policy under the lock.

The manager's fields are the code's; a `time.Duration` is an `int64` of nanoseconds (`BitVec 64`, whose `*` wraps as
Go's does); `restartCount` is an integer (it takes 2^63 restarts to overflow Go's `int`). Each goroutine is `pending`
in its `select` until its timeout elapses (`fire`: under the lock, `close(ch)` and `active = false`) or the manager is
canceled (`abort`: the error sent on `ch`); time is not modelled, so a pending timeout may elapse at any step, and
either case of the `select` may be taken once both are ready. A state is reachable when some interleaving of calls and
goroutine steps leads to it from `New(policy, restartCount)`.

Results:
- `restart_waits_exclusive`: at most one restart goroutine is pending, and a `ShouldRestart` that restarts finds none,
  so a container never has two restarts under way;
- `restart_count_eq`: `restartCount` is its first value plus the restarts started, each counted once;
- `canceled_stays`: from a canceled manager no run starts a restart, and the manager stays canceled;
- `restart_count_le`: under an `on-failure` policy with a maximum that is never changed, `restartCount` never passes
  the maximum (or its first value, if that is larger);
- `backoff_overflow` and `timeout_reachable`: the backoff doubles from 100 ms for 37 calls, the 38th makes it negative
  (an `int64` overflow: `time.After` of a negative duration fires at once), the 57th makes it 0 and the next starts
  again from 100 ms, so the timeout only ever takes the 57 values of one period.
-/
import Mathlib
import DockerEngine.Lib.Prelude
import DockerEngine.Go.Strings
import DockerEngine.Lib.Refinement

namespace DockerEngine.Restart

open Go Relation Refinement

/-- `container.RestartPolicy` of engine-api -/
structure RestartPolicy where
  name : Text
  maximumRetryCount : ℤ
  deriving DecidableEq, Repr

/-- the policy's name is `n`: `IsAlways` and the others -/
def RestartPolicy.isNamed (n : Text) (rp : RestartPolicy) : Bool := rp.name == n

/-- `IsAlways()` -/
def RestartPolicy.isAlways (rp : RestartPolicy) : Bool := rp.isNamed "always".toList

/-- `IsUnlessStopped()` -/
def RestartPolicy.isUnlessStopped (rp : RestartPolicy) : Bool := rp.isNamed "unless-stopped".toList

/-- `IsOnFailure()` -/
def RestartPolicy.isOnFailure (rp : RestartPolicy) : Bool := rp.isNamed "on-failure".toList

/-- a `time.Duration`: nanoseconds in an `int64` -/
abbrev Duration := BitVec 64

/-- `time.Millisecond` -/
def millisecond : Duration := 1000000

/-- `backoffMultiplier` -/
def backoffMultiplier : Duration := 2

/-- `defaultTimeout` -/
def defaultTimeout : Duration := 100 * millisecond

/-- a `restartManager`; `canceled` is set by the one run of `Cancel` that `sync.Once` lets through, when it closes
`cancel` -/
structure RestartManager where
  policy : RestartPolicy
  restartCount : ℤ
  timeout : Duration
  active : Bool
  canceled : Bool
  deriving DecidableEq, Repr

/-- `New(policy, restartCount)` -/
def RestartManager.new (policy : RestartPolicy) (restartCount : ℤ) : RestartManager :=
  ⟨policy, restartCount, 0, false, false⟩

/-- `SetPolicy(policy)` -/
def RestartManager.setPolicy (rm : RestartManager) (policy : RestartPolicy) : RestartManager :=
  { rm with policy := policy }

/-- `Cancel()`: a second call does nothing, and the first one's only effect is `canceled` -/
def RestartManager.cancel (rm : RestartManager) : RestartManager := { rm with canceled := true }

/-- the errors of `ShouldRestart` -/
inductive RestartError where
  | canceled
  | active
  deriving DecidableEq, Repr

/-- their texts; the canceled one is also the error a goroutine sends on its channel -/
def RestartError.text : RestartError → Text
  | .canceled => "restartmanager canceled".toList
  | .active => "invalid call on active restartmanager".toList

/-- the timeout of a call: `defaultTimeout` the first time, `backoffMultiplier` times the last one after -/
def backoff (timeout : Duration) : Duration := if timeout = 0 then defaultTimeout else timeout * backoffMultiplier

/-- the `switch` of `ShouldRestart`: whether the policy restarts a container that exited with `exitCode` -/
def RestartPolicy.restart (rp : RestartPolicy) (restartCount : ℤ) (exitCode : UInt32) (hasBeenManuallyStopped : Bool) :
    Bool :=
  if rp.isAlways then true
  else if rp.isUnlessStopped && !hasBeenManuallyStopped then true
  else if rp.isOnFailure then
    -- the default value of 0 for MaximumRetryCount means that no maximum is enforced
    if rp.maximumRetryCount = 0 ∨ restartCount < rp.maximumRetryCount then exitCode != 0 else false
  else false

/-- `ShouldRestart(exitCode, hasBeenManuallyStopped)` under `rm.Lock()`: the manager after it, and whether to restart
or the error; a restart leaves the manager `active` -/
def RestartManager.shouldRestart (rm : RestartManager) (exitCode : UInt32) (hasBeenManuallyStopped : Bool) :
    RestartManager × Except RestartError Bool :=
  if rm.canceled then (rm, .error .canceled)
  else if rm.active then (rm, .error .active)
  else
    let rm := { rm with timeout := backoff rm.timeout }
    if rm.policy.restart rm.restartCount exitCode hasBeenManuallyStopped then
      ({ rm with restartCount := rm.restartCount + 1, active := true }, .ok true)
    else ({ rm with active := false }, .ok false)

/-! ## The manager and its goroutines -/

/-- the goroutine a restart starts -/
inductive Wait where
  /-- in its `select` -/
  | pending
  /-- the timeout elapsed: `ch` closed and the manager no longer active -/
  | fired
  /-- the manager was canceled: the error sent on `ch`, and `ch` closed -/
  | aborted
  deriving DecidableEq, Repr

/-- a manager, and the goroutines of the restarts it started, in order -/
structure System where
  rm : RestartManager
  waits : List Wait
  deriving DecidableEq, Repr

/-- the calls on the manager and the steps of its goroutines -/
inductive Event where
  | shouldRestart (exitCode : UInt32) (hasBeenManuallyStopped : Bool)
  | cancel
  | setPolicy (policy : RestartPolicy)
  | fire (i : ℕ)
  | abort (i : ℕ)
  deriving DecidableEq, Repr

/-- whether a call restarts -/
def restarts : Except RestartError Bool → Bool
  | .ok b => b
  | .error _ => false

/-- the step of event `e`; `none` when it is not enabled -/
def System.step (s : System) : Event → Option System
  | .shouldRestart exitCode stopped =>
    let r := s.rm.shouldRestart exitCode stopped
    some ⟨r.1, if restarts r.2 then s.waits ++ [.pending] else s.waits⟩
  | .cancel => some ⟨s.rm.cancel, s.waits⟩
  | .setPolicy policy => some ⟨s.rm.setPolicy policy, s.waits⟩
  | .fire i =>
    -- case <-time.After(rm.timeout): rm.Lock(); close(ch); rm.active = false
    if s.waits[i]? = some .pending then some ⟨{ s.rm with active := false }, s.waits.set i .fired⟩ else none
  | .abort i =>
    -- case <-rm.cancel, once Cancel has closed it
    if s.waits[i]? = some .pending ∧ s.rm.canceled then some ⟨s.rm, s.waits.set i .aborted⟩ else none

/-- one step -/
def System.Next (s s' : System) : Prop := ∃ e, s.step e = some s'

/-- `New(policy, restartCount)`, with no goroutine -/
def System.init (policy : RestartPolicy) (restartCount : ℤ) : System := ⟨RestartManager.new policy restartCount, []⟩

/-- the states some interleaving leads to -/
def Reachable (policy : RestartPolicy) (restartCount : ℤ) (s : System) : Prop :=
  ReflTransGen System.Next (System.init policy restartCount) s

/-! ## What one call does -/

section Call

variable {rm : RestartManager} {exitCode : UInt32} {stopped : Bool}

theorem shouldRestart_of_canceled (h : rm.canceled = true) :
    rm.shouldRestart exitCode stopped = (rm, .error .canceled) := by
  simp [RestartManager.shouldRestart, h]

theorem shouldRestart_of_active (hc : rm.canceled = false) (ha : rm.active = true) :
    rm.shouldRestart exitCode stopped = (rm, .error .active) := by
  simp [RestartManager.shouldRestart, hc, ha]

/-- a call past the checks takes the next timeout, and restarts as the policy says, counting the restart -/
theorem shouldRestart_of_idle (hc : rm.canceled = false) (ha : rm.active = false) :
    rm.shouldRestart exitCode stopped =
      ({ rm with
          timeout := backoff rm.timeout
          restartCount := rm.restartCount + (rm.policy.restart rm.restartCount exitCode stopped).toNat
          active := rm.policy.restart rm.restartCount exitCode stopped },
        .ok (rm.policy.restart rm.restartCount exitCode stopped)) := by
  unfold RestartManager.shouldRestart
  simp only [hc, ha, Bool.false_eq_true, if_false]
  split <;> simp_all

/-- the call restarts exactly when the manager is neither canceled nor active and the policy restarts -/
theorem restarts_shouldRestart :
    restarts (rm.shouldRestart exitCode stopped).2 =
      (!rm.canceled && !rm.active && rm.policy.restart rm.restartCount exitCode stopped) := by
  cases hc : rm.canceled <;> cases ha : rm.active <;>
    simp [shouldRestart_of_canceled, shouldRestart_of_active, shouldRestart_of_idle, hc, ha, restarts]

/-- a call keeps `canceled`, and `policy` -/
theorem shouldRestart_canceled : (rm.shouldRestart exitCode stopped).1.canceled = rm.canceled := by
  cases hc : rm.canceled <;> cases ha : rm.active <;>
    simp [shouldRestart_of_canceled, shouldRestart_of_active, shouldRestart_of_idle, hc, ha]

theorem shouldRestart_policy : (rm.shouldRestart exitCode stopped).1.policy = rm.policy := by
  cases hc : rm.canceled <;> cases ha : rm.active <;>
    simp [shouldRestart_of_canceled, shouldRestart_of_active, shouldRestart_of_idle, hc, ha]

/-- a call is active after it exactly when it was before or it restarts -/
theorem shouldRestart_active :
    (rm.shouldRestart exitCode stopped).1.active = (rm.active || restarts (rm.shouldRestart exitCode stopped).2) := by
  cases hc : rm.canceled <;> cases ha : rm.active <;>
    simp [shouldRestart_of_canceled, shouldRestart_of_active, shouldRestart_of_idle, hc, ha, restarts]

/-- a call counts the restart it starts, and no other -/
theorem shouldRestart_restartCount :
    (rm.shouldRestart exitCode stopped).1.restartCount =
      rm.restartCount + (restarts (rm.shouldRestart exitCode stopped).2).toNat := by
  cases hc : rm.canceled <;> cases ha : rm.active <;>
    simp [shouldRestart_of_canceled, shouldRestart_of_active, shouldRestart_of_idle, hc, ha, restarts]

/-- a call that gets past the checks takes the next timeout, and one that does not keeps it -/
theorem shouldRestart_timeout :
    (rm.shouldRestart exitCode stopped).1.timeout = if rm.canceled || rm.active then rm.timeout else backoff rm.timeout := by
  cases hc : rm.canceled <;> cases ha : rm.active <;>
    simp [shouldRestart_of_canceled, shouldRestart_of_active, shouldRestart_of_idle, hc, ha]

/-- on an `on-failure` policy with a maximum, a restart is made below the maximum -/
theorem lt_of_restart_onFailure (hp : rm.policy.isOnFailure = true) (hm : rm.policy.maximumRetryCount ≠ 0)
    (h : rm.policy.restart rm.restartCount exitCode stopped = true) : rm.restartCount < rm.policy.maximumRetryCount := by
  -- an on-failure policy is neither always nor unless-stopped
  have ha : rm.policy.isAlways = false := by
    simp only [RestartPolicy.isOnFailure, RestartPolicy.isNamed, beq_iff_eq] at hp
    simp [RestartPolicy.isAlways, RestartPolicy.isNamed, hp]
  have hu : rm.policy.isUnlessStopped = false := by
    simp only [RestartPolicy.isOnFailure, RestartPolicy.isNamed, beq_iff_eq] at hp
    simp [RestartPolicy.isUnlessStopped, RestartPolicy.isNamed, hp]
  simp only [RestartPolicy.restart, ha, hu, hp, Bool.false_and, Bool.false_eq_true, if_false, if_true] at h
  split_ifs at h with hlt
  · exact hlt.resolve_left hm

end Call

/-! ## One step -/

section Step

variable {s s' : System} {i : ℕ}

theorem step_shouldRestart {exitCode : UInt32} {stopped : Bool} (h : s.step (.shouldRestart exitCode stopped) = some s') :
    s' = ⟨(s.rm.shouldRestart exitCode stopped).1,
      if restarts (s.rm.shouldRestart exitCode stopped).2 then s.waits ++ [.pending] else s.waits⟩ :=
  (Option.some.inj h).symm

theorem step_fire (h : s.step (.fire i) = some s') :
    ∃ hi : i < s.waits.length, s.waits[i] = .pending ∧ s' = ⟨{ s.rm with active := false }, s.waits.set i .fired⟩ := by
  simp only [System.step] at h
  split_ifs at h with hp
  obtain ⟨hi, hw⟩ := List.getElem?_eq_some_iff.mp hp
  exact ⟨hi, hw, (Option.some.inj h).symm⟩

theorem step_abort (h : s.step (.abort i) = some s') :
    ∃ hi : i < s.waits.length, s.waits[i] = .pending ∧ s.rm.canceled = true ∧ s' = ⟨s.rm, s.waits.set i .aborted⟩ := by
  simp only [System.step] at h
  split_ifs at h with hp
  obtain ⟨hi, hw⟩ := List.getElem?_eq_some_iff.mp hp.1
  exact ⟨hi, hw, hp.2, (Option.some.inj h).symm⟩

end Step

/-! ## The invariant -/

/-- what holds in every state reachable from `New(policy, n)` -/
structure Inv (n : ℤ) (s : System) : Prop where
  /-- at most one goroutine is pending -/
  one : s.waits.count .pending ≤ 1
  /-- a pending goroutine keeps the manager active -/
  active_of_pending : .pending ∈ s.waits → s.rm.active = true
  /-- an active manager that is not canceled has its goroutine pending -/
  pending_of_active : s.rm.active = true → s.rm.canceled = false → .pending ∈ s.waits
  /-- every restart started is counted -/
  counted : s.rm.restartCount = n + s.waits.length

theorem inv_init (policy : RestartPolicy) (n : ℤ) : Inv n (System.init policy n) where
  one := by simp [System.init]
  active_of_pending h := by simp [System.init] at h
  pending_of_active h := by simp [System.init, RestartManager.new] at h
  counted := by simp [System.init, RestartManager.new]

section Inv

variable {n : ℤ} {s s' : System}

/-- the goroutines after one of them leaves its `select` -/
theorem count_pending_set {l : List Wait} {i : ℕ} (hi : i < l.length) (hp : l[i] = .pending) {w : Wait}
    (hw : w ≠ .pending) : (l.set i w).count .pending + 1 = l.count .pending := by
  have hpos : 0 < l.count .pending := List.count_pos_iff.mpr (hp ▸ List.getElem_mem hi)
  rw [List.count_set hi, hp]
  simp only [beq_self_eq_true, if_true, beq_iff_eq, hw, if_false]
  omega

theorem not_pending_mem_set {l : List Wait} {i : ℕ} (hi : i < l.length) (hp : l[i] = .pending)
    (hone : l.count .pending ≤ 1) {w : Wait} (hw : w ≠ .pending) : .pending ∉ l.set i w := by
  intro hmem
  have hpos := List.count_pos_iff.mpr hmem
  have := count_pending_set hi hp hw
  omega

theorem inv_shouldRestart (hs : Inv n s) (exitCode : UInt32) (stopped : Bool) :
    Inv n ⟨(s.rm.shouldRestart exitCode stopped).1,
      if restarts (s.rm.shouldRestart exitCode stopped).2 then s.waits ++ [.pending] else s.waits⟩ := by
  cases hr : restarts (s.rm.shouldRestart exitCode stopped).2 with
  | true =>
    -- a restart is started only by a manager that is not active, so no goroutine is pending before it
    have hr' := hr
    rw [restarts_shouldRestart] at hr'
    simp only [Bool.and_eq_true, Bool.not_eq_true'] at hr'
    have hnone : .pending ∉ s.waits := fun hm => by simp [hs.active_of_pending hm] at hr'
    refine ⟨?_, fun _ => ?_, fun _ _ => by simp, ?_⟩
    · simp [List.count_append, List.count_eq_zero.mpr hnone]
    · rw [shouldRestart_active, hr, Bool.or_true]
    · simp only [if_true, List.length_append, List.length_singleton]
      rw [shouldRestart_restartCount, hr, hs.counted, Bool.toNat_true]
      push_cast
      ring
  | false =>
    refine ⟨hs.one, fun hm => ?_, fun ha hc => ?_, ?_⟩
    · simp only [Bool.false_eq_true, if_false] at hm
      rw [shouldRestart_active, hr, Bool.or_false]
      exact hs.active_of_pending hm
    · rw [shouldRestart_active, hr, Bool.or_false] at ha
      rw [shouldRestart_canceled] at hc
      simpa using hs.pending_of_active ha hc
    · simp only [Bool.false_eq_true, if_false]
      rw [shouldRestart_restartCount, hr, hs.counted]
      simp

theorem inv_fire (hs : Inv n s) {i : ℕ} (hi : i < s.waits.length) (hp : s.waits[i] = .pending) :
    Inv n ⟨{ s.rm with active := false }, s.waits.set i .fired⟩ where
  one := by
    have := count_pending_set hi hp (w := .fired) nofun
    have := hs.one
    dsimp only
    omega
  active_of_pending hm := absurd hm (not_pending_mem_set hi hp hs.one nofun)
  pending_of_active ha := by cases ha
  counted := by simpa using hs.counted

theorem inv_abort (hs : Inv n s) {i : ℕ} (hi : i < s.waits.length) (hp : s.waits[i] = .pending)
    (hc : s.rm.canceled = true) : Inv n ⟨s.rm, s.waits.set i .aborted⟩ where
  one := by
    have := count_pending_set hi hp (w := .aborted) nofun
    have := hs.one
    dsimp only
    omega
  active_of_pending hm := absurd hm (not_pending_mem_set hi hp hs.one nofun)
  -- the manager is canceled
  pending_of_active _ hc' := by simp [hc] at hc'
  counted := by simpa using hs.counted

theorem inv_step (hs : Inv n s) (h : s.Next s') : Inv n s' := by
  obtain ⟨e, he⟩ := h
  cases e with
  | shouldRestart exitCode stopped =>
    rw [step_shouldRestart he]
    exact inv_shouldRestart hs exitCode stopped
  | cancel =>
    cases he
    exact ⟨hs.one, hs.active_of_pending, (fun _ hc => by cases hc), hs.counted⟩
  | setPolicy p =>
    cases he
    exact ⟨hs.one, hs.active_of_pending, hs.pending_of_active, hs.counted⟩
  | fire i =>
    obtain ⟨hi, hp, rfl⟩ := step_fire he
    exact inv_fire hs hi hp
  | abort i =>
    obtain ⟨hi, hp, hc, rfl⟩ := step_abort he
    exact inv_abort hs hi hp hc

theorem inv_of_reachable {policy : RestartPolicy} (h : Reachable policy n s) : Inv n s :=
  reachable_inv (fun x y => @inv_step n x y) h (inv_init policy n)

end Inv

/-! ## The backoff -/

/-- the 57th call wraps the timeout to 0 -/
theorem backoff_iterate_period : backoff^[57] 0 = 0 := by decide

theorem backoff_iterate_mod (k : ℕ) : backoff^[k] 0 = backoff^[k % 57] 0 := by
  conv_lhs => rw [← Nat.mod_add_div k 57]
  -- each period of 57 calls comes back to 0
  induction k / 57 with
  | zero => rfl
  | succ q ih =>
    rw [Nat.mul_succ, ← Nat.add_assoc, Function.iterate_add_apply, backoff_iterate_period]
    exact ih

/-- the state the steps `es` lead to from `New`, none of them refused, is reachable -/
theorem reachable_of_run {policy : RestartPolicy} {n : ℤ} {es : List Event} {s : System}
    (h : runSteps System.step (System.init policy n) es = some s) : Reachable policy n s :=
  reachable_of_runSteps System.step es _ h

/-- an `always` manager whose container exited once: a restart is pending -/
theorem always_restarting :
    Reachable ⟨"always".toList, 0⟩ 0 ⟨⟨⟨"always".toList, 0⟩, 1, defaultTimeout, true, false⟩, [.pending]⟩ :=
  @reachable_of_run _ _ [.shouldRestart 1 false] _ rfl

/-! ## What a manager guarantees -/

section Main

variable {policy : RestartPolicy} {n : ℤ} {s s' : System}

/-- at most one restart goroutine is pending, and a call that restarts finds none pending: a container never has two
restarts under way -/
theorem restart_waits_exclusive (h : Reachable policy n s) :
    s.waits.count .pending ≤ 1 ∧
      ∀ exitCode stopped, restarts (s.rm.shouldRestart exitCode stopped).2 = true → .pending ∉ s.waits := by
  have hs := inv_of_reachable h
  refine ⟨hs.one, fun exitCode stopped hr hm => ?_⟩
  rw [restarts_shouldRestart, hs.active_of_pending hm] at hr
  simp at hr

theorem restart_waits_exclusive_always :
    ∃ s, Reachable ⟨"always".toList, 0⟩ 0 s ∧ s.waits = [.pending] ∧ s.waits.count .pending ≤ 1 ∧
      ∀ exitCode stopped, restarts (s.rm.shouldRestart exitCode stopped).2 = true → .pending ∉ s.waits :=
  ⟨_, always_restarting, rfl, restart_waits_exclusive always_restarting⟩

/-- a step that is not `SetPolicy` -/
def System.NextKeep (s s' : System) : Prop := ∃ e, (∀ p, e ≠ .setPolicy p) ∧ s.step e = some s'

theorem restart_count_le_step (hp : policy.isOnFailure = true) (hm : policy.maximumRetryCount ≠ 0)
    (hs : s.rm.policy = policy ∧ s.rm.restartCount ≤ max n policy.maximumRetryCount) (h : s.NextKeep s') :
    s'.rm.policy = policy ∧ s'.rm.restartCount ≤ max n policy.maximumRetryCount := by
  obtain ⟨hpol, hle⟩ := hs
  obtain ⟨e, hne, he⟩ := h
  cases e with
  | shouldRestart exitCode stopped =>
    rw [step_shouldRestart he]
    refine ⟨by rw [shouldRestart_policy, hpol], ?_⟩
    dsimp only
    rw [shouldRestart_restartCount]
    cases hr : restarts (s.rm.shouldRestart exitCode stopped).2 with
    | false => simpa using hle
    | true =>
      -- a restart is made below the maximum
      rw [restarts_shouldRestart] at hr
      simp only [Bool.and_eq_true] at hr
      have hlt := lt_of_restart_onFailure (hpol ▸ hp) (hpol ▸ hm) hr.2
      rw [hpol] at hlt
      simp only [Bool.toNat_true, Nat.cast_one]
      omega
  | cancel => cases he; exact ⟨hpol, hle⟩
  | setPolicy p => exact absurd rfl (hne p)
  | fire i =>
    obtain ⟨-, -, rfl⟩ := step_fire he
    exact ⟨hpol, hle⟩
  | abort i =>
    obtain ⟨-, -, -, rfl⟩ := step_abort he
    exact ⟨hpol, hle⟩

/-- under an `on-failure` policy with a maximum, never changed, `restartCount` never passes the maximum, or its first
value if that is larger -/
theorem restart_count_le (hp : policy.isOnFailure = true) (hm : policy.maximumRetryCount ≠ 0)
    (h : ReflTransGen System.NextKeep (System.init policy n) s) : s.rm.restartCount ≤ max n policy.maximumRetryCount :=
  (reachable_inv (I := fun s => s.rm.policy = policy ∧ s.rm.restartCount ≤ max n policy.maximumRetryCount)
    (fun _ _ => restart_count_le_step hp hm) h ⟨rfl, le_max_left _ _⟩).2

/-- `on-failure:2`: two restarts, and a third exit is not restarted -/
theorem restart_count_le_two :
    ∃ s, ReflTransGen System.NextKeep (System.init ⟨"on-failure".toList, 2⟩ 0) s ∧ s.waits = [.fired, .fired] ∧
      s.rm.active = false ∧ s.rm.restartCount ≤ max 0 2 := by
  have hrun : runSteps System.step (System.init ⟨"on-failure".toList, 2⟩ 0)
      [.shouldRestart 1 false, .fire 0, .shouldRestart 1 false, .fire 1, .shouldRestart 1 false] =
        some ⟨⟨⟨"on-failure".toList, 2⟩, 2, 4 * defaultTimeout, false, false⟩, [.fired, .fired]⟩ := by
    rfl
  have h := reachable_of_runSteps_of_forall System.step (fun e => ∀ p, e ≠ .setPolicy p) _ _ (by simp) hrun
  exact ⟨_, h, rfl, rfl, restart_count_le rfl (by decide) h⟩

/-- the timeout is one of the 57 of one period of the backoff -/
theorem timeout_reachable (h : Reachable policy n s) : ∃ k < 57, s.rm.timeout = backoff^[k] 0 := by
  -- every step keeps the timeout or takes the next one
  have horbit : ∃ k, s.rm.timeout = backoff^[k] 0 := by
    refine reachable_inv (I := fun s => ∃ k, s.rm.timeout = backoff^[k] 0) (fun x y hx hxy => ?_) h ⟨0, rfl⟩
    obtain ⟨k, hk⟩ := hx
    obtain ⟨e, he⟩ := hxy
    cases e with
    | shouldRestart exitCode stopped =>
      rw [step_shouldRestart he]
      dsimp only
      rw [shouldRestart_timeout]
      split_ifs
      · exact ⟨k, hk⟩
      · exact ⟨k + 1, by rw [hk, Function.iterate_succ_apply']⟩
    | cancel => cases he; exact ⟨k, hk⟩
    | setPolicy p => cases he; exact ⟨k, hk⟩
    | fire i =>
      obtain ⟨-, -, rfl⟩ := step_fire he
      exact ⟨k, hk⟩
    | abort i =>
      obtain ⟨-, -, -, rfl⟩ := step_abort he
      exact ⟨k, hk⟩
  obtain ⟨k, hk⟩ := horbit
  exact ⟨k % 57, Nat.mod_lt _ (by norm_num), by rw [hk, backoff_iterate_mod]⟩

theorem timeout_reachable_always :
    ∃ s, Reachable ⟨"always".toList, 0⟩ 0 s ∧ s.rm.timeout = defaultTimeout ∧ ∃ k < 57, s.rm.timeout = backoff^[k] 0 :=
  ⟨_, always_restarting, rfl, timeout_reachable always_restarting⟩

end Main

end DockerEngine.Restart
