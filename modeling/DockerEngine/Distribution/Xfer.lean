/-
Lean model of the scheduling of `transferManager` in `distribution/xfer/transfer.go`: how `Transfer` hands out the
`concurrencyLimit` slots, and how the goroutine it starts for each transfer gives its slot back, or passes it to the
first waiting transfer, through `inactivate`.

A run interleaves the calls of `Transfer`, what each `DoFunc` does (it closes its `inactive` channel at most once, and
ends its transfer only once its `start` channel is closed) and the receives of each transfer's goroutine, which
selects between `inactive`, until it sets it to nil, and `Done()`. Each event holds the manager's mutex for its whole
length, as the code does. A transfer, and its `start` channel, is named by the number of the `Transfer` call that
created it. Progress, watchers and cancellation are not modelled: a `Transfer` call for a key in the map returns that
transfer and changes nothing (the loop for a cancelled transfer waits until it is removed, which is the same as the
call coming later).

When every `DoFunc` closes `inactive` only once its transfer has started, as the download and upload functions do
(`stepWaiting`), `Inv` holds in every reachable state (`run_inv`): `activeTransfers` counts the started transfers
whose goroutine has not yet called `inactivate`, and at most `concurrencyLimit` of them; `waitingTransfers` is the
transfers not yet started, in the order they were created, and is empty unless every slot is taken; the map tracks
one transfer per key, the one whose goroutine has not returned. Once every goroutine has received what is ready, the
counter is the number of transfers that have started and have neither closed `inactive` nor ended
(`SlotInv.active_eq_running`); in between, a goroutine may not have received yet.

A `DoFunc` that closes `inactive` while it waits breaks this: `inactivate` sees its `start` channel open and does
nothing, the slot is handed to it later all the same, and it is never given back (`transfer_slot_leak`). A manager
in which every slot is lost so starts no transfer again (`stuck_forever`).
-/
import Mathlib.Data.List.AList
import DockerEngine.Lib.Machine
import DockerEngine.Lib.Prelude
import DockerEngine.Go.Strings

namespace DockerEngine.Xfer

/-! ## Model -/

/-- what the goroutine that `Transfer` starts for a transfer has done -/
inductive Watch
  /-- it selects on `inactive` and `Done()` -/
  | selecting
  /-- it received from `inactive`, called `inactivate` and set `inactive` to nil -/
  | inactivated
  /-- it received from `Done()`, removed the transfer from the map and returned -/
  | returned
  deriving DecidableEq, Repr

/-- a transfer `Transfer` created: its key, whether its `start` channel is closed, whether its `DoFunc` closed
`inactive` and ended the transfer (closed its progress channel, so that `Done()` is closed), and its goroutine -/
structure Transfer (κ : Type) where
  key : κ
  started : Bool
  inactiveClosed : Bool
  finished : Bool
  watch : Watch
  deriving DecidableEq, Repr

/-- `transferManager`, with the transfers created so far, by number -/
structure TransferManager (κ : Type) [DecidableEq κ] where
  concurrencyLimit : ℤ
  activeTransfers : ℤ
  transfers : AList fun _ : κ => ℕ
  waitingTransfers : List ℕ
  xfers : List (Transfer κ)

/-- the events of a run -/
inductive Event (κ : Type)
  /-- a call of `Transfer(key, xferFunc, progressOutput)` -/
  | transfer (key : κ)
  /-- the `DoFunc` of transfer `n` closes `inactive` -/
  | closeInactive (n : ℕ)
  /-- the `DoFunc` of transfer `n` closes its progress channel -/
  | finish (n : ℕ)
  /-- the goroutine of transfer `n` receives from `inactive` -/
  | receiveInactive (n : ℕ)
  /-- the goroutine of transfer `n` receives from `Done()` -/
  | receiveDone (n : ℕ)
  deriving DecidableEq, Repr

variable {κ : Type} [DecidableEq κ]

/-- `NewTransferManager(concurrencyLimit)` -/
def newTransferManager (concurrencyLimit : ℤ) : TransferManager κ := ⟨concurrencyLimit, 0, ∅, [], []⟩

namespace TransferManager

/-- whether the `start` channel of transfer `n` is closed -/
def startedAt (tm : TransferManager κ) (n : ℕ) : Bool := (tm.xfers[n]?.map Transfer.started).getD false

/-- change transfer `n` -/
def modifyXfer (tm : TransferManager κ) (n : ℕ) (f : Transfer κ → Transfer κ) : TransferManager κ :=
  { tm with xfers := tm.xfers.modify n f }

/-- `close(start)` for the `start` channel of transfer `n` -/
def closeStart (tm : TransferManager κ) (n : ℕ) : TransferManager κ :=
  tm.modifyXfer n fun x => { x with started := true }

/-- `tm.inactivate(start)` for the `start` channel of transfer `n` -/
def inactivate (tm : TransferManager κ) (n : ℕ) : TransferManager κ :=
  -- `case <-start`: only a started transfer gives a slot back
  if tm.startedAt n then
    match tm.waitingTransfers with
    -- the slot goes to the first waiting transfer
    | w :: rest => { tm.closeStart w with waitingTransfers := rest }
    | [] => { tm with activeTransfers := tm.activeTransfers - 1 }
  else tm

/-- `tm.Transfer(key, xferFunc, progressOutput)`, and the number of the transfer it returns -/
def transfer (tm : TransferManager κ) (key : κ) : TransferManager κ × ℕ :=
  match tm.transfers.lookup key with
  | some n => (tm, n)
  | none =>
    let n := tm.xfers.length
    if tm.activeTransfers < tm.concurrencyLimit then
      ({ tm with
          activeTransfers := tm.activeTransfers + 1
          transfers := tm.transfers.insert key n
          xfers := tm.xfers ++ [⟨key, true, false, false, .selecting⟩] }, n)
    else
      ({ tm with
          waitingTransfers := tm.waitingTransfers ++ [n]
          transfers := tm.transfers.insert key n
          xfers := tm.xfers ++ [⟨key, false, false, false, .selecting⟩] }, n)

/-- one event, with the number of the transfer a `Transfer` call returns; `none` for an event that cannot happen -/
def step (tm : TransferManager κ) : Event κ → Option (TransferManager κ × Option ℕ)
  | .transfer key => some ((tm.transfer key).1, some (tm.transfer key).2)
  | .closeInactive n =>
    match tm.xfers[n]? with
    -- a `DoFunc` closes `inactive` at most once
    | some x =>
      if x.inactiveClosed then none else some (tm.modifyXfer n fun x => { x with inactiveClosed := true }, none)
    | none => none
  | .finish n =>
    match tm.xfers[n]? with
    -- and ends its transfer only once it has started
    | some x =>
      if x.started && !x.finished then some (tm.modifyXfer n fun x => { x with finished := true }, none) else none
    | none => none
  | .receiveInactive n =>
    match tm.xfers[n]? with
    | some x =>
      if x.inactiveClosed && x.watch == .selecting then
        some ((tm.inactivate n).modifyXfer n fun x => { x with watch := .inactivated }, none)
      else none
    | none => none
  | .receiveDone n =>
    match tm.xfers[n]? with
    | some x =>
      if x.finished && x.watch != .returned then
        -- `if inactive != nil`: the goroutine has not called `inactivate` yet
        let tm := if x.watch = .selecting then tm.inactivate n else tm
        some ({ tm with transfers := tm.transfers.erase x.key }.modifyXfer n fun x => { x with watch := .returned },
          none)
      else none
    | none => none

/-- `step`, for `DoFunc`s that close `inactive` only once their transfer has started, as the download and upload
functions do -/
def stepWaiting (tm : TransferManager κ) : Event κ → Option (TransferManager κ × Option ℕ)
  | .closeInactive n => if tm.startedAt n then tm.step (.closeInactive n) else none
  | e => tm.step e

end TransferManager

/-! ## What a transfer can be -/

namespace Transfer

variable {κ : Type}

/-- the transfer holds a slot: it has started, and its goroutine has not called `inactivate` yet -/
def holdsSlot (x : Transfer κ) : Bool := x.started && x.watch == .selecting

/-- the transfer moves data: it has started, and its `DoFunc` has neither closed `inactive` nor ended it -/
def running (x : Transfer κ) : Bool := x.started && !x.inactiveClosed && !x.finished

/-- the key the map holds the transfer under, until its goroutine returns -/
def liveKey (x : Transfer κ) : Option κ := if x.watch = .returned then none else some x.key

/-- what the events let a transfer be, when its `DoFunc` waits for its start to close `inactive`: `inactive` closed
and the transfer ended only once it started, and the goroutine past each receive only after what it receives -/
structure OK (x : Transfer κ) : Prop where
  started_of_inactiveClosed : x.inactiveClosed = true → x.started = true
  started_of_finished : x.finished = true → x.started = true
  inactiveClosed_of_inactivated : x.watch = .inactivated → x.inactiveClosed = true
  finished_of_returned : x.watch = .returned → x.finished = true

theorem OK.watch_of_not_started {x : Transfer κ} (h : x.OK) (hx : x.started = false) : x.watch = .selecting := by
  cases hw : x.watch with
  | selecting => rfl
  | inactivated => simp [h.started_of_inactiveClosed (h.inactiveClosed_of_inactivated hw)] at hx
  | returned => simp [h.started_of_finished (h.finished_of_returned hw)] at hx

theorem OK.start {x : Transfer κ} (h : x.OK) : { x with started := true }.OK :=
  ⟨fun _ => rfl, fun _ => rfl, h.inactiveClosed_of_inactivated, h.finished_of_returned⟩

theorem OK.setReturned {x : Transfer κ} (h : x.OK) (hfinished : x.finished = true) :
    ({ x with watch := .returned } : Transfer κ).OK :=
  ⟨h.started_of_inactiveClosed, h.started_of_finished, fun h => by simp at h, fun _ => hfinished⟩

end Transfer

namespace TransferManager

/-- the number of transfers that hold a slot -/
def slots (tm : TransferManager κ) : ℕ := tm.xfers.countP Transfer.holdsSlot

/-- transfer `n` exists and has not started -/
def Unstarted (tm : TransferManager κ) (n : ℕ) : Prop := ∃ x, tm.xfers[n]? = some x ∧ x.started = false

/-- every transfer is `OK` -/
def AllOK (tm : TransferManager κ) : Prop := ∀ (n : ℕ) (x : Transfer κ), tm.xfers[n]? = some x → x.OK

/-- what the manager's counter and queue are, when every `DoFunc` waits for its start to close `inactive` -/
structure SlotInv (tm : TransferManager κ) : Prop where
  limit_nonneg : 0 ≤ tm.concurrencyLimit
  active_eq : tm.activeTransfers = tm.slots
  active_le : tm.activeTransfers ≤ tm.concurrencyLimit
  waiting_sorted : tm.waitingTransfers.Pairwise (· < ·)
  mem_waiting : ∀ n, n ∈ tm.waitingTransfers ↔ tm.Unstarted n
  waiting_full : tm.waitingTransfers ≠ [] → tm.activeTransfers = tm.concurrencyLimit
  ok : tm.AllOK

/-- the map holds each transfer whose goroutine has not returned, under its key, and nothing else -/
def Tracked (tm : TransferManager κ) : Prop :=
  ∀ k n, tm.transfers.lookup k = some n ↔ tm.xfers[n]?.bind Transfer.liveKey = some k

/-- the invariant of a manager whose `DoFunc`s wait for their start to close `inactive` -/
structure Inv (tm : TransferManager κ) : Prop where
  slotInv : tm.SlotInv
  tracked : tm.Tracked

/-! ### Changing one transfer -/

@[simp] theorem modifyXfer_transfers (tm : TransferManager κ) (n : ℕ) (f : Transfer κ → Transfer κ) :
    (tm.modifyXfer n f).transfers = tm.transfers := rfl

@[simp] theorem modifyXfer_activeTransfers (tm : TransferManager κ) (n : ℕ) (f : Transfer κ → Transfer κ) :
    (tm.modifyXfer n f).activeTransfers = tm.activeTransfers := rfl

@[simp] theorem modifyXfer_waitingTransfers (tm : TransferManager κ) (n : ℕ) (f : Transfer κ → Transfer κ) :
    (tm.modifyXfer n f).waitingTransfers = tm.waitingTransfers := rfl

@[simp] theorem modifyXfer_concurrencyLimit (tm : TransferManager κ) (n : ℕ) (f : Transfer κ → Transfer κ) :
    (tm.modifyXfer n f).concurrencyLimit = tm.concurrencyLimit := rfl

theorem getElem?_modifyXfer {tm : TransferManager κ} {n : ℕ} {x : Transfer κ} (hx : tm.xfers[n]? = some x)
    (f : Transfer κ → Transfer κ) (m : ℕ) :
    (tm.modifyXfer n f).xfers[m]? = if m = n then some (f x) else tm.xfers[m]? := by
  unfold modifyXfer
  split_ifs with hm
  · rw [hm, List.getElem?_modify_eq, hx]
    rfl
  · exact List.getElem?_modify_ne f tm.xfers (Ne.symm hm)

theorem slots_modifyXfer {tm : TransferManager κ} {n : ℕ} {x : Transfer κ} (hx : tm.xfers[n]? = some x)
    (f : Transfer κ → Transfer κ) :
    ((tm.modifyXfer n f).slots : ℤ) = tm.slots - (if x.holdsSlot then 1 else 0) + (if (f x).holdsSlot then 1 else 0) := by
  obtain ⟨hn, rfl⟩ := List.getElem?_eq_some_iff.mp hx
  have h := countP_modify Transfer.holdsSlot f tm.xfers n hn
  dsimp only [slots, modifyXfer]
  split_ifs at h ⊢ <;> omega

theorem unstarted_modifyXfer {tm : TransferManager κ} {n : ℕ} {x : Transfer κ} (hx : tm.xfers[n]? = some x)
    (f : Transfer κ → Transfer κ) (m : ℕ) :
    (tm.modifyXfer n f).Unstarted m ↔ if m = n then (f x).started = false else tm.Unstarted m := by
  unfold Unstarted
  rw [getElem?_modifyXfer hx]
  split_ifs <;> simp

theorem AllOK.modifyXfer {tm : TransferManager κ} (h : tm.AllOK) {n : ℕ} {x : Transfer κ}
    (hx : tm.xfers[n]? = some x) {f : Transfer κ → Transfer κ} (hok : (f x).OK) : (tm.modifyXfer n f).AllOK := by
  intro m y hy
  rw [getElem?_modifyXfer hx] at hy
  split_ifs at hy
  · cases hy
    exact hok
  · exact h m y hy

theorem startedAt_of_getElem? {tm : TransferManager κ} {n : ℕ} {x : Transfer κ} (hx : tm.xfers[n]? = some x) :
    tm.startedAt n = x.started := by
  simp [startedAt, hx]

/-- a change of one transfer that keeps whether it started and holds a slot keeps the counter and the queue -/
theorem SlotInv.modifyXfer {tm : TransferManager κ} (hi : tm.SlotInv) {n : ℕ} {x : Transfer κ}
    (hx : tm.xfers[n]? = some x) {f : Transfer κ → Transfer κ} (hstarted : (f x).started = x.started)
    (hslot : (f x).holdsSlot = x.holdsSlot) (hok : (f x).OK) : (tm.modifyXfer n f).SlotInv where
  limit_nonneg := hi.limit_nonneg
  active_eq := by
    rw [slots_modifyXfer hx, hslot, modifyXfer_activeTransfers, hi.active_eq]
    omega
  active_le := hi.active_le
  waiting_sorted := hi.waiting_sorted
  mem_waiting m := by
    rw [unstarted_modifyXfer hx, modifyXfer_waitingTransfers, hi.mem_waiting]
    split_ifs with hm
    · rw [hm, hstarted]
      exact ⟨fun ⟨y, hy, hys⟩ => by rw [hx] at hy; cases hy; exact hys, fun hs => ⟨x, hx, hs⟩⟩
    · rfl
  waiting_full := hi.waiting_full
  ok := hi.ok.modifyXfer hx hok

/-- a change of one transfer that keeps its key in the map keeps the map right -/
theorem Tracked.modifyXfer {tm : TransferManager κ} (ht : tm.Tracked) {n : ℕ} {x : Transfer κ}
    (hx : tm.xfers[n]? = some x) {f : Transfer κ → Transfer κ} (hlive : (f x).liveKey = x.liveKey) :
    (tm.modifyXfer n f).Tracked := by
  intro k m
  rw [getElem?_modifyXfer hx, modifyXfer_transfers]
  split_ifs with hm
  · rw [hm, ht k n, hx]
    simp [hlive]
  · exact ht k m

/-! ### `inactivate` -/

theorem inactivate_of_waiting {tm : TransferManager κ} {n w : ℕ} {rest : List ℕ} {x : Transfer κ}
    (hx : tm.xfers[n]? = some x) (hstart : x.started = true) (hw : tm.waitingTransfers = w :: rest) :
    tm.inactivate n = { tm.closeStart w with waitingTransfers := rest } := by
  simp [inactivate, startedAt_of_getElem? hx, hstart, hw]

theorem inactivate_of_empty {tm : TransferManager κ} {n : ℕ} {x : Transfer κ} (hx : tm.xfers[n]? = some x)
    (hstart : x.started = true) (hw : tm.waitingTransfers = []) :
    tm.inactivate n = { tm with activeTransfers := tm.activeTransfers - 1 } := by
  simp [inactivate, startedAt_of_getElem? hx, hstart, hw]

theorem inactivate_of_not_started {tm : TransferManager κ} {n : ℕ} {x : Transfer κ} (hx : tm.xfers[n]? = some x)
    (hstart : x.started = false) : tm.inactivate n = tm := by
  simp [inactivate, startedAt_of_getElem? hx, hstart]

@[simp] theorem inactivate_concurrencyLimit (tm : TransferManager κ) (n : ℕ) :
    (tm.inactivate n).concurrencyLimit = tm.concurrencyLimit := by
  unfold TransferManager.inactivate
  split_ifs
  · cases tm.waitingTransfers <;> rfl
  · rfl

/-- the first waiting transfer exists, has not started, and its goroutine still selects -/
theorem SlotInv.head_waiting {tm : TransferManager κ} (hi : tm.SlotInv) {w : ℕ} {rest : List ℕ}
    (hw : tm.waitingTransfers = w :: rest) :
    ∃ y, tm.xfers[w]? = some y ∧ y.started = false ∧ y.watch = .selecting := by
  obtain ⟨y, hy, hys⟩ := (hi.mem_waiting w).mp (hw ▸ List.mem_cons_self ..)
  exact ⟨y, hy, hys, (hi.ok w y hy).watch_of_not_started hys⟩

/-- `inactivate` of a started transfer leaves that transfer as it is -/
theorem SlotInv.getElem?_inactivate {tm : TransferManager κ} (hi : tm.SlotInv) {n : ℕ} {x : Transfer κ}
    (hx : tm.xfers[n]? = some x) (hstart : x.started = true) : (tm.inactivate n).xfers[n]? = some x := by
  cases hw : tm.waitingTransfers with
  | nil =>
    rw [inactivate_of_empty hx hstart hw]
    exact hx
  | cons w rest =>
    rw [inactivate_of_waiting hx hstart hw]
    obtain ⟨y, hy, hys, -⟩ := hi.head_waiting hw
    have hnw : n ≠ w := by
      rintro rfl
      rw [hx] at hy
      cases hy
      simp [hstart] at hys
    show (tm.closeStart w).xfers[n]? = some x
    rw [closeStart, getElem?_modifyXfer hy, if_neg hnw, hx]

theorem SlotInv.allOK_inactivate {tm : TransferManager κ} (hi : tm.SlotInv) (n : ℕ) : (tm.inactivate n).AllOK := by
  unfold TransferManager.inactivate
  split_ifs
  · cases hw : tm.waitingTransfers with
    | nil => exact hi.ok
    | cons w rest =>
      obtain ⟨y, hy, -, -⟩ := hi.head_waiting hw
      exact hi.ok.modifyXfer hy (hi.ok w y hy).start
  · exact hi.ok

/-- `inactivate` keeps the map and the keys the transfers are live under -/
theorem Tracked.inactivate {tm : TransferManager κ} (ht : tm.Tracked) (n : ℕ) : (tm.inactivate n).Tracked := by
  unfold TransferManager.inactivate
  split_ifs
  · cases hw : tm.waitingTransfers with
    | nil => exact ht
    | cons w rest =>
      intro k m
      show tm.transfers.lookup k = some m ↔ (tm.xfers.modify w _)[m]?.bind Transfer.liveKey = some k
      rw [ht k m, List.getElem?_modify]
      cases tm.xfers[m]? with
      | none => rfl
      | some y =>
        simp only [Option.map_eq_map, Option.map_some, Option.bind_some]
        split_ifs <;> rfl
  · exact ht

/-- a transfer that holds a slot and whose goroutine calls `inactivate` hands the slot to the first waiting transfer,
or back to the counter -/
theorem SlotInv.release {tm : TransferManager κ} (hi : tm.SlotInv) {n : ℕ} {x : Transfer κ}
    (hx : tm.xfers[n]? = some x) (hstart : x.started = true) (hsel : x.watch = .selecting) {v : Watch}
    (hv : v ≠ .selecting) (hok : { x with watch := v }.OK) :
    ((tm.inactivate n).modifyXfer n fun x => { x with watch := v }).SlotInv := by
  have hx₁ := hi.getElem?_inactivate hx hstart
  have hslot : x.holdsSlot = true := by simp [Transfer.holdsSlot, hstart, hsel]
  have hslot' : ({ x with watch := v } : Transfer κ).holdsSlot = false := by simp [Transfer.holdsSlot, hv]
  cases hw : tm.waitingTransfers with
  | nil =>
    -- the slot goes back to the counter
    have hi₁ : tm.inactivate n = { tm with activeTransfers := tm.activeTransfers - 1 } := inactivate_of_empty hx hstart hw
    refine ⟨by simpa using hi.limit_nonneg, ?_, ?_, ?_, fun m => ?_, fun h => absurd ?_ h,
      (hi.allOK_inactivate n).modifyXfer hx₁ hok⟩
    · rw [slots_modifyXfer hx₁, hslot, hslot', modifyXfer_activeTransfers, hi₁]
      have := hi.active_eq
      simp only [if_true, Bool.false_eq_true, if_false] at this ⊢
      rw [show ({ tm with activeTransfers := tm.activeTransfers - 1 } : TransferManager κ).slots = tm.slots from rfl]
      omega
    · rw [modifyXfer_activeTransfers, hi₁]
      exact (sub_le_self _ zero_le_one).trans hi.active_le
    · rw [modifyXfer_waitingTransfers, hi₁, hw]
      exact List.Pairwise.nil
    · rw [unstarted_modifyXfer hx₁, modifyXfer_waitingTransfers, hi₁, hw]
      have hm := hi.mem_waiting m
      rw [hw] at hm
      split_ifs with hmn
      · simp [hstart]
      · exact hm
    · rw [modifyXfer_waitingTransfers, hi₁, hw]
  | cons w rest =>
    -- the slot goes to the first waiting transfer
    obtain ⟨y, hy, hys, hyw⟩ := hi.head_waiting hw
    have hi₁ : tm.inactivate n = { tm.closeStart w with waitingTransfers := rest } := inactivate_of_waiting hx hstart hw
    have hy₁ : (tm.closeStart w).xfers[w]? = some { y with started := true } := by
      rw [closeStart, getElem?_modifyXfer hy, if_pos rfl]
    have hnw : n ≠ w := by
      rintro rfl
      rw [hx] at hy
      cases hy
      simp [hstart] at hys
    have hsorted := hi.waiting_sorted
    rw [hw, List.pairwise_cons] at hsorted
    refine ⟨by simpa using hi.limit_nonneg, ?_, ?_, ?_, fun m => ?_, fun h => ?_,
      (hi.allOK_inactivate n).modifyXfer hx₁ hok⟩
    · rw [slots_modifyXfer hx₁, hslot, hslot', modifyXfer_activeTransfers, hi₁]
      show tm.activeTransfers = ((tm.closeStart w).slots : ℤ) - 1 + 0
      rw [closeStart, slots_modifyXfer hy, hi.active_eq]
      simp [Transfer.holdsSlot, hys, hyw]
    · rw [modifyXfer_activeTransfers, hi₁]
      exact hi.active_le
    · rw [modifyXfer_waitingTransfers, hi₁]
      exact hsorted.2
    · rw [unstarted_modifyXfer hx₁, modifyXfer_waitingTransfers, hi₁]
      split_ifs with hmn
      · -- transfer `n` has started, so it does not wait
        refine iff_of_false (fun hm => ?_) (by simp [hstart])
        obtain ⟨z, hz, hzs⟩ := (hi.mem_waiting m).mp (hw ▸ List.mem_cons_of_mem w hm)
        rw [hmn, hx] at hz
        cases hz
        simp [hstart] at hzs
      · show m ∈ rest ↔ (tm.closeStart w).Unstarted m
        rw [closeStart, unstarted_modifyXfer hy]
        split_ifs with hmw
        · -- the first waiting transfer has started and left the queue
          rw [hmw]
          exact iff_of_false (fun h => lt_irrefl w (hsorted.1 w h)) (by simp)
        · rw [← hi.mem_waiting, hw, List.mem_cons, or_iff_right hmw]
    · rw [modifyXfer_activeTransfers, hi₁]
      exact hi.waiting_full (by rw [hw]; exact List.cons_ne_nil _ _)

theorem SlotInv.setTransfers {tm : TransferManager κ} (hi : tm.SlotInv) (T : AList fun _ : κ => ℕ) :
    ({ tm with transfers := T } : TransferManager κ).SlotInv :=
  ⟨hi.1, hi.2, hi.3, hi.4, hi.5, hi.6, hi.7⟩

/-- the goroutine of a transfer that returns removes its key from the map -/
theorem Tracked.returned {tm : TransferManager κ} (ht : tm.Tracked) {n : ℕ} {x : Transfer κ}
    (hx : tm.xfers[n]? = some x) (hlive : x.watch ≠ .returned) :
    ({ tm with transfers := tm.transfers.erase x.key }.modifyXfer n fun x => { x with watch := .returned }).Tracked := by
  have hxlive : tm.xfers[n]?.bind Transfer.liveKey = some x.key := by simp [hx, Transfer.liveKey, hlive]
  intro k m
  rw [getElem?_modifyXfer (show ({ tm with transfers := tm.transfers.erase x.key } : TransferManager κ).xfers[n]?
    = some x from hx), modifyXfer_transfers]
  show (tm.transfers.erase x.key).lookup k = some m ↔ _
  by_cases hk : k = x.key
  · -- the key is gone, and no other transfer was live under it
    rw [hk, AList.lookup_erase]
    refine iff_of_false (by simp) fun h => ?_
    split_ifs at h with hmn
    · simp [Transfer.liveKey] at h
    · have h₁ := (ht x.key m).mpr h
      have h₂ := (ht x.key n).mpr hxlive
      rw [h₁] at h₂
      exact hmn (Option.some.inj h₂)
  · rw [AList.lookup_erase_ne hk, ht k m]
    split_ifs with hmn
    · rw [hmn, hxlive]
      simp [Transfer.liveKey, Ne.symm hk]
    · rfl

/-- a new transfer is live under its key, which no transfer was live under -/
theorem Tracked.create {tm tm' : TransferManager κ} (ht : tm.Tracked) {key : κ} (hk : tm.transfers.lookup key = none)
    {x₀ : Transfer κ} (hkey : x₀.key = key) (hlive : x₀.watch = .selecting)
    (htransfers : tm'.transfers = tm.transfers.insert key tm.xfers.length) (hxfers : tm'.xfers = tm.xfers ++ [x₀]) :
    tm'.Tracked := by
  have hnone : tm.xfers[tm.xfers.length]? = none := List.getElem?_eq_none (le_refl _)
  intro k m
  rw [htransfers, hxfers, getElem?_append_singleton]
  by_cases hkk : k = key
  · rw [hkk, AList.lookup_insert]
    split_ifs with hm
    · simp [hm, Transfer.liveKey, hlive, hkey]
    · refine iff_of_false (fun h => hm (Option.some.inj h).symm) fun h => ?_
      rw [← ht key m, hk] at h
      cases h
  · rw [AList.lookup_insert_ne hkk, ht k m]
    split_ifs with hm
    · rw [hm, hnone]
      simp [Transfer.liveKey, hlive, hkey, Ne.symm hkk]
    · rfl

/-! ## The invariant over a run -/

theorem inv_newTransferManager {concurrencyLimit : ℤ} (h : 0 ≤ concurrencyLimit) :
    (newTransferManager concurrencyLimit : TransferManager κ).Inv where
  slotInv := ⟨h, rfl, h, List.Pairwise.nil, fun n => by simp [Unstarted, newTransferManager],
    fun h => absurd rfl h, fun n x hx => by simp [newTransferManager] at hx⟩
  tracked k n := by simp [newTransferManager]

/-- `Transfer` for a new key creates a transfer that starts at once if a slot is free and waits at the end of the
queue if none is -/
theorem Inv.transfer {tm : TransferManager κ} (hi : tm.Inv) (key : κ) : (tm.transfer key).1.Inv := by
  unfold TransferManager.transfer
  cases hk : tm.transfers.lookup key with
  | some n => exact hi
  | none =>
    have hs := hi.slotInv
    have hlen : ∀ m ∈ tm.waitingTransfers, m < tm.xfers.length := fun m hm => by
      obtain ⟨y, hy, -⟩ := (hs.mem_waiting m).mp hm
      exact (List.getElem?_eq_some_iff.mp hy).1
    have hnew : ∀ {b : Bool} {m : ℕ},
        (∃ y, (tm.xfers ++ [⟨key, b, false, false, .selecting⟩])[m]? = some y ∧ y.started = false) ↔
          if m = tm.xfers.length then b = false else tm.Unstarted m := by
      intro b m
      rw [Unstarted]
      simp only [getElem?_append_singleton]
      split_ifs <;> simp
    have hok : ∀ b : Bool, (⟨key, b, false, false, .selecting⟩ : Transfer κ).OK := fun b =>
      ⟨nofun, nofun, nofun, nofun⟩
    have hallok : ∀ (b : Bool) (m : ℕ) (y : Transfer κ),
        (tm.xfers ++ [⟨key, b, false, false, .selecting⟩])[m]? = some y → y.OK := by
      intro b m y hy
      rw [getElem?_append_singleton] at hy
      split_ifs at hy
      · cases hy
        exact hok b
      · exact hs.ok m y hy
    have hslots : ∀ b : Bool,
        ((tm.xfers ++ [(⟨key, b, false, false, .selecting⟩ : Transfer κ)]).countP Transfer.holdsSlot : ℤ) =
          tm.slots + (if b then 1 else 0) := by
      intro b
      cases b <;> simp [List.countP_append, slots, Transfer.holdsSlot]
    dsimp only
    split_ifs with hlt
    · -- a free slot: the transfer starts at once
      refine ⟨⟨hs.limit_nonneg, ?_, hlt, hs.waiting_sorted, fun m => ?_, fun h => ?_, hallok true⟩,
        hi.tracked.create hk rfl rfl rfl rfl⟩
      · show tm.activeTransfers + 1 = ((tm.xfers ++ _).countP Transfer.holdsSlot : ℤ)
        rw [hslots true, hs.active_eq]
        rfl
      · show m ∈ tm.waitingTransfers ↔ ∃ y, (tm.xfers ++ _)[m]? = some y ∧ y.started = false
        rw [hnew, ← hs.mem_waiting]
        split_ifs with hm
        · exact iff_of_false (fun h => lt_irrefl m (hm ▸ hlen m h)) (by simp)
        · rfl
      · exact absurd (hs.waiting_full h) (ne_of_lt hlt)
    · -- no free slot: the transfer waits at the end of the queue
      refine ⟨⟨hs.limit_nonneg, ?_, hs.active_le, ?_, fun m => ?_, fun _ => ?_, hallok false⟩,
        hi.tracked.create hk rfl rfl rfl rfl⟩
      · show tm.activeTransfers = ((tm.xfers ++ _).countP Transfer.holdsSlot : ℤ)
        rw [hslots false, hs.active_eq]
        simp
      · show (tm.waitingTransfers ++ [tm.xfers.length]).Pairwise (· < ·)
        refine List.pairwise_append.mpr ⟨hs.waiting_sorted, List.pairwise_singleton _ _, fun a ha b hb => ?_⟩
        rw [List.mem_singleton.mp hb]
        exact hlen a ha
      · show m ∈ tm.waitingTransfers ++ [tm.xfers.length] ↔ ∃ y, (tm.xfers ++ _)[m]? = some y ∧ y.started = false
        rw [hnew, List.mem_append, List.mem_singleton, ← hs.mem_waiting]
        split_ifs with hm
        · simp [hm]
        · simp [hm]
      · show tm.activeTransfers = tm.concurrencyLimit
        exact le_antisymm hs.active_le (not_lt.mp hlt)

/-- a `DoFunc` closes `inactive` once its transfer has started -/
theorem Inv.closeInactive {tm : TransferManager κ} (hi : tm.Inv) {n : ℕ} {x : Transfer κ}
    (hx : tm.xfers[n]? = some x) (hstart : x.started = true) :
    (tm.modifyXfer n fun x => { x with inactiveClosed := true }).Inv := by
  have hok := hi.slotInv.ok n x hx
  exact ⟨hi.slotInv.modifyXfer hx rfl rfl
      ⟨fun _ => hstart, hok.started_of_finished, fun _ => rfl, hok.finished_of_returned⟩,
    hi.tracked.modifyXfer hx rfl⟩

/-- a `DoFunc` ends its transfer once it has started -/
theorem Inv.finish {tm : TransferManager κ} (hi : tm.Inv) {n : ℕ} {x : Transfer κ}
    (hx : tm.xfers[n]? = some x) (hstart : x.started = true) :
    (tm.modifyXfer n fun x => { x with finished := true }).Inv := by
  have hok := hi.slotInv.ok n x hx
  exact ⟨hi.slotInv.modifyXfer hx rfl rfl
      ⟨hok.started_of_inactiveClosed, fun _ => hstart, hok.inactiveClosed_of_inactivated, fun _ => rfl⟩,
    hi.tracked.modifyXfer hx rfl⟩

/-- the goroutine receives from `inactive` and gives the slot up -/
theorem Inv.receiveInactive {tm : TransferManager κ} (hi : tm.Inv) {n : ℕ} {x : Transfer κ}
    (hx : tm.xfers[n]? = some x) (hclosed : x.inactiveClosed = true) (hsel : x.watch = .selecting) :
    ((tm.inactivate n).modifyXfer n fun x => { x with watch := .inactivated }).Inv := by
  have hok := hi.slotInv.ok n x hx
  have hstart := hok.started_of_inactiveClosed hclosed
  have hx₁ := hi.slotInv.getElem?_inactivate hx hstart
  refine ⟨hi.slotInv.release hx hstart hsel nofun
      ⟨hok.started_of_inactiveClosed, hok.started_of_finished, fun _ => hclosed, nofun⟩,
    (hi.tracked.inactivate n).modifyXfer hx₁ ?_⟩
  simp [Transfer.liveKey, hsel]

/-- the goroutine receives from `Done()` while it still holds the slot: it gives the slot up and removes the
transfer from the map -/
theorem Inv.receiveDone_selecting {tm : TransferManager κ} (hi : tm.Inv) {n : ℕ} {x : Transfer κ}
    (hx : tm.xfers[n]? = some x) (hfinished : x.finished = true) (hsel : x.watch = .selecting) :
    ({ tm.inactivate n with transfers := (tm.inactivate n).transfers.erase x.key }.modifyXfer n
      fun x => { x with watch := .returned }).Inv := by
  have hok := hi.slotInv.ok n x hx
  have hstart := hok.started_of_finished hfinished
  have hx₁ := hi.slotInv.getElem?_inactivate hx hstart
  exact ⟨(hi.slotInv.release hx hstart hsel (show Watch.returned ≠ .selecting from nofun)
      (hok.setReturned hfinished)).setTransfers _,
    (hi.tracked.inactivate n).returned hx₁ (by rw [hsel]; exact nofun)⟩

/-- the goroutine receives from `Done()` after it gave the slot up: it removes the transfer from the map -/
theorem Inv.receiveDone_inactivated {tm : TransferManager κ} (hi : tm.Inv) {n : ℕ} {x : Transfer κ}
    (hx : tm.xfers[n]? = some x) (hfinished : x.finished = true) (hlive : x.watch ≠ .returned)
    (hsel : x.watch ≠ .selecting) :
    ({ tm with transfers := tm.transfers.erase x.key }.modifyXfer n fun x => { x with watch := .returned }).Inv := by
  have hok := hi.slotInv.ok n x hx
  refine ⟨(hi.slotInv.modifyXfer hx rfl ?_ (hok.setReturned hfinished)).setTransfers _, hi.tracked.returned hx hlive⟩
  simp [Transfer.holdsSlot, beq_eq_false_iff_ne.mpr hsel]

/-- every event of a manager whose `DoFunc`s wait for their start keeps the invariant -/
theorem Inv.stepWaiting {tm tm' : TransferManager κ} {e : Event κ} {r : Option ℕ} (hi : tm.Inv)
    (h : tm.stepWaiting e = some (tm', r)) : tm'.Inv := by
  cases e with
  | transfer key =>
    simp only [TransferManager.stepWaiting, step, Option.some.injEq, Prod.mk.injEq] at h
    rw [← h.1]
    exact hi.transfer key
  | closeInactive n =>
    simp only [TransferManager.stepWaiting] at h
    split_ifs at h with hs
    cases hx : tm.xfers[n]? with
    | none => simp [step, hx] at h
    | some x =>
      simp only [step, hx] at h
      split_ifs at h
      cases h
      exact hi.closeInactive hx (by rwa [startedAt_of_getElem? hx] at hs)
  | finish n =>
    cases hx : tm.xfers[n]? with
    | none => simp [TransferManager.stepWaiting, step, hx] at h
    | some x =>
      simp only [TransferManager.stepWaiting, step, hx] at h
      split_ifs at h with hg
      cases h
      exact hi.finish hx (Bool.and_eq_true_iff.mp hg).1
  | receiveInactive n =>
    cases hx : tm.xfers[n]? with
    | none => simp [TransferManager.stepWaiting, step, hx] at h
    | some x =>
      simp only [TransferManager.stepWaiting, step, hx] at h
      split_ifs at h with hg
      cases h
      simp only [Bool.and_eq_true, beq_iff_eq] at hg
      exact hi.receiveInactive hx hg.1 hg.2
  | receiveDone n =>
    cases hx : tm.xfers[n]? with
    | none => simp [TransferManager.stepWaiting, step, hx] at h
    | some x =>
      simp only [TransferManager.stepWaiting, step, hx] at h
      split_ifs at h with hg hsel
      · cases h
        simp only [Bool.and_eq_true] at hg
        exact hi.receiveDone_selecting hx hg.1 hsel
      · cases h
        simp only [Bool.and_eq_true, bne_iff_ne, ne_eq] at hg
        exact hi.receiveDone_inactivated hx hg.1 hg.2 hsel

/-- every run of a manager whose `DoFunc`s wait for their start keeps the invariant -/
theorem run_inv {concurrencyLimit : ℤ} (hlimit : 0 ≤ concurrencyLimit) {es : List (Event κ)}
    {tm : TransferManager κ} (h : Machine.runCalls stepWaiting (newTransferManager concurrencyLimit) es = some tm) :
    tm.Inv :=
  Machine.runCalls_inv stepWaiting Inv (fun _ _ _ _ hi h => hi.stepWaiting h) (inv_newTransferManager hlimit) h

/-- the map holds at most one transfer per key -/
theorem Tracked.unique {tm : TransferManager κ} (ht : tm.Tracked) {k : κ} {n m : ℕ}
    (hn : tm.xfers[n]?.bind Transfer.liveKey = some k) (hm : tm.xfers[m]?.bind Transfer.liveKey = some k) : n = m := by
  have h := (ht k n).mpr hn
  rw [(ht k m).mpr hm] at h
  exact (Option.some.inj h).symm

/-- no goroutine has a receive ready: it has received from `inactive` once it is closed, and from `Done()` once the
transfer has ended -/
def Quiescent (tm : TransferManager κ) : Prop :=
  ∀ (n : ℕ) (x : Transfer κ), tm.xfers[n]? = some x → x.watch = .selecting → x.inactiveClosed = false ∧ x.finished = false

/-- once every goroutine has received what is ready, the counter is the number of transfers that have started and
have neither closed `inactive` nor ended -/
theorem SlotInv.active_eq_running {tm : TransferManager κ} (hi : tm.SlotInv) (hq : tm.Quiescent) :
    tm.activeTransfers = tm.xfers.countP Transfer.running := by
  rw [hi.active_eq, slots]
  refine congrArg Nat.cast (List.countP_congr fun x hx => ?_)
  obtain ⟨n, hn, rfl⟩ := List.getElem_of_mem hx
  have hget : tm.xfers[n]? = some tm.xfers[n] := List.getElem?_eq_getElem hn
  have hok := hi.ok n _ hget
  simp only [Transfer.holdsSlot, Transfer.running, Bool.and_eq_true, beq_iff_eq, Bool.not_eq_true']
  constructor
  · rintro ⟨hstart, hsel⟩
    exact ⟨⟨hstart, (hq n _ hget hsel).1⟩, (hq n _ hget hsel).2⟩
  · rintro ⟨⟨hstart, hclosed⟩, hfinished⟩
    refine ⟨hstart, ?_⟩
    cases hw : tm.xfers[n].watch with
    | selecting => rfl
    | inactivated => simp [hok.inactiveClosed_of_inactivated hw] at hclosed
    | returned => simp [hok.finished_of_returned hw] at hfinished

/-! ## A `DoFunc` that closes `inactive` before its start -/

/-- every slot is lost: the counter is at the limit, and no started transfer's goroutine is left to call
`inactivate` -/
def Stuck (tm : TransferManager κ) : Prop :=
  tm.concurrencyLimit ≤ tm.activeTransfers ∧
    ∀ (n : ℕ) (x : Transfer κ), tm.xfers[n]? = some x → x.started = true → x.watch ≠ .selecting

theorem startedAt_modifyXfer {tm : TransferManager κ} {n : ℕ} {x : Transfer κ} (hx : tm.xfers[n]? = some x)
    {f : Transfer κ → Transfer κ} (hstarted : (f x).started = x.started) (m : ℕ) :
    (tm.modifyXfer n f).startedAt m = tm.startedAt m := by
  unfold startedAt
  rw [getElem?_modifyXfer hx]
  split_ifs with hm
  · rw [hm, hx]
    simp [hstarted]
  · rfl

/-- a change of one transfer that starts nothing keeps a manager stuck -/
theorem Stuck.modifyXfer {tm : TransferManager κ} (hs : tm.Stuck) {n : ℕ} {x : Transfer κ}
    (hx : tm.xfers[n]? = some x) {f : Transfer κ → Transfer κ} (hstarted : (f x).started = x.started)
    (hwatch : (f x).started = true → (f x).watch ≠ .selecting) :
    (tm.modifyXfer n f).Stuck ∧ ∀ m, (tm.modifyXfer n f).startedAt m = tm.startedAt m := by
  refine ⟨⟨hs.1, fun m y hy hys => ?_⟩, startedAt_modifyXfer hx hstarted⟩
  rw [getElem?_modifyXfer hx] at hy
  split_ifs at hy
  · cases hy
    exact hwatch hys
  · exact hs.2 m y hy hys

/-- in a stuck manager `inactivate` does nothing: no transfer whose goroutine still selects has started -/
theorem Stuck.inactivate {tm : TransferManager κ} (hs : tm.Stuck) {n : ℕ} {x : Transfer κ}
    (hx : tm.xfers[n]? = some x) (hsel : x.watch = .selecting) : tm.inactivate n = tm := by
  refine inactivate_of_not_started hx ?_
  cases hstart : x.started
  · rfl
  · exact absurd hsel (hs.2 n x hx hstart)

/-- every event keeps a manager stuck, and starts no transfer -/
theorem Stuck.of_step {tm tm' : TransferManager κ} {e : Event κ} {r : Option ℕ} (hs : tm.Stuck)
    (h : tm.step e = some (tm', r)) : tm'.Stuck ∧ ∀ m, tm'.startedAt m = tm.startedAt m := by
  cases e with
  | transfer key =>
    simp only [step, Option.some.injEq, Prod.mk.injEq] at h
    rw [← h.1]
    unfold TransferManager.transfer
    cases hk : tm.transfers.lookup key with
    | some n => exact ⟨hs, fun _ => rfl⟩
    | none =>
      -- the counter is at the limit, so the new transfer waits
      dsimp only
      rw [if_neg (not_lt.mpr hs.1)]
      refine ⟨⟨hs.1, fun m y hy hys => ?_⟩, fun m => ?_⟩
      · change (tm.xfers ++ [_])[m]? = some y at hy
        rw [getElem?_append_singleton] at hy
        split_ifs at hy
        · cases hy
          cases hys
        · exact hs.2 m y hy hys
      · change ((tm.xfers ++ [_])[m]?.map Transfer.started).getD false = tm.startedAt m
        rw [getElem?_append_singleton]
        split_ifs with hm
        · simp [startedAt, hm]
        · rfl
  | closeInactive n =>
    cases hx : tm.xfers[n]? with
    | none => simp [step, hx] at h
    | some x =>
      simp only [step, hx] at h
      split_ifs at h
      cases h
      exact hs.modifyXfer hx rfl fun hstart => hs.2 n x hx hstart
  | finish n =>
    cases hx : tm.xfers[n]? with
    | none => simp [step, hx] at h
    | some x =>
      simp only [step, hx] at h
      split_ifs at h
      cases h
      exact hs.modifyXfer hx rfl fun hstart => hs.2 n x hx hstart
  | receiveInactive n =>
    cases hx : tm.xfers[n]? with
    | none => simp [step, hx] at h
    | some x =>
      simp only [step, hx] at h
      split_ifs at h with hg
      cases h
      simp only [Bool.and_eq_true, beq_iff_eq] at hg
      rw [hs.inactivate hx hg.2]
      exact hs.modifyXfer hx rfl fun _ => nofun
  | receiveDone n =>
    cases hx : tm.xfers[n]? with
    | none => simp [step, hx] at h
    | some x =>
      simp only [step, hx] at h
      have hs' : ({ tm with transfers := tm.transfers.erase x.key } : TransferManager κ).Stuck := hs
      split_ifs at h with hg hsel
      · cases h
        rw [hs.inactivate hx hsel]
        exact hs'.modifyXfer hx rfl fun _ => nofun
      · cases h
        exact hs'.modifyXfer hx rfl fun _ => nofun

/-- a stuck manager starts no transfer again, whatever happens next -/
theorem stuck_forever {tm tm' : TransferManager κ} {es : List (Event κ)} (hs : tm.Stuck)
    (h : Machine.runCalls step tm es = some tm') {n : ℕ} (hn : tm'.startedAt n = true) : tm.startedAt n = true := by
  have hrun := Machine.runCalls_inv step (fun t => t.Stuck ∧ ∀ m, t.startedAt m = true → tm.startedAt m = true)
    (fun t e t' r hi ht => by
      obtain ⟨hs', hstarted⟩ := hi.1.of_step ht
      exact ⟨hs', fun m hm => hi.2 m (by rwa [hstarted] at hm)⟩)
    ⟨hs, fun _ hm => hm⟩ h
  exact hrun.2 n hn

theorem Stuck.of_all {tm : TransferManager κ} (hlimit : tm.concurrencyLimit ≤ tm.activeTransfers)
    (hall : tm.xfers.all (fun x => !x.started || x.watch != .selecting) = true) : tm.Stuck := by
  refine ⟨hlimit, fun n x hx hstart => ?_⟩
  have h := List.all_eq_true.mp hall x (List.mem_of_getElem? hx)
  simpa [hstart] using h

/-- with one slot: `a` starts; `b` waits, and its `DoFunc` closes `inactive` while it waits, which `inactivate`
ignores; `a` ends and hands its slot to `b`; `b` ends without giving it back. No transfer runs, yet the counter says
one slot is taken, so `c` waits, and no transfer starts again (`stuck_forever`) -/
theorem transfer_slot_leak :
    ∃ tm, Machine.runCalls step (newTransferManager 1 : TransferManager Go.Text)
        [.transfer "a".toList, .transfer "b".toList, .closeInactive 1, .receiveInactive 1, .finish 0, .receiveDone 0,
          .finish 1, .receiveDone 1, .transfer "c".toList] = some tm ∧
      tm.activeTransfers = 1 ∧ tm.xfers.countP Transfer.running = 0 ∧ tm.slots = 0 ∧ tm.waitingTransfers = [2] ∧
      tm.Stuck := by
  refine ⟨_, rfl, by decide, by decide, by decide, by decide, Stuck.of_all (by decide) (by decide)⟩

end TransferManager

end DockerEngine.Xfer
