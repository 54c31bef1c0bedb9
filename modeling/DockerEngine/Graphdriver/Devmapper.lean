/-
Lean model of the allocation of thin-device IDs in `daemon/graphdriver/devmapper/deviceset.go`: the bitmap
`deviceIDMap` of the IDs in use and the cursor `NextDeviceID`.

IDs are 24-bit: a `DeviceID` is below `maxDeviceID + 1`, and the bitmap has `deviceIDMapSz` bytes, bit `j` of the
`Lib.Bitmap` view standing for ID `j`. `markDeviceIDUsed`, `markDeviceIDFree` and `isDeviceIDFree` work on byte
`deviceID / 8` with the mask `1 << (deviceID % 8)`. `getNextFreeDeviceID` moves the cursor on by one, wrapping with
`& maxDeviceID`, and then tries `maxDeviceID + 1` IDs in turn, moving the cursor after each one that is in use.

`getNextFreeDeviceID_eq` says what it returns for every bitmap and cursor: the first free ID of the cyclic order that
starts right after the cursor, `cyclicID`, with its bit set and the cursor on it, or an error, with the bitmap as it
was, when the search finds none; `firstFree_eq_none` says that this happens exactly when no ID is free.
-/
import DockerEngine.Lib.Bitmap

namespace DockerEngine.Graphdriver.Devmapper

open Bitmap

/-- `maxDeviceID`: IDs are 24-bit, the pool's limit -/
def maxDeviceID : ℕ := 0xffffff

/-- `deviceIDMapSz`: one bit per ID -/
def deviceIDMapSz : ℕ := (maxDeviceID + 1) / 8

/-- a device ID, in `[0, maxDeviceID]` -/
abbrev DeviceID := Fin (maxDeviceID + 1)

/-- the fields of `DeviceSet` that allocation reads and writes -/
@[ext] structure DeviceSet where
  nextDeviceID : DeviceID
  deviceIDMap : Vector UInt8 deviceIDMapSz

theorem byteIndex_lt (deviceID : DeviceID) : deviceID.val / 8 < deviceIDMapSz := by
  have := deviceID.isLt
  simp only [deviceIDMapSz, maxDeviceID] at this ⊢
  omega

namespace DeviceSet

/-- `devices.markDeviceIDUsed(deviceID)` -/
def markDeviceIDUsed (devices : DeviceSet) (deviceID : DeviceID) : DeviceSet :=
  have := byteIndex_lt deviceID
  let i := deviceID.val % 8
  let mask : UInt8 := 1 <<< i.toUInt8
  { devices with
    deviceIDMap := devices.deviceIDMap.set (deviceID.val / 8) (devices.deviceIDMap[deviceID.val / 8] ||| mask) }

/-- `devices.markDeviceIDFree(deviceID)` -/
def markDeviceIDFree (devices : DeviceSet) (deviceID : DeviceID) : DeviceSet :=
  have := byteIndex_lt deviceID
  let i := deviceID.val % 8
  let mask : UInt8 := ~~~(1 <<< i.toUInt8)
  { devices with
    deviceIDMap := devices.deviceIDMap.set (deviceID.val / 8) (devices.deviceIDMap[deviceID.val / 8] &&& mask) }

/-- `devices.isDeviceIDFree(deviceID)` -/
def isDeviceIDFree (devices : DeviceSet) (deviceID : DeviceID) : Bool :=
  have := byteIndex_lt deviceID
  let i := deviceID.val % 8
  let mask : UInt8 := 1 <<< i.toUInt8
  if devices.deviceIDMap[deviceID.val / 8] &&& mask ≠ 0 then false else true

/-- `devices.incNextDeviceID()`: IDs are 24-bit, so the cursor wraps around -/
def incNextDeviceID (devices : DeviceSet) : DeviceSet :=
  { devices with
    nextDeviceID := ⟨(devices.nextDeviceID.val + 1) &&& maxDeviceID, Nat.lt_succ_of_le Nat.and_le_right⟩ }

/-- the loop of `getNextFreeDeviceID` from its turn `i` -/
def getNextFreeDeviceIDLoop (devices : DeviceSet) (i : ℕ) : DeviceSet × Except String DeviceID :=
  if i ≤ maxDeviceID then
    if devices.isDeviceIDFree devices.nextDeviceID then
      (devices.markDeviceIDUsed devices.nextDeviceID, .ok devices.nextDeviceID)
    else getNextFreeDeviceIDLoop devices.incNextDeviceID (i + 1)
  else (devices, .error "devmapper: Unable to find a free device ID")
termination_by maxDeviceID + 1 - i

/-- `devices.getNextFreeDeviceID()` -/
def getNextFreeDeviceID (devices : DeviceSet) : DeviceSet × Except String DeviceID :=
  devices.incNextDeviceID.getNextFreeDeviceIDLoop 0

/-! ## One bit each -/

@[simp] theorem markDeviceIDUsed_nextDeviceID (devices : DeviceSet) (deviceID : DeviceID) :
    (devices.markDeviceIDUsed deviceID).nextDeviceID = devices.nextDeviceID := rfl

@[simp] theorem incNextDeviceID_deviceIDMap (devices : DeviceSet) :
    devices.incNextDeviceID.deviceIDMap = devices.deviceIDMap := rfl

/-- `isDeviceIDFree` reads the bit of its argument -/
theorem isDeviceIDFree_eq_bit (devices : DeviceSet) (deviceID : DeviceID) :
    devices.isDeviceIDFree deviceID = !bit devices.deviceIDMap deviceID.val := by
  have hi : deviceID.val % 8 < 8 := Nat.mod_lt _ (by decide)
  have hb := byteIndex_lt deviceID
  rw [isDeviceIDFree, bit_eq _ rfl hb]
  by_cases h : devices.deviceIDMap[deviceID.val / 8].toNat.testBit (deviceID.val % 8)
  · rw [if_pos ((and_shiftLeft_ne_zero _ hi).mpr h), h]
    rfl
  · rw [if_neg fun h' => h ((and_shiftLeft_ne_zero _ hi).mp h'), Bool.eq_false_iff.mpr h]
    rfl

/-- `markDeviceIDUsed` sets the bit of its argument and no other -/
theorem bit_markDeviceIDUsed (devices : DeviceSet) (deviceID : DeviceID) (j : ℕ) :
    bit (devices.markDeviceIDUsed deviceID).deviceIDMap j = (bit devices.deviceIDMap j || decide (j = deviceID.val)) := by
  have hi : deviceID.val % 8 < 8 := Nat.mod_lt _ (by decide)
  simp only [markDeviceIDUsed]
  rw [bit_set, testBit_or_shiftLeft _ hi]
  by_cases hj : j / 8 = deviceID.val / 8
  · rw [if_pos hj, ← bit_eq _ hj (byteIndex_lt deviceID)]
    -- in the same byte, the bit is that of the argument exactly when it is in the same place
    exact congrArg _ (decide_eq_decide.mpr ⟨fun h => eq_of_div_mod hj h, fun h => h ▸ rfl⟩)
  · have hne : j ≠ deviceID.val := fun h => hj (h ▸ rfl)
    simp [hj, hne]

/-- `markDeviceIDFree` clears the bit of its argument and no other -/
theorem bit_markDeviceIDFree (devices : DeviceSet) (deviceID : DeviceID) (j : ℕ) :
    bit (devices.markDeviceIDFree deviceID).deviceIDMap j = (bit devices.deviceIDMap j && decide (j ≠ deviceID.val)) := by
  have hi : deviceID.val % 8 < 8 := Nat.mod_lt _ (by decide)
  simp only [markDeviceIDFree]
  rw [bit_set, testBit_and_not_shiftLeft _ hi]
  by_cases hj : j / 8 = deviceID.val / 8
  · rw [if_pos hj, ← bit_eq _ hj (byteIndex_lt deviceID)]
    exact congrArg _ (decide_eq_decide.mpr (not_congr ⟨fun h => eq_of_div_mod hj h, fun h => h ▸ rfl⟩))
  · have hne : j ≠ deviceID.val := fun h => hj (h ▸ rfl)
    simp [hj, hne]

/-- the `k`-th ID of the cyclic order that starts at `start` -/
def cyclicID (start k : ℕ) : DeviceID := ⟨(start + k) % (maxDeviceID + 1), Nat.mod_lt _ (Nat.succ_pos _)⟩

/-- the first `k < r` whose ID in the cyclic order from `start` is free -/
def firstFree (devices : DeviceSet) (start r : ℕ) : Option ℕ :=
  (List.range r).find? fun k => devices.isDeviceIDFree (cyclicID start k)

@[simp] theorem cyclicID_val (start k : ℕ) : (cyclicID start k).val = (start + k) % (maxDeviceID + 1) := rfl

theorem cyclicID_zero (deviceID : DeviceID) : cyclicID deviceID.val 0 = deviceID :=
  Fin.ext (Nat.mod_eq_of_lt deviceID.isLt)

theorem cyclicID_succ (start k : ℕ) : cyclicID start (k + 1) = cyclicID (start + 1) k :=
  Fin.ext (congrArg (· % (maxDeviceID + 1)) (by omega))

theorem cyclicID_mod (start k : ℕ) : cyclicID (start % (maxDeviceID + 1)) k = cyclicID start k :=
  Fin.ext (Nat.mod_add_mod _ _ _)

/-- the cursor after `incNextDeviceID`: `& maxDeviceID` is the remainder by `2 ^ 24` -/
theorem incNextDeviceID_nextDeviceID (devices : DeviceSet) :
    devices.incNextDeviceID.nextDeviceID = cyclicID devices.nextDeviceID.val 1 :=
  Fin.ext (Nat.and_two_pow_sub_one_eq_mod _ 24)

theorem firstFree_succ (devices : DeviceSet) (start r : ℕ) :
    devices.firstFree start (r + 1) =
      if devices.isDeviceIDFree (cyclicID start 0) then some 0
      else (devices.firstFree (start + 1) r).map (· + 1) := by
  simp only [firstFree, find?_range_succ, cyclicID_succ]

@[simp] theorem firstFree_incNextDeviceID (devices : DeviceSet) (start r : ℕ) :
    devices.incNextDeviceID.firstFree start r = devices.firstFree start r := rfl

theorem firstFree_mod (devices : DeviceSet) (start r : ℕ) :
    devices.firstFree (start % (maxDeviceID + 1)) r = devices.firstFree start r := by
  simp only [firstFree, cyclicID_mod]

/-- the loop from its turn `i`, with `r` turns left: the first free ID of the `r` from the cursor, or an error with
the cursor `r` IDs on -/
theorem getNextFreeDeviceIDLoop_eq (r : ℕ) : ∀ (devices : DeviceSet) (i : ℕ), i + r = maxDeviceID + 1 →
    devices.getNextFreeDeviceIDLoop i =
      match devices.firstFree devices.nextDeviceID.val r with
      | some k =>
        ({ devices.markDeviceIDUsed (cyclicID devices.nextDeviceID.val k) with
            nextDeviceID := cyclicID devices.nextDeviceID.val k }, .ok (cyclicID devices.nextDeviceID.val k))
      | none =>
        ({ devices with nextDeviceID := cyclicID devices.nextDeviceID.val r },
          .error "devmapper: Unable to find a free device ID") := by
  induction r with
  | zero =>
    intro devices i hi
    rw [getNextFreeDeviceIDLoop, if_neg (by omega)]
    simp [firstFree, cyclicID_zero]
  | succ r ih =>
    intro devices i hi
    rw [getNextFreeDeviceIDLoop, if_pos (by omega), firstFree_succ, cyclicID_zero]
    by_cases hfree : devices.isDeviceIDFree devices.nextDeviceID
    · simp only [hfree, if_true, cyclicID_zero]
      rfl
    · -- the turn moves the cursor on by one and leaves the bitmap as it is
      rw [if_neg hfree, if_neg hfree, ih _ _ (by omega), incNextDeviceID_nextDeviceID, cyclicID_val,
        firstFree_incNextDeviceID, firstFree_mod]
      cases devices.firstFree (devices.nextDeviceID.val + 1) r with
      | none => simp [cyclicID_mod, cyclicID_succ]
      | some k =>
        simp only [cyclicID_mod, Option.map_some, cyclicID_succ]
        rfl

/-- what `getNextFreeDeviceID` returns: the first free ID of the cyclic order that starts right after the cursor, with
its bit set and the cursor on it, or an error with the cursor one ID on -/
theorem getNextFreeDeviceID_eq (devices : DeviceSet) :
    devices.getNextFreeDeviceID =
      match devices.firstFree (devices.nextDeviceID.val + 1) (maxDeviceID + 1) with
      | some k =>
        ({ devices.markDeviceIDUsed (cyclicID (devices.nextDeviceID.val + 1) k) with
            nextDeviceID := cyclicID (devices.nextDeviceID.val + 1) k }, .ok (cyclicID (devices.nextDeviceID.val + 1) k))
      | none =>
        ({ devices with nextDeviceID := cyclicID (devices.nextDeviceID.val + 1) 0 },
          .error "devmapper: Unable to find a free device ID") := by
  rw [getNextFreeDeviceID, getNextFreeDeviceIDLoop_eq (maxDeviceID + 1) _ 0 (Nat.zero_add _), incNextDeviceID_nextDeviceID, cyclicID_val,
    firstFree_incNextDeviceID, firstFree_mod]
  cases devices.firstFree (devices.nextDeviceID.val + 1) (maxDeviceID + 1) with
  | none =>
    -- a whole turn of the cyclic order brings the cursor back
    have hturn : cyclicID ((devices.nextDeviceID.val + 1) % (maxDeviceID + 1)) (maxDeviceID + 1) =
        cyclicID (devices.nextDeviceID.val + 1) 0 := by
      rw [cyclicID_mod]
      exact Fin.ext (Nat.add_mod_right _ _)
    simp only [hturn]
    rfl
  | some k =>
    simp only [cyclicID_mod]
    rfl

theorem firstFree_eq_some (devices : DeviceSet) (start r k : ℕ) :
    devices.firstFree start r = some k ↔
      k < r ∧ devices.isDeviceIDFree (cyclicID start k) ∧ ∀ j < k, devices.isDeviceIDFree (cyclicID start j) = false := by
  simp only [firstFree, List.find?_range_eq_some, List.mem_range, Bool.not_eq_true']
  exact and_left_comm

/-- the search of a whole turn finds nothing exactly when no ID is free -/
theorem firstFree_eq_none (devices : DeviceSet) (start : ℕ) :
    devices.firstFree start (maxDeviceID + 1) = none ↔ ∀ deviceID, devices.isDeviceIDFree deviceID = false := by
  rw [firstFree, List.find?_range_eq_none]
  constructor
  · intro h deviceID
    -- every ID is the one at `deviceID - start` in the cyclic order from `start`
    have hk := h ((deviceID.val + (maxDeviceID + 1 - start % (maxDeviceID + 1))) % (maxDeviceID + 1))
      (Nat.mod_lt _ (Nat.succ_pos _))
    have hid : cyclicID start ((deviceID.val + (maxDeviceID + 1 - start % (maxDeviceID + 1))) % (maxDeviceID + 1)) =
        deviceID := by
      have := deviceID.isLt
      refine Fin.ext ?_
      simp only [cyclicID_val, maxDeviceID] at this ⊢
      omega
    simpa [hid] using hk
  · intro h k _
    simp [h]

/-! ## What `getNextFreeDeviceID` returns -/

/-- the ID returned is the first free one of the cyclic order after the cursor -/
theorem getNextFreeDeviceID_ok_iff (devices : DeviceSet) (deviceID : DeviceID) :
    devices.getNextFreeDeviceID.2 = .ok deviceID ↔
      ∃ k ≤ maxDeviceID, deviceID = cyclicID (devices.nextDeviceID.val + 1) k ∧ devices.isDeviceIDFree deviceID ∧
        ∀ j < k, devices.isDeviceIDFree (cyclicID (devices.nextDeviceID.val + 1) j) = false := by
  rw [getNextFreeDeviceID_eq]
  cases hf : devices.firstFree (devices.nextDeviceID.val + 1) (maxDeviceID + 1) with
  | none =>
    have hnone := (firstFree_eq_none devices _).mp hf
    simp [hnone]
  | some k =>
    obtain ⟨hk, hfree, hfirst⟩ := (firstFree_eq_some devices _ _ _).mp hf
    simp only [Except.ok.injEq]
    constructor
    · rintro rfl
      exact ⟨k, by omega, rfl, hfree, hfirst⟩
    · rintro ⟨k', -, rfl, hfree', hfirst'⟩
      -- the first free ID of the order is one ID
      obtain rfl : k = k' := by
        rcases Nat.lt_trichotomy k k' with h | h | h
        · rw [hfirst' k h] at hfree
          cases hfree
        · exact h
        · rw [hfirst k' h] at hfree'
          cases hfree'
      rfl

/-- on success the bit of the ID is set and the cursor is on it -/
theorem getNextFreeDeviceID_of_ok (devices : DeviceSet) {deviceID : DeviceID}
    (h : devices.getNextFreeDeviceID.2 = .ok deviceID) :
    devices.getNextFreeDeviceID.1 = { devices.markDeviceIDUsed deviceID with nextDeviceID := deviceID } := by
  rw [getNextFreeDeviceID_eq] at h ⊢
  generalize devices.firstFree (devices.nextDeviceID.val + 1) (maxDeviceID + 1) = found at h ⊢
  cases found with
  | none => simp at h
  | some k =>
    simp only [Except.ok.injEq] at h
    subst h
    rfl

theorem getNextFreeDeviceID_error_iff (devices : DeviceSet) :
    (∃ e, devices.getNextFreeDeviceID.2 = .error e) ↔ ∀ deviceID, devices.isDeviceIDFree deviceID = false := by
  rw [getNextFreeDeviceID_eq, ← firstFree_eq_none devices (devices.nextDeviceID.val + 1)]
  cases devices.firstFree (devices.nextDeviceID.val + 1) (maxDeviceID + 1) <;> simp

/-- on an error the bitmap is as it was -/
theorem getNextFreeDeviceID_of_error (devices : DeviceSet) {e : String}
    (h : devices.getNextFreeDeviceID.2 = .error e) : devices.getNextFreeDeviceID.1.deviceIDMap = devices.deviceIDMap := by
  rw [getNextFreeDeviceID_eq] at h ⊢
  generalize devices.firstFree (devices.nextDeviceID.val + 1) (maxDeviceID + 1) = found at h ⊢
  cases found with
  | none => rfl
  | some k => simp at h

/-- allocation is cyclic first fit over the 24-bit IDs, and the three bitmap operations each act on the bit of their
argument only -/
theorem getNextFreeDeviceID_cyclic_first_fit (devices : DeviceSet) :
    (∀ deviceID, devices.getNextFreeDeviceID.2 = .ok deviceID ↔
      ∃ k ≤ maxDeviceID, deviceID = cyclicID (devices.nextDeviceID.val + 1) k ∧ devices.isDeviceIDFree deviceID ∧
        ∀ j < k, devices.isDeviceIDFree (cyclicID (devices.nextDeviceID.val + 1) j) = false) ∧
    (∀ deviceID, devices.getNextFreeDeviceID.2 = .ok deviceID →
      devices.getNextFreeDeviceID.1 = { devices.markDeviceIDUsed deviceID with nextDeviceID := deviceID }) ∧
    ((∃ e, devices.getNextFreeDeviceID.2 = .error e) ↔ ∀ deviceID, devices.isDeviceIDFree deviceID = false) ∧
    (∀ e, devices.getNextFreeDeviceID.2 = .error e →
      devices.getNextFreeDeviceID.1.deviceIDMap = devices.deviceIDMap) ∧
    (∀ deviceID j, bit (devices.markDeviceIDUsed deviceID).deviceIDMap j =
      (bit devices.deviceIDMap j || decide (j = deviceID.val))) ∧
    (∀ deviceID j, bit (devices.markDeviceIDFree deviceID).deviceIDMap j =
      (bit devices.deviceIDMap j && decide (j ≠ deviceID.val))) ∧
    ∀ deviceID, devices.isDeviceIDFree deviceID = !bit devices.deviceIDMap deviceID.val :=
  ⟨getNextFreeDeviceID_ok_iff devices, fun _ => getNextFreeDeviceID_of_ok devices,
    getNextFreeDeviceID_error_iff devices, fun _ => getNextFreeDeviceID_of_error devices,
    bit_markDeviceIDUsed devices, bit_markDeviceIDFree devices, isDeviceIDFree_eq_bit devices⟩

end DeviceSet

end DockerEngine.Graphdriver.Devmapper
