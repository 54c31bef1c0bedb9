/-
Lean model of `ParseUintList` (`pkg/parsers/parsers.go`), of `isCpusetListAvailable` (`pkg/sysinfo/sysinfo.go`) and of
the cpuset checks of `verifyContainerResources` (`daemon/daemon_unix.go`), which run them on the `CpusetCpus` and
`CpusetMems` of a container's `HostConfig`.

`ParseUintList` reads each item of the comma-separated list with `strconv.Atoi`, and a range `min-max` by the loop
`for i := min; i <= max; i++`. A Go `int` is 64 bits here, and `i++` wraps from `math.MaxInt64` to `math.MinInt64`
(`incr`), so the loop is modelled with a `fuel` that bounds its turns and reports `outOfFuel` when it is spent.
- A range needs one turn for each number in it and one more (`rangeLoop_spec`, `rangeLoop_outOfFuel`): its work grows
  with the value of its bound, not with the length of the text.
- A range that ends at `math.MaxInt64` never ends (`rangeLoop_maxInt`). `isCpusetListAvailable` and the daemon's check
  then loop for ever on an 21-byte API field (`isCpusetListAvailable_hangs`).
- When the check does return, its answer is right. The keys of `ParseUintList` are exactly the integers its items
  stand for (`parseUintList_mem`). An error names an item that does not parse (`parseUintList_error`).
  `isCpusetListAvailable` answers `true` exactly when every integer of the list is available (`isCpusetListAvailable_spec`).
-/
import DockerEngine.Go.Strconv
import DockerEngine.Lib.Prelude

namespace DockerEngine.Parsers

open DockerEngine.Go DockerEngine.Go.Strconv

/-- `math.MaxInt64`, the largest Go `int` on a 64-bit platform -/
def maxInt : ℤ := 2 ^ 63 - 1

/-- a value of a Go `int` -/
def IsInt (i : ℤ) : Prop := -2 ^ 63 ≤ i ∧ i ≤ maxInt

/-- `i++` on a Go `int`, which wraps from `math.MaxInt64` to `math.MinInt64` -/
def incr (i : ℤ) : ℤ := (i + 1).bmod (2 ^ 64)

theorem incr_of_lt {i : ℤ} (h1 : -2 ^ 63 ≤ i) (h2 : i < maxInt) : incr i = i + 1 := by
  unfold incr
  apply Int.bmod_eq_of_le
  · push_cast; omega
  · simp only [maxInt] at h2; push_cast; omega

theorem incr_maxInt : incr maxInt = -2 ^ 63 := by decide

theorem isInt_incr {i : ℤ} : IsInt (incr i) := by
  have hlo := Int.le_bmod (x := i + 1) (m := 2 ^ 64) (by positivity)
  have hhi := Int.bmod_lt (x := i + 1) (m := 2 ^ 64) (by positivity)
  unfold IsInt incr maxInt
  push_cast at hlo hhi ⊢
  omega

/-- what stops a `ParseUintList` -/
inductive ParseError
  /-- `errInvalidFormat`, `invalid format: <val>` -/
  | invalidFormat (val : Text)
  /-- a range loop ran out of fuel -/
  | outOfFuel
  deriving DecidableEq, Repr

/-- `for i := min; i <= max; i++ { availableInts[i] = true }`, over the keys set so far (the keys of the
`map[int]bool`, without repeats); `fuel` bounds the turns -/
def rangeLoop : ℕ → ℤ → ℤ → List ℤ → Option (List ℤ)
  | 0, _, _, _ => none
  | fuel + 1, i, max, m => if i ≤ max then rangeLoop fuel (incr i) max (m.insert i) else some m

/-- one item `r` of `strings.Split(val, ",")` added to `availableInts` -/
def parseItem (fuel : ℕ) (val : Text) (m : List ℤ) (r : Text) : Except ParseError (List ℤ) :=
  -- `strings.Contains(r, "-")`, and then `strings.SplitN(r, "-", 2)`
  match cutRune '-' r with
  | none =>
    match atoi r with
    | .error _ => .error (.invalidFormat val)
    | .ok v => .ok (m.insert v)
  | some (lo, hi) =>
    match atoi lo with
    | .error _ => .error (.invalidFormat val)
    | .ok min =>
      match atoi hi with
      | .error _ => .error (.invalidFormat val)
      | .ok max =>
        if max < min then .error (.invalidFormat val)
        else
          match rangeLoop fuel min max m with
          | some m => .ok m
          | none => .error .outOfFuel

/-- `ParseUintList(val)`: the keys of the map it returns -/
def parseUintList (fuel : ℕ) (val : Text) : Except ParseError (List ℤ) :=
  if val = [] then .ok [] else (split val ',').foldlM (parseItem fuel val) []

/-- `isCpusetListAvailable(provided, available)` -/
def isCpusetListAvailable (fuel : ℕ) (provided available : Text) : Except ParseError Bool := do
  let parsedProvided ← parseUintList fuel provided
  let parsedAvailable ← parseUintList fuel available
  -- the first key of `parsedProvided` that `parsedAvailable` lacks gives `false`
  pure (parsedProvided.all (· ∈ parsedAvailable))

/-! ## The daemon's cpuset checks -/

/-- the cpuset fields of `sysinfo.SysInfo`: whether the kernel has the cpuset cgroup, and its `cpuset.cpus` and
`cpuset.mems` -/
structure CpusetInfo where
  cpuset : Bool
  cpus : Text
  mems : Text

/-- the cpuset fields of `containertypes.Resources` -/
structure CpusetResources where
  cpusetCpus : Text
  cpusetMems : Text

/-- what stops `verifyContainerResources` at its cpuset checks -/
inductive VerifyError
  /-- the error it returns, by its text -/
  | message (text : Text)
  /-- a range loop ran out of fuel -/
  | outOfFuel

/-- the cpuset checks of `verifyContainerResources`: the warnings, and the resources as adjusted or the error -/
def verifyCpuset (fuel : ℕ) (sysInfo : CpusetInfo) (resources : CpusetResources) :
    List Text × Except VerifyError CpusetResources :=
  let (warnings, resources) :=
    if (resources.cpusetCpus ≠ [] ∨ resources.cpusetMems ≠ []) ∧ !sysInfo.cpuset then
      (["Your kernel does not support cpuset. Cpuset discarded.".toList], ⟨[], []⟩)
    else ([], resources)
  match isCpusetListAvailable fuel resources.cpusetCpus sysInfo.cpus with
  | .error .outOfFuel => (warnings, .error .outOfFuel)
  | .error (.invalidFormat _) =>
    (warnings, .error (.message ("Invalid value ".toList ++ resources.cpusetCpus ++ " for cpuset cpus".toList)))
  | .ok false =>
    (warnings, .error (.message ("Requested CPUs are not available - requested ".toList ++ resources.cpusetCpus ++
      ", available: ".toList ++ sysInfo.cpus)))
  | .ok true =>
    match isCpusetListAvailable fuel resources.cpusetMems sysInfo.mems with
    | .error .outOfFuel => (warnings, .error .outOfFuel)
    | .error (.invalidFormat _) =>
      (warnings, .error (.message ("Invalid value ".toList ++ resources.cpusetMems ++ " for cpuset mems".toList)))
    | .ok false =>
      (warnings, .error (.message ("Requested memory nodes are not available - requested ".toList ++
        resources.cpusetMems ++ ", available: ".toList ++ sysInfo.mems)))
    | .ok true => (warnings, .ok resources)

/-! ## The range loop -/

/-- one turn of the loop: `i` is set, and the keys left to set start at `i + 1` -/
theorem mem_insert_or_range {k i max : ℤ} {m : List ℤ} (hle : i ≤ max) :
    (k ∈ m.insert i ∨ i + 1 ≤ k ∧ k ≤ max) ↔ k ∈ m ∨ i ≤ k ∧ k ≤ max := by
  rw [List.mem_insert_iff]
  by_cases hki : k = i
  · subst hki
    exact ⟨fun _ => Or.inr ⟨le_rfl, hle⟩, fun _ => Or.inl (Or.inl rfl)⟩
  · rw [or_iff_right hki]
    exact or_congr_right ⟨fun h => ⟨by omega, h.2⟩, fun h => ⟨by omega, h.2⟩⟩

/-- the loop runs for ever when it counts up to `math.MaxInt64`: `i <= max` holds for every `int` -/
theorem rangeLoop_maxInt (fuel : ℕ) : ∀ {i : ℤ} (m : List ℤ), IsInt i → rangeLoop fuel i maxInt m = none := by
  induction fuel with
  | zero => intro _ _ _; rfl
  | succ fuel ih =>
    intro i m hi
    rw [rangeLoop, if_pos hi.2]
    exact ih _ isInt_incr

/-- below `math.MaxInt64`, the loop sets the keys `min..max` in `max - min + 2` turns -/
theorem rangeLoop_spec {max : ℤ} (hmax : max < maxInt) (fuel : ℕ) :
    ∀ {i : ℤ} (m : List ℤ), -2 ^ 63 ≤ i → i ≤ max + 1 → (max + 1 - i).toNat < fuel →
      ∃ m', rangeLoop fuel i max m = some m' ∧ ∀ k, k ∈ m' ↔ k ∈ m ∨ i ≤ k ∧ k ≤ max := by
  unfold maxInt at hmax
  induction fuel with
  | zero => intro _ _ _ _ h; omega
  | succ fuel ih =>
    intro i m hlo hhi hfuel
    rw [rangeLoop]
    split_ifs with hle
    · rw [incr_of_lt hlo (by unfold maxInt; omega)]
      obtain ⟨m', hrun, hmem⟩ := @ih (i + 1) (m.insert i) (by omega) (by omega) (by omega)
      exact ⟨m', hrun, fun k => (hmem k).trans (mem_insert_or_range hle)⟩
    · exact ⟨m, rfl, fun k => ⟨Or.inl, fun h => h.resolve_right (by omega)⟩⟩

/-- and it needs every one of those turns -/
theorem rangeLoop_outOfFuel {max : ℤ} (hmax : max < maxInt) (fuel : ℕ) :
    ∀ {i : ℤ} (m : List ℤ), -2 ^ 63 ≤ i → i ≤ max + 1 → fuel ≤ (max + 1 - i).toNat → rangeLoop fuel i max m = none := by
  unfold maxInt at hmax
  induction fuel with
  | zero => intro _ _ _ _ _; rfl
  | succ fuel ih =>
    intro i m hlo hhi hfuel
    rw [rangeLoop, if_pos (by omega), incr_of_lt hlo (by unfold maxInt; omega)]
    exact @ih (i + 1) _ (by omega) (by omega) (by omega)

/-- whatever the fuel, a loop from an `int` that returns has set exactly the keys `min..max` -/
theorem rangeLoop_mem {max : ℤ} (hmax : max ≤ maxInt) (fuel : ℕ) :
    ∀ {i : ℤ} {m m' : List ℤ}, IsInt i → rangeLoop fuel i max m = some m' →
      ∀ k, k ∈ m' ↔ k ∈ m ∨ i ≤ k ∧ k ≤ max := by
  induction fuel with
  | zero => intro _ _ _ _ h; cases h
  | succ fuel ih =>
    intro i m m' hi h k
    obtain ⟨hi1, hi2⟩ := hi
    rw [rangeLoop] at h
    split_ifs at h with hle
    · -- `i` cannot be `math.MaxInt64` here: the loop would never return
      have hlt : i < maxInt := by
        rcases lt_or_eq_of_le hi2 with hlt | heq
        · exact hlt
        · rw [heq, show max = maxInt by omega, rangeLoop_maxInt _ _ isInt_incr] at h
          cases h
      rw [incr_of_lt hi1 hlt] at h
      rw [ih ⟨by omega, by omega⟩ h k]
      exact mem_insert_or_range hle
    · cases h
      exact ⟨Or.inl, fun h => h.resolve_right (by omega)⟩

/-! ## `ParseUintList` -/

theorem isInt_of_atoi {s : Text} {v : ℤ} (h : atoi s = .ok v) : IsInt v := by
  obtain ⟨-, -, hv⟩ := atoi_eq_ok_iff.mp h
  unfold IsInt maxInt
  split_ifs at hv <;> omega

/-- the integers an item of the list stands for -/
def ItemDenotes (r : Text) (k : ℤ) : Prop :=
  match cutRune '-' r with
  | none => atoi r = .ok k
  | some (lo, hi) => ∃ min max, atoi lo = .ok min ∧ atoi hi = .ok max ∧ min ≤ k ∧ k ≤ max

/-- the integers a list stands for, as `ParseUintList` reads it -/
def Denotes (val : Text) (k : ℤ) : Prop := ∃ r ∈ split val ',', ItemDenotes r k

/-- an item that parses: an integer, or a range of two whose ends are in order -/
def ItemOK (r : Text) : Prop :=
  match cutRune '-' r with
  | none => ∃ v, atoi r = .ok v
  | some (lo, hi) => ∃ min max, atoi lo = .ok min ∧ atoi hi = .ok max ∧ min ≤ max

theorem parseItem_mem {fuel : ℕ} {val r : Text} {m m' : List ℤ} (h : parseItem fuel val m r = .ok m') :
    ∀ k, k ∈ m' ↔ k ∈ m ∨ ItemDenotes r k := by
  intro k
  unfold parseItem at h
  unfold ItemDenotes
  split at h
  · split at h
    · cases h
    · next v hv =>
      cases h
      rw [List.mem_insert_iff, hv]
      simp [eq_comm, or_comm]
  · split at h
    · cases h
    · next min hmin =>
      split at h
      · cases h
      · next max hmax =>
        split_ifs at h with hlt
        split at h
        · next m'' hrun =>
          cases h
          rw [rangeLoop_mem (isInt_of_atoi hmax).2 fuel (isInt_of_atoi hmin) hrun k]
          simp [hmin, hmax]
        · cases h

/-- an item that parses and whose range, if it is one, ends below `math.MaxInt64` and fits in `fuel` turns -/
def ItemFits (fuel : ℕ) (r : Text) : Prop :=
  match cutRune '-' r with
  | none => ∃ v, atoi r = .ok v
  | some (lo, hi) =>
    ∃ min max, atoi lo = .ok min ∧ atoi hi = .ok max ∧ min ≤ max ∧ max < maxInt ∧ (max + 1 - min).toNat < fuel

theorem parseItem_error {fuel : ℕ} {val r : Text} {m : List ℤ} {e : ParseError}
    (h : parseItem fuel val m r = .error e) : e = .outOfFuel ∨ e = .invalidFormat val ∧ ¬ItemOK r := by
  unfold parseItem at h
  unfold ItemOK
  split at h
  · split at h
    · next he => cases h; exact Or.inr ⟨rfl, fun ⟨v, hv⟩ => by rw [hv] at he; cases he⟩
    · cases h
  · split at h
    · next he => cases h; exact Or.inr ⟨rfl, fun ⟨_, _, hv, _⟩ => by rw [hv] at he; cases he⟩
    · next min hmin =>
      split at h
      · next he => cases h; exact Or.inr ⟨rfl, fun ⟨_, _, _, hv, _⟩ => by rw [hv] at he; cases he⟩
      · next max hmax =>
        split_ifs at h with hlt
        · cases h
          refine Or.inr ⟨rfl, fun ⟨min', max', hmin', hmax', hle⟩ => ?_⟩
          rw [hmin] at hmin'
          rw [hmax] at hmax'
          cases hmin'
          cases hmax'
          omega
        · split at h
          · cases h
          · cases h; exact Or.inl rfl

theorem parseItem_ok {fuel : ℕ} {val r : Text} (m : List ℤ) (h : ItemFits fuel r) :
    ∃ m', parseItem fuel val m r = .ok m' := by
  unfold ItemFits at h
  unfold parseItem
  split
  · next hcut =>
    rw [hcut] at h
    obtain ⟨v, hv⟩ := h
    rw [hv]
    exact ⟨_, rfl⟩
  · next lo hi hcut =>
    rw [hcut] at h
    obtain ⟨min, max, hmin, hmax, hle, hlt, hfuel⟩ := h
    obtain ⟨m', hrun, -⟩ := rangeLoop_spec hlt fuel m (isInt_of_atoi hmin).1 (by omega) (by omega)
    rw [hmin, hmax]
    simp only [if_neg (not_lt.mpr hle), hrun]
    exact ⟨_, rfl⟩

/-! The loop `for _, r := range split`, item after item -/

section Items

variable {fuel : ℕ} {val : Text}

theorem foldlM_parseItem_mem :
    ∀ (rs : List Text) {m m' : List ℤ}, rs.foldlM (parseItem fuel val) m = .ok m' →
      ∀ k, k ∈ m' ↔ k ∈ m ∨ ∃ r ∈ rs, ItemDenotes r k
  | [], m, m', h, k => by cases h; simp
  | r :: rs, m, m', h, k => by
    rw [List.foldlM_cons] at h
    obtain ⟨m1, h1, h2⟩ := except_bind_eq_ok h
    rw [foldlM_parseItem_mem rs h2 k, parseItem_mem h1 k]
    simp [or_assoc]

theorem foldlM_parseItem_error :
    ∀ (rs : List Text) {m : List ℤ} {e : ParseError}, rs.foldlM (parseItem fuel val) m = .error e →
      e = .outOfFuel ∨ e = .invalidFormat val ∧ ∃ r ∈ rs, ¬ItemOK r
  | [], m, e, h => by cases h
  | r :: rs, m, e, h => by
    rw [List.foldlM_cons] at h
    rcases except_bind_eq_error h with h1 | ⟨m1, -, h2⟩
    · rcases parseItem_error h1 with he | ⟨he, hr⟩
      · exact Or.inl he
      · exact Or.inr ⟨he, r, List.mem_cons_self, hr⟩
    · rcases foldlM_parseItem_error rs h2 with he | ⟨he, r', hr', hr⟩
      · exact Or.inl he
      · exact Or.inr ⟨he, r', List.mem_cons_of_mem r hr', hr⟩

theorem foldlM_parseItem_ok :
    ∀ (rs : List Text) (m : List ℤ), (∀ r ∈ rs, ItemFits fuel r) → ∃ m', rs.foldlM (parseItem fuel val) m = .ok m'
  | [], m, _ => ⟨m, rfl⟩
  | r :: rs, m, h => by
    obtain ⟨m1, h1⟩ := @parseItem_ok fuel val r m (h r List.mem_cons_self)
    obtain ⟨m', h2⟩ := foldlM_parseItem_ok rs m1 fun r' hr' => h r' (List.mem_cons_of_mem r hr')
    exact ⟨m', by rw [List.foldlM_cons, h1]; exact h2⟩

end Items

/-- the keys of `ParseUintList` are exactly the integers its items stand for -/
theorem parseUintList_mem {fuel : ℕ} {val : Text} {m : List ℤ} (h : parseUintList fuel val = .ok m) :
    ∀ k, k ∈ m ↔ Denotes val k := by
  intro k
  unfold parseUintList at h
  split_ifs at h with hval
  · -- the empty list, whose one item `""` stands for nothing
    cases h
    subst hval
    simp [Denotes, split, ItemDenotes, cutRune]
  · rw [foldlM_parseItem_mem _ h k]
    simp [Denotes]

/-- an error of `ParseUintList` is a spent fuel, or `errInvalidFormat` for an item that does not parse -/
theorem parseUintList_error {fuel : ℕ} {val : Text} {e : ParseError} (h : parseUintList fuel val = .error e) :
    e = .outOfFuel ∨ e = .invalidFormat val ∧ ∃ r ∈ split val ',', ¬ItemOK r := by
  unfold parseUintList at h
  -- `ParseUintList("")` returns no error
  split_ifs at h
  exact foldlM_parseItem_error _ h

/-- with ranges below `math.MaxInt64` and enough fuel for each, `ParseUintList` returns -/
theorem parseUintList_ok {fuel : ℕ} {val : Text} (h : ∀ r ∈ split val ',', ItemFits fuel r) :
    ∃ m, parseUintList fuel val = .ok m := by
  unfold parseUintList
  split_ifs
  · exact ⟨[], rfl⟩
  · exact foldlM_parseItem_ok _ [] h

/-! ## `isCpusetListAvailable` -/

/-- when the check returns, it answers whether every integer of `provided` is in `available` -/
theorem isCpusetListAvailable_spec {fuel : ℕ} {provided available : Text} {b : Bool}
    (h : isCpusetListAvailable fuel provided available = .ok b) :
    b = true ↔ ∀ k, Denotes provided k → Denotes available k := by
  obtain ⟨p, hp, h⟩ := except_bind_eq_ok h
  obtain ⟨a, ha, h⟩ := except_bind_eq_ok h
  cases h
  rw [List.all_eq_true]
  simp only [decide_eq_true_eq]
  constructor
  · intro hall k hk
    exact (parseUintList_mem ha k).mp (hall k ((parseUintList_mem hp k).mpr hk))
  · intro hsub k hk
    exact (parseUintList_mem ha k).mpr (hsub k ((parseUintList_mem hp k).mp hk))

/-- and it returns when both lists parse, with ranges below `math.MaxInt64` that fit in the fuel -/
theorem isCpusetListAvailable_ok {fuel : ℕ} {provided available : Text}
    (hp : ∀ r ∈ split provided ',', ItemFits fuel r) (ha : ∀ r ∈ split available ',', ItemFits fuel r) :
    ∃ b, isCpusetListAvailable fuel provided available = .ok b := by
  obtain ⟨p, hp⟩ := parseUintList_ok hp
  obtain ⟨a, ha⟩ := parseUintList_ok ha
  exact ⟨_, by rw [isCpusetListAvailable, hp]; simp only [ha]; rfl⟩

/-- `0-9223372036854775807`, the range from 0 to `math.MaxInt64` -/
def maxRange : Text := "0-9223372036854775807".toList

theorem isCpusetListAvailable_hangs :
    (∀ fuel, isCpusetListAvailable fuel maxRange "0".toList = .error .outOfFuel) ∧
      (∀ fuel, (verifyCpuset fuel ⟨true, "0".toList, "0".toList⟩ ⟨maxRange, []⟩).2 = .error .outOfFuel) ∧
      isCpusetListAvailable 2 "0--0".toList "0".toList = .ok true := by
  -- the one item of `maxRange` is the range `0..math.MaxInt64`, whose loop never ends
  have hcut : cutRune '-' maxRange = some ("0".toList, "9223372036854775807".toList) := rfl
  have hlo : atoi "0".toList = .ok 0 := rfl
  have hhi : atoi "9223372036854775807".toList = .ok maxInt := rfl
  have hloop (fuel : ℕ) : parseUintList fuel maxRange = .error .outOfFuel := by
    rw [parseUintList, if_neg (by decide), show split maxRange ',' = [maxRange] from rfl, List.foldlM_cons]
    simp only [parseItem, hcut, hlo, hhi, if_neg (show ¬maxInt < 0 by decide),
      @rangeLoop_maxInt fuel 0 [] ⟨by decide, by decide⟩]
    rfl
  have hhang (fuel : ℕ) : isCpusetListAvailable fuel maxRange "0".toList = .error .outOfFuel := by
    rw [isCpusetListAvailable, hloop]
    rfl
  refine ⟨hhang, fun fuel => ?_, rfl⟩
  -- the kernel has the cpuset cgroup, so the field is checked as it is
  have hkept : ¬((maxRange ≠ [] ∨ ([] : Text) ≠ []) ∧ (!true) = true) := by decide
  simp only [verifyCpuset, hkept, if_false, hhang]

end DockerEngine.Parsers
