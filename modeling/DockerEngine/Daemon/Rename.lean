/-
Lean model of `Daemon.ContainerRename` in `daemon/rename.go`, with `reserveName` and `releaseName` of
`daemon/daemon.go` over the `Registrar` of `Pkg.Registrar`.

The daemon is its containers, each with its ID, its name and whether it runs, and its name index. `GetContainer`
tries the full ID, then the name, then a unique ID prefix (`idIndex`, the `TruncIndex` lookup). `ContainerRename`
reserves the new name, sets it, releases the old one and writes the container to disk; for a running container it
then renames the network sandbox when there is a network controller. `toDisk`, `sandboxByID` and `rename` say which of
these calls succeed. On an error after the reservation the deferred calls put the old name back: the container's name,
`reserveName(ID, oldName)` and `releaseName(newName)`. The events it logs and the files it writes are not modelled.

`containerRename_ok` and `containerRename_error` say what a rename does when the new name, with its `/`, is not the
container's own name, and `wellNamed_containerRename` that such a rename keeps every container's name reserved to it;
`containerRename_same_name` is what it does when it is: the name is released.
-/
import DockerEngine.Pkg.Registrar

namespace DockerEngine.Rename

/-- a container: the fields the rename reads and writes -/
structure Container where
  id : String
  name : String
  running : Bool
  deriving DecidableEq, Repr

/-- the daemon: its containers, its name index, and the lookup of unique ID prefixes of `idIndex` -/
structure Daemon where
  containers : List Container
  nameIndex : Registrar
  idIndex : String → Option String

/-- the results of the calls `ContainerRename` makes after the reservation -/
structure Env where
  /-- `container.ToDisk()` succeeds -/
  toDisk : Bool
  /-- `daemon.netController != nil` -/
  netController : Bool
  /-- `netController.SandboxByID(sid)` succeeds -/
  sandboxByID : Bool
  /-- `sb.Rename(name)` succeeds -/
  rename : Bool

/-- the errors of `ContainerRename` -/
inductive Err
  /-- "Neither old nor new names may be empty" -/
  | emptyName
  /-- "No such container: %s" -/
  | noSuchContainer (name : String)
  /-- "Error when allocating new name: Invalid container name (%s), only [a-zA-Z0-9][a-zA-Z0-9_.-] are allowed" -/
  | invalidName (name : String)
  /-- "Error when allocating new name: Conflict. The name %q is already in use by container %s. ..." -/
  | conflict (name id : String)
  /-- the error of `ToDisk` -/
  | toDisk
  /-- the error of `SandboxByID` -/
  | sandboxByID
  /-- the error of `sb.Rename` -/
  | sandboxRename
  deriving DecidableEq, Repr

/-! ## Names -/

/-- the characters of `[a-zA-Z0-9_.-]` -/
def isNameChar (c : Char) : Bool := c.isAlphanum || c = '_' || c = '.' || c = '-'

/-- `validContainerNamePattern`, `^/?[a-zA-Z0-9][a-zA-Z0-9_.-]+$` -/
def validName (name : String) : Bool :=
  match (if name.front = '/' then name.toList.drop 1 else name.toList) with
  | c :: cs => c.isAlphanum && cs ≠ [] && cs.all isNameChar
  | [] => false

/-- the name with a `/` in front, as `reserveName` writes it -/
def withSlash (name : String) : String := if name.front ≠ '/' then "/" ++ name else name

/-- `daemon.reserveName(id, name)`: the name with its `/` and the name index after it -/
def reserveName (r : Registrar) (id name : String) : Except Err (String × Registrar) :=
  if ¬validName name then .error (.invalidName name)
  else
    match r.reserve (withSlash name) id with
    | (r', none) => .ok (withSlash name, r')
    -- `Reserve` refuses only a name reserved to another key, which `Get` then finds
    | (_, some _) =>
      match r.get (withSlash name) with
      | .ok id' => .error (.conflict (withSlash name) id')
      | .error _ => .error (.conflict (withSlash name) "")

/-- `daemon.releaseName(name)` -/
def releaseName (r : Registrar) (name : String) : Registrar := r.release name

/-- `daemon.containers.Get(id)` -/
def Daemon.get (d : Daemon) (id : String) : Option Container := d.containers.find? (·.id = id)

/-- `daemon.GetByName(name)` -/
def Daemon.getByName (d : Daemon) (name : String) : Option Container :=
  match d.nameIndex.get (withSlash name) with
  | .ok id => d.get id
  | .error _ => none

/-- `daemon.GetContainer(prefixOrName)` -/
def Daemon.getContainer (d : Daemon) (prefixOrName : String) : Option Container :=
  match d.get prefixOrName with
  | some c => some c
  | none =>
    match d.getByName prefixOrName with
    | some c => some c
    | none => (d.idIndex prefixOrName).bind d.get

/-- the containers after the one with ID `id` is given the name `name` -/
def setName (cs : List Container) (id name : String) : List Container :=
  cs.map fun c => if c.id = id then { c with name := name } else c

/-! ## `ContainerRename` -/

/-- the deferred calls of `ContainerRename` after an error: the container `id` gets its old name back, the old name
is reserved again, and the new one released -/
def putBack (d : Daemon) (id oldName newName : String) : Daemon :=
  let idx := match reserveName d.nameIndex id oldName with
    | .ok (_, idx) => idx
    | .error _ => d.nameIndex
  { d with containers := setName d.containers id oldName, nameIndex := releaseName idx newName }

/-- `daemon.ContainerRename(oldName, newName)`: the daemon after it, and the error -/
def containerRename (env : Env) (d : Daemon) (oldName newName : String) : Daemon × Option Err :=
  if oldName = "" ∨ newName = "" then (d, some .emptyName)
  else
    match d.getContainer oldName with
    | none => (d, some (.noSuchContainer oldName))
    | some c =>
      let oldName := c.name
      match reserveName d.nameIndex c.id newName with
      | .error e => (d, some e)
      | .ok (newName, idx) =>
        let renamed : Daemon :=
          { d with containers := setName d.containers c.id newName, nameIndex := releaseName idx oldName }
        if ¬env.toDisk then (putBack renamed c.id oldName newName, some .toDisk)
        else if ¬c.running then (renamed, none)
        else if env.netController ∧ ¬env.sandboxByID then (putBack renamed c.id oldName newName, some .sandboxByID)
        else if env.netController ∧ ¬env.rename then (putBack renamed c.id oldName newName, some .sandboxRename)
        else (renamed, none)

/-! ## Names, reserved and released -/

theorem front_slash_append (n : String) : ("/" ++ n).front = '/' := by
  simp [String.front?_eq]

theorem validName_withSlash (n : String) : validName (withSlash n) = validName n := by
  unfold withSlash
  split_ifs with h
  · unfold validName
    rw [if_pos (front_slash_append n), if_neg h]
    simp
  · rfl

theorem withSlash_withSlash (n : String) : withSlash (withSlash n) = withSlash n := by
  by_cases h : n.front = '/'
  · have hn : withSlash n = n := by rw [withSlash, if_neg (not_not_intro h)]
    rw [hn, hn]
  · have hn : withSlash n = "/" ++ n := by rw [withSlash, if_pos h]
    rw [hn, withSlash, if_neg (not_not_intro (front_slash_append n))]

theorem reserveName_ok {r r' : Registrar} {id name n : String} (h : reserveName r id name = .ok (n, r')) :
    n = withSlash name ∧ r' = (r.reserve (withSlash name) id).1 ∧
      (r.names.lookup (withSlash name) = none ∨ r.names.lookup (withSlash name) = some id) := by
  unfold reserveName at h
  split_ifs at h
  split at h
  · rename_i r'' hres
    cases h
    refine ⟨rfl, by rw [hres], (Registrar.reserve_ok_iff _ _ _).mp (by rw [hres])⟩
  · split at h <;> cases h

theorem reserveName_of_valid {r : Registrar} (id : String) {name : String} (hvalid : validName name)
    (hfree : r.names.lookup (withSlash name) = none ∨ r.names.lookup (withSlash name) = some id) :
    reserveName r id name = .ok (withSlash name, (r.reserve (withSlash name) id).1) := by
  have hres : (r.reserve (withSlash name) id).2 = none := (Registrar.reserve_ok_iff _ _ _).mpr hfree
  unfold reserveName
  rw [if_neg (by simpa using hvalid)]
  rcases hr : r.reserve (withSlash name) id with ⟨r', e⟩
  rw [hr] at hres
  cases hres
  rfl

theorem validName_of_reserveName {r r' : Registrar} {id name n : String} (h : reserveName r id name = .ok (n, r')) :
    validName name := by
  unfold reserveName at h
  split_ifs at h with hv
  · simpa using hv

theorem lookup_reserveName {r r' : Registrar} {id name n : String} (h : reserveName r id name = .ok (n, r'))
    (x : String) : r'.names.lookup x = if x = n then some id else r.names.lookup x := by
  obtain ⟨rfl, rfl, hfree⟩ := reserveName_ok h
  rw [Registrar.lookup_reserve]
  by_cases hx : x = withSlash name
  · subst hx
    rcases hfree with hfree | hfree <;> simp [hfree]
  · simp [hx]

theorem lookup_releaseName (r : Registrar) (name x : String) :
    (releaseName r name).names.lookup x = if x = name then none else r.names.lookup x :=
  Registrar.lookup_release r x name

theorem mem_of_getContainer {d : Daemon} {name : String} {c : Container} (h : d.getContainer name = some c) :
    c ∈ d.containers := by
  have hget : ∀ {id}, d.get id = some c → c ∈ d.containers := fun h => List.mem_of_find?_eq_some h
  unfold Daemon.getContainer at h
  cases hg : d.get name with
  | some c' =>
    rw [hg] at h
    cases h
    exact hget hg
  | none =>
    rw [hg] at h
    cases hn : d.getByName name with
    | some c' =>
      rw [hn] at h
      cases h
      unfold Daemon.getByName at hn
      split at hn
      · exact hget hn
      · cases hn
    | none =>
      rw [hn] at h
      obtain ⟨id, -, hid⟩ := Option.bind_eq_some_iff.mp h
      exact hget hid

theorem setName_setName (cs : List Container) (id n n' : String) :
    setName (setName cs id n) id n' = setName cs id n' := by
  simp only [setName, List.map_map]
  congr 1
  funext c
  by_cases h : c.id = id <;> simp [h]

theorem setName_of_forall {cs : List Container} {id n : String} (h : ∀ c ∈ cs, c.id = id → c.name = n) :
    setName cs id n = cs := by
  unfold setName
  refine (List.map_congr_left fun c hc => ?_).trans (List.map_id cs)
  split_ifs with hid
  · rw [← h c hc hid]
    rfl
  · rfl

theorem ids_setName (cs : List Container) (id n : String) : (setName cs id n).map (·.id) = cs.map (·.id) := by
  simp only [setName, List.map_map]
  congr 1
  funext c
  by_cases h : c.id = id <;> simp [h]

/-! ## Every exit of the rename -/

/-- every exit of `ContainerRename`: before the reservation it changes nothing; after it, it either keeps the
renamed state or runs the deferred calls on it -/
theorem containerRename_cases {env : Env} {d d' : Daemon} {oldName newName : String} {err : Option Err}
    (h : containerRename env d oldName newName = (d', err)) :
    (d' = d ∧ err.isSome ∧ ∀ c n idx, oldName ≠ "" → newName ≠ "" → d.getContainer oldName = some c →
        reserveName d.nameIndex c.id newName ≠ .ok (n, idx)) ∨
      ∃ c n idx, d.getContainer oldName = some c ∧ reserveName d.nameIndex c.id newName = .ok (n, idx) ∧
        ((err = none ∧
            d' = { d with containers := setName d.containers c.id n, nameIndex := releaseName idx c.name }) ∨
          (err.isSome ∧ d' = putBack
            { d with containers := setName d.containers c.id n, nameIndex := releaseName idx c.name } c.id c.name n)) := by
  unfold containerRename at h
  by_cases hempty : oldName = "" ∨ newName = ""
  · rw [if_pos hempty] at h
    cases h
    refine .inl ⟨rfl, rfl, fun c n idx hold hnew _ => ?_⟩
    rcases hempty with hempty | hempty <;> contradiction
  · rw [if_neg hempty] at h
    split at h
    · rename_i hnone
      cases h
      refine .inl ⟨rfl, rfl, fun c n idx _ _ hc => ?_⟩
      rw [hnone] at hc
      cases hc
    · rename_i c hc
      split at h
      · rename_i e hr
        cases h
        refine .inl ⟨rfl, rfl, fun c' n idx _ _ hc' => ?_⟩
        rw [hc] at hc'
        cases hc'
        rw [hr]
        simp
      · rename_i n idx hr
        refine .inr ⟨c, n, idx, hc, hr, ?_⟩
        split_ifs at h <;> cases h <;> simp

theorem lookup_putBack {d : Daemon} (id : String) {oldName : String} (newName : String) (hvalid : validName oldName)
    (hfree : d.nameIndex.names.lookup (withSlash oldName) = none) (x : String) :
    (putBack d id oldName newName).nameIndex.names.lookup x =
      if x = newName then none else if x = withSlash oldName then some id else d.nameIndex.names.lookup x := by
  have hr := reserveName_of_valid id hvalid (.inl hfree)
  simp only [putBack, hr, lookup_releaseName, lookup_reserveName hr]

/-- the daemon's invariant: each container is named by a valid name with its `/`, reserved to its ID, and no two
containers share an ID -/
structure WellNamed (d : Daemon) : Prop where
  reserved : ∀ c ∈ d.containers, d.nameIndex.names.lookup c.name = some c.id
  valid : ∀ c ∈ d.containers, validName c.name
  slash : ∀ c ∈ d.containers, withSlash c.name = c.name
  ids : (d.containers.map (·.id)).Nodup

/-- the containers after the deferred calls: the one with the ID of `c` has its name back -/
theorem containers_putBack {d : Daemon} {c : Container} (hwell : WellNamed d) (hmem : c ∈ d.containers)
    (n : String) (idx : Registrar) :
    (putBack { d with containers := setName d.containers c.id n, nameIndex := idx } c.id c.name n).containers =
      d.containers := by
  rw [putBack, setName_setName]
  -- the IDs are distinct, so the only container with the ID of `c` is `c`
  exact setName_of_forall fun c' hc' hid => by rw [List.inj_on_of_nodup_map hwell.ids hc' hmem hid]

/-- the name index after the deferred calls: the new name is free, and every other name is as before -/
theorem lookup_putBack_renamed {d : Daemon} {c : Container} {newName n : String} {idx : Registrar}
    (hwell : WellNamed d) (hmem : c ∈ d.containers) (hr : reserveName d.nameIndex c.id newName = .ok (n, idx))
    (hne : n ≠ c.name) (x : String) :
    (putBack { d with containers := setName d.containers c.id n, nameIndex := releaseName idx c.name }
        c.id c.name n).nameIndex.names.lookup x = if x = n then none else d.nameIndex.names.lookup x := by
  have hres := hwell.reserved c hmem
  have hslash := hwell.slash c hmem
  -- the old name is free once released, so the deferred reservation takes it again
  have hfree : (releaseName idx c.name).names.lookup (withSlash c.name) = none := by
    rw [hslash, lookup_releaseName, if_pos rfl]
  rw [lookup_putBack c.id _ (hwell.valid c hmem) hfree, hslash, lookup_releaseName, lookup_reserveName hr]
  by_cases hx : x = n
  · rw [if_pos hx, if_pos hx]
  · by_cases hx' : x = c.name
    · rw [if_neg hx, if_pos hx', hx', hres, if_neg (Ne.symm hne)]
    · simp [hx, hx']

/-- a rename that returns nil, to a name that is not the container's own: the container has the new name, which is
reserved to it, its old name is free, and no other name moved -/
theorem containerRename_ok {env : Env} {d d' : Daemon} {oldName newName : String} {c : Container}
    (hc : d.getContainer oldName = some c) (hnew : withSlash newName ≠ c.name)
    (h : containerRename env d oldName newName = (d', none)) :
    d'.containers = setName d.containers c.id (withSlash newName) ∧
      d'.nameIndex.names.lookup (withSlash newName) = some c.id ∧
      d'.nameIndex.names.lookup c.name = none ∧
      ∀ x, x ≠ withSlash newName → x ≠ c.name → d'.nameIndex.names.lookup x = d.nameIndex.names.lookup x := by
  rcases containerRename_cases h with ⟨-, hsome, -⟩ | ⟨c', n, idx, hc', hr, ⟨-, rfl⟩ | ⟨hsome, -⟩⟩
  · cases hsome
  · rw [hc] at hc'
    cases hc'
    obtain ⟨rfl, -, -⟩ := reserveName_ok hr
    refine ⟨rfl, ?_, ?_, fun x hx hx' => ?_⟩
    · simp [lookup_releaseName, lookup_reserveName hr, hnew]
    · simp [lookup_releaseName]
    · simp [lookup_releaseName, lookup_reserveName hr, hx, hx']
  · cases hsome

/-- a rename that fails, on a well-named daemon, to a name not already reserved to the container: the containers
and the name index are as before -/
theorem containerRename_error {env : Env} {d d' : Daemon} {oldName newName : String} {c : Container} {e : Err}
    (hwell : WellNamed d) (hc : d.getContainer oldName = some c)
    (hnew : d.nameIndex.names.lookup (withSlash newName) ≠ some c.id)
    (h : containerRename env d oldName newName = (d', some e)) :
    d'.containers = d.containers ∧ ∀ x, d'.nameIndex.names.lookup x = d.nameIndex.names.lookup x := by
  have hmem := mem_of_getContainer hc
  rcases containerRename_cases h with ⟨rfl, -, -⟩ | ⟨c', n, idx, hc', hr, ⟨hnone, -⟩ | ⟨-, rfl⟩⟩
  · exact ⟨rfl, fun _ => rfl⟩
  · cases hnone
  rw [hc] at hc'
  cases hc'
  obtain ⟨rfl, -, hfree⟩ := reserveName_ok hr
  have hfree : d.nameIndex.names.lookup (withSlash newName) = none := hfree.resolve_right hnew
  have hne : withSlash newName ≠ c.name := fun heq => by
    rw [heq, hwell.reserved c hmem] at hfree
    cases hfree
  refine ⟨containers_putBack hwell hmem _ _, fun x => ?_⟩
  rw [lookup_putBack_renamed hwell hmem hr hne]
  by_cases hx : x = withSlash newName
  · rw [if_pos hx, hx, hfree]
  · rw [if_neg hx]

/-! ## Well-named daemons stay well named -/

/-- a name reserved to one container is not the name of a container with another ID -/
theorem WellNamed.name_ne {d : Daemon} {c c' : Container} (hwell : WellNamed d) (hmem' : c' ∈ d.containers)
    (hid : c'.id ≠ c.id) {x : String}
    (hx : d.nameIndex.names.lookup x = none ∨ d.nameIndex.names.lookup x = some c.id) : c'.name ≠ x := by
  rintro rfl
  rw [hwell.reserved c' hmem'] at hx
  rcases hx with hx | hx
  · cases hx
  · exact hid (Option.some.inj hx)

theorem WellNamed.renamed {d : Daemon} {c : Container} {newName n : String} {idx : Registrar} (hwell : WellNamed d)
    (hmem : c ∈ d.containers) (hr : reserveName d.nameIndex c.id newName = .ok (n, idx)) (hne : n ≠ c.name) :
    WellNamed { d with containers := setName d.containers c.id n, nameIndex := releaseName idx c.name } := by
  obtain ⟨rfl, -, hfree⟩ := reserveName_ok hr
  have hvalid := validName_of_reserveName hr
  refine ⟨fun c₀ hc₀ => ?_, fun c₀ hc₀ => ?_, fun c₀ hc₀ => ?_, by simpa only [ids_setName] using hwell.ids⟩ <;>
    obtain ⟨c', hc', rfl⟩ := List.mem_map.mp hc₀
  · by_cases hid : c'.id = c.id
    · simp [hid, lookup_releaseName, lookup_reserveName hr, hne]
    · -- another container's name is neither the old name nor the new one
      have hold := hwell.name_ne hc' hid (.inr (hwell.reserved c hmem))
      have hnew := hwell.name_ne hc' hid hfree
      rw [if_neg hid, lookup_releaseName, if_neg hold, lookup_reserveName hr, if_neg hnew]
      exact hwell.reserved c' hc'
  · by_cases hid : c'.id = c.id
    · simp [hid, validName_withSlash, hvalid]
    · simpa [hid] using hwell.valid c' hc'
  · by_cases hid : c'.id = c.id
    · simp [hid, withSlash_withSlash]
    · simpa [hid] using hwell.slash c' hc'

theorem WellNamed.putBack {d : Daemon} {c : Container} {newName n : String} {idx : Registrar} (hwell : WellNamed d)
    (hmem : c ∈ d.containers) (hr : reserveName d.nameIndex c.id newName = .ok (n, idx)) (hne : n ≠ c.name) :
    WellNamed (putBack { d with containers := setName d.containers c.id n, nameIndex := releaseName idx c.name }
      c.id c.name n) := by
  obtain ⟨rfl, -, hfree⟩ := reserveName_ok hr
  have hcs := containers_putBack hwell hmem (withSlash newName) (releaseName idx c.name)
  refine ⟨fun c' hc' => ?_, fun c' hc' => ?_, fun c' hc' => ?_, by rw [hcs]; exact hwell.ids⟩
  · rw [hcs] at hc'
    rw [lookup_putBack_renamed hwell hmem hr hne, if_neg, hwell.reserved c' hc']
    -- the new name is free or the container's own, so no other container has it
    by_cases hid : c'.id = c.id
    · rw [List.inj_on_of_nodup_map hwell.ids hc' hmem hid]
      exact Ne.symm hne
    · exact hwell.name_ne hc' hid hfree
  · rw [hcs] at hc'
    exact hwell.valid c' hc'
  · rw [hcs] at hc'
    exact hwell.slash c' hc'

/-- every rename of a container to a name other than its own keeps the daemon well named -/
theorem wellNamed_containerRename (env : Env) {d : Daemon} {oldName newName : String} {c : Container}
    (hwell : WellNamed d) (hc : d.getContainer oldName = some c) (hnew : withSlash newName ≠ c.name) :
    WellNamed (containerRename env d oldName newName).1 := by
  have hmem := mem_of_getContainer hc
  rcases hcr : containerRename env d oldName newName with ⟨d', err⟩
  rcases containerRename_cases hcr with ⟨rfl, -, -⟩ | ⟨c', n, idx, hc', hr, ⟨-, rfl⟩ | ⟨-, rfl⟩⟩
  · exact hwell
  all_goals
    rw [hc] at hc'
    cases hc'
    obtain ⟨rfl, -, -⟩ := reserveName_ok hr
  · exact hwell.renamed hmem hr hnew
  · exact hwell.putBack hmem hr hnew

/-! ## A rename to the container's own name -/

/-- a rename of a container to its own name frees that name, whether it returns nil or an error; it returns nil
once the container is written to disk and is not running -/
theorem containerRename_same_name (env : Env) {d : Daemon} (oldName newName : String) {c : Container}
    (hc : d.getContainer oldName = some c) (hold : oldName ≠ "") (hres : d.nameIndex.names.lookup c.name = some c.id)
    (hvalid : validName newName) (hsame : withSlash newName = c.name) :
    (containerRename env d oldName newName).1.nameIndex.names.lookup c.name = none ∧
      (env.toDisk → c.running = false → (containerRename env d oldName newName).2 = none) := by
  have hnew : newName ≠ "" := by
    rintro rfl
    exact absurd hvalid (by decide)
  -- `Reserve` of a name already reserved to the same ID succeeds and changes nothing
  have hr := reserveName_of_valid c.id hvalid (.inr (hsame ▸ hres))
  refine ⟨?_, fun hdisk hrun => ?_⟩
  · rcases hcr : containerRename env d oldName newName with ⟨d', err⟩
    rcases containerRename_cases hcr with ⟨-, -, hno⟩ | ⟨c', n, idx, hc', hr', ⟨-, rfl⟩ | ⟨-, rfl⟩⟩
    · exact absurd hr (hno c _ _ hold hnew hc)
    all_goals
      rw [hc] at hc'
      cases hc'
      rw [hr] at hr'
      cases hr'
    · simp [lookup_releaseName]
    · simp [putBack, lookup_releaseName, hsame]
  · rw [containerRename, if_neg (by simp [hold, hnew])]
    simp [hc, hr, hdisk, hrun]

/-- the container `c1`, named `/foo` and not running, renamed to `foo`: the rename returns nil and `/foo` is no longer
reserved -/
theorem containerRename_same_name_foo :
    ((containerRename ⟨true, false, true, true⟩
        ⟨[⟨"c1", "/foo", false⟩], (Registrar.newRegistrar.reserve "/foo" "c1").1, fun _ => none⟩ "foo" "foo").1
        |>.nameIndex.names.lookup "/foo") = none ∧
      (containerRename ⟨true, false, true, true⟩
        ⟨[⟨"c1", "/foo", false⟩], (Registrar.newRegistrar.reserve "/foo" "c1").1, fun _ => none⟩ "foo" "foo").2
        = none := by
  have h := containerRename_same_name ⟨true, false, true, true⟩
    (d := ⟨[⟨"c1", "/foo", false⟩], (Registrar.newRegistrar.reserve "/foo" "c1").1, fun _ => none⟩) "foo" "foo"
    (c := ⟨"c1", "/foo", false⟩) (by decide) (by decide) (by decide) (by decide) (by decide)
  exact ⟨h.1, h.2 rfl rfl⟩

end DockerEngine.Rename
