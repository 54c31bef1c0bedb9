/-
Lean model of `docker load` of a legacy archive (`image/tarexport/load.go`): `legacyLoad` and `legacyLoadImage`, which
`Load` runs when the unpacked archive has no `manifest.json`, with the image store in memory.

The unpacked archive is given as what the calls read of it: the image directories `ioutil.ReadDir` lists, each by what
its `json` decodes to and by the diff ID its `layer.tar` registers as, and the outcome of opening and decoding
`repositories`. An image's ID is the digest of its config, and the model keys the store by the config itself.
`legacyLoadImage` loads the parent before the image, in a loop that recurses until `loadedMap` holds the parent, and
fills `loadedMap` only once the image is stored. The fuel bounds the depth of that recursion, and `none` stands for the
stack overflow of a recursion that never ends.

- A directory on a parent cycle, or on a chain into one, is never loaded. Nothing is stored before the recursive call,
  so a call on it goes round the cycle on the same state for ever (`legacyLoadImage_cycle`). `loadedMap` only takes
  names whose parent chain ends (`loadedGrounded_calls`). So the loop over the directories stops with an error before
  such a directory or never returns (`loadDirs_cycle`).
- An acyclic parent graph, given by a rank that falls from each image to its parent, bounds the recursion: with fuel
  twice the highest rank, `legacyLoad` returns (`legacyLoad_isSome`).
- With valid directories whose config fields differ, each directory loads, its parent first. `Good` holds at the end:
  one image per directory, in the order they were loaded, and each with the image of its directory's parent as parent.
  Without a `repositories` file, `legacyLoad` then returns the `Close` of the nil file it failed to open, which is
  `os.ErrInvalid` (`legacyLoad_loads`). The field condition is needed because the store keys an image by its config:
  two directories that make one config share one image.
-/
import DockerEngine.Reference.Parse
import DockerEngine.Lib.Prelude

namespace DockerEngine.Tarexport

open DockerEngine.Go
open scoped List

/-- a layer's `DiffID` -/
abbrev DiffID := Text

/-- what `legacyLoadImage` reads of the `json` of an image directory that `json.Unmarshal` accepts -/
structure LegacyJSON where
  /-- `Parent`, empty where the field is absent -/
  parent : Text
  /-- the entry `v1.HistoryFromConfig` makes of it; none where it refuses the json -/
  history : Option Text
  /-- what `v1.MakeConfigFromV1Config` keeps of it, every field but `id`, `parent`, `Size`, `parent_id`, `layer_id` and
  `throwaway`; none where it refuses the json -/
  body : Option Text
  deriving DecidableEq, Repr

/-- an image directory: its `json` (none where `ReadFile` or `json.Unmarshal` fails) and its `layer.tar`, by the diff ID
`loadLayer` registers it with (none where it cannot be opened or unpacked) -/
structure LegacyDir where
  json : Option LegacyJSON
  layer : Option DiffID
  deriving DecidableEq, Repr

/-- an image config as `MakeConfigFromV1Config` writes it: the kept fields of the json, `rootfs` and `history` -/
structure Config where
  body : Text
  rootFS : List DiffID
  history : List Text
  deriving DecidableEq, Repr

/-- an `image.ID`, the digest of a config: the config itself, digests taken without collisions -/
abbrev ImageID := Config

/-- the errors of `legacyLoad` -/
inductive LoadError
  /-- `ioutil.ReadFile` or `json.Unmarshal` of `<oldID>/json` -/
  | json (oldID : Text)
  /-- `is.Get(parentID)` -/
  | imageGet
  /-- `loadLayer` of `<oldID>/layer.tar` -/
  | loadLayer (oldID : Text)
  /-- `v1.HistoryFromConfig` -/
  | history
  /-- `v1.MakeConfigFromV1Config` -/
  | config
  /-- `is.Create`: "too many non-empty layers in History section" -/
  | tooManyLayers
  /-- `is.SetParent`: "unknown parent image ID" -/
  | unknownParent
  /-- `os.ErrInvalid`, "invalid argument": what `Close` returns for a nil `*os.File` -/
  | invalid
  /-- opening `repositories` fails otherwise than by its absence, or decoding it fails -/
  | repositories
  /-- "invalid target ID: %v" -/
  | invalidTargetID (oldID : Text)
  /-- `reference.WithName` or `reference.WithTag` -/
  | reference (msg : Text)
  deriving DecidableEq, Repr

/-- the image store in memory: the images by config, in the order they were stored, and the `parent` metadata that
`SetParent` writes, newest first -/
structure ImageStore where
  images : List ImageID
  parents : List (ImageID × ImageID)
  deriving DecidableEq, Repr

namespace ImageStore

/-- the empty store -/
def empty : ImageStore := ⟨[], []⟩

/-- `is.Get(id)`: the config stored under `id` -/
def get (s : ImageStore) (id : ImageID) : Except LoadError Config :=
  if id ∈ s.images then .ok id else .error .imageGet

/-- `is.Create(config)`: a config with more non-empty history entries than layers is refused, and a config already
stored keeps its image; every entry `legacyLoadImage` writes is non-empty -/
def create (s : ImageStore) (config : Config) : Except LoadError (ImageStore × ImageID) :=
  if config.rootFS.length < config.history.length then .error .tooManyLayers
  else if config ∈ s.images then .ok (s, config)
  else .ok ({ s with images := s.images ++ [config] }, config)

/-- `is.SetParent(id, parent)` -/
def setParent (s : ImageStore) (id parent : ImageID) : Except LoadError ImageStore :=
  if parent ∈ s.images then .ok { s with parents := (id, parent) :: s.parents } else .error .unknownParent

/-- `is.GetParent(id)` -/
def getParent (s : ImageStore) (id : ImageID) : Option ImageID := s.parents.lookup id

end ImageStore

/-- what `legacyLoad` changes: the image store, `legacyLoadedMap` from old IDs to image IDs (newest first), and the tags
`setLoadedTag` sets (newest first) -/
structure LoadState where
  store : ImageStore
  loaded : List (Text × ImageID)
  tags : List (Reference.Named × ImageID)

/-- the state `legacyLoad` starts in -/
def LoadState.init : LoadState := ⟨.empty, [], []⟩

/-- the config of the image of a directory, on top of its parent's: `is.Get(parentID)`, `loadLayer`,
`HistoryFromConfig` and `MakeConfigFromV1Config`, in turn -/
def imageConfig (store : ImageStore) (oldID : Text) (d : LegacyDir) (img : LegacyJSON) (parentID : Option ImageID) :
    Except LoadError Config := do
  let parent ← match parentID with
    | none => pure none
    | some p => some <$> store.get p
  let diffID ← match d.layer with
    | none => .error (.loadLayer oldID)
    | some l => pure l
  let h ← match img.history with
    | none => .error .history
    | some h => pure h
  let body ← match img.body with
    | none => .error .config
    | some b => pure b
  pure ⟨body, (parent.map Config.rootFS).getD [] ++ [diffID], (parent.map Config.history).getD [] ++ [h]⟩

/-- `is.Create(config)`, `is.SetParent(imgID, parentID)` and `loadedMap[oldID] = imgID` -/
def storeImage (oldID : Text) (config : Config) (parentID : Option ImageID) (st : LoadState) :
    LoadState × Except LoadError Unit :=
  match st.store.create config with
  | .error e => (st, .error e)
  | .ok (store, imgID) =>
    match parentID with
    | none => ({ st with store := store, loaded := (oldID, imgID) :: st.loaded }, .ok ())
    | some p =>
      match store.setParent imgID p with
      | .error e => ({ st with store := store }, .error e)
      | .ok store => ({ st with store := store, loaded := (oldID, imgID) :: st.loaded }, .ok ())

/-- the part of `legacyLoadImage` after the parent is loaded -/
def createImage (oldID : Text) (d : LegacyDir) (img : LegacyJSON) (parentID : Option ImageID) (st : LoadState) :
    LoadState × Except LoadError Unit :=
  match imageConfig st.store oldID d img parentID with
  | .error e => (st, .error e)
  | .ok config => storeImage oldID config parentID st

section Load

variable (dirs : List (Text × LegacyDir))

mutual

/-- `legacyLoadImage(oldID, sourceDir, loadedMap, progressOutput)` -/
def legacyLoadImage : ℕ → Text → LoadState → Option (LoadState × Except LoadError Unit)
  | 0, _, _ => none
  | fuel + 1, oldID, st =>
    if (st.loaded.lookup oldID).isSome then some (st, .ok ())
    else
      match dirs.lookup oldID with
      | none => some (st, .error (.json oldID))
      | some d =>
        match d.json with
        | none => some (st, .error (.json oldID))
        | some img =>
          if img.parent = [] then some (createImage oldID d img none st)
          else
            match parentLoop fuel img.parent st with
            | none => none
            | some (st, .error e) => some (st, .error e)
            | some (st, .ok parentID) => some (createImage oldID d img (some parentID) st)

/-- the `for` loop of `legacyLoadImage`, which loads the parent until `loadedMap` holds it -/
def parentLoop : ℕ → Text → LoadState → Option (LoadState × Except LoadError ImageID)
  | 0, _, _ => none
  | fuel + 1, parent, st =>
    match st.loaded.lookup parent with
    | some parentID => some (st, .ok parentID)
    | none =>
      match legacyLoadImage fuel parent st with
      | none => none
      | some (st, .error e) => some (st, .error e)
      | some (st, .ok ()) => parentLoop fuel parent st

end

/-- the loop of `legacyLoad` over the image directories -/
def loadDirs (fuel : ℕ) : LoadState → List Text → Option (LoadState × Except LoadError Unit)
  | st, [] => some (st, .ok ())
  | st, d :: ds =>
    match legacyLoadImage dirs fuel d st with
    | none => none
    | some (st, .error e) => some (st, .error e)
    | some (st, .ok ()) => loadDirs fuel st ds

end Load

/-- the loops of `legacyLoad` over the repositories file, each entry a name, a tag and an old ID -/
def loadTags (st : LoadState) : List (Text × Text × Text) → LoadState × Except LoadError Unit
  | [] => (st, .ok ())
  | (name, tag, oldID) :: rest =>
    match st.loaded.lookup oldID with
    | none => (st, .error (.invalidTargetID oldID))
    | some imgID =>
      match Reference.withName name >>= fun named => Reference.withTag named tag with
      | .error e => (st, .error (.reference e))
      -- `setLoadedTag` ignores the error of `AddTag`
      | .ok ref => loadTags { st with tags := (ref, imgID) :: st.tags } rest

/-- what opening and decoding `repositories` gives -/
inductive Repositories
  /-- `os.IsNotExist(err)` -/
  | notExist
  /-- another error of `os.Open`, or of `Decode` -/
  | failed
  /-- the decoded map, each repository name with its tags and their old IDs -/
  | decoded (repos : List (Text × List (Text × Text)))
  deriving DecidableEq, Repr

/-- the unpacked archive: its image directories, in the order of `ioutil.ReadDir`, under distinct names, and its
`repositories` file -/
structure LegacyArchive where
  dirs : List (Text × LegacyDir)
  nodup : (dirs.map Prod.fst).Nodup
  repositories : Repositories

/-- `legacyLoad(tmpDir, outStream, progressOutput)` -/
def legacyLoad (fuel : ℕ) (a : LegacyArchive) : Option (LoadState × Except LoadError Unit) :=
  match loadDirs a.dirs fuel .init (a.dirs.map Prod.fst) with
  | none => none
  | some (st, .error e) => some (st, .error e)
  | some (st, .ok ()) =>
    match a.repositories with
    -- `return repositoriesFile.Close()` on the nil file `os.Open` returned
    | .notExist => some (st, .error .invalid)
    | .failed => some (st, .error .repositories)
    | .decoded repos =>
      some (loadTags st (repos.flatMap fun (name, tags) => tags.map fun (tag, oldID) => (name, tag, oldID)))

/-! ## What one call can do -/

theorem storeImage_loaded (x : Text) (c : Config) (pid : Option ImageID) (st : LoadState) :
    ((storeImage x c pid st).1.loaded = st.loaded ∧ ∃ e, (storeImage x c pid st).2 = .error e) ∨
      ∃ id, (storeImage x c pid st).1.loaded = (x, id) :: st.loaded ∧ (storeImage x c pid st).2 = .ok () := by
  unfold storeImage
  split
  · exact Or.inl ⟨rfl, _, rfl⟩
  · split
    · exact Or.inr ⟨_, rfl, rfl⟩
    · split
      · exact Or.inl ⟨rfl, _, rfl⟩
      · exact Or.inr ⟨_, rfl, rfl⟩

/-- the image of a directory is stored and recorded under its name, or nothing is recorded and the call fails -/
theorem createImage_loaded (x : Text) (d : LegacyDir) (img : LegacyJSON) (pid : Option ImageID) (st : LoadState) :
    ((createImage x d img pid st).1.loaded = st.loaded ∧ ∃ e, (createImage x d img pid st).2 = .error e) ∨
      ∃ id, (createImage x d img pid st).1.loaded = (x, id) :: st.loaded ∧ (createImage x d img pid st).2 = .ok () := by
  unfold createImage
  split
  · exact Or.inl ⟨rfl, _, rfl⟩
  · exact storeImage_loaded x _ pid st

section Calls

variable (dirs : List (Text × LegacyDir))

/-- the json `legacyLoadImage` decodes for an old ID -/
def jsonOf (x : Text) : Option LegacyJSON := (dirs.lookup x).bind LegacyDir.json

theorem jsonOf_eq_some {x : Text} {img : LegacyJSON} :
    jsonOf dirs x = some img ↔ ∃ d, dirs.lookup x = some d ∧ d.json = some img :=
  Option.bind_eq_some_iff

/-- what a call of `legacyLoadImage` that returns can have done: nothing, for a name already loaded or without a json;
else, with the parent loaded first where there is one, create the image -/
theorem legacyLoadImage_cases {fuel : ℕ} {x : Text} {st : LoadState} {r : LoadState × Except LoadError Unit}
    (h : legacyLoadImage dirs (fuel + 1) x st = some r) :
    (r.1 = st ∧ (r.2 = .ok () → (st.loaded.lookup x).isSome)) ∨
      ∃ d img, dirs.lookup x = some d ∧ d.json = some img ∧ st.loaded.lookup x = none ∧
        ((img.parent = [] ∧ r = createImage x d img none st) ∨
          (img.parent ≠ [] ∧ ∃ st₁ e, parentLoop dirs fuel img.parent st = some (st₁, .error e) ∧ r = (st₁, .error e)) ∨
          (img.parent ≠ [] ∧ ∃ st₁ pid, parentLoop dirs fuel img.parent st = some (st₁, .ok pid) ∧
            r = createImage x d img (some pid) st₁)) := by
  simp only [legacyLoadImage] at h
  split_ifs at h with hloaded
  · cases h
    exact Or.inl ⟨rfl, fun _ => hloaded⟩
  have hnone : st.loaded.lookup x = none := Option.not_isSome_iff_eq_none.mp hloaded
  split at h
  · cases h
    exact Or.inl ⟨rfl, fun h => by cases h⟩
  · next d hd =>
    split at h
    · cases h
      exact Or.inl ⟨rfl, fun h => by cases h⟩
    · next img hj =>
      refine Or.inr ⟨d, img, hd, hj, hnone, ?_⟩
      split_ifs at h with hroot
      · exact Or.inl ⟨hroot, (Option.some.inj h).symm⟩
      · split at h
        · cases h
        · next st₁ e hp => exact Or.inr (Or.inl ⟨hroot, st₁, e, hp, (Option.some.inj h).symm⟩)
        · next st₁ pid hp => exact Or.inr (Or.inr ⟨hroot, st₁, pid, hp, (Option.some.inj h).symm⟩)

/-- what a turn of the parent loop that returns can have done: find the parent loaded, or load it and go round -/
theorem parentLoop_cases {fuel : ℕ} {p : Text} {st : LoadState} {r : LoadState × Except LoadError ImageID}
    (h : parentLoop dirs (fuel + 1) p st = some r) :
    (∃ pid, st.loaded.lookup p = some pid ∧ r = (st, .ok pid)) ∨
      st.loaded.lookup p = none ∧
        ((∃ st₁ e, legacyLoadImage dirs fuel p st = some (st₁, .error e) ∧ r = (st₁, .error e)) ∨
          ∃ st₁, legacyLoadImage dirs fuel p st = some (st₁, .ok ()) ∧ parentLoop dirs fuel p st₁ = some r) := by
  simp only [parentLoop] at h
  split at h
  · next pid hp => exact Or.inl ⟨pid, hp, (Option.some.inj h).symm⟩
  · next hp =>
    refine Or.inr ⟨hp, ?_⟩
    split at h
    · cases h
    · next st₁ e hl => exact Or.inl ⟨st₁, e, hl, (Option.some.inj h).symm⟩
    · next st₁ hl => exact Or.inr ⟨st₁, hl, h⟩

/-- the loop ends only once `loadedMap` holds the parent, and returns its image -/
theorem parentLoop_ok : ∀ {fuel : ℕ} {p : Text} {st st' : LoadState} {pid : ImageID},
    parentLoop dirs fuel p st = some (st', .ok pid) → st'.loaded.lookup p = some pid
  | 0, _, _, _, _, h => by cases h
  | fuel + 1, p, st, st', pid, h => by
    rcases parentLoop_cases dirs h with ⟨pid', hp, hr⟩ | ⟨-, ⟨st₁, e, -, hr⟩ | ⟨st₁, -, hloop⟩⟩
    · cases hr
      exact hp
    · cases hr
    · exact parentLoop_ok hloop

end Calls

/-! ## Parent cycles -/

section Cycles

variable (dirs : List (Text × LegacyDir))

/-- each name of `S` has a json whose parent is again in `S`: `S` is made of parent cycles and of chains into them -/
def ParentClosed (S : Set Text) : Prop :=
  ∀ x ∈ S, ∃ img, jsonOf dirs x = some img ∧ img.parent ≠ [] ∧ img.parent ∈ S

/-- on a state that holds none of `S`, a call on a name of `S` goes round `S` without storing anything, whatever its
fuel -/
theorem legacyLoadImage_cycle {S : Set Text} (hS : ParentClosed dirs S) {st : LoadState}
    (hst : ∀ x ∈ S, st.loaded.lookup x = none) (fuel : ℕ) :
    (∀ x ∈ S, legacyLoadImage dirs fuel x st = none) ∧ (∀ x ∈ S, parentLoop dirs fuel x st = none) := by
  induction fuel with
  | zero => exact ⟨fun _ _ => rfl, fun _ _ => rfl⟩
  | succ fuel ih =>
    refine ⟨fun x hx => ?_, fun x hx => ?_⟩
    · obtain ⟨img, himg, hne, hp⟩ := hS x hx
      obtain ⟨d, hd, hj⟩ := (jsonOf_eq_some dirs).mp himg
      simp only [legacyLoadImage, hst x hx, Option.isSome_none, Bool.false_eq_true, if_false, hd, hj, if_neg hne,
        ih.2 _ hp]
    · simp only [parentLoop, hst x hx, ih.1 x hx]

/-- the parent chain from `x` ends, at an image without a parent -/
inductive Grounded : Text → Prop
  | root {x : Text} {img : LegacyJSON} : jsonOf dirs x = some img → img.parent = [] → Grounded x
  | child {x : Text} {img : LegacyJSON} : jsonOf dirs x = some img → img.parent ≠ [] → Grounded img.parent →
      Grounded x

theorem Grounded.not_mem {S : Set Text} (hS : ParentClosed dirs S) {x : Text} (h : Grounded dirs x) : x ∉ S := by
  induction h with
  | root himg hroot =>
    intro hx
    obtain ⟨img', himg', hne, -⟩ := hS _ hx
    rw [himg, Option.some.injEq] at himg'
    exact hne (himg' ▸ hroot)
  | child himg _ _ ih =>
    intro hx
    obtain ⟨img', himg', -, hp⟩ := hS _ hx
    rw [himg, Option.some.injEq] at himg'
    exact ih (himg' ▸ hp)

/-- every name `loadedMap` holds has a parent chain that ends -/
def LoadedGrounded (st : LoadState) : Prop := ∀ p ∈ st.loaded, Grounded dirs p.1

theorem LoadedGrounded.lookup_eq_none {S : Set Text} (hS : ParentClosed dirs S) {st : LoadState}
    (h : LoadedGrounded dirs st) : ∀ x ∈ S, st.loaded.lookup x = none := by
  intro x hx
  cases hl : st.loaded.lookup x with
  | none => rfl
  | some id => exact absurd hx ((h _ (mem_of_lookup_eq_some hl)).not_mem dirs hS)

theorem LoadedGrounded.createImage {st : LoadState} (h : LoadedGrounded dirs st) {x : Text} (hx : Grounded dirs x)
    (d : LegacyDir) (img : LegacyJSON) (pid : Option ImageID) :
    LoadedGrounded dirs (Tarexport.createImage x d img pid st).1 := by
  intro p hp
  rcases createImage_loaded x d img pid st with ⟨hl, -⟩ | ⟨id, hl, -⟩
  · rw [hl] at hp
    exact h p hp
  · rw [hl] at hp
    rcases List.mem_cons.mp hp with rfl | hp
    · exact hx
    · exact h p hp

/-- `loadedMap` only ever takes a name once its parent is in it: the calls keep `LoadedGrounded` -/
theorem loadedGrounded_calls (fuel : ℕ) :
    (∀ x st r, legacyLoadImage dirs fuel x st = some r → LoadedGrounded dirs st → LoadedGrounded dirs r.1) ∧
      ∀ p st r, parentLoop dirs fuel p st = some r → LoadedGrounded dirs st → LoadedGrounded dirs r.1 := by
  induction fuel with
  | zero => refine ⟨fun _ _ _ h => ?_, fun _ _ _ h => ?_⟩ <;> cases h
  | succ fuel ih =>
    refine ⟨fun x st r h hst => ?_, fun p st r h hst => ?_⟩
    · rcases legacyLoadImage_cases dirs h with ⟨hr, -⟩ | ⟨d, img, hd, hj, -, hcase⟩
      · rw [hr]
        exact hst
      have himg : jsonOf dirs x = some img := (jsonOf_eq_some dirs).mpr ⟨d, hd, hj⟩
      rcases hcase with ⟨hroot, rfl⟩ | ⟨-, st₁, e, hp, rfl⟩ | ⟨hne, st₁, pid, hp, rfl⟩
      · exact hst.createImage dirs (.root himg hroot) d img none
      · exact ih.2 _ _ _ hp hst
      · -- the parent is in `loadedMap` once the loop ends, so its chain ends
        have hst₁ := ih.2 _ _ _ hp hst
        have hparent := hst₁ _ (mem_of_lookup_eq_some (parentLoop_ok dirs hp))
        exact hst₁.createImage dirs (.child himg hne hparent) d img (some pid)
    · rcases parentLoop_cases dirs h with ⟨pid, -, rfl⟩ | ⟨-, ⟨st₁, e, hl, rfl⟩ | ⟨st₁, hl, hloop⟩⟩
      · exact hst
      · exact ih.1 _ _ _ hl hst
      · exact ih.2 _ _ _ hloop (ih.1 _ _ _ hl hst)

/-- the loop over the directories never gets past a name of `S`: it stops with an error before, or recurses for ever
there -/
theorem loadDirs_cycle {S : Set Text} (hS : ParentClosed dirs S) (fuel : ℕ) :
    ∀ (ds : List Text) (st : LoadState), LoadedGrounded dirs st → (∃ x ∈ ds, x ∈ S) →
      loadDirs dirs fuel st ds = none ∨ ∃ st' e, loadDirs dirs fuel st ds = some (st', .error e)
  | [], _, _, ⟨_, hx, _⟩ => absurd hx List.not_mem_nil
  | d :: ds, st, hst, hex => by
    by_cases hd : d ∈ S
    · left
      simp only [loadDirs, (legacyLoadImage_cycle dirs hS (hst.lookup_eq_none dirs hS) fuel).1 d hd]
    have hex' : ∃ x ∈ ds, x ∈ S := by
      obtain ⟨x, hx, hxS⟩ := hex
      rcases List.mem_cons.mp hx with rfl | hx
      · exact absurd hxS hd
      · exact ⟨x, hx, hxS⟩
    simp only [loadDirs]
    split
    · exact Or.inl rfl
    · exact Or.inr ⟨_, _, rfl⟩
    · next st₁ hl => exact loadDirs_cycle hS fuel ds st₁ ((loadedGrounded_calls dirs fuel).1 _ _ _ hl hst) hex'

end Cycles

/-! ## An acyclic parent graph -/

section Acyclic

variable (dirs : List (Text × LegacyDir))

theorem createImage_ok {x : Text} {d : LegacyDir} {img : LegacyJSON} {pid : Option ImageID} {st st' : LoadState}
    (h : createImage x d img pid st = (st', .ok ())) : (st'.loaded.lookup x).isSome := by
  rcases createImage_loaded x d img pid st with ⟨-, e, he⟩ | ⟨id, hl, -⟩
  · rw [h] at he
    cases he
  · rw [h] at hl
    rw [show st'.loaded = (x, id) :: st.loaded from hl, List.lookup_cons_self]
    rfl

/-- a call that loads its name leaves it in `loadedMap` -/
theorem legacyLoadImage_ok {fuel : ℕ} {x : Text} {st st' : LoadState}
    (h : legacyLoadImage dirs fuel x st = some (st', .ok ())) : (st'.loaded.lookup x).isSome := by
  cases fuel with
  | zero => cases h
  | succ fuel =>
    rcases legacyLoadImage_cases dirs h with ⟨hr, hok⟩ | ⟨d, img, -, -, -, hcase⟩
    · cases hr
      exact hok rfl
    rcases hcase with ⟨-, hr⟩ | ⟨-, st₁, e, -, hr⟩ | ⟨-, st₁, pid, -, hr⟩
    · exact createImage_ok hr.symm
    · cases hr
    · exact createImage_ok hr.symm

/-- the parent loop returns once the call on the parent does: the turn after a load finds the parent loaded -/
theorem parentLoop_isSome {fuel : ℕ} {p : Text} {st : LoadState} (h : (legacyLoadImage dirs (fuel + 1) p st).isSome) :
    (parentLoop dirs (fuel + 2) p st).isSome := by
  obtain ⟨⟨st₁, r⟩, hr⟩ := Option.isSome_iff_exists.mp h
  simp only [parentLoop]
  split
  · rfl
  rw [hr]
  cases r with
  | error e => rfl
  | ok u =>
    obtain ⟨pid, hpid⟩ := Option.isSome_iff_exists.mp (legacyLoadImage_ok dirs hr)
    simp only [hpid, Option.isSome_some]

/-- once the call on the parent loads it, the parent loop returns the state of that call and the parent's image -/
theorem parentLoop_of_ok {fuel : ℕ} {p : Text} {st st₁ : LoadState}
    (h : legacyLoadImage dirs (fuel + 1) p st = some (st₁, .ok ())) :
    ∃ pid, st₁.loaded.lookup p = some pid ∧ parentLoop dirs (fuel + 2) p st = some (st₁, .ok pid) := by
  obtain ⟨pid, hpid⟩ := Option.isSome_iff_exists.mp (legacyLoadImage_ok dirs h)
  refine ⟨pid, hpid, ?_⟩
  simp only [parentLoop]
  split
  · next pid' hp =>
    -- a parent loaded already: the call changed nothing
    rcases legacyLoadImage_cases dirs h with ⟨hr, -⟩ | ⟨-, -, -, -, hnone, -⟩
    · cases hr
      rw [hp] at hpid
      cases hpid
      rfl
    · rw [hp] at hnone
      cases hnone
  · rw [h]
    simp only [hpid]

/-- a rank that falls from each image directory to its parent: the parent graph has no cycle -/
def Ranked (rank : Text → ℕ) : Prop :=
  ∀ x img, jsonOf dirs x = some img → img.parent ≠ [] → rank img.parent < rank x

/-- on an acyclic parent graph a call returns once its fuel is twice the rank of its name -/
theorem legacyLoadImage_isSome {rank : Text → ℕ} (hrank : Ranked dirs rank) (fuel : ℕ) :
    ∀ x st, 2 * rank x + 2 ≤ fuel → (legacyLoadImage dirs fuel x st).isSome := by
  induction fuel using Nat.strong_induction_on with
  | _ fuel ih =>
    intro x st hfuel
    obtain ⟨f, rfl⟩ : ∃ f, fuel = f + 1 := ⟨fuel - 1, by omega⟩
    simp only [legacyLoadImage]
    split_ifs with hloaded
    · rfl
    split
    · rfl
    next d hd =>
    split
    · rfl
    next img hj =>
    split_ifs with hroot
    · rfl
    -- the parent's rank is lower, so the call on it returns within the loop's fuel
    have hlt := hrank x img ((jsonOf_eq_some dirs).mpr ⟨d, hd, hj⟩) hroot
    obtain ⟨g, rfl⟩ : ∃ g, f = g + 2 := ⟨f - 2, by omega⟩
    obtain ⟨⟨st₁, r⟩, hr⟩ :=
      Option.isSome_iff_exists.mp (parentLoop_isSome dirs (ih (g + 1) (by omega) img.parent st (by omega)))
    rw [hr]
    cases r <;> rfl

/-- the loop over the directories returns -/
theorem loadDirs_isSome {rank : Text → ℕ} (hrank : Ranked dirs rank) (fuel : ℕ) :
    ∀ (ds : List Text) (st : LoadState), (∀ x ∈ ds, 2 * rank x + 2 ≤ fuel) → (loadDirs dirs fuel st ds).isSome
  | [], _, _ => rfl
  | d :: ds, st, hfuel => by
    obtain ⟨⟨st₁, r⟩, hr⟩ :=
      Option.isSome_iff_exists.mp (legacyLoadImage_isSome dirs hrank fuel d st (hfuel d List.mem_cons_self))
    simp only [loadDirs, hr]
    cases r with
    | error e => rfl
    | ok u => exact loadDirs_isSome hrank fuel ds st₁ fun x hx => hfuel x (List.mem_cons_of_mem d hx)

end Acyclic

/-- `docker load` of a legacy archive whose parent graph is acyclic returns, with a fuel twice the highest rank -/
theorem legacyLoad_isSome (a : LegacyArchive) {rank : Text → ℕ} (hrank : Ranked a.dirs rank) {fuel : ℕ}
    (hfuel : ∀ x ∈ a.dirs.map Prod.fst, 2 * rank x + 2 ≤ fuel) : (legacyLoad fuel a).isSome := by
  obtain ⟨⟨st, r⟩, hr⟩ := Option.isSome_iff_exists.mp (loadDirs_isSome a.dirs hrank fuel _ .init hfuel)
  unfold legacyLoad
  rw [hr]
  cases r with
  | error e => rfl
  | ok u => cases a.repositories <;> rfl

/-! ## Valid directories -/

/-- storing a config the store lacks, with a parent it holds: the image is added at the end and recorded under its
name -/
theorem storeImage_fresh {x : Text} {c : Config} {pid : Option ImageID} {st : LoadState}
    (hlen : c.rootFS.length = c.history.length) (hc : c ∉ st.store.images) (hpid : ∀ p ∈ pid, p ∈ st.store.images) :
    storeImage x c pid st =
      (⟨⟨st.store.images ++ [c], (pid.map fun p => (c, p)).toList ++ st.store.parents⟩, (x, c) :: st.loaded, st.tags⟩,
        .ok ()) := by
  have hcreate : st.store.create c = .ok (⟨st.store.images ++ [c], st.store.parents⟩, c) := by
    simp [ImageStore.create, hlen, hc]
  unfold storeImage
  rw [hcreate]
  cases pid with
  | none => rfl
  | some p =>
    have hset : ImageStore.setParent ⟨st.store.images ++ [c], st.store.parents⟩ c p =
        .ok ⟨st.store.images ++ [c], (c, p) :: st.store.parents⟩ := by
      simp [ImageStore.setParent, hpid p rfl]
    simp only [hset]
    rfl

theorem lookup_parents_ne {c k : ImageID} (pid : Option ImageID) (parents : List (ImageID × ImageID)) (h : k ≠ c) :
    ((pid.map fun p => (c, p)).toList ++ parents).lookup k = parents.lookup k := by
  cases pid <;> simp [List.lookup_cons, beq_eq_false_iff_ne.mpr h]

theorem lookup_parents_self {c : ImageID} (pid : Option ImageID) {parents : List (ImageID × ImageID)}
    (h : parents.lookup c = none) : ((pid.map fun p => (c, p)).toList ++ parents).lookup c = pid := by
  cases pid <;> simp [h]

section Valid

variable (dirs : List (Text × LegacyDir))

/-- every directory has a json that `HistoryFromConfig` and `MakeConfigFromV1Config` accept and a layer that registers,
and its parent, where it names one, is a directory -/
def Valid : Prop :=
  ∀ x d, dirs.lookup x = some d → ∃ img h body l, d.json = some img ∧ img.history = some h ∧ img.body = some body ∧
    d.layer = some l ∧ (img.parent ≠ [] → (dirs.lookup img.parent).isSome)

/-- distinct directories keep distinct fields in their configs -/
def BodiesDistinct : Prop :=
  ∀ x y img img' body, jsonOf dirs x = some img → jsonOf dirs y = some img' → img.body = some body →
    img'.body = some body → x = y

/-- what `legacyLoad` builds from valid directories: one image for each name of `loadedMap`, stored in the order the
names were loaded, each with the config fields of its directory and a history as long as its layers, and with the
image of its directory's parent as parent -/
structure Good (st : LoadState) : Prop where
  images_eq : st.store.images = (st.loaded.map Prod.snd).reverse
  images_nodup : st.store.images.Nodup
  keys_nodup : (st.loaded.map Prod.fst).Nodup
  lengths : ∀ c ∈ st.store.images, c.rootFS.length = c.history.length
  parents_stored : ∀ q ∈ st.store.parents, q.1 ∈ st.store.images
  loaded_ok : ∀ p ∈ st.loaded, ∃ img, jsonOf dirs p.1 = some img ∧ img.body = some p.2.body ∧
    (img.parent = [] → st.store.getParent p.2 = none) ∧
    (img.parent ≠ [] → ∃ pid, st.loaded.lookup img.parent = some pid ∧ st.store.getParent p.2 = some pid)

theorem good_init : Good dirs .init :=
  ⟨rfl, List.nodup_nil, List.nodup_nil, fun _ h => absurd h List.not_mem_nil, fun _ h => absurd h List.not_mem_nil,
    fun _ h => absurd h List.not_mem_nil⟩

theorem Good.mem_images {st : LoadState} (hst : Good dirs st) {x : Text} {id : ImageID}
    (h : st.loaded.lookup x = some id) : id ∈ st.store.images := by
  rw [hst.images_eq, List.mem_reverse]
  exact List.mem_map_of_mem (f := Prod.snd) (mem_of_lookup_eq_some h)

/-- the store holds no image with the config fields of a directory not yet loaded -/
theorem Good.fresh {st : LoadState} (hst : Good dirs st) (hbody : BodiesDistinct dirs) {x : Text} {img : LegacyJSON}
    {c : Config} (hx : st.loaded.lookup x = none) (himg : jsonOf dirs x = some img) (hc : img.body = some c.body) :
    c ∉ st.store.images := by
  intro hmem
  rw [hst.images_eq, List.mem_reverse, List.mem_map] at hmem
  obtain ⟨p, hp, rfl⟩ := hmem
  obtain ⟨img', himg', hbody', -⟩ := hst.loaded_ok p hp
  have hxp : x = p.1 := hbody x p.1 img img' _ himg himg' hc hbody'
  rw [List.lookup_eq_none_iff] at hx
  have hne : x ≠ p.1 := by simpa using hx p hp
  exact hne hxp

/-- storing the image of a directory not yet loaded, with the image of its directory's parent as parent, keeps
`Good` -/
theorem Good.store {st : LoadState} (hst : Good dirs st) (hbody : BodiesDistinct dirs) {x : Text} {img : LegacyJSON}
    {c : Config} {pid : Option ImageID} (hx : st.loaded.lookup x = none) (himg : jsonOf dirs x = some img)
    (hc : img.body = some c.body) (hlen : c.rootFS.length = c.history.length)
    (hpid : (img.parent = [] ∧ pid = none) ∨
      (img.parent ≠ [] ∧ ∃ p, st.loaded.lookup img.parent = some p ∧ pid = some p)) :
    Good dirs
      ⟨⟨st.store.images ++ [c], (pid.map fun p => (c, p)).toList ++ st.store.parents⟩, (x, c) :: st.loaded, st.tags⟩ := by
  have hfresh := hst.fresh dirs hbody hx himg hc
  -- the new image is no key of the parent metadata, and no image of an old name
  have hcpar : st.store.parents.lookup c = none := by
    rw [List.lookup_eq_none_iff]
    intro q hq
    have hq₁ := hst.parents_stored q hq
    simp only [bne_iff_ne, ne_eq]
    rintro rfl
    exact hfresh hq₁
  have hold : ∀ p ∈ st.loaded, p.2 ≠ c := by
    intro p hp h
    apply hfresh
    rw [← h, hst.images_eq, List.mem_reverse]
    exact List.mem_map_of_mem hp
  -- an old name keeps its image, the new one being no old name
  have hlookup : ∀ y v, st.loaded.lookup y = some v → ((x, c) :: st.loaded).lookup y = some v := by
    intro y v hy
    have hyx : y ≠ x := by
      rintro rfl
      rw [hx] at hy
      cases hy
    simp [List.lookup_cons, beq_eq_false_iff_ne.mpr hyx, hy]
  refine ⟨?_, ?_, ?_, ?_, ?_, ?_⟩
  · simp only [hst.images_eq, List.map_cons, List.reverse_cons]
  · exact (List.perm_append_singleton c _).nodup_iff.mpr (List.nodup_cons.mpr ⟨hfresh, hst.images_nodup⟩)
  · exact List.nodup_cons.mpr ⟨not_mem_keys_of_lookup_eq_none hx, hst.keys_nodup⟩
  · intro c' hc'
    rcases List.mem_append.mp hc' with hc' | hc'
    · exact hst.lengths c' hc'
    · rw [List.mem_singleton.mp hc']
      exact hlen
  · intro q hq
    rcases List.mem_append.mp hq with hq | hq
    · cases pid with
      | none => cases hq
      | some p =>
        rw [show q = (c, p) by simpa using hq]
        exact List.mem_append_right _ (List.mem_singleton_self c)
    · exact List.mem_append_left _ (hst.parents_stored q hq)
  · rintro p (_ | ⟨_, hp⟩)
    · -- the new image: its parent metadata is `pid`
      refine ⟨img, himg, hc, fun hroot => ?_, fun hne => ?_⟩
      · show ((pid.map fun p => (c, p)).toList ++ st.store.parents).lookup c = none
        rw [lookup_parents_self pid hcpar]
        rcases hpid with ⟨-, rfl⟩ | ⟨hne, -⟩
        · rfl
        · exact absurd hroot hne
      · rcases hpid with ⟨hroot, -⟩ | ⟨-, p, hp, rfl⟩
        · exact absurd hroot hne
        · exact ⟨p, hlookup _ _ hp, lookup_parents_self _ hcpar⟩
    · -- an old image: its parent metadata and its parent's name are as they were
      obtain ⟨img', himg', hc', hroot, hchild⟩ := hst.loaded_ok p hp
      have hpar : ((pid.map fun q => (c, q)).toList ++ st.store.parents).lookup p.2 = st.store.parents.lookup p.2 :=
        lookup_parents_ne pid _ (hold p hp)
      refine ⟨img', himg', hc', fun h => hpar.trans (hroot h), fun h => ?_⟩
      obtain ⟨q, hq, hqp⟩ := hchild h
      exact ⟨q, hlookup _ _ hq, hpar.trans hqp⟩

theorem imageConfig_eq (store : ImageStore) (x : Text) {d : LegacyDir} {img : LegacyJSON} {h body l : Text}
    (pid : Option ImageID) (hh : img.history = some h) (hb : img.body = some body) (hl : d.layer = some l)
    (hpid : ∀ p ∈ pid, p ∈ store.images) :
    imageConfig store x d img pid =
      .ok ⟨body, (pid.map Config.rootFS).getD [] ++ [l], (pid.map Config.history).getD [] ++ [h]⟩ := by
  cases pid with
  | none =>
    simp only [imageConfig, hh, hb, hl]
    rfl
  | some p => simp [imageConfig, ImageStore.get, hpid p rfl, hh, hb, hl]

/-- the image of a valid directory not yet loaded, on the image of its parent, is stored and recorded under its name,
and `Good` holds after -/
theorem Good.createImage {st : LoadState} (hst : Good dirs st) (hbody : BodiesDistinct dirs) {x : Text}
    {d : LegacyDir} {img : LegacyJSON} {h body l : Text} (hx : st.loaded.lookup x = none)
    (hd : dirs.lookup x = some d) (hj : d.json = some img) (hh : img.history = some h) (hb : img.body = some body)
    (hl : d.layer = some l) {pid : Option ImageID}
    (hpid : (img.parent = [] ∧ pid = none) ∨
      (img.parent ≠ [] ∧ ∃ p, st.loaded.lookup img.parent = some p ∧ pid = some p)) :
    ∃ st' c, Tarexport.createImage x d img pid st = (st', .ok ()) ∧ Good dirs st' ∧
      st'.loaded = (x, c) :: st.loaded := by
  have himg : jsonOf dirs x = some img := (jsonOf_eq_some dirs).mpr ⟨d, hd, hj⟩
  have hpidmem : ∀ p ∈ pid, p ∈ st.store.images := by
    intro p hp
    rcases hpid with ⟨-, rfl⟩ | ⟨-, q, hq, rfl⟩
    · cases hp
    · cases hp
      exact hst.mem_images dirs hq
  set c : Config := ⟨body, (pid.map Config.rootFS).getD [] ++ [l], (pid.map Config.history).getD [] ++ [h]⟩
  -- the parent's image has as many history entries as layers, and each side gains one
  have hlen : c.rootFS.length = c.history.length := by
    cases pid with
    | none => simp [c]
    | some p => simp [c, hst.lengths p (hpidmem p rfl)]
  refine ⟨_, c, ?_, hst.store dirs hbody hx himg hb hlen hpid, rfl⟩
  unfold Tarexport.createImage
  rw [imageConfig_eq st.store x pid hh hb hl hpidmem]
  exact storeImage_fresh hlen (hst.fresh dirs hbody hx himg hb) hpidmem

end Valid

section Loads

variable (dirs : List (Text × LegacyDir)) (hvalid : Valid dirs) (hbody : BodiesDistinct dirs) {rank : Text → ℕ}
  (hrank : Ranked dirs rank)
include hvalid hbody hrank

/-- on valid directories with an acyclic parent graph, a call with fuel twice the rank of its name loads it, its parents
first, and adds to `loadedMap` only names of rank up to its own -/
theorem legacyLoadImage_loads (fuel : ℕ) :
    ∀ x st, Good dirs st → (dirs.lookup x).isSome → 2 * rank x + 2 ≤ fuel →
      ∃ st', legacyLoadImage dirs fuel x st = some (st', .ok ()) ∧ Good dirs st' ∧
        ∃ new, st'.loaded = new ++ st.loaded ∧ ∀ q ∈ new, rank q.1 ≤ rank x := by
  induction fuel using Nat.strong_induction_on with
  | _ fuel ih =>
    intro x st hst hx hfuel
    obtain ⟨f, rfl⟩ : ∃ f, fuel = f + 1 := ⟨fuel - 1, by omega⟩
    obtain ⟨d, hd⟩ := Option.isSome_iff_exists.mp hx
    obtain ⟨img, h, body, l, hj, hh, hb, hl, hpdir⟩ := hvalid x d hd
    by_cases hloaded : (st.loaded.lookup x).isSome
    · refine ⟨st, ?_, hst, [], rfl, fun _ hq => absurd hq List.not_mem_nil⟩
      simp only [legacyLoadImage, hloaded, if_true]
    have hnone : st.loaded.lookup x = none := Option.not_isSome_iff_eq_none.mp hloaded
    by_cases hroot : img.parent = []
    · obtain ⟨st', c, hcreate, hgood, hnew⟩ := hst.createImage dirs hbody hnone hd hj hh hb hl (Or.inl ⟨hroot, rfl⟩)
      refine ⟨st', ?_, hgood, [(x, c)], hnew, ?_⟩
      · simp only [legacyLoadImage, hloaded, Bool.false_eq_true, if_false, hd, hj, if_pos hroot, hcreate]
      · intro q hq
        rw [List.mem_singleton.mp hq]
    -- the parent first: its rank is lower, so the fuel left covers it
    have hlt := hrank x img ((jsonOf_eq_some dirs).mpr ⟨d, hd, hj⟩) hroot
    obtain ⟨g, rfl⟩ : ∃ g, f = g + 2 := ⟨f - 2, by omega⟩
    obtain ⟨st₁, hp, hgood₁, new₁, hnew₁, hrank₁⟩ :=
      ih (g + 1) (by omega) img.parent st hst (hpdir hroot) (by omega)
    obtain ⟨pid, hpid, hloop⟩ := parentLoop_of_ok dirs hp
    -- what loading the parent added has a lower rank than `x`, so `x` is still not loaded
    have hnone₁ : st₁.loaded.lookup x = none := by
      rw [hnew₁, List.lookup_append, hnone, Option.or_none, List.lookup_eq_none_iff]
      intro q hq
      have hq' := hrank₁ q hq
      simp only [bne_iff_ne, ne_eq]
      rintro rfl
      omega
    obtain ⟨st', c, hcreate, hgood, hnew⟩ :=
      hgood₁.createImage dirs hbody hnone₁ hd hj hh hb hl (Or.inr ⟨hroot, pid, hpid, rfl⟩)
    refine ⟨st', ?_, hgood, (x, c) :: new₁, by rw [hnew, hnew₁]; rfl, ?_⟩
    · simp only [legacyLoadImage, hloaded, Bool.false_eq_true, if_false, hd, hj, if_neg hroot, hloop, hcreate]
    · rintro q (_ | ⟨_, hq⟩)
      · exact le_rfl
      · exact (hrank₁ q hq).trans hlt.le

/-- the loop over valid directories loads each of them -/
theorem loadDirs_loads (fuel : ℕ) :
    ∀ (ds : List Text) (st : LoadState), Good dirs st → (∀ x ∈ ds, (dirs.lookup x).isSome ∧ 2 * rank x + 2 ≤ fuel) →
      ∃ st', loadDirs dirs fuel st ds = some (st', .ok ()) ∧ Good dirs st' ∧ st.loaded <:+ st'.loaded ∧
        ∀ x ∈ ds, (st'.loaded.lookup x).isSome
  | [], st, hst, _ => ⟨st, rfl, hst, List.suffix_refl _, fun _ h => absurd h List.not_mem_nil⟩
  | x :: ds, st, hst, hds => by
    obtain ⟨hx, hfuel⟩ := hds x List.mem_cons_self
    obtain ⟨st₁, hcall, hgood₁, new, hnew, -⟩ := legacyLoadImage_loads dirs hvalid hbody hrank fuel x st hst hx hfuel
    obtain ⟨st', hloop, hgood, hsuf, hall⟩ :=
      loadDirs_loads fuel ds st₁ hgood₁ fun y hy => hds y (List.mem_cons_of_mem x hy)
    refine ⟨st', ?_, hgood, ?_, ?_⟩
    · simp only [loadDirs, hcall, hloop]
    · rw [hnew] at hsuf
      exact (List.suffix_append new st.loaded).trans hsuf
    · rintro y (_ | ⟨_, hy⟩)
      · -- loaded by its own call, and kept since
        exact hsuf.sublist.lookup_isSome (legacyLoadImage_ok dirs hcall)
      · exact hall y hy

end Loads

/-- `docker load` of a legacy archive of valid directories with an acyclic parent graph and no `repositories` file
stores one image for each directory, with the image of its directory's parent as parent, and returns `os.ErrInvalid` -/
theorem legacyLoad_loads (a : LegacyArchive) (hvalid : Valid a.dirs) (hbody : BodiesDistinct a.dirs)
    {rank : Text → ℕ} (hrank : Ranked a.dirs rank) {fuel : ℕ} (hfuel : ∀ x ∈ a.dirs.map Prod.fst, 2 * rank x + 2 ≤ fuel)
    (hrepo : a.repositories = .notExist) :
    ∃ st, legacyLoad fuel a = some (st, .error .invalid) ∧ Good a.dirs st ∧
      st.loaded.map Prod.fst ~ a.dirs.map Prod.fst := by
  have hds : ∀ x ∈ a.dirs.map Prod.fst, (a.dirs.lookup x).isSome ∧ 2 * rank x + 2 ≤ fuel := by
    intro x hx
    refine ⟨?_, hfuel x hx⟩
    obtain ⟨p, hp, rfl⟩ := List.mem_map.mp hx
    exact List.lookup_isSome_iff.mpr ⟨p, hp, beq_self_eq_true _⟩
  obtain ⟨st, hloop, hgood, -, hall⟩ := loadDirs_loads a.dirs hvalid hbody hrank fuel _ .init (good_init a.dirs) hds
  refine ⟨st, by simp only [legacyLoad, hloop, hrepo], hgood, ?_⟩
  -- both lists are without duplicates and hold the same names
  refine (List.perm_ext_iff_of_nodup hgood.keys_nodup a.nodup).mpr fun x => ⟨fun hx => ?_, fun hx => ?_⟩
  · obtain ⟨p, hp, rfl⟩ := List.mem_map.mp hx
    obtain ⟨img, himg, -⟩ := hgood.loaded_ok p hp
    obtain ⟨d, hd, -⟩ := (jsonOf_eq_some a.dirs).mp himg
    exact List.mem_map_of_mem (f := Prod.fst) (mem_of_lookup_eq_some hd)
  · obtain ⟨id, hid⟩ := Option.isSome_iff_exists.mp (hall x hx)
    exact List.mem_map_of_mem (f := Prod.fst) (mem_of_lookup_eq_some hid)

/-- one image directory `a` whose json names itself as parent -/
def selfParent : LegacyArchive :=
  ⟨[("a".toList, ⟨some ⟨"a".toList, some "h".toList, some "b".toList⟩, some "d".toList⟩)], by decide, .notExist⟩

/-- one valid image directory `a` without a parent, and no `repositories` file -/
def oneImage : LegacyArchive :=
  ⟨[("a".toList, ⟨some ⟨[], some "h".toList, some "b".toList⟩, some "d".toList⟩)], by decide, .notExist⟩

/-- the image `oneImage` stores -/
def oneImageConfig : Config := ⟨"b".toList, ["d".toList], ["h".toList]⟩

theorem legacyLoad_hangs_or_invalid :
    (∀ fuel, legacyLoad fuel selfParent = none) ∧
      ∀ fuel, legacyLoad (fuel + 2) oneImage =
        some (⟨⟨[oneImageConfig], []⟩, [("a".toList, oneImageConfig)], []⟩, .error .invalid) := by
  refine ⟨fun fuel => ?_, fun fuel => rfl⟩
  have hS : ParentClosed selfParent.dirs {"a".toList} := by
    intro x hx
    rw [Set.mem_singleton_iff.mp hx]
    exact ⟨_, rfl, by decide, rfl⟩
  have hinit : ∀ x ∈ ({"a".toList} : Set Text), LoadState.init.loaded.lookup x = none := fun _ _ => rfl
  have hcycle := (legacyLoadImage_cycle selfParent.dirs hS hinit fuel).1 _ rfl
  have hdirs : loadDirs selfParent.dirs fuel .init (selfParent.dirs.map Prod.fst) = none := by
    show loadDirs selfParent.dirs fuel .init ["a".toList] = none
    simp only [loadDirs, hcycle]
  simp only [legacyLoad, hdirs]

end DockerEngine.Tarexport
