/-
Lean model of the container listing of `daemon/list.go` (`reduceContainers`, `foldFilter`,
`includeContainerInList`, `populateImageFilterByParents`), with the `filters.Args` of engine-api that it reads.

A container is what `includeContainerInList` reads of it, and `daemon.List()` is given as a list, newest first.
`daemon.GetContainer`, `daemon.GetImageID` and `imageStore.Children` are functions of the daemon, and
`regexp.MatchString` is a parameter `matchString` (an error for a pattern that does not compile). The values of a
filter are a set in Go, walked in no fixed order; here they are a list, walked in its order. `excludeByIsolation` is
the Linux one, which excludes nothing. The reducer is any function of the container and the context; `transformContainer`
is one such.

`includeContainerInList` runs its checks in order, and two of them move a marker: the check of the `before` filter,
which comes first, and the check of the deprecated `Before` option, which comes after the name, id and label filters.
A marker is cleared only when its own container reaches its check. So when the container of `Before` fails the name,
id or label filters, the marker is never cleared and every container is left out (`reduceContainers_before_unreached`).
-/
import DockerEngine.Go.Strconv

namespace DockerEngine.Ps

open Go Go.Strconv

/-- the errors `reduceContainers` returns -/
inductive ListError
  /-- "Invalid filter '%s'" -/
  | invalidFilter (name : Text)
  /-- the error of `strconv.Atoi` on an `exited` value -/
  | atoi (value : Text) (err : NumErr)
  /-- "Unrecognised filter value for status: %s" -/
  | unrecognisedStatus (value : Text)
  /-- an error of `daemon.GetContainer` -/
  | getContainer (err : Text)
  /-- the crash of the daemon when the recursion of `populateImageFilterByParents` does not end, on a cycle of
  images -/
  | stackExceeded
  /-- an error of the reducer -/
  | reducer (err : Text)
  deriving DecidableEq, Repr

/-! ## `filters.Args` -/

/-- `filters.Args`: the values given for each filter name -/
abbrev Args := AList fun _ : Text => List Text

namespace Args

/-- the values of a filter name, none if it is not given -/
def values (a : Args) (field : Text) : List Text := (a.lookup field).getD []

/-- `filters.Include(field)` -/
def includes (a : Args) (field : Text) : Bool := (a.lookup field).isSome

/-- `filters.ExactMatch(field, source)`: true when the name has no values -/
def exactMatch (a : Args) (field source : Text) : Bool :=
  match a.lookup field with
  | none => true
  | some [] => true
  | some vs => vs.contains source

/-- `filters.Match(field, source)`: an exact match, or a value that matches as a regular expression -/
def matchField (matchString : Text → Text → Except Unit Bool) (a : Args) (field source : Text) : Bool :=
  a.exactMatch field source || (a.values field).any fun p => matchString p source == .ok true

/-- `filters.MatchKVList(field, sources)`: every value `k` or `k=v` names a label of `sources`, with the value `v` -/
def matchKVList (a : Args) (field : Text) (sources : List (Text × Text)) : Bool :=
  if a.values field = [] then true
  else if sources = [] then false
  else (a.values field).all fun kv =>
    match cutRune '=' kv with
    | some (k, v) => sources.lookup k == some v
    | none => (sources.lookup kv).isSome

/-- `filters.Validate(accepted)`: the first name that is not accepted is an error -/
def validate (a : Args) (accepted : Text → Bool) : Except ListError Unit :=
  match a.keys.find? fun name => !accepted name with
  | some name => .error (.invalidFilter name)
  | none => .ok ()

end Args

/-- `acceptedPsFilterTags` -/
def acceptedPsFilterTags (name : Text) : Bool :=
  name ∈ ["ancestor", "before", "exited", "id", "isolation", "label", "name", "status", "since", "volume"].map
    String.toList

/-! ## Containers -/

/-- `volume.MountPoint`: what the volume filter reads -/
structure MountPoint where
  name : Text
  source : Text
  deriving DecidableEq, Repr

/-- `container.Container`: what `includeContainerInList` reads of it -/
structure Container where
  id : Text
  name : Text
  running : Bool
  paused : Bool
  restarting : Bool
  dead : Bool
  /-- whether `State.StartedAt.IsZero()` -/
  startedAtZero : Bool
  exitCode : ℤ
  /-- `Config.Labels` -/
  labels : List (Text × Text)
  /-- `MountPoints`, by destination -/
  mountPoints : List (Text × MountPoint)
  imageID : Text
  deriving DecidableEq, Repr

/-- `State.StateString()` -/
def Container.stateString (c : Container) : Text :=
  if c.running then
    if c.paused then "paused".toList
    else if c.restarting then "restarting".toList
    else "running".toList
  else if c.dead then "dead".toList
  else if c.startedAtZero then "created".toList
  else "exited".toList

/-- `container.IsValidStateString(s)` -/
def isValidStateString (s : Text) : Bool :=
  s ∈ ["paused", "restarting", "running", "dead", "created", "exited"].map String.toList

/-- the daemon as the listing reads it -/
structure Daemon where
  /-- `daemon.List()`: the containers, newest first -/
  containers : List Container
  /-- `daemon.GetContainer(prefixOrName)` -/
  getContainer : Text → Except Text Container
  /-- `daemon.GetImageID(refOrID)` -/
  getImageID : Text → Except Text Text
  /-- the IDs of the images of `daemon.imageStore` -/
  images : List Text
  /-- `daemon.imageStore.Children(id)` -/
  children : Text → List Text

/-- `types.ContainerListOptions`: what the listing reads of it -/
structure ContainerListOptions where
  all : Bool
  limit : ℤ
  since : Text
  before : Text
  filter : Args

/-- `listContext`, with the fields of `ContainerListOptions` it reads -/
structure ListContext where
  idx : ℕ
  ancestorFilter : Bool
  images : List Text
  filters : Args
  exitAllowed : List ℤ
  beforeContainer : Option Container
  sinceContainer : Option Container
  beforeFilter : Option Container
  sinceFilter : Option Container
  all : Bool
  limit : ℤ

/-- `iterationAction` -/
inductive IterationAction
  | includeContainer
  | excludeContainer
  | stopIteration
  deriving DecidableEq, Repr

/-! ## `foldFilter` -/

/-- `populateImageFilterByParents(ancestorMap, imageID, getChildren)`: the image and all its descendants are put in
the map, unless it is there already. `fuel` bounds the depth of the recursion, which Go does not bound -/
def populateImageFilterByParents (getChildren : Text → List Text) : ℕ → List Text → Text → Option (List Text)
  | 0, _, _ => none
  | fuel + 1, ancestorMap, imageID =>
    if imageID ∈ ancestorMap then some ancestorMap
    else
      ((getChildren imageID).foldlM (fun m id => populateImageFilterByParents getChildren fuel m id) ancestorMap).map
        (· ++ [imageID])

/-- the walk of the `ancestor` values: a value that does not name an image, or names one already in the map, is
skipped -/
def walkAncestors (d : Daemon) (imagesFilter : List Text) : List Text → Except ListError (List Text)
  | [] => .ok imagesFilter
  | ancestor :: ancestors =>
    match d.getImageID ancestor with
    | .error _ => walkAncestors d imagesFilter ancestors
    | .ok id =>
      if id ∈ imagesFilter then walkAncestors d imagesFilter ancestors
      else
        match populateImageFilterByParents d.children (d.images.length + 1) imagesFilter id with
        | some imagesFilter => walkAncestors d imagesFilter ancestors
        | none => .error .stackExceeded

/-- the walk of the `before` or `since` values: the container of the last one -/
def walkContainers (d : Daemon) (found : Option Container) : List Text → Except ListError (Option Container)
  | [] => .ok found
  | value :: values =>
    match d.getContainer value with
    | .error err => .error (.getContainer err)
    | .ok c => walkContainers d (some c) values

/-- the images of the `ancestor` values, when the filter is given -/
def ancestorImages (d : Daemon) (psFilters : Args) : Except ListError (List Text) :=
  if psFilters.includes "ancestor".toList then walkAncestors d [] (psFilters.values "ancestor".toList) else .ok []

/-- the container a deprecated option names, if it is not empty -/
def optionContainer (d : Daemon) (ref : Text) : Except ListError (Option Container) :=
  if ref ≠ [] then
    match d.getContainer ref with
    | .error err => .error (.getContainer err)
    | .ok c => .ok (some c)
  else .ok none

/-- `daemon.foldFilter(config)` -/
def foldFilter (d : Daemon) (config : ContainerListOptions) : Except ListError ListContext := do
  let psFilters := config.filter
  psFilters.validate acceptedPsFilterTags
  let filtExited ← (psFilters.values "exited".toList).mapM fun value =>
    (atoi value).mapError (ListError.atoi value)
  -- a `status` value must be a state, and sets `All`
  let all ← (psFilters.values "status".toList).foldlM (fun _ value =>
    if isValidStateString value then .ok true else .error (.unrecognisedStatus value)) config.all
  let beforeContFilter ← walkContainers d none (psFilters.values "before".toList)
  let sinceContFilter ← walkContainers d none (psFilters.values "since".toList)
  let imagesFilter ← ancestorImages d psFilters
  let beforeContainer ← optionContainer d config.before
  let sinceContainer ← optionContainer d config.since
  pure ⟨0, psFilters.includes "ancestor".toList, imagesFilter, psFilters, filtExited, beforeContainer, sinceContainer, beforeContFilter,
    sinceContFilter, all, config.limit⟩

/-! ## `includeContainerInList` -/

/-- `excludeByIsolation` on Linux: isolation is a Windows notion -/
def excludeByIsolation (_ : Container) (_ : ListContext) : IterationAction := .includeContainer

section Include

variable (matchString : Text → Text → Except Unit Bool)

/-- the name, id, label and isolation filters, each of which excludes the container when it fails -/
def matchesNameIdLabel (ctx : ListContext) (c : Container) : Bool :=
  ctx.filters.matchField matchString "name".toList c.name && ctx.filters.matchField matchString "id".toList c.id &&
    ctx.filters.matchKVList "label".toList c.labels && excludeByIsolation c ctx != .excludeContainer

/-- the `exited` filter: no codes given, or the container is stopped with one of them -/
def exitCodeAllowed (ctx : ListContext) (c : Container) : Bool :=
  ctx.exitAllowed = [] || ctx.exitAllowed.any fun code => code = c.exitCode && !c.running

/-- the `volume` filter: one of its values is a destination of the container's mount points, or the name of one
(its source if it has no name) -/
def volumeMounted (ctx : ListContext) (c : Container) : Bool :=
  !ctx.filters.includes "volume".toList ||
    (ctx.filters.values "volume".toList).any fun value =>
      (c.mountPoints.lookup value).isSome ||
        c.mountPoints.any fun m => (if m.2.name ≠ [] then m.2.name else m.2.source) = value

/-- the `ancestor` filter: the image of the container is in the map built by `foldFilter` -/
def ancestorMatches (ctx : ListContext) (c : Container) : Bool :=
  !ctx.ancestorFilter || (ctx.images ≠ [] && c.imageID ∈ ctx.images)

/-- `includeContainerInList(container, ctx)`: the action, and the context with the markers it clears -/
def includeContainerInList (c : Container) (ctx : ListContext) : IterationAction × ListContext :=
  match ctx.beforeFilter with
  | some b => (.excludeContainer, if c.id = b.id then { ctx with beforeFilter := none } else ctx)
  | none =>
    if ctx.sinceFilter.map Container.id = some c.id then (.stopIteration, ctx)
    else if !c.running && !ctx.all && ctx.limit ≤ 0 && ctx.beforeContainer.isNone && ctx.sinceContainer.isNone then
      (.excludeContainer, ctx)
    else if !matchesNameIdLabel matchString ctx c then (.excludeContainer, ctx)
    else
      match ctx.beforeContainer with
      | some b => (.excludeContainer, if c.id = b.id then { ctx with beforeContainer := none } else ctx)
      | none =>
        if ctx.sinceContainer.map Container.id = some c.id then (.stopIteration, ctx)
        else if 0 < ctx.limit ∧ (ctx.idx : ℤ) = ctx.limit then (.stopIteration, ctx)
        else if !exitCodeAllowed ctx c then (.excludeContainer, ctx)
        else if !ctx.filters.matchField matchString "status".toList c.stateString then (.excludeContainer, ctx)
        else if !volumeMounted ctx c then (.excludeContainer, ctx)
        else if !ancestorMatches ctx c then (.excludeContainer, ctx)
        else (.includeContainer, ctx)

/-- the loop of `reduceContainers` over `daemon.List()` with `reducePsContainer`: an included container is passed to
the reducer and counted in `idx`, and `errStopIteration` ends the loop without an error -/
def reduceLoop {β : Type} (reducer : Container → ListContext → Except ListError β) :
    ListContext → List Container → Except ListError (List β)
  | _, [] => .ok []
  | ctx, c :: cs =>
    match includeContainerInList matchString c ctx with
    | (.excludeContainer, ctx) => reduceLoop reducer ctx cs
    | (.stopIteration, _) => .ok []
    | (.includeContainer, ctx) => do
      let t ← reducer c ctx
      let rest ← reduceLoop reducer { ctx with idx := ctx.idx + 1 } cs
      pure (t :: rest)

/-- `daemon.reduceContainers(config, reducer)` -/
def reduceContainers {β : Type} (d : Daemon) (config : ContainerListOptions)
    (reducer : Container → ListContext → Except ListError β) : Except ListError (List β) := do
  let ctx ← foldFilter d config
  reduceLoop matchString reducer ctx d.containers

end Include

/-! ## One container -/

section Step

variable (matchString : Text → Text → Except Unit Bool) {c b : Container} {ctx : ListContext}

/-- without the deprecated options: whether the container passes the running check and the name, id and label
filters, and so reaches the check of the limit -/
def reachesLimit (ctx : ListContext) (c : Container) : Bool :=
  (c.running || ctx.all || decide (0 < ctx.limit)) && matchesNameIdLabel matchString ctx c

/-- without the deprecated options: whether the container passes every check but the limit -/
def passesAll (ctx : ListContext) (c : Container) : Bool :=
  reachesLimit matchString ctx c && exitCodeAllowed ctx c &&
    ctx.filters.matchField matchString "status".toList c.stateString && volumeMounted ctx c && ancestorMatches ctx c

/-- the check of the `before` filter comes first: every container up to its own is left out -/
theorem includeContainerInList_of_beforeFilter (h : ctx.beforeFilter = some b) :
    includeContainerInList matchString c ctx =
      (.excludeContainer, if c.id = b.id then { ctx with beforeFilter := none } else ctx) := by
  simp only [includeContainerInList, h]

theorem includeContainerInList_of_sinceFilter (hbf : ctx.beforeFilter = none)
    (hs : ctx.sinceFilter.map Container.id = some c.id) :
    includeContainerInList matchString c ctx = (.stopIteration, ctx) := by
  simp only [includeContainerInList, hbf, hs, if_true]

/-- the check of the deprecated `Before` comes after the name, id and label filters, and only a container that passes
them clears it -/
theorem includeContainerInList_of_beforeContainer (hbf : ctx.beforeFilter = none)
    (hs : ctx.sinceFilter.map Container.id ≠ some c.id) (hbc : ctx.beforeContainer = some b) :
    includeContainerInList matchString c ctx = (.excludeContainer,
      if matchesNameIdLabel matchString ctx c ∧ c.id = b.id then { ctx with beforeContainer := none } else ctx) := by
  by_cases hm : matchesNameIdLabel matchString ctx c <;>
    simp [includeContainerInList, hbf, hs, hbc, hm]

/-- the running check without the deprecated options: a stopped container is left out unless `All` is set or a
limit is given -/
theorem runningCheck_eq (running all : Bool) (limit : ℤ) :
    (!running && !all && decide (limit ≤ 0) && true && true) = !(running || all || decide (0 < limit)) := by
  have hl : decide (limit ≤ 0) = !decide (0 < limit) := by
    by_cases h : 0 < limit
    · simp [h]
    · simp [h]
      omega
  cases running <;> cases all <;> simp [hl]

/-- a chain of checks, each of which leaves the container out when it fails, is one check of them all -/
theorem checks_chain {α : Type} (p q r s : Bool) (yes no : α) :
    (if (!p) = true then no else if (!q) = true then no else if (!r) = true then no else if (!s) = true then no
      else yes) = if (p && q && r && s) = true then yes else no := by
  cases p <;> cases q <;> cases r <;> cases s <;> rfl

/-- without the deprecated options: a container that reaches the limit check once the limit is reached stops the
loop, and otherwise the container is in exactly when it passes every check -/
theorem includeContainerInList_plain (hbf : ctx.beforeFilter = none) (hs : ctx.sinceFilter.map Container.id ≠ some c.id)
    (hbc : ctx.beforeContainer = none) (hsc : ctx.sinceContainer = none) :
    includeContainerInList matchString c ctx =
      (if reachesLimit matchString ctx c ∧ 0 < ctx.limit ∧ (ctx.idx : ℤ) = ctx.limit then .stopIteration
        else if passesAll matchString ctx c then .includeContainer else .excludeContainer, ctx) := by
  unfold includeContainerInList
  rw [hbf]
  dsimp only
  rw [if_neg hs, hbc, hsc, Option.isNone_none, runningCheck_eq]
  by_cases hrun : (c.running || ctx.all || decide (0 < ctx.limit)) = true
  · rw [if_neg (by simp [hrun])]
    by_cases hm : matchesNameIdLabel matchString ctx c = true
    · have hreach : reachesLimit matchString ctx c = true := by simp [reachesLimit, hrun, hm]
      rw [if_neg (by simp [hm])]
      dsimp only
      rw [if_neg (by simp)]
      by_cases hlim : 0 < ctx.limit ∧ (ctx.idx : ℤ) = ctx.limit
      · rw [if_pos hlim, if_pos ⟨hreach, hlim⟩]
      · -- the four checks after the limit, in order
        rw [if_neg hlim, if_neg (show ¬(reachesLimit matchString ctx c = true ∧ 0 < ctx.limit ∧
          (ctx.idx : ℤ) = ctx.limit) from fun h => hlim h.2), checks_chain]
        have hpass : passesAll matchString ctx c = (exitCodeAllowed ctx c &&
            ctx.filters.matchField matchString "status".toList c.stateString && volumeMounted ctx c &&
            ancestorMatches ctx c) := by
          simp only [passesAll, hreach, Bool.true_and]
        rw [hpass]
        split_ifs <;> rfl
    · have hreach : reachesLimit matchString ctx c = false := by simp [reachesLimit, hm]
      rw [if_pos (by simpa using hm)]
      simp [passesAll, hreach]
  · have hreach : reachesLimit matchString ctx c = false := by simp [reachesLimit, hrun]
    rw [if_pos (by simpa using hrun)]
    simp [passesAll, hreach]

end Step

/-! ## `foldFilter` -/

theorem optionContainer_of_ne {d : Daemon} {ref : Text} (href : ref ≠ []) {found : Option Container}
    (h : optionContainer d ref = .ok found) : ∃ c, d.getContainer ref = .ok c ∧ found = some c := by
  unfold optionContainer at h
  rw [if_pos href] at h
  cases hget : d.getContainer ref with
  | error err => rw [hget] at h; cases h
  | ok c => rw [hget] at h; exact ⟨c, rfl, (Except.ok.inj h).symm⟩

/-- what the context `foldFilter` builds starts from: no container counted yet, the filters and the limit given,
and the containers of the deprecated options -/
theorem foldFilter_ok {d : Daemon} {config : ContainerListOptions} {ctx : ListContext}
    (h : foldFilter d config = .ok ctx) :
    ctx.idx = 0 ∧ ctx.filters = config.filter ∧ ctx.limit = config.limit ∧
      optionContainer d config.before = .ok ctx.beforeContainer ∧
      optionContainer d config.since = .ok ctx.sinceContainer ∧
      ctx.ancestorFilter = config.filter.includes "ancestor".toList ∧ ancestorImages d config.filter = .ok ctx.images := by
  unfold foldFilter at h
  obtain ⟨_, -, h⟩ := except_bind_eq_ok h
  obtain ⟨_, -, h⟩ := except_bind_eq_ok h
  obtain ⟨_, -, h⟩ := except_bind_eq_ok h
  obtain ⟨_, -, h⟩ := except_bind_eq_ok h
  obtain ⟨_, -, h⟩ := except_bind_eq_ok h
  obtain ⟨imagesFilter, himages, h⟩ := except_bind_eq_ok h
  obtain ⟨beforeContainer, hbefore, h⟩ := except_bind_eq_ok h
  obtain ⟨sinceContainer, hsince, h⟩ := except_bind_eq_ok h
  cases h
  exact ⟨rfl, rfl, rfl, hbefore, hsince, rfl, himages⟩

/-! ## The deprecated `Before` -/

section Before

variable (matchString : Text → Text → Except Unit Bool) {β : Type} (reducer : Container → ListContext → Except ListError β)

/-- while the marker of the deprecated `Before` is set nothing is included, and it stays set through every container
that does not both carry its ID and pass the name, id and label filters -/
theorem reduceLoop_of_beforeContainer {b : Container} :
    ∀ (ctx : ListContext) (cs : List Container), ctx.beforeContainer = some b →
      (∀ c ∈ cs, c.id = b.id → matchesNameIdLabel matchString ctx c = false) →
      reduceLoop matchString reducer ctx cs = .ok []
  | _, [], _, _ => rfl
  | ctx, c :: cs, hbc, hfail => by
    have hrest : ∀ c ∈ cs, c.id = b.id → matchesNameIdLabel matchString ctx c = false :=
      fun c' hc' => hfail c' (List.mem_cons_of_mem _ hc')
    rw [reduceLoop]
    cases hbf : ctx.beforeFilter with
    | some bf =>
      -- the `before` filter's marker may be cleared; the deprecated one stays
      rw [includeContainerInList_of_beforeFilter matchString hbf]
      dsimp only
      split_ifs
      · exact reduceLoop_of_beforeContainer { ctx with beforeFilter := none } cs hbc hrest
      · exact reduceLoop_of_beforeContainer ctx cs hbc hrest
    | none =>
      by_cases hs : ctx.sinceFilter.map Container.id = some c.id
      · rw [includeContainerInList_of_sinceFilter matchString hbf hs]
      · have hkeep : ¬(matchesNameIdLabel matchString ctx c = true ∧ c.id = b.id) := fun ⟨hm, hid⟩ => by
          rw [hfail c List.mem_cons_self hid] at hm
          cases hm
        rw [includeContainerInList_of_beforeContainer matchString hbf hs hbc, if_neg hkeep]
        exact reduceLoop_of_beforeContainer ctx cs hbc hrest

/-- every configuration `foldFilter` accepts whose deprecated `Before` names a container that the name, id and label
filters exclude lists no container at all, whatever the other containers are -/
theorem reduceContainers_before_unreached (d : Daemon) (config : ContainerListOptions) {ctx : ListContext}
    (hctx : foldFilter d config = .ok ctx) {b : Container} (hbefore : config.before ≠ [])
    (hb : d.getContainer config.before = .ok b)
    (hfail : ∀ c ∈ d.containers, c.id = b.id → matchesNameIdLabel matchString ctx c = false) :
    reduceContainers matchString d config reducer = .ok [] := by
  obtain ⟨-, -, -, hbc, -, -, -⟩ := foldFilter_ok hctx
  obtain ⟨b', hb', hbc'⟩ := optionContainer_of_ne hbefore hbc
  rw [hb] at hb'
  cases hb'
  rw [reduceContainers, hctx]
  exact reduceLoop_of_beforeContainer matchString reducer ctx d.containers hbc' hfail

/-- `regexp.MatchString` for patterns without metacharacters: the pattern occurs in the text -/
def literalMatch (pattern s : Text) : Except Unit Bool := .ok (contains s pattern)

/-- a running container of the image `busybox`, with no labels and no mounts -/
def runningContainer (id name : String) : Container :=
  ⟨id.toList, name.toList, true, false, false, false, false, 0, [], [], "busybox".toList⟩

/-- a daemon with three running containers, `web` the newest and `cache` the oldest, each found by its ID -/
def threeRunning : Daemon where
  containers := [runningContainer "web" "/web", runningContainer "db" "/db", runningContainer "cache" "/cache"]
  getContainer ref :=
    match [runningContainer "web" "/web", runningContainer "db" "/db", runningContainer "cache" "/cache"].find?
        (·.id == ref) with
    | some c => .ok c
    | none => .error ("No such container: ".toList ++ ref)
  getImageID _ := .error []
  images := []
  children _ := []

/-- `docker ps --before web --filter name=cache` -/
def beforeWebNamedCache : ContainerListOptions :=
  ⟨false, 0, [], "web".toList, AList.insert "name".toList ["cache".toList] ∅⟩

/-- `cache` is listed after `web`, is running and has the name the filter asks for, yet nothing is listed -/
theorem reduceContainers_before_unreached_web :
    threeRunning.containers.idxOf (runningContainer "web" "/web") <
        threeRunning.containers.idxOf (runningContainer "cache" "/cache") ∧
      (runningContainer "cache" "/cache").running = true ∧
      contains (runningContainer "cache" "/cache").name "cache".toList = true ∧
      reduceContainers literalMatch threeRunning beforeWebNamedCache (fun c _ => .ok c) = .ok [] := by
  have hctx : foldFilter threeRunning beforeWebNamedCache =
      .ok ⟨0, false, [], beforeWebNamedCache.filter, [], some (runningContainer "web" "/web"), none, none, none,
        false, 0⟩ := rfl
  refine ⟨by decide, rfl, by decide, ?_⟩
  exact reduceContainers_before_unreached literalMatch (fun c _ => .ok c) threeRunning beforeWebNamedCache hctx
    (by decide) rfl (by decide)

end Before

/-! ## Without the deprecated options -/

/-- the containers after the first that carries the ID of the `before` filter's container: all without the filter,
none if no container carries it -/
def afterBefore : Option Container → List Container → List Container
  | none, cs => cs
  | some b, cs => (cs.dropWhile (·.id != b.id)).drop 1

/-- the containers before the first that carries the ID of the `since` filter's container -/
def beforeSince : Option Container → List Container → List Container
  | none, cs => cs
  | some s, cs => cs.takeWhile (·.id != s.id)

/-- the first `limit - idx` elements of a list when a limit is given -/
def takeLimit {α : Type} (limit : ℤ) (idx : ℕ) (l : List α) : List α :=
  if 0 < limit then l.take (limit.toNat - idx) else l

@[simp] theorem afterBefore_nil (b : Option Container) : afterBefore b [] = [] := by
  cases b <;> rfl

@[simp] theorem beforeSince_nil (s : Option Container) : beforeSince s [] = [] := by
  cases s <;> rfl

@[simp] theorem takeLimit_nil {α : Type} (limit : ℤ) (idx : ℕ) : takeLimit limit idx ([] : List α) = [] := by
  unfold takeLimit
  split_ifs <;> simp

theorem afterBefore_cons_self {b c : Container} (h : c.id = b.id) (cs : List Container) :
    afterBefore (some b) (c :: cs) = cs := by
  simp [afterBefore, h]

theorem afterBefore_cons_ne {b c : Container} (h : c.id ≠ b.id) (cs : List Container) :
    afterBefore (some b) (c :: cs) = afterBefore (some b) cs := by
  simp [afterBefore, h]

theorem beforeSince_cons_self {s c : Container} (h : c.id = s.id) (cs : List Container) :
    beforeSince (some s) (c :: cs) = [] := by
  simp [beforeSince, h]

theorem beforeSince_cons_ne {s : Option Container} {c : Container} (h : s.map Container.id ≠ some c.id)
    (cs : List Container) : beforeSince s (c :: cs) = c :: beforeSince s cs := by
  cases s with
  | none => rfl
  | some s =>
    have hne : c.id ≠ s.id := fun hid => h (by rw [Option.map_some, hid])
    simp [beforeSince, hne]

theorem takeLimit_of_eq {α : Type} {limit : ℤ} {idx : ℕ} (hpos : 0 < limit) (heq : (idx : ℤ) = limit) (l : List α) :
    takeLimit limit idx l = [] := by
  rw [takeLimit, if_pos hpos, show limit.toNat - idx = 0 by omega, List.take_zero]

theorem takeLimit_cons {α : Type} {limit : ℤ} {idx : ℕ} (hlt : 0 < limit → (idx : ℤ) < limit) (a : α) (l : List α) :
    takeLimit limit idx (a :: l) = a :: takeLimit limit (idx + 1) l := by
  unfold takeLimit
  split_ifs with hpos
  · have hk : limit.toNat - idx = (limit.toNat - (idx + 1)) + 1 := by
      have := hlt hpos
      omega
    rw [hk, List.take_succ_cons]
  · rfl

section Plain

variable (matchString : Text → Text → Except Unit Bool)

/-- without the deprecated options, the loop lists the containers after the `before` filter's and before the
`since` filter's that pass every check, up to the limit -/
theorem reduceLoop_plain : ∀ (ctx : ListContext) (cs : List Container), ctx.beforeContainer = none →
    ctx.sinceContainer = none → (0 < ctx.limit → (ctx.idx : ℤ) ≤ ctx.limit) →
    reduceLoop matchString (fun c _ => .ok c) ctx cs =
      .ok (takeLimit ctx.limit ctx.idx
        ((beforeSince ctx.sinceFilter (afterBefore ctx.beforeFilter cs)).filter (passesAll matchString ctx)))
  | _, [], _, _, _ => by simp [reduceLoop]
  | ctx, c :: cs, hbc, hsc, hidx => by
    rw [reduceLoop]
    cases hbf : ctx.beforeFilter with
    | some b =>
      -- up to the `before` filter's container, each container is left out
      rw [includeContainerInList_of_beforeFilter matchString hbf]
      dsimp only
      by_cases hid : c.id = b.id
      · rw [if_pos hid, reduceLoop_plain { ctx with beforeFilter := none } cs hbc hsc hidx,
          afterBefore_cons_self hid]
        rfl
      · rw [if_neg hid, reduceLoop_plain ctx cs hbc hsc hidx, hbf, afterBefore_cons_ne hid]
    | none =>
      change _ = Except.ok (takeLimit ctx.limit ctx.idx
        ((beforeSince ctx.sinceFilter (c :: cs)).filter (passesAll matchString ctx)))
      by_cases hs : ctx.sinceFilter.map Container.id = some c.id
      · -- the `since` filter's container ends the loop
        obtain ⟨s, hs', hid⟩ := Option.map_eq_some_iff.mp hs
        rw [includeContainerInList_of_sinceFilter matchString hbf hs, hs', beforeSince_cons_self hid.symm]
        simp
      · rw [includeContainerInList_plain matchString hbf hs hbc hsc, beforeSince_cons_ne hs]
        split_ifs with hstop hpass
        · rw [takeLimit_of_eq hstop.2.1 hstop.2.2]
        · -- an included container is counted: the count stays below the limit
          have hlt : 0 < ctx.limit → (ctx.idx : ℤ) < ctx.limit := by
            intro hpos
            have hreach : reachesLimit matchString ctx c = true := by
              simp only [passesAll, Bool.and_eq_true] at hpass
              exact hpass.1.1.1.1
            have hne : (ctx.idx : ℤ) ≠ ctx.limit := fun heq => hstop ⟨hreach, hpos, heq⟩
            have := hidx hpos
            omega
          have hidx' : 0 < ctx.limit → ((ctx.idx + 1 : ℕ) : ℤ) ≤ ctx.limit := by
            intro hpos
            have := hlt hpos
            omega
          dsimp only
          rw [reduceLoop_plain { ctx with idx := ctx.idx + 1 } cs hbc hsc hidx', List.filter_cons_of_pos hpass,
            takeLimit_cons hlt]
          dsimp only
          rw [hbf]
          rfl
        · dsimp only
          rw [reduceLoop_plain ctx cs hbc hsc hidx, List.filter_cons_of_neg hpass, hbf]
          rfl

theorem optionContainer_nil (d : Daemon) : optionContainer d [] = .ok none := by
  simp [optionContainer]

/-- without the deprecated options, `reduceContainers` lists the containers after the `before` filter's and before
the `since` filter's that pass every check, up to the limit -/
theorem reduceContainers_plain (d : Daemon) (config : ContainerListOptions) {ctx : ListContext}
    (hctx : foldFilter d config = .ok ctx) (hbefore : config.before = []) (hsince : config.since = []) :
    reduceContainers matchString d config (fun c _ => .ok c) =
      .ok (takeLimit config.limit 0
        ((beforeSince ctx.sinceFilter (afterBefore ctx.beforeFilter d.containers)).filter (passesAll matchString ctx))) := by
  obtain ⟨hidx, -, hlimit, hbc, hsc, -, -⟩ := foldFilter_ok hctx
  rw [hbefore, optionContainer_nil] at hbc
  rw [hsince, optionContainer_nil] at hsc
  rw [reduceContainers, hctx]
  have hrun := reduceLoop_plain matchString ctx d.containers (Except.ok.inj hbc).symm (Except.ok.inj hsc).symm
    (fun _ => by rw [hidx]; omega)
  rw [← hlimit, ← hidx]
  exact hrun

theorem beforeSince_of_forall_ne {s : Container} {cs : List Container} (h : ∀ c ∈ cs, c.id ≠ s.id) :
    beforeSince (some s) cs = cs :=
  List.takeWhile_eq_self_iff.mpr fun c hc => by simpa using h c hc

/-- a `since` filter whose container is listed no later than the `before` filter's cuts nothing: every container
after the `before` filter's that passes the checks is listed, those older than the `since` filter's included -/
theorem reduceContainers_since_before_before (d : Daemon) (config : ContainerListOptions) {ctx : ListContext}
    (hctx : foldFilter d config = .ok ctx) (hbefore : config.before = []) (hsince : config.since = [])
    {b s : Container} (hb : ctx.beforeFilter = some b) (hs : ctx.sinceFilter = some s)
    (hafter : ∀ c ∈ afterBefore (some b) d.containers, c.id ≠ s.id) :
    reduceContainers matchString d config (fun c _ => .ok c) =
      .ok (takeLimit config.limit 0 ((afterBefore (some b) d.containers).filter (passesAll matchString ctx))) := by
  rw [reduceContainers_plain matchString d config hctx hbefore hsince, hb, hs, beforeSince_of_forall_ne hafter]

/-- `docker ps --filter since=web --filter before=db`: `cache`, the one container older than `db` -/
def sinceWebBeforeDb : ContainerListOptions :=
  ⟨false, 0, [], [], AList.insert "before".toList ["db".toList] (AList.insert "since".toList ["web".toList] ∅)⟩

theorem reduceContainers_since_before_before_db :
    reduceContainers literalMatch threeRunning sinceWebBeforeDb (fun c _ => .ok c) =
      .ok (takeLimit 0 0 ((afterBefore (some (runningContainer "db" "/db")) threeRunning.containers).filter
        (passesAll literalMatch ⟨0, false, [], sinceWebBeforeDb.filter, [], none, none,
          some (runningContainer "db" "/db"), some (runningContainer "web" "/web"), false, 0⟩))) :=
  reduceContainers_since_before_before literalMatch threeRunning sinceWebBeforeDb rfl rfl rfl rfl rfl (by decide)

end Plain

/-! ## The `ancestor` filter -/

section Ancestors

variable {children : Text → List Text}

/-- the images below `x`: `x`, its children, their children, and so on -/
def Below (children : Text → List Text) (x z : Text) : Prop := Relation.ReflTransGen (fun x y => y ∈ children x) x z

/-- a map of images that holds the children of each image it holds -/
def Closed (children : Text → List Text) (m : List Text) : Prop := ∀ x ∈ m, ∀ y ∈ children x, y ∈ m

theorem Closed.mem_of_below {m : List Text} (hm : Closed children m) {x z : Text} (hx : x ∈ m)
    (h : Below children x z) : z ∈ m := by
  induction h with
  | refl => exact hx
  | tail _ hyz ih => exact hm _ ih _ hyz

theorem below_iff {x z : Text} : Below children x z ↔ z = x ∨ ∃ y ∈ children x, Below children y z := by
  unfold Below
  rw [Relation.ReflTransGen.cases_head_iff]
  constructor
  · rintro (rfl | ⟨y, hy, h⟩)
    · exact .inl rfl
    · exact .inr ⟨y, hy, h⟩
  · rintro (rfl | ⟨y, hy, h⟩)
    · exact .inl rfl
    · exact .inr ⟨y, hy, h⟩

/-- what the walk over the children of an image adds, when each child's walk adds the images below it -/
theorem foldlM_populate_spec {fuel : ℕ}
    (ih : ∀ m id m', Closed children m → populateImageFilterByParents children fuel m id = some m' →
      Closed children m' ∧ ∀ z, z ∈ m' ↔ z ∈ m ∨ Below children id z) :
    ∀ (l m m' : List Text), Closed children m →
      l.foldlM (fun m id => populateImageFilterByParents children fuel m id) m = some m' →
      Closed children m' ∧ ∀ z, z ∈ m' ↔ z ∈ m ∨ ∃ y ∈ l, Below children y z
  | [], m, m', hm, h => by
    cases h
    exact ⟨hm, fun z => by simp⟩
  | y :: l, m, m', hm, h => by
    rw [List.foldlM_cons] at h
    obtain ⟨m₁, h₁, h⟩ := Option.bind_eq_some_iff.mp h
    obtain ⟨hm₁, hmem₁⟩ := ih m y m₁ hm h₁
    obtain ⟨hm', hmem'⟩ := foldlM_populate_spec ih l m₁ m' hm₁ h
    refine ⟨hm', fun z => ?_⟩
    rw [hmem', hmem₁]
    simp only [List.mem_cons, exists_eq_or_imp]
    tauto

/-- `populateImageFilterByParents` adds to a closed map the image and every image below it, and nothing else -/
theorem populateImageFilterByParents_spec : ∀ (fuel : ℕ) (m : List Text) (id : Text) (m' : List Text),
    Closed children m → populateImageFilterByParents children fuel m id = some m' →
    Closed children m' ∧ ∀ z, z ∈ m' ↔ z ∈ m ∨ Below children id z
  | 0, _, _, _, _, h => by cases h
  | fuel + 1, m, id, m', hm, h => by
    rw [populateImageFilterByParents] at h
    split_ifs at h with hid
    · -- an image already in the map has every image below it there too
      cases h
      exact ⟨hm, fun z => ⟨.inl, fun h => h.elim (fun hz => hz) (fun hb => hm.mem_of_below hid hb)⟩⟩
    · obtain ⟨m₁, h₁, rfl⟩ := Option.map_eq_some_iff.mp h
      obtain ⟨hm₁, hmem₁⟩ := foldlM_populate_spec (populateImageFilterByParents_spec fuel) (children id) m m₁ hm h₁
      have hmem : ∀ z, z ∈ m₁ ++ [id] ↔ z ∈ m ∨ Below children id z := fun z => by
        rw [List.mem_append, hmem₁, List.mem_singleton, below_iff]
        constructor
        · rintro ((hz | hz) | hz)
          · exact .inl hz
          · exact .inr (.inr hz)
          · exact .inr (.inl hz)
        · rintro (hz | hz | hz)
          · exact .inl (.inl hz)
          · exact .inr hz
          · exact .inl (.inr hz)
      refine ⟨fun x hx y hy => ?_, hmem⟩
      rw [List.mem_append, List.mem_singleton] at hx
      rcases hx with hx | rfl
      · exact List.mem_append_left _ (hm₁ x hx y hy)
      · exact (hmem y).mpr (.inr (below_iff.mpr (.inr ⟨y, hy, .refl⟩)))

/-- with images ranked below their parents, the walk ends within the rank of the image -/
theorem populateImageFilterByParents_isSome (rank : Text → ℕ) (hrank : ∀ x, ∀ y ∈ children x, rank y < rank x) :
    ∀ (fuel : ℕ) (m : List Text) (id : Text), rank id < fuel →
      (populateImageFilterByParents children fuel m id).isSome
  | 0, _, _, h => absurd h (Nat.not_lt_zero _)
  | fuel + 1, m, id, h => by
    rw [populateImageFilterByParents]
    split_ifs
    · rfl
    · -- each child's walk ends, so the walk over the children does
      have hall : ∀ (l : List Text), (∀ y ∈ l, rank y < rank id) → ∀ m,
          (l.foldlM (fun m id => populateImageFilterByParents children fuel m id) m).isSome := by
        intro l
        induction l with
        | nil => intro _ m; rfl
        | cons y l ihl =>
          intro hl m
          rw [List.foldlM_cons]
          obtain ⟨m₁, h₁⟩ := Option.isSome_iff_exists.mp
            (populateImageFilterByParents_isSome rank hrank fuel m y (by have := hl y List.mem_cons_self; omega))
          rw [h₁]
          exact ihl (fun y hy => hl y (List.mem_cons_of_mem _ hy)) m₁
      rw [Option.isSome_map]
      exact hall (children id) (hrank id) m

/-- with images ranked below their parents, and no rank above the number of images, the walk of the `ancestor`
values adds to a closed map exactly the images below those the values name -/
theorem walkAncestors_spec (d : Daemon) (rank : Text → ℕ) (hrank : ∀ x, ∀ y ∈ d.children x, rank y < rank x)
    (hbound : ∀ x, rank x ≤ d.images.length) :
    ∀ (ancestors m : List Text), Closed d.children m → ∃ m', walkAncestors d m ancestors = .ok m' ∧
      Closed d.children m' ∧
      ∀ z, z ∈ m' ↔ z ∈ m ∨ ∃ a ∈ ancestors, ∃ id, d.getImageID a = .ok id ∧ Below d.children id z
  | [], m, hm => ⟨m, rfl, hm, fun z => by simp⟩
  | a :: ancestors, m, hm => by
    rw [walkAncestors]
    cases hget : d.getImageID a with
    | error e =>
      -- a value that names no image is skipped
      obtain ⟨m', hw, hm', hmem⟩ := walkAncestors_spec d rank hrank hbound ancestors m hm
      refine ⟨m', hw, hm', fun z => ?_⟩
      rw [hmem, List.exists_mem_cons_iff]
      simp [hget]
    | ok id =>
      dsimp only
      split_ifs with hid
      · -- an image already in the map has every image below it there too
        obtain ⟨m', hw, hm', hmem⟩ := walkAncestors_spec d rank hrank hbound ancestors m hm
        refine ⟨m', hw, hm', fun z => ?_⟩
        rw [hmem, List.exists_mem_cons_iff]
        constructor
        · rintro (hz | hz)
          · exact .inl hz
          · exact .inr (.inr hz)
        · rintro (hz | ⟨id', hid', hb⟩ | hz)
          · exact .inl hz
          · rw [hget] at hid'
            cases hid'
            exact .inl (hm.mem_of_below hid hb)
          · exact .inr hz
      · obtain ⟨m₁, h₁⟩ := Option.isSome_iff_exists.mp
          (populateImageFilterByParents_isSome rank hrank (d.images.length + 1) m id (by have := hbound id; omega))
        rw [h₁]
        obtain ⟨hm₁, hmem₁⟩ := populateImageFilterByParents_spec _ m id m₁ hm h₁
        obtain ⟨m', hw, hm', hmem⟩ := walkAncestors_spec d rank hrank hbound ancestors m₁ hm₁
        refine ⟨m', hw, hm', fun z => ?_⟩
        rw [hmem, hmem₁, List.exists_mem_cons_iff]
        constructor
        · rintro ((hz | hz) | hz)
          · exact .inl hz
          · exact .inr (.inl ⟨id, hget, hz⟩)
          · exact .inr (.inr hz)
        · rintro (hz | ⟨id', hid', hb⟩ | hz)
          · exact .inl (.inl hz)
          · rw [hget] at hid'
            cases hid'
            exact .inl (.inr hb)
          · exact .inr hz

/-- with the `ancestor` filter given, a container passes it exactly when its image is below one that a value of the
filter names -/
theorem ancestorMatches_of_foldFilter (d : Daemon) (rank : Text → ℕ)
    (hrank : ∀ x, ∀ y ∈ d.children x, rank y < rank x) (hbound : ∀ x, rank x ≤ d.images.length)
    {config : ContainerListOptions} {ctx : ListContext} (hctx : foldFilter d config = .ok ctx)
    (hanc : config.filter.includes "ancestor".toList = true) (c : Container) :
    ancestorMatches ctx c = true ↔ ∃ a ∈ config.filter.values "ancestor".toList, ∃ id, d.getImageID a = .ok id ∧
      Below d.children id c.imageID := by
  obtain ⟨-, -, -, -, -, hflag, himages⟩ := foldFilter_ok hctx
  rw [ancestorImages, if_pos hanc] at himages
  obtain ⟨m', hw, -, hmem⟩ := walkAncestors_spec d rank hrank hbound _ [] (fun _ hx => absurd hx List.not_mem_nil)
  rw [hw] at himages
  cases himages
  have hc : c.imageID ∈ ctx.images ↔ ∃ a ∈ config.filter.values "ancestor".toList, ∃ id, d.getImageID a = .ok id ∧
      Below d.children id c.imageID := by
    simpa using hmem c.imageID
  -- a nonempty map is implied by the image being in it
  simp only [ancestorMatches, hflag, hanc, ← hc]
  constructor
  · intro h
    simp_all
  · intro h
    have hne : ctx.images ≠ [] := List.ne_nil_of_mem h
    simp [hne, h]

/-- a daemon with the image `base` and its child `app`, and one container of `app` -/
def baseAndApp : Daemon where
  containers := [⟨"app1".toList, "/app1".toList, true, false, false, false, false, 0, [], [], "app".toList⟩]
  getContainer _ := .error []
  getImageID ref := if ref = "base".toList ∨ ref = "app".toList then .ok ref else .error []
  images := ["base".toList, "app".toList]
  children id := if id = "base".toList then ["app".toList] else []

/-- `docker ps --filter ancestor=base` -/
def ancestorBase : ContainerListOptions := ⟨false, 0, [], [], AList.insert "ancestor".toList ["base".toList] ∅⟩

/-- the container of `app` passes the filter, as `app` is below `base` -/
theorem ancestorMatches_of_foldFilter_base :
    ∃ ctx, foldFilter baseAndApp ancestorBase = .ok ctx ∧
      (ancestorMatches ctx ⟨"app1".toList, "/app1".toList, true, false, false, false, false, 0, [], [], "app".toList⟩ =
          true ↔
        ∃ a ∈ ancestorBase.filter.values "ancestor".toList, ∃ id, baseAndApp.getImageID a = .ok id ∧
          Below baseAndApp.children id "app".toList) := by
  -- `base` is one above `app`, and nothing else has children
  have hrank : ∀ x, ∀ y ∈ baseAndApp.children x, (fun z => if z = "base".toList then 1 else 0) y <
      (fun z => if z = "base".toList then 1 else 0) x := by
    intro x y hy
    by_cases hx : x = "base".toList
    · simp only [baseAndApp, hx, if_true, List.mem_singleton] at hy
      subst hy hx
      decide
    · simp only [baseAndApp, hx, if_false, List.not_mem_nil] at hy
  have hbound : ∀ x, (fun z => if z = "base".toList then 1 else 0) x ≤ baseAndApp.images.length := by
    intro x
    dsimp only
    split_ifs <;> simp [baseAndApp]
  exact ⟨_, rfl, ancestorMatches_of_foldFilter baseAndApp _ hrank hbound rfl (by decide) _⟩

end Ancestors

end DockerEngine.Ps
