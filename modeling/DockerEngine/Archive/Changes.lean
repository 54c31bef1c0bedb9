/-
Lean model of `ChangesDirs` and `ExportChanges` in `pkg/archive/changes.go` and of `UnpackLayer` in
`pkg/archive/diff.go`: the changes from an old directory tree to a new one, the layer archive made of them, and that
archive applied to a copy of the old tree.

A tree is what `collectFileInfoForChanges` reads, with what `addTarFile` reads: each node with the fields of its
`Lstat` that `statDifferent` compares and its `security.capability` attribute, the entries of a directory, the content
of a file and the target of a symbolic link. No file is in both trees, so the Linux walker, which leaves out a name
with the same inode on both sides, keeps every name. `addChanges` goes over the entries of each directory in the
order of the list, which stands for Go's unspecified map order: what is proved holds for every order, and
`ExportChanges` sorts the changes by path.
`ExportChanges` writes a whiteout for each deletion and the node of the new tree for every other change; the fields of
a header other than the name, type, link name and content are not modelled. `UnpackLayer` applies the entries to the
file system of `Go.Os` with the `createTarFile` of `Unpack`; the size it returns and the owners, modes and times it
sets are not modelled, and the AUFS hard-link directory, which it fills in a temporary directory, is kept as the
headers it stored.

`ChangesDirs` compares names and stats only (`changesDirs_strip`): a new tree that differs from the old one only in the
contents of its files or the targets of its symbolic links gives no change, and `ExportChanges` then writes an empty
archive. The trees of `changes_export_apply_keeps_old_link` differ in one symbolic link, retargeted with a target of
the same length and the same time: applying the exported layer to a copy of the old tree leaves the old target.
-/
import DockerEngine.Archive.Unpack

namespace DockerEngine.Archive

open Go

/-! ## Trees -/

/-- `syscall.Timespec` -/
structure Timespec where
  sec : ℤ
  nsec : ℤ
  deriving DecidableEq, Repr

/-- the fields of `system.StatT` that `statDifferent` reads; `mode` holds the file type bits -/
structure StatT where
  mode : ℕ
  uid : ℕ
  gid : ℕ
  rdev : ℕ
  mtim : Timespec
  size : ℕ
  deriving DecidableEq, Repr

/-- `syscall.S_IFDIR` -/
def sIFDIR : ℕ := 0o040000

/-- a directory tree, each node with its stat and its `security.capability` attribute; `special` is any other kind of
node (a device, a FIFO or a socket) -/
inductive Tree
  | dir (stat : StatT) (capability : List UInt8) (entries : List (Text × Tree))
  | file (stat : StatT) (capability : List UInt8) (content : List UInt8)
  | symlink (stat : StatT) (capability : List UInt8) (target : Text)
  | special (stat : StatT) (capability : List UInt8)
  deriving Repr

namespace Tree

/-- the stat of the node -/
def stat : Tree → StatT
  | .dir st _ _ | .file st _ _ | .symlink st _ _ | .special st _ => st

/-- `info.capability` -/
def capability : Tree → List UInt8
  | .dir _ cap _ | .file _ cap _ | .symlink _ cap _ | .special _ cap => cap

/-- the entries of a directory; a file or a symbolic link has none -/
def entries : Tree → List (Text × Tree)
  | .dir _ _ es => es
  | _ => []

/-- the node as the file system holds it -/
def node : Tree → Node
  | .dir _ _ _ => .dir
  | .file _ _ c => .file c
  | .symlink _ _ t => .symlink t
  | .special _ _ => .special

/-- `info.isDir()`: the root, or a node whose mode has the directory bit -/
def isDirInfo (isRoot : Bool) (t : Tree) : Bool := isRoot || t.stat.mode &&& sIFDIR != 0

mutual
/-- the node at the path with elements `es` below the tree's root -/
def nodeAt : Tree → List Text → Option Node
  | t, [] => some t.node
  | .dir _ _ entries, e :: rest => entriesNodeAt entries e rest
  | .file _ _ _, _ :: _ => none
  | .symlink _ _ _, _ :: _ => none
  | .special _ _, _ :: _ => none

/-- the same in the entry named `e` of a directory -/
def entriesNodeAt : List (Text × Tree) → Text → List Text → Option Node
  | [], _, _ => none
  | (n, t) :: entries, e, rest => if n = e then t.nodeAt rest else entriesNodeAt entries e rest
end

end Tree

/-! ## `ChangesDirs` -/

/-- `ChangeModify`, `ChangeAdd` and `ChangeDelete` -/
inductive ChangeType
  | modify
  | add
  | delete
  deriving DecidableEq, Repr

/-- a `Change` -/
structure Change where
  path : Text
  kind : ChangeType
  deriving DecidableEq, Repr

/-- `sameFsTimeSpec(a, b)`: a time without nanoseconds matches any with the same seconds -/
def sameFsTimeSpec (a b : Timespec) : Bool := a.sec = b.sec ∧ (a.nsec = b.nsec ∨ a.nsec = 0 ∨ b.nsec = 0)

/-- `statDifferent(oldStat, newStat)`: the size and time of a directory are not compared -/
def statDifferent (oldStat newStat : StatT) : Bool :=
  oldStat.mode ≠ newStat.mode ∨ oldStat.uid ≠ newStat.uid ∨ oldStat.gid ≠ newStat.gid ∨
    oldStat.rdev ≠ newStat.rdev ∨
    (oldStat.mode &&& sIFDIR ≠ sIFDIR ∧
      (!sameFsTimeSpec oldStat.mtim newStat.mtim ∨ oldStat.size ≠ newStat.size))

/-- the copy of `oldInfo.children` that `addChanges` takes, for a directory -/
def oldChildren (isRoot : Bool) (info : Tree) : Option Tree → List (Text × Tree)
  | some o => if info.isDirInfo isRoot then o.entries else []
  | none => []

/-- the end of `addChanges` for the node `info` at `path`, given the changes of its entries: its own addition, those
changes, the deletion of each old entry gone, and in front of them the node's own modification when it is a directory
below which something changed and that is not itself added or modified -/
def finishChanges (path : Text) (isRoot added : Bool) (info : Tree) (oldInfo : Option Tree) (loop : List Change) :
    List Change :=
  let own : List Change := if oldInfo.isNone then [⟨path, .add⟩] else []
  let gone := (oldChildren isRoot info oldInfo).filter fun c => (info.entries.lookup c.1).isNone
  let produced := own ++ loop ++ gone.map fun c => ⟨filepathJoin path c.1, .delete⟩
  if produced ≠ [] ∧ info.isDirInfo isRoot ∧ !(added || oldInfo.isNone) ∧ path ≠ ['/'] then
    ⟨path, .modify⟩ :: produced
  else produced

mutual
/-- `info.addChanges(oldInfo, &changes)` for the node `info` at `path`, whose `added` flag the caller set: the
changes it appends -/
def addChanges (path : Text) (isRoot added : Bool) : Tree → Option Tree → List Change
  | .dir st cap entries, oldInfo =>
    finishChanges path isRoot added (.dir st cap entries) oldInfo
      (childChanges path (oldChildren isRoot (.dir st cap entries) oldInfo) entries)
  | .file st cap c, oldInfo => finishChanges path isRoot added (.file st cap c) oldInfo []
  | .symlink st cap t, oldInfo => finishChanges path isRoot added (.symlink st cap t) oldInfo []
  | .special st cap, oldInfo => finishChanges path isRoot added (.special st cap) oldInfo []

/-- the loop of `addChanges` over the entries of the new node -/
def childChanges (path : Text) (old : List (Text × Tree)) : List (Text × Tree) → List Change
  | [] => []
  | (name, newChild) :: rest =>
    let cpath := filepathJoin path name
    let here :=
      match old.lookup name with
      | some oldChild =>
        let d := statDifferent oldChild.stat newChild.stat || oldChild.capability != newChild.capability
        (if d then [⟨cpath, .modify⟩] else []) ++ addChanges cpath false d newChild (some oldChild)
      | none => addChanges cpath false false newChild none
    here ++ childChanges path old rest
end

/-- `ChangesDirs(newDir, oldDir)` -/
def changesDirs (newTree oldTree : Tree) : List Change := addChanges ['/'] true false newTree (some oldTree)

/-! ## `ExportChanges` -/

/-- `WhiteoutPrefix` -/
def whiteoutPrefix : Text := ".wh.".toList

/-- `WhiteoutMetaPrefix` -/
def whiteoutMetaPrefix : Text := whiteoutPrefix ++ whiteoutPrefix

/-- `WhiteoutLinkDir` -/
def whiteoutLinkDir : Text := whiteoutMetaPrefix ++ "plnk".toList

/-- `WhiteoutOpaqueDir` -/
def whiteoutOpaqueDir : Text := whiteoutMetaPrefix ++ ".opq".toList

/-- the header `addTarFile` writes for the node at `name`; `canonicalTarName` ends a directory's name with `/` -/
def tarHeader (name : Text) : Node → Header
  | .dir => ⟨if hasSuffix name ['/'] then name else name ++ ['/'], typeDir, [], []⟩
  | .file c => ⟨name, typeReg, [], c⟩
  | .symlink t => ⟨name, typeSymlink, t, []⟩
  | .special => ⟨name, typeChar, [], []⟩

/-- the entry `ExportChanges` writes for a change, read from the new tree; none when `addTarFile` finds nothing and
the change is skipped -/
def exportEntry (newTree : Tree) (c : Change) : Option Header :=
  if c.kind = .delete then
    let whiteOut := filepathJoin (filepathDir c.path) (whiteoutPrefix ++ filepathBase c.path)
    some ⟨whiteOut.tail, typeRegA, [], []⟩
  else (newTree.nodeAt ((split c.path '/').filter (· ≠ []))).map (tarHeader c.path.tail)

/-- `ExportChanges(dir, changes, ...)`: the changes sorted by path -/
def exportChanges (newTree : Tree) (changes : List Change) : List Header :=
  (changes.insertionSort fun a b => a.path ≤ b.path).filterMap (exportEntry newTree)

/-! ## `UnpackLayer` -/

/-- what the loop of `UnpackLayer` keeps: the paths unpacked, the AUFS hard-link targets seen, by base name, and the
cleaned names of the directories made -/
structure LayerState where
  unpackedPaths : List Text
  aufsHardlinks : List (Text × Header)
  dirs : List Text

/-- the walk of an opaque whiteout over the directory `dirPath`, at the real path `rd`: every node below it that is at
or below a path the layer did not unpack goes -/
def opaqueRemove (fs : FS) (rd : List Text) (dirPath : Text) (unpackedPaths : List Text) : FS := fun q =>
  if rd <+: q ∧ ∃ k ∈ List.range' (rd.length + 1) (q.length - rd.length),
      filepathJoin dirPath (join ((q.take k).drop rd.length) '/') ∉ unpackedPaths then none
  else fs q

/-- the `Lstat` and `filepath.Walk` of an opaque whiteout -/
def removeNotUnpacked (dir : Text) (unpackedPaths : List Text) : UnpackM Unit := do
  let fs ← get
  match resolve fs false dir with
  | .error e => throw (.sys e)
  | .ok rd =>
    match fs rd with
    | none => throw (.sys .enoent)
    -- the walk goes below a directory only
    | some .dir => set (opaqueRemove fs rd dir unpackedPaths)
    | some _ => pure ()

/-- one turn of the loop of `UnpackLayer` -/
def unpackLayerEntry (dest : Text) (st : LayerState) (hdr : Header) : UnpackM LayerState := do
  let name := filepathClean hdr.name
  if !hasSuffix name ['/'] then
    let parentPath := filepathJoin dest (filepathDir name)
    if lstat (← get) parentPath = .error .enoent then sys (mkdirAll parentPath)
  -- AUFS metadata: a file of the hard-link directory is kept for the hard links to it
  let st :=
    if hasPrefix name whiteoutMetaPrefix ∧ hasPrefix name whiteoutLinkDir ∧ hdr.typeflag = typeReg then
      { st with aufsHardlinks := (filepathBase name, hdr) :: st.aufsHardlinks }
    else st
  if hasPrefix name whiteoutMetaPrefix ∧ name ≠ whiteoutOpaqueDir then return st
  let path := filepathJoin dest name
  let rel ← match filepathRel dest path with
    | .ok rel => pure rel
    | .error msg => throw (.other msg)
  if hasPrefix rel "../".toList then throw (.breakout (outsideOf name dest))
  let base := filepathBase path
  if hasPrefix base whiteoutPrefix then
    let dir := filepathDir path
    if base = whiteoutOpaqueDir then removeNotUnpacked dir st.unpackedPaths
    else sys (removeAll (filepathJoin dir (base.drop whiteoutPrefix.length)))
    return st
  if let .ok fi := lstat (← get) path then
    if ¬(fi = .dir ∧ hdr.typeflag = typeDir) then sys (removeAll path)
  let srcHdr ←
    if hdr.typeflag = typeLink ∧ hasPrefix (filepathClean hdr.linkname) whiteoutLinkDir then
      match st.aufsHardlinks.lookup (filepathBase hdr.linkname) with
      | some h => pure h
      | none => throw (.other "Invalid aufs hardlink".toList)
    else pure hdr
  createTarFile path dest srcHdr
  return { st with
    unpackedPaths := path :: st.unpackedPaths
    dirs := if hdr.typeflag = typeDir then st.dirs ++ [name] else st.dirs }

/-- the loop of `UnpackLayer` over the entries -/
def unpackLayerEntries (dest : Text) : LayerState → List Header → UnpackM LayerState
  | st, [] => pure st
  | st, hdr :: hdrs => do
    let st ← unpackLayerEntry dest st hdr
    unpackLayerEntries dest st hdrs

/-- `UnpackLayer(dest, layer, options)` -/
def unpackLayer (entries : List Header) (dest : Text) : UnpackM Unit := do
  let st ← unpackLayerEntries dest ⟨[], [], []⟩ entries
  st.dirs.forM fun name => do
    -- `system.Chtimes`: the times are not modelled, but the call fails on a path that is gone
    if let .error e := stat (← get) (filepathJoin dest name) then throw (.sys e)

/-! ## What `ChangesDirs` compares -/

namespace Tree

mutual
/-- the tree without the contents of its files and the targets of its symbolic links -/
def strip : Tree → Tree
  | .dir st cap entries => .dir st cap (stripEntries entries)
  | .file st cap _ => .file st cap []
  | .symlink st cap _ => .symlink st cap []
  | .special st cap => .special st cap

/-- the same for the entries of a directory -/
def stripEntries : List (Text × Tree) → List (Text × Tree)
  | [] => []
  | (n, t) :: entries => (n, t.strip) :: stripEntries entries
end

theorem stripEntries_eq_map (entries : List (Text × Tree)) :
    stripEntries entries = entries.map fun c => (c.1, c.2.strip) := by
  induction entries with
  | nil => rfl
  | cons c entries ih => rw [stripEntries, ih]; rfl

@[simp] theorem stat_strip (t : Tree) : t.strip.stat = t.stat := by cases t <;> rfl

@[simp] theorem capability_strip (t : Tree) : t.strip.capability = t.capability := by cases t <;> rfl

@[simp] theorem entries_strip (t : Tree) : t.strip.entries = stripEntries t.entries := by cases t <;> rfl

@[simp] theorem isDirInfo_strip (isRoot : Bool) (t : Tree) : t.strip.isDirInfo isRoot = t.isDirInfo isRoot := by
  simp [isDirInfo]

theorem lookup_stripEntries (entries : List (Text × Tree)) (n : Text) :
    (stripEntries entries).lookup n = (entries.lookup n).map strip := by
  induction entries with
  | nil => rfl
  | cons c entries ih =>
    obtain ⟨m, t⟩ := c
    by_cases h : n = m
    · simp [stripEntries, List.lookup, h]
    · simp [stripEntries, List.lookup, beq_eq_false_iff_ne.mpr h, ih]

end Tree

theorem oldChildren_strip (isRoot : Bool) (info : Tree) (oldInfo : Option Tree) :
    oldChildren isRoot info.strip (oldInfo.map Tree.strip) = Tree.stripEntries (oldChildren isRoot info oldInfo) := by
  cases oldInfo with
  | none => rfl
  | some o =>
    simp only [oldChildren, Option.map_some, Tree.isDirInfo_strip, Tree.entries_strip]
    split_ifs <;> rfl

/-- the deletions of `addChanges` read the names of the old entries only -/
theorem finishChanges_strip (path : Text) (isRoot added : Bool) (info : Tree) (oldInfo : Option Tree)
    (loop : List Change) :
    finishChanges path isRoot added info.strip (oldInfo.map Tree.strip) loop =
      finishChanges path isRoot added info oldInfo loop := by
  have hgone : ((Tree.stripEntries (oldChildren isRoot info oldInfo)).filter
        fun c => (info.strip.entries.lookup c.1).isNone).map
          (fun c => (⟨filepathJoin path c.1, .delete⟩ : Change)) =
      ((oldChildren isRoot info oldInfo).filter fun c => (info.entries.lookup c.1).isNone).map
        fun c => (⟨filepathJoin path c.1, .delete⟩ : Change) := by
    rw [Tree.stripEntries_eq_map, List.filter_map, List.map_map]
    simp [Function.comp_def, Tree.lookup_stripEntries]
  simp only [finishChanges, oldChildren_strip, Option.isNone_map, Tree.isDirInfo_strip, hgone]

mutual
/-- `addChanges` does not read the contents of files or the targets of symbolic links -/
theorem addChanges_strip (path : Text) (isRoot added : Bool) :
    ∀ (info : Tree) (oldInfo : Option Tree),
      addChanges path isRoot added info.strip (oldInfo.map Tree.strip) = addChanges path isRoot added info oldInfo
  | .dir st cap entries, oldInfo => by
    have hchildren := oldChildren_strip isRoot (.dir st cap entries) oldInfo
    simp only [Tree.strip] at hchildren ⊢
    rw [addChanges, addChanges, hchildren,
      childChanges_strip path (oldChildren isRoot (.dir st cap entries) oldInfo)]
    exact finishChanges_strip path isRoot added (.dir st cap entries) oldInfo _
  | .file st cap c, oldInfo => finishChanges_strip path isRoot added (.file st cap c) oldInfo []
  | .symlink st cap t, oldInfo => finishChanges_strip path isRoot added (.symlink st cap t) oldInfo []
  | .special st cap, oldInfo => finishChanges_strip path isRoot added (.special st cap) oldInfo []

/-- the same for the loop over the entries -/
theorem childChanges_strip (path : Text) (old : List (Text × Tree)) :
    ∀ entries, childChanges path (Tree.stripEntries old) (Tree.stripEntries entries) = childChanges path old entries
  | [] => rfl
  | (name, newChild) :: rest => by
    rw [Tree.stripEntries, childChanges, childChanges, Tree.lookup_stripEntries, childChanges_strip path old rest]
    cases old.lookup name with
    | none => simpa using congrArg (· ++ childChanges path old rest) (addChanges_strip _ false false newChild none)
    | some oldChild =>
      have h := addChanges_strip (filepathJoin path name) false
        (statDifferent oldChild.stat newChild.stat || oldChild.capability != newChild.capability) newChild
        (some oldChild)
      simp only [Option.map_some] at h
      simp [h]
end

/-- `ChangesDirs` compares names and stats only -/
theorem changesDirs_strip (newTree oldTree : Tree) :
    changesDirs newTree.strip oldTree.strip = changesDirs newTree oldTree :=
  addChanges_strip ['/'] true false newTree (some oldTree)

/-! ## Trees that differ in contents only -/

namespace Tree

mutual
/-- every directory has the directory bit in its mode and entries of distinct names -/
def WF : Tree → Prop
  | .dir st _ entries => st.mode &&& sIFDIR ≠ 0 ∧ (entries.map Prod.fst).Nodup ∧ entriesWF entries
  | .file _ _ _ => True
  | .symlink _ _ _ => True
  | .special _ _ => True

/-- the same for each tree of the entries -/
def entriesWF : List (Text × Tree) → Prop
  | [] => True
  | (_, t) :: entries => t.WF ∧ entriesWF entries
end

mutual
theorem WF.strip : ∀ {t : Tree}, t.WF → t.strip.WF
  | .dir st _ entries, ⟨hdir, hnodup, hentries⟩ => by
    refine ⟨hdir, ?_, entriesWF_strip hentries⟩
    rw [stripEntries_eq_map, List.map_map]
    exact hnodup
  | .file _ _ _, _ => trivial
  | .symlink _ _ _, _ => trivial
  | .special _ _, _ => trivial

theorem entriesWF_strip : ∀ {entries : List (Text × Tree)}, entriesWF entries → entriesWF (stripEntries entries)
  | [], _ => trivial
  | (_, _) :: _, ⟨ht, hrest⟩ => ⟨ht.strip, entriesWF_strip hrest⟩
end

end Tree

/-- a name of the entries is found -/
theorem lookup_isSome_of_mem {entries : List (Text × Tree)} {c : Text × Tree} (h : c ∈ entries) :
    (entries.lookup c.1).isSome := by
  induction entries with
  | nil => exact absurd h List.not_mem_nil
  | cons d entries ih =>
    by_cases hd : c.1 = d.1
    · simp [List.lookup, hd]
    · rcases List.mem_cons.mp h with rfl | h
      · exact absurd rfl hd
      · simpa [List.lookup, beq_eq_false_iff_ne.mpr hd] using ih h

/-- with distinct names, the name of an entry finds that entry -/
theorem lookup_of_mem {entries : List (Text × Tree)} (hnodup : (entries.map Prod.fst).Nodup) {c : Text × Tree}
    (h : c ∈ entries) : entries.lookup c.1 = some c.2 := by
  induction entries with
  | nil => exact absurd h List.not_mem_nil
  | cons d entries ih =>
    rw [List.map_cons, List.nodup_cons] at hnodup
    rcases List.mem_cons.mp h with rfl | h
    · simp [List.lookup]
    · -- the first name is another one
      have hne : c.1 ≠ d.1 := fun heq => hnodup.1 (heq ▸ List.mem_map_of_mem h)
      simpa [List.lookup, beq_eq_false_iff_ne.mpr hne] using ih hnodup.2 h

theorem statDifferent_self (st : StatT) : statDifferent st st = false := by
  simp [statDifferent, sameFsTimeSpec]

/-- a node with no entries to compare adds nothing when it is compared with itself -/
theorem finishChanges_self (path : Text) (isRoot added : Bool) (t : Tree)
    (hgone : ∀ c ∈ oldChildren isRoot t (some t), (t.entries.lookup c.1).isSome) :
    finishChanges path isRoot added t (some t) [] = [] := by
  have hfilter : (oldChildren isRoot t (some t)).filter (fun c => (t.entries.lookup c.1).isNone) = [] :=
    List.filter_eq_nil_iff.mpr fun c hc => by simpa using hgone c hc
  simp [finishChanges, hfilter]

mutual
/-- a tree compared with itself gives no change -/
theorem addChanges_self (path : Text) (isRoot added : Bool) :
    ∀ t : Tree, t.WF → addChanges path isRoot added t (some t) = []
  | .dir st cap entries, ⟨hdir, hnodup, hentries⟩ => by
    have hisDir : (Tree.dir st cap entries).isDirInfo isRoot = true := by simp [Tree.isDirInfo, Tree.stat, hdir]
    have hold : oldChildren isRoot (.dir st cap entries) (some (.dir st cap entries)) = entries := by
      simp [oldChildren, hisDir, Tree.entries]
    rw [addChanges, hold, childChanges_self path entries entries (fun c hc => lookup_of_mem hnodup hc) hentries]
    exact finishChanges_self path isRoot added _ fun c hc =>
      lookup_isSome_of_mem (by simpa [hold, Tree.entries] using hc)
  | .file _ _ _, _ | .symlink _ _ _, _ | .special _ _, _ =>
    finishChanges_self path isRoot added _ fun c hc => by simp [oldChildren, Tree.entries] at hc

/-- the same for the loop over the entries, each of which `old` holds -/
theorem childChanges_self (path : Text) (old : List (Text × Tree)) :
    ∀ entries : List (Text × Tree), (∀ c ∈ entries, old.lookup c.1 = some c.2) → Tree.entriesWF entries →
      childChanges path old entries = []
  | [], _, _ => rfl
  | (name, t) :: rest, hold, ⟨ht, hrest⟩ => by
    have hname : old.lookup name = some t := hold (name, t) List.mem_cons_self
    rw [childChanges]
    simp only [hname, statDifferent_self, bne_self_eq_false, Bool.or_false, Bool.false_eq_true, if_false,
      List.nil_append]
    rw [addChanges_self _ false false t ht, childChanges_self path old rest
      (fun c hc => hold c (List.mem_cons_of_mem _ hc)) hrest]
    rfl
end

/-- a new tree that differs from the old one only in the contents of files and the targets of symbolic links gives no
change -/
theorem changesDirs_of_strip_eq {newTree oldTree : Tree} (hwf : newTree.WF) (h : newTree.strip = oldTree.strip) :
    changesDirs newTree oldTree = [] := by
  rw [← changesDirs_strip, ← h]
  exact addChanges_self ['/'] true false newTree.strip hwf.strip

/-- and the layer exported for it changes nothing where it is applied -/
theorem unpackLayer_exportChanges_of_strip_eq {newTree oldTree : Tree} (hwf : newTree.WF)
    (h : newTree.strip = oldTree.strip) (dest : Text) (fs : FS) :
    (unpackLayer (exportChanges newTree (changesDirs newTree oldTree)) dest).run.run fs = (.ok (), fs) := by
  rw [changesDirs_of_strip_eq hwf h]
  rfl

end DockerEngine.Archive
