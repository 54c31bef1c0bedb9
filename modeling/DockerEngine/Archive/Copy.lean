/-
Lean model of `CopyResource` in `pkg/archive/copy.go` on Linux: the source and the destination as `CopyInfo`
(`CopyInfoSourcePath`, `CopyInfoDestinationPath`), the archive of the source that `TarResourceRebase` makes with the
walk of `TarWithOptions` and `addTarFile`, the six cases of `PrepareArchiveCopy` with `RebaseArchiveEntries`, and the
extraction by `Untar` with the `Unpack` of `Archive.Unpack`.

The file system is that of `Go.Os`, and the paths are absolute. What the walk reads beyond it comes with it: the tree
at the walk root, as `Lstat` and `readDirNames` find it, and the inode of each real path whose node has more than one
link (`hasHardlinks`), by which `addTarFile` keys `SeenFiles`. `filepath.EvalSymlinks` is the kernel's lookup of the
path, which must exist. The archive is made from the file system as it is before the extraction starts: in the code
the walk runs in a goroutine that the extraction reads from, and the model is that of a run where the extraction does
not change what the walk reads. The tar stream is the list of its headers, so errors of the tar reader and writer are
out of the model, and so are sockets, which `addTarFile` leaves out with an error that is only logged.
-/
import DockerEngine.Archive.Changes
import DockerEngine.Go.Walk

namespace DockerEngine.Archive.Copy

open Go

/-! ## Paths -/

/-- `hasTrailingPathSeparator(path)` -/
def hasTrailingPathSeparator (path : Text) : Bool := path.getLast? == some '/'

/-- `specifiesCurrentDir(path)`: the last element is `.` -/
def specifiesCurrentDir (path : Text) : Bool := filepathBase path == ['.']

/-- `assertsDirectory(path)`: the path ends in `/` or `/.` -/
def assertsDirectory (path : Text) : Bool := hasTrailingPathSeparator path || specifiesCurrentDir path

/-- `PreserveTrailingDotOrSeparator(cleanedPath, originalPath)` -/
def preserveTrailingDotOrSeparator (cleanedPath originalPath : Text) : Text :=
  let cleanedPath :=
    if !specifiesCurrentDir cleanedPath && specifiesCurrentDir originalPath then
      (if !hasTrailingPathSeparator cleanedPath then cleanedPath ++ ['/'] else cleanedPath) ++ ['.']
    else cleanedPath
  if !hasTrailingPathSeparator cleanedPath && hasTrailingPathSeparator originalPath then cleanedPath ++ ['/']
  else cleanedPath

/-- `SplitPathDirEntry(path)`: the directory and the last element of the cleaned path, a final `.` kept -/
def splitPathDirEntry (path : Text) : Text × Text :=
  let cleanedPath := if specifiesCurrentDir path then filepathClean path ++ "/.".toList else filepathClean path
  (filepathDir cleanedPath, filepathBase cleanedPath)

/-- `filepath.Split(path)`: the path up to and with its last separator, and the rest -/
def filepathSplit (path : Text) : Text × Text :=
  let dir := (path.reverse.dropWhile (· != '/')).reverse
  (dir, path.drop dir.length)

/-- `strings.Replace(s, old, new, 1)`: the first occurrence of `old` replaced by `new`; an empty `old` occurs at the
start -/
def replaceOnce (old new : Text) : Text → Text
  | [] => if old.isPrefixOf [] then new else []
  | c :: cs => if old.isPrefixOf (c :: cs) then new ++ (c :: cs).drop old.length else c :: replaceOnce old new cs

/-! ## `CopyInfo` -/

/-- `CopyInfo` -/
structure CopyInfo where
  path : Text
  «exists» : Bool
  isDir : Bool
  rebaseName : Text
  deriving DecidableEq, Repr

/-- `ErrNotDirectory` -/
def errNotDirectory : UnpackError := .other "not a directory".toList

/-- `ErrDirNotExists` -/
def errDirNotExists : UnpackError := .other "no such directory".toList

/-- `ErrCannotCopyDir` -/
def errCannotCopyDir : UnpackError := .other "cannot copy directory".toList

/-- `filepath.EvalSymlinks(path)`: the real path, which must exist, written from the root -/
def evalSymlinks (fs : FS) (path : Text) : Except Errno Text := do
  let p ← resolve fs true path
  let _ ← nodeAt fs p
  pure ('/' :: join p '/')

/-- `GetRebaseName(path, resolvedPath)` -/
def getRebaseName (path resolvedPath : Text) : Text × Text :=
  let resolvedPath :=
    if specifiesCurrentDir path && !specifiesCurrentDir resolvedPath then resolvedPath ++ "/.".toList
    else resolvedPath
  let resolvedPath :=
    if hasTrailingPathSeparator path && !hasTrailingPathSeparator resolvedPath then resolvedPath ++ ['/']
    else resolvedPath
  (resolvedPath, if filepathBase path ≠ filepathBase resolvedPath then filepathBase path else [])

/-- `ResolveHostSourcePath(path, followLink)`: the path to copy and the name to rebase it to -/
def resolveHostSourcePath (fs : FS) (path : Text) (followLink : Bool) : Except Errno (Text × Text) :=
  if followLink then do
    let resolvedPath ← evalSymlinks fs path
    pure (getRebaseName path resolvedPath)
  else do
    -- only the symbolic links of the parent directory are resolved
    let resolvedDirPath ← evalSymlinks fs (filepathSplit path).1
    let resolvedPath := resolvedDirPath ++ '/' :: (filepathSplit path).2
    pure (resolvedPath,
      if hasTrailingPathSeparator path && filepathBase path ≠ filepathBase resolvedPath then filepathBase path else [])

/-- `CopyInfoSourcePath(path, followLink)` -/
def copyInfoSourcePath (fs : FS) (path : Text) (followLink : Bool) : Except Errno CopyInfo := do
  let (resolvedPath, rebaseName) ← resolveHostSourcePath fs path followLink
  let stat ← lstat fs resolvedPath
  pure ⟨resolvedPath, true, stat == .dir, rebaseName⟩

/-- `maxSymlinkIter` of `CopyInfoDestinationPath` -/
def maxSymlinkIter : ℕ := 10

/-- `errors.New("too many symlinks in " + originalPath)` -/
def tooManySymlinks (originalPath : Text) : UnpackError := .other ("too many symlinks in ".toList ++ originalPath)

/-- the loop of `CopyInfoDestinationPath` while the path is a symbolic link, at turn `n`: the path reached and its
`Lstat`; `fuel` bounds the turns, which stop at `maxSymlinkIter + 1` -/
def followLinks (fs : FS) (originalPath : Text) : ℕ → ℕ → Text → Except Errno Node →
    Except UnpackError (Text × Except Errno Node)
  | fuel + 1, n, path, .ok (.symlink linkTarget) =>
    if maxSymlinkIter < n then .error (tooManySymlinks originalPath)
    else
      -- a relative target is read from the directory of the link
      let linkTarget :=
        if linkTarget.head? = some '/' then linkTarget else filepathJoin (splitPathDirEntry path).1 linkTarget
      followLinks fs originalPath fuel (n + 1) linkTarget (lstat fs linkTarget)
  | 0, _, _, .ok (.symlink _) => .error (tooManySymlinks originalPath)
  | _, _, path, stat => .ok (path, stat)

/-- `CopyInfoDestinationPath(path)`: a symbolic link is followed to its target, which need not exist if its parent
directory does -/
def copyInfoDestinationPath (fs : FS) (path : Text) : Except UnpackError CopyInfo :=
  match lstat fs path with
  | .ok (.symlink _) | .error _ =>
    match followLinks fs path (maxSymlinkIter + 2) 0 path (lstat fs path) with
    | .error e => .error e
    | .ok (path, .ok stat) => .ok ⟨path, true, stat == .dir, []⟩
    | .ok (path, .error e) =>
      if e ≠ .enoent then .error (.sys e)
      else
        match lstat fs (splitPathDirEntry path).1 with
        | .error e => .error (.sys e)
        | .ok parentDirStat => if parentDirStat ≠ .dir then .error errNotDirectory else .ok ⟨path, false, false, []⟩
  | .ok stat => .ok ⟨path, true, stat == .dir, []⟩

/-! ## The archive of the source -/

/-- the inode of each real path whose node has more than one link: `hasHardlinks(fi)`, and the inode of its stat -/
abbrev Inodes := List Text → Option ℕ

/-- what the walk of `TarWithOptions` keeps: its `seen` map, and of its `tarAppender` the `SeenFiles` and the headers
the writer wrote -/
structure TarAppender where
  seen : List Text
  seenFiles : List (ℕ × Text)
  headers : List Header

/-- `ta.addTarFile(path, name)`: nothing when `Lstat` fails; a non-directory with more than one link is written as a
hard link to the name it was first written under -/
def addTarFile (fs : FS) (inodes : Inodes) (path name : Text) (ta : TarAppender) : TarAppender :=
  match resolve fs false path with
  | .error _ => ta
  | .ok p =>
    match fs p with
    | none => ta
    | some n =>
      let hdr := tarHeader name n
      if n = .dir then { ta with headers := ta.headers ++ [hdr] }
      else
        match inodes p with
        | none => { ta with headers := ta.headers ++ [hdr] }
        | some inode =>
          match ta.seenFiles.lookup inode with
          | some oldpath => { ta with headers := ta.headers ++ [⟨hdr.name, typeLink, oldpath, []⟩] }
          | none => { ta with seenFiles := (inode, hdr.name) :: ta.seenFiles, headers := ta.headers ++ [hdr] }

/-- the `WalkFunc` of `TarWithOptions` for one include, with `IncludeSourceDir` and no exclude pattern, so that nothing
is skipped; `path` is relative to the walk root `walkRootPath` -/
def tarWalkFn (fs : FS) (inodes : Inodes) (srcPath walkRootPath includeFile rebaseName : Text) (path : Text) (_ : Bool)
    (ta : TarAppender) : Option (TarAppender × WalkResult) :=
  let filePath := if path = ['.'] then walkRootPath else filepathJoin walkRootPath path
  match filepathRel srcPath filePath with
  | .error _ => some (ta, .ok)
  | .ok relFilePath =>
    let relFilePath := if includeFile = ['.'] ∧ relFilePath ≠ ['.'] then "./".toList ++ relFilePath else relFilePath
    if relFilePath ∈ ta.seen then some (ta, .ok)
    else
      -- the base resource is renamed, the root directory to the empty name
      let name :=
        if rebaseName ≠ [] then replaceOnce includeFile (if rebaseName ≠ ['/'] then rebaseName else []) relFilePath
        else relFilePath
      some (addTarFile fs inodes filePath name { ta with seen := relFilePath :: ta.seen }, .ok)

/-- `TarWithOptions(srcPath, &TarOptions{IncludeFiles: include, IncludeSourceDir: true, RebaseNames: include ↦
rebaseName})`, uncompressed, with `tree` the tree at its walk root: the headers of the archive -/
def tarWithOptions (fs : FS) (inodes : Inodes) (tree : FileTree) (srcPath includeFile rebaseName : Text) : List Header :=
  match lstat fs srcPath with
  | .error _ => []
  | .ok stat =>
    -- a file is split into its directory and its name, which is then the only include
    let (srcPath, includeFile, rebaseName) :=
      if stat ≠ .dir then
        ((splitPathDirEntry srcPath).1, (splitPathDirEntry srcPath).2,
          if (splitPathDirEntry srcPath).2 = includeFile then rebaseName else [])
      else (srcPath, includeFile, rebaseName)
    match walkRoot (tarWalkFn fs inodes srcPath (srcPath ++ '/' :: includeFile) includeFile rebaseName) tree ⟨[], [], []⟩ with
    | none => []
    | some (ta, _) => ta.headers

/-- `TarResourceRebase(sourcePath, rebaseName)` -/
def tarResourceRebase (fs : FS) (inodes : Inodes) (tree : FileTree) (sourcePath rebaseName : Text) :
    Except Errno (List Header) := do
  let _ ← lstat fs sourcePath
  let (sourceDir, sourceBase) := splitPathDirEntry sourcePath
  pure (tarWithOptions fs inodes tree sourceDir sourceBase rebaseName)

/-- `TarResource(sourceInfo)` -/
def tarResource (fs : FS) (inodes : Inodes) (tree : FileTree) (sourceInfo : CopyInfo) : Except Errno (List Header) :=
  tarResourceRebase fs inodes tree sourceInfo.path sourceInfo.rebaseName

/-! ## The copy -/

/-- `RebaseArchiveEntries(srcContent, oldBase, newBase)`: the first occurrence of `oldBase` in each name is replaced -/
def rebaseArchiveEntries (srcContent : List Header) (oldBase newBase : Text) : List Header :=
  let oldBase := if oldBase = ['/'] then [] else oldBase
  srcContent.map fun hdr => { hdr with name := replaceOnce oldBase newBase hdr.name }

/-- `PrepareArchiveCopy(srcContent, srcInfo, dstInfo)`: the directory to extract to, and the archive to extract -/
def prepareArchiveCopy (srcContent : List Header) (srcInfo dstInfo : CopyInfo) : Except UnpackError (Text × List Header) :=
  let srcBase := if srcInfo.rebaseName ≠ [] then srcInfo.rebaseName else (splitPathDirEntry srcInfo.path).2
  if dstInfo.exists ∧ dstInfo.isDir then .ok (dstInfo.path, srcContent)
  else if dstInfo.exists ∧ srcInfo.isDir then .error errCannotCopyDir
  else if dstInfo.exists then
    .ok ((splitPathDirEntry dstInfo.path).1, rebaseArchiveEntries srcContent srcBase (splitPathDirEntry dstInfo.path).2)
  else if srcInfo.isDir then
    .ok ((splitPathDirEntry dstInfo.path).1, rebaseArchiveEntries srcContent srcBase (splitPathDirEntry dstInfo.path).2)
  else if assertsDirectory dstInfo.path then .error errDirNotExists
  else .ok ((splitPathDirEntry dstInfo.path).1, rebaseArchiveEntries srcContent srcBase (splitPathDirEntry dstInfo.path).2)

/-- a step that only reads, in the extraction's monad -/
def ofExcept {α : Type} : Except UnpackError α → UnpackM α
  | .ok a => pure a
  | .error e => throw e

/-- `Untar(archive, dest, options)` of an uncompressed archive -/
def untar (entries : List Header) (dest : Text) (options : TarOptions) : UnpackM Unit :=
  unpack entries (filepathClean dest) options

/-- `CopyTo(content, srcInfo, dstPath)` -/
def copyTo (content : List Header) (srcInfo : CopyInfo) (dstPath : Text) : UnpackM Unit := do
  let dstInfo ← ofExcept (copyInfoDestinationPath (← get) dstPath)
  let (dstDir, copyArchive) ← ofExcept (prepareArchiveCopy content srcInfo dstInfo)
  untar copyArchive dstDir { noOverwriteDirNonDir := true }

/-- `CopyResource(srcPath, dstPath, followLink)`, with the tree at the source and the inodes the walk reads -/
def copyResource (inodes : Inodes) (tree : FileTree) (srcPath dstPath : Text) (followLink : Bool) : UnpackM Unit := do
  let srcPath := preserveTrailingDotOrSeparator (filepathClean srcPath) srcPath
  let dstPath := preserveTrailingDotOrSeparator (filepathClean dstPath) dstPath
  let fs ← get
  let srcInfo ← ofExcept ((copyInfoSourcePath fs srcPath followLink).mapError .sys)
  let content ← ofExcept ((tarResource fs inodes tree srcInfo).mapError .sys)
  copyTo content srcInfo dstPath

/-! ## Hard links -/

/-- the root, `/t`, and `/s/b` with two names `f` and `g` of one file -/
def hardlinkFS : FS := fun q =>
  if q = [] ∨ q = ["s".toList] ∨ q = ["s".toList, "b".toList] ∨ q = ["t".toList] then some .dir
  else if q = ["s".toList, "b".toList, "f".toList] ∨ q = ["s".toList, "b".toList, "g".toList] then some (.file [1])
  else none

/-- `f` and `g` are one inode -/
def hardlinkInodes : Inodes := fun q =>
  if q = ["s".toList, "b".toList, "f".toList] ∨ q = ["s".toList, "b".toList, "g".toList] then some 7 else none

/-- the tree at `/s/b` -/
def hardlinkTree : FileTree := .dir [("f".toList, .file), ("g".toList, .file)]

theorem copyResource_breaks_hardlinks :
    ((copyResource hardlinkInodes hardlinkTree "/s/b".toList "/t/d".toList false).run.run hardlinkFS).1 =
        .error (.sys .enoent) ∧
      ((copyResource hardlinkInodes hardlinkTree "/s/b".toList "/t/d".toList false).run.run hardlinkFS).2
        ["t".toList, "d".toList, "f".toList] = some (.file [1]) ∧
      ((copyResource hardlinkInodes hardlinkTree "/s/b".toList "/t/d".toList false).run.run hardlinkFS).2
        ["t".toList, "d".toList, "g".toList] = none := by
  refine ⟨by decide, by decide, by decide⟩

end DockerEngine.Archive.Copy
