/-
Lean model of `Unpack` and `createTarFile` in `pkg/archive/archive.go`: what extracting the entries of an archive into
`dest` does to the file system of `Go.Os`.

Each entry's name is cleaned; the parent directory is made when `Lstat` finds nothing there; `filepath.Rel` from
`dest` must not start with `../`; whatever is at the path goes unless both are directories; then the node is made.
A symbolic link's target must start, as text, with `dest` once joined to the directory of the link.

These checks are lexical, and lookup is not. Three archives reach past `dest` (`unpack_escapes_dest`): a symbolic link
to `.` makes the directory of a second link one level higher than its text says, so a link to `..` checked as `dest`
names the parent of `dest` and a file written through it lands outside, with no error; an entry `../x/y` has its parent
`/x` made before the check of `Rel` rejects it; and `Rel` gives `..`, not `../`, for the entry `..` itself, so a file of
that name has the parent of `dest`, with all it holds, removed.

Owners, modes, times and extended attributes are not modelled, nor are the `UIDMaps` and `GIDMaps` of the options
that only map them; the entries come as a list, so errors of the tar reader are out of the model too.
-/
import DockerEngine.Go.Filepath
import DockerEngine.Go.Os

namespace DockerEngine.Archive

open Go

/-! ## Entries and options -/

/-- `tar.TypeReg` -/
def typeReg : Char := '0'
/-- `tar.TypeRegA` -/
def typeRegA : Char := '\x00'
/-- `tar.TypeLink` -/
def typeLink : Char := '1'
/-- `tar.TypeSymlink` -/
def typeSymlink : Char := '2'
/-- `tar.TypeChar` -/
def typeChar : Char := '3'
/-- `tar.TypeBlock` -/
def typeBlock : Char := '4'
/-- `tar.TypeDir` -/
def typeDir : Char := '5'
/-- `tar.TypeFifo` -/
def typeFifo : Char := '6'
/-- `tar.TypeXGlobalHeader` -/
def typeXGlobalHeader : Char := 'g'

/-- the fields of a `tar.Header` that `Unpack` reads, with the entry's content -/
structure Header where
  name : Text
  typeflag : Char
  linkname : Text
  content : List UInt8
  deriving DecidableEq, Repr

/-- the fields of `TarOptions` that `Unpack` reads and that are modelled -/
structure TarOptions where
  excludePatterns : List Text := []
  noOverwriteDirNonDir : Bool := false

/-- what `Unpack` fails with -/
inductive UnpackError
  /-- an error of a call -/
  | sys (e : Errno)
  /-- a `breakoutError` -/
  | breakout (msg : Text)
  /-- an error made with `fmt.Errorf` or `errors.New` -/
  | other (msg : Text)
  deriving DecidableEq, Repr

/-- extraction: it may fail, and what it changed before it failed stays -/
abbrev UnpackM := ExceptT UnpackError (StateM FS)

/-- a call, its error wrapped -/
def sys {α : Type} (x : OsM α) : UnpackM α := ExceptT.adapt UnpackError.sys x

/-! ## `createTarFile` -/

/-- `fmt.Errorf("invalid hardlink %q -> %q", targetPath, hdr.Linkname)` -/
def invalidHardlink (targetPath linkname : Text) : Text :=
  "invalid hardlink ".toList ++ quote targetPath ++ " -> ".toList ++ quote linkname

/-- `fmt.Errorf("invalid symlink %q -> %q", path, hdr.Linkname)` -/
def invalidSymlink (path linkname : Text) : Text :=
  "invalid symlink ".toList ++ quote path ++ " -> ".toList ++ quote linkname

/-- `fmt.Errorf("Unhandled tar header type %d\n", hdr.Typeflag)` -/
def unhandledType (typeflag : Char) : Text :=
  "Unhandled tar header type ".toList ++ (Nat.repr typeflag.toNat).toList ++ ['\n']

/-- `idtools.MkdirAllNewAs(path, mode, uid, gid)`: `os.MkdirAll` unless `os.Stat` finds the path, an `EEXIST` from it
being no error. The walk back over the parents only reads (for the owners set afterwards), and `dest` is absolute, so
it ends at `/`. -/
def mkdirAllNewAs (path : Text) : OsM Unit := do
  match stat (← get) path with
  | .ok _ => pure ()
  | .error _ => tryCatch (mkdirAll path) fun e => if e = .eexist then pure () else throw e

/-- `createTarFile(path, extractDir, hdr, reader, ...)`, but for the owners, modes and times it sets at the end -/
def createTarFile (path extractDir : Text) (hdr : Header) : UnpackM Unit := do
  if hdr.typeflag = typeDir then
    -- a directory already there is merged with
    match lstat (← get) path with
    | .ok .dir => pure ()
    | _ => sys (mkdir path)
  else if hdr.typeflag = typeReg ∨ hdr.typeflag = typeRegA then sys (writeFile path hdr.content)
  else if hdr.typeflag = typeBlock ∨ hdr.typeflag = typeChar ∨ hdr.typeflag = typeFifo then sys (mknod path)
  else if hdr.typeflag = typeLink then
    let targetPath := filepathJoin extractDir hdr.linkname
    if !hasPrefix targetPath extractDir then throw (.breakout (invalidHardlink targetPath hdr.linkname))
    sys (link targetPath path)
  else if hdr.typeflag = typeSymlink then
    let targetPath := filepathJoin (filepathDir path) hdr.linkname
    if !hasPrefix targetPath extractDir then throw (.breakout (invalidSymlink path hdr.linkname))
    sys (symlink hdr.linkname path)
  else if hdr.typeflag = typeXGlobalHeader then pure ()
  else throw (.other (unhandledType hdr.typeflag))

/-! ## `Unpack` -/

/-- `fmt.Errorf("%q is outside of %q", hdr.Name, dest)` -/
def outsideOf (name dest : Text) : Text := quote name ++ " is outside of ".toList ++ quote dest

/-- `fmt.Errorf("cannot overwrite directory %q with non-directory %q", path, dest)` -/
def cannotOverwriteDir (path dest : Text) : Text :=
  "cannot overwrite directory ".toList ++ quote path ++ " with non-directory ".toList ++ quote dest

/-- `fmt.Errorf("cannot overwrite non-directory %q with directory %q", path, dest)` -/
def cannotOverwriteNonDir (path dest : Text) : Text :=
  "cannot overwrite non-directory ".toList ++ quote path ++ " with directory ".toList ++ quote dest

/-- one turn of the loop of `Unpack`; the cleaned name of a directory it made, whose times are set at the end -/
def unpackEntry (dest : Text) (options : TarOptions) (hdr : Header) : UnpackM (Option Text) := do
  let name := filepathClean hdr.name
  if options.excludePatterns.any (hasPrefix name) then return none
  if !hasSuffix name ['/'] then
    -- not the root: the parent directory is made when nothing is there
    let parentPath := filepathJoin dest (filepathDir name)
    if lstat (← get) parentPath = .error .enoent then sys (mkdirAllNewAs parentPath)
  let path := filepathJoin dest name
  let rel ← match filepathRel dest path with
    | .ok rel => pure rel
    | .error msg => throw (.other msg)
  if hasPrefix rel "../".toList then throw (.breakout (outsideOf name dest))
  if let .ok fi := lstat (← get) path then
    if options.noOverwriteDirNonDir ∧ fi = .dir ∧ hdr.typeflag ≠ typeDir then
      throw (.other (cannotOverwriteDir path dest))
    if options.noOverwriteDirNonDir ∧ fi ≠ .dir ∧ hdr.typeflag = typeDir then
      throw (.other (cannotOverwriteNonDir path dest))
    if fi = .dir ∧ name = ['.'] then return none
    if ¬(fi = .dir ∧ hdr.typeflag = typeDir) then sys (removeAll path)
  createTarFile path dest hdr
  return if hdr.typeflag = typeDir then some name else none

/-- the loop of `Unpack` over the entries; the directories it made -/
def unpackEntries (dest : Text) (options : TarOptions) : List Header → UnpackM (List Text)
  | [] => pure []
  | hdr :: hdrs => do
    let d ← unpackEntry dest options hdr
    let ds ← unpackEntries dest options hdrs
    pure (d.toList ++ ds)

/-- `Unpack(archive, dest, options)` -/
def unpack (entries : List Header) (dest : Text) (options : TarOptions) : UnpackM Unit := do
  let dirs ← unpackEntries dest options entries
  dirs.forM fun name => do
    -- `system.Chtimes`: the times are not modelled, but the call fails on a path that is gone
    if let .error e := stat (← get) (filepathJoin dest name) then throw (.sys e)

/-! ## Confinement -/

/-- nothing outside the real directory `dest` differs between `fs` and `fs'` -/
def Confined (dest : List Text) (fs fs' : FS) : Prop := ∀ q, ¬dest <+: q → fs' q = fs q

/-- the root, an empty `/d`, and `/etc/passwd` -/
def escapeFS : FS := fun q =>
  if q = [] ∨ q = ["d".toList] ∨ q = ["etc".toList] then some .dir
  else if q = ["etc".toList, "passwd".toList] then some (.file [0]) else none

/-- `a -> .`, then `a/b -> ..`, then the file `b/evil` -/
def linkChainArchive : List Header :=
  [⟨"a".toList, typeSymlink, ".".toList, []⟩, ⟨"a/b".toList, typeSymlink, "..".toList, []⟩,
    ⟨"b/evil".toList, typeReg, [], [1]⟩]

theorem unpack_escapes_dest :
    ((unpack linkChainArchive "/d".toList {}).run.run escapeFS).1 = .ok () ∧
      ¬Confined ["d".toList] escapeFS ((unpack linkChainArchive "/d".toList {}).run.run escapeFS).2 ∧
      ((unpack [⟨"../x/y".toList, typeReg, [], [1]⟩] "/d".toList {}).run.run escapeFS).1 =
        .error (.breakout (outsideOf "../x/y".toList "/d".toList)) ∧
      ¬Confined ["d".toList] escapeFS
        ((unpack [⟨"../x/y".toList, typeReg, [], [1]⟩] "/d".toList {}).run.run escapeFS).2 ∧
      ¬Confined ["d".toList] escapeFS
        ((unpack [⟨"..".toList, typeReg, [], [1]⟩] "/d".toList {}).run.run escapeFS).2 := by
  -- the file `/evil`, the directory `/x` and the file `/etc/passwd`
  refine ⟨by decide, fun h => absurd (h ["evil".toList] (by decide)) (by decide), by decide,
    fun h => absurd (h ["x".toList] (by decide)) (by decide),
    fun h => absurd (h ["etc".toList, "passwd".toList] (by decide)) (by decide)⟩

end DockerEngine.Archive
