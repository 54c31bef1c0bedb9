/-
Lean model of the calls of Go's `os` package that the modelled code makes, on Linux, over a model of the file system.

A file system maps each real path (the elements below the root, reached without a symbolic link) to the node there.
Lookup is the kernel's (`pathWalk`): empty elements and `.` are skipped, `..` goes to the parent of the real directory
reached so far and stays at the root, and a symbolic link is replaced by its target, read from the root when it is
absolute and from the directory of the link otherwise, at most `maxSymlinks` times. A symbolic link in the last element
is followed or not as the call says: `Stat` and `OpenFile` follow it, `Lstat`, `Mkdir`, `Symlink` and `RemoveAll` do
not. A relative path is looked up from the root.

Owners, modes, times and extended attributes are not modelled, nor are the calls that only set them. Nodes have no
inode numbers: a hard link is a copy of the node it names, which no modelled call tells apart until one of the two
names is written through.
-/
import DockerEngine.Go.Strings

namespace DockerEngine.Go

/-- what a real path names -/
inductive Node
  | dir
  | file (content : List UInt8)
  | symlink (target : Text)
  /-- a device or a FIFO, as `mknod` makes them -/
  | special
  deriving DecidableEq, Repr

/-- a file system: the node at each real path -/
abbrev FS := List Text → Option Node

/-- the error numbers of the modelled calls -/
inductive Errno
  | enoent
  | eexist
  | enotdir
  | eisdir
  | eloop
  | ebusy
  | eperm
  deriving DecidableEq, Repr

namespace FS

/-- the file system with `n` at `p` -/
def set (fs : FS) (p : List Text) (n : Node) : FS := fun q => if q = p then some n else fs q

/-- the file system without what is at and below `p`; the root itself stays -/
def eraseBelow (fs : FS) (p : List Text) : FS := fun q => if p <+: q ∧ q ≠ [] then none else fs q

@[simp] theorem set_self (fs : FS) (p : List Text) (n : Node) : fs.set p n p = some n := by simp [set]

theorem set_ne (fs : FS) {p q : List Text} (n : Node) (h : q ≠ p) : fs.set p n q = fs q := by simp [set, h]

theorem eraseBelow_of_not_prefix (fs : FS) {p q : List Text} (h : ¬p <+: q) : fs.eraseBelow p q = fs q := by
  simp [eraseBelow, h]

end FS

/-- `MAXSYMLINKS`: the symbolic links one lookup follows before it fails with `ELOOP` -/
def maxSymlinks : ℕ := 40

/-- one pass of lookup over the elements `es` from the real directory `dir`; a symbolic link met on the way is handed
to `onLink` with the directory holding it, its target and the elements after it -/
def pathWalkElems (fs : FS) (follow : Bool) (onLink : List Text → Text → List Text → Except Errno (List Text)) :
    List Text → List Text → Except Errno (List Text)
  | dir, [] => .ok dir
  | dir, e :: es =>
    if e = [] ∨ e = ['.'] then pathWalkElems fs follow onLink dir es
    else if e = ['.', '.'] then pathWalkElems fs follow onLink dir.dropLast es
    else
      let p := dir ++ [e]
      match fs p with
      -- the last element need not exist
      | none => if es = [] then .ok p else .error .enoent
      | some .dir => pathWalkElems fs follow onLink p es
      | some (.symlink t) => if es = [] ∧ follow = false then .ok p else onLink dir t es
      | some _ => if es = [] then .ok p else .error .enotdir

/-- lookup with `links` more symbolic links allowed -/
def pathWalk (fs : FS) (follow : Bool) : ℕ → List Text → List Text → Except Errno (List Text)
  | 0, dir, es => pathWalkElems fs follow (fun _ _ _ => .error .eloop) dir es
  | links + 1, dir, es =>
    pathWalkElems fs follow
      (fun d t rest => pathWalk fs follow links (if t.head? = some '/' then [] else d) (split t '/' ++ rest)) dir es

/-- the real path `path` names -/
def resolve (fs : FS) (follow : Bool) (path : Text) : Except Errno (List Text) :=
  pathWalk fs follow maxSymlinks [] (split path '/')

/-- the node at a real path, `ENOENT` if there is none -/
def nodeAt (fs : FS) (p : List Text) : Except Errno Node :=
  match fs p with
  | some n => .ok n
  | none => .error .enoent

/-- `os.Lstat(path)` -/
def lstat (fs : FS) (path : Text) : Except Errno Node := resolve fs false path >>= nodeAt fs

/-- `os.Stat(path)` -/
def stat (fs : FS) (path : Text) : Except Errno Node := resolve fs true path >>= nodeAt fs

/-- a computation of the calls: it may fail with an error number, and what it changed before it failed stays -/
abbrev OsM := ExceptT Errno (StateM FS)

/-- the real path of `path`, looked up in the current file system -/
def lookup (follow : Bool) (path : Text) : OsM (List Text) := do
  match resolve (← get) follow path with
  | .ok p => pure p
  | .error e => throw e

/-- a node made at the last element of `path`, which must not exist; a symbolic link there is not followed -/
def create (path : Text) (n : Node) : OsM Unit := do
  let p ← lookup false path
  let fs ← get
  if fs p ≠ none then throw .eexist
  set (fs.set p n)

/-- `os.Mkdir(path, perm)` -/
def mkdir (path : Text) : OsM Unit := create path .dir

/-- `os.Symlink(oldname, newname)` -/
def symlink (oldname newname : Text) : OsM Unit := create newname (.symlink oldname)

/-- `syscall.Mknod(path, mode, dev)` -/
def mknod (path : Text) : OsM Unit := create path .special

/-- `os.Link(oldname, newname)`: a symbolic link at `oldname` is not followed, and a directory cannot be linked -/
def link (oldname newname : Text) : OsM Unit := do
  let p ← lookup false oldname
  match (← get) p with
  | none => throw .enoent
  | some .dir => throw .eperm
  | some n => create newname n

/-- `os.OpenFile(path, O_CREATE|O_WRONLY, perm)` followed by writing `content` from the start: a symbolic link in the
last element is followed; without `O_TRUNC` the bytes of an existing file past `content` stay -/
def writeFile (path : Text) (content : List UInt8) : OsM Unit := do
  let p ← lookup true path
  let fs ← get
  match fs p with
  | none => set (fs.set p (.file content))
  | some (.file old) => set (fs.set p (.file (content ++ old.drop content.length)))
  | some .dir => throw .eisdir
  -- a symbolic link left after lookup is one too many
  | some (.symlink _) => throw .eloop
  | some .special => set fs

/-- `os.RemoveAll(path)`: what is at `path` and below it goes; a missing path, or one through a file, is no error.
The root cannot be removed: everything below it goes and the call fails with `EBUSY`. -/
def removeAll (path : Text) : OsM Unit := do
  let fs ← get
  match resolve fs false path with
  | .error .enoent | .error .enotdir => pure ()
  | .error e => throw e
  | .ok p =>
    if fs p = none then pure ()
    else do
      set (fs.eraseBelow p)
      if p = [] then throw .ebusy

/-- `os.MkdirAll(path, perm)`, with the parents made first; `fuel` bounds the recursion on the parent, which is
shorter than the path -/
def mkdirAllAux : ℕ → Text → OsM Unit
  | 0, _ => pure ()
  | fuel + 1, path => do
    match stat (← get) path with
    | .ok .dir => pure ()
    | .ok _ => throw .enotdir
    | .error _ =>
      -- `path[0:j]` reversed: `path` without its trailing separators and its last element
      let r := (path.reverse.dropWhile (· == '/')).dropWhile (· != '/')
      if 1 < r.length then mkdirAllAux fuel (r.drop 1).reverse
      tryCatch (mkdir path) fun e => do
        -- an argument such as `foo/.`
        match lstat (← get) path with
        | .ok .dir => pure ()
        | _ => throw e

/-- `os.MkdirAll(path, perm)` -/
def mkdirAll (path : Text) : OsM Unit := mkdirAllAux (path.length + 1) path

end DockerEngine.Go
