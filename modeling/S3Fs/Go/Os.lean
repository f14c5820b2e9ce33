import S3Fs.Go.Filepath

/-!
# The host filesystem and the `os` calls

The filesystem is a tree: a `Node` is a regular file holding its bytes, or a
directory holding named entries.  New entries go in at their place in name
order (`Strings.lt`), so a directory lists its entries in the order
`os.ReadDir` and `filepath.Walk` (which sort names) visit them.  Symbolic links,
permissions, modification times and other processes are not modelled.

A path string reaches the tree through `resolve`: the elements `Clean` keeps
when the path is read from the root (the process's working directory is taken
to be `/`; the server only passes absolute paths).

Each call is a function on the tree that fails with an `Errno`, as the system
call does; `Os` bundles them, turned into Go's error values, as the calls the
server may make in a monad `m`.  `Os.real` runs them on the tree; a model of a
host in which calls fail at will is another `Os`.
-/

namespace S3Fs

/-- The error numbers the modelled system calls fail with. -/
inductive Errno where
  | ENOENT | ENOTDIR | EISDIR | EEXIST | ENOTEMPTY | EBUSY | ENOSPC
  deriving DecidableEq, Repr

/-- `syscall.Errno.Error()` on Linux. -/
def Errno.text : Errno → Bytes
  | .ENOENT => lit "no such file or directory"
  | .ENOTDIR => lit "not a directory"
  | .EISDIR => lit "is a directory"
  | .EEXIST => lit "file exists"
  | .ENOTEMPTY => lit "directory not empty"
  | .EBUSY => lit "device or resource busy"
  | .ENOSPC => lit "no space left on device"

/-- Go error values: a `*fs.PathError`, an error wrapped by
    `fmt.Errorf("msg: %w", err)`, or a plain `errors.New` text. -/
inductive Err where
  | path (op : String) (path : Bytes) (errno : Errno)
  | wrap (msg : String) (inner : Err)
  | text (msg : Bytes)
  deriving DecidableEq, Repr

/-- `err.Error()`. -/
def Err.error : Err → Bytes
  | .path op p e => lit op ++ lit " " ++ p ++ lit ": " ++ e.text
  | .wrap msg inner => lit msg ++ lit ": " ++ inner.error
  | .text msg => msg

/-- A node of the file tree. -/
inductive Node where
  | file (data : Bytes)
  | dir (entries : List (Bytes × Node))

namespace Node

/-- The entry of a directory with a given name. -/
def find (name : Bytes) : List (Bytes × Node) → Option Node
  | [] => none
  | (n, t) :: es => if name = n then some t else find name es

/-- Insert a new entry at its place in name order. -/
def insertEntry (name : Bytes) (t : Node) : List (Bytes × Node) → List (Bytes × Node)
  | [] => [(name, t)]
  | (n, u) :: es =>
    if Strings.lt name n then (name, t) :: (n, u) :: es else (n, u) :: insertEntry name t es

/-- Set the entry `name` to `t`: in place when present, else inserted in order. -/
def setEntry (name : Bytes) (t : Node) (es : List (Bytes × Node)) : List (Bytes × Node) :=
  if es.any (·.1 = name) then es.map fun e => (e.1, if e.1 = name then t else e.2)
  else insertEntry name t es

/-- Remove the entry `name`. -/
def eraseEntry (name : Bytes) (es : List (Bytes × Node)) : List (Bytes × Node) :=
  es.filter (·.1 ≠ name)

/-- The node a path of names leads to. -/
def get : Node → List Bytes → Except Errno Node
  | t, [] => .ok t
  | .file _, _ :: _ => .error .ENOTDIR
  | .dir es, c :: cs =>
    match find c es with
    | none => .error .ENOENT
    | some t => t.get cs

/-- Rebuild the tree after `f` changed the entries of the directory holding the
    last name of a nonempty path; `f` gets those entries and that name. -/
def alter (f : List (Bytes × Node) → Bytes → Except Errno (List (Bytes × Node))) :
    Node → List Bytes → Except Errno Node
  | .file _, _ => .error .ENOTDIR
  | .dir _, [] => .error .EBUSY
  | .dir es, [c] => (f es c).map .dir
  | .dir es, c :: d :: cs =>
    match find c es with
    | none => .error .ENOENT
    | some t => (t.alter f (d :: cs)).map fun t' => .dir (setEntry c t' es)

/-- Nested empty directories along a path of names. -/
def chain : List Bytes → Node
  | [] => .dir []
  | c :: cs => .dir [(c, chain cs)]

/-- `os.MkdirAll` on a path of names: create each missing directory.  It fails,
    changing nothing, at the first prefix that is a file, and the error carries
    that prefix. -/
def mkdirAll : Node → List Bytes → Except (List Bytes) Node
  | .file _, _ => .error []
  | .dir es, [] => .ok (.dir es)
  | .dir es, c :: cs =>
    match find c es with
    | none => .ok (.dir (setEntry c (chain cs) es))
    | some t =>
      match t.mkdirAll cs with
      | .ok t' => .ok (.dir (setEntry c t' es))
      | .error q => .error (c :: q)

/-- `open(O_RDWR|O_CREATE|O_TRUNC)`, as `os.Create` calls it: an existing file is
    emptied, a missing one is made empty; a directory cannot be opened so. -/
def create (t : Node) (p : List Bytes) : Except Errno Node :=
  if p = [] then .error .EISDIR
  else t.alter (fun es c =>
    match find c es with
    | some (.dir _) => .error .EISDIR
    | _ => .ok (setEntry c (.file []) es)) p

/-- `write(2)` at the end of an open regular file (the server's writes follow a
    truncating open, so the offset is always the end). -/
def append (t : Node) (p : List Bytes) (chunk : Bytes) : Except Errno Node :=
  if p = [] then .error .EISDIR
  else t.alter (fun es c =>
    match find c es with
    | some (.file d) => .ok (setEntry c (.file (d ++ chunk)) es)
    | some (.dir _) => .error .EISDIR
    | none => .error .ENOENT) p

/-- `os.Remove`: unlink a file, or remove an empty directory.  Of the errors of
    `unlink` and `rmdir`, Go reports `rmdir`'s unless it is `ENOTDIR`. -/
def remove (t : Node) (p : List Bytes) : Except Errno Node :=
  if p = [] then .error .EBUSY
  else t.alter (fun es c =>
    match find c es with
    | none => .error .ENOENT
    | some (.file _) => .ok (eraseEntry c es)
    | some (.dir []) => .ok (eraseEntry c es)
    | some (.dir (_ :: _)) => .error .ENOTEMPTY) p

end Node

/-- The tree path a path string names. -/
def resolve (p : Bytes) : List Bytes := Filepath.cleanElems true p

/-- `os.FileInfo`: base name, size and whether it is a directory. -/
structure FileInfo where
  name : Bytes
  size : Nat
  isDir : Bool
  deriving DecidableEq, Repr

/-- The size `stat` reports for a directory (ext4's block size; Go passes it on). -/
def dirStatSize : Nat := 4096

/-- The `FileInfo` of a node under a name. -/
def Node.info (name : Bytes) : Node → FileInfo
  | .file d => ⟨name, d.length, false⟩
  | .dir _ => ⟨name, dirStatSize, true⟩

/-- An open file: the name it was opened under and the tree path it refers to. -/
structure File where
  name : Bytes
  path : List Bytes
  deriving DecidableEq, Repr

/-- What `filepath.Walk` passes its callback besides the path: the entry's
    `FileInfo`, or the error `lstat` gave. -/
abbrev WalkFunc (σ : Type) := σ → Bytes → Except Err FileInfo → Except Err σ

namespace Node

mutual
/-- `filepath.walk` below a node reached as `path`: the callback sees the node,
    then, for a directory, each entry in name order under `Join(path, name)`.
    The first error the callback returns stops the walk. -/
def walk {σ : Type} (fn : WalkFunc σ) (path name : Bytes) : Node → σ → Except Err σ
  | .file d, acc => fn acc path (.ok ((Node.file d).info name))
  | .dir es, acc => do
    let acc ← fn acc path (.ok ((Node.dir es).info name))
    walkEntries fn path es acc
/-- The entries of a directory, in order. -/
def walkEntries {σ : Type} (fn : WalkFunc σ) (path : Bytes) :
    List (Bytes × Node) → σ → Except Err σ
  | [], acc => .ok acc
  | (n, t) :: es, acc => do
    let acc ← walk fn (Filepath.join [path, n]) n t acc
    walkEntries fn path es acc
end

end Node

/-- The last element of a path string, as `FileInfo.Name` reports it. -/
def baseName (p : Bytes) : Bytes := ((resolve p).getLast?).getD [slash]

/-- `filepath.Walk(root, fn)` on a tree: `lstat` the root, then walk it; an
    `lstat` error goes to the callback. -/
def filepathWalk {σ : Type} (t : Node) (root : Bytes) (fn : WalkFunc σ) (acc : σ) :
    Except Err σ :=
  match t.get (resolve root) with
  | .error e => fn acc root (.error (.path "lstat" root e))
  | .ok n => n.walk fn root (baseName root) acc

/-- A directory entry as `os.ReadDir` returns it. -/
structure DirEntry where
  name : Bytes
  isDir : Bool
  deriving DecidableEq, Repr

/-- The host calls the server makes, in a monad `m` that carries the host's state. -/
structure Os (m : Type → Type) where
  /-- `os.MkdirAll(path, 0750)` -/
  mkdirAll : Bytes → m (Option Err)
  /-- `os.Create(name)` -/
  create : Bytes → m (Except Err File)
  /-- `f.Write(b)`, the writes `io.Copy` makes -/
  write : File → Bytes → m (Option Err)
  /-- `f.Close()` -/
  close : File → m (Option Err)
  /-- `os.Remove(name)` -/
  remove : Bytes → m (Option Err)
  /-- `os.Stat(name)` -/
  stat : Bytes → m (Except Err FileInfo)
  /-- `os.Open(name)` -/
  openFile : Bytes → m (Except Err File)
  /-- read an open file to its end, as `io.Copy` does: the bytes read, and the
      error that stopped it, if any -/
  readAll : File → m (Bytes × Option Err)
  /-- `os.ReadDir(name)` -/
  readDir : Bytes → m (Except Err (List DirEntry))
  /-- `filepath.Walk(root, fn)` -/
  walk : {σ : Type} → Bytes → WalkFunc σ → σ → m (Except Err σ)

namespace Os

/-- The calls run on the file tree. -/
@[simps] def real : Os (StateM Node) where
  mkdirAll p := fun t =>
    match t.mkdirAll (resolve p) with
    | .ok t' => (none, t')
    | .error q => (some (.path "mkdir" (slash :: Strings.join q slash) .ENOTDIR), t)
  create p := fun t =>
    match t.create (resolve p) with
    | .ok t' => (.ok ⟨p, resolve p⟩, t')
    | .error e => (.error (.path "open" p e), t)
  write f b := fun t =>
    match t.append f.path b with
    | .ok t' => (none, t')
    | .error e => (some (.path "write" f.name e), t)
  close _ := fun t => (none, t)
  remove p := fun t =>
    match t.remove (resolve p) with
    | .ok t' => (none, t')
    | .error e => (some (.path "remove" p e), t)
  stat p := fun t =>
    match t.get (resolve p) with
    | .ok n => (.ok (n.info (baseName p)), t)
    | .error e => (.error (.path "stat" p e), t)
  openFile p := fun t =>
    match t.get (resolve p) with
    | .ok _ => (.ok ⟨p, resolve p⟩, t)
    | .error e => (.error (.path "open" p e), t)
  readAll f := fun t =>
    match t.get f.path with
    | .ok (.file d) => ((d, none), t)
    | .ok (.dir _) => (([], some (.path "read" f.name .EISDIR)), t)
    | .error e => (([], some (.path "read" f.name e)), t)
  readDir p := fun t =>
    match t.get (resolve p) with
    | .ok (.dir es) => (.ok (es.map fun e => ⟨e.1, (e.2.info e.1).isDir⟩), t)
    | .ok (.file _) => (.error (.path "readdirent" p .ENOTDIR), t)
    | .error e => (.error (.path "open" p e), t)
  walk root fn acc := fun t => (filepathWalk t root fn acc, t)

end Os

end S3Fs
