import S3Fs.Native.Dispatch
import Mathlib.Logic.Relation

/-!
# A `GET` beside a writing request

`ServeHTTP` serves each request on a goroutine of its own, and the server's one
`sync.RWMutex` keeps the backend methods apart: `GetObject` holds the read lock
from its `os.Stat` to its return, `PutObject` and `DeleteObject` hold the write
lock for their whole body.  The file a `GET /b/k` sends, though, is read by the
`io.Copy` in `ServeHTTP`, after `GetObject` has returned and released the lock.

This file models one `GET /b/k` and one writing request on the same object
side by side: two goroutines of straight-line steps over a shared state, the
lock and the object's directory entry with the files it can name.  A file is
an inode.  `os.Create` on an existing entry truncates the file it names in
place, so a reader that opened the file sees the truncation; `os.Remove` drops
the entry, and a reader that opened the file keeps reading its bytes.  The
parent directories are taken to exist, so `os.MkdirAll` changes nothing here,
and no host call fails.

The `GET` copies in reads of at most 32 KiB at its offset, each written to the
response.  A write past the `Content-Length` the handler declared is refused
(`http.ErrContentLength`), which ends the copy.

`Disk.version` counts the writes to file contents, and the `GET` keeps the
count it saw when it opened the file.  Neither is in the code: they let the
theorems say that no write reached the file since.
-/

namespace S3Fs.Concurrent

/-- The object's directory entry and the files: `entry` is the inode the
    object's path names, `files` the bytes of each inode, `next` the first
    inode not yet used, `version` the number of writes to file contents. -/
structure Disk where
  entry : Option Nat
  files : Nat → Bytes
  next : Nat
  version : Nat

namespace Disk

/-- The files with inode `ino` holding `data`. -/
def setFile (d : Disk) (ino : Nat) (data : Bytes) : Nat → Bytes :=
  fun i => if i = ino then data else d.files i

/-- `os.Create` on an entry that names inode `ino`: truncate it in place. -/
def truncate (d : Disk) (ino : Nat) : Disk :=
  { d with files := d.setFile ino [], version := d.version + 1 }

/-- `os.Create` on a missing entry: a new empty file. -/
def create (d : Disk) : Disk :=
  { d with entry := some d.next, files := d.setFile d.next [], next := d.next + 1 }

/-- A `Write` of `c` to the file `ino`, at its end. -/
def append (d : Disk) (ino : Nat) (c : Bytes) : Disk :=
  { d with files := d.setFile ino (d.files ino ++ c), version := d.version + 1 }

/-- `os.Remove`: drop the entry; the file lives on for whoever opened it. -/
def unlink (d : Disk) : Disk := { d with entry := none }

end Disk

/-- `sync.RWMutex`: whether a writer holds it, and how many readers do. -/
structure RWMutex where
  writer : Bool
  readers : Nat
  deriving DecidableEq, Repr

/-- Where the `GET` goroutine is. -/
inductive GetPc where
  /-- Before `s.mu.RLock()`. -/
  | start
  /-- Holding the read lock, before `os.Stat`. -/
  | locked
  /-- `os.Stat` gave the size; before `os.Open`. -/
  | statted (size : Nat)
  /-- `GetObject` returns the error text, or the size, the inode opened and
      the write count seen then; its deferred `RUnlock` is next. -/
  | returning (result : Except Bytes (Nat × Nat × Nat))
  /-- `io.Copy(w, rc)` has sent `body`. -/
  | copying (size ino version : Nat) (body : Bytes)
  /-- The response. -/
  | done (resp : Response)

/-- The writing request: `PUT` with the chunks of its body, or `DELETE`. -/
inductive Request where
  | put (chunks : List Bytes)
  | delete

/-- Where the writing goroutine is. -/
inductive WritePc where
  /-- Before `s.mu.Lock()`. -/
  | start
  /-- Holding the lock, before `os.Create` or `os.Remove`. -/
  | locked
  /-- `io.Copy(f, reader)` has the chunks left to write to the file `ino`. -/
  | writing (ino : Nat) (chunks : List Bytes)
  /-- Its deferred `Unlock` is next. -/
  | unlocking
  /-- Returned. -/
  | done

/-- Both goroutines and what they share. -/
structure State where
  /-- The object's path, as the error texts name it. -/
  path : Bytes
  req : Request
  disk : Disk
  mu : RWMutex
  get : GetPc
  write : WritePc

/-- `io.Copy`'s buffer: 32 KiB. -/
def copyBufSize : Nat := 32 * 1024

/-- The next step of the `GET` goroutine: `none` while it waits for the lock
    and once it is done. -/
def getStep (s : State) : Option State :=
  match s.get with
  | .start =>
    if s.mu.writer then none
    else some { s with mu := { s.mu with readers := s.mu.readers + 1 }, get := .locked }
  | .locked =>
    match s.disk.entry with
    | none => some { s with get := .returning (.error (Err.wrap "failed to stat object" (.path "stat" s.path .ENOENT)).error) }
    | some ino => some { s with get := .statted (s.disk.files ino).length }
  | .statted size =>
    match s.disk.entry with
    | none => some { s with get := .returning (.error (Err.wrap "failed to open object" (.path "open" s.path .ENOENT)).error) }
    | some ino => some { s with get := .returning (.ok (size, ino, s.disk.version)) }
  | .returning result =>
    let mu := { s.mu with readers := s.mu.readers - 1 }
    match result with
    | .error msg => some { s with mu := mu, get := .done (httpError msg 404) }
    | .ok (size, ino, version) => some { s with mu := mu, get := .copying size ino version [] }
  | .copying size ino version body =>
    let chunk := ((s.disk.files ino).drop body.length).take copyBufSize
    if chunk = [] ∨ size < body.length + chunk.length then
      some { s with get := .done ⟨200, [("Content-Length", decimal size)], body⟩ }
    else some { s with get := .copying size ino version (body ++ chunk) }
  | .done _ => none

/-- The next step of the writing goroutine: `none` while it waits for the lock
    and once it is done. -/
def writeStep (s : State) : Option State :=
  match s.write with
  | .start =>
    if s.mu.writer || s.mu.readers != 0 then none
    else some { s with mu := { s.mu with writer := true }, write := .locked }
  | .locked =>
    match s.req, s.disk.entry with
    | .put chunks, some ino => some { s with disk := s.disk.truncate ino, write := .writing ino chunks }
    | .put chunks, none => some { s with disk := s.disk.create, write := .writing s.disk.next chunks }
    | .delete, _ => some { s with disk := s.disk.unlink, write := .unlocking }
  | .writing _ [] => some { s with write := .unlocking }
  | .writing ino (c :: cs) =>
    if c = [] then some { s with write := .writing ino cs }
    else some { s with disk := s.disk.append ino c, write := .writing ino cs }
  | .unlocking => some { s with mu := { s.mu with writer := false }, write := .done }
  | .done => none

/-- A step of either goroutine. -/
def Step (s s' : State) : Prop := getStep s = some s' ∨ writeStep s = some s'

/-- The states some interleaving of the two goroutines reaches from `s`. -/
def Reaches (s s' : State) : Prop := Relation.ReflTransGen Step s s'

/-- The two goroutines. -/
inductive Thread where
  | get
  | write
  deriving DecidableEq, Repr

/-- A step of one goroutine. -/
def Thread.step : Thread → State → Option State
  | .get => getStep
  | .write => writeStep

/-- The interleaving a schedule picks, or `none` when it picks a goroutine that
    cannot step. -/
def run : List Thread → State → Option State
  | [], s => some s
  | t :: ts, s => (t.step s).bind (run ts)

/-- Both goroutines about to start, the lock free, the object's entry naming
    inode 0 with `content`. -/
def State.init (path content : Bytes) (req : Request) : State :=
  ⟨path, req, ⟨some 0, fun i => if i = 0 then content else [], 1, 0⟩, ⟨false, 0⟩, .start, .start⟩

end S3Fs.Concurrent
