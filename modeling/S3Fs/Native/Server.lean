import S3Fs.Go.Os

/-!
# `S3Server`: the storage backend

The methods of `S3Server` in `s3.go`, each a program over the host calls of an
`Os m`.  Every method takes the server's lock and releases it on return; the
sequential model runs one method at a time, which is what the lock gives the
methods themselves, so the lock does not appear here (the concurrent model in
`S3Fs.Native.Concurrent` has it).

An object's `LastModified`, a bucket's `CreationDate` and the `ETag` are not
modelled: the model keeps no times, and the server never sets an `ETag`.
-/

namespace S3Fs

/-- `S3Server`: the storage root directory. -/
structure S3Server where
  root : Bytes

/-- `Object`: key and size. -/
structure Object where
  key : Bytes
  size : Nat
  deriving DecidableEq, Repr

/-- `Bucket`: its name. -/
structure Bucket where
  name : Bytes
  deriving DecidableEq, Repr

/-- A request body as an `io.Reader` yields it: chunks, then `io.EOF` or the
    error the read failed with. -/
structure Reader where
  chunks : List Bytes
  err : Option Err

/-- The payload a reader yields. -/
def Reader.payload (r : Reader) : Bytes := r.chunks.flatten

/-- A reader over a byte string that yields it in one read, then `io.EOF`. -/
def Reader.ofBytes (p : Bytes) : Reader := ⟨[p], none⟩

variable {m : Type → Type} [Monad m] (os : Os m)

/-- `io.Copy(f, reader)`: write each nonempty chunk read; stop at the first
    failed write, or at the end of the reader with its error (none for EOF). -/
def ioCopy (f : File) : List Bytes → Option Err → m (Option Err)
  | [], rerr => pure rerr
  | c :: cs, rerr => do
    if c = [] then ioCopy f cs rerr
    else
      match ← os.write f c with
      | some err => pure (some err)
      | none => ioCopy f cs rerr

namespace S3Server

variable (s : S3Server)

/-- `filepath.Join(s.root, bucket)`: the local `bucketPath` of the bucket methods. -/
def bucketPath (bucket : Bytes) : Bytes := Filepath.join [s.root, bucket]

/-- `filepath.Join(s.root, bucket, key)`: the local `objectPath` of the object methods. -/
def objectPath (bucket key : Bytes) : Bytes := Filepath.join [s.root, bucket, key]

/-- `ListBuckets`: the directories among the entries of the root. -/
def listBuckets : m (Except Err (List Bucket)) := do
  match ← os.readDir s.root with
  | .error err => pure (.error (.wrap "failed to read buckets" err))
  | .ok entries => pure (.ok (entries.filterMap fun e => if e.isDir then some ⟨e.name⟩ else none))

/-- `CreateBucket`. -/
def createBucket (bucket : Bytes) : m (Option Err) := do
  let bucketPath := s.bucketPath bucket
  match ← os.mkdirAll bucketPath with
  | some err => pure (some (.wrap "failed to create bucket" err))
  | none => pure none

/-- `DeleteBucket`. -/
def deleteBucket (bucket : Bytes) : m (Option Err) := do
  let bucketPath := s.bucketPath bucket
  match ← os.remove bucketPath with
  | some err => pure (some (.wrap "failed to delete bucket" err))
  | none => pure none

/-- `PutObject`.  The result is not a named result, so the deferred closure's
    assignment of the `Close` error to the local `err` does not reach the caller:
    `_err` below is that dead assignment. -/
def putObject (bucket key : Bytes) (reader : Reader) (_size : Int) : m (Option Err) := do
  let objectPath := s.objectPath bucket key
  match ← os.mkdirAll (Filepath.dir objectPath) with
  | some err => pure (some (.wrap "failed to create object directory" err))
  | none =>
    match ← os.create objectPath with
    | .error err => pure (some (.wrap "failed to create object file" err))
    | .ok f =>
      let result ← do
        match ← ioCopy os f reader.chunks reader.err with
        | some err => pure (some (.wrap "failed to write object" err))
        | none => pure none
      -- deferred: `if cerr := f.Close(); cerr != nil && err == nil { err = ... }`
      let cerr ← os.close f
      let _err : Option Err :=
        match cerr with
        | some c => some (.wrap "failed to close file" c)
        | none => none
      pure result

/-- `GetObject`: the open file and the size `Stat` reported. -/
def getObject (bucket key : Bytes) : m (Except Err (File × Nat)) := do
  let objectPath := s.objectPath bucket key
  match ← os.stat objectPath with
  | .error err => pure (.error (.wrap "failed to stat object" err))
  | .ok info =>
    match ← os.openFile objectPath with
    | .error err => pure (.error (.wrap "failed to open object" err))
    | .ok f => pure (.ok (f, info.size))

/-- `DeleteObject`. -/
def deleteObject (bucket key : Bytes) : m (Option Err) := do
  let objectPath := s.objectPath bucket key
  match ← os.remove objectPath with
  | some err => pure (some (.wrap "failed to delete object" err))
  | none => pure none

/-- The callback `ListObjects` walks the bucket with: skip directories, turn a
    file's path into its key, keep it when the prefix matches. -/
def listWalkFn (bucketPath pre : Bytes) : WalkFunc (List Object) :=
  fun objects path info => do
    let info ← info
    if info.isDir then pure objects
    else
      let relPath ← (Filepath.rel bucketPath path).mapError Err.text
      let key := Filepath.toSlash relPath
      if pre = [] || Strings.hasPrefix key pre then pure (objects ++ [⟨key, info.size⟩])
      else pure objects

/-- `ListObjects`. -/
def listObjects (bucket pre : Bytes) : m (Except Err (List Object)) := do
  let bucketPath := s.bucketPath bucket
  match ← os.walk bucketPath (listWalkFn bucketPath pre) [] with
  | .error err => pure (.error (.wrap "failed to list objects" err))
  | .ok objects => pure (.ok objects)

end S3Server

end S3Fs
