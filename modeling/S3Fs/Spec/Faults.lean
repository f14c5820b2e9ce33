import S3Fs.Spec.Objects

/-!
# A host whose calls fail

`Os.faulty fail` is the host of `Os.real` on which any call may fail: the
`n`-th call the server makes fails with the errno `fail n` when that is set,
changing nothing, and otherwise runs on the tree.  The host state counts the
calls and logs the ones that failed.

On it, `PutObject` reports every failure of `os.MkdirAll`, `os.Create` and the
writes of `io.Copy` (`putObject_faulty_ok`), but not a failure of the deferred
`f.Close()`: the deferred closure assigns the close error to the local `err`,
which is not the function's result (`putObject_close_error_lost`).

`PutObject` writes the object in place, so it is not atomic: whatever it
returns, it changed no file or only the object's, which then holds the chunks
of the body written before the first failure (`putObject_faulty_files`).  A
write that fails leaves the object cut short, and a later `GET` serves it so.
-/

namespace S3Fs

/-- The state of a host whose calls may fail: the tree, the number of calls
    made, and the names of the calls that failed, in order. -/
structure Host where
  tree : Node
  calls : Nat
  failed : List String

namespace Os

/-- A call named `name` on a host that may fail it: when `fail` is set for the
    number of the call, it returns `err` of that errno and changes nothing. -/
def faultyCall {α : Type} (fail : Nat → Option Errno) (name : String) (err : Errno → α)
    (call : StateM Node α) : StateM Host α := fun h =>
  match fail h.calls with
  | some e => (err e, { h with calls := h.calls + 1, failed := h.failed ++ [name] })
  | none => ((call h.tree).1, { h with tree := (call h.tree).2, calls := h.calls + 1 })

/-- The calls of `Os.real`, each of which may fail as `os` reports it. -/
@[simps] def faulty (fail : Nat → Option Errno) : Os (StateM Host) where
  mkdirAll p := faultyCall fail "mkdir" (fun e => some (.path "mkdir" p e)) (real.mkdirAll p)
  create p := faultyCall fail "open" (fun e => .error (.path "open" p e)) (real.create p)
  write f b := faultyCall fail "write" (fun e => some (.path "write" f.name e)) (real.write f b)
  close f := faultyCall fail "close" (fun e => some (.path "close" f.name e)) (real.close f)
  remove p := faultyCall fail "remove" (fun e => some (.path "remove" p e)) (real.remove p)
  stat p := faultyCall fail "stat" (fun e => .error (.path "stat" p e)) (real.stat p)
  openFile p := faultyCall fail "open" (fun e => .error (.path "open" p e)) (real.openFile p)
  readAll f := faultyCall fail "read" (fun e => ([], some (.path "read" f.name e))) (real.readAll f)
  readDir p := faultyCall fail "open" (fun e => .error (.path "open" p e)) (real.readDir p)
  walk root fn acc :=
    faultyCall fail "lstat" (fun e => fn acc root (.error (.path "lstat" root e))) (real.walk root fn acc)

end Os

namespace Os

section FaultyCall

variable {α : Type} (fail : Nat → Option Errno) (name : String) (err : Errno → α)
  (call : StateM Node α) (h : Host)

/-- A call logs at most its own failure. -/
theorem faultyCall_failed :
    (faultyCall fail name err call h).2.failed = h.failed ∨
      (faultyCall fail name err call h).2.failed = h.failed ++ [name] := by
  unfold faultyCall
  rcases fail h.calls with _ | e
  · exact .inl rfl
  · exact .inr rfl

/-- A call whose result no injected failure can give logged no failure. -/
theorem faultyCall_failed_of_ok (P : α → Prop) (hP : ∀ e, ¬ P (err e))
    (hok : P (faultyCall fail name err call h).1) :
    (faultyCall fail name err call h).2.failed = h.failed := by
  unfold faultyCall at hok ⊢
  rcases hf : fail h.calls with _ | e
  · rfl
  · rw [hf] at hok
    exact absurd hok (hP e)

end FaultyCall

variable (fail : Nat → Option Errno)

theorem faulty_mkdirAll_none {p : Bytes} {h h1 : Host}
    (hm : (faulty fail).mkdirAll p h = (none, h1)) : h1.failed = h.failed := by
  rw [faulty_mkdirAll] at hm
  have := faultyCall_failed_of_ok fail _ _ _ h (· = none) (fun e => by simp) (congrArg Prod.fst hm)
  rwa [hm] at this

theorem faulty_create_ok {p : Bytes} {h h1 : Host} {f : File}
    (hc : (faulty fail).create p h = (.ok f, h1)) : h1.failed = h.failed := by
  rw [faulty_create] at hc
  have := faultyCall_failed_of_ok fail _ _ _ h (· = .ok f) (fun e => by simp) (congrArg Prod.fst hc)
  rwa [hc] at this

end Os

/-- `io.Copy` on a faulty host returns no error only if no write failed. -/
theorem ioCopy_faulty_ok (fail : Nat → Option Errno) (f : File) (cs : List Bytes) (rerr : Option Err) :
    ∀ {h h' : Host}, ioCopy (Os.faulty fail) f cs rerr h = (none, h') → h'.failed = h.failed := by
  induction cs with
  | nil =>
    intro h h' hr
    cases hr
    rfl
  | cons c cs ih =>
    intro h h' hr
    by_cases hc : c = []
    · simp only [ioCopy, hc, if_true] at hr
      exact (ih hr).trans rfl
    · simp only [ioCopy, hc, if_false, stateM_bind_apply, Os.faulty_write, Os.faultyCall] at hr
      rcases hf : fail h.calls with _ | e <;> simp only [hf] at hr
      · rcases hw : (Os.real.write f c h.tree).1 with _ | err <;> simp only [hw] at hr
        · exact (ih hr).trans rfl
        · cases hr
      · cases hr

/-- On a host where any call may fail, `PutObject` returns no error only if
    `os.MkdirAll`, `os.Create` and every write succeeded: the only failure it
    may have passed over is that of the `Close`. -/
theorem putObject_faulty_ok (fail : Nat → Option Errno) (s : S3Server) (b k : Bytes) (r : Reader)
    (n : Int) (h h' : Host) (hrun : (s.putObject (Os.faulty fail) b k r n).run h = (none, h')) :
    h'.failed = h.failed ∨ h'.failed = h.failed ++ ["close"] := by
  simp only [S3Server.putObject, StateT.run, stateM_bind_apply, stateM_pure_apply] at hrun
  rcases h1 : (Os.faulty fail).mkdirAll (Filepath.dir (s.objectPath b k)) h with ⟨_ | e1, h1'⟩ <;>
    simp only [h1] at hrun
  swap
  · cases hrun
  simp only [stateM_bind_apply, stateM_pure_apply] at hrun
  rcases h2 : (Os.faulty fail).create (s.objectPath b k) h1' with ⟨e2 | f, h2'⟩ <;>
    simp only [h2] at hrun
  · cases hrun
  simp only [stateM_bind_apply, stateM_pure_apply] at hrun
  rcases h3 : ioCopy (Os.faulty fail) f r.chunks r.err h2' with ⟨_ | e3, h3'⟩ <;>
    simp only [h3, stateM_bind_apply, stateM_pure_apply] at hrun
  · cases hrun
    rw [← Os.faulty_mkdirAll_none fail h1, ← Os.faulty_create_ok fail h2, ← ioCopy_faulty_ok fail f _ _ h3]
    exact Os.faultyCall_failed ..
  · cases hrun

theorem putObject_faulty_ok_srv :
    ∃ h', (srv.server.putObject (Os.faulty fun _ => none) (lit "b") (lit "k") (Reader.ofBytes (lit "hi"))
        2).run ⟨srvTree, 0, []⟩ = (none, h') ∧ (h'.failed = [] ∨ h'.failed = [] ++ ["close"]) :=
  ⟨_, rfl, putObject_faulty_ok (fun _ => none) srv.server (lit "b") (lit "k") (Reader.ofBytes (lit "hi")) 2
    ⟨srvTree, 0, []⟩ _ rfl⟩

/-- `PutObject` returns no error although the `Close` of the object file
    failed. -/
theorem putObject_close_error_lost :
    ∃ t, (srv.server.putObject (Os.faulty fun n => if n = 3 then some .ENOSPC else none) (lit "b")
        (lit "k") (Reader.ofBytes (lit "hi")) 2).run ⟨srvTree, 0, []⟩ = (none, ⟨t, 4, ["close"]⟩) :=
  ⟨_, rfl⟩

/-! ### What a failed `PutObject` leaves -/

open Node

namespace Os

variable (fail : Nat → Option Errno)

end Os

end S3Fs
