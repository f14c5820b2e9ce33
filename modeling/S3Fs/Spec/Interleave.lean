import S3Fs.Spec.Concurrent
import S3Fs.Spec.Serve

/-!
# A `GET` beside a `DELETE` or a `PUT`, over whole runs

`S3Fs.Spec.Concurrent` says what a `GET` sends while no write reaches the file
it opened.  Here the writing request is fixed and followed through every
interleaving from the start.

A `DELETE` beside a `GET` of an object that holds `content`: whatever the
schedule, the `GET` answers as if it ran wholly before the `DELETE` (`200` with
all of `content`, its length as `Content-Length`) or wholly after it (`404`
with the error of `os.Stat`) (`get_beside_delete`).  `os.Remove` drops only the
entry, so the file a `GET` opened keeps its bytes, and the read lock keeps the
`DELETE` away from the `os.Stat` and `os.Open` of `GetObject`, so no `GET`
fails at its `os.Open`.

A `PUT` beside a `GET`: once the `PUT` has returned, the object's entry names a
file that holds exactly the chunks it wrote, whatever the `GET` did meanwhile
(`put_beside_get`).

No interleaving gets stuck: in every state one reaches, both goroutines have
returned or one of them can step (`reaches_done_or_step`).  This rests on the
lock counting its holders exactly (`Inv.readers`, `Inv.writer`).  And every
interleaving ends (`run_length_le`): the writer has one step per chunk besides
its four, and the copy of the `GET` sends a byte or more per turn and never
more than the `Content-Length` it declared, which the response refuses to
exceed, so it ends even while a `PUT` keeps writing the file.

Together they make every interleaving complete (`run_completes`): any schedule
that runs extends to one after which the `GET` has answered and the writer has
returned.

Each is an invariant beside `Inv`, or a measure, kept by a step of either
goroutine and so by every interleaving.  The frame lemmas carry the parts a
goroutine does not touch.

Last, the two goroutines against the sequential server of `S3Fs.Spec.Serve`,
on a tree whose object path holds `content`.  The `GET` beside a `DELETE` is
linearizable: it answers what `ServeHTTP` answers on the tree before the
`DeleteObject` or after it (`get_beside_delete_linearizable`).  The `PUT`
leaves the object that the sequential `GET` serves after the same `PutObject`
(`put_beside_get_linearizable`); what a `GET` beside it sends need not be
either answer (`get_put_interleaved`).
-/

namespace S3Fs.Concurrent

/-! ### `DELETE` -/

section Delete

variable (path content : Bytes)

/-- What the `GET` has seen of the object at `path` that held `content` and is
    at most deleted: its size, inode `0`, the error of `os.Stat`, and at the end
    one of the two answers. -/
def GetPc.BesideDelete : GetPc → Prop
  | .start | .locked => True
  | .statted size => size = content.length
  | .returning (.error msg) => msg = (Err.wrap "failed to stat object" (.path "stat" path .ENOENT)).error
  | .returning (.ok (size, ino, _)) => size = content.length ∧ ino = 0
  | .copying size ino _ _ => size = content.length ∧ ino = 0
  | .done resp =>
    resp = ⟨200, [("Content-Length", decimal content.length)], content⟩ ∨
      resp = httpError (Err.wrap "failed to stat object" (.path "stat" path .ENOENT)).error 404

/-- What holds, beside `Inv`, in every state an interleaving of the `GET` with
    a `DELETE` reaches: the file keeps `content` and no write reaches it, the
    entry names it or nothing, and the `GET` has seen only that. -/
structure DeleteInv (s : State) : Prop where
  path_eq : s.path = path
  req : s.req = .delete
  file : s.disk.files 0 = content
  version : s.disk.version = 0
  entry : ∀ ino, s.disk.entry = some ino → ino = 0
  not_writing : ∀ ino cs, s.write ≠ .writing ino cs
  get : s.get.BesideDelete path content

theorem deleteInv_init : DeleteInv path content (State.init path content .delete) where
  path_eq := rfl
  req := rfl
  file := rfl
  version := rfl
  entry := fun _ h => (Option.some.inj h).symm
  not_writing := fun _ _ h => nomatch h
  get := trivial

variable {path content}

theorem DeleteInv.getStep {s s' : State} (hi : Inv s) (hd : DeleteInv path content s)
    (h : getStep s = some s') : DeleteInv path content s' := by
  obtain ⟨hp, hq, hdisk, hw, -⟩ := getStep_frame h
  refine { path_eq := hp ▸ hd.path_eq, req := hq ▸ hd.req, file := hdisk ▸ hd.file,
           version := hdisk ▸ hd.version, entry := hdisk ▸ hd.entry,
           not_writing := hw ▸ hd.not_writing, get := ?_ }
  have hg := hd.get
  rcases hgs : s.get with _ | _ | size | result | ⟨size, ino, ver, body⟩ | resp <;>
    rw [hgs] at hg
  case copying =>
    obtain ⟨rfl, rfl⟩ := hg
    obtain ⟨-, hle, hq⟩ := hi.copying _ _ _ _ hgs
    obtain ⟨hsize, hpre⟩ := hq (by rw [hd.version] at hle ⊢; omega)
    have hdone : ∀ resp, s'.get = .done resp →
        resp = ⟨200, [("Content-Length", decimal content.length)], s.disk.files 0⟩ :=
      fun _ => copy_done_of_sent hgs hsize hpre h
    simp only [Concurrent.getStep, hgs] at h
    split_ifs at h <;> simp only [Option.some.injEq] at h <;> subst h
    · exact Or.inl ((hdone _ rfl).trans (by rw [hd.file]))
    · exact ⟨rfl, rfl⟩
  all_goals simp only [Concurrent.getStep, hgs] at h
  case start =>
    split_ifs at h
    cases h
    trivial
  case locked =>
    rcases he : s.disk.entry with _ | ino <;> simp only [he, Option.some.injEq] at h <;> subst h
    · simp only [GetPc.BesideDelete, hd.path_eq]
    · show (s.disk.files ino).length = content.length
      rw [hd.entry ino he, hd.file]
  case statted =>
    obtain ⟨ino, he, -⟩ := hi.statted size hgs
    simp only [he, Option.some.injEq] at h
    subst h
    exact ⟨hg, hd.entry ino he⟩
  case returning =>
    rcases result with msg | ⟨size, ino, ver⟩ <;> simp only [Option.some.injEq] at h <;> subst h
    · exact Or.inr (by rw [show msg = _ from hg])
    · exact hg
  case done => cases h

theorem DeleteInv.writeStep {s s' : State} (hd : DeleteInv path content s)
    (h : writeStep s = some s') : DeleteInv path content s' := by
  rcases hw : s.write with _ | _ | ⟨ino, cs⟩ | _ | _
  case writing => exact absurd hw (hd.not_writing ino cs)
  all_goals simp only [Concurrent.writeStep, hw] at h
  case start =>
    split_ifs at h
    cases h
    exact { hd with not_writing := fun _ _ h => nomatch h }
  case locked =>
    simp only [hd.req, Option.some.injEq] at h
    subst h
    exact { hd with
      req := rfl
      entry := fun _ h => nomatch h
      not_writing := fun _ _ h => nomatch h }
  case unlocking =>
    cases h
    exact { hd with not_writing := fun _ _ h => nomatch h }
  case done => cases h

/-- Every interleaving of the `GET` with a `DELETE` keeps both invariants. -/
theorem deleteInv_of_reaches {s : State} (h : Reaches (State.init path content .delete) s) :
    Inv s ∧ DeleteInv path content s := by
  induction h with
  | refl => exact ⟨init_inv _ _ _, deleteInv_init _ _⟩
  | tail _ hs ih =>
    exact hs.elim (fun h => ⟨getStep_inv ih.1 h, ih.2.getStep ih.1 h⟩)
      (fun h => ⟨writeStep_inv ih.1 h, ih.2.writeStep h⟩)

/-- A `GET` beside a `DELETE` of its object answers as if it ran wholly before
    the `DELETE`, with the whole object and its length, or wholly after it, with
    the error of `os.Stat`: never a part of the object, nor the error of
    `os.Open`. -/
theorem get_beside_delete {s : State} {resp : Response}
    (h : Reaches (State.init path content .delete) s) (hd : s.get = .done resp) :
    resp = ⟨200, [("Content-Length", decimal content.length)], content⟩ ∨
      resp = httpError (Err.wrap "failed to stat object" (.path "stat" path .ENOENT)).error 404 := by
  have hg := (deleteInv_of_reaches h).2.get
  rwa [hd] at hg

/-- The `DELETE` between `GetObject`'s return and the copy: the `GET` still
    answers with all of `"hello"`. -/
theorem get_beside_delete_late :
    ∃ s resp, Reaches (State.init (lit "/srv/b/k") (lit "hello") .delete) s ∧ s.get = .done resp ∧
      (resp = ⟨200, [("Content-Length", decimal (lit "hello").length)], lit "hello"⟩ ∨
        resp = httpError (Err.wrap "failed to stat object" (.path "stat" (lit "/srv/b/k") .ENOENT)).error 404) := by
  have hr : Reaches (State.init (lit "/srv/b/k") (lit "hello") .delete) _ :=
    run_reaches [.get, .get, .get, .get, .write, .write, .write, .get, .get] rfl
  exact ⟨_, _, hr, rfl, get_beside_delete hr rfl⟩

end Delete

/-! ### `PUT` -/

section Put

variable (chunks : List Bytes)

/-- What the writing goroutine of a `PUT` of `chunks` has left on the disk:
    while it writes, the entry names its file and the file with the chunks left
    makes up the body; once it has written, the entry names a file that holds
    the body. -/
def WritePc.PutWritten (d : Disk) : WritePc → Prop
  | .start | .locked => True
  | .writing ino cs => d.entry = some ino ∧ d.files ino ++ cs.flatten = chunks.flatten
  | .unlocking | .done => ∃ ino, d.entry = some ino ∧ d.files ino = chunks.flatten

/-- What holds in every state an interleaving of the `GET` with a `PUT` of
    `chunks` reaches. -/
structure PutInv (s : State) : Prop where
  req : s.req = .put chunks
  written : s.write.PutWritten chunks s.disk

variable {chunks}

theorem PutInv.getStep {s s' : State} (hp : PutInv chunks s) (h : getStep s = some s') :
    PutInv chunks s' := by
  obtain ⟨-, hq, hdisk, hw, -⟩ := getStep_frame h
  exact ⟨hq ▸ hp.req, by rw [hdisk, hw]; exact hp.written⟩

theorem PutInv.writeStep {s s' : State} (hp : PutInv chunks s) (h : writeStep s = some s') :
    PutInv chunks s' := by
  have hwr := hp.written
  rcases hw : s.write with _ | _ | ⟨ino, _ | ⟨c, cs⟩⟩ | _ | _ <;> rw [hw] at hwr <;>
    simp only [Concurrent.writeStep, hw] at h
  case start =>
    split_ifs at h
    cases h
    exact ⟨hp.req, trivial⟩
  case locked =>
    rcases he : s.disk.entry with _ | ino <;> simp only [hp.req, he, Option.some.injEq] at h <;> subst h
    · exact ⟨rfl, rfl, by simp [Disk.create, Disk.setFile]⟩
    · exact ⟨rfl, he, by simp [Disk.truncate, Disk.setFile]⟩
  -- `io.Copy` has written every chunk
  · cases h
    exact ⟨hp.req, ino, hwr.1, by simpa using hwr.2⟩
  -- a chunk of `io.Copy`
  · split_ifs at h with hc <;> simp only [Option.some.injEq] at h <;> subst h
    · exact ⟨hp.req, hwr.1, by simpa [hc] using hwr.2⟩
    · exact ⟨hp.req, hwr.1, by simpa [Disk.append, Disk.setFile] using hwr.2⟩
  case unlocking =>
    cases h
    exact ⟨hp.req, hwr⟩
  case done => cases h

/-- Every interleaving of the `GET` with a `PUT` of `chunks` keeps `PutInv`. -/
theorem putInv_of_reaches {path content : Bytes} {s : State}
    (h : Reaches (State.init path content (.put chunks)) s) : PutInv chunks s := by
  induction h with
  | refl => exact ⟨rfl, trivial⟩
  | tail _ hs ih => exact hs.elim ih.getStep ih.writeStep

/-- Once a `PUT` beside a `GET` has returned, the object's entry names a file
    that holds exactly the body the `PUT` wrote, whatever the `GET` did. -/
theorem put_beside_get {path content : Bytes} {s : State}
    (h : Reaches (State.init path content (.put chunks)) s) (hw : s.write = .done) :
    ∃ ino, s.disk.entry = some ino ∧ s.disk.files ino = chunks.flatten := by
  have hwr := (putInv_of_reaches h).written
  rwa [hw] at hwr

/-- The interleaving in which the `GET` sends the new bytes under the old
    length: the object still ends up holding the body of the `PUT`. -/
theorem put_beside_get_interleaved :
    ∃ s, Reaches (State.init (lit "/srv/b/k") (lit "hello") (.put [lit "hi"])) s ∧ s.write = .done ∧
      ∃ ino, s.disk.entry = some ino ∧ s.disk.files ino = [lit "hi"].flatten := by
  have hr : Reaches (State.init (lit "/srv/b/k") (lit "hello") (.put [lit "hi"])) _ :=
    run_reaches [.get, .get, .get, .get, .write, .write, .write, .write, .write, .get, .get] rfl
  exact ⟨_, hr, rfl, put_beside_get hr rfl⟩

end Put

/-! ### No interleaving gets stuck -/

/-- A state in which either goroutine can step has a successor. -/
theorem Step.of_isSome {s : State} (h : (getStep s).isSome ∨ (writeStep s).isSome) : ∃ s', Step s s' := by
  rcases h with h | h <;> obtain ⟨s', hs⟩ := Option.isSome_iff_exists.1 h
  exacts [⟨s', .inl hs⟩, ⟨s', .inr hs⟩]

/-- The writer steps whenever it holds the lock. -/
theorem writeStep_isSome {s : State} (h : s.write.holdsLock = true) : (writeStep s).isSome := by
  rcases hw : s.write with _ | _ | ⟨_, _ | ⟨c, _⟩⟩ | _ | _ <;> rw [hw] at h <;> simp only [writeStep, hw]
  case locked => split <;> rfl
  case writing.cons => split_ifs <;> rfl
  all_goals first | rfl | cases h

/-- The `GET` steps whenever it has started and not answered. -/
theorem getStep_isSome {s : State} (h0 : s.get ≠ .start) (hd : ∀ resp, s.get ≠ .done resp) :
    (getStep s).isSome := by
  rcases hg : s.get with _ | _ | _ | result | _ | resp <;> simp only [getStep, hg]
  case start => exact absurd hg h0
  case done => exact absurd hg (hd resp)
  case returning => rcases result with _ | ⟨_, _, _⟩ <;> rfl
  all_goals split <;> rfl

/-- Under the lock invariant both goroutines have returned or one of them can
    step: a `GET` waits only for a writer that holds the lock, and a writer
    waits only for a writer flag or a reader that the lock counts exactly. -/
theorem Inv.done_or_step {s : State} (hi : Inv s) :
    (∃ resp, s.get = .done resp) ∧ s.write = .done ∨ ∃ s', Step s s' := by
  by_cases hl : s.write.holdsLock = true
  · exact .inr (Step.of_isSome (.inr (writeStep_isSome hl)))
  by_cases h0 : s.get = .start
  · have hw : s.mu.writer = false := by rw [hi.writer]; simpa using hl
    exact .inr (Step.of_isSome (.inl (by simp [getStep, h0, hw])))
  by_cases hd : ∃ resp, s.get = .done resp
  · obtain ⟨resp, hd⟩ := hd
    rcases hw : s.write with _ | _ | _ | _ | _
    · have hr : s.mu.readers = 0 := by simpa [hd, GetPc.holdsRLock] using hi.readers
      have hwr : s.mu.writer = false := by rw [hi.writer, hw]; rfl
      exact .inr (Step.of_isSome (.inr (by simp [writeStep, hw, hr, hwr])))
    iterate 3 exact absurd (by rw [hw]; rfl) hl
    · exact .inl ⟨⟨resp, hd⟩, rfl⟩
  · exact .inr (Step.of_isSome (.inl (getStep_isSome h0 fun r h => hd ⟨r, h⟩)))

/-- No interleaving of the `GET` with a writing request gets stuck: in every
    state one reaches, both goroutines have returned or one of them can step. -/
theorem reaches_done_or_step {path content : Bytes} {req : Request} {s : State}
    (h : Reaches (State.init path content req) s) :
    (∃ resp, s.get = .done resp) ∧ s.write = .done ∨ ∃ s', Step s s' :=
  (h.inv (init_inv path content req)).done_or_step

/-- The writer holds the lock and the `GET` waits at `RLock`: the writer steps. -/
theorem reaches_done_or_step_locked :
    ∃ s, Reaches (State.init (lit "/srv/b/k") (lit "hello") (.put [lit "hi"])) s ∧ getStep s = none ∧
      ((∃ resp, s.get = .done resp) ∧ s.write = .done ∨ ∃ s', Step s s') := by
  have hr : Reaches (State.init (lit "/srv/b/k") (lit "hello") (.put [lit "hi"])) _ :=
    run_reaches [.write, .write] rfl
  exact ⟨_, hr, rfl, reaches_done_or_step hr⟩

/-! ### Every interleaving ends -/

/-- The length of a `PUT`'s body. -/
def Request.bodyLength : Request → Nat
  | .put chunks => chunks.flatten.length
  | .delete => 0

/-- The number of chunks of a `PUT`'s body. -/
def Request.chunkCount : Request → Nat
  | .put chunks => chunks.length
  | .delete => 0

/-- The bytes the writer has yet to write. -/
def WritePc.toWrite (req : Request) : WritePc → Nat
  | .start | .locked => req.bodyLength
  | .writing _ cs => cs.flatten.length
  | .unlocking | .done => 0

/-- No file outgrows the object's content and the bytes written so far. -/
def Bounded (content : Bytes) (s : State) : Prop :=
  ∀ i, (s.disk.files i).length + s.write.toWrite s.req ≤ content.length + s.req.bodyLength

/-- The steps the `GET` has left at most, while no file is longer than `bound`:
    each turn of the copy sends a byte or more and never more than the size. -/
def GetPc.stepsLeft (bound : Nat) : GetPc → Nat
  | .start => 5 + bound
  | .locked => 4 + bound
  | .statted size => 3 + size
  | .returning (.error _) => 1
  | .returning (.ok (size, _, _)) => 2 + size
  | .copying size _ _ body => 1 + (size - body.length)
  | .done _ => 0

/-- The steps the writer has left at most. -/
def WritePc.stepsLeft (req : Request) : WritePc → Nat
  | .start => 4 + req.chunkCount
  | .locked => 3 + req.chunkCount
  | .writing _ cs => 2 + cs.length
  | .unlocking => 1
  | .done => 0

/-- The steps both goroutines have left at most. -/
def State.stepsLeft (content : Bytes) (s : State) : Nat :=
  s.get.stepsLeft (content.length + s.req.bodyLength) + s.write.stepsLeft s.req

section Ends

variable {content : Bytes}

theorem bounded_init (path : Bytes) (req : Request) : Bounded content (State.init path content req) := by
  intro i
  by_cases hi : i = 0 <;> simp [State.init, WritePc.toWrite, hi]

theorem Bounded.getStep {s s' : State} (hb : Bounded content s) (h : getStep s = some s') :
    Bounded content s' := by
  obtain ⟨-, hq, hd, hw, -⟩ := getStep_frame h
  intro i
  rw [hq, hd, hw]
  exact hb i

theorem Bounded.writeStep {s s' : State} (hb : Bounded content s) (h : writeStep s = some s') :
    Bounded content s' := by
  intro i
  have hi := hb i
  rcases hw : s.write with _ | _ | ⟨ino, _ | ⟨c, cs⟩⟩ | _ | _ <;> rw [hw] at hi <;>
    simp only [Concurrent.writeStep, hw] at h
  case start =>
    split_ifs at h
    cases h
    exact hi
  case locked =>
    rcases hq : s.req with chunks | _ <;> rcases he : s.disk.entry with _ | ino <;>
      simp only [hq, he, Option.some.injEq] at h <;> subst h <;>
      simp only [hq, WritePc.toWrite, Request.bodyLength, Disk.create, Disk.truncate, Disk.unlink,
        Disk.setFile] at hi ⊢
    all_goals first | omega | (split_ifs <;> (try simp only [List.length_nil]) <;> omega)
  · cases h
    exact Nat.le_trans (Nat.add_le_add_left (Nat.zero_le _) _) hi
  · split_ifs at h with hc <;> simp only [Option.some.injEq] at h <;> subst h <;>
      simp only [WritePc.toWrite, List.flatten_cons, List.length_append] at hi ⊢
    · simpa [hc] using hi
    · simp only [Disk.append, Disk.setFile]
      split_ifs with hii
      · subst hii
        simp only [List.length_append]
        omega
      · omega
  case unlocking =>
    cases h
    exact hi
  case done => cases h

theorem bounded_of_reaches {path : Bytes} {req : Request} {s : State}
    (h : Reaches (State.init path content req) s) : Bounded content s := by
  induction h with
  | refl => exact bounded_init path req
  | tail _ hs ih => exact hs.elim ih.getStep ih.writeStep

theorem getStep_stepsLeft_lt {s s' : State} (hb : Bounded content s) (h : getStep s = some s') :
    s'.stepsLeft content < s.stepsLeft content := by
  obtain ⟨-, hq, -, hw, -⟩ := getStep_frame h
  simp only [State.stepsLeft, hq, hw, Nat.add_lt_add_iff_right]
  rcases hg : s.get with _ | _ | size | result | ⟨size, ino, ver, body⟩ | resp <;>
    simp only [Concurrent.getStep, hg] at h
  case locked =>
    rcases he : s.disk.entry with _ | ino <;> simp only [he, Option.some.injEq] at h <;> subst h
    · simp only [GetPc.stepsLeft]; omega
    · have := hb ino
      simp only [GetPc.stepsLeft]
      omega
  case returning =>
    rcases result with _ | ⟨size, ino, ver⟩ <;> simp only [Option.some.injEq] at h <;> subst h <;>
      simp only [GetPc.stepsLeft] <;> omega
  case copying =>
    split_ifs at h with hc <;> simp only [Option.some.injEq] at h <;> subst h
    · simp only [GetPc.stepsLeft]; omega
    · simp only [not_or, ← List.length_pos] at hc
      simp only [GetPc.stepsLeft, List.length_append]
      omega
  case done => cases h
  all_goals
    split at h <;> simp only [Option.some.injEq, reduceCtorEq] at h <;> subst h <;>
      simp only [GetPc.stepsLeft] <;> omega

theorem writeStep_stepsLeft_lt {s s' : State} (h : writeStep s = some s') :
    s'.stepsLeft content < s.stepsLeft content := by
  obtain ⟨-, hq, hg⟩ := writeStep_frame h
  simp only [State.stepsLeft, hq, hg, Nat.add_lt_add_iff_left]
  rcases hw : s.write with _ | _ | ⟨ino, _ | ⟨c, cs⟩⟩ | _ | _ <;> simp only [Concurrent.writeStep, hw] at h
  case start =>
    split_ifs at h
    cases h
    simp [WritePc.stepsLeft]
  case locked =>
    rcases hq : s.req with chunks | _ <;> rcases he : s.disk.entry with _ | ino <;>
      simp only [hq, he, Option.some.injEq] at h <;> subst h <;> simp [WritePc.stepsLeft, Request.chunkCount]
  · cases h
    simp [WritePc.stepsLeft]
  · split_ifs at h <;> simp only [Option.some.injEq] at h <;> subst h <;> simp [WritePc.stepsLeft]
  case unlocking =>
    cases h
    simp [WritePc.stepsLeft]
  case done => cases h

theorem Step.stepsLeft_lt {s s' : State} (hb : Bounded content s) (h : Step s s') :
    s'.stepsLeft content < s.stepsLeft content :=
  h.elim (getStep_stepsLeft_lt hb) writeStep_stepsLeft_lt

/-- A schedule that runs from a reachable state takes at most the steps left there. -/
theorem run_length_add_le {path : Bytes} {req : Request} :
    ∀ (ts : List Thread) {s s' : State}, Reaches (State.init path content req) s → run ts s = some s' →
      ts.length + s'.stepsLeft content ≤ s.stepsLeft content
  | [], _, _, _, h => by cases h; simp
  | _ :: ts, _, _, hr, h => by
    simp only [run, Option.bind_eq_some] at h
    obtain ⟨s1, h1, h2⟩ := h
    have hs := Step.of_thread h1
    have hlt := hs.stepsLeft_lt (bounded_of_reaches hr)
    have := run_length_add_le ts (hr.tail hs) h2
    simp only [List.length_cons]
    omega

/-- Every interleaving of the `GET` with a writing request ends: no schedule
    runs more steps than the `GET`'s five, one per byte of the longest file it
    can copy, and the writer's four and one per chunk. -/
theorem run_length_le {path : Bytes} {req : Request} {ts : List Thread} {s : State}
    (h : run ts (State.init path content req) = some s) :
    ts.length ≤ 9 + content.length + req.bodyLength + req.chunkCount := by
  have := run_length_add_le ts .refl h
  simp only [State.stepsLeft, State.init, GetPc.stepsLeft, WritePc.stepsLeft] at this
  omega

/-- The interleaving in which the `GET` sends the new bytes under the old
    length ends within the bound. -/
theorem run_length_le_interleaved :
    ∃ s, run [.get, .get, .get, .get, .write, .write, .write, .write, .write, .get, .get]
        (State.init (lit "/srv/b/k") (lit "hello") (.put [lit "hi"])) = some s ∧
      [Thread.get, .get, .get, .get, .write, .write, .write, .write, .write, .get, .get].length ≤
        9 + (lit "hello").length + (Request.put [lit "hi"]).bodyLength +
          (Request.put [lit "hi"]).chunkCount := by
  have h : run [.get, .get, .get, .get, .write, .write, .write, .write, .write, .get, .get]
      (State.init (lit "/srv/b/k") (lit "hello") (.put [lit "hi"])) = some _ := rfl
  exact ⟨_, h, run_length_le h⟩

/-! ### Every interleaving completes -/

/-- From every state an interleaving reaches, some schedule takes both
    goroutines to their end: step while one can, at most the steps left. -/
theorem reaches_completes {path : Bytes} {req : Request} (n : Nat) :
    ∀ {s : State}, s.stepsLeft content ≤ n → Reaches (State.init path content req) s →
      ∃ ts s', run ts s = some s' ∧ (∃ resp, s'.get = .done resp) ∧ s'.write = .done := by
  induction n with
  | zero =>
    intro s hn hr
    rcases (hr.inv (init_inv _ _ _)).done_or_step with hd | ⟨s1, hs⟩
    · exact ⟨[], s, rfl, hd⟩
    · have := hs.stepsLeft_lt (bounded_of_reaches hr)
      omega
  | succ n ih =>
    intro s hn hr
    rcases (hr.inv (init_inv _ _ _)).done_or_step with hd | ⟨s1, hs⟩
    · exact ⟨[], s, rfl, hd⟩
    · have hlt := hs.stepsLeft_lt (bounded_of_reaches hr)
      obtain ⟨t, ht⟩ := hs.thread
      obtain ⟨ts, s', hrun, hd⟩ := ih (by omega) (hr.tail hs)
      exact ⟨t :: ts, s', by simp only [run, ht, Option.some_bind, hrun], hd⟩

/-- Every interleaving of the `GET` with a writing request completes: any
    schedule that runs extends to one after which the `GET` has answered and
    the writer has returned. -/
theorem run_completes {path : Bytes} {req : Request} {ts : List Thread} {s : State}
    (h : run ts (State.init path content req) = some s) :
    ∃ ts' s', run (ts ++ ts') (State.init path content req) = some s' ∧
      (∃ resp, s'.get = .done resp) ∧ s'.write = .done := by
  obtain ⟨ts', s', h', hd⟩ := reaches_completes _ le_rfl (run_reaches ts h)
  exact ⟨ts', s', by rw [run_append, h]; exact h', hd⟩

/-- The writer holds the lock and the `GET` waits at `RLock`: the run still
    completes. -/
theorem run_completes_locked :
    ∃ ts' s', run ([.write, .write] ++ ts') (State.init (lit "/srv/b/k") (lit "hello") (.put [lit "hi"])) =
        some s' ∧ (∃ resp, s'.get = .done resp) ∧ s'.write = .done := by
  have h : run [.write, .write] (State.init (lit "/srv/b/k") (lit "hello") (.put [lit "hi"])) = some _ := rfl
  exact run_completes h

end Ends

/-! ### Against the sequential server -/

/-- A `GET /b/k` beside a `DELETE /b/k` is linearizable against the sequential
    server: whatever the interleaving, it answers what `ServeHTTP` answers on
    the tree before the `DELETE` or on the tree after it. -/
theorem get_beside_delete_linearizable (R : StorageRoot) {b k content : Bytes} (hb : IsName b)
    (hk : IsCanonicalKey k) {t : Node} (hf : t.get (resolve (R.server.objectPath b k)) = .ok (.file content))
    (q : List (Bytes × Bytes)) (body : Reader) (n : Int) {s : State} {resp : Response}
    (h : Reaches (State.init (R.server.objectPath b k) content .delete) s) (hd : s.get = .done resp) :
    ∃ t', (R.server.deleteObject Os.real b k).run t = (none, t') ∧
      (resp = ((R.server.serveHTTP Os.real ⟨"GET", slash :: (b ++ slash :: k), q, body, n⟩).run t).1 ∨
        resp = ((R.server.serveHTTP Os.real ⟨"GET", slash :: (b ++ slash :: k), q, body, n⟩).run t').1) := by
  have hp : resolve (R.server.objectPath b k) ≠ [] := by simp [R.resolve_objectPath hb hk]
  obtain ⟨t', ht'⟩ := (Node.remove_ok_iff hp).2 (.inl ⟨content, hf⟩)
  refine ⟨t', by rw [S3Server.deleteObject_run, ht'], ?_⟩
  rcases get_beside_delete h hd with rfl | rfl
  · exact .inl ((serveHTTP_get_object_iff R.server hb.2.2.2 (ne_nil_of_isCanonicalKey hk) q body n t
      content).2 hf).symm
  · exact .inr (serveHTTP_get_object_error R.server hb.2.2.2 (ne_nil_of_isCanonicalKey hk) q body n
      (Node.remove_get ht')).symm

/-- Once a `PUT /b/k` beside a `GET` has returned, the object it leaves is what
    the sequential server's `GET /b/k` serves after the same `PUT`. -/
theorem put_beside_get_linearizable (R : StorageRoot) {t : Node} (ht : t.WF) {b k content : Bytes}
    (hb : IsName b) (hk : IsCanonicalKey k) (hf : t.get (resolve (R.server.objectPath b k)) = .ok (.file content))
    (chunks : List Bytes) (m : Int) (q : List (Bytes × Bytes)) (body : Reader) (n : Int) {s : State}
    (h : Reaches (State.init (R.server.objectPath b k) content (.put chunks)) s) (hw : s.write = .done) :
    ∃ t' ino, (R.server.putObject Os.real b k ⟨chunks, none⟩ m).run t = (none, t') ∧ s.disk.entry = some ino ∧
      ((R.server.serveHTTP Os.real ⟨"GET", slash :: (b ++ slash :: k), q, body, n⟩).run t').1 =
        ⟨200, [("Content-Length", decimal (s.disk.files ino).length)], s.disk.files ino⟩ := by
  obtain ⟨ino, he, hfi⟩ := put_beside_get h hw
  obtain ⟨t', h'⟩ := R.putObject_of_file ht hb hk hf (r := ⟨chunks, none⟩) rfl m
  refine ⟨t', ino, h', he, ?_⟩
  rw [hfi]
  exact (serveHTTP_get_object_iff R.server hb.2.2.2 (ne_nil_of_isCanonicalKey hk) q body n t' _).2
    (S3Server.putObject_ok _ h').get_self

/-- The `DELETE` between `GetObject`'s return and the copy: the `GET` answers
    what the sequential server answers before the `DELETE`. -/
theorem get_beside_delete_linearizable_late :
    ∃ s resp t', Reaches (State.init (srv.server.objectPath (lit "b") (lit "k")) (lit "hello") .delete) s ∧
      s.get = .done resp ∧
      (srv.server.deleteObject Os.real (lit "b") (lit "k")).run
        (.dir [(lit "srv", .dir [(lit "b", .dir [(lit "k", .file (lit "hello"))])])]) = (none, t') ∧
      (resp = ((srv.server.serveHTTP Os.real ⟨"GET", slash :: (lit "b" ++ slash :: lit "k"), [],
          Reader.ofBytes [], 0⟩).run (.dir [(lit "srv", .dir [(lit "b", .dir [(lit "k", .file (lit "hello"))])])])).1 ∨
        resp = ((srv.server.serveHTTP Os.real ⟨"GET", slash :: (lit "b" ++ slash :: lit "k"), [],
          Reader.ofBytes [], 0⟩).run t').1) := by
  have hr : Reaches (State.init (srv.server.objectPath (lit "b") (lit "k")) (lit "hello") .delete) _ :=
    run_reaches [.get, .get, .get, .get, .write, .write, .write, .get, .get] rfl
  obtain ⟨t', h1, h2⟩ := get_beside_delete_linearizable srv (by decide : IsName (lit "b"))
    (by decide : IsCanonicalKey (lit "k"))
    (t := .dir [(lit "srv", .dir [(lit "b", .dir [(lit "k", .file (lit "hello"))])])]) rfl [] (Reader.ofBytes []) 0 hr rfl
  exact ⟨_, _, t', hr, rfl, h1, h2⟩

/-- The interleaving in which the `GET` sends new bytes under the old length:
    the object left is still what the sequential `GET` serves after the `PUT`. -/
theorem put_beside_get_linearizable_interleaved :
    ∃ s t' ino, Reaches (State.init (srv.server.objectPath (lit "b") (lit "k")) (lit "hello") (.put [lit "hi"])) s ∧
      s.write = .done ∧
      (srv.server.putObject Os.real (lit "b") (lit "k") ⟨[lit "hi"], none⟩ 2).run
        (.dir [(lit "srv", .dir [(lit "b", .dir [(lit "k", .file (lit "hello"))])])]) = (none, t') ∧
      s.disk.entry = some ino ∧
      ((srv.server.serveHTTP Os.real ⟨"GET", slash :: (lit "b" ++ slash :: lit "k"), [], Reader.ofBytes [], 0⟩).run
        t').1 = ⟨200, [("Content-Length", decimal (s.disk.files ino).length)], s.disk.files ino⟩ := by
  have hr : Reaches (State.init (srv.server.objectPath (lit "b") (lit "k")) (lit "hello") (.put [lit "hi"])) _ :=
    run_reaches [.get, .get, .get, .get, .write, .write, .write, .write, .write, .get, .get] rfl
  have ht : Node.WF (.dir [(lit "srv", .dir [(lit "b", .dir [(lit "k", .file (lit "hello"))])])]) := by
    simp only [Node.WF, Node.EntriesWF]; decide
  obtain ⟨t', ino, h1, h2, h3⟩ := put_beside_get_linearizable srv ht (by decide : IsName (lit "b"))
    (by decide : IsCanonicalKey (lit "k")) rfl [lit "hi"] 2 [] (Reader.ofBytes []) 0 hr rfl
  exact ⟨_, t', ino, hr, rfl, h1, h2, h3⟩

end S3Fs.Concurrent
