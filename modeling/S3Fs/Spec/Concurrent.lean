import S3Fs.Native.Concurrent

/-!
# What a `GET` beside a writer sends

The read lock makes `GetObject` atomic: while the `GET` holds it no write
reaches the object, so the size `os.Stat` gives is the length of the file
`os.Open` then opens (`Inv.returning`).  The copy that follows runs without
the lock.  As long as no write reaches the opened file, what it has sent is a
prefix of that file (`Inv.copying`), and a `GET` that finishes so has sent the
whole file, as long as its `Content-Length` (`getStep_done_of_quiet`).

A `PUT` of the same object that runs between `GetObject`'s return and the
copy truncates and rewrites the very file the `GET` reads: the `GET` declares
the old length and sends the new bytes (`get_put_interleaved`).  A `DELETE`
only drops the entry, so it never changes what a `GET` that opened the file
sends.

The invariant is proved once per goroutine step (`getStep_inv`,
`writeStep_inv`) and then for every interleaving (`Reaches.inv`); its first
part is the exclusion the mutex is there for (`lock_exclusive`).
-/

namespace S3Fs.Concurrent

/-- Whether the `GET` goroutine holds the read lock. -/
def GetPc.holdsRLock : GetPc → Bool
  | .locked | .statted _ | .returning _ => true
  | _ => false

/-- Whether the writing goroutine holds the lock. -/
def WritePc.holdsLock : WritePc → Bool
  | .locked | .writing _ _ | .unlocking => true
  | _ => false

/-- What holds in every state an interleaving reaches: the lock counts who
    holds it and is never held by both; inodes in use are below `next`; while
    the `GET` holds the read lock the file it looks at has the size it saw; and
    while it copies with no write since its `os.Open`, the file still has that
    size and what it sent is a prefix of it. -/
structure Inv (s : State) : Prop where
  readers : s.mu.readers = if s.get.holdsRLock then 1 else 0
  writer : s.mu.writer = s.write.holdsLock
  exclusive : s.get.holdsRLock = true → s.write.holdsLock = false
  entry_lt : ∀ ino, s.disk.entry = some ino → ino < s.disk.next
  writing_lt : ∀ ino cs, s.write = .writing ino cs → ino < s.disk.next
  statted : ∀ size, s.get = .statted size → ∃ ino, s.disk.entry = some ino ∧ (s.disk.files ino).length = size
  returning : ∀ size ino ver, s.get = .returning (.ok (size, ino, ver)) →
    ino < s.disk.next ∧ ver = s.disk.version ∧ (s.disk.files ino).length = size
  copying : ∀ size ino ver body, s.get = .copying size ino ver body →
    ino < s.disk.next ∧ ver ≤ s.disk.version ∧
      (ver = s.disk.version → (s.disk.files ino).length = size ∧ body <+: s.disk.files ino)

theorem init_inv (path content : Bytes) (req : Request) : Inv (State.init path content req) where
  readers := rfl
  writer := rfl
  exclusive := fun h => nomatch h
  entry_lt := fun ino h => by cases h; exact Nat.zero_lt_one
  writing_lt := fun _ _ h => nomatch h
  statted := fun _ h => nomatch h
  returning := fun _ _ _ h => nomatch h
  copying := fun _ _ _ _ h => nomatch h

@[simp] theorem setFile_self (d : Disk) (ino : Nat) (data : Bytes) : d.setFile ino data ino = data := by
  simp [Disk.setFile]

theorem setFile_of_ne {d : Disk} {ino i : Nat} (data : Bytes) (h : i ≠ ino) : d.setFile ino data i = d.files i := by
  simp [Disk.setFile, h]

theorem Inv.get_free {s : State} (hi : Inv s) (hw : s.write.holdsLock = true) : s.get.holdsRLock = false := by
  cases hg : s.get.holdsRLock
  · rfl
  · rw [hi.exclusive hg] at hw; cases hw

/-- A prefix of a file, followed by the next read at its end, is a prefix. -/
theorem prefix_append_read {body f : Bytes} (h : body <+: f) (n : Nat) :
    body ++ (f.drop body.length).take n <+: f := by
  obtain ⟨t, rfl⟩ := h
  simp only [List.drop_left]
  exact List.prefix_append_right_inj _ |>.2 (List.take_prefix _ _)

/-! ### What the `GET` saw -/

/-- The parts of `Inv` about what the `GET` saw of the disk `d`: the size
    `os.Stat` gave, what `GetObject` returns, and what the copy has sent. -/
def GetPc.Sees (d : Disk) : GetPc → Prop
  | .statted size => ∃ ino, d.entry = some ino ∧ (d.files ino).length = size
  | .returning (.ok (size, ino, ver)) => ino < d.next ∧ ver = d.version ∧ (d.files ino).length = size
  | .copying size ino ver body =>
    ino < d.next ∧ ver ≤ d.version ∧ (ver = d.version → (d.files ino).length = size ∧ body <+: d.files ino)
  | _ => True

theorem Inv.sees {s : State} (hi : Inv s) : s.get.Sees s.disk := by
  rcases hg : s.get with _ | _ | size | _ | ⟨size, ino, ver, body⟩ | _
  case statted => exact hi.statted size hg
  case returning r =>
    rcases r with _ | ⟨size, ino, ver⟩
    · trivial
    · exact hi.returning size ino ver hg
  case copying => exact hi.copying size ino ver body hg
  all_goals trivial

/-- `Inv` from its lock and inode parts and what the `GET` saw. -/
theorem Inv.of_sees {s : State} (hr : s.mu.readers = if s.get.holdsRLock then 1 else 0)
    (hw : s.mu.writer = s.write.holdsLock) (hx : s.get.holdsRLock = true → s.write.holdsLock = false)
    (he : ∀ ino, s.disk.entry = some ino → ino < s.disk.next)
    (hwl : ∀ ino cs, s.write = .writing ino cs → ino < s.disk.next) (hs : s.get.Sees s.disk) : Inv s where
  readers := hr
  writer := hw
  exclusive := hx
  entry_lt := he
  writing_lt := hwl
  statted := fun _ h => by rw [h] at hs; exact hs
  returning := fun _ _ _ h => by rw [h] at hs; exact hs
  copying := fun _ _ _ _ h => by rw [h] at hs; exact hs

/-- What the `GET` saw survives a change of the disk, while it holds no read
    lock, that adds inodes, counts writes up, and changes no file in use unless
    it counts one. -/
theorem Inv.sees_of_disk {s : State} (hi : Inv s) (hfree : s.get.holdsRLock = false) {d : Disk}
    (hnext : s.disk.next ≤ d.next) (hver : s.disk.version ≤ d.version)
    (hfiles : d.version = s.disk.version → ∀ i < s.disk.next, d.files i = s.disk.files i) :
    s.get.Sees d := by
  have hs := hi.sees
  rcases hg : s.get with _ | _ | _ | _ | ⟨size, ino, ver, body⟩ | _ <;> rw [hg] at hs hfree
  case copying =>
    obtain ⟨h1, h2, h3⟩ := hs
    refine ⟨by omega, by omega, fun hv => ?_⟩
    rw [hfiles (by omega) ino h1]
    exact h3 (by omega)
  all_goals trivial

/-! ### Frames -/

/-- The `GET` goroutine moves its own program counter and the read count, and
    touches nothing else. -/
theorem getStep_frame {s s' : State} (h : getStep s = some s') :
    s'.path = s.path ∧ s'.req = s.req ∧ s'.disk = s.disk ∧ s'.write = s.write ∧ s'.mu.writer = s.mu.writer := by
  rcases hg : s.get with _ | _ | _ | result | _ | _ <;> simp only [getStep, hg] at h
  case returning => rcases result with _ | ⟨_, _, _⟩ <;> cases h <;> exact ⟨rfl, rfl, rfl, rfl, rfl⟩
  case done => cases h
  all_goals
    repeat' split at h
    all_goals cases h <;> exact ⟨rfl, rfl, rfl, rfl, rfl⟩

/-- The writing goroutine moves its own program counter, the lock flag and the
    disk, and leaves the `GET` and the read count alone. -/
theorem writeStep_frame {s s' : State} (h : writeStep s = some s') :
    s'.path = s.path ∧ s'.req = s.req ∧ s'.get = s.get ∧ s'.mu.readers = s.mu.readers := by
  rcases hw : s.write with _ | _ | ⟨_, _ | ⟨_, _⟩⟩ | _ | _ <;> simp only [writeStep, hw] at h
  case done => cases h
  all_goals
    repeat' split at h
    all_goals cases h <;> exact ⟨rfl, rfl, rfl, rfl⟩

/-! ### The `GET` goroutine -/

/-- A step of the `GET` keeps `Inv` once the read count follows the read lock,
    the lock stays exclusive, and the new program counter's view holds. -/
theorem Inv.getStep_of {s s' : State} (hi : Inv s) (h : getStep s = some s')
    (hr : s'.mu.readers = if s'.get.holdsRLock then 1 else 0)
    (hx : s'.get.holdsRLock = true → s.write.holdsLock = false) (hs : s'.get.Sees s.disk) : Inv s' := by
  obtain ⟨-, -, hd, hw, hwr⟩ := getStep_frame h
  exact Inv.of_sees hr (by rw [hwr, hw]; exact hi.writer) (by rwa [hw]) (hd ▸ hi.entry_lt)
    (hd ▸ hw ▸ hi.writing_lt) (hd ▸ hs)

theorem getStep_inv {s s' : State} (hi : Inv s) (h : getStep s = some s') : Inv s' := by
  have step := hi.getStep_of h
  have hs := hi.sees
  have hr := hi.readers
  rcases hg : s.get with _ | _ | size | result | ⟨size, ino, ver, body⟩ | resp <;>
    rw [hg] at hs hr <;> simp only [getStep, hg] at h
  case start =>
    split_ifs at h with hw
    cases h
    exact step (by simpa [GetPc.holdsRLock] using hr) (fun _ => by simpa [hi.writer] using hw) trivial
  case locked =>
    have hx := hi.exclusive (by simp [hg, GetPc.holdsRLock])
    rcases he : s.disk.entry with _ | ino <;> simp only [he, Option.some.injEq] at h <;> subst h
    · exact step hr (fun _ => hx) trivial
    · exact step hr (fun _ => hx) ⟨ino, he, rfl⟩
  case statted =>
    have hx := hi.exclusive (by simp [hg, GetPc.holdsRLock])
    obtain ⟨ino, he, hsize⟩ := hs
    simp only [he, Option.some.injEq] at h
    subst h
    exact step hr (fun _ => hx) ⟨hi.entry_lt _ he, rfl, hsize⟩
  case returning =>
    have h1 : s.mu.readers - 1 = 0 := by simp [GetPc.holdsRLock] at hr; omega
    rcases result with msg | ⟨size, ino, ver⟩ <;> simp only [Option.some.injEq] at h <;> subst h
    · exact step h1 (fun h => nomatch h) trivial
    · obtain ⟨hlt, hv, hsize⟩ := hs
      exact step h1 (fun h => nomatch h) ⟨hlt, hv.le, fun _ => ⟨hsize, List.nil_prefix⟩⟩
  case copying =>
    obtain ⟨hlt, hle, hq⟩ := hs
    split_ifs at h <;> simp only [Option.some.injEq] at h <;> subst h
    · exact step hr (fun h => nomatch h) trivial
    · exact step hr (fun h => nomatch h) ⟨hlt, hle, fun hv => ⟨(hq hv).1, prefix_append_read (hq hv).2 _⟩⟩
  case done => cases h

/-! ### The writing goroutine -/

/-- A step of the writer keeps `Inv` once the lock flag follows the lock, the
    lock stays exclusive, the inodes in use stay below `next`, and what the
    `GET` saw holds of the new disk. -/
theorem Inv.writeStep_of {s s' : State} (hi : Inv s) (h : writeStep s = some s')
    (hw : s'.mu.writer = s'.write.holdsLock) (hx : s.get.holdsRLock = true → s'.write.holdsLock = false)
    (he : ∀ ino, s'.disk.entry = some ino → ino < s'.disk.next)
    (hwl : ∀ ino cs, s'.write = .writing ino cs → ino < s'.disk.next) (hs : s.get.Sees s'.disk) : Inv s' := by
  obtain ⟨-, -, hg, hr⟩ := writeStep_frame h
  exact Inv.of_sees (by rw [hr, hg]; exact hi.readers) hw (hg ▸ hx) he hwl (hg ▸ hs)

theorem writeStep_inv {s s' : State} (hi : Inv s) (h : writeStep s = some s') : Inv s' := by
  have step := hi.writeStep_of h
  rcases hw : s.write with _ | _ | ⟨ino, _ | ⟨c, cs⟩⟩ | _ | _ <;> simp only [writeStep, hw] at h
  case start =>
    split_ifs at h with hc
    cases h
    simp only [Bool.or_eq_true, bne_iff_ne, ne_eq, not_or, Bool.not_eq_true, not_not] at hc
    have hgf : s.get.holdsRLock = false := by
      cases hh : s.get.holdsRLock
      · rfl
      · have := hi.readers; rw [hh, hc.2] at this; cases this
    exact step rfl (fun h => by rw [hgf] at h; cases h) hi.entry_lt (fun _ _ h => nomatch h) hi.sees
  case done => cases h
  all_goals
    have hgf : s.get.holdsRLock = false := hi.get_free (by simp [hw, WritePc.holdsLock])
    have hwr : s.mu.writer = true := by rw [hi.writer, hw]; rfl
    have hx : s.get.holdsRLock = true → ∀ w : WritePc, w.holdsLock = false := fun h => by
      rw [hgf] at h; cases h
  case locked =>
    rcases hq : s.req with chunks | _ <;> rcases he : s.disk.entry with _ | ino <;>
      simp only [hq, he, Option.some.injEq] at h <;> subst h
    · exact step hwr (hx · _) (fun _ h => by cases h; exact Nat.lt_succ_self _)
        (fun _ _ h => by cases h; exact Nat.lt_succ_self _)
        (hi.sees_of_disk hgf (Nat.le_succ _) le_rfl fun _ i hi' => setFile_of_ne _ (Nat.ne_of_lt hi'))
    · exact step hwr (hx · _) hi.entry_lt (fun _ _ h => by cases h; exact hi.entry_lt ino he)
        (hi.sees_of_disk hgf le_rfl (Nat.le_succ _) fun hv => by simp [Disk.truncate] at hv)
    all_goals
      exact step hwr (hx · _) (fun _ h => nomatch h) (fun _ _ h => nomatch h)
        (hi.sees_of_disk hgf le_rfl le_rfl fun _ _ _ => rfl)
  -- `f.Close()`
  · cases h
    exact step hwr (hx · _) hi.entry_lt (fun _ _ h => nomatch h) hi.sees
  -- a write of `io.Copy`
  · have hlt := hi.writing_lt ino (c :: cs) hw
    split_ifs at h <;> simp only [Option.some.injEq] at h <;> subst h
    · exact step hwr (hx · _) hi.entry_lt (fun _ _ h => by cases h; exact hlt) hi.sees
    · exact step hwr (hx · _) hi.entry_lt (fun _ _ h => by cases h; exact hlt)
        (hi.sees_of_disk hgf le_rfl (Nat.le_succ _) fun hv => by simp [Disk.append] at hv)
  -- the deferred `Unlock`
  · cases h
    exact step rfl (fun _ => rfl) hi.entry_lt (fun _ _ h => nomatch h) hi.sees

/-- The invariant holds in every state an interleaving reaches. -/
theorem Reaches.inv {s s' : State} (hi : Inv s) (h : Reaches s s') : Inv s' := by
  induction h with
  | refl => exact hi
  | tail _ hs ih => exact hs.elim (getStep_inv ih) (writeStep_inv ih)

/-- A step of one goroutine is a step. -/
theorem Step.of_thread {t : Thread} {s s' : State} (h : t.step s = some s') : Step s s' := by
  cases t
  exacts [.inl h, .inr h]

/-- A step is one goroutine's. -/
theorem Step.thread {s s' : State} (h : Step s s') : ∃ t : Thread, t.step s = some s' :=
  h.elim (⟨.get, ·⟩) (⟨.write, ·⟩)

/-- A schedule's interleaving is reached. -/
theorem run_reaches : ∀ (ts : List Thread) {s s' : State}, run ts s = some s' → Reaches s s'
  | [], _, _, h => by cases h; exact .refl
  | _ :: ts, _, _, h => by
    simp only [run, Option.bind_eq_some] at h
    obtain ⟨s1, h1, h2⟩ := h
    exact Relation.ReflTransGen.head (Step.of_thread h1) (run_reaches ts h2)

/-- One schedule after another. -/
theorem run_append : ∀ (ts ts' : List Thread) (s : State), run (ts ++ ts') s = (run ts s).bind (run ts')
  | [], _, _ => rfl
  | _ :: ts, ts', _ => by
    rw [List.cons_append]
    simp only [run, Option.bind_assoc, run_append ts ts']

/-- In every interleaving from the start the lock is exclusive: the `GET`'s
    read-locked section and the writer's locked section never overlap, and the
    mutex's counts name exactly the goroutines inside. -/
theorem lock_exclusive {path content : Bytes} {req : Request} {s : State}
    (h : Reaches (State.init path content req) s) :
    ¬(s.get.holdsRLock = true ∧ s.write.holdsLock = true) ∧
      s.mu.writer = s.write.holdsLock ∧ s.mu.readers = if s.get.holdsRLock then 1 else 0 := by
  have hi := Reaches.inv (init_inv path content req) h
  exact ⟨fun ⟨hg, hw⟩ => by simp [hi.exclusive hg] at hw, hi.writer, hi.readers⟩

/-- After the writer takes the lock, the `GET` is outside its read lock. -/
theorem lock_exclusive_put :
    ∃ s, Reaches (State.init (lit "/srv/b/k") (lit "x") (.put [lit "y"])) s ∧ s.write.holdsLock = true ∧
      ¬(s.get.holdsRLock = true ∧ s.write.holdsLock = true) ∧
      s.mu.writer = s.write.holdsLock ∧ s.mu.readers = if s.get.holdsRLock then 1 else 0 := by
  have h : Reaches (State.init (lit "/srv/b/k") (lit "x") (.put [lit "y"])) _ := run_reaches [.write] rfl
  exact ⟨_, h, rfl, lock_exclusive h⟩

/-! ### What the `GET` sends -/

/-- The next read of a copy that has sent a prefix of the file: empty exactly
    when the whole file is sent, and within the file. -/
theorem read_of_prefix {body f : Bytes} (h : body <+: f) (n : Nat) (hn : 0 < n) :
    ((f.drop body.length).take n = [] ↔ body = f) ∧
      body.length + ((f.drop body.length).take n).length ≤ f.length := by
  have hl := h.length_le
  refine ⟨⟨fun he => h.eq_of_length ?_, fun he => by simp [he]⟩, by simp; omega⟩
  have : f.length - body.length = 0 := by
    simpa [List.take_eq_nil_iff, Nat.pos_iff_ne_zero.1 hn] using congrArg List.length he
  omega

/-- The last step of a copy that has sent a prefix of a file of the declared
    size: the response is `200` with the whole file. -/
theorem copy_done_of_sent {s s' : State} {size ino ver : Nat} {body : Bytes}
    (hg : s.get = .copying size ino ver body) (hsize : (s.disk.files ino).length = size)
    (hpre : body <+: s.disk.files ino) (h : getStep s = some s') {resp : Response}
    (hd : s'.get = .done resp) : resp = ⟨200, [("Content-Length", decimal size)], s.disk.files ino⟩ := by
  have ⟨hempty, hle⟩ := read_of_prefix hpre copyBufSize (by decide)
  simp only [getStep, hg] at h
  split_ifs at h with hc <;> simp only [Option.some.injEq] at h <;> subst h
  · cases hd
    rcases hc with hc | hc
    · rw [hempty.1 hc]
    · omega
  · cases hd

/-- A `GET` whose copy ends with no write having reached the file since its
    `os.Open` answers `200` with the whole file, and the file's length is the
    `Content-Length` it declared: the size `os.Stat` gave under the read lock. -/
theorem getStep_done_of_quiet {s0 s s' : State} (h0 : Inv s0) (hr : Reaches s0 s) {size ino ver : Nat}
    {body : Bytes} (hg : s.get = .copying size ino ver body) (hv : ver = s.disk.version)
    (h : getStep s = some s') {resp : Response} (hd : s'.get = .done resp) :
    resp = ⟨200, [("Content-Length", decimal size)], s.disk.files ino⟩ ∧ (s.disk.files ino).length = size := by
  obtain ⟨hsize, hpre⟩ := ((hr.inv h0).copying size ino ver body hg).2.2 hv
  exact ⟨copy_done_of_sent hg hsize hpre h hd, hsize⟩

/-- A `DELETE` of the object between the `GET`'s `os.Open` and its copy: the
    file lives on, and the `GET` sends all of it. -/
theorem getStep_done_of_quiet_delete :
    ∃ s s' : State, Reaches (State.init (lit "/srv/b/k") (lit "hello") .delete) s ∧
      s.disk.entry = none ∧ getStep s = some s' ∧
      s'.get = .done ⟨200, [("Content-Length", decimal 5)], lit "hello"⟩ ∧
      ((⟨200, [("Content-Length", decimal 5)], lit "hello"⟩ : Response) =
          ⟨200, [("Content-Length", decimal 5)], s.disk.files 0⟩ ∧ (s.disk.files 0).length = 5) := by
  have hr : Reaches (State.init (lit "/srv/b/k") (lit "hello") .delete) _ :=
    run_reaches [.get, .get, .get, .get, .write, .write, .write, .get] rfl
  exact ⟨_, _, hr, rfl, rfl, rfl, getStep_done_of_quiet (init_inv _ _ _) hr rfl rfl rfl rfl⟩

/-- A `PUT` of `"hi"` that runs between `GetObject`'s return and the copy of a
    `GET` of `"hello"`: the `GET` declares five bytes and sends the two the
    file now holds. -/
theorem get_put_interleaved :
    ∃ s, Reaches (State.init (lit "/srv/b/k") (lit "hello") (.put [lit "hi"])) s ∧
      s.get = .done ⟨200, [("Content-Length", decimal 5)], lit "hi"⟩ :=
  ⟨_, run_reaches [.get, .get, .get, .get, .write, .write, .write, .write, .write, .get, .get] rfl, rfl⟩

end S3Fs.Concurrent
