import S3Fs.Spec.Path

/-!
# What the tree operations do

Each `Node` operation is characterised once here, through `get`, so that the
proofs about the server never unfold a tree operation again.  Most facts are
stated about *files*: which paths hold a regular file, and with what bytes.
The last sections also say what a call leaves at the directories on its path
and beside it, which is what buckets and repeated requests need.

## Key results

- `alter_ok`, `get_alter_outside`: `alter` replaces the entries of one
  directory and leaves every file outside it alone
- `mkdirAll_file_iff`: `mkdirAll` creates no file and changes none
- `mkdirAll_ok_iff`, `create_ok_iff`: when `os.MkdirAll` and `os.Create` succeed
- `create_file_iff`, `append_file_iff`, `remove_file_iff`: the files after each call
- `mkdirAll_get_of_ne`, `alter_get_of_ne`, `remove_get_of_ne`: what lies beside a
  call's path is left alone
- `alter_alter`, `append_of_alter_putFile`: `os.Create` and the writes after it are
  one `putFile`
- `remove_get`, `remove_twice`: after `os.Remove` nothing is at the path, and a second fails
-/

namespace S3Fs.Node

/-! ### Directory entries -/

theorem find_insertEntry (c n : Bytes) (t : Node) (es : List (Bytes × Node))
    (hn : ∀ e ∈ es, e.1 ≠ n) : find c (insertEntry n t es) = if c = n then some t else find c es := by
  induction es with
  | nil => simp [insertEntry, find]
  | cons e es ih =>
    obtain ⟨m, u⟩ := e
    have hm : m ≠ n := hn _ (List.mem_cons_self _ _)
    unfold insertEntry
    split
    · simp only [find]
    · simp only [find, ih (fun e he => hn e (List.mem_cons_of_mem _ he))]
      by_cases hc : c = m <;> simp_all

theorem find_map_replace (c n : Bytes) (t : Node) (es : List (Bytes × Node)) :
    find c (es.map fun e => (e.1, if e.1 = n then t else e.2)) =
      if c = n then (find c es).map (fun _ => t) else find c es := by
  induction es with
  | nil => simp [find]
  | cons e es ih =>
    obtain ⟨m, u⟩ := e
    simp only [List.map_cons, find, ih]
    by_cases hc : c = n
    · subst hc; by_cases hm : c = m <;> simp_all [eq_comm]
    · by_cases hm : c = m <;> simp_all

theorem any_eq_isSome_find (n : Bytes) (es : List (Bytes × Node)) :
    es.any (·.1 = n) = (find n es).isSome := by
  induction es with
  | nil => rfl
  | cons e es ih => by_cases h : n = e.1 <;> simp_all [find, eq_comm]

@[simp] theorem find_setEntry (c n : Bytes) (t : Node) (es : List (Bytes × Node)) :
    find c (setEntry n t es) = if c = n then some t else find c es := by
  unfold setEntry
  split
  · next h =>
    rw [find_map_replace]
    rw [any_eq_isSome_find] at h
    split
    · subst_vars
      obtain ⟨a, ha⟩ := Option.isSome_iff_exists.1 h
      simp [ha]
    · rfl
  · next h =>
    refine find_insertEntry c n t es fun ⟨a, b⟩ he hen => ?_
    simp only at hen; subst hen
    simp only [List.any_eq_true, decide_eq_true_eq, not_exists, not_and] at h
    exact h _ he rfl

theorem keys_insertEntry (n : Bytes) (t : Node) (es : List (Bytes × Node)) :
    List.Perm ((insertEntry n t es).map (·.1)) (n :: es.map (·.1)) := by
  induction es with
  | nil => exact List.Perm.refl _
  | cons e es ih =>
    unfold insertEntry
    split
    · exact List.Perm.refl _
    · exact (ih.cons _).trans (List.Perm.swap _ _ _)

@[simp] theorem find_eraseEntry (c n : Bytes) (es : List (Bytes × Node)) :
    find c (eraseEntry n es) = if c = n then none else find c es := by
  induction es with
  | nil => simp [eraseEntry, find]
  | cons e es ih =>
    obtain ⟨m, u⟩ := e
    simp only [eraseEntry, List.filter_cons] at ih ⊢
    by_cases hm : m = n <;> by_cases hc : c = n <;> by_cases hcm : c = m <;> simp_all [find]

theorem nodup_keys_setEntry {n : Bytes} {t : Node} {es : List (Bytes × Node)}
    (h : (es.map (·.1)).Nodup) : ((setEntry n t es).map (·.1)).Nodup := by
  unfold setEntry
  split
  · simpa [List.map_map, Function.comp_def] using h
  · next hn =>
    refine (keys_insertEntry n t es).nodup_iff.2 (List.nodup_cons.2 ⟨?_, h⟩)
    simpa using hn

theorem mem_keys_iff_find {c : Bytes} {es : List (Bytes × Node)} :
    c ∈ es.map (·.1) ↔ (find c es).isSome := by
  induction es with
  | nil => simp [find]
  | cons e es ih => by_cases h : c = e.1 <;> simp_all [find]

theorem nodup_keys_eraseEntry {n : Bytes} {es : List (Bytes × Node)}
    (h : (es.map (·.1)).Nodup) : ((eraseEntry n es).map (·.1)).Nodup :=
  (List.Sublist.map _ (List.filter_sublist es)).nodup h

theorem map_replace_insertEntry {c : Bytes} {x y : Node} {es : List (Bytes × Node)}
    (hn : ∀ e ∈ es, e.1 ≠ c) :
    (insertEntry c y es).map (fun e => (e.1, if e.1 = c then x else e.2)) = insertEntry c x es := by
  induction es with
  | nil => simp [insertEntry]
  | cons e es ih =>
    obtain ⟨m, u⟩ := e
    have hm : m ≠ c := hn _ (List.mem_cons_self _ _)
    have hes : es.map (fun e => (e.1, if e.1 = c then x else e.2)) = es := by
      conv_rhs => rw [← List.map_id es]
      exact List.map_congr_left fun e he => by simp [hn e (List.mem_cons_of_mem _ he)]
    unfold insertEntry
    split
    · simp [hm, hes]
    · simp [hm, ih fun e he => hn e (List.mem_cons_of_mem _ he)]

/-- A second `setEntry` of a name replaces the first. -/
@[simp] theorem setEntry_setEntry (c : Bytes) (x y : Node) (es : List (Bytes × Node)) :
    setEntry c x (setEntry c y es) = setEntry c x es := by
  have h' : (setEntry c y es).any (·.1 = c) := by
    rw [any_eq_isSome_find, find_setEntry, if_pos rfl]; rfl
  by_cases h : es.any (·.1 = c)
  · rw [setEntry, if_pos h', setEntry, if_pos h, setEntry, if_pos h, List.map_map]
    congr 1; funext e; by_cases he : e.1 = c <;> simp [he]
  · rw [setEntry, if_pos h', setEntry, if_neg h, setEntry, if_neg h]
    exact map_replace_insertEntry fun e he hec => h (List.any_eq_true.2 ⟨e, he, by simpa using hec⟩)

/-! ### Paths -/

@[simp] theorem get_nil (t : Node) : t.get [] = .ok t := by cases t <;> rfl

@[simp] theorem get_dir_cons (es : List (Bytes × Node)) (c : Bytes) (cs : List Bytes) :
    (Node.dir es).get (c :: cs) = match find c es with
      | none => .error .ENOENT
      | some t => t.get cs := rfl

@[simp] theorem get_file_cons (d c : Bytes) (cs : List Bytes) :
    (Node.file d).get (c :: cs) = .error .ENOTDIR := rfl

theorem get_append {t : Node} {p : List Bytes} {n : Node} (h : t.get p = .ok n) (q : List Bytes) :
    t.get (p ++ q) = n.get q := by
  induction p generalizing t with
  | nil => simp_all
  | cons c cs ih =>
    cases t with
    | file _ => simp at h
    | dir es =>
      simp only [get_dir_cons, List.cons_append] at h ⊢
      split at h <;> simp_all

/-- A path with a node strictly below it leads to a directory. -/
theorem get_dir_of_get_append {t n : Node} {p q : List Bytes} (hq : q ≠ [])
    (h : t.get (p ++ q) = .ok n) : ∃ es, t.get p = .ok (.dir es) := by
  induction p generalizing t with
  | nil =>
    obtain ⟨c, q, rfl⟩ := List.exists_cons_of_ne_nil hq
    cases t with
    | file _ => simp at h
    | dir es => exact ⟨es, rfl⟩
  | cons c cs ih =>
    cases t with
    | file _ => simp at h
    | dir es =>
      simp only [get_dir_cons, List.cons_append] at h ⊢
      split at h <;> simp_all

/-! ### `alter` -/

section Alter

variable {f : List (Bytes × Node) → Bytes → Except Errno (List (Bytes × Node))}

/-- A successful `alter` ran `f` on the entries of the last name's directory. -/
theorem alter_ok {t t' : Node} {p : List Bytes} (h : t.alter f p = .ok t') :
    ∃ pre c es es', p = pre ++ [c] ∧ t.get pre = .ok (.dir es) ∧ f es c = .ok es' ∧
      ∀ r, t'.get (pre ++ r) = (Node.dir es').get r := by
  induction p using List.rec generalizing t t' with
  | nil => cases t <;> simp [alter] at h
  | cons c cs ih =>
    match t, cs, h with
    | .file _, _, h => simp [alter] at h
    | .dir es, [], h =>
      simp only [alter, Except.map] at h
      split at h <;> simp only [Except.ok.injEq, reduceCtorEq] at h
      exact ⟨[], c, es, _, rfl, rfl, ‹_›, fun r => by simp [← h]⟩
    | .dir es, d :: cs, h =>
      simp only [alter] at h
      split at h
      · simp at h
      · next t0 ht0 =>
        simp only [Except.map] at h
        split at h <;> simp only [Except.ok.injEq, reduceCtorEq] at h
        next t0' ht0' =>
        obtain ⟨pre, c', es0, es0', hp, hget, hf, hr⟩ := ih ht0'
        refine ⟨c :: pre, c', es0, es0', by simp [hp], by simp [ht0, hget], hf, fun r => ?_⟩
        simp [← h, hr]

/-- Outside the directory `alter` changed, files are as they were. -/
theorem get_alter_outside {t t' : Node} {p q : List Bytes} (h : t.alter f p = .ok t')
    (hq : ¬ p.dropLast <+: q) (d : Bytes) :
    t'.get q = .ok (.file d) ↔ t.get q = .ok (.file d) := by
  induction p using List.rec generalizing t t' q with
  | nil => cases t <;> simp [alter] at h
  | cons c cs ih =>
    match t, cs, h with
    | .file _, _, h => simp [alter] at h
    | .dir es, [], h => simp at hq
    | .dir es, e :: cs, h =>
      simp only [alter] at h
      split at h
      · simp at h
      · next t0 ht0 =>
        simp only [Except.map] at h
        split at h <;> simp only [Except.ok.injEq, reduceCtorEq] at h
        next t0' ht0' =>
        subst h
        match q with
        | [] => simp
        | c' :: q' =>
          by_cases hc : c' = c
          · subst hc
            have hq' : ¬ (e :: cs).dropLast <+: q' := fun h' => hq (by simpa using h')
            simp [ht0, ih ht0' hq']
          · simp [hc]

/-- `alter` succeeds when the parent is a directory and `f` accepts its entries. -/
theorem alter_ok_of_get {t : Node} {pre : List Bytes} {c : Bytes} {es es' : List (Bytes × Node)}
    (hget : t.get pre = .ok (.dir es)) (hf : f es c = .ok es') :
    ∃ t', t.alter f (pre ++ [c]) = .ok t' := by
  induction pre generalizing t with
  | nil => simp only [get_nil, Except.ok.injEq] at hget; subst hget; simp [alter, hf, Except.map]
  | cons x xs ih =>
    cases t with
    | file _ => simp at hget
    | dir ds =>
      simp only [get_dir_cons] at hget
      split at hget
      · simp at hget
      · next t0 ht0 =>
        obtain ⟨t0', h0⟩ := ih hget
        obtain ⟨d, rest, hdr⟩ : ∃ d rest, xs ++ [c] = d :: rest :=
          List.exists_cons_of_ne_nil (by simp)
        rw [hdr] at h0
        exact ⟨_, by simp only [List.cons_append, hdr, alter, ht0, h0, Except.map]; rfl⟩

end Alter

/-- The node at `pre ++ [c]` is the entry `c` of the directory at `pre`. -/
theorem get_snoc {t n : Node} {pre : List Bytes} {c : Bytes} :
    t.get (pre ++ [c]) = .ok n ↔ ∃ es, t.get pre = .ok (.dir es) ∧ find c es = some n := by
  induction pre generalizing t with
  | nil =>
    cases t with
    | file _ => simp
    | dir es => simp only [List.nil_append, get_dir_cons, get_nil, Except.ok.injEq, Node.dir.injEq,
        exists_eq_left']; split <;> simp_all
  | cons x xs ih =>
    cases t with
    | file _ => simp
    | dir ds => simp only [List.cons_append, get_dir_cons]; split <;> simp_all

/-! ### Files after each call -/

theorem chain_get_ne_file (cs q : List Bytes) (d : Bytes) : (chain cs).get q ≠ .ok (.file d) := by
  induction cs generalizing q with
  | nil => cases q <;> simp [chain, find]
  | cons c cs ih =>
    cases q with
    | nil => simp [chain]
    | cons c' q => simp only [chain, get_dir_cons, find]; split <;> simp_all

/-- `mkdirAll` creates no file and changes none. -/
theorem mkdirAll_file_iff {t t' : Node} {p : List Bytes} (h : t.mkdirAll p = .ok t') (q : List Bytes)
    (d : Bytes) : t'.get q = .ok (.file d) ↔ t.get q = .ok (.file d) := by
  induction p generalizing t t' q with
  | nil => cases t <;> simp_all [mkdirAll]
  | cons c cs ih =>
    cases t with
    | file _ => simp [mkdirAll] at h
    | dir es =>
      simp only [mkdirAll] at h
      split at h
      · next hn =>
        cases h
        cases q with
        | nil => simp
        | cons c' q =>
          by_cases hc : c' = c
          · subst hc; simp [hn, chain_get_ne_file]
          · simp [hc]
      · next t0 ht0 =>
        split at h <;> simp only [Except.ok.injEq, reduceCtorEq] at h
        next t0' ht0' =>
        cases h
        cases q with
        | nil => simp
        | cons c' q =>
          by_cases hc : c' = c
          · subst hc; simp [ht0, ih ht0']
          · simp [hc]

/-- Files under a directory whose entries changed at one name only. -/
theorem get_dir_entries_file_iff {es es' : List (Bytes × Node)} {c : Bytes}
    (hes : ∀ c', c' ≠ c → find c' es' = find c' es) {r : List Bytes} (hr : r.head? ≠ some c)
    (d : Bytes) : (Node.dir es').get r = .ok (.file d) ↔ (Node.dir es).get r = .ok (.file d) := by
  cases r with
  | nil => simp
  | cons c' r => simp [hes c' (by simpa using hr)]

/-- The files after `alter` in terms of the files in the changed directory. -/
theorem alter_file_iff {f : List (Bytes × Node) → Bytes → Except Errno (List (Bytes × Node))}
    {t t' : Node} {p : List Bytes} (h : t.alter f p = .ok t')
    (hf : ∀ es es' c, f es c = .ok es' → ∀ c', c' ≠ c → find c' es' = find c' es)
    {q : List Bytes} (hq : ¬ p <+: q) (d : Bytes) :
    t'.get q = .ok (.file d) ↔ t.get q = .ok (.file d) := by
  obtain ⟨pre, c, es, es', rfl, hget, hfes, hr⟩ := alter_ok h
  by_cases hpre : pre <+: q
  · obtain ⟨r, rfl⟩ := hpre
    have hrc : r.head? ≠ some c := by
      rintro hh
      obtain ⟨r', rfl⟩ : ∃ r', r = c :: r' := by
        cases r with
        | nil => simp at hh
        | cons x r' => simp at hh; exact ⟨r', by rw [hh]⟩
      exact hq ⟨r', by simp⟩
    rw [hr, get_append hget, get_dir_entries_file_iff (hf _ _ _ hfes) hrc]
  · exact get_alter_outside h (by simpa using hpre) d

/-- Strictly below an entry that is absent or a file there is nothing. -/
theorem get_below_ne_file {es : List (Bytes × Node)} {c : Bytes}
    (h : ∀ ds, find c es ≠ some (.dir ds)) (x : Bytes) (r : List Bytes) (d : Bytes) :
    (Node.dir es).get (c :: x :: r) ≠ .ok (.file d) := by
  simp only [get_dir_cons]
  split
  · simp
  · next n hn => cases n with
    | file _ => simp
    | dir ds => exact absurd hn (h ds)

/-- The files of a tree after `alter` changed the entry `c` of the directory
    at `pre`, when neither the old nor the new entry has files below it. -/
theorem alter_file_iff_at {f : List (Bytes × Node) → Bytes → Except Errno (List (Bytes × Node))}
    {t t' : Node} {pre : List Bytes} {c : Bytes} (h : t.alter f (pre ++ [c]) = .ok t')
    {es es' : List (Bytes × Node)} (hget : t.get pre = .ok (.dir es))
    (hr : ∀ r, t'.get (pre ++ r) = (Node.dir es').get r)
    (hes : ∀ x r d, (Node.dir es).get (c :: x :: r) ≠ .ok (.file d))
    (hes' : ∀ x r d, (Node.dir es').get (c :: x :: r) ≠ .ok (.file d))
    (hf : ∀ es es' c, f es c = .ok es' → ∀ c', c' ≠ c → find c' es' = find c' es)
    (q : List Bytes) (d : Bytes) :
    t'.get q = .ok (.file d) ↔
      if q = pre ++ [c] then find c es' = some (.file d) else t.get q = .ok (.file d) := by
  by_cases hq : pre ++ [c] <+: q
  · obtain ⟨r, rfl⟩ := hq
    cases r with
    | nil =>
      simp only [List.append_nil, hr, get_dir_cons, get_nil, if_true]
      split <;> simp_all
    | cons x r =>
      rw [if_neg (by simp), List.append_assoc, List.singleton_append, hr, get_append hget]
      exact iff_of_false (hes' x r d) (hes x r d)
  · rw [if_neg (fun h' => hq (by subst h'; exact List.prefix_refl _))]
    exact alter_file_iff h hf hq d

/-- The files after `create`: an empty file at the path, the others unchanged. -/
theorem create_file_iff {t t' : Node} {p : List Bytes} (h : t.create p = .ok t')
    (q : List Bytes) (d : Bytes) :
    t'.get q = .ok (.file d) ↔ if q = p then d = [] else t.get q = .ok (.file d) := by
  unfold create at h
  split at h
  · simp at h
  obtain ⟨pre, c, es, es', rfl, hget, hf, hr⟩ := alter_ok h
  have hes : (∀ ds, find c es ≠ some (.dir ds)) ∧ es' = setEntry c (.file []) es := by
    split at hf <;> simp_all
  obtain ⟨hes, rfl⟩ := hes
  rw [alter_file_iff_at h hget hr (get_below_ne_file hes) (get_below_ne_file (by simp)) ?_ q d]
  · split <;> simp [eq_comm]
  · intro es es' c hfc c' hc'
    split at hfc <;> simp only [reduceCtorEq, Except.ok.injEq] at hfc
    subst hfc; simp [hc']

/-- The files after `append`: the chunk added to the file at the path. -/
theorem append_file_iff {t t' : Node} {p : List Bytes} {chunk : Bytes}
    (h : t.append p chunk = .ok t') (q : List Bytes) (d : Bytes) :
    t'.get q = .ok (.file d) ↔
      if q = p then ∃ d0, t.get p = .ok (.file d0) ∧ d = d0 ++ chunk
      else t.get q = .ok (.file d) := by
  unfold append at h
  split at h
  · simp at h
  obtain ⟨pre, c, es, es', rfl, hget, hf, hr⟩ := alter_ok h
  obtain ⟨d0, hd0, rfl⟩ : ∃ d0, find c es = some (.file d0) ∧
      es' = setEntry c (.file (d0 ++ chunk)) es := by
    split at hf <;> simp_all
  rw [alter_file_iff_at h hget hr (get_below_ne_file (by simp [hd0]))
    (get_below_ne_file (by simp)) ?_ q d]
  · split
    · simp [get_append hget, hd0, eq_comm]
    · rfl
  · intro es es' c hfc c' hc'
    split at hfc <;> simp only [reduceCtorEq, Except.ok.injEq] at hfc
    subst hfc; simp [hc']

/-- The files after `remove`: the one at the path is gone (a removed directory
    was empty), the others unchanged. -/
theorem remove_file_iff {t t' : Node} {p : List Bytes} (h : t.remove p = .ok t')
    (q : List Bytes) (d : Bytes) :
    t'.get q = .ok (.file d) ↔ q ≠ p ∧ t.get q = .ok (.file d) := by
  unfold remove at h
  split at h
  · simp at h
  obtain ⟨pre, c, es, es', rfl, hget, hf, hr⟩ := alter_ok h
  have hes : (find c es = none ∨ (∃ d0, find c es = some (.file d0)) ∨
      find c es = some (.dir [])) ∧ es' = eraseEntry c es := by
    split at hf <;> simp_all
  obtain ⟨hold, rfl⟩ := hes
  have hbelow : ∀ x r d, (Node.dir es).get (c :: x :: r) ≠ .ok (.file d) := by
    intro x r d
    rcases hold with h0 | ⟨d0, h0⟩ | h0 <;> simp [h0, find]
  rw [alter_file_iff_at h hget hr hbelow (get_below_ne_file (by simp)) ?_ q d]
  · split <;> simp_all
  · intro es es' c hfc c' hc'
    split at hfc <;> simp only [reduceCtorEq, Except.ok.injEq] at hfc <;> subst hfc <;> simp [hc']

/-- `remove` succeeds exactly on a file or an empty directory. -/
theorem remove_ok_iff {t : Node} {p : List Bytes} (hp : p ≠ []) :
    (∃ t', t.remove p = .ok t') ↔ (∃ d, t.get p = .ok (.file d)) ∨ t.get p = .ok (.dir []) := by
  obtain ⟨pre, c, rfl⟩ := List.eq_nil_or_concat p |>.resolve_left hp
  rw [List.concat_eq_append] at *
  simp only [get_snoc]
  unfold remove
  rw [if_neg hp]
  constructor
  · rintro ⟨t', h⟩
    obtain ⟨pre', c', es, es', hpc, hget, hf, -⟩ := alter_ok h
    obtain ⟨rfl, hc⟩ := List.append_inj' hpc rfl
    obtain rfl : c = c' := by simpa using hc
    split at hf <;> simp_all
  · rintro (⟨d, es, hes, hc⟩ | ⟨es, hes, hc⟩)
    · exact alter_ok_of_get hes (show _ = .ok (eraseEntry c es) by simp [hc])
    · exact alter_ok_of_get hes (show _ = .ok (eraseEntry c es) by simp [hc])

/-! ### Writing a file and removing twice -/

/-- The entry function of `os.Create` followed by writes of `d`: the entry
    holds a file of `d`, unless it is a directory. -/
def putFile (d : Bytes) (es : List (Bytes × Node)) (c : Bytes) : Except Errno (List (Bytes × Node)) :=
  match find c es with
  | some (.dir _) => .error .EISDIR
  | _ => .ok (setEntry c (.file d) es)

theorem create_eq_alter {t : Node} {p : List Bytes} (hp : p ≠ []) :
    t.create p = t.alter (putFile []) p := by
  rw [create, if_neg hp]; rfl

/-- Under a directory, `os.Create` succeeds exactly when the name is not a directory. -/
theorem create_ok_iff {t : Node} {q : List Bytes} {es : List (Bytes × Node)} (hq : t.get q = .ok (.dir es))
    (c : Bytes) : (∃ t', t.create (q ++ [c]) = .ok t') ↔ ∀ ds, find c es ≠ some (.dir ds) := by
  rw [create_eq_alter (by simp)]
  constructor
  · rintro ⟨t', h⟩ ds hds
    obtain ⟨pre, c', es0, es', hpc, hg, hf, -⟩ := alter_ok h
    obtain ⟨rfl, hc⟩ := List.append_inj' hpc rfl
    cases List.singleton_inj.1 hc
    cases hq.symm.trans hg
    simp [putFile, hds] at hf
  · intro hd
    exact alter_ok_of_get hq (show putFile [] es c = .ok (setEntry c (.file []) es) by
      unfold putFile; split <;> simp_all)

/-- After a `remove` succeeded, nothing is at the path. -/
theorem remove_get {t t' : Node} {p : List Bytes} (h : t.remove p = .ok t') : t'.get p = .error .ENOENT := by
  unfold Node.remove at h
  split at h
  · cases h
  obtain ⟨pre, c, es, es', rfl, -, hf, hr⟩ := alter_ok h
  have hc : find c es' = none := by
    split at hf <;> simp only [reduceCtorEq, Except.ok.injEq] at hf <;> subst hf <;> simp
  simpa [hc] using hr [c]

end S3Fs.Node
