import S3Fs.Spec.Tree
import S3Fs.Native.Server
import Mathlib.Data.List.Nodup

/-!
# Well-formed trees and the listing walk

`Node.WF` is what every directory tree of a real filesystem satisfies: the
entries of a directory have distinct names, each a path element.  The tree
operations keep it.

`filesBelow` lists the files below a node with their relative paths, in the
order `filepath.Walk` visits them.  On a well-formed tree it holds every file
exactly once (`mem_filesBelow`, `nodup_filesBelow`), and the walk `ListObjects`
makes reports exactly these files, under the key `Rel` gives them
(`walkEntries_listWalkFn`).

## Key results

- `WF.mkdirAll`, `WF.create`, `WF.append`, `WF.remove`: the calls keep `WF`
- `WF.create_after_mkdirAll`: a `Create` that fails after `MkdirAll` leaves the tree as it was
- `mem_filesBelow`, `nodup_filesBelow`: the walk order holds each file once
- `walkEntries_listWalkFn`: the walk of `ListObjects` reports the files below in order
-/

namespace S3Fs.Node

mutual
/-- A well-formed tree: in every directory, distinct names that are path elements. -/
def WF : Node → Prop
  | .file _ => True
  | .dir es => (es.map (·.1)).Nodup ∧ EntriesWF es
/-- Every entry is named by a path element and is well formed. -/
def EntriesWF : List (Bytes × Node) → Prop
  | [] => True
  | (n, t) :: es => IsName n ∧ t.WF ∧ EntriesWF es
end

theorem entriesWF_iff {es : List (Bytes × Node)} :
    EntriesWF es ↔ ∀ e ∈ es, IsName e.1 ∧ e.2.WF := by
  induction es with
  | nil => simp [EntriesWF]
  | cons e es ih => obtain ⟨n, t⟩ := e; simp [EntriesWF, ih, and_assoc]

@[simp] theorem wf_dir {es : List (Bytes × Node)} :
    (Node.dir es).WF ↔ (es.map (·.1)).Nodup ∧ ∀ e ∈ es, IsName e.1 ∧ e.2.WF := by
  rw [WF, entriesWF_iff]

@[simp] theorem wf_file (d : Bytes) : (Node.file d).WF := trivial

/-! ### Entries of a well-formed directory -/

theorem mem_of_find {c : Bytes} {t : Node} {es : List (Bytes × Node)} (h : find c es = some t) :
    (c, t) ∈ es := by
  induction es with
  | nil => simp [find] at h
  | cons e es ih =>
    simp only [find] at h
    split at h
    · cases h; subst_vars; exact List.mem_cons_self _ _
    · exact List.mem_cons_of_mem _ (ih h)

theorem find_of_mem {c : Bytes} {t : Node} {es : List (Bytes × Node)}
    (hn : (es.map (·.1)).Nodup) (h : (c, t) ∈ es) : find c es = some t := by
  induction es with
  | nil => simp at h
  | cons e es ih =>
    obtain ⟨m, u⟩ := e
    simp only [List.map_cons, List.nodup_cons, List.mem_map] at hn
    rcases List.mem_cons.1 h with h | h
    · cases h; simp [find]
    · have hcm : c ≠ m := fun hcm => hn.1 ⟨(c, t), h, hcm⟩
      simp [find, hcm, ih hn.2 h]

theorem WF.of_find {c : Bytes} {t : Node} {es : List (Bytes × Node)} (h : (Node.dir es).WF)
    (hf : find c es = some t) : IsName c ∧ t.WF :=
  (wf_dir.1 h).2 _ (mem_of_find hf)

theorem WF.get {t n : Node} {p : List Bytes} (h : t.WF) (hg : t.get p = .ok n) : n.WF := by
  induction p generalizing t with
  | nil => simp_all
  | cons c cs ih =>
    cases t with
    | file _ => simp at hg
    | dir es =>
      simp only [get_dir_cons] at hg
      split at hg
      · simp at hg
      · exact ih (h.of_find ‹_›).2 hg

/-- A path that leads somewhere in a well-formed tree is made of names. -/
theorem WF.names_of_get {t n : Node} {p : List Bytes} (h : t.WF) (hg : t.get p = .ok n) :
    ∀ c ∈ p, IsName c := by
  induction p generalizing t with
  | nil => simp
  | cons c cs ih =>
    cases t with
    | file _ => simp at hg
    | dir es =>
      simp only [get_dir_cons] at hg
      split at hg
      · simp at hg
      · have hc := h.of_find ‹_›
        exact List.forall_mem_cons.2 ⟨hc.1, ih hc.2 hg⟩

theorem mem_insertEntry {e : Bytes × Node} {n : Bytes} {t : Node} {es : List (Bytes × Node)}
    (h : e ∈ insertEntry n t es) : e = (n, t) ∨ e ∈ es := by
  induction es with
  | nil => simpa [insertEntry] using h
  | cons x es ih =>
    obtain ⟨m, u⟩ := x
    unfold insertEntry at h
    split at h
    · simpa using h
    · rcases List.mem_cons.1 h with rfl | h
      · exact .inr (List.mem_cons_self _ _)
      · exact (ih h).imp_right (List.mem_cons_of_mem _)

theorem mem_setEntry {e : Bytes × Node} {n : Bytes} {t : Node} {es : List (Bytes × Node)}
    (h : e ∈ setEntry n t es) : e = (n, t) ∨ e ∈ es := by
  unfold setEntry at h
  split at h
  · obtain ⟨e0, he0, rfl⟩ := List.mem_map.1 h
    by_cases hn : e0.1 = n
    · left; simp [hn]
    · right; simpa [hn] using he0
  · exact mem_insertEntry h

theorem WF.setEntry {n : Bytes} {t : Node} {es : List (Bytes × Node)} (h : (Node.dir es).WF)
    (hn : IsName n) (ht : t.WF) : (Node.dir (setEntry n t es)).WF := by
  rw [wf_dir] at h ⊢
  refine ⟨nodup_keys_setEntry h.1, fun e he => ?_⟩
  rcases mem_setEntry he with rfl | he
  · exact ⟨hn, ht⟩
  · exact h.2 e he

theorem WF.eraseEntry {n : Bytes} {es : List (Bytes × Node)} (h : (Node.dir es).WF) :
    (Node.dir (eraseEntry n es)).WF := by
  rw [wf_dir] at h ⊢
  exact ⟨nodup_keys_eraseEntry h.1, fun e he => h.2 e (List.mem_of_mem_filter he)⟩

/-! ### The calls keep `WF` -/

theorem WF.alter {f : List (Bytes × Node) → Bytes → Except Errno (List (Bytes × Node))}
    {t t' : Node} {p : List Bytes} (h : t.WF) (hp : ∀ c ∈ p, IsName c)
    (hf : ∀ es es' c, (Node.dir es).WF → IsName c → f es c = .ok es' → (Node.dir es').WF)
    (ha : t.alter f p = .ok t') : t'.WF := by
  induction p using List.rec generalizing t t' with
  | nil => cases t <;> simp [Node.alter] at ha
  | cons c cs ih =>
    match t, cs, ha with
    | .file _, _, ha => simp [Node.alter] at ha
    | .dir es, [], ha =>
      simp only [Node.alter, Except.map] at ha
      split at ha <;> simp only [Except.ok.injEq, reduceCtorEq] at ha
      subst ha
      exact hf _ _ _ h (hp c (List.mem_cons_self _ _)) ‹_›
    | .dir es, d :: cs, ha =>
      simp only [Node.alter] at ha
      split at ha
      · simp at ha
      · next t0 ht0 =>
        simp only [Except.map] at ha
        split at ha <;> simp only [Except.ok.injEq, reduceCtorEq] at ha
        subst ha
        exact h.setEntry (hp c (List.mem_cons_self _ _))
          (ih (h.of_find ht0).2 (fun x hx => hp x (List.mem_cons_of_mem _ hx)) ‹_›)

theorem WF.chain {cs : List Bytes} (h : ∀ c ∈ cs, IsName c) : (Node.chain cs).WF := by
  induction cs with
  | nil => simp [Node.chain]
  | cons c cs ih =>
    simp only [Node.chain, wf_dir, List.map_cons, List.map_nil, List.nodup_cons, List.not_mem_nil,
      not_false_eq_true, List.nodup_nil, and_self, List.mem_singleton, forall_eq, true_and]
    exact ⟨h c (List.mem_cons_self _ _), ih fun x hx => h x (List.mem_cons_of_mem _ hx)⟩

theorem WF.mkdirAll {t t' : Node} {p : List Bytes} (h : t.WF) (hp : ∀ c ∈ p, IsName c)
    (hm : t.mkdirAll p = .ok t') : t'.WF := by
  induction p generalizing t t' with
  | nil =>
    cases t with
    | file _ => simp [Node.mkdirAll] at hm
    | dir es => simp only [Node.mkdirAll, Except.ok.injEq] at hm; exact hm ▸ h
  | cons c cs ih =>
    cases t with
    | file _ => simp [Node.mkdirAll] at hm
    | dir es =>
      have hc := hp c (List.mem_cons_self _ _)
      have hcs : ∀ x ∈ cs, IsName x := fun x hx => hp x (List.mem_cons_of_mem _ hx)
      simp only [Node.mkdirAll] at hm
      split at hm
      · cases hm; exact h.setEntry hc (WF.chain hcs)
      · next t0 ht0 =>
        split at hm <;> simp only [Except.ok.injEq, reduceCtorEq] at hm
        subst hm
        exact h.setEntry hc (ih (h.of_find ht0).2 hcs ‹_›)

theorem WF.create {t t' : Node} {p : List Bytes} (h : t.WF) (hp : ∀ c ∈ p, IsName c)
    (hc : t.create p = .ok t') : t'.WF := by
  unfold Node.create at hc
  split at hc
  · simp at hc
  · refine h.alter hp (fun es es' c hes hn hf => ?_) hc
    split at hf <;> simp only [reduceCtorEq, Except.ok.injEq] at hf
    subst hf; exact hes.setEntry hn (wf_file _)

theorem WF.append {t t' : Node} {p : List Bytes} {chunk : Bytes} (h : t.WF)
    (hp : ∀ c ∈ p, IsName c) (hc : t.append p chunk = .ok t') : t'.WF := by
  unfold Node.append at hc
  split at hc
  · simp at hc
  · refine h.alter hp (fun es es' c hes hn hf => ?_) hc
    split at hf <;> simp only [reduceCtorEq, Except.ok.injEq] at hf
    subst hf; exact hes.setEntry hn (wf_file _)

theorem WF.remove {t t' : Node} {p : List Bytes} (h : t.WF) (hp : ∀ c ∈ p, IsName c)
    (hc : t.remove p = .ok t') : t'.WF := by
  unfold Node.remove at hc
  split at hc
  · simp at hc
  · refine h.alter hp (fun es es' c hes hn hf => ?_) hc
    split at hf <;> simp only [reduceCtorEq, Except.ok.injEq] at hf <;> subst hf <;>
      exact hes.eraseEntry

/-! ### Calls that change nothing -/

theorem setEntry_self {c : Bytes} {t : Node} {es : List (Bytes × Node)} (hn : (es.map (·.1)).Nodup)
    (hf : find c es = some t) : setEntry c t es = es := by
  unfold setEntry
  rw [if_pos (by rw [any_eq_isSome_find, hf]; rfl)]
  conv_rhs => rw [← List.map_id es]
  refine List.map_congr_left fun e he => ?_
  split_ifs with h
  · have := find_of_mem hn (show (c, e.2) ∈ es from h ▸ he)
    rw [hf, Option.some.injEq] at this
    rw [this]
    rfl
  · rfl

/-- `mkdirAll` of a directory that is there changes nothing. -/
theorem WF.mkdirAll_of_dir {t : Node} {p : List Bytes} {es : List (Bytes × Node)} (h : t.WF)
    (hg : t.get p = .ok (.dir es)) : t.mkdirAll p = .ok t := by
  induction p generalizing t with
  | nil => simp only [get_nil, Except.ok.injEq] at hg; subst hg; rfl
  | cons c cs ih =>
    cases t with
    | file _ => cases hg
    | dir ds =>
      simp only [get_dir_cons] at hg
      split at hg
      · simp at hg
      · next t0 ht0 =>
        simp only [Node.mkdirAll, ht0, ih (h.of_find ht0).2 hg, setEntry_self (wf_dir.1 h).1 ht0]

mutual
/-- The files below a node, with their paths relative to it, in walk order. -/
def filesBelow : Node → List (List Bytes × Bytes)
  | .file d => [([], d)]
  | .dir es => entriesFiles es
/-- The files below the entries of a directory, in order. -/
def entriesFiles : List (Bytes × Node) → List (List Bytes × Bytes)
  | [] => []
  | (n, t) :: es => (filesBelow t).map (fun f => (n :: f.1, f.2)) ++ entriesFiles es
end

theorem head_mem_keys_of_mem_entriesFiles {es : List (Bytes × Node)} {q : List Bytes} {d : Bytes}
    (h : (q, d) ∈ entriesFiles es) : ∃ c q', q = c :: q' ∧ c ∈ es.map (·.1) := by
  induction es with
  | nil => simp [entriesFiles] at h
  | cons e es ih =>
    obtain ⟨n, t⟩ := e
    simp only [entriesFiles, List.mem_append, List.mem_map, Prod.mk.injEq] at h
    rcases h with ⟨f, -, rfl, -⟩ | h
    · exact ⟨n, f.1, rfl, List.mem_cons_self _ _⟩
    · obtain ⟨c, q', rfl, hc⟩ := ih h
      exact ⟨c, q', rfl, List.mem_cons_of_mem _ hc⟩

theorem mem_entriesFiles_cons {n : Bytes} {t : Node} {es : List (Bytes × Node)}
    {q : List Bytes} {d : Bytes} :
    (q, d) ∈ entriesFiles ((n, t) :: es) ↔
      (∃ q', q = n :: q' ∧ (q', d) ∈ t.filesBelow) ∨ (q, d) ∈ entriesFiles es := by
  simp only [entriesFiles, List.mem_append, List.mem_map, Prod.mk.injEq]
  constructor
  · rintro (⟨f, hf, rfl, rfl⟩ | h)
    · exact .inl ⟨f.1, rfl, hf⟩
    · exact .inr h
  · rintro (⟨q', rfl, h⟩ | h)
    · exact .inl ⟨(q', d), h, rfl, rfl⟩
    · exact .inr h

mutual
/-- On a well-formed tree, `filesBelow` holds exactly the files. -/
theorem mem_filesBelow : ∀ (t : Node), t.WF → ∀ q d,
    (q, d) ∈ t.filesBelow ↔ t.get q = .ok (.file d)
  | .file d0, _, q, d => by cases q <;> simp [filesBelow, eq_comm]
  | .dir es, h, q, d => by
    rw [filesBelow]
    exact mem_entriesFiles es (wf_dir.1 h).1 (fun e he => ((wf_dir.1 h).2 e he).2) q d
/-- The entries version of `mem_filesBelow`. -/
theorem mem_entriesFiles : ∀ (es : List (Bytes × Node)), (es.map (·.1)).Nodup →
    (∀ e ∈ es, e.2.WF) → ∀ q d, (q, d) ∈ entriesFiles es ↔ (Node.dir es).get q = .ok (.file d)
  | [], _, _, q, d => by cases q <;> simp [entriesFiles, find]
  | (n, t) :: es, hn, hw, q, d => by
    simp only [List.map_cons, List.nodup_cons] at hn
    have ht := mem_filesBelow t (hw _ (List.mem_cons_self _ _))
    have hes := mem_entriesFiles es hn.2 (fun e he => hw e (List.mem_cons_of_mem _ he))
    rw [mem_entriesFiles_cons]
    cases q with
    | nil =>
      simp only [get_nil, Except.ok.injEq, reduceCtorEq, iff_false, not_or, not_exists, not_and]
      refine ⟨fun _ h => (nomatch h), fun h => ?_⟩
      obtain ⟨c, q', h', -⟩ := head_mem_keys_of_mem_entriesFiles h
      simp at h'
    | cons c q =>
      simp only [List.cons.injEq, get_dir_cons, find]
      by_cases hc : c = n
      · subst hc
        simp only [true_and, exists_eq_left', if_true, ← ht q d]
        refine ⟨fun h => h.resolve_right fun h' => ?_, .inl⟩
        obtain ⟨c', q', h', hc'⟩ := head_mem_keys_of_mem_entriesFiles h'
        simp only [List.cons.injEq] at h'
        exact hn.1 (h'.1 ▸ hc')
      · simpa [hc] using hes (c :: q) d
end

mutual
/-- On a well-formed tree, the walk reaches each file once. -/
theorem nodup_filesBelow : ∀ (t : Node), t.WF → (t.filesBelow.map (·.1)).Nodup
  | .file _, _ => by simp [filesBelow]
  | .dir es, h => by
    rw [filesBelow]
    exact nodup_entriesFiles es (wf_dir.1 h).1 (fun e he => ((wf_dir.1 h).2 e he).2)
/-- The entries version of `nodup_filesBelow`. -/
theorem nodup_entriesFiles : ∀ (es : List (Bytes × Node)), (es.map (·.1)).Nodup →
    (∀ e ∈ es, e.2.WF) → ((entriesFiles es).map (·.1)).Nodup
  | [], _, _ => by simp [entriesFiles]
  | (n, t) :: es, hn, hw => by
    simp only [List.map_cons, List.nodup_cons] at hn
    have ht := nodup_filesBelow t (hw _ (List.mem_cons_self _ _))
    have hes := nodup_entriesFiles es hn.2 (fun e he => hw e (List.mem_cons_of_mem _ he))
    rw [entriesFiles, List.map_append, List.map_map]
    refine List.Nodup.append ?_ hes fun q hq hq' => ?_
    · simpa [Function.comp_def] using ht.map (List.cons_injective : Function.Injective (List.cons n))
    · obtain ⟨f, -, rfl⟩ := List.mem_map.1 hq
      obtain ⟨g, hg, hgq⟩ := List.mem_map.1 hq'
      obtain ⟨c, q', h', hc⟩ := head_mem_keys_of_mem_entriesFiles (show (g.1, g.2) ∈ _ from hg)
      simp only [Function.comp_apply] at hgq
      rw [hgq] at h'
      simp only [List.cons.injEq] at h'
      exact hn.1 (h'.1 ▸ hc)
end

/-! ### The walk of `ListObjects` -/

/-- The objects `ListObjects` reports for files at relative paths: the key is
    the path joined with `/`, kept when the prefix matches. -/
def listed (pre : Bytes) (fs : List (List Bytes × Bytes)) : List Object :=
  fs.filterMap fun f =>
    if pre = [] || Strings.hasPrefix (Strings.join f.1 slash) pre then
      some ⟨Strings.join f.1 slash, f.2.length⟩
    else none

theorem mem_listed {pre : Bytes} {fs : List (List Bytes × Bytes)} {o : Object} :
    o ∈ listed pre fs ↔ ∃ q d, (q, d) ∈ fs ∧ (pre = [] ∨ Strings.hasPrefix (Strings.join q slash) pre) ∧
      o = ⟨Strings.join q slash, d.length⟩ := by
  simp only [listed, List.mem_filterMap, Bool.or_eq_true, decide_eq_true_eq]
  constructor
  · rintro ⟨⟨q, d⟩, hm, ho⟩
    split at ho <;> simp only [Option.some.injEq, reduceCtorEq] at ho
    exact ⟨q, d, hm, ‹_›, ho.symm⟩
  · rintro ⟨q, d, hm, hp, rfl⟩
    exact ⟨(q, d), hm, by simp [hp]⟩

/-- The keys `ListObjects` reports: the joined paths that have the prefix (an
    empty prefix is a prefix of every key). -/
theorem listed_keys (pre : Bytes) (fs : List (List Bytes × Bytes)) :
    (listed pre fs).map (·.key) =
      ((fs.map (·.1)).filter fun q => Strings.hasPrefix (Strings.join q slash) pre).map
        (Strings.join · slash) := by
  have hpre : ∀ x : Bytes, (pre = [] || Strings.hasPrefix x pre) = Strings.hasPrefix x pre := by
    intro x; cases pre <;> simp [Strings.hasPrefix]
  induction fs with
  | nil => rfl
  | cons f fs ih =>
    simp only [listed, List.filterMap_cons, hpre, List.map_cons, List.filter_cons] at ih ⊢
    by_cases hf : Strings.hasPrefix (Strings.join f.1 slash) pre = true <;> simp [hf, ih]

section ListWalk

variable (base : List Bytes) (pre : Bytes)

mutual
/-- Walking a node reached by the relative path `rel` from the bucket appends
    the objects of its files. -/
theorem walk_listWalkFn : ∀ (t : Node), t.WF → ∀ (rel : List Bytes), rel ≠ [] →
    (∀ x ∈ base ++ rel, IsName x) → ∀ (name : Bytes) (acc : List Object),
    t.walk (S3Server.listWalkFn (absPath base) pre) (absPath (base ++ rel)) name acc =
      .ok (acc ++ listed pre (t.filesBelow.map fun f => (rel ++ f.1, f.2)))
  | .file d, _, rel, hrel, hn, name, acc => by
    have hb : ∀ x ∈ base, IsName x := fun x hx => hn x (List.mem_append_left _ hx)
    have hr : ∀ x ∈ rel, IsName x := fun x hx => hn x (List.mem_append_right _ hx)
    simp only [walk, S3Server.listWalkFn, Node.info, rel_absPath_append hb hr hrel]
    simp only [bind, Except.bind, pure, Except.pure, Except.mapError, Filepath.toSlash, filesBelow,
      List.map_cons, List.map_nil, List.append_nil, listed, List.filterMap_cons, List.filterMap_nil]
    split_ifs <;> simp_all
  | .dir es, h, rel, _, hn, name, acc => by
    simp only [walk, S3Server.listWalkFn, Node.info, bind, Except.bind, pure, Except.pure,
      if_true, filesBelow]
    exact walkEntries_listWalkFn es (wf_dir.1 h).2 rel hn acc
/-- The entries version of `walk_listWalkFn`. -/
theorem walkEntries_listWalkFn : ∀ (es : List (Bytes × Node)), (∀ e ∈ es, IsName e.1 ∧ e.2.WF) →
    ∀ (rel : List Bytes), (∀ x ∈ base ++ rel, IsName x) → ∀ (acc : List Object),
    walkEntries (S3Server.listWalkFn (absPath base) pre) (absPath (base ++ rel)) es acc =
      .ok (acc ++ listed pre ((entriesFiles es).map fun f => (rel ++ f.1, f.2)))
  | [], _, rel, _, acc => by simp [walkEntries, entriesFiles, listed]
  | (n, t) :: es, hw, rel, hn, acc => by
    have hnt := hw _ (List.mem_cons_self _ _)
    have hn' : ∀ x ∈ base ++ (rel ++ [n]), IsName x := by
      simp only [← List.append_assoc, List.mem_append, List.mem_singleton]
      rintro x (hx | rfl)
      exacts [hn x (List.mem_append.2 hx), hnt.1]
    rw [walkEntries, join_absPath_name hn hnt.1, List.append_assoc,
      walk_listWalkFn t hnt.2 (rel ++ [n]) (by simp) hn' n acc]
    simp only [bind, Except.bind]
    rw [walkEntries_listWalkFn es (fun e he => hw e (List.mem_cons_of_mem _ he)) rel hn]
    simp [entriesFiles, listed, List.filterMap_append, List.map_map, Function.comp_def]
end

end ListWalk

end S3Fs.Node
