import S3Fs.Go.Os

/-!
# Paths the server builds

What `Clean`, `Join` and `Rel` compute on the paths the server passes them.
The storage root is an absolute clean path, `absPath rs` for a list of names
`rs` (the command line makes it so with `filepath.Abs`).  A *name* is a path
element a directory entry can have; a *canonical key* is a key all of whose
`/`-separated elements are names.

## Key results

- `resolve_absPath`: the tree path of `absPath cs` is `cs`
- `clean_of_rooted`: `Clean` of a rooted path is the `absPath` of its tree path
- `resolve_join_key`: joining a canonical key appends its elements
- `resolve_dir_join_key`: `Dir` of an object path drops its last element
- `rel_absPath_append`: `Rel` recovers the appended elements
- `isName_of_mem_resolve`: every element of a tree path is a name
-/

namespace S3Fs

open Filepath

/-- A path element a directory entry can be named by: nonempty, without `/`,
    and neither `.` nor `..`. -/
def IsName (e : Bytes) : Prop := e ≠ [] ∧ e ≠ dot ∧ e ≠ dotdot ∧ slash ∉ e

instance : DecidablePred IsName := fun _ => inferInstanceAs (Decidable (_ ∧ _))

/-- The clean absolute path of a list of names. -/
def absPath (cs : List Bytes) : Bytes := slash :: Strings.join cs slash

/-- A canonical key: every `/`-separated element is a name, so the key is
    nonempty, has no leading, trailing or doubled `/`, and no `.` or `..`. -/
def IsCanonicalKey (k : Bytes) : Prop := ∀ e ∈ Strings.split k slash, IsName e

instance : DecidablePred IsCanonicalKey := fun k =>
  inferInstanceAs (Decidable (∀ e ∈ Strings.split k slash, IsName e))

/-! ### Splitting -/

theorem split_append_slash (xs ys : Bytes) :
    Strings.split (xs ++ slash :: ys) slash = Strings.split xs slash ++ Strings.split ys slash := by
  induction xs with
  | nil => simp [Strings.split, List.splitOn, List.splitOnP_cons]
  | cons x xs ih =>
    simp only [Strings.split, List.splitOn] at ih ⊢
    rw [List.cons_append, List.splitOnP_cons, List.splitOnP_cons, ih]
    split
    · simp
    · cases h : List.splitOnP (· == slash) xs with
      | nil => exact absurd h (List.splitOnP_ne_nil _ _)
      | cons a as => simp

theorem split_slash_cons (ys : Bytes) :
    Strings.split (slash :: ys) slash = [] :: Strings.split ys slash :=
  split_append_slash [] ys

theorem split_ne_nil (s : Bytes) : Strings.split s slash ≠ [] := List.splitOnP_ne_nil _ _

theorem slash_not_mem_of_mem_split {s e : Bytes} (h : e ∈ Strings.split s slash) : slash ∉ e := by
  induction s generalizing e with
  | nil => simp_all [Strings.split]
  | cons x xs ih =>
    simp only [Strings.split, List.splitOn, List.splitOnP_cons] at h ih
    by_cases hx : x = slash
    · simp only [hx, beq_self_eq_true, if_true, List.mem_cons] at h
      rcases h with rfl | h
      · simp
      · exact ih h
    · rw [if_neg (by simpa using hx)] at h
      cases hs : List.splitOnP (· == slash) xs with
      | nil => exact absurd hs (List.splitOnP_ne_nil _ _)
      | cons a as =>
        rw [hs] at h ih
        simp only [List.modifyHead_cons, List.mem_cons] at h
        rcases h with rfl | h
        · simp only [List.mem_cons, not_or]
          exact ⟨fun h => hx h.symm, ih (List.mem_cons_self _ _)⟩
        · exact ih (List.mem_cons_of_mem _ h)

theorem split_join {cs : List Bytes} (hcs : ∀ c ∈ cs, slash ∉ c) (hne : cs ≠ []) :
    Strings.split (Strings.join cs slash) slash = cs :=
  List.splitOn_intercalate cs slash hcs hne

theorem join_split (s : Bytes) : Strings.join (Strings.split s slash) slash = s :=
  List.intercalate_splitOn s slash

/-! ### The element stack of `Clean` -/

theorem pushElem_name {r : Bool} {st : List Bytes} {e : Bytes} (h : IsName e) :
    pushElem r st e = e :: st := by
  obtain ⟨h1, h2, h3, -⟩ := h
  simp [pushElem, h1, h2, h3]

theorem foldl_pushElem_names (r : Bool) {es : List Bytes} (h : ∀ e ∈ es, IsName e)
    (st : List Bytes) : es.foldl (pushElem r) st = es.reverse ++ st := by
  induction es generalizing st with
  | nil => rfl
  | cons e es ih =>
    rw [List.foldl_cons, pushElem_name (h e (List.mem_cons_self _ _)),
      ih (fun x hx => h x (List.mem_cons_of_mem _ hx))]
    simp

/-- A rooted stack keeps only names, given elements without `/`. -/
theorem pushElem_true_names {st : List Bytes} {e : Bytes} (hst : ∀ x ∈ st, IsName x)
    (he : slash ∉ e) : ∀ x ∈ pushElem true st e, IsName x := by
  unfold pushElem
  split
  · exact hst
  · split
    · split
      · simp
      · next top rest =>
        split
        · exact absurd (hst top (List.mem_cons_self _ _)) (by simp_all [IsName])
        · exact fun x hx => hst x (List.mem_cons_of_mem _ hx)
    · rintro x (_ | ⟨_, hx⟩)
      · exact ⟨by tauto, by tauto, by assumption, he⟩
      · exact hst x hx

theorem foldl_pushElem_true_names {es st : List Bytes} (hes : ∀ e ∈ es, slash ∉ e)
    (hst : ∀ x ∈ st, IsName x) : ∀ x ∈ es.foldl (pushElem true) st, IsName x := by
  induction es generalizing st with
  | nil => exact hst
  | cons e es ih =>
    exact ih (fun x hx => hes x (List.mem_cons_of_mem _ hx))
      (pushElem_true_names hst (hes e (List.mem_cons_self _ _)))

/-- Every element of a tree path is a name. -/
theorem isName_of_mem_resolve {p e : Bytes} (h : e ∈ resolve p) : IsName e := by
  simp only [resolve, cleanElems, List.mem_reverse] at h
  exact foldl_pushElem_true_names (fun _ hx => slash_not_mem_of_mem_split hx) (by simp) e h

/-! ### `absPath` -/

theorem split_absPath {cs : List Bytes} (h : ∀ c ∈ cs, IsName c) :
    Strings.split (absPath cs) slash = [] :: (if cs = [] then [[]] else cs) := by
  rw [absPath, split_slash_cons]
  split
  · subst_vars; rfl
  · rw [split_join (fun c hc => (h c hc).2.2.2) ‹_›]

theorem resolve_absPath {cs : List Bytes} (h : ∀ c ∈ cs, IsName c) : resolve (absPath cs) = cs := by
  rw [resolve, cleanElems, split_absPath h]
  split
  · subst_vars; rfl
  · simp [List.foldl_cons, pushElem, foldl_pushElem_names true h]

theorem isRooted_absPath (cs : List Bytes) : isRooted (absPath cs) = true := by
  simp [isRooted, absPath]

/-- `Clean` of a rooted path is the `absPath` of its tree path. -/
theorem clean_of_rooted {p : Bytes} (h : isRooted p = true) : clean p = absPath (resolve p) := by
  simp [clean, h, absPath, resolve]

theorem clean_absPath {cs : List Bytes} (h : ∀ c ∈ cs, IsName c) : clean (absPath cs) = absPath cs := by
  rw [clean_of_rooted (isRooted_absPath cs), resolve_absPath h]

theorem absPath_injective {bs cs : List Bytes} (hb : ∀ c ∈ bs, IsName c)
    (hc : ∀ c ∈ cs, IsName c) (h : absPath bs = absPath cs) : bs = cs := by
  rw [← resolve_absPath hb, ← resolve_absPath hc, h]

/-! ### `Join` -/

theorem resolve_append_slash (p q : Bytes) :
    resolve (p ++ slash :: q) =
      ((Strings.split q slash).foldl (pushElem true)
        ((Strings.split p slash).foldl (pushElem true) [])).reverse := by
  simp [resolve, cleanElems, split_append_slash, List.foldl_append]

/-- Appending a canonical key appends its elements to the tree path. -/
theorem resolve_append_key (p : Bytes) {k : Bytes} (hk : IsCanonicalKey k) :
    resolve (p ++ slash :: k) = resolve p ++ Strings.split k slash := by
  rw [resolve_append_slash, foldl_pushElem_names true hk]
  simp [resolve, cleanElems]

theorem join_cons_of_ne_nil {p : Bytes} (hp : p ≠ []) (rest : List Bytes) :
    Filepath.join (p :: rest) = clean (Strings.join (p :: rest) slash) := by
  simp [Filepath.join, List.dropWhile_cons, hp]

theorem isRooted_append {p q : Bytes} (h : isRooted p = true) : isRooted (p ++ q) = true := by
  cases p with
  | nil => simp [isRooted] at h
  | cons x xs => simpa [isRooted] using h

theorem join_pair (a b : Bytes) : Strings.join [a, b] slash = a ++ slash :: b := by
  simp [Strings.join, List.intercalate]

theorem join_triple (a b c : Bytes) :
    Strings.join [a, b, c] slash = (a ++ slash :: b) ++ slash :: c := by
  simp [Strings.join, List.intercalate]

/-- `Join(root, bucket)` for a rooted `root` is the `absPath` of its tree path. -/
theorem join_root_bucket {root : Bytes} (hroot : isRooted root = true) (b : Bytes) :
    Filepath.join [root, b] = absPath (resolve (root ++ slash :: b)) := by
  have hne : root ≠ [] := by rintro rfl; simp [isRooted] at hroot
  rw [join_cons_of_ne_nil hne, join_pair, clean_of_rooted (isRooted_append hroot)]

theorem resolve_join_root_bucket {root : Bytes} (hroot : isRooted root = true) (b : Bytes) :
    resolve (Filepath.join [root, b]) = resolve (root ++ slash :: b) := by
  rw [join_root_bucket hroot, resolve_absPath (fun _ => isName_of_mem_resolve)]

/-- `Join(root, bucket, key)` for a canonical key: the bucket's tree path followed
    by the key's elements. -/
theorem resolve_join_key {root : Bytes} (hroot : isRooted root = true) (b : Bytes) {k : Bytes}
    (hk : IsCanonicalKey k) :
    resolve (Filepath.join [root, b, k]) =
      resolve (Filepath.join [root, b]) ++ Strings.split k slash := by
  have hne : root ≠ [] := by rintro rfl; simp [isRooted] at hroot
  rw [resolve_join_root_bucket hroot, join_cons_of_ne_nil hne, join_triple,
    clean_of_rooted (isRooted_append (isRooted_append hroot)),
    resolve_absPath (fun _ => isName_of_mem_resolve), resolve_append_key _ hk]

theorem split_of_not_mem {e : Bytes} (h : slash ∉ e) : Strings.split e slash = [e] :=
  List.splitOnP_eq_single _ _ (fun x hx hx' => h (by rwa [← beq_iff_eq.1 hx']))

theorem isCanonicalKey_of_isName {e : Bytes} (h : IsName e) : IsCanonicalKey e := by
  simp [IsCanonicalKey, split_of_not_mem h.2.2.2, h]

theorem ne_nil_of_isCanonicalKey {k : Bytes} (hk : IsCanonicalKey k) : k ≠ [] := by
  rintro rfl
  exact (hk [] (by simp [Strings.split])).1 rfl

theorem resolve_append_dot (p : Bytes) : resolve (p ++ slash :: dot) = resolve p := by
  rw [resolve_append_slash]
  simp [resolve, cleanElems, split_of_not_mem (show slash ∉ dot by decide), pushElem]

/-- `Join(root, bucket, ".")` is the bucket's path. -/
theorem resolve_join_dot {root : Bytes} (hroot : isRooted root = true) (b : Bytes) :
    resolve (Filepath.join [root, b, dot]) = resolve (Filepath.join [root, b]) := by
  have hne : root ≠ [] := by rintro rfl; simp [isRooted] at hroot
  rw [resolve_join_root_bucket hroot, join_cons_of_ne_nil hne, join_triple,
    clean_of_rooted (isRooted_append (isRooted_append hroot)),
    resolve_absPath (fun _ => isName_of_mem_resolve), resolve_append_dot]

/-- `Join` of a directory and an entry name, as the walk forms it. -/
theorem join_absPath_name {xs : List Bytes} (hxs : ∀ x ∈ xs, IsName x) {n : Bytes} (hn : IsName n) :
    Filepath.join [absPath xs, n] = absPath (xs ++ [n]) := by
  rw [join_root_bucket (isRooted_absPath xs), resolve_append_key _ (isCanonicalKey_of_isName hn),
    resolve_absPath hxs, split_of_not_mem hn.2.2.2]

/-! ### `Dir` -/

theorem split_injective {s s' : Bytes} (h : Strings.split s slash = Strings.split s' slash) : s = s' := by
  rw [← join_split s, h, join_split]

theorem resolve_append_slash_nil (p : Bytes) : resolve (p ++ [slash]) = resolve p := by
  rw [resolve_append_slash]
  simp [resolve, cleanElems, Strings.split, pushElem]

/-- `Dir` of an absolute path of names drops its last name. -/
theorem dir_absPath {cs : List Bytes} (h : ∀ c ∈ cs, IsName c) :
    Filepath.dir (absPath cs) = absPath cs.dropLast := by
  rcases cs.eq_nil_or_concat with rfl | ⟨cs, c, rfl⟩
  · decide
  rw [List.concat_eq_append] at h ⊢
  have hc : IsName c := h c (by simp)
  have hcs : ∀ x ∈ cs, IsName x := fun x hx => h x (by simp [hx])
  -- the path is `X/c` for a rooted `X/` that resolves to `cs`
  have hpre : ∃ X, absPath (cs ++ [c]) = X ++ slash :: c ∧ resolve (X ++ [slash]) = cs ∧
      isRooted (X ++ [slash]) = true := by
    rcases eq_or_ne cs [] with rfl | hne
    · exact ⟨[], by simp [absPath, Strings.join, List.intercalate], rfl, rfl⟩
    · refine ⟨absPath cs, ?_, by rw [resolve_append_slash_nil, resolve_absPath hcs],
        isRooted_append (isRooted_absPath cs)⟩
      apply split_injective
      rw [split_absPath h, if_neg (by simp), split_append_slash, split_absPath hcs, if_neg hne,
        split_of_not_mem hc.2.2.2]
      simp
  obtain ⟨X, hX, hres, hroot⟩ := hpre
  have hdrop : ((X ++ slash :: c).reverse.dropWhile (· ≠ slash)) = (X ++ [slash]).reverse := by
    have hr : (X ++ slash :: c).reverse = c.reverse ++ slash :: X.reverse := by simp
    rw [hr, List.dropWhile_append_of_pos]
    · simp
    · intro x hx; simpa using fun hx' : x = slash => hc.2.2.2 (hx' ▸ List.mem_reverse.1 hx)
  rw [Filepath.dir, hX, hdrop, List.reverse_reverse, clean_of_rooted hroot, hres, List.dropLast_concat]

/-- The directory `PutObject` makes for an object is the object's tree path
    without its last element, whatever the bucket and key. -/
theorem resolve_dir_join_key {root : Bytes} (hroot : isRooted root = true) (b k : Bytes) :
    resolve (Filepath.dir (Filepath.join [root, b, k])) = (resolve (Filepath.join [root, b, k])).dropLast := by
  have hne : root ≠ [] := by rintro rfl; simp [isRooted] at hroot
  obtain ⟨cs, hcs, hj⟩ : ∃ cs, (∀ c ∈ cs, IsName c) ∧ Filepath.join [root, b, k] = absPath cs :=
    ⟨_, fun _ => isName_of_mem_resolve, by
      rw [join_cons_of_ne_nil hne, join_triple, clean_of_rooted (isRooted_append (isRooted_append hroot))]⟩
  rw [hj, dir_absPath hcs, resolve_absPath hcs, resolve_absPath (fun c hc => hcs c (List.dropLast_subset _ hc))]

/-! ### `Rel` -/

theorem rel_self (p : Bytes) : rel p p = .ok dot := if_pos rfl

theorem relElems_absPath {cs : List Bytes} (h : ∀ c ∈ cs, IsName c) : relElems (absPath cs) = cs := by
  cases cs with
  | nil => rfl
  | cons c cs =>
    have hj : Strings.join (c :: cs) slash ≠ [] := by
      intro hj
      have := congrArg (Strings.split · slash) hj
      simp only [split_join (fun x hx => (h x hx).2.2.2) (List.cons_ne_nil _ _)] at this
      exact (h c (List.mem_cons_self _ _)).1 (List.cons.inj this).1
    simp [absPath, relElems, hj, split_join (fun x hx => (h x hx).2.2.2) (List.cons_ne_nil _ _)]

theorem dropCommon_append (bs ks : List Bytes) : dropCommon bs (bs ++ ks) = ([], ks) := by
  induction bs with
  | nil => cases ks <;> rfl
  | cons b bs ih => simp [dropCommon, ih]

/-- `Rel` of a path below another is the relative path between them. -/
theorem rel_absPath_append {bs ks : List Bytes} (hb : ∀ c ∈ bs, IsName c)
    (hk : ∀ c ∈ ks, IsName c) (hne : ks ≠ []) :
    rel (absPath bs) (absPath (bs ++ ks)) = .ok (Strings.join ks slash) := by
  have hbk : ∀ c ∈ bs ++ ks, IsName c := by simp only [List.mem_append]; rintro c (h | h) <;> simp_all
  have hne' : absPath (bs ++ ks) ≠ absPath bs := fun h => hne (by simpa using absPath_injective hbk hb h)
  have hdot : absPath bs ≠ dot := by simp [absPath, dot, slash]
  simp [rel, clean_absPath hb, clean_absPath hbk, hne', hdot, isRooted_absPath,
    relElems_absPath hb, relElems_absPath hbk, dropCommon_append]

end S3Fs
