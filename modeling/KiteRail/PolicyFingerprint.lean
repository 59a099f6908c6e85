import KiteRail.PolicyEngine

namespace KiteRail.Policy
open Bytes Prog Rego
variable {opa : OpaLib}

def digested (files : List (Bytes × Bytes)) : Bytes := files.flatMap fun f => chunk f.1 f.2

/-- The files that are hashed, in the order in which they are, of a directory that is walked
in the order of `files`. -/
def hashedFiles (files : List (Bytes × Bytes)) : List (Bytes × Bytes) :=
  pick (sort ((files.map Prod.fst).filter policyFile)) files

section Stream
variable {rel rel' content content' x y : Bytes}

lemma chunk_append_inj (h : chunk rel content ++ x = chunk rel' content' ++ y) :
    rel = rel' ∧ content = content' ∧ x = y := by
  simp only [chunk, List.append_assoc, List.cons_append] at h
  obtain ⟨hlen, h⟩ := decimalNat_colon_inj h
  obtain ⟨hrel, h⟩ := List.append_inj h hlen
  obtain ⟨hlen', h⟩ := decimalNat_colon_inj (List.cons.inj h).2
  obtain ⟨hcontent, hrest⟩ := List.append_inj h hlen'
  exact ⟨hrel, hcontent, hrest⟩

lemma chunk_ne_nil : chunk rel content ≠ [] := by simp [chunk]

/-- There is no count and no end mark, but every file says where it ends. -/
lemma digested_injective : Function.Injective digested := by
  intro fs
  induction fs with
  | nil =>
    intro gs h
    cases gs with
    | nil => rfl
    | cons g gs => exact absurd (List.append_eq_nil_iff.mp h.symm).1 chunk_ne_nil
  | cons f fs ih =>
    intro gs h
    cases gs with
    | nil => exact absurd (List.append_eq_nil_iff.mp h).1 chunk_ne_nil
    | cons g gs =>
      obtain ⟨hrel, hcontent, hrest⟩ := chunk_append_inj
        (show chunk f.1 f.2 ++ digested fs = chunk g.1 g.2 ++ digested gs from h)
      rw [Prod.ext hrel hcontent, ih hrest]

end Stream

section Order
variable {files : List (Bytes × Bytes)} {path content : Bytes}

lemma lookup_eq_some_iff (hnodup : (files.map Prod.fst).Nodup) :
    List.lookup path files = some content ↔ (path, content) ∈ files := by
  induction files with
  | nil => simp
  | cons f files ih =>
    obtain ⟨k, v⟩ := f
    rw [List.map_cons, List.nodup_cons] at hnodup
    rw [List.mem_cons, Prod.mk.injEq]
    by_cases hpath : path = k
    · subst hpath
      have hnot : (path, content) ∉ files := fun hmem =>
        hnodup.1 (List.mem_map.mpr ⟨_, hmem, rfl⟩)
      simp [hnot, eq_comm]
    · have hbeq : (path == k) = false := beq_false_of_ne hpath
      rw [List.lookup_cons, hbeq]
      simp [hpath, ih hnodup.2]

lemma mem_pick {names : List Bytes} (hnodup : (files.map Prod.fst).Nodup) :
    (path, content) ∈ pick names files ↔ path ∈ names ∧ (path, content) ∈ files := by
  rw [pick, List.mem_filterMap, ← lookup_eq_some_iff hnodup]
  constructor
  · rintro ⟨name, hname, h⟩
    obtain ⟨content', hlookup, heq⟩ := Option.map_eq_some_iff.mp h
    obtain ⟨rfl, rfl⟩ := Prod.mk.inj heq
    exact ⟨hname, hlookup⟩
  · rintro ⟨hname, hlookup⟩
    exact ⟨path, hname, by simp [hlookup]⟩

lemma mem_hashedFiles (hnodup : (files.map Prod.fst).Nodup) :
    (path, content) ∈ hashedFiles files ↔ policyFile path = true ∧ (path, content) ∈ files := by
  rw [hashedFiles, mem_pick hnodup, mem_sort, List.mem_filter]
  constructor
  · rintro ⟨⟨-, hpolicy⟩, hmem⟩
    exact ⟨hpolicy, hmem⟩
  · rintro ⟨hpolicy, hmem⟩
    exact ⟨⟨List.mem_map_of_mem hmem, hpolicy⟩, hmem⟩

lemma hashedFiles_congr {files' : List (Bytes × Bytes)} (hnodup : (files.map Prod.fst).Nodup)
    (hnodup' : (files'.map Prod.fst).Nodup)
    (h : ∀ path content, policyFile path = true ∧ (path, content) ∈ files ↔
      policyFile path = true ∧ (path, content) ∈ files') :
    hashedFiles files = hashedFiles files' := by
  have hnames : ∀ path, path ∈ (files.map Prod.fst).filter policyFile ↔
      path ∈ (files'.map Prod.fst).filter policyFile := by
    intro path
    simp only [List.mem_filter, List.mem_map, Prod.exists, exists_and_right, exists_eq_right]
    refine and_congr_left fun hpolicy => exists_congr fun content => ?_
    simpa [hpolicy] using h path content
  have hperm := (List.perm_ext_iff_of_nodup (hnodup.filter _) (hnodup'.filter _)).mpr hnames
  rw [hashedFiles, hashedFiles, sort_eq_of_perm hperm, pick, pick]
  refine List.filterMap_congr fun path hpath => ?_
  have hpolicy := (List.mem_filter.mp (mem_sort.mp hpath)).2
  have hlookup : List.lookup path files = List.lookup path files' := by
    ext content
    rw [lookup_eq_some_iff hnodup, lookup_eq_some_iff hnodup']
    simpa [hpolicy] using h path content
  rw [hlookup]

end Order

section Program
variable {t : ℕ} {dir : Tree} {s : Host opa}

lemma exec_readFiles {names : List Bytes} (hs : s.dir = some dir)
    (hnames : ∀ name ∈ names, name ∈ dir.files.map Prod.fst) :
    (readFiles names : EngineProg opa _).exec (Host.answer .works t) s =
      some (.ok (pick names dir.files), s) := by
  induction names with
  | nil => rfl
  | cons name names ih =>
    obtain ⟨hname, hrest⟩ := List.forall_mem_cons.mp hnames
    obtain ⟨⟨name, content⟩, hmem, rfl⟩ := List.mem_map.mp hname
    have hlookup := (lookup_eq_some_iff dir.nodup).mpr hmem
    have hread : Host.answer .works t (.readFile name) s = some (.ok content, s) := by
      simp [Host.answer, Tree.readable, List.lookup_append, hs, hlookup]
    refine (exec_perform_bind hread _).trans ?_
    simp only [exec_bind, ih hrest, Option.bind_some]
    simp [exec, pick, hlookup]

lemma exec_bundleVersion (hs : s.dir = some dir) :
    (bundleVersion : EngineProg opa _).exec (Host.answer .works t) s =
      some (.ok (fingerprint (hashedFiles dir.files)),
        { s with started := Function.update s.started t s.edits }) := by
  have hstat : Host.answer .works t (.stat .fingerprint) s =
      some (false, { s with started := Function.update s.started t s.edits }) := by
    rw [Host.answer, Host.missing, hs]
    rfl
  have hwalk : ∀ s' : Host opa, s'.dir = some dir →
      Host.answer .works t .walk s' = some (.ok (dir.files.map Prod.fst), s') := by
    intro s' hs'
    simp [Host.answer, Host.contents, hs']
  have hnames : ∀ name ∈ sort ((dir.files.map Prod.fst).filter policyFile),
      name ∈ dir.files.map Prod.fst := fun name hname =>
    (List.mem_filter.mp (mem_sort.mp hname)).1
  refine (exec_perform_bind hstat _).trans ?_
  rw [if_neg Bool.false_ne_true]
  have hdir : { s with started := Function.update s.started t s.edits }.dir = some dir := hs
  refine (exec_perform_bind (hwalk _ hdir) _).trans ?_
  simp only [exec_bind]
  rw [exec_readFiles hdir hnames]
  rfl

end Program

/-- The bytes that are hashed for two directories are equal exactly if the directories have the
same policy and data files, with the same contents; and the version is the hash of these
bytes. -/
theorem bundle_preimage_iff (opa : OpaLib) (t : ℕ) :
    (∀ dir dir' : Tree, digested (hashedFiles dir.files) = digested (hashedFiles dir'.files) ↔
      ∀ path content, policyFile path = true ∧ (path, content) ∈ dir.files ↔
        policyFile path = true ∧ (path, content) ∈ dir'.files) ∧
    ∀ (dir : Tree) (s : Host opa),
      ((bundleVersion : EngineProg opa _).exec (Host.answer .works t)
        { s with dir := some dir }).map Prod.fst = some (.ok (lit "sha256:" ++
          (hexEncode (Sha256.sum256 (digested (hashedFiles dir.files)))).take 16)) := by
  refine ⟨fun dir dir' => ⟨fun h path content => ?_, fun h => ?_⟩, fun dir s => ?_⟩
  · rw [← mem_hashedFiles dir.nodup, ← mem_hashedFiles dir'.nodup, digested_injective h]
  · exact congrArg digested (hashedFiles_congr dir.nodup dir'.nodup h)
  · rw [exec_bundleVersion rfl]
    rfl

end KiteRail.Policy
