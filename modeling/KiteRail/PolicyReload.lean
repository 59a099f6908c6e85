import KiteRail.PolicyEngine

/-! What concurrent reloads and evaluations may rely on. What a thread has read describes
the directory as long as no edit was made since it began to fingerprint, and publications
that do not overlap never go back to older files. -/
namespace KiteRail.Policy
open Bytes Prog Rego Discipline
variable {opa : OpaLib}

/-- When the active query began to be loaded. -/
def Host.floor (s : Host opa) : ℕ := (s.active.map fun a => a.query.loaded).getD 0

/-- Every publication was made by a reload during whose load no other was made. -/
def Sequential : List (Publication opa) → Prop
  | [] => True
  | p :: earlier => p.seen = earlier.length ∧ Sequential earlier

instance decidableSequential : (log : List (Publication opa)) → Decidable (Sequential log)
  | [] => isTrue trivial
  | _ :: earlier => @instDecidableAnd _ _ _ (decidableSequential earlier)

lemma Sequential.of_append {xs ys : List (Publication opa)} (h : Sequential (xs ++ ys)) :
    Sequential ys := by
  induction xs with
  | nil => exact h
  | cons p xs ih => exact ih h.2

/-- The directory was not edited while the query was fingerprinted and loaded. -/
def Query.Undisturbed (q : Query opa) : Prop := q.fingerprinted = q.complete

instance (q : Query opa) : Decidable q.Undisturbed :=
  inferInstanceAs (Decidable (q.fingerprinted = q.complete))

/-- The version names the files that the query was compiled from. -/
def Query.Named (q : Query opa) (version : Bytes) : Prop :=
  q.Undisturbed → opa.Covers q.origin → version = versionOf q.source

/-- What thread `t` may do to the host. -/
structure Moves (t : ℕ) (s s' : Host opa) : Prop where
  edits : s'.edits = s.edits
  dir : s'.dir = s.dir
  started : ∀ u, u ≠ t → s'.started u = s.started u
  loading : ∀ u, u ≠ t → s'.loading u = s.loading u
  grows : ∃ new, s'.log = new ++ s.log ∧ ∀ p ∈ new, p.thread = t
  rises : Sequential s'.log → s.floor ≤ s'.floor

/-- What thread `t` may see of the others. -/
structure Others (t : ℕ) (s s' : Host opa) : Prop where
  edits : s.edits ≤ s'.edits
  dir : s'.edits = s.edits → s'.dir = s.dir
  started : s'.started t = s.started t
  loading : s'.loading t = s.loading t
  grows : ∃ new, s'.log = new ++ s.log ∧ ∀ p ∈ new, p.thread ≠ t
  rises : Sequential s'.log → s.floor ≤ s'.floor

/-- What holds of every reachable host. -/
structure Coherent (s : Host opa) : Prop where
  named : ∀ p ∈ s.log, p.active.query.Named p.active.version
  seen_le : ∀ t, s.seen t ≤ s.log.length
  floor_le : s.floor ≤ s.edits
  ordered : Sequential s.log → ∀ t, s.seen t = s.log.length → s.floor ≤ s.loading t

lemma Others.refl (t : ℕ) (s : Host opa) : Others t s s :=
  ⟨le_rfl, fun _ => rfl, rfl, rfl, ⟨[], rfl, by simp⟩, fun _ => le_rfl⟩

lemma Others.trans {t : ℕ} {a b c : Host opa} (h : Others t a b) (g : Others t b c) :
    Others t a c := by
  obtain ⟨new, hnew, hne⟩ := h.grows
  obtain ⟨new', hnew', hne'⟩ := g.grows
  refine ⟨h.edits.trans g.edits, fun he => ?_, g.started.trans h.started,
    g.loading.trans h.loading, ⟨new' ++ new, ?_, ?_⟩, fun hseq => ?_⟩
  · have hb : b.edits = a.edits := le_antisymm (he ▸ g.edits) h.edits
    rw [g.dir (he.trans hb.symm), h.dir hb]
  · rw [hnew', hnew, List.append_assoc]
  · intro p hp
    exact (List.mem_append.mp hp).elim (hne' p) (hne p)
  · have hb : Sequential b.log := Sequential.of_append (hnew' ▸ hseq)
    exact (h.rises hb).trans (g.rises hseq)

lemma Moves.others {t u : ℕ} {s s' : Host opa} (h : Moves t s s') (hu : t ≠ u) :
    Others u s s' := by
  obtain ⟨new, hnew, hown⟩ := h.grows
  exact ⟨h.edits.ge, fun _ => h.dir, h.started u hu.symm, h.loading u hu.symm,
    ⟨new, hnew, fun p hp => by rw [hown p hp]; exact hu⟩, h.rises⟩

lemma others_edit (t : ℕ) (s : Host opa) (dir : Option Tree) :
    Others t s { s with dir := dir, edits := s.edits + 1 } :=
  ⟨Nat.le_succ _, fun h => absurd h (Nat.succ_ne_self _), rfl, rfl, ⟨[], rfl, by simp⟩,
    fun _ => le_rfl⟩

def engineRules (opa : OpaLib) : Discipline (Host.machine opa).semantics where
  inv := Coherent
  fresh t s := ∀ p ∈ s.log, p.thread ≠ t
  guar t _ s _ s' := Moves t s s'
  rely := Others
  rely_refl := Others.refl
  rely_trans _ _ _ _ h g := h.trans g
  rely_guar _ _ _ _ _ _ hne _ hg := hg.others hne
  rely_env := by
    rintro u s _ _ ⟨dir, hf⟩
    obtain rfl := Option.some.inj hf
    exact others_edit u s dir
  rely_lose _ u s _ _ := Others.refl u s
  fresh_rely := by
    intro t s s' hf hr p hp
    obtain ⟨new, hnew, hne⟩ := hr.grows
    rw [hnew] at hp
    exact (List.mem_append.mp hp).elim (hne p) (hf p)
  inv_env := by
    rintro s _ hi ⟨dir, hf⟩
    obtain rfl := Option.some.inj hf
    exact ⟨hi.named, hi.seen_le, hi.floor_le.trans (Nat.le_succ _), hi.ordered⟩
  inv_lose _ _ hi := hi

section Exec
variable {t : ℕ} {s s' : Host opa}

lemma moves_refl (t : ℕ) (s : Host opa) : Moves t s s :=
  ⟨rfl, rfl, fun _ _ => rfl, fun _ _ => rfl, ⟨[], rfl, by simp⟩, fun _ => le_rfl⟩

lemma exec_stat_fingerprint {r : Bool}
    (h : (Host.machine opa).semantics.exec t (.stat .fingerprint) s r s') :
    s' = { s with started := Function.update s.started t s.edits } ∧
      (r = true → s.dir = none) := by
  obtain ⟨attempt, ha⟩ := h
  obtain ⟨rfl, rfl⟩ := Prod.mk.inj (Option.some.inj ha)
  refine ⟨rfl, fun hr => ?_⟩
  cases attempt <;> simp_all [Host.missing]

lemma exec_stat_load {r : Bool} (h : (Host.machine opa).semantics.exec t (.stat .load) s r s') :
    s' = { s with
      loading := Function.update s.loading t s.edits
      seen := Function.update s.seen t s.log.length } ∧ (r = true → s.dir = none) := by
  obtain ⟨attempt, ha⟩ := h
  obtain ⟨rfl, rfl⟩ := Prod.mk.inj (Option.some.inj ha)
  refine ⟨rfl, fun hr => ?_⟩
  cases attempt <;> simp_all [Host.missing]

lemma exec_walk {r : Except GoError (List Bytes)}
    (h : (Host.machine opa).semantics.exec t .walk s r s') :
    s' = s ∧ ∀ paths, r = .ok paths → ∃ dir, s.dir = some dir ∧ paths = dir.files.map Prod.fst := by
  obtain ⟨attempt, ha⟩ := h
  cases attempt with
  | works =>
    obtain ⟨files, hfiles, heq⟩ := Option.map_eq_some_iff.mp ha
    obtain ⟨dir, hdir, rfl⟩ := Option.map_eq_some_iff.mp hfiles
    obtain ⟨rfl, rfl⟩ := Prod.mk.inj heq
    exact ⟨rfl, fun paths hr => ⟨dir, hdir, (Except.ok.inj hr).symm⟩⟩
  | fails e =>
    obtain ⟨rfl, rfl⟩ := Prod.mk.inj (Option.some.inj ha)
    exact ⟨rfl, fun paths hr => by simp at hr⟩

lemma exec_list {r : Except GoError (List Bytes)}
    (h : (Host.machine opa).semantics.exec t .list s r s') :
    s' = s ∧ ∀ paths, r = .ok paths → ∃ dir, s.dir = some dir ∧ paths = opa.lists dir := by
  obtain ⟨attempt, ha⟩ := h
  cases attempt with
  | works =>
    obtain ⟨dir, hdir, heq⟩ := Option.map_eq_some_iff.mp ha
    obtain ⟨rfl, rfl⟩ := Prod.mk.inj heq
    exact ⟨rfl, fun paths hr => ⟨dir, hdir, (Except.ok.inj hr).symm⟩⟩
  | fails e =>
    obtain ⟨rfl, rfl⟩ := Prod.mk.inj (Option.some.inj ha)
    exact ⟨rfl, fun paths hr => by simp at hr⟩

lemma exec_readFile {path : Bytes} {r : Except GoError Bytes}
    (h : (Host.machine opa).semantics.exec t (.readFile path) s r s') :
    s' = s ∧ ∀ content, r = .ok content →
      ∃ dir, s.dir = some dir ∧ List.lookup path dir.readable = some content := by
  obtain ⟨attempt, ha⟩ := h
  cases attempt with
  | works =>
    obtain ⟨content, hcontent, heq⟩ := Option.map_eq_some_iff.mp ha
    obtain ⟨dir, hdir, hlookup⟩ := Option.bind_eq_some_iff.mp hcontent
    obtain ⟨rfl, rfl⟩ := Prod.mk.inj heq
    exact ⟨rfl, fun c hr => ⟨dir, hdir, Except.ok.inj hr ▸ hlookup⟩⟩
  | fails e =>
    obtain ⟨rfl, rfl⟩ := Prod.mk.inj (Option.some.inj ha)
    exact ⟨rfl, fun content hr => by simp at hr⟩

lemma exec_prepare {source : Option (List (Bytes × Bytes))} {r : Except GoError (Query opa)}
    (h : (Host.machine opa).semantics.exec t (.prepare source) s r s') :
    s' = s ∧ ∀ q, r = .ok q → q.source = source ∧ q.origin = s.dir ∧
      q.fingerprinted = s.started t ∧ q.loaded = s.loading t ∧ q.complete = s.edits := by
  obtain ⟨attempt, ha⟩ := h
  cases attempt with
  | works =>
    obtain ⟨rfl, rfl⟩ := Prod.mk.inj (Option.some.inj ha)
    refine ⟨rfl, fun q hq => ?_⟩
    simp only [Host.compiled] at hq
    split at hq
    · simp at hq
    · obtain rfl := Except.ok.inj hq
      exact ⟨rfl, rfl, rfl, rfl, rfl⟩
  | fails e =>
    obtain ⟨rfl, rfl⟩ := Prod.mk.inj (Option.some.inj ha)
    exact ⟨rfl, fun q hr => by simp at hr⟩

lemma exec_current {r : Active opa} (h : (Host.machine opa).semantics.exec t .current s r s') :
    s' = s ∧ s.active = some r := by
  obtain ⟨attempt, ha⟩ := h
  obtain ⟨a, hactive, heq⟩ := Option.map_eq_some_iff.mp ha
  obtain ⟨rfl, rfl⟩ := Prod.mk.inj heq
  exact ⟨rfl, hactive⟩

lemma exec_version {r : Bytes} (h : (Host.machine opa).semantics.exec t .version s r s') :
    s' = s := by
  obtain ⟨attempt, ha⟩ := h
  obtain ⟨a, -, heq⟩ := Option.map_eq_some_iff.mp ha
  exact (Prod.mk.inj heq).2.symm

lemma exec_eval {query : Query opa} {input : Value} {r : Except GoError (Option Value)}
    (h : (Host.machine opa).semantics.exec t (.eval query input) s r s') : s' = s := by
  obtain ⟨attempt, ha⟩ := h
  cases attempt <;> exact (Prod.mk.inj (Option.some.inj ha)).2.symm

end Exec

section Triples
variable {t : ℕ} {G : Host opa → Prop} {P P' : Option Tree → Prop}

def Unpublished (t : ℕ) (s : Host opa) : Prop := ∀ p ∈ s.log, p.thread ≠ t

/-- `P` describes the directory unless it was edited since the thread began to
fingerprint. -/
def Reads (t : ℕ) (G : Host opa → Prop) (P : Option Tree → Prop) (s : Host opa) : Prop :=
  G s ∧ s.started t ≤ s.edits ∧ (s.edits = s.started t → P s.dir)

lemma Reads.mono {s : Host opa} (h : Reads t G P s) (hP : ∀ dir, P dir → P' dir) :
    Reads t G P' s :=
  ⟨h.1, h.2.1, fun he => hP _ (h.2.2 he)⟩

lemma stable_unpublished : (engineRules opa).Stable t (Unpublished t) :=
  fun s s' h hr => (engineRules opa).fresh_rely t s s' h hr

lemma stable_reads (hG : (engineRules opa).Stable t G) :
    (engineRules opa).Stable t (Reads t G P) := by
  intro s s' h hr
  refine ⟨hG s s' h.1 hr, ?_, fun he => ?_⟩
  · rw [hr.started]
    exact h.2.1.trans hr.edits
  · have hsame : s'.edits = s.edits := by
      have hle : s'.edits ≤ s.edits := by
        rw [he, hr.started]
        exact h.2.1
      exact le_antisymm hle hr.edits
    rw [hr.dir hsame]
    exact h.2.2 (hsame.symm.trans (he.trans hr.started))

lemma holds_look {α : Type} {op : EngineOp opa} {k : EngineRes op → EngineProg opa α}
    {A : Host opa → Prop} {C : EngineRes op → Host opa → Prop} {B : α → Host opa → Prop}
    (hst : (engineRules opa).Stable t A)
    (hop : ∀ s r s', Coherent s → A s → (Host.machine opa).semantics.exec t op s r s' →
      s' = s ∧ C r s)
    (hk : ∀ r, (engineRules opa).Holds t (C r) (k r) B) :
    (engineRules opa).Holds t A (.call op k) B := by
  refine holds_call hst (fun s r s' hi hA hx => ?_) hk
  obtain ⟨rfl, hC⟩ := hop s r s' hi hA hx
  exact ⟨hi, moves_refl t _, hC⟩

lemma holds_readFile {α : Type} {path : Bytes} {k : Except GoError Bytes → EngineProg opa α}
    {B : α → Host opa → Prop} (hG : (engineRules opa).Stable t G)
    (hk : ∀ r, (engineRules opa).Holds t (Reads t G fun dir => P dir ∧
      ∀ content, r = .ok content → ∀ tree, dir = some tree →
        List.lookup path tree.readable = some content) (k r) B) :
    (engineRules opa).Holds t (Reads t G P) (readFile path >>= k) B := by
  refine holds_look (stable_reads hG) (fun s r s' _ h hx => ?_) hk
  obtain ⟨rfl, hr⟩ := exec_readFile hx
  refine ⟨rfl, h.1, h.2.1, fun he => ⟨h.2.2 he, fun content hc tree htree => ?_⟩⟩
  obtain ⟨tree', htree', hlookup⟩ := hr content hc
  obtain rfl := Option.some.inj (htree.symm.trans htree')
  exact hlookup

lemma holds_walk {α : Type} {k : Except GoError (List Bytes) → EngineProg opa α}
    {B : α → Host opa → Prop} (hG : (engineRules opa).Stable t G)
    (hk : ∀ r, (engineRules opa).Holds t (Reads t G fun dir => P dir ∧
      ∀ paths, r = .ok paths → ∃ tree, dir = some tree ∧ paths = tree.files.map Prod.fst)
      (k r) B) :
    (engineRules opa).Holds t (Reads t G P) (walk >>= k) B := by
  refine holds_look (stable_reads hG) (fun s r s' _ h hx => ?_) hk
  obtain ⟨rfl, hr⟩ := exec_walk hx
  exact ⟨rfl, h.1, h.2.1, fun he => ⟨h.2.2 he, hr⟩⟩

lemma holds_list {α : Type} {k : Except GoError (List Bytes) → EngineProg opa α}
    {B : α → Host opa → Prop} (hG : (engineRules opa).Stable t G)
    (hk : ∀ r, (engineRules opa).Holds t (Reads t G fun dir => P dir ∧
      ∀ paths, r = .ok paths → ∃ tree, dir = some tree ∧ paths = opa.lists tree) (k r) B) :
    (engineRules opa).Holds t (Reads t G P) (list >>= k) B := by
  refine holds_look (stable_reads hG) (fun s r s' _ h hx => ?_) hk
  obtain ⟨rfl, hr⟩ := exec_list hx
  exact ⟨rfl, h.1, h.2.1, fun he => ⟨h.2.2 he, hr⟩⟩

lemma pick_readable {dir : Tree} {names : List Bytes}
    (h : ∀ name ∈ names, name ∈ dir.files.map Prod.fst) :
    pick names dir.readable = pick names dir.files := by
  refine List.filterMap_congr fun name hname => ?_
  have hsome : (List.lookup name dir.files).isSome := List.lookup_isSome_iff.mpr (by
    obtain ⟨f, hf, rfl⟩ := List.mem_map.mp (h name hname)
    exact ⟨f, hf, beq_self_eq_true _⟩)
  obtain ⟨content, hcontent⟩ := Option.isSome_iff_exists.mp hsome
  rw [Tree.readable, List.lookup_append, hcontent]
  rfl

/-- What was read of the named files is what the directory has. -/
lemma holds_readFiles (hG : (engineRules opa).Stable t G) (names : List Bytes) :
    (engineRules opa).Holds t (Reads t G P) (readFiles names) fun r =>
      Reads t G fun dir => P dir ∧
        ∀ read, r = .ok read → ∀ tree, dir = some tree → read.map Prod.fst = names ∧
          read = pick names tree.readable := by
  induction names generalizing P with
  | nil =>
    refine holds_ret (stable_reads hG) fun s _ h => h.mono fun dir hP => ⟨hP, ?_⟩
    rintro _ ⟨⟩ tree _
    exact ⟨rfl, rfl⟩
  | cons path rest ih =>
    refine holds_readFile hG fun r => ?_
    cases r with
    | error e =>
      exact holds_ret (stable_reads hG) fun s _ h => h.mono fun dir hP => ⟨hP.1, by simp⟩
    | ok content =>
      refine holds_bind ih fun r => ?_
      cases r with
      | error e =>
        exact holds_ret (stable_reads hG) fun s _ h => h.mono fun dir hP => ⟨hP.1.1, by simp⟩
      | ok read =>
        refine holds_ret (stable_reads hG) fun s _ h => h.mono fun dir hP => ⟨hP.1.1, ?_⟩
        rintro _ ⟨⟩ tree htree
        have hlookup := hP.1.2 content rfl tree htree
        obtain ⟨hnames, hread⟩ := hP.2 read rfl tree htree
        refine ⟨by rw [List.map_cons, hnames], ?_⟩
        rw [pick, List.filterMap_cons, hlookup, Option.map_some, ← pick, ← hread]

/-- From here on edits are noticed. -/
lemma holds_stat_fingerprint {α : Type} {k : Bool → EngineProg opa α} {B : α → Host opa → Prop}
    (hk : ∀ missing, (engineRules opa).Holds t (Reads t (Unpublished t) fun dir =>
      missing = true → dir = none) (k missing) B) :
    (engineRules opa).Holds t (Unpublished t) (stat .fingerprint >>= k) B := by
  refine holds_call stable_unpublished (fun s r s' hi h hx => ?_) hk
  obtain ⟨rfl, hr⟩ := exec_stat_fingerprint hx
  exact ⟨⟨hi.named, hi.seen_le, hi.floor_le, hi.ordered⟩,
    ⟨rfl, rfl, fun u hu => Function.update_of_ne hu _ _, fun _ _ => rfl, ⟨[], rfl, by simp⟩,
      fun _ => le_rfl⟩, h, by simp, fun _ => hr⟩

lemma holds_bundleVersion : (engineRules opa).Holds t (Unpublished t) bundleVersion fun r =>
    Reads t (Unpublished t) fun dir =>
      ∀ version, r = .ok version → version = versionOf (dir.map Tree.files) := by
  refine holds_stat_fingerprint fun missing => ?_
  cases missing with
  | true =>
    refine holds_ret (stable_reads stable_unpublished) fun s _ h => h.mono fun dir hdir => ?_
    rintro _ ⟨⟩
    rw [hdir rfl, Option.map_none, versionOf]
  | false =>
    refine holds_walk stable_unpublished fun r => ?_
    cases r with
    | error e =>
      exact holds_ret (stable_reads stable_unpublished) fun s _ h => h.mono fun dir _ => by simp
    | ok paths =>
      refine holds_bind (holds_readFiles stable_unpublished _) fun r => ?_
      cases r with
      | error e =>
        exact holds_ret (stable_reads stable_unpublished) fun s _ h => h.mono fun dir _ => by simp
      | ok read =>
        refine holds_ret (stable_reads stable_unpublished) fun s _ h => h.mono fun dir hP => ?_
        rintro _ ⟨⟩
        obtain ⟨tree, rfl, rfl⟩ := hP.1.2 paths rfl
        have hwalked : ∀ name ∈ sort ((tree.files.map Prod.fst).filter policyFile),
            name ∈ tree.files.map Prod.fst := fun name hname =>
          (List.mem_filter.mp (mem_sort.mp hname)).1
        rw [Option.map_some, versionOf, (hP.2 read rfl tree rfl).2, pick_readable hwalked]

/-- The thread is loading: nothing is published yet, and the load began after the
fingerprint. -/
def Loads (t : ℕ) (s : Host opa) : Prop :=
  Unpublished t s ∧ s.started t ≤ s.loading t ∧ s.loading t ≤ s.edits

lemma stable_loads : (engineRules opa).Stable t (Loads t) := by
  intro s s' h hr
  refine ⟨stable_unpublished s s' h.1 hr, ?_, ?_⟩
  · rw [hr.started, hr.loading]
    exact h.2.1
  · rw [hr.loading]
    exact h.2.2.trans hr.edits

lemma holds_stat_load {α : Type} {k : Bool → EngineProg opa α} {B : α → Host opa → Prop}
    (hk : ∀ missing, (engineRules opa).Holds t (Reads t (Loads t) fun dir => P dir ∧
      (missing = true → dir = none)) (k missing) B) :
    (engineRules opa).Holds t (Reads t (Unpublished t) P) (stat .load >>= k) B := by
  refine holds_call (stable_reads stable_unpublished) (fun s r s' hi h hx => ?_) hk
  obtain ⟨rfl, hr⟩ := exec_stat_load hx
  refine ⟨⟨hi.named, fun u => ?_, hi.floor_le, fun hseq u hu => ?_⟩, ?_, ?_⟩
  · by_cases hut : u = t
    · simp [hut]
    · simpa [Function.update_of_ne hut] using hi.seen_le u
  · by_cases hut : u = t
    · change s.floor ≤ Function.update s.loading t s.edits u
      rw [hut, Function.update_self]
      exact hi.floor_le
    · simp only [Function.update_of_ne hut] at hu ⊢
      exact hi.ordered hseq u hu
  · exact ⟨rfl, rfl, fun _ _ => rfl, fun u hu => Function.update_of_ne hu _ _,
      ⟨[], rfl, by simp⟩, fun _ => le_rfl⟩
  · exact ⟨⟨h.1, by simpa using h.2.1, by simp⟩, h.2.1, fun he => ⟨h.2.2 he, hr⟩⟩

def LoadedFrom (opa : OpaLib) (dir : Option Tree) : Option (List (Bytes × Bytes)) → Prop
  | none => dir = none
  | some files => ∃ tree, dir = some tree ∧ files.map Prod.fst = opa.lists tree ∧
      files = pick (opa.lists tree) tree.readable

/-- The outcome of a load: a query compiled from what the loader reads below a directory that `P`
describes, if no edit came in between. -/
def Prepares (t : ℕ) (P : Option Tree → Prop) (r : Except GoError (Query opa)) (s : Host opa) :
    Prop :=
  Loads t s ∧ ∀ q, r = .ok q → q.loaded = s.loading t ∧
    (q.Undisturbed → P q.origin ∧ LoadedFrom opa q.origin q.source)

lemma stable_prepares {r : Except GoError (Query opa)} :
    (engineRules opa).Stable t (Prepares t P r) := by
  intro s s' h hr
  refine ⟨stable_loads s s' h.1 hr, fun q hq => ?_⟩
  rw [hr.loading]
  exact h.2 q hq

lemma holds_prepare {source : Option (List (Bytes × Bytes))} :
    (engineRules opa).Holds t (Reads t (Loads t) fun dir => P dir ∧ LoadedFrom opa dir source)
      (prepare source) (Prepares t P) := by
  refine holds_look (stable_reads stable_loads) (fun s r s' _ h hx => ?_)
    fun r => holds_ret stable_prepares fun s _ h => h
  obtain ⟨rfl, hr⟩ := exec_prepare hx
  refine ⟨rfl, h.1, fun q hq => ?_⟩
  obtain ⟨hsource, horigin, hstarted, hloaded, hcomplete⟩ := hr q hq
  refine ⟨hloaded, fun hcalm => ?_⟩
  have hsame : s'.edits = s'.started t := hcomplete.symm.trans (hcalm.symm.trans hstarted)
  rw [hsource, horigin]
  exact h.2.2 hsame

lemma holds_load : (engineRules opa).Holds t (Reads t (Loads t) P) load (Prepares t P) := by
  refine holds_list stable_loads fun r => ?_
  cases r with
  | error e => exact holds_ret (stable_reads stable_loads) fun s _ h => ⟨h.1, by simp⟩
  | ok paths =>
    refine holds_bind (holds_readFiles stable_loads _) fun r => ?_
    cases r with
    | error e => exact holds_ret (stable_reads stable_loads) fun s _ h => ⟨h.1, by simp⟩
    | ok read =>
      refine holds_mono holds_prepare (fun s _ h => h.mono fun dir hP => ⟨hP.1.1, ?_⟩)
        fun _ _ _ h => h
      obtain ⟨tree, rfl, rfl⟩ := hP.1.2 paths rfl
      exact ⟨tree, rfl, hP.2 read rfl tree rfl⟩

section Covered
variable {dir : Tree} {names : List Bytes} {files : List (Bytes × Bytes)} {name : Bytes}

lemma lookup_pick (h : name ∈ names) : List.lookup name (pick names files) =
    List.lookup name files := by
  induction names with
  | nil => simp at h
  | cons other names ih =>
    rw [pick, List.filterMap_cons, ← pick]
    by_cases hname : name = other
    · subst hname
      cases hlookup : List.lookup name files with
      | some content => simp
      | none =>
        -- a file that is not there is not picked under another mention of its name either
        rw [Option.map_none]
        by_cases hagain : name ∈ names
        · rw [← hlookup]
          exact ih hagain
        · refine List.lookup_eq_none_iff.mpr fun f hf => ?_
          obtain ⟨n, hn, hpicked⟩ := List.mem_filterMap.mp hf
          obtain ⟨content, -, rfl⟩ := Option.map_eq_some_iff.mp hpicked
          exact bne_iff_ne.mpr fun he => hagain (he ▸ hn)
    · have hne : (name == other) = false := beq_false_of_ne hname
      have hrest := ih (List.mem_of_ne_of_mem hname h)
      cases List.lookup other files with
      | none => exact hrest
      | some content =>
        rw [Option.map_some, List.lookup_cons, hne]
        exact hrest

/-- If the loader reads the files that count for the version, they have that version. -/
lemma versionOf_loaded {source : Option (List (Bytes × Bytes))} {dir : Option Tree}
    (h : LoadedFrom opa dir source) (hcovers : opa.Covers dir) :
    versionOf source = versionOf (dir.map Tree.files) := by
  cases source with
  | none =>
    obtain rfl : dir = none := h
    rfl
  | some files =>
    obtain ⟨tree, rfl, hnames, rfl⟩ := h
    have hperm : (opa.lists tree).Perm ((tree.files.map Prod.fst).filter policyFile) := hcovers
    have hcount : (opa.lists tree).filter policyFile = opa.lists tree :=
      List.filter_eq_self.mpr fun name hname =>
        (List.mem_filter.mp (hperm.mem_iff.mp hname)).2
    have hwalked : ∀ name ∈ sort (opa.lists tree), name ∈ tree.files.map Prod.fst :=
      fun name hname => (List.mem_filter.mp (hperm.mem_iff.mp (mem_sort.mp hname))).1
    have hpick : pick (sort (opa.lists tree)) (pick (opa.lists tree) tree.readable) =
        pick (sort (opa.lists tree)) tree.readable :=
      List.filterMap_congr fun name hname => by rw [lookup_pick (mem_sort.mp hname)]
    rw [Option.map_some, versionOf, versionOf, hnames, hcount, hpick, pick_readable hwalked,
      sort_eq_of_perm hperm]

end Covered

/-- A reload that succeeded left no older query active, one that failed published
nothing. -/
def Finishes (t : ℕ) (s : Host opa) : Except GoError Unit → Prop
  | .ok _ => Sequential s.log → s.started t ≤ s.floor
  | .error _ => Unpublished t s

lemma stable_finishes {r : Except GoError Unit} :
    (engineRules opa).Stable t fun s => Finishes t s r := by
  intro s s' h hr
  cases r with
  | error e => exact stable_unpublished s s' h hr
  | ok _ =>
    intro hseq
    obtain ⟨new, hnew, -⟩ := hr.grows
    rw [hr.started]
    exact (h (Sequential.of_append (hnew ▸ hseq))).trans (hr.rises hseq)

/-- Publishing a loaded query keeps the host coherent. -/
lemma publish_coherent {s : Host opa} {a : Active opa} (hi : Coherent s) (h : Loads t s)
    (hloaded : a.query.loaded = s.loading t) (hnamed : a.query.Named a.version) :
    Coherent { s with log := ⟨t, a, s.seen t⟩ :: s.log } ∧
      Moves t s { s with log := ⟨t, a, s.seen t⟩ :: s.log } := by
  have hfloor : Host.floor { s with log := ⟨t, a, s.seen t⟩ :: s.log } = s.loading t := hloaded
  refine ⟨⟨?_, fun u => ?_, ?_, fun _ u hu => ?_⟩, rfl, rfl, fun _ _ => rfl, fun _ _ => rfl,
    ⟨[_], rfl, by simp⟩, fun hseq => ?_⟩
  · intro p hp
    rcases List.mem_cons.mp hp with rfl | hp
    · exact hnamed
    · exact hi.named p hp
  · exact (hi.seen_le u).trans (Nat.le_succ _)
  · rw [hfloor]
    exact h.2.2
  · have hle := hi.seen_le u
    simp only [List.length_cons] at hu
    omega
  · rw [hfloor]
    exact hi.ordered hseq.2 t hseq.1

lemma holds_publishQuery {version : Bytes} (r : Except GoError (Query opa)) :
    (engineRules opa).Holds t (Prepares t (fun dir => version = versionOf (dir.map Tree.files)) r)
      (publishQuery version r) fun res s => Finishes t s res := by
  cases r with
  | error e => exact holds_ret stable_prepares fun s _ h => h.1.1
  | ok query =>
    simp only [publishQuery]
    split
    · exact holds_ret stable_prepares fun s _ h => h.1.1
    · refine holds_call (C := fun (_ : Unit) s => Finishes t s (.ok ())) stable_prepares ?_
        fun _ => holds_ret stable_finishes fun s _ h => h
      rintro s r s' hi h ⟨attempt, ha⟩
      obtain ⟨-, rfl⟩ := Prod.mk.inj (Option.some.inj ha)
      obtain ⟨hloaded, hread⟩ := h.2 query rfl
      have hnamed : query.Named version := fun hcalm hcovers =>
        (hread hcalm).1.trans (versionOf_loaded (hread hcalm).2 hcovers).symm
      obtain ⟨hi', hmoves⟩ := publish_coherent (a := ⟨query, _, version⟩) hi h.1 hloaded hnamed
      have hstarted : s.started t ≤ query.loaded := hloaded.symm ▸ h.1.2.1
      exact ⟨hi', hmoves, fun _ => hstarted⟩

lemma holds_reload :
    (engineRules opa).Holds t (Unpublished t) reload fun r s => Finishes t s r := by
  refine holds_bind holds_bundleVersion fun r => ?_
  cases r with
  | error e => exact holds_ret (stable_reads stable_unpublished) fun s _ h => h.1
  | ok version =>
    refine holds_stat_load fun missing => ?_
    cases missing with
    | true =>
      refine holds_bind (holds_mono holds_prepare (fun s _ h => h.mono fun dir hP => ?_)
        fun _ _ _ h => h) holds_publishQuery
      exact ⟨hP.1 version rfl, hP.2 rfl⟩
    | false =>
      exact holds_bind (holds_mono holds_load (fun s _ h => h.mono fun dir hP => hP.1 version rfl)
        fun _ _ _ h => h) holds_publishQuery

/-- What a call has achieved when it returns. -/
def Achieved (t : ℕ) (outcome : Outcome opa) (s : Host opa) : Prop :=
  match outcome with
  | .reloaded r => Finishes t s r
  | .unchanged => True
  | .decided query decision => query.Named decision.policyVersion

lemma holds_reloadCall : (engineRules opa).Holds t (Unpublished t) reloadCall (Achieved t) :=
  holds_bind holds_reload fun _ => holds_ret stable_finishes fun _ _ h => h

lemma holds_activeVersion {α : Type} {k : Bytes → EngineProg opa α} {B : α → Host opa → Prop}
    (hk : ∀ version, (engineRules opa).Holds t (Unpublished t) (k version) B) :
    (engineRules opa).Holds t (Reads t (Unpublished t) P) (activeVersion >>= k) B :=
  holds_look (stable_reads stable_unpublished)
    (fun _ _ _ _ h hx => ⟨exec_version hx, h.1⟩) hk

lemma holds_watchTick : (engineRules opa).Holds t (Unpublished t) watchTick (Achieved t) := by
  refine holds_bind holds_bundleVersion fun r => ?_
  cases r with
  | error e => exact holds_ret (stable_reads stable_unpublished) fun _ _ _ => trivial
  | ok version =>
    refine holds_activeVersion fun active => ?_
    split
    · exact holds_ret stable_unpublished fun _ _ _ => trivial
    · exact holds_reloadCall

lemma Coherent.named_active {s : Host opa} {a : Active opa} (hi : Coherent s)
    (h : s.active = some a) : a.query.Named a.version := by
  obtain ⟨p, hp, rfl⟩ := Option.map_eq_some_iff.mp h
  exact hi.named p (List.mem_of_mem_head? hp)

lemma holds_evaluateCall (input : EvalInput) :
    (engineRules opa).Holds t (Unpublished t) (evaluateCall input) (Achieved t) := by
  refine holds_look (C := fun (a : Active opa) _ => a.query.Named a.version) stable_unpublished
    (fun s a s' hi _ hx => ?_) fun a => ?_
  · obtain ⟨rfl, hactive⟩ := exec_current hx
    exact ⟨rfl, hi.named_active hactive⟩
  · refine holds_look (C := fun _ _ => a.query.Named a.version) (Stable.pure _)
      (fun s r s' _ h hx => ⟨exec_eval hx, h⟩) fun outcome => ?_
    exact holds_ret (Stable.pure _) fun _ _ h => h

end Triples

lemma coherent_start (dir : Option Tree) : Coherent (Host.start dir : Host opa) :=
  ⟨by simp [Host.start], fun _ => le_rfl, le_rfl, fun _ _ _ => le_rfl⟩

lemma wp_call_of {p : EngineProg opa (Outcome opa)} {t : ℕ} {s : Host opa} (hp : Calls p)
    (hi : Coherent s) (hf : Unpublished t s) : (engineRules opa).wp t p (Achieved t) s := by
  cases hp with
  | reload => exact holds_reloadCall s hi hf
  | watch => exact holds_watchTick s hi hf
  | evaluate input => exact holds_evaluateCall input s hi hf

lemma sound_run {dir : Option Tree} {ls : List (Label (EngineOp opa) EngineRes)}
    {c : Pool (EngineOp opa) EngineRes (Host opa) (Outcome opa)}
    (hr : Run (Host.machine opa).semantics Calls (.initial (Host.start dir)) ls c) :
    Sound (engineRules opa) Achieved c := by
  refine Sound.run (fun p t s hp hi hf => wp_call_of hp hi hf)
    (Sound.initial (coherent_start dir) fun t => ?_) hr
  simp [engineRules, Host.start]

lemma achieved_of_ret {c : Pool (EngineOp opa) EngineRes (Host opa) (Outcome opa)}
    (h : Sound (engineRules opa) Achieved c) {t : ℕ} {outcome : Outcome opa}
    (ht : c.thread t = some (.ret outcome)) : Achieved t outcome c.shared :=
  (h.threads t _ ht).2 _ (Others.refl t _) h.inv

/-- Only a publication changes what is active. -/
lemma Step.active_eq {c d : Pool (EngineOp opa) EngineRes (Host opa) (Outcome opa)}
    {l : Label (EngineOp opa) EngineRes} (h : Step (Host.machine opa).semantics Calls c l d)
    (hne : d.shared.active ≠ c.shared.active) :
    ∃ t a, l = .act t (.publish a) () ∧
      (⟨t, a, c.shared.seen t⟩ : Publication opa) ∈ d.shared.log := by
  have hlog : d.shared.log ≠ c.shared.log := fun he => hne (by rw [Host.active, he, Host.active])
  cases h with
  | start hp => exact absurd rfl hlog
  | lose ht => exact absurd rfl hlog
  | env he =>
    obtain ⟨dir, hf⟩ := he
    obtain rfl := Option.some.inj hf
    exact absurd rfl hlog
  | @act t op k r s ht hx =>
    cases op with
    | publish a =>
      obtain ⟨attempt, ha⟩ := hx
      obtain ⟨-, rfl⟩ := Prod.mk.inj (Option.some.inj ha)
      exact ⟨t, a, rfl, List.mem_cons_self⟩
    | stat site =>
      cases site with
      | fingerprint => exact absurd (congrArg Host.log (exec_stat_fingerprint hx).1) hlog
      | load => exact absurd (congrArg Host.log (exec_stat_load hx).1) hlog
    | walk => exact absurd (congrArg Host.log (exec_walk hx).1) hlog
    | list => exact absurd (congrArg Host.log (exec_list hx).1) hlog
    | readFile path => exact absurd (congrArg Host.log (exec_readFile hx).1) hlog
    | prepare source => exact absurd (congrArg Host.log (exec_prepare hx).1) hlog
    | version => exact absurd (congrArg Host.log (exec_version hx)) hlog
    | current => exact absurd (congrArg Host.log (exec_current hx).1) hlog
    | eval query input => exact absurd (congrArg Host.log (exec_eval hx)) hlog

end KiteRail.Policy
