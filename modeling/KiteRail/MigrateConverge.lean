import KiteRail.MigrateOutline

namespace KiteRail.Migrations
open Bytes Prog

namespace Server
variable {σ : Type} {run : Bytes → Base σ → Except GoError σ} {s s' : Server σ} {t : ℕ}

/-! A fresh installation. -/

section Fresh
variable {P : Plan σ} {w w' : Base σ} {names versions : List Bytes}

@[simp] lemma setTx_setTx (x y : Tx σ) : (s.setTx t x).setTx t y = s.setTx t y := by
  simp [setTx]

lemma exec_applyPending (hnames : ∀ name ∈ names, name ∈ P.newest.names)
    (hversions : w.versions = some versions) (hnodup : (versions ++ names).Nodup)
    (h : P.install names w = .ok w') :
    (applyPending P.newest names).exec (fun op s => answer P.run .ok t op s)
      (s.setTx t (.open (some w))) = some (none, s.setTx t (.open (some w'))) := by
  induction names generalizing w versions with
  | nil =>
    cases h
    rfl
  | cons name names ih =>
    obtain ⟨hname, hrest⟩ := List.forall_mem_cons.mp hnames
    have hnew : name ∉ versions := by
      intro hmem
      exact (List.nodup_append.mp hnodup).2.2 name hmem name List.mem_cons_self rfl
    rw [Plan.install_cons] at h
    cases happly : P.applyFile w name with
    | error err =>
      rw [happly] at h
      cases h
    | ok mid =>
      rw [happly] at h
      obtain ⟨schema, hrun, rfl⟩ := Plan.applyFile_eq_ok.mp happly
      have hlisted : ((w.scripted name schema).recorded name).versions =
          some (versions ++ [name]) := by
        simp [Base.recorded, Base.scripted, hversions]
      rw [List.append_cons] at hnodup
      have htail := ih hrest hlisted hnodup h
      -- The three statements for the file, then the rest.
      simpa [applyPending, exec, effect, answer, answerApplied, answerScript, answerRecord, write,
        view, hversions, hnew, Release.readFile_of_mem hname, hrun, Base.scripted] using htail

lemma freshInstallation_of_stage (h : P.Stage P.newest.order.length w) :
    ∃ fresh, freshInstallation P.run P.schema P.newest = some (none, fresh) ∧ fresh.base = w := by
  have hinstall : P.install P.newest.order (Base.empty P.schema).created = .ok w := by
    rw [← List.take_length (l := P.newest.order)]
    exact h.2
  -- The transaction with the lock, before it writes.
  let begun : Server σ := { (ofBase (.empty P.schema)).setTx 0 (.open none) with lock := some 0 }
  have hversions : (Base.empty P.schema).created.versions = some [] := rfl
  have hloop := exec_applyPending (t := 0) (s := begun)
    (fun name hname => mem_sortMigrations.mp hname) hversions P.newest.order_nodup hinstall
  have hcommit : (applyAndCommit P.newest).exec (fun op s => answer P.run .ok 0 op s)
      (begun.setTx 0 (.open (some (Base.empty P.schema).created))) =
        some (none, (begun.setTx 0 (.open (some w))).committed 0 w) := by
    rw [applyAndCommit, exec_bind]
    rw [hloop]
    simp [exec, answer, answerCommit, view]
  refine ⟨(begun.setTx 0 (.open (some w))).committed 0 w, ?_, rfl⟩
  have hbody : (migrateInTx P.newest).exec (fun op s => answer P.run .ok 0 op s)
      ((ofBase (.empty P.schema)).setTx 0 (.open none)) =
        some (none, (begun.setTx 0 (.open (some w))).committed 0 w) := by
    rw [← hcommit]
    simp [migrateInTx, exec, answer, answerLock, write, view, begun, ofBase, setTx]
  have hbegin : answer P.run .ok 0 .beginTx (ofBase (.empty P.schema)) =
      some (none, (ofBase (.empty P.schema)).setTx 0 (.open none)) := rfl
  rw [freshInstallation, migrate, exec_perform_bind hbegin]
  simp only [exec_bind, hbody]
  simp [exec, perform, answer]

end Fresh

/-! What changes the committed database. -/

lemma base_of_exec {op : MigrateOp} {r : MigrateRes op}
    (h : (machine run).semantics.exec t op s r s') : s'.base = s.base ∨
      s'.commits = t :: s.commits ∧ (.act t op r : Label MigrateOp MigrateRes) =
        .act t .commit none := by
  cases op with
  | beginTx => rcases exec_beginTx h with ⟨-, rfl⟩ | ⟨-, rfl⟩ <;> exact .inl rfl
  | lock => rcases exec_lock h with ⟨-, rfl⟩ | ⟨-, rfl⟩ <;> exact .inl rfl
  | createTable => rcases exec_createTable h with ⟨-, rfl⟩ | ⟨w, -, rfl⟩ <;> exact .inl rfl
  | applied name => exact .inl (congrArg base (exec_applied h).1)
  | script name content =>
    rcases exec_script h with ⟨-, rfl⟩ | ⟨w, schema, -, -, rfl⟩ <;> exact .inl rfl
  | record name => rcases exec_record h with ⟨-, rfl⟩ | ⟨w, -, rfl⟩ <;> exact .inl rfl
  | commit =>
    rcases exec_commit h with ⟨rfl, w, -, rfl⟩ | ⟨-, w, -, rfl⟩ | ⟨-, rfl⟩ | ⟨-, rfl⟩
    · exact .inr ⟨rfl, rfl⟩
    all_goals exact .inl rfl
  | rollback => rcases exec_rollback h with ⟨-, rfl⟩ | ⟨-, rfl⟩ <;> exact .inl rfl

variable {α : Type} {entry : MigrateProg α → Prop} {P : Plan σ}
  {c d : Pool MigrateOp MigrateRes (Server σ) α} {l : Label MigrateOp MigrateRes}

/-- The database changes by a `COMMIT`, answered or not, and by nothing else. -/
lemma base_of_step (hi : Good P c.shared) (h : Step (machine run).semantics entry c l d)
    (hne : d.shared.base ≠ c.shared.base) :
    ∃ t, d.shared.commits = t :: c.shared.commits ∧
      (l = .act t .commit none ∨ t ∈ c.shared.lost) := by
  cases h with
  | start hp => exact absurd rfl hne
  | @act t op k r s ht hx =>
    rcases base_of_exec hx with he | ⟨hc, hl⟩
    · exact absurd he hne
    · exact ⟨t, hc, .inl hl⟩
  | @lose t op k ht =>
    refine absurd ?_ hne
    change (lose t c.shared).base = _
    rcases lose_cases t c.shared with he | he <;> rw [he]
    rfl
  | @env s he =>
    obtain ⟨f, hf⟩ := he
    rcases fault_cases hf with ⟨t, rfl⟩ | ⟨t, w, htx, rfl⟩
    · exact absurd rfl hne
    · exact ⟨t, rfl, .inr (hi.lost t w htx)⟩

end Server

section Histories
variable {σ : Type} {run : Bytes → Base σ → Except GoError σ} {schema : σ}
  {fleet : ℕ → Release} {newest : ℕ} {ls : List (Label MigrateOp MigrateRes)}
  {c : Pool MigrateOp MigrateRes (Server σ) (ℕ × Option GoError)}

def Finished (fleet : ℕ → Release) (t : ℕ) (res : ℕ × Option GoError) (s : Server σ) : Prop :=
  Server.Outcome t (fleet res.1).order.length res.2 s

lemma holds_replica {P : Plan σ} {k t : ℕ} (hcov : Server.Covers P (fleet k)) :
    (Server.discipline P).Holds t (Server.Begun t) (replica fleet k) (Finished fleet t) :=
  Discipline.holds_bind (Server.holds_migrate hcov) fun res =>
    Discipline.holds_ret (Server.stable_outcome t _ res) fun _ _ h => h

theorem sound_run (hup : Upgrades fleet)
    (hrun : Run (Server.machine run).semantics (Replica fleet newest)
      (Pool.initial (.ofBase (.empty schema))) ls c) :
    Discipline.Sound (Server.discipline ⟨run, schema, fleet newest⟩) (Finished fleet) c := by
  refine Discipline.Sound.run ?_ (Discipline.Sound.initial ?_ ?_) hrun
  · rintro p t s ⟨k, hk, rfl⟩ hi ⟨htx, hc, hl⟩
    have hcov : Server.Covers ⟨run, schema, fleet newest⟩ (fleet k) :=
      ⟨hup.order_le hk, fun name hname => (hup.content_le hk hname).2⟩
    exact holds_replica hcov s hi ⟨hc, hl, .inl htx⟩
  · exact ⟨.inl rfl, by simp [Server.ofBase], by simp [Server.ofBase], by simp [Server.ofBase]⟩
  · exact fun t => ⟨rfl, by simp [Server.ofBase], by simp [Server.ofBase]⟩

/-- What has run is where the newest release starts. -/
lemma ran_of_good {P : Plan σ} {s : Server σ} (h : s.Good P) :
    s.base.ran <+: P.newest.order := by
  rcases h.settled with he | ⟨n, hstage⟩
  · rw [he]
    exact List.nil_prefix
  · rw [hstage.ran]
    exact List.take_prefix _ _

lemma stage_of_served {P : Plan σ} {s : Server σ} (h : s.Good P)
    (hversions : s.base.versions.isSome = true) (hran : P.newest.order.length ≤ s.base.ran.length) :
    P.Stage P.newest.order.length s.base := by
  rcases h.settled with he | ⟨n, hstage⟩
  · simp [he, Base.empty] at hversions
  · rw [hstage.length_ran] at hran
    exact (hstage.1.antisymm hran) ▸ hstage

end Histories

/-- Upgrades converge: in every history of replicas of successive releases, scripts have run at
most once and in order, the database changes only by a `COMMIT`, a call that reports an error has
not committed unless the answer to its `COMMIT` was lost, and after a successful run of the newest
release the database is the one of a fresh installation. The order of the files does not depend on
how they are listed; it is the order of their numbers exactly if the names whose numbers exceed an
`int` are ordered so themselves. -/
theorem upgrades_converge {σ : Type} (run : Bytes → Base σ → Except GoError σ) (schema : σ)
    (names : List Bytes) :
    (∀ (fleet : ℕ → Release) (newest : ℕ) (ls : List (Label MigrateOp MigrateRes))
      (c : Pool MigrateOp MigrateRes (Server σ) (ℕ × Option GoError)), Upgrades fleet →
      Run (Server.machine run).semantics (Replica fleet newest)
        (Pool.initial (.ofBase (.empty schema))) ls c →
      (c.shared.base.ran <+: sortMigrations (fleet newest).names ∧ c.shared.base.ran.Nodup) ∧
      (∀ l d, Step (Server.machine run).semantics (Replica fleet newest) c l d →
        d.shared.base ≠ c.shared.base → ∃ t, d.shared.commits = t :: c.shared.commits ∧
          (l = .act t .commit none ∨ t ∈ c.shared.lost)) ∧
      (∀ t k err, c.thread t = some (.ret (k, some err)) → t ∉ c.shared.lost →
        t ∉ c.shared.commits) ∧
      ∀ t, c.thread t = some (.ret (newest, none)) → ∃ fresh,
        freshInstallation run schema (fleet newest) = some (none, fresh) ∧
        c.shared.base = fresh.base) ∧
    (∀ names', names.Perm names' → sortMigrations names = sortMigrations names') ∧
    (InOrder (sortMigrations names) ↔ AgreeAbove names) := by
  refine ⟨?_, fun _ => sortMigrations_congr, inOrder_iff names⟩
  intro fleet newest ls c hup hrun
  have hsound := sound_run hup hrun
  have hended : ∀ t res, c.thread t = some (.ret res) → Finished fleet t res c.shared :=
    fun t res ht => (hsound.threads t _ ht).2 _ (Server.Interferes.refl t _) hsound.inv
  have hran := ran_of_good hsound.inv
  refine ⟨⟨hran, (fleet newest).order_nodup.sublist hran.sublist⟩, ?_, ?_, ?_⟩
  · exact fun l d hstep hne => Server.base_of_step hsound.inv hstep hne
  · intro t k err ht hlost
    rcases hended t _ ht with hl | hun
    · exact absurd hl hlost
    · exact hun.1
  · intro t ht
    obtain ⟨hversions, hcount⟩ := hended t _ ht
    obtain ⟨fresh, hfresh, hbase⟩ := Server.freshInstallation_of_stage
      (stage_of_served hsound.inv hversions hcount)
    exact ⟨fresh, hfresh, hbase.symm⟩

/-! Two releases: the second adds a file. -/

def sampleFile (name content : String) : File := ⟨lit name, false, lit content⟩

def sampleEntries : ℕ → List File
  | 0 => [sampleFile "0001_init.sql" "CREATE"]
  | _ => [sampleFile "002_more.sql" "ALTER", sampleFile "0001_init.sql" "CREATE"]

lemma sampleEntries_nodup (k : ℕ) : ((sampleEntries k).map File.name).Nodup := by
  cases k with
  | zero => exact List.nodup_singleton _
  | succ k =>
    change [lit "002_more.sql", lit "0001_init.sql"].Nodup
    decide +kernel

def sampleFleet (k : ℕ) : Release := ⟨sampleEntries k, sampleEntries_nodup k⟩

lemma sampleFleet_upgrades : Upgrades sampleFleet where
  keeps k := by
    cases k with
    | zero => decide +kernel
    | succ k => exact fun _ hname => ⟨hname, rfl⟩
  after k := by
    cases k with
    | zero => decide +kernel
    | succ k => exact fun _ hname hnew => absurd hname hnew

def noteScript (content : Bytes) (b : Base (List Bytes)) : Except GoError (List Bytes) :=
  .ok (b.schema ++ [content])

/-- A replica of the first release is canceled at its script; one of the second release, which
waited for the lock, runs both files. -/
def sampleUpgrade : List (Machine.Move MigrateOp MigrateRes (ℕ × Option GoError) Choice Fault) :=
  [.start (replica sampleFleet 0), .start (replica sampleFleet 1), .act 0 .ok, .act 1 .ok,
    .act 0 .ok, .act 0 .ok, .act 0 .ok, .act 0 (.fail .canceled), .act 0 .ok] ++
  List.replicate 10 (.act 1 .ok)

lemma sampleUpgrade_starts :
    ∀ p ∈ Machine.starts sampleUpgrade, Replica sampleFleet 1 p := by
  have h : ∀ p ∈ [replica sampleFleet 0, replica sampleFleet 1], Replica sampleFleet 1 p :=
    List.forall_mem_cons.mpr ⟨⟨0, by decide, rfl⟩,
      List.forall_mem_cons.mpr ⟨⟨1, by decide, rfl⟩, List.forall_mem_nil _⟩⟩
  exact h

theorem upgrades_converge_sample : ∃ ls c,
    Run (Server.machine noteScript).semantics (Replica sampleFleet 1)
      (Pool.initial (.ofBase (.empty []))) ls c ∧
    c.shared.base.ran = [lit "0001_init.sql", lit "002_more.sql"] ∧ c.shared.commits = [1] ∧
    (∃ fresh, freshInstallation noteScript [] (sampleFleet 1) = some (none, fresh) ∧
      c.shared.base = fresh.base) ∧
    InOrder (sortMigrations (sampleFleet 1).names) := by
  have hplay : ((Server.machine noteScript).play sampleUpgrade
      (Pool.initial (.ofBase (.empty [])))).map
      (fun c => (c.shared.base.ran, c.shared.commits, (c.thread 1).bind Prog.result)) =
      some ([lit "0001_init.sql", lit "002_more.sql"], [1], some (1, none)) := by decide +kernel
  obtain ⟨c, hc, hfacts⟩ := Option.map_eq_some_iff.mp hplay
  obtain ⟨hran, hrest⟩ := Prod.mk.inj hfacts
  obtain ⟨hcommits, hresult⟩ := Prod.mk.inj hrest
  have hthread : c.thread 1 = some (.ret (1, none)) := by
    obtain ⟨p, hp, hret⟩ := Option.bind_eq_some_iff.mp hresult
    rw [hp, Prog.result_eq_some hret]
  obtain ⟨ls, hrun⟩ := Machine.play_run sampleUpgrade_starts hc
  have hconverge := upgrades_converge noteScript [] (sampleFleet 1).names
  have hend := hconverge.1 sampleFleet 1 ls c sampleFleet_upgrades hrun
  have hagree : AgreeAbove (sampleFleet 1).names := by
    intro a ha b hb m n hm hn hmax
    have hsmall : ∀ name ∈ (sampleFleet 1).names, (number name).all (· < 10) = true := by
      decide +kernel
    have hlt := hsmall a ha
    rw [hm, Option.all_some, decide_eq_true_eq] at hlt
    have hvalue : GoStrconv.maxInt64 = 2 ^ 63 - 1 := rfl
    omega
  exact ⟨ls, c, hrun, hran, hcommits, hend.2.2.2 1 hthread, hconverge.2.2.mpr hagree⟩

end KiteRail.Migrations
