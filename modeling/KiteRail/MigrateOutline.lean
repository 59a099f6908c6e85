import KiteRail.MigrateInvariant

namespace KiteRail.Migrations
open Bytes Prog

namespace Server
variable {σ : Type} {P : Plan σ} {s s' : Server σ} {t u : ℕ} {w : Base σ}

def Unspent (t : ℕ) (s : Server σ) : Prop :=
  t ∉ s.commits ∧ t ∉ s.lost ∧ (s.tx t = .none ∨ ∃ w, s.tx t = .open w)

def Begun (t : ℕ) (s : Server σ) : Prop :=
  t ∉ s.commits ∧ t ∉ s.lost ∧ (s.tx t = .none ∨ s.tx t = .open none)

/-- As long as its transaction lives, the call holds the lock. -/
def Locked (t : ℕ) (s : Server σ) : Prop := Begun t s ∧ (s.tx t ≠ .none → s.lock = some t)

/-- As long as its transaction lives, the call holds the lock and `Q` describes its work. -/
def Working (t : ℕ) (Q : Base σ → Base σ → Prop) (s : Server σ) : Prop :=
  t ∉ s.commits ∧ t ∉ s.lost ∧
    (s.tx t = .none ∨ ∃ w, s.tx t = .open (some w) ∧ s.lock = some t ∧ Q s.base w)

lemma Begun.unspent (h : Begun t s) : Unspent t s :=
  ⟨h.1, h.2.1, h.2.2.imp_right fun he => ⟨none, he⟩⟩

lemma Working.unspent {Q : Base σ → Base σ → Prop} (h : Working t Q s) : Unspent t s :=
  ⟨h.1, h.2.1, h.2.2.imp_right fun ⟨w, he, _⟩ => ⟨some w, he⟩⟩

lemma Unspent.rely (h : Unspent t s) (hr : Interferes t s s') :
    t ∉ s'.commits ∧ t ∉ s'.lost ∧ (s'.tx t = .none ∨ s'.tx t = s.tx t) := by
  obtain ⟨hc, hl, htx | ⟨w, htx⟩⟩ := h
  · obtain ⟨htx', hc'⟩ := hr.idle htx
    exact ⟨fun hm => hc (hc'.mp hm), fun hm => hl (hr.lost.mp hm), .inl htx'⟩
  · obtain ⟨htx', hc'⟩ := hr.live w htx
    exact ⟨fun hm => hc (hc'.mp hm), fun hm => hl (hr.lost.mp hm),
      htx'.symm.imp_right fun he => he.trans htx.symm⟩

lemma stable_unspent (t : ℕ) : (discipline P).Stable t (Unspent t) := by
  intro s s' h hr
  obtain ⟨hc, hl, htx | htx⟩ := h.rely hr
  · exact ⟨hc, hl, .inl htx⟩
  · exact ⟨hc, hl, htx ▸ h.2.2⟩

lemma stable_begun (t : ℕ) : (discipline P).Stable t (Begun t) := by
  intro s s' h hr
  obtain ⟨hc, hl, htx | htx⟩ := h.unspent.rely hr
  · exact ⟨hc, hl, .inl htx⟩
  · exact ⟨hc, hl, htx ▸ h.2.2⟩

lemma stable_locked (t : ℕ) : (discipline P).Stable t (Locked t) := by
  intro s s' h hr
  refine ⟨stable_begun (P := P) t s s' h.1 hr, fun hn => ?_⟩
  have hs : s.tx t ≠ .none := fun he => hn (hr.idle he).1
  exact (hr.holder (h.2 hs) hn).1

lemma stable_working (t : ℕ) (Q : Base σ → Base σ → Prop) :
    (discipline P).Stable t (Working t Q) := by
  intro s s' h hr
  obtain ⟨hc, hl, htx | htx⟩ := h.unspent.rely hr
  · exact ⟨hc, hl, .inl htx⟩
  · refine ⟨hc, hl, ?_⟩
    rcases h.2.2 with hn | ⟨w, hw, hlock, hQ⟩
    · exact .inl (htx.trans hn)
    · have hn : s'.tx t ≠ .none := by simp [htx, hw]
      obtain ⟨hlock', hbase⟩ := hr.holder hlock hn
      exact .inr ⟨w, htx.trans hw, hlock', hbase.symm ▸ hQ⟩

/-- The work has reached the file `i` of the newest release, or is beyond it. -/
def From (P : Plan σ) (i : ℕ) (base w : Base σ) : Prop :=
  ∃ n, P.Stage n w ∧ i ≤ n ∧ base.ran.length ≤ n

def At (P : Plan σ) (i : ℕ) (base w : Base σ) : Prop := P.Stage i w ∧ base.ran.length ≤ i

/-- The script of the file `i` has run and is not listed yet. -/
def Scripted (P : Plan σ) (i : ℕ) (name : Bytes) (base w : Base σ) : Prop :=
  ∃ w₀ schema, At P i base w₀ ∧ P.run (P.newest.content name) w₀ = .ok schema ∧
    w = w₀.scripted name schema

/-- How a call has ended: with its files run, or without effect unless the answer to its
`COMMIT` was lost. -/
def Outcome (t count : ℕ) (res : Option GoError) (s : Server σ) : Prop :=
  match res with
  | none => s.base.versions.isSome = true ∧ count ≤ s.base.ran.length
  | some _ => t ∈ s.lost ∨ Unspent t s

lemma stable_outcome (t count : ℕ) (res : Option GoError) :
    (discipline P).Stable t (Outcome t count res) := by
  intro s s' h hr
  cases res with
  | none => exact ⟨hr.below.2 h.1, h.2.trans hr.below.1⟩
  | some err => exact h.imp hr.lost.mpr fun hu => stable_unspent (P := P) t s s' hu hr

section Operations
variable {i : ℕ} {name : Bytes} {r : Option GoError} {Q : Base σ → Base σ → Prop}

/-- The work of a live transaction is what its statements see. -/
lemma Working.view {w : Option (Base σ)} (h : Working t Q s) (htx : s.tx t = .open w) :
    s.tx t = .open (some (s.view w)) ∧ s.lock = some t ∧ Q s.base (s.view w) := by
  rcases h.2.2 with hn | ⟨w', hw, hlock, hQ⟩
  · simp [hn] at htx
  · rw [hw] at htx
    cases htx
    exact ⟨hw, hlock, hQ⟩

/-- A file is listed exactly if the stage lies beyond it. -/
lemma mem_take_order {n : ℕ} (hname : P.newest.order[i]? = some name) :
    name ∈ P.newest.order.take n ↔ i < n := by
  obtain ⟨hlt, rfl⟩ := List.getElem?_eq_some_iff.mp hname
  rw [List.mem_take_iff_getElem]
  constructor
  · rintro ⟨j, hj, he⟩
    have hij := (List.Nodup.getElem_inj_iff P.newest.order_nodup).mp he
    omega
  · exact fun hlt' => ⟨i, by omega, rfl⟩

lemma applied_step {r : Except GoError Bool} (hname : P.newest.order[i]? = some name)
    (h : Working t (From P i) s) (hx : (machine P.run).semantics.exec t (.applied name) s r s') :
    s' = s ∧ (r = .ok true → Working t (From P (i + 1)) s) ∧
      (r = .ok false → Working t (At P i) s) := by
  obtain ⟨hs, ⟨err, rfl⟩ | ⟨w, versions, htx, hversions, rfl⟩⟩ := exec_applied hx
  · exact ⟨hs, by simp, by simp⟩
  · obtain ⟨hwork, hlock, n, hstage, hin, hbase⟩ := h.view htx
    obtain rfl : P.newest.order.take n = versions :=
      Option.some.inj (hstage.versions.symm.trans hversions)
    refine ⟨hs, fun htrue => ?_, fun hfalse => ?_⟩
    · have hlt := (mem_take_order hname).mp (of_decide_eq_true (Except.ok.inj htrue))
      exact ⟨h.1, h.2.1, .inr ⟨_, hwork, hlock, n, hstage, hlt, hbase⟩⟩
    · have hge := mt (mem_take_order hname).mpr (of_decide_eq_false (Except.ok.inj hfalse))
      obtain rfl : n = i := by omega
      exact ⟨h.1, h.2.1, .inr ⟨_, hwork, hlock, hstage, hbase⟩⟩

def Wrote (P : Plan σ) (t : ℕ) (Q : Base σ → Base σ → Prop) (s : Server σ)
    (r : Option GoError) (s' : Server σ) : Prop :=
  Good P s' ∧ (∀ u, t ≠ u → Interferes u s s') ∧ Unspent t s' ∧ (r = none → Working t Q s')

lemma wrote_refused (hi : Good P s) (h : Unspent t s) (hr : r.isSome) : Wrote P t Q s r s :=
  ⟨hi, fun u _ => .refl u s, h, fun hn => by simp [hn] at hr⟩

lemma wrote_write (hi : Good P s) (h : Unspent t s) (hlock : s.lock = some t) (hQ : Q s.base w) :
    Wrote P t Q s r (s.setTx t (.open (some w))) := by
  refine ⟨hi.setOpen fun _ => hlock, fun u hu => .setTx hu, ?_, fun _ => ?_⟩
  · exact ⟨h.1, h.2.1, .inr ⟨_, setTx_tx_self⟩⟩
  · exact ⟨h.1, h.2.1, .inr ⟨w, setTx_tx_self, hlock, hQ⟩⟩

lemma createTable_step (hi : Good P s) (h : Locked t s)
    (hx : (machine P.run).semantics.exec t .createTable s r s') :
    Wrote P t (From P 0) s r s' := by
  rcases exec_createTable hx with ⟨hr, rfl⟩ | ⟨w, htx, rfl⟩
  · exact wrote_refused hi h.1.unspent hr
  · have hw : w = none := by simpa [htx] using h.1.2.2
    subst hw
    refine wrote_write hi h.1.unspent (h.2 (by simp [htx])) ?_
    change From P 0 s.base s.base.created
    rcases hi.settled with he | ⟨n, hstage⟩
    · exact ⟨0, by rw [he]; exact Plan.Stage.zero, le_rfl, by simp [he, Base.empty]⟩
    · have hcreated : s.base.created = s.base := by
        rw [Base.created, hstage.versions, Option.getD_some, ← hstage.versions]
      exact ⟨n, hcreated.symm ▸ hstage, Nat.zero_le n, hstage.length_ran.le⟩

lemma script_step (hi : Good P s) (h : Working t (At P i) s)
    (hx : (machine P.run).semantics.exec t (.script name (P.newest.content name)) s r s') :
    Wrote P t (Scripted P i name) s r s' := by
  rcases exec_script hx with ⟨hr, rfl⟩ | ⟨w, schema, htx, hrun, rfl⟩
  · exact wrote_refused hi h.unspent hr
  · obtain ⟨-, hlock, hat⟩ := h.view htx
    exact wrote_write hi h.unspent hlock ⟨_, schema, hat, hrun, rfl⟩

lemma record_step (hname : P.newest.order[i]? = some name) (hi : Good P s)
    (h : Working t (Scripted P i name) s)
    (hx : (machine P.run).semantics.exec t (.record name) s r s') :
    Wrote P t (From P (i + 1)) s r s' := by
  rcases exec_record hx with ⟨hr, rfl⟩ | ⟨w, htx, rfl⟩
  · exact wrote_refused hi h.unspent hr
  · obtain ⟨-, hlock, w₀, schema, ⟨hstage, hbase⟩, hrun, hw⟩ := h.view htx
    refine wrote_write hi h.unspent hlock ?_
    rw [hw]
    exact ⟨i + 1, hstage.next hname hrun, le_rfl, by omega⟩

lemma commit_step (hi : Good P s) (h : Working t (From P i) s)
    (hx : (machine P.run).semantics.exec t .commit s r s') :
    Good P s' ∧ (∀ u, t ≠ u → Interferes u s s') ∧ Outcome t i r s' := by
  rcases exec_commit hx with ⟨rfl, w, htx, rfl⟩ | ⟨hr, w, htx, rfl⟩ | ⟨hr, rfl⟩ | ⟨hr, rfl⟩
  · obtain ⟨-, hlock, n, hstage, hin, hbase⟩ := h.view htx
    have hready : Ready P s.base (s.view w) := ⟨n, hstage, hbase⟩
    refine ⟨hi.committed hlock hready, fun u hu => .committed hlock hready hu, ?_⟩
    exact ⟨by simp [hstage.versions], by rw [committed_base, hstage.length_ran]; exact hin⟩
  · obtain ⟨err, rfl⟩ := Option.isSome_iff_exists.mp hr
    obtain ⟨-, hlock, n, hstage, hin, hbase⟩ := h.view htx
    exact ⟨hi.unsettled hlock ⟨n, hstage, hbase⟩, fun u hu => .unsettled hu, .inl (by simp)⟩
  · obtain ⟨err, rfl⟩ := Option.isSome_iff_exists.mp hr
    exact ⟨hi.aborted, fun u hu => .aborted hu, .inr ⟨h.1, h.2.1, .inl aborted_tx_self⟩⟩
  · obtain ⟨err, rfl⟩ := Option.isSome_iff_exists.mp hr
    exact ⟨hi, fun u _ => .refl u _, .inr h.unspent⟩

end Operations

section Calls
variable {r : Release} {i : ℕ} {name : Bytes} {names : List Bytes}

/-- The files of a release are the first ones of the newest. -/
def Covers (P : Plan σ) (r : Release) : Prop :=
  r.order <+: P.newest.order ∧ ∀ name ∈ r.names, P.newest.content name = r.content name

def Applied (P : Plan σ) (t count : ℕ) (res : Option GoError) (s : Server σ) : Prop :=
  match res with
  | none => Working t (From P count) s
  | some _ => Unspent t s

lemma holds_failed {err : GoError} {count : ℕ} :
    (discipline P).Holds t (Unspent t) (.ret (some err)) (Applied P t count) :=
  Discipline.holds_ret (stable_unspent t) fun _ _ h => h

/-- A write, and what follows it or its failure. -/
lemma holds_write {α : Type} {A : Server σ → Prop} {op : MigrateOp}
    {k : MigrateRes op → MigrateProg α} {e : MigrateRes op → Option GoError}
    {Q : Base σ → Base σ → Prop} {B : α → Server σ → Prop}
    (hst : (discipline P).Stable t A)
    (hop : ∀ s r s', Good P s → A s → (machine P.run).semantics.exec t op s r s' →
      Wrote P t Q s (e r) s')
    (hfail : ∀ r, (e r).isSome → (discipline P).Holds t (Unspent t) (k r) B)
    (hok : ∀ r, e r = none → (discipline P).Holds t (Working t Q) (k r) B) :
    (discipline P).Holds t A (.call op k) B := by
  refine Discipline.holds_call hst (C := fun r s' =>
    Unspent t s' ∧ (e r = none → Working t Q s')) ?_ fun r => ?_
  · intro s r s' hi hA hx
    obtain ⟨hi', hg, hun, hw⟩ := hop s r s' hi hA hx
    exact ⟨hi', hg, hun, hw⟩
  · cases hr : e r with
    | none => exact Discipline.holds_mono (hok r hr) (fun _ _ h => h.2 rfl) fun _ _ _ h => h
    | some err =>
      exact Discipline.holds_mono (hfail r (by simp [hr])) (fun _ _ h => h.1) fun _ _ _ h => h

lemma Covers.getElem? (h : Covers P r) (hname : r.order[i]? = some name) :
    P.newest.order[i]? = some name ∧ r.readFile name = some (P.newest.content name) := by
  obtain ⟨hlt, hget⟩ := List.getElem?_eq_some_iff.mp hname
  have hmem : name ∈ r.names := mem_sortMigrations.mp (hget ▸ List.getElem_mem hlt)
  rw [h.2 name hmem]
  refine ⟨?_, Release.readFile_of_mem hmem⟩
  obtain ⟨rest, hrest⟩ := h.1
  rw [← hrest, List.getElem?_append_left hlt, hname]

/-- The files that are left are run from the stage of the first of them. -/
lemma holds_applyPending (hcov : Covers P r) (hnames : r.order.drop i = names) :
    (discipline P).Holds t (Working t (From P i)) (applyPending r names)
      (Applied P t r.order.length) := by
  induction names generalizing i with
  | nil =>
    have hlen : r.order.length ≤ i := List.drop_eq_nil_iff.mp hnames
    refine Discipline.holds_ret (stable_working t _) fun s _ h => ?_
    obtain ⟨hc, hl, htx⟩ := h
    refine ⟨hc, hl, htx.imp_right ?_⟩
    rintro ⟨w, hw, hlock, n, hstage, hin, hbase⟩
    exact ⟨w, hw, hlock, n, hstage, hlen.trans hin, hbase⟩
  | cons name names ih =>
    have hget : r.order[i]? = some name := by
      rw [← List.head?_drop, hnames, List.head?_cons]
    have hrest : r.order.drop (i + 1) = names := by
      rw [← List.tail_drop, hnames, List.tail_cons]
    obtain ⟨hname, hread⟩ := hcov.getElem? hget
    refine Discipline.holds_call (stable_working t _) (C := fun r s' => Unspent t s' ∧
      (r = .ok true → Working t (From P (i + 1)) s') ∧
      (r = .ok false → Working t (At P i) s')) ?_ fun res => ?_
    · intro s res s' hi h hx
      obtain ⟨hs, htrue, hfalse⟩ := applied_step hname h hx
      subst hs
      exact ⟨hi, fun u _ => .refl u _, h.unspent, htrue, hfalse⟩
    · rcases res with err | (_ | _)
      · exact Discipline.holds_mono holds_failed (fun _ _ h => h.1) fun _ _ _ h => h
      · refine Discipline.holds_mono (A := Working t (At P i)) ?_ (fun _ _ h => h.2.2 rfl)
          fun _ _ _ h => h
        simp only [hread]
        refine holds_write (e := fun r => r) (stable_working t _)
          (fun s r s' hi h hx => script_step hi h hx) ?_ ?_
        · rintro (_ | err) hr
          · simp at hr
          · exact holds_failed
        · rintro _ rfl
          refine holds_write (e := fun r => r) (stable_working t _)
            (fun s r s' hi h hx => record_step hname hi h hx) ?_ ?_
          · rintro (_ | err) hr
            · simp at hr
            · exact holds_failed
          · rintro _ rfl
            exact ih hrest
      · exact Discipline.holds_mono (ih hrest) (fun _ _ h => h.2.1 rfl) fun _ _ _ h => h

lemma holds_returns {err : GoError} {count : ℕ} :
    (discipline P).Holds t (Unspent t) (.ret (some err)) (Outcome t count) :=
  Discipline.holds_ret (stable_unspent t) fun _ _ h => .inr h

lemma holds_applyAndCommit (hcov : Covers P r) :
    (discipline P).Holds t (Working t (From P 0)) (applyAndCommit r)
      (Outcome t r.order.length) := by
  refine Discipline.holds_bind (holds_applyPending (i := 0) hcov rfl) fun res => ?_
  cases res with
  | some err => exact holds_returns
  | none =>
    refine Discipline.holds_call (stable_working t _)
      (fun s res s' hi h hx => commit_step hi h hx) fun res => ?_
    cases res with
    | none => exact Discipline.holds_ret (stable_outcome t _ none) fun _ _ h => h
    | some err => exact Discipline.holds_ret (stable_outcome t _ (some err)) fun _ _ h => h

lemma lock_step {res : Option GoError} (hi : Good P s) (h : Begun t s)
    (hx : (machine P.run).semantics.exec t .lock s res s') :
    Good P s' ∧ (∀ u, t ≠ u → Interferes u s s') ∧ Begun t s' ∧ (res = none → Locked t s') := by
  rcases exec_lock hx with ⟨hr, rfl⟩ | ⟨hl, rfl⟩
  · exact ⟨hi, fun u _ => .refl u _, h, fun hn => by simp [hn] at hr⟩
  · exact ⟨hi.lockTaken hl, fun u hu => .lockTaken hl hu, h, fun _ => ⟨h, fun _ => rfl⟩⟩

lemma holds_migrateInTx (hcov : Covers P r) :
    (discipline P).Holds t (Begun t) (migrateInTx r) (Outcome t r.order.length) := by
  refine Discipline.holds_call (stable_begun t) (fun s res s' hi h hx => lock_step hi h hx)
    fun res => ?_
  cases res with
  | some err =>
    exact Discipline.holds_mono holds_returns (fun _ _ h => h.1.unspent) fun _ _ _ h => h
  | none =>
    refine Discipline.holds_mono (A := Locked t) ?_ (fun _ _ h => h.2 rfl) fun _ _ _ h => h
    refine holds_write (e := fun r => r) (stable_locked t)
      (fun s r s' hi h hx => createTable_step hi h hx) ?_ ?_
    · rintro (_ | err) hr
      · simp at hr
      · exact holds_returns
    · rintro _ rfl
      exact holds_applyAndCommit hcov

lemma rollback_step {count : ℕ} {res : Option GoError} {r : Unit} (hi : Good P s)
    (h : Outcome t count res s) (hx : (machine P.run).semantics.exec t .rollback s r s') :
    Good P s' ∧ (∀ u, t ≠ u → Interferes u s s') ∧ Outcome t count res s' := by
  rcases exec_rollback hx with ⟨-, rfl⟩ | ⟨-, rfl⟩
  · refine ⟨hi.aborted, fun u hu => .aborted hu, ?_⟩
    cases res with
    | none => exact h
    | some err => exact h.imp id fun hun => ⟨hun.1, hun.2.1, .inl aborted_tx_self⟩
  · exact ⟨hi, fun u _ => .refl u _, h⟩

lemma holds_migrate (hcov : Covers P r) :
    (discipline P).Holds t (Begun t) (migrate r) (Outcome t r.order.length) := by
  refine Discipline.holds_call (C := fun res s' => Begun t s') (stable_begun t) ?_ fun res => ?_
  · intro s res s' hi h hx
    rcases exec_beginTx hx with ⟨-, rfl⟩ | ⟨-, rfl⟩
    · refine ⟨hi.setOpen (by simp), fun u hu => .setTx hu, ?_⟩
      exact ⟨h.1, h.2.1, .inr setTx_tx_self⟩
    · exact ⟨hi, fun u _ => .refl u _, h⟩
  · cases res with
    | some err =>
      exact Discipline.holds_mono holds_returns (fun _ _ h => h.unspent) fun _ _ _ h => h
    | none =>
      change (discipline P).Holds t (Begun t)
        (migrateInTx r >>= fun res => .call .rollback fun _ => .ret res) _
      refine Discipline.holds_bind (holds_migrateInTx hcov) fun res => ?_
      refine Discipline.holds_call (stable_outcome t _ res)
        (fun s r s' hi h hx => rollback_step hi h hx) fun _ => ?_
      exact Discipline.holds_ret (stable_outcome t _ res) fun _ _ h => h

end Calls

end Server
end KiteRail.Migrations
