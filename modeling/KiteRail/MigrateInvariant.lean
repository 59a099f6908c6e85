import KiteRail.MigrateStages

namespace KiteRail.Migrations
open Bytes Prog

namespace Server
variable {σ : Type} {P : Plan σ} {s s' : Server σ} {t u : ℕ} {w : Base σ} {x : Tx σ}

/-- What may be committed on top of `base`. -/
def Ready (P : Plan σ) (base w : Base σ) : Prop := ∃ n, P.Stage n w ∧ base.ran.length ≤ n

/-- The invariant of the migrating system. -/
structure Good (P : Plan σ) (s : Server σ) : Prop where
  settled : s.base = .empty P.schema ∨ ∃ n, P.Stage n s.base
  writer : ∀ t w, s.tx t = .open (some w) → s.lock = some t
  closing : ∀ t w, s.tx t = .closing w → s.lock = some t ∧ Ready P s.base w
  lost : ∀ t w, s.tx t = .closing w → t ∈ s.lost

/-- The database moves on to later stages only. -/
def Below (b b' : Base σ) : Prop :=
  b.ran.length ≤ b'.ran.length ∧ (b.versions.isSome = true → b'.versions.isSome = true)

lemma Below.refl (b : Base σ) : Below b b := ⟨le_rfl, id⟩

lemma Below.trans {a b c : Base σ} (h : Below a b) (g : Below b c) : Below a c :=
  ⟨h.1.trans g.1, g.2 ∘ h.2⟩

lemma Ready.below {b : Base σ} (h : Ready P b w) : Below b w := by
  obtain ⟨n, hstage, hn⟩ := h
  exact ⟨hn.trans hstage.length_ran.ge, fun _ => by simp [hstage.versions]⟩

/-- What the rest of the system may do to the call `u`: abort its transaction, settle a commit
whose answer was lost, and nothing to the database while `u` holds the lock in a live
transaction. -/
structure Interferes (u : ℕ) (s s' : Server σ) : Prop where
  idle : s.tx u = .none → s'.tx u = .none ∧ (u ∈ s'.commits ↔ u ∈ s.commits)
  live : ∀ w, s.tx u = .open w →
    (s'.tx u = .open w ∨ s'.tx u = .none) ∧ (u ∈ s'.commits ↔ u ∈ s.commits)
  closing : ∀ w, s.tx u = .closing w → s'.tx u = .none ∨ s'.tx u = .closing w
  holder : s.lock = some u → s'.tx u ≠ .none → s'.lock = some u ∧ s'.base = s.base
  below : Below s.base s'.base
  lost : u ∈ s'.lost ↔ u ∈ s.lost

lemma Interferes.refl (u : ℕ) (s : Server σ) : Interferes u s s :=
  ⟨fun h => ⟨h, .rfl⟩, fun _ h => ⟨.inl h, .rfl⟩, fun _ h => .inr h, fun h _ => ⟨h, rfl⟩,
    .refl _, .rfl⟩

lemma Interferes.trans {a b c : Server σ} (h : Interferes u a b) (g : Interferes u b c) :
    Interferes u a c where
  idle ha := ⟨(g.idle (h.idle ha).1).1, (g.idle (h.idle ha).1).2.trans (h.idle ha).2⟩
  live w ha := by
    obtain ⟨hb, hc⟩ := h.live w ha
    rcases hb with hb | hb
    · exact ⟨(g.live w hb).1, (g.live w hb).2.trans hc⟩
    · exact ⟨.inr (g.idle hb).1, (g.idle hb).2.trans hc⟩
  closing w ha := by
    rcases h.closing w ha with hb | hb
    · exact .inl (g.idle hb).1
    · exact g.closing w hb
  holder ha hc := by
    have hb : b.tx u ≠ .none := fun hb => hc (g.idle hb).1
    obtain ⟨hl, hr⟩ := h.holder ha hb
    obtain ⟨hl', hr'⟩ := g.holder hl hc
    exact ⟨hl', hr'.trans hr⟩
  below := h.below.trans g.below
  lost := g.lost.trans h.lost

lemma Interferes.frame (htx : s'.tx u = s.tx u) (hc : u ∈ s'.commits ↔ u ∈ s.commits)
    (hlost : u ∈ s'.lost ↔ u ∈ s.lost) (hbelow : Below s.base s'.base)
    (hl : s.lock = some u → s'.lock = some u ∧ s'.base = s.base) : Interferes u s s' :=
  ⟨fun h => ⟨htx.trans h, hc⟩, fun _ h => ⟨.inl (htx.trans h), hc⟩,
    fun _ h => .inr (htx.trans h), fun h _ => hl h, hbelow, hlost⟩

lemma Interferes.setTx (hu : t ≠ u) : Interferes u s (s.setTx t x) :=
  .frame (setTx_tx_ne hu) .rfl .rfl (.refl _) fun hl => ⟨hl, rfl⟩

lemma Interferes.aborted (hu : t ≠ u) : Interferes u s (s.aborted t) :=
  .frame (aborted_tx_ne hu) .rfl .rfl (.refl _) fun hl => ⟨released_of_ne hl hu, rfl⟩

lemma Interferes.unsettled (hu : t ≠ u) : Interferes u s (s.unsettled t w) :=
  .frame (unsettled_tx_ne hu) .rfl (by simp [Ne.symm hu]) (.refl _) fun hl => ⟨hl, rfl⟩

lemma Interferes.lockTaken (hl : s.lock = none ∨ s.lock = some t) (hu : t ≠ u) :
    Interferes u s { s with lock := some t } := by
  refine .frame rfl .rfl .rfl (.refl _) fun hlock => ?_
  rcases hl with hl | hl
  · simp [hl] at hlock
  · exact absurd (Option.some.inj (hl.symm.trans hlock)) hu

lemma Interferes.committed (hlock : s.lock = some t) (hw : Ready P s.base w) (hu : t ≠ u) :
    Interferes u s (s.committed t w) := by
  refine .frame (committed_tx_ne hu) (by simp [Ne.symm hu]) .rfl hw.below fun hl => ?_
  exact absurd (Option.some.inj (hlock.symm.trans hl)) hu

lemma Interferes.abortedSelf : Interferes t s (s.aborted t) where
  idle _ := ⟨aborted_tx_self, .rfl⟩
  live _ _ := ⟨.inr aborted_tx_self, .rfl⟩
  closing _ _ := .inl aborted_tx_self
  holder _ hn := absurd aborted_tx_self hn
  below := .refl _
  lost := .rfl

lemma Interferes.settledSelf (htx : s.tx t = .closing w) (hw : Ready P s.base w) :
    Interferes t s (s.committed t w) where
  idle h := by simp [htx] at h
  live _ h := by simp [htx] at h
  closing _ _ := .inl committed_tx_self
  holder _ hn := absurd committed_tx_self hn
  below := hw.below
  lost := .rfl

section Updates
variable (h : s.Good P)
include h

lemma Good.setOpen {w : Option (Base σ)} (hw : w.isSome = true → s.lock = some t) :
    (s.setTx t (.open w)).Good P where
  settled := h.settled
  writer u w' hu := by
    by_cases htu : t = u
    · subst htu
      rw [setTx_tx_self, Tx.open.injEq] at hu
      exact hw (by simp [hu])
    · exact h.writer u w' ((setTx_tx_ne htu).symm.trans hu)
  closing u w' hu := by
    by_cases htu : t = u
    · subst htu
      simp at hu
    · exact h.closing u w' ((setTx_tx_ne htu).symm.trans hu)
  lost u w' hu := by
    by_cases htu : t = u
    · subst htu
      simp at hu
    · exact h.lost u w' ((setTx_tx_ne htu).symm.trans hu)

lemma Good.unsettled (hlock : s.lock = some t) (hw : Ready P s.base w) :
    (s.unsettled t w).Good P where
  settled := h.settled
  writer u w' hu := by
    by_cases htu : t = u
    · exact htu ▸ hlock
    · exact h.writer u w' ((unsettled_tx_ne htu).symm.trans hu)
  closing u w' hu := by
    by_cases htu : t = u
    · subst htu
      rw [unsettled_tx_self, Tx.closing.injEq] at hu
      exact ⟨hlock, hu ▸ hw⟩
    · exact h.closing u w' ((unsettled_tx_ne htu).symm.trans hu)
  lost u w' hu := by
    by_cases htu : t = u
    · simp [htu]
    · exact List.mem_cons_of_mem _ (h.lost u w' ((unsettled_tx_ne htu).symm.trans hu))

lemma Good.lockTaken (hl : s.lock = none ∨ s.lock = some t) : Good P { s with lock := some t } where
  settled := h.settled
  writer u w hu := by
    have hlock := h.writer u w hu
    rcases hl with hl | hl
    · simp [hl] at hlock
    · exact hl.symm.trans hlock
  closing u w hu := by
    obtain ⟨hlock, hw⟩ := h.closing u w hu
    rcases hl with hl | hl
    · simp [hl] at hlock
    · exact ⟨hl.symm.trans hlock, hw⟩
  lost := h.lost

lemma Good.aborted : (s.aborted t).Good P where
  settled := h.settled
  writer u w hu := by
    by_cases htu : t = u
    · subst htu
      simp at hu
    · rw [aborted_tx_ne htu] at hu
      exact released_of_ne (h.writer u w hu) htu
  closing u w hu := by
    by_cases htu : t = u
    · subst htu
      simp at hu
    · rw [aborted_tx_ne htu] at hu
      exact ⟨released_of_ne (h.closing u w hu).1 htu, (h.closing u w hu).2⟩
  lost u w hu := by
    by_cases htu : t = u
    · subst htu
      simp at hu
    · exact h.lost u w ((aborted_tx_ne htu).symm.trans hu)

/-- Nobody else has anything to commit when the holder of the lock does. -/
lemma Good.committed (hlock : s.lock = some t) (hw : Ready P s.base w) :
    (s.committed t w).Good P where
  settled := .inr ⟨hw.choose, hw.choose_spec.1⟩
  writer u w' hu := by
    by_cases htu : t = u
    · subst htu
      simp at hu
    · rw [committed_tx_ne htu] at hu
      exact released_of_ne (h.writer u w' hu) htu
  closing u w' hu := by
    by_cases htu : t = u
    · subst htu
      simp at hu
    · rw [committed_tx_ne htu] at hu
      exact absurd (Option.some.inj (hlock.symm.trans (h.closing u w' hu).1)) htu
  lost u w' hu := by
    by_cases htu : t = u
    · subst htu
      simp at hu
    · exact h.lost u w' ((committed_tx_ne htu).symm.trans hu)

end Updates

lemma fault_cases {f : Fault} (hf : fault f s = some s') :
    (∃ t, s' = s.aborted t) ∨ ∃ t w, s.tx t = .closing w ∧ s' = s.committed t w := by
  cases f with
  | abort t =>
    simp only [fault] at hf
    split at hf
    · simp at hf
    · exact .inl ⟨t, (Option.some.inj hf).symm⟩
  | settle t =>
    simp only [fault] at hf
    split at hf
    · rename_i w htx
      exact .inr ⟨t, w, htx, (Option.some.inj hf).symm⟩
    · simp at hf

lemma lose_cases (t : ℕ) (s : Server σ) : lose t s = s ∨ lose t s = s.aborted t := by
  unfold lose
  split
  · exact .inr rfl
  · exact .inl rfl

/-- Rely/guarantee for migrations: every statement interferes with every other call only as that
call expects. -/
def discipline (P : Plan σ) : Discipline (machine P.run).semantics where
  inv := Good P
  fresh t s := s.tx t = .none ∧ t ∉ s.commits ∧ t ∉ s.lost
  guar t _ s _ s' := ∀ u, t ≠ u → Interferes u s s'
  rely := Interferes
  rely_refl := Interferes.refl
  rely_trans _ _ _ _ h g := h.trans g
  rely_guar _ u _ _ _ _ hu _ hg := hg u hu
  rely_env u s s' hi he := by
    obtain ⟨f, hf⟩ := he
    rcases fault_cases hf with ⟨t, rfl⟩ | ⟨t, w, htx, rfl⟩
    · by_cases hu : t = u
      · exact hu ▸ Interferes.abortedSelf
      · exact Interferes.aborted hu
    · obtain ⟨hlock, hw⟩ := hi.closing t w htx
      by_cases hu : t = u
      · subst hu
        exact Interferes.settledSelf htx hw
      · exact Interferes.committed hlock hw hu
  rely_lose t u s hu hi := by
    rcases lose_cases t s with he | he <;> simp only [machine, Machine.semantics, he]
    · exact .refl u s
    · exact Interferes.aborted hu
  fresh_rely t s s' hf hr :=
    ⟨(hr.idle hf.1).1, fun hc => hf.2.1 ((hr.idle hf.1).2.mp hc), fun hl => hf.2.2 (hr.lost.mp hl)⟩
  inv_env s s' hi he := by
    obtain ⟨f, hf⟩ := he
    rcases fault_cases hf with ⟨t, rfl⟩ | ⟨t, w, htx, rfl⟩
    · exact hi.aborted
    · obtain ⟨hlock, hw⟩ := hi.closing t w htx
      exact hi.committed hlock hw
  inv_lose t s hi := by
    rcases lose_cases t s with he | he <;> simp only [machine, Machine.semantics, he]
    · exact hi
    · exact hi.aborted

section Statements
variable {run : Bytes → Base σ → Except GoError σ} {r : Option GoError} {name content : Bytes}

attribute [local simp] machine answer

lemma exec_beginTx (h : (machine run).semantics.exec t .beginTx s r s') :
    (r = none ∧ s' = s.setTx t (.open none)) ∨ (r.isSome ∧ s' = s) := by
  obtain ⟨ch, h⟩ := h
  cases ch <;> cases htx : s.tx t <;> simp [htx] at h <;> grind

lemma exec_lock (h : (machine run).semantics.exec t .lock s r s') :
    (r.isSome ∧ s' = s) ∨ ((s.lock = none ∨ s.lock = some t) ∧ s' = { s with lock := some t }) := by
  obtain ⟨ch, h⟩ := h
  cases ch <;> cases htx : s.tx t <;> simp [answerLock, htx] at h <;> grind

lemma exec_createTable (h : (machine run).semantics.exec t .createTable s r s') :
    (r.isSome ∧ s' = s) ∨
      ∃ w, s.tx t = .open w ∧ s' = s.setTx t (.open (some (s.view w).created)) := by
  obtain ⟨ch, h⟩ := h
  cases ch <;> cases htx : s.tx t <;> simp [write, htx] at h <;> grind

lemma exec_applied {r : Except GoError Bool}
    (h : (machine run).semantics.exec t (.applied name) s r s') :
    s' = s ∧ ((∃ err, r = .error err) ∨ ∃ w versions, s.tx t = .open w ∧
      (s.view w).versions = some versions ∧ r = .ok (decide (name ∈ versions))) := by
  obtain ⟨ch, h⟩ := h
  cases ch <;> cases htx : s.tx t <;>
    simp [answerApplied, htx] at h <;> grind

lemma exec_script (h : (machine run).semantics.exec t (.script name content) s r s') :
    (r.isSome ∧ s' = s) ∨ ∃ w schema, s.tx t = .open w ∧
      run content (s.view w) = .ok schema ∧
      s' = s.setTx t (.open (some ((s.view w).scripted name schema))) := by
  obtain ⟨ch, h⟩ := h
  cases ch <;> cases htx : s.tx t <;>
    simp [answerScript, write, htx] at h <;> grind

lemma exec_record (h : (machine run).semantics.exec t (.record name) s r s') :
    (r.isSome ∧ s' = s) ∨ ∃ w, s.tx t = .open w ∧
      s' = s.setTx t (.open (some ((s.view w).recorded name))) := by
  obtain ⟨ch, h⟩ := h
  cases ch <;> cases htx : s.tx t <;>
    simp [answerRecord, write, htx] at h <;> grind

lemma exec_commit (h : (machine run).semantics.exec t .commit s r s') :
    (r = none ∧ ∃ w, s.tx t = .open w ∧ s' = s.committed t (s.view w)) ∨
      (r.isSome ∧ ∃ w, s.tx t = .open w ∧ s' = s.unsettled t (s.view w)) ∨
      (r.isSome ∧ s' = s.aborted t) ∨ (r.isSome ∧ s' = s) := by
  obtain ⟨ch, h⟩ := h
  cases ch <;> cases htx : s.tx t <;> simp [answerCommit, htx] at h <;> grind

lemma exec_rollback {r : Unit} (h : (machine run).semantics.exec t .rollback s r s') :
    ((∃ w, s.tx t = .open w) ∧ s' = s.aborted t) ∨ ((∀ w, s.tx t ≠ .open w) ∧ s' = s) := by
  obtain ⟨ch, h⟩ := h
  cases ch <;> cases htx : s.tx t <;> simp [htx] at h <;> grind

end Statements

end Server
end KiteRail.Migrations
