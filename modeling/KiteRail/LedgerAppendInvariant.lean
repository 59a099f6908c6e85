import KiteRail.LedgerAppend
import KiteRail.LedgerChain

/-! What concurrent appends preserve. A transaction that has inserted a row holds
the advisory lock, and its row follows the committed table; the table cannot grow
under it. The inversion lemmas say what each statement can do. -/
namespace KiteRail.Ledger
open Bytes GoStrconv Prog HashChain

/-- The tip that `appendOnce` builds on, as the statement answers it. -/
lemma latest_valid {rows : List Ledger} (h : ValidChain rows) :
    (rows = [] ∧ DB.latest rows = .error .noRows) ∨
      DB.latest rows = .ok (tip scheme [] rows, rows.length) := by
  rw [DB.latest, selectAfter_of_sorted (.refl _) h.sorted]
  cases he : rows.getLast? with
  | none => exact .inl ⟨List.getLast?_eq_none_iff.mp he, rfl⟩
  | some e =>
    right
    simp only
    rw [getLast?_hash he, h.getLast?_seqNum he]

lemma latest_cases (rows : List Ledger) :
    DB.latest rows = .error .noRows ∨ ∃ tip, DB.latest rows = .ok tip := by
  unfold DB.latest
  split
  · exact .inr ⟨_, rfl⟩
  · exact .inl rfl

lemma follows_sealEntry (rows : List Ledger) (entry : Ledger) (time : Time) :
    Follows rows (sealEntry entry (tip scheme [] rows, rows.length) time) :=
  ⟨rfl, rfl, rfl⟩

@[simp] lemma stored_sealEntry (entry : Ledger) (tip : Bytes × ℤ) (time : Time) :
    DB.stored (sealEntry entry tip time) = sealEntry entry tip time := by
  simp only [DB.stored, sealEntry, normalizeTimestamp, Time.utc, Time.truncateMicros]
  congr 2
  omega

def Tx.inserted : Tx → List Ledger
  | .none => []
  | .open inserted => inserted
  | .closing inserted => inserted

namespace DB
variable {s s' : DB} {t u : ℕ}

@[simp] lemma setTx_rows (x : Tx) : (s.setTx t x).rows = s.rows := rfl
@[simp] lemma setTx_contributed (x : Tx) : (s.setTx t x).contributed u = s.contributed u := rfl
@[simp] lemma setTx_lock (x : Tx) : (s.setTx t x).lock = s.lock := rfl
@[simp] lemma setTx_tx_self (x : Tx) : (s.setTx t x).tx t = x := by simp [setTx]
@[simp] lemma setTx_tx_ne (x : Tx) (h : t ≠ u) : (s.setTx t x).tx u = s.tx u := by
  simp [setTx, Function.update_of_ne (Ne.symm h)]

@[simp] lemma aborted_rows : (s.aborted t).rows = s.rows := rfl
@[simp] lemma aborted_contributed : (s.aborted t).contributed u = s.contributed u := rfl
@[simp] lemma aborted_lock : (s.aborted t).lock = s.released t := rfl
@[simp] lemma aborted_tx_self : (s.aborted t).tx t = .none := setTx_tx_self _
@[simp] lemma aborted_tx_ne (h : t ≠ u) : (s.aborted t).tx u = s.tx u := setTx_tx_ne _ h

@[simp] lemma committed_rows (ins : List Ledger) :
    (s.committed t ins).rows = s.rows ++ ins := by
  simp [rows, committed, setTx, Function.comp_def]

@[simp] lemma committed_lock (ins : List Ledger) : (s.committed t ins).lock = s.released t := rfl
@[simp] lemma committed_tx_self (ins : List Ledger) : (s.committed t ins).tx t = .none :=
  setTx_tx_self _
@[simp] lemma committed_tx_ne (ins : List Ledger) (h : t ≠ u) :
    (s.committed t ins).tx u = s.tx u := setTx_tx_ne _ h

lemma committed_contributed_self (ins : List Ledger) :
    (s.committed t ins).contributed t = s.contributed t + ins.length := by
  simp [contributed, committed, setTx, List.countP_map, Function.comp_def]

lemma committed_contributed_ne (ins : List Ledger) (h : t ≠ u) :
    (s.committed t ins).contributed u = s.contributed u := by
  simp [contributed, committed, setTx, List.countP_map, Function.comp_def, h]

lemma released_of_ne (h : s.lock = some u) (hn : t ≠ u) : s.released t = some u := by
  simp [released, h, Ne.symm hn]

structure Pending (s : DB) (t : ℕ) (row : Ledger) : Prop where
  locked : s.lock = some t
  follows : (s.rows.length : ℤ) ≤ maxInt64 → Follows s.rows row
  unspent : s.contributed t = 0

/-- The invariant of the append system. Once the numbers are used up the table is no
chain any more, and shows it by a number that no chain has. -/
structure Good (s : DB) : Prop where
  chain : (s.rows.length : ℤ) ≤ maxInt64 → ValidChain s.rows
  wrapped : maxInt64 < (s.rows.length : ℤ) →
    ∃ row ∈ s.rows, row.seqNum < 0 ∨ maxInt64 < row.seqNum
  pending : ∀ t, (s.tx t).inserted = [] ∨ ∃ row, (s.tx t).inserted = [row] ∧ s.Pending t row
  once : ∀ t, s.contributed t ≤ 1

/-- What the rest of the system may do to the call `u`: abort its transaction,
settle a commit whose answer was lost, and nothing to the table while `u` holds
the lock in a live transaction. -/
structure Interferes (u : ℕ) (s s' : DB) : Prop where
  idle : s.tx u = .none → s'.tx u = .none ∧ s'.contributed u = s.contributed u
  live : ∀ ins, s.tx u = .open ins →
    (s'.tx u = .open ins ∨ s'.tx u = .none) ∧ s'.contributed u = s.contributed u
  closing : ∀ ins, s.tx u = .closing ins → s'.tx u = .none ∨ s'.tx u = .closing ins
  holder : s.lock = some u → s'.tx u ≠ .none → s'.lock = some u ∧ s'.rows = s.rows

lemma Interferes.refl (u : ℕ) (s : DB) : Interferes u s s :=
  ⟨fun h => ⟨h, rfl⟩, fun _ h => ⟨.inl h, rfl⟩, fun _ h => .inr h, fun h _ => ⟨h, rfl⟩⟩

lemma Interferes.trans {a b c : DB} (h : Interferes u a b) (g : Interferes u b c) :
    Interferes u a c where
  idle ha := ⟨(g.idle (h.idle ha).1).1, (g.idle (h.idle ha).1).2.trans (h.idle ha).2⟩
  live ins ha := by
    obtain ⟨hb, hc⟩ := h.live ins ha
    rcases hb with hb | hb
    · exact ⟨(g.live ins hb).1, (g.live ins hb).2.trans hc⟩
    · exact ⟨.inr (g.idle hb).1, (g.idle hb).2.trans hc⟩
  closing ins ha := by
    rcases h.closing ins ha with hb | hb
    · exact .inl (g.idle hb).1
    · exact g.closing ins hb
  holder ha hc := by
    have hb : b.tx u ≠ .none := fun hb => hc (g.idle hb).1
    obtain ⟨hl, hr⟩ := h.holder ha hb
    obtain ⟨hl', hr'⟩ := g.holder hl hc
    exact ⟨hl', hr'.trans hr⟩

lemma Interferes.frame (htx : s'.tx u = s.tx u) (hc : s'.contributed u = s.contributed u)
    (hl : s.lock = some u → s'.lock = some u ∧ s'.rows = s.rows) : Interferes u s s' :=
  ⟨fun h => ⟨htx.trans h, hc⟩, fun _ h => ⟨.inl (htx.trans h), hc⟩,
    fun _ h => .inr (htx.trans h), fun h _ => hl h⟩

section Updates
variable (h : s.Good)
include h

/-- Whoever has an uncommitted row holds the lock. -/
lemma Good.inserted_nil (hl : s.lock ≠ some t) : (s.tx t).inserted = [] := by
  rcases h.pending t with hn | ⟨_, _, hp⟩
  · exact hn
  · exact absurd hp.locked hl

lemma Good.setTx {x : Tx} (hx : x.inserted = [] ∨ ∃ row, x.inserted = [row] ∧ s.Pending t row) :
    (s.setTx t x).Good where
  chain := h.chain
  wrapped := h.wrapped
  pending u := by
    by_cases hu : t = u
    · subst hu
      rw [setTx_tx_self]
      exact hx.imp_right fun ⟨row, hi, hp⟩ => ⟨row, hi, hp.locked, hp.follows, hp.unspent⟩
    · rw [setTx_tx_ne x hu]
      exact (h.pending u).imp_right fun ⟨row, hi, hp⟩ =>
        ⟨row, hi, hp.locked, hp.follows, hp.unspent⟩
  once := h.once

lemma Good.lockTaken (hl : s.lock = none ∨ s.lock = some t) : Good { s with lock := some t } where
  chain := h.chain
  wrapped := h.wrapped
  pending u := by
    rcases h.pending u with hn | ⟨row, hi, hp⟩
    · exact .inl hn
    · rcases hl with hl | hl
      · exact absurd (hl.symm.trans hp.locked) (by simp)
      · exact .inr ⟨row, hi, hl.symm.trans hp.locked, hp.follows, hp.unspent⟩
  once := h.once

lemma Good.aborted : (s.aborted t).Good where
  chain := h.chain
  wrapped := h.wrapped
  pending u := by
    by_cases hu : t = u
    · subst hu
      exact .inl (by simp [Tx.inserted])
    · rw [aborted_tx_ne hu]
      rcases h.pending u with hn | ⟨row, hi, hp⟩
      · exact .inl hn
      · exact .inr ⟨row, hi, released_of_ne hp.locked hu, hp.follows, hp.unspent⟩
  once := h.once

lemma Good.concat {row : Ledger} (hp : s.Pending t row) :
    (((s.rows ++ [row]).length : ℤ) ≤ maxInt64 → ValidChain (s.rows ++ [row])) ∧
      (maxInt64 < ((s.rows ++ [row]).length : ℤ) →
        ∃ e ∈ s.rows ++ [row], e.seqNum < 0 ∨ maxInt64 < e.seqNum) := by
  rw [List.length_append, List.length_singleton]
  push_cast
  refine ⟨fun hle => ?_, fun hlt => ?_⟩
  · exact (h.chain (by omega)).concat (hp.follows (by omega)) (by omega)
  · rcases (show maxInt64 ≤ (s.rows.length : ℤ) by omega).eq_or_lt with hfull | hover
    · have hseq := (hp.follows hfull.ge).seq_wraps hfull.symm
      refine ⟨row, by simp, .inl ?_⟩
      rw [hseq, GoTime.maxInt64_eq]
      decide
    · obtain ⟨e, he, hout⟩ := h.wrapped hover
      exact ⟨e, List.mem_append_left _ he, hout⟩

lemma Good.committed : (s.committed t (s.tx t).inserted).Good := by
  have hother : ∀ u, t ≠ u → (s.tx t).inserted ≠ [] → (s.tx u).inserted = [] := by
    intro u hu hne
    rcases h.pending t with hn | ⟨_, _, hp⟩
    · exact absurd hn hne
    · exact h.inserted_nil (by simp [hp.locked, hu])
  have hrows : (((s.rows ++ (s.tx t).inserted).length : ℤ) ≤ maxInt64 →
      ValidChain (s.rows ++ (s.tx t).inserted)) ∧
      (maxInt64 < ((s.rows ++ (s.tx t).inserted).length : ℤ) →
        ∃ e ∈ s.rows ++ (s.tx t).inserted, e.seqNum < 0 ∨ maxInt64 < e.seqNum) := by
    rcases h.pending t with hn | ⟨row, hi, hp⟩
    · rw [hn, List.append_nil]
      exact ⟨h.chain, h.wrapped⟩
    · rw [hi]
      exact h.concat hp
  refine ⟨?_, ?_, fun u => ?_, fun u => ?_⟩
  · rw [committed_rows]
    exact hrows.1
  · rw [committed_rows]
    exact hrows.2
  · by_cases hu : t = u
    · subst hu
      exact .inl (by simp [Tx.inserted])
    · rw [committed_tx_ne _ hu]
      by_cases hne : (s.tx t).inserted = []
      · rcases h.pending u with hn | ⟨row, hi, hp⟩
        · exact .inl hn
        · refine .inr ⟨row, hi, released_of_ne hp.locked hu, ?_, ?_⟩
          · simpa [hne] using hp.follows
          · rw [committed_contributed_ne _ hu]
            exact hp.unspent
      · exact .inl (hother u hu hne)
  · by_cases hu : t = u
    · subst hu
      rw [committed_contributed_self]
      rcases h.pending t with hn | ⟨row, hi, hp⟩
      · simpa [hn] using h.once t
      · simp [hi, hp.unspent]
    · rw [committed_contributed_ne _ hu]
      exact h.once u

lemma Interferes.committed (hu : t ≠ u) :
    Interferes u s (s.committed t (s.tx t).inserted) := by
  refine .frame (committed_tx_ne _ hu) (committed_contributed_ne _ hu) fun hl => ?_
  refine ⟨released_of_ne hl hu, ?_⟩
  rw [committed_rows, h.inserted_nil (by simp [hl, Ne.symm hu]), List.append_nil]

end Updates

lemma Interferes.aborted (hu : t ≠ u) : Interferes u s (s.aborted t) :=
  .frame (aborted_tx_ne hu) rfl fun hl => ⟨released_of_ne hl hu, rfl⟩

lemma Interferes.setTx (x : Tx) (hu : t ≠ u) : Interferes u s (s.setTx t x) :=
  .frame (setTx_tx_ne x hu) rfl fun hl => ⟨hl, rfl⟩

lemma Interferes.lockTaken (hl : s.lock = none ∨ s.lock = some t) (hu : t ≠ u) :
    Interferes u s { s with lock := some t } := by
  refine .frame rfl rfl fun hlock => ?_
  rcases hl with hl | hl
  · simp [hl] at hlock
  · exact absurd (Option.some.inj (hl.symm.trans hlock)) hu

/-- Aborting the call's own transaction is interference it must expect. -/
lemma Interferes.abortedSelf : Interferes t s (s.aborted t) where
  idle _ := ⟨aborted_tx_self, rfl⟩
  live _ _ := ⟨.inr aborted_tx_self, rfl⟩
  closing _ _ := .inl aborted_tx_self
  holder _ hn := absurd aborted_tx_self hn

lemma Interferes.settledSelf {ins : List Ledger} (htx : s.tx t = .closing ins) :
    Interferes t s (s.committed t ins) where
  idle h := by simp [htx] at h
  live _ h := by simp [htx] at h
  closing _ _ := .inl (committed_tx_self _)
  holder _ hn := absurd (committed_tx_self _) hn

lemma fault_cases {f : Fault} (hf : fault f s = some s') :
    (∃ t, s' = s.aborted t) ∨
      ∃ t ins, s.tx t = .closing ins ∧ s' = s.committed t ins := by
  cases f with
  | abort t =>
    simp only [fault] at hf
    split at hf
    · simp at hf
    · exact .inl ⟨t, (Option.some.inj hf).symm⟩
  | settle t =>
    simp only [fault] at hf
    split at hf
    · rename_i ins htx
      exact .inr ⟨t, ins, htx, (Option.some.inj hf).symm⟩
    · simp at hf

lemma lose_cases (t : ℕ) (s : DB) : lose t s = s ∨ lose t s = s.aborted t := by
  unfold lose
  split
  · exact .inr rfl
  · exact .inl rfl

/-- Rely/guarantee for appends: every operation interferes with every other call
only as that call expects. -/
def discipline : Discipline machine.semantics where
  inv := Good
  fresh t s := s.tx t = .none ∧ s.contributed t = 0
  guar t _ s _ s' := ∀ u, t ≠ u → Interferes u s s'
  rely := Interferes
  rely_refl := Interferes.refl
  rely_trans _ _ _ _ h g := h.trans g
  rely_guar _ u _ _ _ _ hu _ hg := hg u hu
  rely_env u s s' hi he := by
    obtain ⟨f, hf⟩ := he
    rcases fault_cases hf with ⟨t, rfl⟩ | ⟨t, ins, htx, rfl⟩
    · by_cases hu : t = u
      · exact hu ▸ Interferes.abortedSelf
      · exact Interferes.aborted hu
    · by_cases hu : t = u
      · subst hu
        exact Interferes.settledSelf htx
      · have := Interferes.committed hi hu
        rwa [htx] at this
  rely_lose t u s hu hi := by
    rcases lose_cases t s with he | he <;> simp only [machine, Machine.semantics, he]
    · exact .refl u s
    · exact Interferes.aborted hu
  fresh_rely t s s' hf hr := ⟨(hr.idle hf.1).1, (hr.idle hf.1).2.trans hf.2⟩
  inv_env s s' hi he := by
    obtain ⟨f, hf⟩ := he
    rcases fault_cases hf with ⟨t, rfl⟩ | ⟨t, ins, htx, rfl⟩
    · exact hi.aborted
    · have := hi.committed (t := t)
      rwa [htx] at this
  inv_lose t s hi := by
    rcases lose_cases t s with he | he <;> simp only [machine, Machine.semantics, he]
    · exact hi
    · exact hi.aborted

section Statements
variable {r : Option GoError}

attribute [local simp] machine answer

lemma exec_beginTx (h : machine.semantics.exec t .beginTx s r s') :
    (r = none ∧ s.tx t = .none ∧ s' = s.setTx t (.open [])) ∨ (r.isSome ∧ s' = s) := by
  obtain ⟨ch, h⟩ := h
  cases ch <;> cases htx : s.tx t <;> simp [htx] at h <;> grind

lemma exec_lockChain (h : machine.semantics.exec t .lockChain s r s') :
    (r.isSome ∧ s' = s) ∨ ((s.lock = none ∨ s.lock = some t) ∧ s' = { s with lock := some t }) := by
  obtain ⟨ch, h⟩ := h
  cases ch <;> cases htx : s.tx t <;> simp [htx] at h <;> grind

lemma exec_getLatestLedgerEntry {r : Except GoError (Bytes × ℤ)}
    (h : machine.semantics.exec t .getLatestLedgerEntry s r s') :
    s' = s ∧ ((∃ ins, s.tx t = .open ins ∧ r = latest (s.rows ++ ins)) ∨
      ∃ err, GoError.is .noRows err = false ∧ r = .error err) := by
  obtain ⟨ch, h⟩ := h
  cases ch <;> cases htx : s.tx t <;> simp [htx] at h <;> grind

lemma exec_now {r : Time} (h : machine.semantics.exec t .now s r s') : s' = s := by
  obtain ⟨ch, h⟩ := h
  cases ch <;> simp at h
  exact h.2.symm

lemma exec_insertLedgerEntry {entry : Ledger}
    (h : machine.semantics.exec t (.insertLedgerEntry entry) s r s') :
    (r.isSome ∧ s' = s) ∨
      ∃ ins, s.tx t = .open ins ∧ s' = s.setTx t (.open (ins ++ [stored entry])) := by
  obtain ⟨ch, h⟩ := h
  cases ch <;> cases htx : s.tx t <;> simp [htx] at h <;> grind

lemma exec_commit (h : machine.semantics.exec t .commit s r s') :
    (r = none ∧ ∃ ins, s.tx t = .open ins ∧ s' = s.committed t ins) ∨
      (∃ err ins, r = some err ∧ isSerializationFailure err = false ∧ s.tx t = .open ins ∧
        s' = s.setTx t (.closing ins)) ∨
      (r.isSome ∧ s' = s.aborted t) ∨ (r.isSome ∧ s.tx t = .none ∧ s' = s) := by
  obtain ⟨ch, h⟩ := h
  cases ch <;> cases htx : s.tx t <;> simp [htx] at h <;> grind

lemma exec_rollback {r : Unit} (h : machine.semantics.exec t .rollback s r s') :
    ((∃ ins, s.tx t = .open ins) ∧ s' = s.aborted t) ∨
      ((∀ ins, s.tx t ≠ .open ins) ∧ s' = s) := by
  obtain ⟨ch, h⟩ := h
  cases ch <;> cases htx : s.tx t <;> simp [htx] at h <;> grind

lemma exec_backoff {n : ℕ} (h : machine.semantics.exec t (.backoff n) s r s') : s' = s := by
  obtain ⟨ch, h⟩ := h
  cases ch <;> simp at h <;> grind

end Statements

end DB
end KiteRail.Ledger
