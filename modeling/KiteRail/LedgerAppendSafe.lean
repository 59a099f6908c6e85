import KiteRail.LedgerAppendInvariant

namespace KiteRail.Ledger
open Bytes GoStrconv Prog HashChain

namespace DB
variable {s s' : DB} {t u : ℕ}

/-! The proof outline of a call. -/

/-- No row of the call is committed, nor asked to be. -/
def Unspent (t : ℕ) (s : DB) : Prop :=
  (s.tx t = .none ∨ ∃ ins, s.tx t = .open ins) ∧ s.contributed t = 0

def Idle (t : ℕ) (s : DB) : Prop := s.tx t = .none ∧ s.contributed t = 0

def Spent (t : ℕ) (s : DB) : Prop := s.tx t = .none ∧ s.contributed t = 1

def InTx (t : ℕ) (s : DB) : Prop :=
  (s.tx t = .none ∨ s.tx t = .open []) ∧ s.contributed t = 0

/-- As long as its transaction lives, the call holds the lock. -/
def Locked (t : ℕ) (s : DB) : Prop := InTx t s ∧ (s.tx t ≠ .none → s.lock = some t)

/-- As long as its transaction lives, the tip the call read is the table's. -/
def AtTip (t : ℕ) (tp : Bytes × ℤ) (s : DB) : Prop :=
  InTx t s ∧ (s.tx t ≠ .none → s.lock = some t ∧
    ((s.rows.length : ℤ) ≤ maxInt64 → tp = (tip scheme [] s.rows, (s.rows.length : ℤ))))

lemma InTx.unspent (h : InTx t s) : Unspent t s := ⟨h.1.imp_right fun he => ⟨[], he⟩, h.2⟩

lemma stable_unspent (t : ℕ) : discipline.Stable t (Unspent t) := by
  rintro s s' ⟨htx | ⟨ins, htx⟩, hc⟩ hr
  · exact ⟨.inl (hr.idle htx).1, (hr.idle htx).2.trans hc⟩
  · obtain ⟨ho, hc'⟩ := hr.live ins htx
    exact ⟨ho.symm.imp_right fun he => ⟨ins, he⟩, hc'.trans hc⟩

lemma stable_idle (t : ℕ) : discipline.Stable t (Idle t) :=
  fun _ _ h hr => ⟨(hr.idle h.1).1, (hr.idle h.1).2.trans h.2⟩

lemma stable_spent (t : ℕ) : discipline.Stable t (Spent t) :=
  fun _ _ h hr => ⟨(hr.idle h.1).1, (hr.idle h.1).2.trans h.2⟩

lemma stable_inTx (t : ℕ) : discipline.Stable t (InTx t) := by
  rintro s s' ⟨htx | htx, hc⟩ hr
  · exact ⟨.inl (hr.idle htx).1, (hr.idle htx).2.trans hc⟩
  · obtain ⟨ho, hc'⟩ := hr.live _ htx
    exact ⟨ho.symm, hc'.trans hc⟩

lemma stable_locked (t : ℕ) : discipline.Stable t (Locked t) := by
  rintro s s' ⟨hin, hl⟩ hr
  refine ⟨stable_inTx t s s' hin hr, fun hn => ?_⟩
  have hs : s.tx t ≠ .none := fun he => hn (hr.idle he).1
  exact (hr.holder (hl hs) hn).1

lemma stable_atTip (t : ℕ) (tp : Bytes × ℤ) : discipline.Stable t (AtTip t tp) := by
  rintro s s' ⟨hin, hl⟩ hr
  refine ⟨stable_inTx t s s' hin hr, fun hn => ?_⟩
  have hs : s.tx t ≠ .none := fun he => hn (hr.idle he).1
  obtain ⟨hlock, htip⟩ := hl hs
  obtain ⟨hlock', hrows⟩ := hr.holder hlock hn
  exact ⟨hlock', hrows ▸ htip⟩

/-- How one attempt ends: with its row, or, when it may be retried, without one. -/
def Outcome (t : ℕ) (res : Option GoError) (s : DB) : Prop :=
  match res with
  | none => Spent t s
  | some err => isSerializationFailure err = true → Unspent t s

lemma stable_outcome (t : ℕ) (res : Option GoError) :
    discipline.Stable t (Outcome t res) := by
  cases res with
  | none => exact stable_spent t
  | some err => exact fun s s' h hr hser => stable_unspent t s s' (h hser) hr

lemma wp_ret_outcome {res : Option GoError} (h : Outcome t res s) :
    discipline.wp t (.ret res) (Outcome t) s :=
  Discipline.wp_ret h (stable_outcome t res) fun _ h _ => h

lemma wp_commit (h : Unspent t s)
    (hrow : ∀ ins, s.tx t = .open ins → ins.length = 1) :
    discipline.wp t (.call .commit .ret) (Outcome t) s := by
  refine Discipline.wp_call (A := fun s => Unspent t s ∧ ∀ ins, s.tx t = .open ins → ins.length = 1)
    ⟨h, hrow⟩ ?_ ?_
  · rintro s s' ⟨hun, hone⟩ hr
    refine ⟨stable_unspent t s s' hun hr, fun ins hins => ?_⟩
    rcases hun.1 with htx | ⟨ins', htx⟩
    · simp [(hr.idle htx).1] at hins
    · rcases (hr.live ins' htx).1 with he | he
      · exact hone ins (htx.trans (he.symm.trans hins))
      · simp [he] at hins
  · rintro s r s' ⟨hun, hone⟩ hi hx
    rcases exec_commit hx with ⟨rfl, ins, htx, rfl⟩ | ⟨err, ins, rfl, hser, htx, rfl⟩ |
      ⟨hr, rfl⟩ | ⟨hr, htx, rfl⟩
    · have hins : (s.tx t).inserted = ins := by rw [htx]; rfl
      refine ⟨hins ▸ hi.committed, fun u hu => hins ▸ Interferes.committed hi hu, ?_⟩
      refine wp_ret_outcome ⟨committed_tx_self _, ?_⟩
      rw [committed_contributed_self, hun.2, hone ins htx]
    · refine ⟨hi.setTx ?_, fun u hu => .setTx _ hu, wp_ret_outcome ?_⟩
      · have := hi.pending t
        rwa [htx] at this
      · intro hs
        simp [hser] at hs
    · obtain ⟨err, rfl⟩ := Option.isSome_iff_exists.mp hr
      exact ⟨hi.aborted, fun u hu => .aborted hu, wp_ret_outcome fun _ =>
        ⟨.inl aborted_tx_self, hun.2⟩⟩
    · obtain ⟨err, rfl⟩ := Option.isSome_iff_exists.mp hr
      exact ⟨hi, fun u _ => .refl u _, wp_ret_outcome fun _ => hun⟩

lemma wp_insertAfter {tp : Bytes × ℤ} (entry : Ledger) (time : Time) (h : AtTip t tp s) :
    discipline.wp t (insertAfter entry tp time) (Outcome t) s := by
  refine Discipline.wp_call h (stable_atTip t tp) ?_
  rintro s r s' ⟨hin, htip⟩ hi hx
  rcases exec_insertLedgerEntry hx with ⟨hr, rfl⟩ | ⟨ins, htx, rfl⟩
  · obtain ⟨err, rfl⟩ := Option.isSome_iff_exists.mp hr
    exact ⟨hi, fun u _ => .refl u _, wp_ret_outcome fun _ => hin.unspent⟩
  · have hnil : ins = [] := by simpa [htx] using hin.1
    subst hnil
    obtain ⟨hlock, htip⟩ := htip (by simp [htx])
    have hpending : s.Pending t (stored (sealEntry entry tp time)) := by
      refine ⟨hlock, fun hle => ?_, hin.2⟩
      rw [stored_sealEntry, htip hle]
      exact follows_sealEntry s.rows entry time
    have hgood : (s.setTx t (.open ([] ++ [stored (sealEntry entry tp time)]))).Good :=
      hi.setTx (.inr ⟨_, rfl, hpending⟩)
    have hun : Unspent t (s.setTx t (.open ([] ++ [stored (sealEntry entry tp time)]))) :=
      ⟨.inr ⟨_, setTx_tx_self _⟩, hin.2⟩
    refine ⟨hgood, fun u hu => .setTx _ hu, ?_⟩
    cases r with
    | some err => exact wp_ret_outcome fun _ => hun
    | none =>
      refine wp_commit hun fun ins hins => ?_
      rw [setTx_tx_self] at hins
      injection hins with hins
      simp [← hins]

lemma wp_stampAfter {tp : Bytes × ℤ} (entry : Ledger) (h : AtTip t tp s) :
    discipline.wp t (stampAfter entry tp) (Outcome t) s := by
  unfold stampAfter
  split
  · refine Discipline.wp_call h (stable_atTip t tp) ?_
    intro s r s' h hi hx
    obtain rfl := exec_now hx
    exact ⟨hi, fun u _ => .refl u _, wp_insertAfter entry r h⟩
  · exact wp_insertAfter entry _ h

lemma wp_appendInTx (entry : Ledger) (h : InTx t s) :
    discipline.wp t (appendInTx entry) (Outcome t) s := by
  refine Discipline.wp_call h (stable_inTx t) ?_
  intro s r s' hin hi hx
  have hstep : s'.Good ∧ (∀ u, t ≠ u → Interferes u s s') ∧ InTx t s' ∧
      (r = none → Locked t s') := by
    rcases exec_lockChain hx with ⟨hr, rfl⟩ | ⟨hl, rfl⟩
    · exact ⟨hi, fun u _ => .refl u _, hin, fun hn => by simp [hn] at hr⟩
    · exact ⟨hi.lockTaken hl, fun u hu => .lockTaken hl hu, hin, fun _ => ⟨hin, fun _ => rfl⟩⟩
  obtain ⟨hi', hg, hin', hlocked⟩ := hstep
  refine ⟨hi', hg, ?_⟩
  cases r with
  | some err => exact wp_ret_outcome fun _ => hin'.unspent
  | none =>
    refine Discipline.wp_call (hlocked rfl) (stable_locked t) ?_
    rintro s r s' ⟨hin, hlock⟩ hi hx
    obtain ⟨rfl, hr⟩ := exec_getLatestLedgerEntry hx
    refine ⟨hi, fun u _ => .refl u _, ?_⟩
    rcases hr with ⟨ins, htx, rfl⟩ | ⟨err, hno, rfl⟩
    · have hnil : ins = [] := by simpa [htx] using hin.1
      subst hnil
      have hl := hlock (by simp [htx])
      rw [List.append_nil]
      rcases latest_cases s'.rows with he | ⟨tp, he⟩
      · rw [he]
        refine wp_stampAfter entry ⟨hin, fun _ => ⟨hl, fun hle => ?_⟩⟩
        rcases latest_valid (hi.chain hle) with ⟨hrows, -⟩ | hok
        · simp [hrows, tip]
        · simp [he] at hok
      · rw [he]
        refine wp_stampAfter entry ⟨hin, fun _ => ⟨hl, fun hle => ?_⟩⟩
        rcases latest_valid (hi.chain hle) with ⟨-, hnone⟩ | hok
        · simp [he] at hnone
        · exact Except.ok.inj (he.symm.trans hok)
    · change discipline.wp t (if GoError.is .noRows err then _ else _) _ _
      rw [if_neg (by simp [hno])]
      exact wp_ret_outcome fun _ => hin.unspent

/-- How an attempt has ended once its transaction is rolled back. -/
def Ended (t : ℕ) (res : Option GoError) (s : DB) : Prop :=
  match res with
  | none => Spent t s
  | some err => isSerializationFailure err = true → Idle t s

lemma stable_ended (t : ℕ) (res : Option GoError) : discipline.Stable t (Ended t res) := by
  cases res with
  | none => exact stable_spent t
  | some err => exact fun s s' h hr hser => stable_idle t s s' (h hser) hr

lemma wp_ret_ended {res : Option GoError} (h : Ended t res s) :
    discipline.wp t (.ret res) (Ended t) s :=
  Discipline.wp_ret h (stable_ended t res) fun _ h _ => h

lemma wp_rollback {res : Option GoError} (h : Outcome t res s) :
    discipline.wp t (.call .rollback fun _ => .ret res) (Ended t) s := by
  refine Discipline.wp_call h (stable_outcome t res) ?_
  intro s r s' h hi hx
  rcases exec_rollback hx with ⟨⟨ins, htx⟩, rfl⟩ | ⟨hno, rfl⟩
  · refine ⟨hi.aborted, fun u hu => .aborted hu, wp_ret_ended ?_⟩
    cases res with
    | none => exact absurd (htx.symm.trans h.1) (by simp)
    | some err => exact fun hser => ⟨aborted_tx_self, (h hser).2⟩
  · refine ⟨hi, fun u _ => .refl u _, wp_ret_ended ?_⟩
    cases res with
    | none => exact h
    | some err =>
      intro hser
      obtain ⟨htx | ⟨ins, htx⟩, hc⟩ := h hser
      · exact ⟨htx, hc⟩
      · exact absurd htx (hno ins)

lemma wp_appendOnce (entry : Ledger) (h : Idle t s) :
    discipline.wp t (appendOnce entry) (Ended t) s := by
  refine Discipline.wp_call h (stable_idle t) ?_
  intro s r s' h hi hx
  rcases exec_beginTx hx with ⟨rfl, htx, rfl⟩ | ⟨hr, rfl⟩
  · have hi' : (s.setTx t (.open [])).Good := hi.setTx (.inl rfl)
    refine ⟨hi', fun u hu => .setTx _ hu, ?_⟩
    change discipline.wp t (appendInTx entry >>= fun res => .call .rollback fun _ => .ret res) _ _
    refine Discipline.wp_bind hi' ?_
    exact Discipline.wp_mono (wp_appendInTx entry ⟨.inr (setTx_tx_self _), h.2⟩)
      fun res s' _ hout => wp_rollback hout
  · obtain ⟨err, rfl⟩ := Option.isSome_iff_exists.mp hr
    exact ⟨hi, fun u _ => .refl u _, wp_ret_ended fun _ => h⟩

/-- What a finished call knows: it inserted exactly one row if it reports success. -/
def Appended (t : ℕ) (res : Option GoError) (s : DB) : Prop := res = none → s.contributed t = 1

lemma wp_ret_error (err : GoError) : discipline.wp t (.ret (some err)) (Appended t) s :=
  fun _ _ _ he => nomatch he

/-- The loop retries only when nothing of the call can be committed any more. -/
lemma wp_retryFrom (entry : Ledger) (left attempt : ℕ) (h : Idle t s) (hi : s.Good) :
    discipline.wp t (retryFrom entry left attempt) (Appended t) s := by
  induction left generalizing attempt s with
  | zero => exact wp_ret_error _
  | succ left ih =>
    refine Discipline.wp_bind hi (Discipline.wp_mono (wp_appendOnce entry h) ?_)
    intro res s hi hend
    cases res with
    | none => exact Discipline.wp_ret hend (stable_spent t) fun _ hs _ _ => hs.2
    | some err =>
      change discipline.wp t (if _ then _ else _) _ _
      split
      · rename_i hretry
        have hser : isSerializationFailure err = true := (Bool.and_eq_true_iff.mp hretry).1
        refine Discipline.wp_call (hend hser) (stable_idle t) ?_
        intro s r s' hidle hi hx
        obtain rfl := exec_backoff hx
        refine ⟨hi, fun u _ => .refl u _, ?_⟩
        cases r with
        | some cause => exact wp_ret_error _
        | none => exact ih (attempt + 1) hidle hi
      · exact wp_ret_error _

theorem sound_run {base : List Ledger} (hbase : ValidChain base)
    {ls : List (Label AppendOp AppendRes)} {c : Pool AppendOp AppendRes DB (Option GoError)}
    (hr : Run machine.semantics AppendCall (Pool.initial (ofRows base)) ls c) :
    Discipline.Sound discipline Appended c := by
  refine Discipline.Sound.run ?_ (Discipline.Sound.initial ?_ ?_) hr
  · rintro p t s ⟨entry, rfl⟩ hi hf
    exact wp_retryFrom entry maxRetries 0 hf hi
  · have hrows : (ofRows base).rows = base := by simp [ofRows, rows]
    refine ⟨fun _ => ?_, fun hlt => ?_, fun _ => .inl rfl, fun _ => by simp [ofRows, contributed]⟩
    · rwa [hrows]
    · rw [hrows] at hlt ⊢
      exact hbase.number_out_of_range hlt
  · exact fun t => ⟨rfl, by simp [ofRows, contributed]⟩

end DB

section Growth
variable {c : Pool AppendOp AppendRes DB (Option GoError)} {entry : Ledger}

structure DB.Quiet (s : DB) : Prop where
  lock : s.lock = none
  tx : ∀ t, s.tx t = .none

def nextRow (rows : List Ledger) (entry : Ledger) : Ledger :=
  sealEntry entry (tip scheme [] rows, rows.length) entry.timestamp

lemma nextRow_agent (rows : List Ledger) (entry : Ledger) :
    (nextRow rows entry).agent = entry.agent := by
  unfold nextRow sealEntry
  -- the hash must not be computed to see that the agent is another field
  generalize calculateHash _ = hash
  rfl

lemma follows_nextRow (rows : List Ledger) (entry : Ledger) : Follows rows (nextRow rows entry) :=
  follows_sealEntry rows entry entry.timestamp

/-- A call that nobody disturbs appends its row. -/
lemma append_alone {s : DB} (hq : s.Quiet) (hstamp : entry.timestamp.isZero = false)
    (hchain : ValidChain s.rows) (hadmits : DB.Admits s.rows (nextRow s.rows entry).seqNum)
    (t : ℕ) : ∃ s', Alone DB.machine.semantics t (append entry) s none s' ∧ s'.Quiet ∧
      s'.rows = s.rows ++ [nextRow s.rows entry] := by
  set s₁ := s.setTx t (.open [])
  set s₂ : DB := { s₁ with lock := some t }
  set s₃ := s₂.setTx t (.open [nextRow s.rows entry])
  set s₄ := s₃.committed t [nextRow s.rows entry]
  have hopen : s₂.tx t = .open [] := DB.setTx_tx_self _
  have hbegin : DB.machine.semantics.exec t .beginTx s none s₁ :=
    ⟨.ok, by simp [DB.machine, DB.answer, hq.tx t, s₁]⟩
  have hlock : DB.machine.semantics.exec t .lockChain s₁ none s₂ :=
    ⟨.ok, by simp [DB.machine, DB.answer, s₁, s₂, hq.lock]⟩
  have hlatest : DB.machine.semantics.exec t .getLatestLedgerEntry s₂ (DB.latest s.rows) s₂ := by
    refine ⟨.ok, ?_⟩
    simp only [DB.machine, DB.answer, hopen, List.append_nil]
    rfl
  have hinsert : DB.machine.semantics.exec t (.insertLedgerEntry (nextRow s.rows entry)) s₂ none
      s₃ := by
    refine ⟨.ok, ?_⟩
    have hadm : DB.Admits (s₂.rows ++ []) (nextRow s.rows entry).seqNum := by
      rwa [List.append_nil]
    simp only [DB.machine, DB.answer, hopen, if_pos hadm]
    simp [s₃, nextRow]
  have hcommit : DB.machine.semantics.exec t .commit s₃ none s₄ :=
    ⟨.ok, by simp [DB.machine, DB.answer, s₃, s₄]⟩
  have hrollback : DB.machine.semantics.exec t .rollback s₄ () s₄ :=
    ⟨.ok, by simp [DB.machine, DB.answer, s₄]⟩
  have htail : Alone DB.machine.semantics t (insertAfter entry (tip scheme [] s.rows,
      s.rows.length) entry.timestamp) s₂ none s₄ := .call hinsert (.call hcommit (.ret _ _))
  have hstamped : Alone DB.machine.semantics t (stampAfter entry (tip scheme [] s.rows,
      s.rows.length)) s₂ none s₄ := by
    rwa [stampAfter, if_neg (by simp [hstamp])]
  have hin : Alone DB.machine.semantics t (appendInTx entry) s₁ none s₄ := by
    refine .call hlock (.call hlatest ?_)
    rcases latest_valid hchain with ⟨hrows, he⟩ | he
    · rw [he]
      simp only [hrows, tip, List.length_nil, Nat.cast_zero] at hstamped
      exact hstamped
    · rw [he]
      exact hstamped
  have honce : Alone DB.machine.semantics t (appendOnce entry) s none s₄ :=
    .call hbegin (hin.bind (.call hrollback (.ret _ _)))
  refine ⟨s₄, honce.bind (.ret _ _), ⟨?_, fun u => ?_⟩, ?_⟩
  · simp [s₄, s₃, s₂, DB.released]
  · by_cases hu : t = u
    · subst hu
      exact DB.committed_tx_self _
    · rw [DB.committed_tx_ne _ hu, DB.setTx_tx_ne _ hu]
      exact (DB.setTx_tx_ne _ hu).trans (hq.tx u)
  · simp [s₄, s₃, s₂, s₁]
    rfl

lemma append_run {base : List Ledger} (hbase : ValidChain base)
    {ls : List (Label AppendOp AppendRes)}
    (hr : Run DB.machine.semantics AppendCall (Pool.initial (DB.ofRows base)) ls c)
    (hq : c.shared.Quiet) (hle : (c.shared.rows.length : ℤ) ≤ maxInt64)
    (hstamp : entry.timestamp.isZero = false) :
    ∃ ms d, Run DB.machine.semantics AppendCall c ms d ∧ d.shared.Quiet ∧
      d.shared.rows = c.shared.rows ++ [nextRow c.shared.rows entry] := by
  have hchain := (DB.sound_run hbase hr).inv.chain hle
  have hadmits : DB.Admits c.shared.rows (nextRow c.shared.rows entry).seqNum := by
    have hf := follows_nextRow c.shared.rows entry
    refine ⟨(GoTime.wrap64_bounds _).1, (GoTime.wrap64_bounds _).2, fun hmem => ?_⟩
    rw [hchain.seq] at hmem
    obtain ⟨i, hi, hseq⟩ := List.mem_map.mp hmem
    rw [List.mem_range] at hi
    -- a new number is above all others or, after the last one, below them
    rcases hle.lt_or_eq with hlt | hfull
    · rw [hf.seq_eq hlt] at hseq
      omega
    · rw [hf.seq_wraps hfull, GoTime.maxInt64_eq] at hseq
      omega
  obtain ⟨s, halone, hquiet, hrows⟩ := append_alone hq hstamp hchain hadmits c.next
  let started : Pool AppendOp AppendRes DB (Option GoError) :=
    ⟨c.shared, Function.update c.thread c.next (some (append entry)), c.next + 1⟩
  have hstart : Step DB.machine.semantics AppendCall c (.start c.next) started :=
    .start ⟨entry, rfl⟩
  have hthread : started.thread c.next = some (append entry) := Function.update_self ..
  obtain ⟨ms, d, hrun, rfl, -⟩ : ∃ ms d, Run DB.machine.semantics AppendCall started ms d ∧
      d.shared = s ∧ d.thread c.next = some (.ret none) := halone.run rfl hthread
  exact ⟨_, d, (Run.snoc (.nil c) hstart).trans hrun, hquiet, hrows⟩

/-- Appends build ledgers of every length that 64-bit numbers allow. -/
lemma append_many {base : List Ledger} (hbase : ValidChain base)
    {ls : List (Label AppendOp AppendRes)}
    (hr : Run DB.machine.semantics AppendCall (Pool.initial (DB.ofRows base)) ls c)
    (hq : c.shared.Quiet) (hstamp : entry.timestamp.isZero = false) {n : ℕ}
    (hn : ((c.shared.rows.length + n : ℕ) : ℤ) ≤ maxInt64) :
    ∃ ms d more, Run DB.machine.semantics AppendCall c ms d ∧ d.shared.Quiet ∧
      d.shared.rows = c.shared.rows ++ more ∧ more.length = n ∧
      ∀ e ∈ more, e.agent = entry.agent := by
  induction n with
  | zero => exact ⟨[], c, [], .nil c, hq, by simp, rfl, by simp⟩
  | succ n ih =>
    push_cast at hn ih
    obtain ⟨ms, d, more, hrun, hq', hrows, hlen, hagent⟩ := ih (by omega)
    have hroom : (d.shared.rows.length : ℤ) ≤ maxInt64 := by
      rw [hrows, List.length_append, hlen]
      omega
    obtain ⟨ms', d', hrun', hq'', hrows'⟩ := append_run hbase (hr.trans hrun) hq' hroom hstamp
    refine ⟨_, d', more ++ [nextRow d.shared.rows entry], hrun.trans hrun', hq'', ?_, ?_, ?_⟩
    · rw [hrows', hrows, List.append_assoc]
    · rw [List.length_append, hlen, List.length_singleton]
    · intro e he
      rcases List.mem_append.mp he with he | he
      · exact hagent e he
      · rw [List.mem_singleton.mp he, nextRow_agent]

lemma exists_full_ledger (hstamp : entry.timestamp.isZero = false) :
    ∃ ls c, Run DB.machine.semantics AppendCall (Pool.initial (DB.ofRows [])) ls c ∧
      c.shared.Quiet ∧ (c.shared.rows.length : ℤ) = maxInt64 := by
  have hempty : (Pool.initial (DB.ofRows []) : Pool AppendOp AppendRes DB (Option GoError)
    ).shared.rows = [] := rfl
  obtain ⟨ls, c, more, hr, hq, hrows, hlen, -⟩ := append_many (n := maxInt64.toNat)
    validChain_nil (.nil _) ⟨rfl, fun _ => rfl⟩ hstamp (by rw [hempty]; decide)
  refine ⟨ls, c, hr, hq, ?_⟩
  rw [hrows, hempty, List.nil_append, hlen]
  decide

/-- After the last number the next row is the first one in the order of the numbers. -/
lemma verifyTable_nextRow {rows : List Ledger} (h : ValidChain rows)
    (hfull : (rows.length : ℤ) = maxInt64) (anchor : Option Anchor) :
    (verifyTable anchor (rows ++ [nextRow rows entry])).1.valid = false := by
  have hf := follows_nextRow rows entry
  have hsorted : (nextRow rows entry :: rows).Pairwise fun a b => a.seqNum < b.seqNum := by
    refine List.pairwise_cons.mpr ⟨fun e he => ?_, h.sorted⟩
    obtain ⟨i, hi⟩ := List.mem_iff_getElem?.mp he
    rw [hf.seq_wraps hfull, h.seqNum_of_getElem? hi, GoTime.maxInt64_eq]
    omega
  have hsel := selectAfter_of_sorted (List.perm_append_singleton _ _) hsorted
  rw [Bool.eq_false_iff, ne_eq, verifyTable_valid_iff, hsel]
  rintro ⟨⟨hlinked, -⟩, -⟩
  -- the row links to the end of the chain, which is not empty
  obtain ⟨last, hlast⟩ : ∃ last, rows.getLast? = some last := by
    refine Option.ne_none_iff_exists'.mp fun hnone => ?_
    rw [List.getLast?_eq_none_iff.mp hnone, GoTime.maxInt64_eq] at hfull
    simp at hfull
  have hprev : tip scheme [] rows = [] := hlinked.1
  have hstored : last.hash = last.calculateHash :=
    h.linked.stored_eq (List.mem_of_getLast? hlast)
  rw [← getLast?_hash hlast, hstored] at hprev
  exact calculateHash_ne_nil last hprev

end Growth

/-- Concurrent appends from any number of replicas, with any failures: at every
moment, until the 64-bit numbers are used up, the committed table is one chain and
`VerifyChain` says so however the rows are read back. Every call has contributed at
most one row, exactly one if it returned no error. -/
theorem append_keeps_chain {base : List Ledger} (hbase : ValidChain base)
    {ls : List (Label AppendOp AppendRes)} {c : Pool AppendOp AppendRes DB (Option GoError)}
    (hr : Run DB.machine.semantics AppendCall (Pool.initial (DB.ofRows base)) ls c) :
    ((c.shared.rows.length : ℤ) ≤ maxInt64 →
      c.shared.rows.map seqNum =
        (List.range c.shared.rows.length).map (fun i : ℕ => (i : ℤ) + 1) ∧
      (∀ e, c.shared.rows.head? = some e → e.prevHash = []) ∧
      (∀ i a b, c.shared.rows[i]? = some a → c.shared.rows[i + 1]? = some b →
        b.prevHash = a.hash) ∧
      (∀ e ∈ c.shared.rows, ∀ got, ReadBack e got → e.hash = got.calculateHash) ∧
      ∀ got table, List.Forall₂ ReadBack c.shared.rows got → table.Perm got →
        (verifyTable none table).1.valid = true ∧
        (verifyTable none table).1.entries = c.shared.rows.length ∧
        (verifyTable none table).1.headSeq = c.shared.rows.length) ∧
      (∀ t, c.shared.contributed t ≤ 1) ∧
      ∀ t, c.thread t = some (.ret none) → c.shared.contributed t = 1 := by
  have hsound := DB.sound_run hbase hr
  refine ⟨fun hroom => ?_, hsound.inv.once, fun t ht => ?_⟩
  · have hchain := hsound.inv.chain hroom
    refine ⟨hchain.seq, ?_, ?_, ?_, ?_⟩
    · intro e he
      obtain ⟨rest, hrows⟩ := List.head?_eq_some_iff.mp he
      have hl := hchain.linked
      rw [hrows] at hl
      exact hl.1
    · exact fun i a b ha hb => Linked.adjacent hchain.linked ha hb
    · rintro e he got ⟨offset, rfl⟩
      rw [calculateHash_inZone]
      exact hchain.linked.stored_eq he
    · intro got table hb hp
      rw [(hchain.readBack hb).verifyTable_eq hp, hb.length_eq]
      exact ⟨rfl, rfl, rfl⟩
  · exact (hsound.threads t _ ht).2 _ (DB.Interferes.refl t _) hsound.inv rfl

def sampleEntry (agent : Bytes) : Ledger :=
  ⟨0, ⟨1700000000123456789, 3600⟩, agent, lit "deploy", lit "allow", lit "rule-1", lit "ab", [], [],
    [], lit "v1"⟩

/-- Two calls in overlapping transactions; the second one's first `COMMIT` reports
a serialization failure. -/
def overlappingAppends :
    List (Machine.Move AppendOp AppendRes (Option GoError) Choice Fault) :=
  [.start (append (sampleEntry (lit "a"))), .start (append (sampleEntry (lit "b"))),
    .act 0 .ok, .act 1 .ok, .act 1 .ok, .act 1 .ok, .act 1 .ok,
    .act 1 (.fail (.sqlState (lit "40001"))), .act 1 .ok, .act 0 .ok, .act 0 .ok, .act 0 .ok,
    .act 0 .ok, .act 0 .ok, .act 1 .ok, .act 1 .ok, .act 1 .ok, .act 1 .ok, .act 1 .ok, .act 1 .ok,
    .act 1 .ok]

lemma overlappingAppends_calls : ∀ p ∈ Machine.starts overlappingAppends, AppendCall p :=
  List.forall_mem_cons.mpr ⟨⟨_, rfl⟩, List.forall_mem_cons.mpr ⟨⟨_, rfl⟩, List.forall_mem_nil _⟩⟩

def laterAppend : List (Machine.Move AppendOp AppendRes (Option GoError) Choice Fault) :=
  .start (append (sampleEntry (lit "c"))) :: List.replicate 6 (.act 2 .ok)

lemma laterAppend_calls : ∀ p ∈ Machine.starts laterAppend, AppendCall p :=
  List.forall_mem_cons.mpr ⟨⟨_, rfl⟩, List.forall_mem_nil _⟩

theorem append_keeps_chain_overlapping : ∃ ls c,
    Run DB.machine.semantics AppendCall (Pool.initial (DB.ofRows [])) ls c ∧
      c.shared.rows.map agent = [lit "a", lit "b"] ∧ c.shared.rows.map seqNum = [1, 2] ∧
      c.shared.contributed 1 = 1 := by
  have hplay : ∃ c, DB.machine.play overlappingAppends (Pool.initial (DB.ofRows [])) = some c ∧
      c.shared.rows.map agent = [lit "a", lit "b"] ∧ c.thread 1 = some (.ret none) :=
    ⟨_, rfl, by decide +kernel, rfl⟩
  obtain ⟨c, hplay, hagents, ht⟩ := hplay
  obtain ⟨ls, hr⟩ := Machine.play_run overlappingAppends_calls hplay
  have h := append_keeps_chain validChain_nil hr
  have hlen : c.shared.rows.length = 2 := by simpa using congrArg List.length hagents
  refine ⟨ls, c, hr, hagents, ?_, h.2.2 1 ht⟩
  rw [(h.1 (by rw [hlen]; decide)).1, hlen]
  rfl

/-- A ledger that has used up the numbers: its next row starts again at the smallest one, and
the table is no valid chain any more. -/
theorem append_numbers_wrap : ∃ ls c,
    Run DB.machine.semantics AppendCall (Pool.initial (DB.ofRows [])) ls c ∧
      (c.shared.rows.length : ℤ) = maxInt64 + 1 ∧
      c.shared.rows.map seqNum ≠
        (List.range c.shared.rows.length).map (fun i : ℕ => (i : ℤ) + 1) ∧
      (∃ e ∈ c.shared.rows, e.seqNum = -2 ^ 63) ∧
      (verifyTable none c.shared.rows).1.valid = false := by
  have hstamp : (sampleEntry []).timestamp.isZero = false := by decide
  obtain ⟨ls, c, hr, hq, hfull⟩ := exists_full_ledger hstamp
  have hchain := (DB.sound_run validChain_nil hr).inv.chain hfull.le
  obtain ⟨ms, d, hrun, -, hrows⟩ := append_run validChain_nil hr hq hfull.le hstamp
  have hseq : (nextRow c.shared.rows (sampleEntry [])).seqNum = -2 ^ 63 :=
    (follows_nextRow _ _).seq_wraps hfull
  have hmem : nextRow c.shared.rows (sampleEntry []) ∈ d.shared.rows := by simp [hrows]
  refine ⟨_, d, hr.trans hrun, by simp [hrows, hfull], fun hnumbers => ?_, ⟨_, hmem, hseq⟩,
    hrows ▸ verifyTable_nextRow hchain hfull none⟩
  have hin : (-2 ^ 63 : ℤ) ∈ d.shared.rows.map seqNum := hseq ▸ List.mem_map_of_mem hmem
  rw [hnumbers] at hin
  obtain ⟨i, -, hi⟩ := List.mem_map.mp hin
  omega

end KiteRail.Ledger
