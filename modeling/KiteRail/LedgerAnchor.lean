import KiteRail.LedgerAppendSafe

/-! External anchors. A table that verifies against an anchor taken from a ledger
agrees with that ledger row by row up to the anchored one, whatever was done to
the table, as long as SHA-256 does not collide on the preimages at hand. -/
namespace KiteRail.Ledger
open Bytes GoStrconv Prog HashChain

/-- SHA-256 separates the preimages of the given rows. -/
def NoCollision (rows : List Ledger) : Prop :=
  ∀ a ∈ rows, ∀ b ∈ rows,
    Sha256.sum256 a.preimage = Sha256.sum256 b.preimage → a.preimage = b.preimage

/-- In strict order, the rows up to a given row are a prefix that ends in it. -/
lemma filter_le_of_sorted {rows : List Ledger} {e : Ledger}
    (h : rows.Pairwise fun a b => a.seqNum < b.seqNum) (he : e ∈ rows) :
    ∃ before after, rows = (before ++ [e]) ++ after ∧
      rows.filter (fun r => r.seqNum ≤ e.seqNum) = before ++ [e] := by
  obtain ⟨before, after, rfl⟩ := List.append_of_mem he
  refine ⟨before, after, by simp, ?_⟩
  rw [List.pairwise_append, List.pairwise_cons] at h
  obtain ⟨-, ⟨hafter, -⟩, hbefore⟩ := h
  have hb : before.filter (fun r => r.seqNum ≤ e.seqNum) = before := by
    rw [List.filter_eq_self]
    exact fun r hr => by simpa using (hbefore r hr e (by simp)).le
  have ha : after.filter (fun r => r.seqNum ≤ e.seqNum) = [] := by
    rw [List.filter_eq_nil_iff]
    exact fun r hr => by simpa using hafter r hr
  simp [List.filter_append, hb, ha]

/-- Two chains that meet in one hash agree row by row up to there. -/
lemma sameRows_of_tip {xs ys : List Ledger} (hx : Linked scheme [] xs) (hy : Linked scheme [] ys)
    (hno : NoCollision (xs ++ ys)) (htip : tip scheme [] xs = tip scheme [] ys) :
    List.Forall₂ SameRow xs ys := by
  refine hx.unique hy calculateHash_ne_nil ?_ htip
  intro x hxm y hym hd
  have hpre : x.preimage = y.preimage :=
    hno x (by simp [hxm]) y (by simp [hym]) (hexEncode_injective hd)
  have hhash : x.hash = y.hash :=
    (hx.stored_eq hxm).trans (hd.trans (hy.stored_eq hym).symm)
  have hsame : x.normalized = y.normalized := normalized_of_preimage hpre hhash
  have hprev : x.normalized.prevHash = y.normalized.prevHash := by rw [hsame]
  exact ⟨hsame, hprev⟩

/-- A verified table agrees with the ledger its anchor was taken from. -/
lemma sameRows_of_anchor {rows table : List Ledger} (h : ValidChain rows) {row : Ledger}
    (hrow : row ∈ rows) (hnd : (table.map seqNum).Nodup) (hno : NoCollision (rows ++ table))
    (hv : (verifyTable (some ⟨row.seqNum, row.hash⟩) table).1.valid = true) :
    List.Forall₂ SameRow ((selectAfter 0 table).filter fun e => e.seqNum ≤ row.seqNum)
      (rows.filter fun e => e.seqNum ≤ row.seqNum) := by
  obtain ⟨⟨hlinked, hanchor⟩, hseen⟩ := (verifyTable_valid_iff _ _).mp hv
  obtain ⟨e, he, hseq⟩ := hseen _ rfl
  have hhash : e.hash = row.hash := hanchor e he _ rfl hseq
  obtain ⟨before, after, hsel, hfilter⟩ := filter_le_of_sorted (selectAfter_sorted hnd) he
  obtain ⟨before', after', hrows, hfilter'⟩ := filter_le_of_sorted h.sorted hrow
  rw [hseq] at hfilter
  rw [hfilter, hfilter']
  have hmem : ∀ a ∈ before ++ [e], a ∈ table := fun a ha =>
    (selectAfter_perm table).mem_iff.mp (hsel ▸ List.mem_append_left _ ha)
  have hmem' : ∀ a ∈ before' ++ [row], a ∈ rows := fun a ha => by
    rw [hrows]
    exact List.mem_append_left _ ha
  rw [hsel] at hlinked
  have hl := h.linked
  rw [hrows] at hl
  refine sameRows_of_tip ((linked_append _ _ _ _).mp hlinked).1
    ((linked_append _ _ _ _).mp hl).1 ?_ ?_
  · have hall : ∀ a ∈ (before ++ [e]) ++ (before' ++ [row]), a ∈ rows ++ table := by
      intro a ha
      rcases List.mem_append.mp ha with ha | ha
      · exact List.mem_append_right _ (hmem a ha)
      · exact List.mem_append_left _ (hmem' a ha)
    exact fun a ha b hb => hno a (hall a ha) b (hall b hb)
  · rw [tip_concat, tip_concat]
    exact hhash

/-- The anchor of a row still verifies on every chain that contains the row. -/
lemma verifyTable_of_mem {rows got table : List Ledger} (h : ValidChain rows) {row : Ledger}
    (hrow : row ∈ rows) (hb : List.Forall₂ ReadBack rows got) (hp : table.Perm got) :
    (verifyTable (some ⟨row.seqNum, row.hash⟩) table).1.valid = true := by
  have hgot := h.readBack hb
  rw [verifyTable_valid_iff, selectAfter_of_sorted hp hgot.sorted]
  obtain ⟨_, hmem, offset, rfl⟩ : ∃ e ∈ got, ReadBack row e := by
    clear h hp hgot
    induction hb with
    | nil => simp at hrow
    | cons hab _ ih =>
      rcases List.mem_cons.mp hrow with rfl | hrow
      · exact ⟨_, by simp, hab⟩
      · obtain ⟨e, hmem, hrb⟩ := ih hrow
        exact ⟨e, by simp [hmem], hrb⟩
  have hinj : ∀ f ∈ got, f.seqNum = row.seqNum → f = row.inZone offset := by
    have hnd : (got.map seqNum).Nodup := by
      rw [List.Nodup, List.pairwise_map]
      exact hgot.sorted.imp fun hab => ne_of_lt hab
    exact fun f hf hfe => List.inj_on_of_nodup_map hnd hf hmem hfe
  refine ⟨⟨hgot.linked, ?_⟩, ?_⟩
  · rintro f hf a ha hfa
    obtain rfl := Option.some.inj ha
    rw [hinj f hf hfa]
    rfl
  · rintro a ha
    obtain rfl := Option.some.inj ha
    exact ⟨_, hmem, rfl⟩

namespace DB
variable {s s' : DB} {t : ℕ}

lemma rows_of_exec {op : AppendOp} {r : AppendRes op}
    (hx : machine.semantics.exec t op s r s') : ∃ more, s'.rows = s.rows ++ more := by
  have hsame : s'.rows = s.rows → ∃ more, s'.rows = s.rows ++ more := fun he => ⟨[], by simpa⟩
  cases op with
  | beginTx => rcases exec_beginTx hx with ⟨-, -, rfl⟩ | ⟨-, rfl⟩ <;> exact hsame rfl
  | lockChain => rcases exec_lockChain hx with ⟨-, rfl⟩ | ⟨-, rfl⟩ <;> exact hsame rfl
  | getLatestLedgerEntry => exact hsame (congrArg rows (exec_getLatestLedgerEntry hx).1)
  | now => exact hsame (congrArg rows (exec_now hx))
  | insertLedgerEntry entry =>
    rcases exec_insertLedgerEntry hx with ⟨-, rfl⟩ | ⟨_, -, rfl⟩ <;> exact hsame rfl
  | commit =>
    rcases exec_commit hx with ⟨-, ins, -, rfl⟩ | ⟨_, _, -, -, -, rfl⟩ | ⟨-, rfl⟩ | ⟨-, -, rfl⟩
    · exact ⟨ins, committed_rows ins⟩
    all_goals exact hsame rfl
  | rollback => rcases exec_rollback hx with ⟨-, rfl⟩ | ⟨-, rfl⟩ <;> exact hsame rfl
  | backoff n => exact hsame (congrArg rows (exec_backoff hx))

lemma rows_of_step {c d : Pool AppendOp AppendRes DB (Option GoError)}
    {l : Label AppendOp AppendRes} (h : Step machine.semantics AppendCall c l d) :
    ∃ more, d.shared.rows = c.shared.rows ++ more := by
  cases h with
  | start _ => exact ⟨[], by simp⟩
  | act _ hx => exact rows_of_exec hx
  | @lose t _ _ _ =>
    refine ⟨[], ?_⟩
    rcases lose_cases t c.shared with he | he <;> simp [machine, Machine.semantics, he]
  | env he =>
    obtain ⟨f, hf⟩ := he
    rcases fault_cases hf with ⟨t, rfl⟩ | ⟨t, ins, -, rfl⟩
    · exact ⟨[], by simp⟩
    · exact ⟨ins, committed_rows ins⟩

lemma rows_of_run {c d : Pool AppendOp AppendRes DB (Option GoError)}
    {ls : List (Label AppendOp AppendRes)} (h : Run machine.semantics AppendCall c ls d) :
    ∃ more, d.shared.rows = c.shared.rows ++ more := by
  induction h with
  | nil => exact ⟨[], by simp⟩
  | snoc _ hs ih =>
    obtain ⟨more, hm⟩ := ih
    obtain ⟨more', hm'⟩ := rows_of_step hs
    exact ⟨more ++ more', by rw [hm', hm, List.append_assoc]⟩

end DB

/-- An anchor taken from any row of a ledger that appends have built. A table with
distinct numbers that verifies against it has, up to the anchored number, exactly
the ledger's rows; and whatever is appended later, the anchor still verifies. -/
theorem anchor_sound {base : List Ledger} (hbase : ValidChain base)
    {ls : List (Label AppendOp AppendRes)} {c : Pool AppendOp AppendRes DB (Option GoError)}
    (hr : Run DB.machine.semantics AppendCall (Pool.initial (DB.ofRows base)) ls c)
    (hroom : (c.shared.rows.length : ℤ) ≤ maxInt64) {row : Ledger} (hrow : row ∈ c.shared.rows) :
    (∀ table : List Ledger, (table.map seqNum).Nodup → NoCollision (c.shared.rows ++ table) →
      (verifyTable (some ⟨row.seqNum, row.hash⟩) table).1.valid = true →
      List.Forall₂ SameRow ((selectAfter 0 table).filter fun e => e.seqNum ≤ row.seqNum)
        (c.shared.rows.filter fun e => e.seqNum ≤ row.seqNum)) ∧
      ∀ ms d, Run DB.machine.semantics AppendCall c ms d →
        (d.shared.rows.length : ℤ) ≤ maxInt64 → ∀ got table,
        List.Forall₂ ReadBack d.shared.rows got → table.Perm got →
        (verifyTable (some ⟨row.seqNum, row.hash⟩) table).1.valid = true := by
  refine ⟨fun table hnd hno hv => ?_, fun ms d hrun hlater got table hb hp => ?_⟩
  · exact sameRows_of_anchor ((DB.sound_run hbase hr).inv.chain hroom) hrow hnd hno hv
  · obtain ⟨more, hm⟩ := DB.rows_of_run hrun
    have hmem : row ∈ d.shared.rows := by
      rw [hm]
      exact List.mem_append_left _ hrow
    exact verifyTable_of_mem ((DB.sound_run hbase (hr.trans hrun)).inv.chain hlater) hmem hb hp

instance (rows : List Ledger) : Decidable (NoCollision rows) := by
  unfold NoCollision
  infer_instance

lemma readBack_self {e : Ledger} (h : e.timestamp.offset = 0) : ReadBack e e :=
  ⟨0, by rw [inZone, ← h]⟩

/-- The anchor is the second of two rows; the table has them in the other order, and a third
row is appended later. -/
theorem anchor_sound_overlapping : ∃ ls c row ms d,
    Run DB.machine.semantics AppendCall (Pool.initial (DB.ofRows [])) ls c ∧
      row ∈ c.shared.rows ∧ row.seqNum = 2 ∧
      NoCollision (c.shared.rows ++ c.shared.rows.reverse) ∧
      List.Forall₂ SameRow
        ((selectAfter 0 c.shared.rows.reverse).filter fun e => e.seqNum ≤ row.seqNum)
        (c.shared.rows.filter fun e => e.seqNum ≤ row.seqNum) ∧
      Run DB.machine.semantics AppendCall c ms d ∧ d.shared.rows.map seqNum = [1, 2, 3] ∧
      (verifyTable (some ⟨row.seqNum, row.hash⟩) d.shared.rows.reverse).1.valid = true := by
  have hplay : (DB.machine.play overlappingAppends (Pool.initial (DB.ofRows []))).bind (fun c =>
      (DB.machine.play laterAppend c).map fun d =>
        (c.shared.rows.map seqNum, decide (NoCollision (c.shared.rows ++ c.shared.rows.reverse)),
          d.shared.rows.map seqNum, decide (∀ e ∈ d.shared.rows, e.timestamp.offset = 0))) =
      some ([1, 2], true, [1, 2, 3], true) := by decide +kernel
  obtain ⟨c, hc, hlater⟩ := Option.bind_eq_some_iff.mp hplay
  obtain ⟨d, hd, hfacts⟩ := Option.map_eq_some_iff.mp hlater
  simp only [Prod.mk.injEq, decide_eq_true_eq] at hfacts
  obtain ⟨hseq, hno, hseq', hzone⟩ := hfacts
  obtain ⟨ls, hr⟩ := Machine.play_run overlappingAppends_calls hc
  obtain ⟨ms, hrun⟩ := Machine.play_run laterAppend_calls hd
  obtain ⟨more, hmore⟩ := DB.rows_of_run hrun
  have hlen : (c.shared.rows.length : ℤ) ≤ maxInt64 := by
    rw [← List.length_map (f := seqNum), hseq]
    decide
  have hlen' : (d.shared.rows.length : ℤ) ≤ maxInt64 := by
    rw [← List.length_map (f := seqNum), hseq']
    decide
  obtain ⟨row, hrow, htwo⟩ : ∃ row ∈ c.shared.rows, row.seqNum = 2 :=
    List.mem_map.mp (hseq ▸ by decide)
  have h := anchor_sound validChain_nil hr hlen hrow
  have hself : ∀ xs, (∀ e ∈ xs, e ∈ d.shared.rows) → List.Forall₂ ReadBack xs xs :=
    fun xs hxs => List.forall₂_same.mpr fun e he => readBack_self (hzone e (hxs e he))
  refine ⟨ls, c, row, ms, d, hr, hrow, htwo, hno, h.1 _ ?_ hno ?_, hrun, hseq', ?_⟩
  · rw [List.map_reverse, hseq]
    decide
  · refine h.2 [] c (.nil c) hlen _ _ (hself _ fun e he => ?_) (List.reverse_perm _)
    rw [hmore]
    exact List.mem_append_left _ he
  · exact h.2 ms d hrun hlen' _ _ (hself _ fun _ he => he) (List.reverse_perm _)

/-- Once the numbers are used up, one more row and no anchor verifies any more. -/
theorem anchor_lost_after_wrap : ∃ ls c row ms d,
    Run DB.machine.semantics AppendCall (Pool.initial (DB.ofRows [])) ls c ∧
      row ∈ c.shared.rows ∧ Run DB.machine.semantics AppendCall c ms d ∧
      (verifyTable (some ⟨row.seqNum, row.hash⟩) d.shared.rows).1.valid = false := by
  have hstamp : (sampleEntry []).timestamp.isZero = false := by decide
  obtain ⟨ls, c, hr, hq, hfull⟩ := exists_full_ledger hstamp
  have hchain := (DB.sound_run validChain_nil hr).inv.chain hfull.le
  obtain ⟨row, hrow⟩ : ∃ row, row ∈ c.shared.rows := by
    refine List.exists_mem_of_ne_nil _ fun hnil => ?_
    rw [hnil, GoTime.maxInt64_eq] at hfull
    simp at hfull
  obtain ⟨ms, d, hrun, -, hrows⟩ := append_run validChain_nil hr hq hfull.le hstamp
  exact ⟨ls, c, row, ms, d, hr, hrow, hrun, hrows ▸ verifyTable_nextRow hchain hfull _⟩

end KiteRail.Ledger
