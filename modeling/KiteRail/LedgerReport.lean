import KiteRail.LedgerAppendSafe

namespace KiteRail.Ledger
open Bytes HashChain
variable {anchor : Option Anchor} {rows before after : List Ledger} {e : Ledger}

def lastHash (rows : List Ledger) : Bytes := (rows.getLast?.map hash).getD []

def lastSeq (rows : List Ledger) : ℤ := (rows.getLast?.map seqNum).getD 0

/-- The row keeps to the chain after a row with hash `prev`, and to the anchor. -/
def RowSound (anchor : Option Anchor) (prev : Bytes) (e : Ledger) : Prop :=
  e.prevHash = prev ∧ e.hash = e.calculateHash ∧
    ∀ a, anchor = some a → e.seqNum = a.seqNum → e.hash = a.hash

/-- A row of the list at which a condition fails. -/
def RowFails (anchor : Option Anchor) (rows : List Ledger) (e : Ledger) : Prop :=
  ∃ before after, rows = before ++ e :: after ∧ ¬ RowSound anchor (lastHash before) e

section Prefixes

lemma tip_eq_lastHash (rows : List Ledger) : tip scheme [] rows = lastHash rows := by
  induction rows using List.reverseRecOn with
  | nil => rfl
  | append_singleton rows e _ =>
    rw [tip_concat, lastHash, List.getLast?_concat]
    rfl

lemma accepts_append {root : Bytes} : Accepts anchor root (before ++ e :: after) ↔
    Accepts anchor root before ∧ RowSound anchor (tip scheme root before) e ∧
      Accepts anchor e.hash after := by
  simp only [Accepts, linked_append, Linked, List.forall_mem_append, List.forall_mem_cons, RowSound,
    scheme]
  tauto

lemma accepts_iff : Accepts anchor [] rows ↔ ∀ e, ¬ RowFails anchor rows e := by
  constructor
  · rintro h e ⟨before, after, rfl, hbad⟩
    rw [accepts_append, tip_eq_lastHash] at h
    exact hbad h.2.1
  · intro h
    induction rows using List.reverseRecOn with
    | nil => exact ⟨trivial, by simp⟩
    | append_singleton rows e ih =>
      rw [accepts_append, tip_eq_lastHash]
      refine ⟨ih fun x hx => ?_, ?_, trivial, by simp⟩
      · obtain ⟨before, after, rfl, hbad⟩ := hx
        exact h x ⟨before, after ++ [e], by simp, hbad⟩
      · by_contra hbad
        exact h e ⟨rows, [], rfl, hbad⟩

lemma exists_first (h : ∃ e, RowFails anchor rows e) : ∃ before e after,
    rows = before ++ e :: after ∧ Accepts anchor [] before ∧
      ¬ RowSound anchor (lastHash before) e := by
  induction rows using List.reverseRecOn with
  | nil =>
    obtain ⟨e, before, after, hnil, -⟩ := h
    simp at hnil
  | append_singleton rows x ih =>
    by_cases hfails : ∃ e, RowFails anchor rows e
    · obtain ⟨before, e, after, rfl, hacc, hbad⟩ := ih hfails
      exact ⟨before, e, after ++ [x], by simp, hacc, hbad⟩
    · have hacc : Accepts anchor [] rows := accepts_iff.mpr (not_exists.mp hfails)
      refine ⟨rows, x, [], rfl, hacc, fun hgood => ?_⟩
      have hall : Accepts anchor [] (rows ++ [x]) :=
        accepts_append.mpr ⟨hacc, tip_eq_lastHash rows ▸ hgood, trivial, by simp⟩
      obtain ⟨e, he⟩ := h
      exact accepts_iff.mp hall e he

/-- After an accepted prefix, the row at its end has the least number of those that fail. -/
lemma le_of_fails (hsorted : rows.Pairwise fun a b => a.seqNum < b.seqNum)
    (hrows : rows = before ++ e :: after) (hacc : Accepts anchor [] before) {x : Ledger}
    (hx : RowFails anchor rows x) : e.seqNum ≤ x.seqNum := by
  obtain ⟨before', after', hrows', hbad⟩ := hx
  rcases List.append_eq_append_iff.mp (hrows.symm.trans hrows') with
    ⟨mid, hmid, hrest⟩ | ⟨mid, rfl, hrest⟩
  · cases mid with
    | nil => exact (congrArg seqNum (List.cons.inj hrest).1).le
    | cons y mid =>
      have hmem : x ∈ after := by
        rw [(List.cons.inj hrest).2]
        simp
      rw [hrows] at hsorted
      exact ((List.pairwise_cons.mp (List.pairwise_append.mp hsorted).2.1).1 x hmem).le
  · cases mid with
    | nil => exact (congrArg seqNum (List.cons.inj hrest).1).ge
    | cons y mid =>
      obtain rfl := (List.cons.inj hrest).1
      rw [accepts_append, tip_eq_lastHash] at hacc
      exact absurd hacc.2.1 hbad

end Prefixes

section Loop

lemma verifyRow_bad {report : VerifyReport} (seen : Bool)
    (h : ¬ RowSound anchor report.headHash e) :
    ∃ reason seen', verifyRow anchor (report, seen) e =
      ((failReport { report with entries := report.entries + 1 } e.seqNum reason, seen'),
        some errStopStream) := by
  by_cases hprev : e.prevHash = report.headHash
  · by_cases hhash : e.hash = e.calculateHash
    · have hanchor : anchor.any (fun a => e.seqNum == a.seqNum && e.hash != a.hash) = true := by
        by_contra hno
        refine h ⟨hprev, hhash, fun a ha hseq => ?_⟩
        subst ha
        by_contra hne
        simp [hseq, hne] at hno
      exact ⟨_, _, (if_neg (not_not_intro hprev)).trans
        ((if_neg (not_not_intro hhash)).trans (if_pos hanchor))⟩
    · exact ⟨_, _, (if_neg (not_not_intro hprev)).trans (if_pos hhash)⟩
  · exact ⟨_, _, if_pos hprev⟩

lemma eachRow_append {σ : Type} {fn : σ → Ledger → σ × Option GoError} {s s' : σ}
    (h : eachRow fn s before = (s', none)) :
    eachRow fn s (before ++ rows) = eachRow fn s' rows := by
  induction before generalizing s with
  | nil =>
    obtain ⟨rfl, -⟩ := Prod.mk.inj h
    rfl
  | cons e before ih =>
    rw [eachRow] at h
    rw [List.cons_append, eachRow]
    rcases hfn : fn s e with ⟨s₁, _ | err⟩
    · rw [hfn] at h
      exact ih h
    · simp [hfn] at h

/-- The loop stops at the first row that fails. -/
lemma eachRow_stops (hacc : Accepts anchor [] before)
    (hbad : ¬ RowSound anchor (lastHash before) e) (after : List Ledger) : ∃ reason seen',
      eachRow (verifyRow anchor) (⟨true, 0, 0, [], 0, []⟩, false) (before ++ e :: after) =
        ((⟨false, before.length + 1, lastSeq before, lastHash before, e.seqNum, reason⟩, seen'),
          some errStopStream) := by
  have hrun := eachRow_accepts ⟨true, 0, 0, [], 0, []⟩ false hacc
  have hhead : ¬ RowSound anchor (reportAfter ⟨true, 0, 0, [], 0, []⟩ before).headHash e := by
    rw [reportAfter]
    simpa only [tip_eq_lastHash] using hbad
  obtain ⟨reason, seen', hrow⟩ := verifyRow_bad
    (false || before.any fun e => anchor.any fun a => e.seqNum == a.seqNum) hhead
  refine ⟨reason, seen', ?_⟩
  rw [eachRow_append hrun, eachRow, hrow]
  simp only [reportAfter, failReport, tip_eq_lastHash, lastSeq, zero_add]

end Loop

/-- The report on the rows of a table in the order of their numbers. -/
structure ExactReport (anchor : Option Anchor) (rows : List Ledger) (report : VerifyReport) :
    Prop where
  /-- Valid exactly if no row fails and the anchored row is there. -/
  valid : report.valid = true ↔ (∀ e, ¬ RowFails anchor rows e) ∧
    ∀ a, anchor = some a → ∃ e ∈ rows, e.seqNum = a.seqNum ∧ e.hash = a.hash
  /-- Otherwise the first row that fails, after the longest valid prefix. -/
  broken : (∃ e, RowFails anchor rows e) → ∃ before e after, rows = before ++ e :: after ∧
    (∀ x, ¬ RowFails anchor before x) ∧ RowFails anchor rows e ∧
    (∀ x, RowFails anchor rows x → e.seqNum ≤ x.seqNum) ∧ report.valid = false ∧
    report.firstInvalidSeq = e.seqNum ∧ report.entries = before.length + 1 ∧
    report.headSeq = lastSeq before ∧ report.headHash = lastHash before
  /-- Or the number of the anchor, if only its row is missing. -/
  missing : (∀ e, ¬ RowFails anchor rows e) → ∀ a, anchor = some a →
    (∀ e ∈ rows, e.seqNum ≠ a.seqNum) → report.valid = false ∧
      report.firstInvalidSeq = a.seqNum ∧ report.headSeq = lastSeq rows ∧
      report.headHash = lastHash rows

lemma exact_broken (hsorted : rows.Pairwise fun a b => a.seqNum < b.seqNum)
    (h : ∃ e, RowFails anchor rows e) :
    ∃ report, verifyChain anchor (.delivered rows .done) = (report, none) ∧
      ExactReport anchor rows report := by
  obtain ⟨before, e, after, rfl, hacc, hbad⟩ := exists_first h
  obtain ⟨reason, seen', hrun⟩ := eachRow_stops hacc hbad after
  refine ⟨⟨false, before.length + 1, lastSeq before, lastHash before, e.seqNum, reason⟩, ?_, ?_⟩
  · simp [verifyChain, stream, hrun, GoError.is, errStopStream]
  · refine ⟨by simpa using fun hno => absurd h (not_exists.mpr hno), fun _ => ?_,
      fun hno => absurd h (not_exists.mpr hno)⟩
    exact ⟨before, e, after, rfl, accepts_iff.mp hacc, ⟨before, after, rfl, hbad⟩,
      fun x hx => le_of_fails hsorted rfl hacc hx, rfl, rfl, rfl, rfl, rfl⟩

lemma exact_sound (h : ∀ e, ¬ RowFails anchor rows e) :
    ∃ report, verifyChain anchor (.delivered rows .done) = (report, none) ∧
      ExactReport anchor rows report := by
  have hacc : Accepts anchor [] rows := accepts_iff.mpr h
  have hrun := eachRow_accepts ⟨true, 0, 0, [], 0, []⟩ false hacc
  have hhead : (reportAfter ⟨true, 0, 0, [], 0, []⟩ rows).headHash = lastHash rows :=
    tip_eq_lastHash rows
  have hno : ¬ ∃ e, RowFails anchor rows e := not_exists.mpr h
  by_cases hmiss : ∃ a, anchor = some a ∧ ∀ e ∈ rows, e.seqNum ≠ a.seqNum
  · obtain ⟨a, rfl, hmiss⟩ := hmiss
    have hunseen : (rows.any fun e => e.seqNum == a.seqNum) = false := by simpa using hmiss
    refine ⟨failReport (reportAfter ⟨true, 0, 0, [], 0, []⟩ rows) a.seqNum
      (lit "anchored entry is missing (ledger truncated or rewritten)"), ?_,
      ⟨?_, fun hbad => absurd hbad hno, fun _ b hb _ => ?_⟩⟩
    · simp [verifyChain, stream, hrun, hunseen, reportAfter]
    · simp only [failReport, Bool.false_eq_true, false_iff]
      rintro ⟨-, hall⟩
      obtain ⟨e, he, hseq, -⟩ := hall a rfl
      exact hmiss e he hseq
    · obtain rfl := Option.some.inj hb
      exact ⟨rfl, rfl, rfl, hhead⟩
  · have hthere : ∀ a, anchor = some a → ∃ e ∈ rows, e.seqNum = a.seqNum := by
      intro a ha
      by_contra hnone
      exact hmiss ⟨a, ha, fun e he hseq => hnone ⟨e, he, hseq⟩⟩
    refine ⟨reportAfter ⟨true, 0, 0, [], 0, []⟩ rows, ?_,
      ⟨?_, fun hbad => absurd hbad hno, fun _ a ha hnone => ?_⟩⟩
    · cases anchor with
      | none => simp [verifyChain, stream, hrun]
      | some a =>
        have hseen : (rows.any fun e => e.seqNum == a.seqNum) = true := by
          simpa using hthere a rfl
        simp [verifyChain, stream, hrun, hseen]
    · refine ⟨fun _ => ⟨h, fun a ha => ?_⟩, fun _ => rfl⟩
      obtain ⟨e, he, hseq⟩ := hthere a ha
      exact ⟨e, he, hseq, hacc.2 e he a ha hseq⟩
    · obtain ⟨e, he, hseq⟩ := hthere a ha
      exact absurd hseq (hnone e he)

/-- Verification reports exactly. The rows of a table with distinct numbers have one order,
and the report is about them in that order. -/
theorem verify_report_exact (anchor : Option Anchor) (table : List Ledger)
    (hdistinct : (table.map seqNum).Nodup) : ∃ rows report, rows.Perm table ∧
      rows.Pairwise (fun a b => a.seqNum < b.seqNum) ∧
      verifyTable anchor table = (report, none) ∧ ExactReport anchor rows report := by
  have hsorted := selectAfter_sorted hdistinct
  have hreport : ∃ report, verifyTable anchor table = (report, none) ∧
      ExactReport anchor (selectAfter 0 table) report := by
    by_cases hfails : ∃ e, RowFails anchor (selectAfter 0 table) e
    · exact exact_broken hsorted hfails
    · exact exact_sound (not_exists.mp hfails)
  obtain ⟨report, hverify, hexact⟩ := hreport
  exact ⟨selectAfter 0 table, report, selectAfter_perm table, hsorted, hverify, hexact⟩

section Sample

def chained : List Ledger :=
  [lit "a", lit "b", lit "c", lit "d"].foldl (fun rows agent =>
    rows ++ [sealEntry (sampleEntry agent) (HashChain.tip scheme [] rows, rows.length)
      ⟨1700000000123456789, 0⟩]) []

/-- The third entry was given another tool, and the rows lie in another order. -/
def tampered : List Ledger :=
  match chained with
  | [a, b, c, d] => [{ c with tool := lit "refund" }, a, d, b]
  | _ => []

/-- The anchor is the second of four rows. It and the first one are intact; the third is not. -/
theorem verify_report_tampered : ∃ anchor rows report, anchor.seqNum = 2 ∧
    tampered.map seqNum = [3, 1, 4, 2] ∧ rows.map seqNum = [1, 2, 3, 4] ∧
    verifyTable (some anchor) tampered = (report, none) ∧
    ExactReport (some anchor) rows report ∧ report.valid = false ∧ report.firstInvalidSeq = 3 ∧
    report.entries = 3 ∧ report.headSeq = 2 ∧ report.headHash = anchor.hash := by
  have hfacts : ∃ anchor : Anchor, anchor.seqNum = 2 ∧ tampered.map seqNum = [3, 1, 4, 2] ∧
      (verifyTable (some anchor) tampered).1 = ⟨false, 3, 2, anchor.hash, 3,
        lit "hash does not match entry contents"⟩ :=
    ⟨⟨2, (chained[1]?.map hash).getD []⟩, rfl, by decide +kernel, by decide +kernel⟩
  obtain ⟨anchor, htwo, hnumbers, hreport⟩ := hfacts
  obtain ⟨rows, report, hperm, hsorted, hverify, hexact⟩ := verify_report_exact (some anchor)
    tampered (by rw [hnumbers]; decide)
  have hrows : rows.map seqNum = [1, 2, 3, 4] := by
    have hp : (rows.map seqNum).Perm [1, 2, 3, 4] :=
      (hperm.map seqNum).trans (hnumbers ▸ by decide)
    exact hp.eq_of_pairwise (fun _ _ _ _ => le_antisymm)
      (List.pairwise_map.mpr (hsorted.imp le_of_lt)) (by decide)
  rw [hverify] at hreport
  subst hreport
  exact ⟨anchor, rows, _, htwo, hnumbers, hrows, hverify, hexact, rfl, rfl, rfl, rfl, rfl⟩

end Sample

end KiteRail.Ledger
