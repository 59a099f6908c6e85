import KiteRail.GoError
import KiteRail.LedgerEntry

namespace KiteRail.Ledger
open Bytes HashChain

structure Anchor where
  seqNum : ℤ
  hash : Bytes
  deriving DecidableEq

structure VerifyReport where
  valid : Bool
  entries : ℤ
  headSeq : ℤ
  headHash : Bytes
  firstInvalidSeq : ℤ
  reason : Bytes
  deriving DecidableEq

namespace VerifyReport

def zero : VerifyReport := ⟨false, 0, 0, [], 0, []⟩

end VerifyReport

def errStopStream : GoError := .sentinel (lit "stop ledger stream")

inductive RowsEnd
  | done
  | scanFailed (err : GoError)
  | iterFailed (err : GoError)

/-- What a query delivers: an error at once, or rows and then an end. -/
inductive RowsAnswer
  | failed (err : GoError)
  | delivered (rows : List Ledger) (fin : RowsEnd)

/-- The rows `Stream` selects, in its order. -/
def selectAfter (afterSeq : ℤ) (table : List Ledger) : List Ledger :=
  (if 0 < afterSeq then table.filter (fun e => afterSeq < e.seqNum) else table).insertionSort
    (fun a b => a.seqNum ≤ b.seqNum)

section Stream
variable {σ : Type} (fn : σ → Ledger → σ × Option GoError)

/-- The loop over the rows: the callback's first error ends it. -/
def eachRow : σ → List Ledger → σ × Option GoError
  | s, [] => (s, none)
  | s, entry :: rows =>
    match fn s entry with
    | (s', none) => eachRow s' rows
    | (s', some err) => (s', some err)

def stream (s : σ) : RowsAnswer → σ × Option GoError
  | .failed err => (s, some (.wrap (msg "failed to query ledger: ") err))
  | .delivered rows fin =>
    match eachRow fn s rows with
    | (s', some err) => (s', some err)
    | (s', none) =>
      match fin with
      | .done => (s', none)
      | .scanFailed err => (s', some (.wrap (msg "failed to scan ledger entry: ") err))
      | .iterFailed err => (s', some (.wrap (msg "error iterating ledger rows: ") err))

end Stream

def failReport (report : VerifyReport) (seq : ℤ) (reason : Bytes) : VerifyReport :=
  { report with valid := false, firstInvalidSeq := seq, reason := reason }

/-- The callback of `VerifyChain`; the flag says that the anchored row was seen. `Entries` is an
`int64`, which counts up to `2 ^ 63 - 1` rows exactly. -/
def verifyRow (anchor : Option Anchor) (st : VerifyReport × Bool) (entry : Ledger) :
    (VerifyReport × Bool) × Option GoError :=
  let report := { st.1 with entries := st.1.entries + 1 }
  if entry.prevHash ≠ report.headHash then
    ((failReport report entry.seqNum (lit "prev_hash does not link to the previous entry"), st.2),
      some errStopStream)
  else if entry.hash ≠ entry.calculateHash then
    ((failReport report entry.seqNum (lit "hash does not match entry contents"), st.2),
      some errStopStream)
  else
    let seen := st.2 || anchor.any (fun a => entry.seqNum == a.seqNum)
    if anchor.any (fun a => entry.seqNum == a.seqNum && entry.hash != a.hash) then
      ((failReport report entry.seqNum (lit "entry differs from the external anchor"), seen),
        some errStopStream)
    else
      (({ report with headSeq := entry.seqNum, headHash := entry.hash }, seen), none)

def verifyChain (anchor : Option Anchor) (answer : RowsAnswer) : VerifyReport × Option GoError :=
  match stream (verifyRow anchor) (⟨true, 0, 0, [], 0, []⟩, false) answer with
  | ((report, anchorSeen), err) =>
    if err.any (fun e => !(GoError.is errStopStream e)) then (VerifyReport.zero, err)
    else match report.valid && !anchorSeen, anchor with
      | true, some a => (failReport report a.seqNum
          (lit "anchored entry is missing (ledger truncated or rewritten)"), none)
      | _, _ => (report, none)

def verify (answer : RowsAnswer) : Bool × Option GoError :=
  ((verifyChain none answer).1.valid, (verifyChain none answer).2)

/-- `VerifyChain` on a table read to its end. -/
def verifyTable (anchor : Option Anchor) (table : List Ledger) : VerifyReport × Option GoError :=
  verifyChain anchor (.delivered (selectAfter 0 table) .done)

lemma selectAfter_perm (table : List Ledger) : (selectAfter 0 table).Perm table := by
  simpa [selectAfter] using List.perm_insertionSort _ table

/-- Rows with distinct numbers have one order. -/
lemma selectAfter_of_sorted {table rows : List Ledger} (hp : table.Perm rows)
    (h : rows.Pairwise fun a b => a.seqNum < b.seqNum) : selectAfter 0 table = rows := by
  have hs : (selectAfter 0 table).Pairwise fun a b => a.seqNum ≤ b.seqNum := by
    simpa [selectAfter] using List.pairwise_insertionSort (fun a b => a.seqNum ≤ b.seqNum) table
  have hinj : ∀ a ∈ rows, ∀ b ∈ rows, a.seqNum = b.seqNum → a = b := by
    have hm : (rows.map seqNum).Nodup := by
      rw [List.Nodup, List.pairwise_map]
      exact h.imp fun hab => ne_of_lt hab
    exact fun a ha b hb he => List.inj_on_of_nodup_map hm ha hb he
  have hperm := (selectAfter_perm table).trans hp
  refine List.Perm.eq_of_pairwise ?_ hs (h.imp le_of_lt) hperm
  exact fun a b ha hb hab hba =>
    hinj a (hperm.mem_iff.mp ha) b hb (le_antisymm hab hba)

lemma selectAfter_sorted {table : List Ledger} (h : (table.map seqNum).Nodup) :
    (selectAfter 0 table).Pairwise fun a b => a.seqNum < b.seqNum := by
  have hle : (selectAfter 0 table).Pairwise fun a b => a.seqNum ≤ b.seqNum := by
    simpa [selectAfter] using List.pairwise_insertionSort (fun a b => a.seqNum ≤ b.seqNum) table
  have hne : (selectAfter 0 table).Pairwise fun a b => a.seqNum ≠ b.seqNum := by
    rw [← List.pairwise_map]
    exact ((selectAfter_perm table).map seqNum).nodup_iff.mpr h
  exact (hle.and hne).imp fun hab => lt_of_le_of_ne hab.1 hab.2

/-- What the loop of `VerifyChain` accepts after a row with hash `root`. -/
def Accepts (anchor : Option Anchor) (root : Bytes) (rows : List Ledger) : Prop :=
  Linked scheme root rows ∧
    ∀ e ∈ rows, ∀ a, anchor = some a → e.seqNum = a.seqNum → e.hash = a.hash

lemma accepts_cons {anchor : Option Anchor} {root : Bytes} {entry : Ledger} {rows : List Ledger} :
    Accepts anchor root (entry :: rows) ↔ entry.prevHash = root ∧
      entry.hash = entry.calculateHash ∧
      anchor.any (fun a => entry.seqNum == a.seqNum && entry.hash != a.hash) = false ∧
      Accepts anchor entry.hash rows := by
  have hany : anchor.any (fun a => entry.seqNum == a.seqNum && entry.hash != a.hash) = false ↔
      ∀ a, anchor = some a → entry.seqNum = a.seqNum → entry.hash = a.hash := by
    cases anchor <;> simp
  simp only [Accepts, Linked, scheme, List.forall_mem_cons, hany]
  tauto

def reportAfter (report : VerifyReport) (rows : List Ledger) : VerifyReport :=
  { report with
    entries := report.entries + rows.length
    headSeq := (rows.getLast?.map seqNum).getD report.headSeq
    headHash := tip scheme report.headHash rows }

lemma eachRow_accepts {anchor : Option Anchor} {rows : List Ledger} (report : VerifyReport)
    (seen : Bool) (h : Accepts anchor report.headHash rows) :
    eachRow (verifyRow anchor) (report, seen) rows =
      ((reportAfter report rows,
        seen || rows.any fun e => anchor.any fun a => e.seqNum == a.seqNum), none) := by
  induction rows generalizing report seen with
  | nil => simp [eachRow, reportAfter, tip]
  | cons entry rows ih =>
    obtain ⟨hprev, hhash, hanchor, hrest⟩ := accepts_cons.mp h
    have hstep : verifyRow anchor (report, seen) entry =
        (({ report with entries := report.entries + 1, headSeq := entry.seqNum,
                        headHash := entry.hash },
          seen || anchor.any (fun a => entry.seqNum == a.seqNum)), none) := by
      unfold verifyRow
      simp only [hanchor, if_neg (not_not_intro hprev), if_neg (not_not_intro hhash)]
      rfl
    rw [eachRow, hstep]
    simp only
    rw [ih _ _ (by exact hrest)]
    simp only [reportAfter, List.any_cons, Bool.or_assoc, List.length_cons, Nat.cast_add,
      Nat.cast_one, List.getLast?_cons, Option.map_some, Option.getD_some, tip, scheme,
      Prod.mk.injEq, VerifyReport.mk.injEq, and_true, true_and]
    refine ⟨by ring, ?_⟩
    cases rows.getLast? <;> rfl

lemma eachRow_rejects {anchor : Option Anchor} {rows : List Ledger} (report : VerifyReport)
    (seen : Bool) (h : ¬ Accepts anchor report.headHash rows) :
    ∃ st : VerifyReport × Bool, st.1.valid = false ∧
      eachRow (verifyRow anchor) (report, seen) rows = (st, some errStopStream) := by
  induction rows generalizing report seen with
  | nil => exact absurd ⟨trivial, by simp⟩ h
  | cons entry rows ih =>
    rw [accepts_cons] at h
    rw [eachRow, verifyRow]
    split_ifs with hprev hhash hanchor
    · exact ⟨_, rfl, rfl⟩
    · exact ⟨_, rfl, rfl⟩
    · exact ⟨_, rfl, rfl⟩
    · refine ih _ _ fun hrest => h ⟨?_, ?_, ?_, hrest⟩
      · simpa using hprev
      · simpa using hhash
      · simpa using hanchor

/-- A table read to its end is reported valid exactly when its rows in sequence
order are a chain from the empty hash, every row at the anchored number has the
anchored hash, and there is one. -/
theorem verifyTable_valid_iff (anchor : Option Anchor) (table : List Ledger) :
    (verifyTable anchor table).1.valid = true ↔
      Accepts anchor [] (selectAfter 0 table) ∧
        ∀ a, anchor = some a → ∃ e ∈ selectAfter 0 table, e.seqNum = a.seqNum := by
  by_cases h : Accepts anchor [] (selectAfter 0 table)
  · have hrun := eachRow_accepts ⟨true, 0, 0, [], 0, []⟩ false h
    simp only [verifyTable, verifyChain, stream, hrun, Option.any_none, Bool.false_eq_true,
      if_false, h, true_and, Bool.false_or]
    cases anchor with
    | none => simp [reportAfter]
    | some a =>
      have hseen : ((selectAfter 0 table).any fun e => e.seqNum == a.seqNum) = true ↔
          ∃ e ∈ selectAfter 0 table, e.seqNum = a.seqNum := by simp
      cases hany : (selectAfter 0 table).any fun e => e.seqNum == a.seqNum <;>
        simp [reportAfter, failReport, hany, ← hseen]
  · obtain ⟨st, hv, hrun⟩ := eachRow_rejects ⟨true, 0, 0, [], 0, []⟩ false h
    simp [verifyTable, verifyChain, stream, hrun, hv, h, GoError.is, errStopStream]

theorem verifyTable_none {table : List Ledger} (h : Linked scheme [] (selectAfter 0 table)) :
    verifyTable none table = (⟨true, (selectAfter 0 table).length,
      ((selectAfter 0 table).getLast?.map seqNum).getD 0, tip scheme [] (selectAfter 0 table),
      0, []⟩, none) := by
  have hrun := @eachRow_accepts none _ ⟨true, 0, 0, [], 0, []⟩ false
    ⟨h, by simp⟩
  simp [verifyTable, verifyChain, stream, hrun, reportAfter]

end KiteRail.Ledger
