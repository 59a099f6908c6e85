import KiteRail.GoTime
import KiteRail.LedgerVerify

/-! The chains that the ledger is meant to hold: numbered from one without gap, and
linked from the empty hash. Reading a chain back in another zone, or its rows in
another physical order, changes nothing that verification sees. -/
namespace KiteRail.Ledger
open Bytes GoStrconv HashChain

/-- Sequence numbers `1..n` and hashes linked from the empty string. -/
structure ValidChain (rows : List Ledger) : Prop where
  seq : rows.map seqNum = (List.range rows.length).map fun i : ℕ => (i : ℤ) + 1
  linked : Linked scheme [] rows

/-- A row that `append` puts after a chain. -/
structure Follows (rows : List Ledger) (row : Ledger) : Prop where
  seq : row.seqNum = GoTime.wrap64 (rows.length + 1)
  prev : row.prevHash = tip scheme [] rows
  hash : row.hash = row.calculateHash

lemma validChain_nil : ValidChain [] := ⟨rfl, trivial⟩

lemma Follows.seq_eq {rows : List Ledger} {row : Ledger} (h : Follows rows row)
    (hroom : (rows.length : ℤ) < maxInt64) : row.seqNum = rows.length + 1 := by
  rw [h.seq, GoTime.wrap64_of_fits (by rw [GoTime.maxInt64_eq]; omega) (by omega)]

/-- The last number there is goes round to the first one. -/
lemma Follows.seq_wraps {rows : List Ledger} {row : Ledger} (h : Follows rows row)
    (hfull : (rows.length : ℤ) = maxInt64) : row.seqNum = -maxInt64 - 1 := by
  rw [h.seq, hfull]
  rfl

lemma ValidChain.concat {rows : List Ledger} {row : Ledger} (h : ValidChain rows)
    (hf : Follows rows row) (hroom : (rows.length : ℤ) < maxInt64) :
    ValidChain (rows ++ [row]) where
  seq := by
    simp only [List.map_append, List.map_cons, List.map_nil, List.length_append, List.length_cons,
      List.length_nil, List.range_succ, h.seq, hf.seq_eq hroom]
  linked := (linked_concat _ _ _ _).mpr ⟨h.linked, hf.prev, hf.hash⟩

lemma ValidChain.sorted {rows : List Ledger} (h : ValidChain rows) :
    rows.Pairwise fun a b => a.seqNum < b.seqNum := by
  rw [← List.pairwise_map, h.seq, List.pairwise_map]
  exact List.pairwise_lt_range.imp fun hij => by omega

lemma ValidChain.seqNum_of_getElem? {rows : List Ledger} (h : ValidChain rows) {i : ℕ} {e : Ledger}
    (he : rows[i]? = some e) : e.seqNum = i + 1 := by
  obtain ⟨hlt, rfl⟩ := List.getElem?_eq_some_iff.mp he
  have hi := congrArg (fun xs : List ℤ => xs[i]?) h.seq
  simpa [hlt] using hi

lemma ValidChain.getLast?_seqNum {rows : List Ledger} (h : ValidChain rows) {e : Ledger}
    (he : rows.getLast? = some e) : e.seqNum = rows.length := by
  have hl := congrArg List.getLast? h.seq
  rw [List.getLast?_map, List.getLast?_map, he, List.getLast?_range] at hl
  split at hl
  · simp at hl
  · simp only [Option.map_some, Option.some.injEq] at hl
    omega

lemma ValidChain.number_out_of_range {rows : List Ledger} (h : ValidChain rows)
    (hlong : maxInt64 < (rows.length : ℤ)) :
    ∃ row ∈ rows, row.seqNum < 0 ∨ maxInt64 < row.seqNum := by
  cases he : rows.getLast? with
  | none =>
    rw [List.getLast?_eq_none_iff.mp he, GoTime.maxInt64_eq] at hlong
    simp at hlong
  | some e => exact ⟨e, List.mem_of_getLast? he, .inr (by rwa [h.getLast?_seqNum he])⟩

lemma getLast?_hash {rows : List Ledger} {e : Ledger} (he : rows.getLast? = some e) :
    e.hash = tip scheme [] rows := by
  obtain ⟨ys, rfl⟩ := List.getLast?_eq_some_iff.mp he
  rw [tip_concat]
  rfl

lemma linked_readBack {root : Bytes} {rows got : List Ledger}
    (hb : List.Forall₂ ReadBack rows got) (h : Linked scheme root rows) :
    Linked scheme root got := by
  induction hb generalizing root with
  | nil => trivial
  | cons hrow _ ih =>
    obtain ⟨offset, rfl⟩ := hrow
    exact ⟨h.1, h.2.1, ih h.2.2⟩

lemma ValidChain.readBack {rows got : List Ledger} (h : ValidChain rows)
    (hb : List.Forall₂ ReadBack rows got) : ValidChain got where
  seq := by
    have hm : got.map seqNum = rows.map seqNum := by
      clear h
      induction hb with
      | nil => rfl
      | cons hrow _ ih =>
        obtain ⟨offset, rfl⟩ := hrow
        exact congrArg (List.cons _) ih
    rw [hm, h.seq, hb.length_eq]
  linked := linked_readBack hb h.linked

/-- Whatever the physical order of its rows, a chain is reported valid. -/
lemma ValidChain.verifyTable_eq {rows table : List Ledger} (h : ValidChain rows)
    (hp : table.Perm rows) : verifyTable none table =
      (⟨true, rows.length, rows.length, tip scheme [] rows, 0, []⟩, none) := by
  have hsel := selectAfter_of_sorted hp h.sorted
  rw [verifyTable_none (hsel ▸ h.linked), hsel]
  cases he : rows.getLast? with
  | none => simp [List.getLast?_eq_none_iff.mp he]
  | some e => simp [h.getLast?_seqNum he]

lemma Linked.adjacent {root : Bytes} {rows : List Ledger} (h : Linked scheme root rows) {i : ℕ}
    {a b : Ledger} (ha : rows[i]? = some a) (hb : rows[i + 1]? = some b) :
    b.prevHash = a.hash := by
  induction rows generalizing root i with
  | nil => simp at ha
  | cons e rows ih =>
    cases i with
    | succ i => exact ih h.2.2 (by simpa using ha) (by simpa using hb)
    | zero =>
      obtain rfl : e = a := by simpa using ha
      cases rows with
      | nil => simp at hb
      | cons f rows =>
        obtain rfl : f = b := by simpa using hb
        exact h.2.2.1

end KiteRail.Ledger
