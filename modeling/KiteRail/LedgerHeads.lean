import KiteRail.LedgerAnchor
import KiteRail.LedgerExport

/-! The head of the ledger as an anchor. What a request for the head was answered, sent back
unchanged with a later verification, is read as the anchor of the last row at that time. The
ledger that only grew verifies against it, and whatever verifies against it begins with the rows
the ledger had. -/
namespace KiteRail.Ledger
open Bytes Json GoStrconv Prog HashChain
open Proxy (Request)

section Body
variable {table : List Ledger} {tr : List (Answered DeskOp DeskRes)}

/-- `GetLedgerHead` on a table. -/
def headRow (table : List Ledger) : Except GoError GetLedgerHeadRow :=
  match (selectAfter 0 table).getLast? with
  | some e => .ok ⟨e.seqNum, e.hash, e.timestamp⟩
  | none => .error .noRows

/-- The head was read from the table, or the query failed. -/
def HeadFrom (table : List Ledger) (tr : List (Answered DeskOp DeskRes)) : Prop :=
  ∀ answer, (⟨.getLedgerHead, answer⟩ : Answered DeskOp DeskRes) ∈ tr →
    answer = headRow table ∨ ∃ err, answer = .error err ∧ GoError.is .noRows err = false

def headDocument (e : Ledger) (timestamp : Bytes) : Json :=
  .obj [(lit "seq_num", .num (decimal e.seqNum)), (lit "hash", .str e.hash),
    (lit "timestamp", .str timestamp)]

def headBody (table : List Ledger) : Bytes :=
  match (selectAfter 0 table).getLast? with
  | some e => encode (headDocument e e.timestamp.formatRFC3339Nano) ++ [10]
  | none => encode emptyHead ++ [10]

lemma runs_sendJSON {v : Json} {response : DeskResponse}
    (h : Runs (sendJSON (.ok v)) tr response) : written tr = encode v ++ [10] := by
  obtain ⟨answer, rest, rfl, hrest⟩ := runs_call_iff.mp h
  obtain ⟨rfl, rfl⟩ := runs_ret_iff.mp hrest
  simp [written]

/-- A row of the head that is sent without error has a timestamp that can be written. -/
lemma written_writeHead {e : Ledger} (h : Runs (writeHead (.ok ⟨e.seqNum, e.hash, e.timestamp⟩)) tr
    (.sent none)) : e.timestamp.Strict ∧
      written tr = encode (headDocument e e.timestamp.formatRFC3339Nano) ++ [10] := by
  rw [writeHead, GetLedgerHeadRow.document] at h
  cases htext : e.timestamp.marshalText with
  | error err =>
    rw [htext] at h
    exact absurd (runs_ret_iff.mp h).2 (by simp)
  | ok text =>
    obtain ⟨hstrict, rfl⟩ := Time.marshalText_eq_ok htext
    rw [htext] at h
    exact ⟨hstrict, runs_sendJSON h⟩

lemma written_handleHead {r : Request} (h : Runs (handleHead r) tr (.sent none))
    (hfrom : HeadFrom table tr) : written tr = headBody table ∧
      ∀ e, (selectAfter 0 table).getLast? = some e → e.timestamp.Strict := by
  rw [handleHead] at h
  split_ifs at h
  · exact absurd (runs_ret_iff.mp h).2 (by simp)
  obtain ⟨answer, rest, rfl, hrest⟩ := runs_call_iff.mp h
  change Runs (writeHead answer) rest (.sent none) at hrest
  have hwritten : written (⟨.getLedgerHead, answer⟩ :: rest) = written rest := rfl
  rw [hwritten, headBody]
  rcases hfrom answer List.mem_cons_self with rfl | ⟨err, rfl, hother⟩
  · cases hlast : (selectAfter 0 table).getLast? with
    | none =>
      rw [headRow, hlast] at hrest
      exact ⟨runs_sendJSON hrest, by simp⟩
    | some e =>
      rw [headRow, hlast] at hrest
      obtain ⟨hstrict, hwritten⟩ := written_writeHead hrest
      exact ⟨hwritten, fun f hf => Option.some.inj hf ▸ hstrict⟩
  · rw [writeHead, if_neg (by simp [hother])] at hrest
    exact absurd (runs_ret_iff.mp hrest).2 (by simp)

end Body

section Anchor
variable {e : Ledger}

/-- A row with a number and a hash as `append` gives them. -/
structure Sealed (e : Ledger) : Prop where
  seq_pos : 1 ≤ e.seqNum
  seq_le : e.seqNum ≤ maxInt64
  hash : e.hash = e.calculateHash
  strict : e.timestamp.Strict

lemma hexEncode_safe (bs : Bytes) : ∀ b ∈ hexEncode bs, b < 0x80 ∧ htmlSafe b.toNat = true := by
  have hdigit : ∀ n < 16, hexDigit n < 0x80 ∧ htmlSafe (hexDigit n).toNat = true := by decide
  intro b hb
  simp only [hexEncode, List.mem_flatMap, List.mem_cons, List.not_mem_nil, or_false] at hb
  obtain ⟨c, -, rfl | rfl⟩ := hb
  · exact hdigit _ (by have := c.toNat_lt; omega)
  · exact hdigit _ (by omega)

lemma hexEncode_valid (bs : Bytes) : Utf8.valid (hexEncode bs) = true :=
  Utf8.valid_of_ascii fun b hb => (hexEncode_safe bs b hb).1

lemma follows_break : Json.Follows [10] := by simp [Json.Follows, isSpace]

lemma numbers_headDocument (e : Ledger) (ts : Bytes) :
    ∀ t ∈ numbers (headDocument e ts), Number t := by
  simp only [headDocument, numbers, numbersMembers_eq, List.flatMap_cons, List.flatMap_nil,
    List.append_nil, List.mem_singleton, forall_eq]
  exact number_decimal e.seqNum

lemma headDocument_length (h : Sealed e) :
    (encode (headDocument e e.timestamp.formatRFC3339Nano) ++ [10]).length ≤ maxAnchorBytes := by
  obtain ⟨n, hn⟩ := Int.eq_ofNat_of_zero_le (zero_le_one.trans h.seq_pos)
  have hseq : (decimal e.seqNum).length ≤ 19 := by
    have hle := h.seq_le
    rw [hn, maxInt64] at hle
    rw [hn]
    exact decimalNat_length_le (by decide) (by omega)
  have hhash : (quote e.hash).length = 66 := by
    rw [h.hash, calculateHash, quote_length_of_safe (hexEncode_safe _), hexEncode_length,
      Sha256.sum256_length]
  have htime := quote_length_of_safe (Time.formatRFC3339Nano_plain e.timestamp).safe
  have htext := Time.formatRFC3339Nano_length h.strict
  have hkeys : (quote (lit "seq_num")).length = 9 ∧ (quote (lit "hash")).length = 6 ∧
      (quote (lit "timestamp")).length = 11 := by decide
  obtain ⟨hk₁, hk₂, hk₃⟩ := hkeys
  simp only [headDocument, encode, encodeMembers, List.length_append, List.length_cons,
    List.length_nil, hhash, htime, hk₁, hk₂, hk₃, maxAnchorBytes]
  omega

lemma bodyAnchor_headDocument (h : Sealed e) :
    bodyAnchor (encode (headDocument e e.timestamp.formatRFC3339Nano) ++ [10]) =
      some (some ⟨e.seqNum, e.hash⟩) := by
  have hvalid : Utf8.valid e.hash = true := h.hash ▸ hexEncode_valid _
  have hne : e.hash ≠ [] := h.hash ▸ calculateHash_ne_nil e
  have hdepth : depth (headDocument e e.timestamp.formatRFC3339Nano) ≤ maxNestingDepth := by
    simp [headDocument, depth, depthMembers, maxNestingDepth]
  have hfills : Fills anchorFields ⟨0, []⟩ [(lit "seq_num", .num (decimal e.seqNum)),
      (lit "hash", .str e.hash), (lit "timestamp", .str e.timestamp.formatRFC3339Nano)]
      ⟨e.seqNum, e.hash⟩ := by
    refine .cons (by decide) rfl
      (field_eq (decodeInt64_decimal (zero_le_one.trans h.seq_pos) h.seq_le)) ?_
    refine .cons (by decide) rfl (field_eq (decodeString_str hvalid)) ?_
    exact .skip (by decide) (by decide) (.nil _)
  have hdec : decodeStruct anchorFields ⟨0, []⟩
      (spell (headDocument e e.timestamp.formatRFC3339Nano)) = (⟨e.seqNum, e.hash⟩, true) :=
    hfills.decodeStruct
  have hpos := h.seq_pos
  rw [bodyAnchor, List.take_of_length_le (headDocument_length h),
    decodeNext_encode _ (numbers_headDocument _ _) hdepth follows_break, decoded, hdec]
  simp only [if_true, hne, and_false, if_false, or_false]
  rw [if_neg (by omega)]

lemma bodyAnchor_emptyHead : bodyAnchor (encode emptyHead ++ [10]) = some none := by
  have hnum : ∀ t ∈ numbers emptyHead, Number t := by
    simp only [emptyHead, numbers, numbersMembers_eq, List.flatMap_cons, List.flatMap_nil,
      List.append_nil, List.nil_append, List.mem_singleton, forall_eq]
    exact number_decimal 0
  have hdepth : depth emptyHead ≤ maxNestingDepth := by
    simp [emptyHead, depth, depthMembers, maxNestingDepth]
  have hfills : Fills anchorFields ⟨0, []⟩
      [(lit "hash", .str []), (lit "seq_num", .num (decimal 0))] ⟨0, []⟩ := by
    refine .cons (by decide) rfl (field_eq (decodeString_str (by decide))) ?_
    exact .cons (by decide) rfl (field_eq (decodeInt64_decimal le_rfl (by decide))) (.nil _)
  have hdec : decodeStruct anchorFields ⟨0, []⟩ (spell emptyHead) = (⟨0, []⟩, true) :=
    hfills.decodeStruct
  have hlength : (encode emptyHead ++ [10]).length ≤ maxAnchorBytes := by decide
  rw [bodyAnchor, List.take_of_length_le hlength,
    decodeNext_encode _ hnum hdepth follows_break, decoded, hdec]
  rfl

end Anchor

section Verify
variable {rows got table : List Ledger} {tr : List (Answered DeskOp DeskRes)}

def lastAnchor (rows : List Ledger) : Option Anchor :=
  rows.getLast?.map fun e => ⟨e.seqNum, e.hash⟩

lemma lastAnchor_readBack (hb : List.Forall₂ ReadBack rows got) :
    lastAnchor got = lastAnchor rows := by
  have hrev := List.forall₂_reverse_iff.mpr hb
  rw [lastAnchor, lastAnchor, List.getLast?_eq_head?_reverse, List.getLast?_eq_head?_reverse]
  generalize rows.reverse = xs at hrev
  generalize got.reverse = ys at hrev
  cases hrev with
  | nil => rfl
  | cons hrow =>
    obtain ⟨offset, rfl⟩ := hrow
    rfl

/-- The body of a head is read back as the anchor of the chain it was taken from. -/
lemma bodyAnchor_headBody (h : ValidChain rows) (hp : table.Perm rows)
    (hlength : (rows.length : ℤ) ≤ maxInt64)
    (hstrict : ∀ e, (selectAfter 0 table).getLast? = some e → e.timestamp.Strict) :
    bodyAnchor (headBody table) = some (lastAnchor rows) := by
  rw [headBody, lastAnchor]
  rw [selectAfter_of_sorted hp h.sorted] at hstrict ⊢
  cases hlast : rows.getLast? with
  | none => exact bodyAnchor_emptyHead
  | some e =>
    have hmem : e ∈ rows := List.mem_of_getLast? hlast
    have hpos : 0 < rows.length := List.length_pos_of_mem hmem
    have hseq := h.getLast?_seqNum hlast
    have hsealed : Sealed e := by
      refine ⟨?_, hseq ▸ hlength, h.linked.stored_eq hmem, hstrict e hlast⟩
      rw [hseq]
      omega
    exact bodyAnchor_headDocument hsealed

/-- Every query was answered with all rows of the table. -/
def ReadsAll (table : List Ledger) (tr : List (Answered DeskOp DeskRes)) : Prop :=
  ∀ afterSeq answer, (⟨.selectRows afterSeq, answer⟩ : Answered DeskOp DeskRes) ∈ tr →
    answer = .delivered (selectAfter afterSeq table) .done

/-- A verification that succeeds writes the report on the table against the body's anchor. -/
lemma written_handleVerify {r : Request} {contentLength : ℤ} {anchor : Option Anchor}
    (hmethod : r.method = lit "POST") (hlength : contentLength ≠ 0)
    (hanchor : bodyAnchor r.body.bytes = some anchor)
    (h : Runs (handleVerify r contentLength) tr (.sent none)) (hreads : ReadsAll table tr) :
    written tr = encode (verifyTable anchor table).1.document ++ [10] := by
  simp only [handleVerify, hmethod, parseAnchor, hlength, hanchor, ne_eq, not_true_eq_false,
    and_false, if_false, not_false_eq_true, and_self, if_true] at h
  rcases runs_fullScan h with ⟨-, status, body, hfailed⟩ | ⟨inner, rfl, hscan⟩
  · simp at hfailed
  · obtain ⟨answer, rest, rfl, hrest⟩ := runs_call_iff.mp hscan
    change Runs (writeReport (verifyChain anchor answer)) rest (.sent none) at hrest
    obtain rfl := hreads 0 answer (by simp)
    change Runs (writeReport (verifyTable anchor table)) rest (.sent none) at hrest
    have hwritten : written (⟨.acquireFullScan, true⟩ :: (⟨.selectRows 0,
        .delivered (selectAfter 0 table) .done⟩ :: rest ++ [⟨.releaseFullScan, ()⟩])) =
        written rest := by
      rw [written, List.flatMap_cons, List.cons_append, List.flatMap_cons, List.flatMap_append]
      exact List.append_nil _
    rw [hwritten]
    rcases hverified : verifyTable anchor table with ⟨report, err | err⟩
    · rw [hverified] at hrest
      exact runs_sendJSON hrest
    · rw [hverified] at hrest
      exact absurd (runs_ret_iff.mp hrest).2 (by simp)

lemma verifyTable_lastAnchor {more : List Ledger} (h : ValidChain (rows ++ more))
    (hb : List.Forall₂ ReadBack (rows ++ more) got) (hp : table.Perm got) :
    (verifyTable (lastAnchor rows) table).1.valid = true := by
  rw [lastAnchor]
  cases hlast : rows.getLast? with
  | none => exact congrArg (·.1.valid) ((h.readBack hb).verifyTable_eq hp)
  | some row =>
    exact verifyTable_of_mem h (List.mem_append_left _ (List.mem_of_getLast? hlast)) hb hp

lemma begins_of_lastAnchor (h : ValidChain rows) (hnd : (table.map seqNum).Nodup)
    (hno : NoCollision (rows ++ table))
    (hv : (verifyTable (lastAnchor rows) table).1.valid = true) :
    ∃ start, start <+: selectAfter 0 table ∧ List.Forall₂ SameRow start rows := by
  rw [lastAnchor] at hv
  cases hlast : rows.getLast? with
  | none =>
    rw [List.getLast?_eq_none_iff.mp hlast]
    exact ⟨[], List.nil_prefix, .nil⟩
  | some row =>
    rw [hlast] at hv
    have hall : rows.filter (fun e => e.seqNum ≤ row.seqNum) = rows := by
      obtain ⟨before, rfl⟩ := List.getLast?_eq_some_iff.mp hlast
      obtain ⟨-, -, hbefore⟩ := List.pairwise_append.mp h.sorted
      rw [List.filter_eq_self]
      intro e he
      rcases List.mem_append.mp he with he | he
      · simpa using (hbefore e he row (by simp)).le
      · simp [List.mem_singleton.mp he]
    obtain ⟨e, he, hseq⟩ : ∃ e ∈ selectAfter 0 table, e.seqNum = row.seqNum :=
      ((verifyTable_valid_iff _ _).mp hv).2 _ rfl
    obtain ⟨before, after, hsel, hfilter⟩ := filter_le_of_sorted (selectAfter_sorted hnd) he
    have hsame := sameRows_of_anchor h (List.mem_of_getLast? hlast) hnd hno hv
    rw [hall, ← hseq, hfilter] at hsame
    exact ⟨before ++ [e], ⟨after, hsel.symm⟩, hsame⟩

end Verify

section Served
variable {base got table : List Ledger} {ls : List (Label AppendOp AppendRes)} {c : AppendPool}
  {r r' : Request} {tr tr' : List (Answered DeskOp DeskRes)} {contentLength : ℤ}

/-- The answer to a request for the head, posted to a later verification as it is. As long as the
numbers last, the ledger of that time is then reported valid, and a table that is reported valid
begins with the rows the ledger had when the head was read. -/
theorem head_anchors_ledger (hbase : ValidChain base)
    (hr : Run DB.machine.semantics AppendCall (Pool.initial (DB.ofRows base)) ls c)
    (hlength : (c.shared.rows.length : ℤ) ≤ maxInt64)
    (hb : List.Forall₂ ReadBack c.shared.rows got) (hp : table.Perm got)
    (hhead : Runs (handleHead r) tr (.sent none)) (hfrom : HeadFrom table tr)
    (hmethod : r'.method = lit "POST") (hposted : r'.body.bytes = written tr)
    (hannounced : contentLength ≠ 0)
    (hverify : Runs (handleVerify r' contentLength) tr' (.sent none)) {later : List Ledger}
    (hreads : ReadsAll later tr') :
    ∃ report : VerifyReport, written tr' = encode report.document ++ [10] ∧
      (∀ ms d now, Run DB.machine.semantics AppendCall c ms d →
        (d.shared.rows.length : ℤ) ≤ maxInt64 →
        List.Forall₂ ReadBack d.shared.rows now → later.Perm now → report.valid = true) ∧
      (report.valid = true → (later.map seqNum).Nodup → NoCollision (c.shared.rows ++ later) →
        ∃ start, start <+: selectAfter 0 later ∧ List.Forall₂ SameRow start c.shared.rows) := by
  have hchain := (DB.sound_run hbase hr).inv.chain hlength
  obtain ⟨hbody, hstrict⟩ := written_handleHead hhead hfrom
  have hanchor : bodyAnchor r'.body.bytes = some (lastAnchor c.shared.rows) := by
    rw [hposted, hbody, ← lastAnchor_readBack hb]
    exact bodyAnchor_headBody (hchain.readBack hb) hp (hb.length_eq ▸ hlength) hstrict
  refine ⟨_, written_handleVerify hmethod hannounced hanchor hverify hreads, ?_, ?_⟩
  · intro ms d now hrun hroom hnow hperm
    obtain ⟨more, hmore⟩ := DB.rows_of_run hrun
    have hgrown := (DB.sound_run hbase (hr.trans hrun)).inv.chain hroom
    rw [hmore] at hgrown hnow
    exact verifyTable_lastAnchor hgrown hnow hperm
  · intro hvalid hnd hno
    exact begins_of_lastAnchor hchain hnd hno hvalid

end Served

section Sample
variable {table : List Ledger} {r : Request} {e : Ledger} {anchor : Option Anchor}

lemma verifyTable_err (hv : (verifyTable anchor table).1.valid = true) :
    (verifyTable anchor table).2 = none := by
  have hacc := ((verifyTable_valid_iff anchor table).mp hv).1
  have hrun := eachRow_accepts ⟨true, 0, 0, [], 0, []⟩ false hacc
  simp only [verifyTable, verifyChain, stream, hrun, Option.any_none, Bool.false_eq_true, if_false]
  split <;> rfl

lemma handleHead_runs (hmethod : r.method = lit "GET")
    (hlast : (selectAfter 0 table).getLast? = some e) (hstrict : e.timestamp.Strict) :
    Runs (handleHead r) [⟨.getLedgerHead, headRow table⟩, ⟨.write (headBody table), none⟩]
      (.sent none) := by
  rw [handleHead, if_neg (by simp [hmethod])]
  refine .call ?_
  change Runs (writeHead (headRow table)) _ _
  rw [headRow, headBody, hlast, writeHead, GetLedgerHeadRow.document,
    Time.marshalText_of_strict hstrict]
  exact .call (.ret _)

lemma handleVerify_runs (hmethod : r.method = lit "POST")
    (hanchor : bodyAnchor r.body.bytes = some anchor)
    (hv : (verifyTable anchor table).1.valid = true) :
    Runs (handleVerify r 1) (⟨.acquireFullScan, true⟩ ::
      ([⟨.selectRows 0, .delivered (selectAfter 0 table) .done⟩,
        ⟨.write (encode (verifyTable anchor table).1.document ++ [10]), none⟩] ++
        [⟨.releaseFullScan, ()⟩])) (.sent none) := by
  simp only [handleVerify, hmethod, parseAnchor, hanchor, ne_eq, not_true_eq_false, and_false,
    if_false, one_ne_zero, not_false_eq_true, and_self, if_true]
  refine fullScan_runs (.call ?_)
  change Runs (writeReport (verifyTable anchor table)) _ _
  rw [show verifyTable anchor table = ((verifyTable anchor table).1, none) from
    Prod.ext rfl (verifyTable_err hv)]
  exact .call (.ret _)

lemma headFrom_runs (table : List Ledger) :
    HeadFrom table [⟨.getLedgerHead, headRow table⟩, ⟨.write (headBody table), none⟩] := by
  intro answer hmem
  simp only [List.mem_cons, Sigma.mk.injEq, heq_eq_eq, true_and, reduceCtorEq, false_and,
    List.not_mem_nil, or_false] at hmem
  exact .inl hmem

lemma readsAll_runs (table : List Ledger) (text : Bytes) :
    ReadsAll table (⟨.acquireFullScan, true⟩ ::
      ([⟨.selectRows 0, .delivered (selectAfter 0 table) .done⟩, ⟨.write text, none⟩] ++
        [⟨.releaseFullScan, ()⟩])) := by
  intro afterSeq answer hmem
  simp only [List.cons_append, List.nil_append, List.mem_cons, Sigma.mk.injEq,
    DeskOp.selectRows.injEq, reduceCtorEq, false_and, List.not_mem_nil, or_false, false_or]
    at hmem
  obtain ⟨rfl, hanswer⟩ := hmem
  exact eq_of_heq hanswer

/-- A request for the head after two appends, and a verification with its answer after a third
one. -/
theorem head_anchors_ledger_sample : ∃ ls c ms d r tr r' tr',
    Run DB.machine.semantics AppendCall (Pool.initial (DB.ofRows [])) ls c ∧
      c.shared.rows.map agent = [lit "a", lit "b"] ∧
      Run DB.machine.semantics AppendCall c ms d ∧
      d.shared.rows.map agent = [lit "a", lit "b", lit "c"] ∧
      Runs (handleHead r) tr (.sent none) ∧ r'.body.bytes = written tr ∧
      Runs (handleVerify r' 1) tr' (.sent none) ∧
      ∃ report : VerifyReport, written tr' = encode report.document ++ [10] ∧
        report.valid = true := by
  have hplay : (DB.machine.play overlappingAppends (Pool.initial (DB.ofRows []))).bind (fun c =>
      (DB.machine.play laterAppend c).map fun d => (c.shared.rows.map agent,
        decide (∀ row ∈ c.shared.rows, (row.inZone 0).timestamp.Strict),
        d.shared.rows.map agent)) =
      some ([lit "a", lit "b"], true, [lit "a", lit "b", lit "c"]) := by decide +kernel
  obtain ⟨c, hc, hlater⟩ := Option.bind_eq_some_iff.mp hplay
  obtain ⟨d, hd, hfacts⟩ := Option.map_eq_some_iff.mp hlater
  simp only [Prod.mk.injEq, decide_eq_true_eq] at hfacts
  obtain ⟨hagents, htimes, hagents'⟩ := hfacts
  obtain ⟨ls, hr⟩ := Machine.play_run overlappingAppends_calls hc
  obtain ⟨ms, hrun⟩ := Machine.play_run laterAppend_calls hd
  have hlength : (c.shared.rows.length : ℤ) ≤ maxInt64 := by
    rw [← List.length_map (f := agent), hagents]
    decide
  have hroom : (d.shared.rows.length : ℤ) ≤ maxInt64 := by
    rw [← List.length_map (f := agent), hagents']
    decide
  have hb := readBack_inZone 0 c.shared.rows
  have hb' := readBack_inZone 0 d.shared.rows
  have hchain := (DB.sound_run validChain_nil hr).inv.chain hlength
  have hgot := hchain.readBack hb
  set table := c.shared.rows.map (inZone 0) with htable
  set later := d.shared.rows.map (inZone 0) with hlater
  have hsel : selectAfter 0 table = table := selectAfter_of_sorted (.refl _) hgot.sorted
  obtain ⟨e, hlast⟩ : ∃ e, table.getLast? = some e := by
    refine Option.ne_none_iff_exists'.mp fun hnone => ?_
    have hnil := List.getLast?_eq_none_iff.mp hnone
    rw [htable, List.map_eq_nil_iff] at hnil
    simp [hnil] at hagents
  have hstrict : e.timestamp.Strict := by
    obtain ⟨row, hrow, rfl⟩ := List.mem_map.mp (List.mem_of_getLast? hlast)
    exact htimes row hrow
  have hhead := handleHead_runs (r := pageRequest "") rfl (hsel.symm ▸ hlast) hstrict
  have hanchor : bodyAnchor (headBody table) = some (lastAnchor c.shared.rows) := by
    rw [← lastAnchor_readBack hb]
    refine bodyAnchor_headBody hgot (.refl _) (hb.length_eq ▸ hlength) fun f hf => ?_
    rw [hsel, hlast] at hf
    exact Option.some.inj hf ▸ hstrict
  have hvalid : (verifyTable (lastAnchor c.shared.rows) later).1.valid = true := by
    obtain ⟨more, hmore⟩ := DB.rows_of_run hrun
    have hgrown := (DB.sound_run validChain_nil (hr.trans hrun)).inv.chain hroom
    rw [hmore] at hgrown
    exact verifyTable_lastAnchor hgrown (hmore ▸ hb') (.refl _)
  let posted : Request := { pageRequest "" with
    method := lit "POST", body := ⟨headBody table, none⟩ }
  have hverify := handleVerify_runs (r := posted) rfl hanchor hvalid
  have hposted : posted.body.bytes = written [⟨.getLedgerHead, headRow table⟩,
      ⟨.write (headBody table), none⟩] := by simp [written, posted]
  obtain ⟨report, hwritten, hgrown, -⟩ := head_anchors_ledger validChain_nil hr hlength hb
    (.refl _) hhead (headFrom_runs table) rfl hposted one_ne_zero hverify (readsAll_runs later _)
  exact ⟨ls, c, ms, d, _, _, posted, _, hr, hagents, hrun, hagents', hhead, hposted, hverify,
    report, hwritten, hgrown ms d later hrun hroom hb' (.refl _)⟩

end Sample

end KiteRail.Ledger
