import KiteRail.LedgerHandler

/-! Exports of the ledger. However an export is cut off, its complete lines are the first entries
of what was asked for, and an export that starts after the last of them goes on without gap, so a
consumer ends up with the chain itself and can verify it without the database. -/
namespace KiteRail.Ledger
open Bytes Json GoStrconv Prog
open Proxy (Request)

section Lines
variable {e : Ledger}

/-- Entries that JSON can carry: texts are UTF-8, the number fits, and the timestamp is one that
RFC 3339 can say exactly. -/
structure Exportable (e : Ledger) : Prop where
  texts : ∀ t ∈ [e.agent, e.tool, e.decision, e.policyRule, e.payloadHash, e.prevHash, e.hash,
    e.requestID, e.policyVersion], Utf8.valid t = true
  seq_pos : 0 ≤ e.seqNum
  seq_le : e.seqNum ≤ maxInt64
  strict : e.timestamp.Strict
  minutes : Time.WholeMinutes e.timestamp.offset

def line (e : Ledger) : Bytes := encode (document e e.timestamp.formatRFC3339Nano)

lemma marshalEntry_eq (h : Exportable e) : marshalEntry e = .ok (line e) := by
  rw [marshalEntry, marshalDocument_eq h.strict]
  rfl

lemma numbers_document (e : Ledger) (ts : Bytes) : ∀ t ∈ numbers (document e ts), Number t := by
  simp only [document, numbers, numbersMembers_eq, List.flatMap_cons, List.flatMap_nil,
    List.append_nil, List.mem_singleton, forall_eq]
  exact number_decimal e.seqNum

lemma line_not_break (e : Ledger) : 10 ∉ line e := fun hmem =>
  encode_printable _ (numbers_document _ _) 10 hmem (by decide)

lemma fills_document (h : Exportable e) : ∃ ms,
    document e e.timestamp.formatRFC3339Nano = .obj ms ∧ Fills jsonFields zero ms e := by
  have htexts := h.texts
  simp only [List.forall_mem_cons] at htexts
  obtain ⟨hagent, htool, hdec, hrule, hpay, hprev, hhash, hreq, hver, -⟩ := htexts
  refine ⟨_, rfl, ?_⟩
  refine .cons (by decide) rfl (field_eq (decodeInt64_decimal h.seq_pos h.seq_le)) ?_
  refine .cons (by decide) rfl (field_eq (Time.decodeTime_format h.strict h.minutes)) ?_
  refine .cons (by decide) rfl (field_eq (decodeString_str hagent)) ?_
  refine .cons (by decide) rfl (field_eq (decodeString_str htool)) ?_
  refine .cons (by decide) rfl (field_eq (decodeString_str hdec)) ?_
  refine .cons (by decide) rfl (field_eq (decodeString_str hrule)) ?_
  refine .cons (by decide) rfl (field_eq (decodeString_str hpay)) ?_
  refine .cons (by decide) rfl (field_eq (decodeString_str hprev)) ?_
  refine .cons (by decide) rfl (field_eq (decodeString_str hhash)) ?_
  refine .cons (by decide) rfl (field_eq (decodeString_str hreq)) ?_
  exact .cons (by decide) rfl (field_eq (decodeString_str hver)) (.nil _)

/-- A line is decoded to the entry it was written for. -/
theorem unmarshalEntry_line (h : Exportable e) : unmarshalEntry (line e) = some e := by
  have hdepth : depth (document e e.timestamp.formatRFC3339Nano) ≤ maxNestingDepth := by
    simp [document, depth, depthMembers, maxNestingDepth]
  have hparse := parse_encode (document e e.timestamp.formatRFC3339Nano)
    (numbers_document _ _) hdepth
  obtain ⟨ms, hdoc, hfills⟩ := fills_document h
  have hdec := hfills.decodeStruct
  rw [← hdoc] at hdec
  simp only [unmarshalEntry, unmarshal, line, hparse, Option.bind_some, decoded, hdec, if_true]

end Lines

section Traces
variable {rows : List Ledger} {tr : List (Answered DeskOp DeskRes)}

def written (tr : List (Answered DeskOp DeskRes)) : Bytes :=
  tr.flatMap fun
    | ⟨.write body, _⟩ => body
    | _ => []

/-- The loop writes the lines of the first rows, and of all if it reports no error. -/
lemma written_writeRows {fin : RowsEnd} {err : Option GoError} (h : ∀ e ∈ rows, Exportable e)
    (hr : Runs (writeRows rows fin) tr err) :
    ∃ k, written tr = joinLines ((rows.take k).map line) ∧
      (err = none → rows.take k = rows ∧ fin.err = none) := by
  induction rows generalizing tr with
  | nil =>
    obtain ⟨rfl, rfl⟩ := runs_ret_iff.mp hr
    exact ⟨0, rfl, fun hnone => ⟨rfl, hnone⟩⟩
  | cons e rows ih =>
    rw [List.forall_mem_cons] at h
    rw [writeRows, marshalEntry_eq h.1] at hr
    obtain ⟨answer, rest, rfl, hrest⟩ := runs_call_iff.mp hr
    have hwrite : written (⟨.write (line e ++ [10]), answer⟩ :: rest) =
        (line e ++ [10]) ++ written rest := rfl
    cases answer with
    | some cause =>
      obtain ⟨rfl, rfl⟩ := runs_ret_iff.mp hrest
      refine ⟨1, ?_, by simp⟩
      rw [hwrite]
      simp [written, joinLines]
    | none =>
      obtain ⟨k, hk, hall⟩ := ih h.2 hrest
      refine ⟨k + 1, ?_, fun hnone => ?_⟩
      · rw [hwrite, hk, List.take_succ_cons, List.map_cons, joinLines, joinLines,
          List.flatMap_cons]
      · rw [List.take_succ_cons, (hall hnone).1]
        exact ⟨rfl, (hall hnone).2⟩

/-- An answer from a table: an error, or the selected rows up to their end or an error. -/
def Answers (table : List Ledger) (afterSeq : ℤ) : RowsAnswer → Prop
  | .failed _ => True
  | .delivered rows fin => rows <+: selectAfter afterSeq table ∧
      (fin.err = none → rows = selectAfter afterSeq table)

def ReadsFrom (table : List Ledger) (tr : List (Answered DeskOp DeskRes)) : Prop :=
  ∀ afterSeq answer, (⟨.selectRows afterSeq, answer⟩ : Answered DeskOp DeskRes) ∈ tr →
    Answers table afterSeq answer

/-- A scan that is refused does nothing, and one that is admitted opens the gate again. -/
lemma runs_fullScan {scan : DeskProg DeskResponse} {response : DeskResponse}
    (h : Runs (fullScan scan) tr response) :
    (tr = [⟨.acquireFullScan, false⟩] ∧ ∃ status body, response = .failed status body) ∨
      ∃ inner, tr = ⟨.acquireFullScan, true⟩ :: (inner ++ [⟨.releaseFullScan, ()⟩]) ∧
        Runs scan inner response := by
  obtain ⟨admitted, rest, rfl, hrest⟩ := runs_call_iff.mp h
  cases admitted with
  | false =>
    obtain ⟨rfl, rfl⟩ := runs_ret_iff.mp hrest
    exact .inl ⟨rfl, _, _, rfl⟩
  | true =>
    change Runs (scan >>= fun answer => releaseFullScan >>= fun _ => pure answer) rest response
      at hrest
    obtain ⟨inner, release, answer, rfl, hscan, hrelease⟩ := runs_bind_iff.mp hrest
    obtain ⟨_, last, rfl, hret⟩ := runs_call_iff.mp hrelease
    obtain ⟨rfl, rfl⟩ := runs_ret_iff.mp hret
    exact .inr ⟨inner, rfl, hscan⟩

lemma written_append (tr tr' : List (Answered DeskOp DeskRes)) :
    written (tr ++ tr') = written tr ++ written tr' := List.flatMap_append

lemma written_streamExport {table : List Ledger} {after : ℤ} {err : Option GoError}
    (hcarried : ∀ e ∈ selectAfter after table, Exportable e)
    (hr : Runs (streamExport after) tr err) (hreads : ReadsFrom table tr) :
    ∃ sent, sent <+: selectAfter after table ∧ written tr = joinLines (sent.map line) ∧
      (err = none → sent = selectAfter after table) := by
  obtain ⟨answer, rest, rfl, hrest⟩ := runs_call_iff.mp hr
  have hanswer := hreads after answer List.mem_cons_self
  cases answer with
  | failed cause =>
    obtain ⟨rfl, rfl⟩ := runs_ret_iff.mp hrest
    exact ⟨[], List.nil_prefix, rfl, by simp⟩
  | delivered rows fin =>
    obtain ⟨hsel, hdone⟩ := hanswer
    obtain ⟨k, hk, hall⟩ := written_writeRows (fun e he => hcarried e (hsel.subset he)) hrest
    refine ⟨rows.take k, (List.take_prefix k rows).trans hsel, hk, fun hnone => ?_⟩
    obtain ⟨hrows, hfin⟩ := hall hnone
    rw [hrows, hdone hfin]

/-- An export writes the lines of the first rows after the number, and of all of them if it
reports no error. -/
lemma written_handleExport {table : List Ledger} {r : Request} {after : ℤ}
    {response : DeskResponse} (hmethod : r.method = lit "GET")
    (hafter : exportAfter (param r (lit "after_seq")) = some after)
    (hcarried : ∀ e ∈ selectAfter after table, Exportable e)
    (hr : Runs (handleExport r) tr response) (hreads : ReadsFrom table tr) :
    ∃ sent, sent <+: selectAfter after table ∧ written tr = joinLines (sent.map line) ∧
      (response = .sent none → sent = selectAfter after table) := by
  simp only [handleExport, hmethod, ne_eq, not_true_eq_false, if_false, hafter] at hr
  rcases runs_fullScan hr with ⟨rfl, status, body, rfl⟩ | ⟨inner, rfl, hscan⟩
  · exact ⟨[], List.nil_prefix, rfl, by simp⟩
  · obtain ⟨stream, last, err, rfl, hstream, hlast⟩ := runs_bind_iff.mp hscan
    obtain ⟨rfl, rfl⟩ := runs_ret_iff.mp hlast
    obtain ⟨sent, hsent, hwritten, hall⟩ := written_streamExport hcarried hstream
      fun afterSeq answer hmem => hreads afterSeq answer (by simp [hmem])
    refine ⟨sent, hsent, ?_, fun hok => hall (DeskResponse.sent.inj hok)⟩
    have hend : written [⟨.releaseFullScan, ()⟩] = [] := rfl
    rw [List.append_nil, ← List.singleton_append, written_append, written_append, hwritten, hend,
      List.append_nil]
    rfl

end Traces

section Selection
variable {rows table : List Ledger}

lemma selectAfter_eq_filter (n : ℤ) (table : List Ledger) : selectAfter n table =
    selectAfter 0 (if 0 < n then table.filter (fun e => n < e.seqNum) else table) := by
  simp only [selectAfter, lt_self_iff_false, if_false]

/-- After a number come the rows behind that many, whatever their physical order. -/
lemma selectAfter_eq_drop (h : ValidChain rows) (hp : table.Perm rows) (n : ℕ) :
    selectAfter n table = rows.drop n := by
  have hdrop : rows.filter (fun e => (n : ℤ) < e.seqNum) = rows.drop n := by
    have hsplit := List.take_append_drop n rows
    have htake : (rows.take n).filter (fun e => (n : ℤ) < e.seqNum) = [] := by
      refine List.filter_eq_nil_iff.mpr fun e he => ?_
      obtain ⟨i, hi⟩ := List.mem_iff_getElem?.mp he
      obtain ⟨hlt, -⟩ := List.getElem?_eq_some_iff.mp hi
      rw [List.length_take] at hlt
      have hat : rows[i]? = some e := by rwa [List.getElem?_take_of_lt (by omega)] at hi
      have hseq := h.seqNum_of_getElem? hat
      simp only [decide_eq_true_eq]
      omega
    have hrest : (rows.drop n).filter (fun e => (n : ℤ) < e.seqNum) = rows.drop n := by
      refine List.filter_eq_self.mpr fun e he => ?_
      obtain ⟨i, hi⟩ := List.mem_iff_getElem?.mp he
      rw [List.getElem?_drop] at hi
      have hseq := h.seqNum_of_getElem? hi
      push_cast at hseq
      simp only [decide_eq_true_eq]
      omega
    conv_lhs => rw [← hsplit, List.filter_append, htake, hrest, List.nil_append]
  rw [selectAfter_eq_filter]
  split_ifs with hn
  · rw [← hdrop]
    exact selectAfter_of_sorted (hp.filter _) (h.sorted.filter _)
  · obtain rfl : n = 0 := by omega
    exact selectAfter_of_sorted hp h.sorted

end Selection

section Resume

/-- What a consumer asks for: the entries after the last one it has. -/
def cursor (received : List Ledger) : Bytes :=
  (received.getLast?.map fun e => decimal e.seqNum).getD []

/-- One request for an export of a ledger, by a consumer with some entries already: the rows come
in the zone of the connection and in any physical order, the stream may end early, and the
consumer gets any part of it from its beginning. -/
structure Attempt (ledger received : List Ledger) where
  zone : ℤ
  table : List Ledger
  request : Request
  trace : List (Answered DeskOp DeskRes)
  response : DeskResponse
  got : Bytes
  stored : table.Perm (ledger.map (inZone zone))
  carried : ∀ row ∈ ledger, Exportable (row.inZone zone)
  method : request.method = lit "GET"
  asked : param request (lit "after_seq") = cursor received
  runs : Runs (handleExport request) trace response
  reads : ReadsFrom table trace
  cut : got <+: written trace

def Attempt.decoded {ledger received : List Ledger} (a : Attempt ledger received) :
    Option (List Ledger) :=
  (completeLines a.got).mapM unmarshalEntry

/-- A consumer that asks again and again, from the ledger `c` on: what it has, and the ledger
after any appends in between. -/
inductive Resumed (c : AppendPool) : List Ledger → AppendPool → Prop
  | start : Resumed c [] c
  | next {received more : List Ledger} {d e : AppendPool} {ls : List (Label AppendOp AppendRes)}
      (hbefore : Resumed c received d) (hrun : Run DB.machine.semantics AppendCall d ls e)
      (attempt : Attempt e.shared.rows received) (hmore : attempt.decoded = some more) :
      Resumed c (received ++ more) e

variable {ledger received : List Ledger}

lemma readBack_seqNum {got : List Ledger} (h : List.Forall₂ ReadBack ledger got) :
    got.map seqNum = ledger.map seqNum := by
  induction h with
  | nil => rfl
  | cons hrow _ ih =>
    obtain ⟨offset, rfl⟩ := hrow
    rw [List.map_cons, List.map_cons, ih]
    rfl

lemma readBack_inZone (zone : ℤ) (rows : List Ledger) :
    List.Forall₂ ReadBack rows (rows.map (inZone zone)) :=
  List.forall₂_map_right_iff.mpr (List.forall₂_same.mpr fun _ _ => ⟨zone, rfl⟩)

lemma exportAfter_cursor (h : ValidChain ledger)
    (hhas : List.Forall₂ ReadBack (ledger.take received.length) received)
    (hfit : ∀ row ∈ ledger, row.seqNum ≤ maxInt64) :
    exportAfter (cursor received) = some (received.length : ℤ) := by
  rcases List.eq_nil_or_concat' received with rfl | ⟨init, last, rfl⟩
  · rfl
  · have hseqs := congrArg (fun xs : List ℤ => xs[init.length]?) (readBack_seqNum hhas)
    simp only [List.map_append, List.map_cons, List.map_nil, List.getElem?_map,
      List.length_append, List.length_cons, List.length_nil, zero_add] at hseqs
    rw [List.getElem?_take_of_lt (Nat.lt_succ_self _),
      List.getElem?_append_right (by simp)] at hseqs
    obtain ⟨row, hrow, hseq⟩ := Option.map_eq_some_iff.mp
      (hseqs.symm.trans (by simp : _ = some last.seqNum))
    have hlast : last.seqNum = ((init.length + 1 : ℕ) : ℤ) := by
      rw [← hseq, h.seqNum_of_getElem? hrow]
      push_cast
      rfl
    have hle := hfit row (List.mem_of_getElem? hrow)
    rw [hseq, hlast] at hle
    have hne : decimal ((init.length + 1 : ℕ) : ℤ) ≠ [] := decimalNat_ne_nil _
    have hpos : (fun n : ℤ => decide (0 ≤ n)) ((init.length + 1 : ℕ) : ℤ) = true :=
      decide_eq_true (Int.natCast_nonneg _)
    rw [cursor, List.getLast?_concat, Option.map_some, Option.getD_some, hlast, exportAfter,
      if_neg hne, parseInt_decimal hle, Option.filter_some, if_pos hpos, List.length_append,
      List.length_singleton]

lemma mapM_unmarshalEntry {rows : List Ledger} (h : ∀ e ∈ rows, Exportable e) :
    (rows.map line).mapM unmarshalEntry = some rows := by
  induction rows with
  | nil => rfl
  | cons e rows ih =>
    rw [List.forall_mem_cons] at h
    rw [List.map_cons, List.mapM_cons, unmarshalEntry_line h.1, ih h.2]
    rfl

/-- What an attempt adds: some of the entries that come next, and all of them if nothing went
wrong. -/
lemma Attempt.adds (h : ValidChain ledger)
    (hhas : List.Forall₂ ReadBack (ledger.take received.length) received)
    (a : Attempt ledger received) :
    ∃ more, a.decoded = some more ∧ more <+: (ledger.drop received.length).map (inZone a.zone) ∧
      (a.response = .sent none → a.got = written a.trace →
        more = (ledger.drop received.length).map (inZone a.zone)) := by
  have hchain := h.readBack (readBack_inZone a.zone ledger)
  have hsel : selectAfter received.length a.table =
      (ledger.drop received.length).map (inZone a.zone) := by
    rw [selectAfter_eq_drop hchain a.stored, List.map_drop]
  have hcarried : ∀ e ∈ selectAfter received.length a.table, Exportable e := by
    rw [hsel]
    intro e he
    obtain ⟨row, hrow, rfl⟩ := List.mem_map.mp he
    exact a.carried row (List.mem_of_mem_drop hrow)
  have hafter : exportAfter (param a.request (lit "after_seq")) = some (received.length : ℤ) := by
    rw [a.asked]
    exact exportAfter_cursor h hhas fun row hrow => (a.carried row hrow).seq_le
  obtain ⟨sent, hsent, hwritten, hall⟩ :=
    written_handleExport a.method hafter hcarried a.runs a.reads
  have hlines : ∀ l ∈ sent.map line, 10 ∉ l := by
    intro l hl
    obtain ⟨e, he, rfl⟩ := List.mem_map.mp hl
    exact line_not_break e
  rw [hsel] at hsent hall hcarried
  have hcut := a.cut
  rw [hwritten] at hcut
  obtain ⟨k, hk⟩ : ∃ k, completeLines a.got = (sent.take k).map line := by
    have hcomplete := completeLines_prefix hlines hcut
    exact ⟨_, by rw [List.map_take]; exact List.prefix_iff_eq_take.mp hcomplete⟩
  have htake : sent.take k <+: (ledger.drop received.length).map (inZone a.zone) :=
    (List.take_prefix k sent).trans hsent
  have hdec := mapM_unmarshalEntry fun e he => hcarried e (htake.subset he)
  refine ⟨sent.take k, by rw [decoded, hk, hdec], htake, fun hok hgot => ?_⟩
  have hwhole : completeLines a.got = sent.map line := by
    rw [hgot, hwritten, completeLines_joinLines hlines]
  have hmap : (sent.take k).map line = sent.map line := hk.symm.trans hwhole
  have hlen := congrArg List.length hmap
  rw [List.length_map, List.length_map] at hlen
  rw [(List.take_prefix k sent).eq_of_length hlen, hall hok]

variable {base : List Ledger} {ls ms : List (Label AppendOp AppendRes)} {c d : AppendPool}

lemma Resumed.run (h : Resumed c received d) :
    ∃ ls, Run DB.machine.semantics AppendCall c ls d := by
  induction h with
  | start => exact ⟨[], .nil c⟩
  | next _ hrun _ _ ih =>
    obtain ⟨ls, hls⟩ := ih
    exact ⟨_, hls.trans hrun⟩

lemma readBack_later (hrun : Run DB.machine.semantics AppendCall c ms d)
    (h : List.Forall₂ ReadBack (c.shared.rows.take received.length) received) :
    List.Forall₂ ReadBack (d.shared.rows.take received.length) received := by
  obtain ⟨added, hadded⟩ := DB.rows_of_run hrun
  have hlen := h.length_eq
  rw [List.length_take] at hlen
  rwa [hadded, List.take_append_of_le_length (by omega)]

lemma readBack_append {more : List Ledger} {zone : ℤ}
    (h : List.Forall₂ ReadBack (ledger.take received.length) received)
    (hmore : more <+: (ledger.drop received.length).map (inZone zone)) :
    List.Forall₂ ReadBack (ledger.take (received ++ more).length) (received ++ more) := by
  have htake : more = ((ledger.drop received.length).take more.length).map (inZone zone) := by
    rw [List.map_take]
    exact List.prefix_iff_eq_take.mp hmore
  rw [List.length_append, List.take_add]
  refine List.rel_append h ?_
  conv_rhs => rw [htake]
  exact readBack_inZone zone _

lemma ValidChain.take {rows : List Ledger} (h : ValidChain rows) (n : ℕ) :
    ValidChain (rows.take n) where
  seq := by
    rw [List.map_take, h.seq, ← List.map_take, List.take_range, List.length_take]
  linked := by
    have hl := h.linked
    rw [← List.take_append_drop n rows] at hl
    exact ((HashChain.linked_append _ _ _ _).mp hl).1

lemma Attempt.chain (hbase : ValidChain base)
    (hr : Run DB.machine.semantics AppendCall (Pool.initial (DB.ofRows base)) ls c)
    (a : Attempt c.shared.rows received) : ValidChain c.shared.rows := by
  have hgood := (DB.sound_run hbase hr).inv
  refine hgood.chain (not_lt.mp fun hlong => ?_)
  obtain ⟨row, hrow, hout⟩ := hgood.wrapped hlong
  have hpos : 0 ≤ row.seqNum := (a.carried row hrow).seq_pos
  have hle : row.seqNum ≤ maxInt64 := (a.carried row hrow).seq_le
  omega

/-- A consumer has the first entries of the ledger, each once and in order, and they are a
chain. -/
lemma Resumed.has (hbase : ValidChain base)
    (hr : Run DB.machine.semantics AppendCall (Pool.initial (DB.ofRows base)) ls c)
    (h : Resumed c received d) :
    List.Forall₂ ReadBack (d.shared.rows.take received.length) received ∧
      ValidChain received := by
  induction h with
  | start => exact ⟨.nil, validChain_nil⟩
  | @next received more d e ls hbefore hrun attempt hmore ih =>
    obtain ⟨ls', hls⟩ := hbefore.run
    have hchain := attempt.chain hbase (hr.trans (hls.trans hrun))
    have hhas := readBack_later hrun ih.1
    obtain ⟨more', hdec, hsome, -⟩ := attempt.adds hchain hhas
    obtain rfl : more' = more := Option.some.inj (hdec.symm.trans hmore)
    have hgrown := readBack_append hhas hsome
    exact ⟨hgrown, (hchain.take _).readBack hgrown⟩

/-- Exports of the ledger, interrupted anywhere and asked for again, while entries are appended.
What arrives can always be decoded, and together it is the beginning of the chain: each entry
once, in order, as it was committed, so it verifies without the database. An export that is not
interrupted brings everything that was committed when it was asked for. -/
theorem export_resumes {base : List Ledger} (hbase : ValidChain base)
    {ls : List (Label AppendOp AppendRes)} {c d : AppendPool} {received : List Ledger}
    (hr : Run DB.machine.semantics AppendCall (Pool.initial (DB.ofRows base)) ls c)
    (h : Resumed c received d) :
    List.Forall₂ ReadBack (d.shared.rows.take received.length) received ∧
    (verifyTable none received).1 = ⟨true, received.length, received.length,
      HashChain.tip scheme [] received, 0, []⟩ ∧
    ∀ ms e, Run DB.machine.semantics AppendCall d ms e →
      ∀ a : Attempt e.shared.rows received, ∃ more, a.decoded = some more ∧
        (a.response = .sent none → a.got = written a.trace →
          List.Forall₂ ReadBack e.shared.rows (received ++ more)) := by
  obtain ⟨hhas, hreceived⟩ := h.has hbase hr
  obtain ⟨ls', hls⟩ := h.run
  refine ⟨hhas, ?_, fun ms e hrun a => ?_⟩
  · rw [hreceived.verifyTable_eq (List.Perm.refl _)]
  · have hchain := a.chain hbase (hr.trans (hls.trans hrun))
    have hlater := readBack_later hrun hhas
    obtain ⟨more, hdec, -, hall⟩ := a.adds hchain hlater
    refine ⟨more, hdec, fun hok hgot => ?_⟩
    have hwhole : List.Forall₂ ReadBack _ (received ++ _) := List.rel_append hlater
      (readBack_inZone a.zone (e.shared.rows.drop received.length))
    rw [hall hok hgot]
    simpa only [List.take_append_drop] using hwhole

end Resume

section Sample

instance (e : Ledger) : Decidable e.Exportable :=
  decidable_of_iff ((∀ t ∈ [e.agent, e.tool, e.decision, e.policyRule, e.payloadHash, e.prevHash,
      e.hash, e.requestID, e.policyVersion], Utf8.valid t = true) ∧ 0 ≤ e.seqNum ∧
      e.seqNum ≤ maxInt64 ∧ e.timestamp.Strict ∧ e.timestamp.offset % 60 = 0)
    ⟨fun h => ⟨h.1, h.2.1, h.2.2.1, h.2.2.2.1, h.2.2.2.2⟩,
      fun h => ⟨h.texts, h.seq_pos, h.seq_le, h.strict, h.minutes⟩⟩

lemma runs_writeRows {rows : List Ledger} (h : ∀ e ∈ rows, Exportable e) (fin : RowsEnd) :
    Runs (writeRows rows fin) (rows.map fun e => ⟨.write (line e ++ [10]), none⟩) fin.err := by
  induction rows with
  | nil => exact .ret _
  | cons e rows ih =>
    rw [List.forall_mem_cons] at h
    rw [writeRows, marshalEntry_eq h.1]
    exact .call (ih h.2)

lemma fullScan_runs {scan : DeskProg DeskResponse} {tr : List (Answered DeskOp DeskRes)}
    {response : DeskResponse} (h : Runs scan tr response) :
    Runs (fullScan scan) (⟨.acquireFullScan, true⟩ :: (tr ++ [⟨.releaseFullScan, ()⟩]))
      response := by
  refine .call ?_
  change Runs (scan >>= fun answer => releaseFullScan >>= fun _ => pure answer) _ _
  exact runs_bind_iff.mpr ⟨_, _, _, rfl, h, .call (.ret _)⟩

lemma attempt_of_rows {ledger received rows : List Ledger} {r : Request} {after : ℤ}
    (hcarried : ∀ row ∈ ledger, Exportable (row.inZone 0)) (hmethod : r.method = lit "GET")
    (hasked : param r (lit "after_seq") = cursor received)
    (hafter : exportAfter (cursor received) = some after) {fin : RowsEnd}
    (hanswer : Answers (ledger.map (inZone 0)) after (.delivered rows fin))
    (hrows : ∀ e ∈ rows, Exportable e) :
    ∃ a : Attempt ledger received, a.decoded = some rows := by
  have hstream : Runs (streamExport after) (⟨.selectRows after, .delivered rows fin⟩ ::
      rows.map fun e => ⟨.write (line e ++ [10]), none⟩) fin.err :=
    .call (runs_writeRows hrows fin)
  have hscan : Runs (return .sent (← streamExport after) : DeskProg DeskResponse)
      (⟨.selectRows after, .delivered rows fin⟩ ::
        rows.map fun e => ⟨.write (line e ++ [10]), none⟩) (.sent fin.err) :=
    runs_bind_iff.mpr ⟨_, [], _, (List.append_nil _).symm, hstream, .ret _⟩
  have hexport : handleExport r = fullScan (return .sent (← streamExport after)) := by
    simp only [handleExport, hmethod, ne_eq, not_true_eq_false, if_false, hasked, hafter]
  have hwrites : written (rows.map fun e => ⟨.write (line e ++ [10]), none⟩) =
      joinLines (rows.map line) := by
    rw [written, joinLines, List.flatMap_map, List.flatMap_map]
  have hlines : ∀ l ∈ rows.map line, 10 ∉ l := by
    intro l hl
    obtain ⟨e, he, rfl⟩ := List.mem_map.mp hl
    exact line_not_break e
  refine ⟨⟨0, _, r, _, _, joinLines (rows.map line), .refl _, hcarried, hmethod, hasked,
    hexport ▸ fullScan_runs hscan, ?_, ?_⟩, ?_⟩
  · intro afterSeq answer hmem
    simp only [List.mem_cons, List.mem_append, List.mem_map, List.not_mem_nil, or_false,
      Sigma.mk.injEq, reduceCtorEq, false_and, and_false, exists_false, false_or] at hmem
    obtain ⟨hop, hans⟩ := hmem
    cases hop
    exact eq_of_heq hans ▸ hanswer
  · rw [← hwrites]
    exact ⟨[], by simp [written]⟩
  · rw [Attempt.decoded, completeLines_joinLines hlines, mapM_unmarshalEntry hrows]

/-- Two entries, of which the first export delivers one and the second the other. -/
theorem export_resumes_sample : ∃ ls c received,
    Run DB.machine.semantics AppendCall (Pool.initial (DB.ofRows [])) ls c ∧
      Resumed c received c ∧ received.map agent = [lit "a", lit "b"] ∧
      (verifyTable none received).1.valid = true := by
  have hplay : (DB.machine.play overlappingAppends (Pool.initial (DB.ofRows []))).map (fun c =>
      (c.shared.rows.map agent, c.shared.rows.map seqNum,
        decide (∀ row ∈ c.shared.rows, Exportable (row.inZone 0)))) =
      some ([lit "a", lit "b"], [1, 2], true) := by decide +kernel
  obtain ⟨c, hc, hfacts⟩ := Option.map_eq_some_iff.mp hplay
  simp only [Prod.mk.injEq, decide_eq_true_eq] at hfacts
  obtain ⟨hagents, hseqs, hcarried⟩ := hfacts
  obtain ⟨ls, hr⟩ := Machine.play_run overlappingAppends_calls hc
  obtain ⟨a, b, hrows⟩ : ∃ a b, c.shared.rows = [a, b] :=
    List.length_eq_two.mp (by simpa using congrArg List.length hagents)
  simp only [hrows, List.map_cons, List.map_nil, List.cons.injEq, and_true] at hseqs hagents
  have ha : Exportable (a.inZone 0) := hcarried a (by simp [hrows])
  have hb : Exportable (b.inZone 0) := hcarried b (by simp [hrows])
  have hroom : (c.shared.rows.length : ℤ) ≤ maxInt64 := by
    rw [hrows, List.length_cons, List.length_singleton]
    decide
  have hchain := ((DB.sound_run validChain_nil hr).inv.chain hroom).readBack
    (readBack_inZone 0 c.shared.rows)
  have hsel : ∀ n : ℕ, selectAfter n (c.shared.rows.map (inZone 0)) =
      [a.inZone 0, b.inZone 0].drop n := by
    intro n
    rw [selectAfter_eq_drop hchain (.refl _), hrows]
    rfl
  have hcursor : cursor [a.inZone 0] = lit "1" := by
    rw [cursor, List.getLast?_singleton, Option.map_some, Option.getD_some]
    exact (congrArg decimal hseqs.1).trans (by decide)
  have hstops : Answers (c.shared.rows.map (inZone 0)) (0 : ℕ)
      (.delivered [a.inZone 0] (.iterFailed .canceled)) :=
    ⟨hsel 0 ▸ ⟨[b.inZone 0], rfl⟩, by simp [RowsEnd.err]⟩
  have hdone : Answers (c.shared.rows.map (inZone 0)) (1 : ℕ) (.delivered [b.inZone 0] .done) :=
    ⟨hsel 1 ▸ List.prefix_rfl, fun _ => (hsel 1).symm⟩
  obtain ⟨first, hfirst⟩ : ∃ first : Attempt c.shared.rows [], first.decoded = some [a.inZone 0] :=
    attempt_of_rows hcarried (show (pageRequest "").method = _ from rfl) (by decide) rfl hstops
      (by simpa using ha)
  obtain ⟨second, hsecond⟩ : ∃ second : Attempt c.shared.rows [a.inZone 0],
      second.decoded = some [b.inZone 0] :=
    attempt_of_rows hcarried (show (pageRequest "after_seq=1").method = _ from rfl)
      (hcursor ▸ by decide) (hcursor ▸ by decide) hdone (by simpa using hb)
  have hresumed : Resumed c ([] ++ [a.inZone 0] ++ [b.inZone 0]) c :=
    .next (.next .start (.nil c) first hfirst) (.nil c) second hsecond
  refine ⟨ls, c, _, hr, hresumed, ?_, ?_⟩
  · simpa [inZone] using hagents
  · rw [(export_resumes validChain_nil hr hresumed).2.1]

end Sample

end KiteRail.Ledger
