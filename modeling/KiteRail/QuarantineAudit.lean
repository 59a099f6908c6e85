import KiteRail.QuarantineSafety

namespace KiteRail.Replay
open Bytes QuarantineStore Discipline

def reviewerName (reviewer : Option Bytes) : Bytes :=
  if reviewer.getD [] = [] then lit "unknown" else reviewer.getD []

/-- `entry` is the record of the replay call for `entryID` that thread `t` makes after
`pre`, in the claim of `row` that follows `before`. -/
structure StartRecorded (lib : UuidLib) (pre : History) (t : ℕ) (entryID : Bytes)
    (before : History) (row : Quarantine) (after : History) (entry : Ledger) : Prop where
  hist : pre = before ++ (t, .claimed row) :: after
  id : lib.text row.id = entryID
  claim : ∀ u other, (u, .claimed other) ∈ after → other.id ≠ row.id
  appended : (t, .appended entry none) ∈ after
  decision : entry.decision = lit "replay_started"
  requestID : entry.requestID = entryID
  hash : ∃ x p held y quarantined, before = x ++ (p, .held held) :: y ∧ held.id = row.id ∧
    (p, .appended quarantined none) ∈ x ∧ quarantined.decision = lit "quarantine" ∧
    entry.payloadHash = quarantined.payloadHash
  reviewer : ∃ x u reviewer y, pre = x ++ (u, .approved row.id reviewer) :: y ∧
    (∀ v other, (v, .approved row.id other) ∉ y) ∧ entry.agent = reviewerName reviewer
  succeeded : ∀ other res, (t, .appended other res) ∈ after →
    other.decision = lit "replay_started" → other.requestID = entryID → res = none

section
variable {lib : UuidLib} {cfg : Config} {pre before after : History} {t : ℕ} {row : Quarantine}
  {u : UUID}

lemma Journal.of_append (h : Journal lib cfg (before ++ after)) : Journal lib cfg before := by
  rintro x t e y rfl
  exact h x t e (y ++ after) (by simp)

lemma not_mem_of_acts_nil {e : Event} {a : Act} (h : acts lib u after = [])
    (he : e.act lib u = some a) : (t, e) ∉ after := by
  intro hmem
  have hnone := List.filterMap_eq_nil_iff.mp h _ hmem
  simp [he] at hnone

/-- The record that the proxy made of a request that was claimed later. -/
lemma Journal.quarantined (h : Journal lib cfg before) (hled : cfg.ledgered) {l : Life}
    (hl : Lives cfg (acts lib u before) (some l)) :
    ∃ x p held y quarantined, before = x ++ (p, .held held) :: y ∧ held.id = u ∧
      (p, .appended quarantined none) ∈ x ∧ quarantined.decision = lit "quarantine" ∧
      quarantined.payloadHash = Proxy.payloadHash l.payload := by
  obtain ⟨rest, hacts⟩ := hl.held
  obtain ⟨x, p, e, y, rfl, he, -, -⟩ := exists_of_acts (hacts.trans (List.nil_append _).symm)
  obtain ⟨held, rfl, hid, hpayload⟩ := act_eq_hold.mp he
  obtain ⟨quarantined, hmem, hdecision, hhash⟩ := h x p _ y rfl hled
  exact ⟨x, p, held, y, quarantined, rfl, hid, hmem, hdecision, hpayload ▸ hhash⟩

lemma last_approval {l : Life} (hl : Lives cfg (acts lib u before) (some l))
    (hp : l.phase = .approved) : ∃ x v y, before = x ++ (v, .approved u l.reviewer) :: y ∧
      ∀ w other, (w, .approved u other) ∉ y := by
  obtain ⟨old, new, hacts, hno, -⟩ := hl.approved (by simp [hp]) (by simp [hp])
  obtain ⟨x, v, e, y, rfl, he, -, hy⟩ := exists_of_acts hacts
  obtain rfl := act_eq_approve.mp he
  refine ⟨x, v, y, rfl, fun w other hmem => hno other ?_⟩
  rw [← hy]
  exact List.mem_filterMap.mpr ⟨_, hmem, by simp [Event.act]⟩

lemma mem_records {entry : Ledger} {res : Option GoError} : (entry, res) ∈ records lib t u after ↔
    (t, .appended entry res) ∈ after ∧ entry.decision = lit "replay_started" ∧
      entry.requestID = lib.text u := by
  rw [records, List.mem_filterMap]
  constructor
  · rintro ⟨⟨t', e⟩, hmem, he⟩
    cases e with
    | appended entry' res' =>
      simp only [Option.ite_none_right_eq_some, Option.some.injEq, Prod.mk.injEq] at he
      obtain ⟨⟨rfl, hdecision, hid⟩, rfl, rfl⟩ := he
      exact ⟨hmem, hdecision, hid⟩
    | _ => simp at he
  · rintro ⟨hmem, hdecision, hid⟩
    exact ⟨_, hmem, by simp [hdecision, hid]⟩

lemma Journal.startRecorded (h : Journal lib cfg pre) (hled : cfg.ledgered) {entryID : Bytes}
    {req : OutRequest} (hj : Justified lib cfg pre t (.called entryID req)) :
    ∃ before row after entry, StartRecorded lib pre t entryID before row after entry := by
  obtain ⟨row, rs, ⟨before, after, rfl, hacts, hrecords⟩, rfl, -, -, hrs⟩ := hj
  rw [hrs hled] at hrecords
  obtain ⟨l, hl, hphase, hpayload, hreviewer⟩ := h before t _ after rfl
  have hmem : (startedEntry lib row, none) ∈ records lib t row.id after := by simp [hrecords]
  obtain ⟨x, p, held, y, quarantined, hbefore, hid, hq, hdecision, hhash⟩ :=
    h.of_append.quarantined hled hl
  obtain ⟨x', v, y', hbefore', hno⟩ := last_approval hl hphase
  refine ⟨before, row, after, startedEntry lib row, rfl, rfl, ?_, (mem_records.mp hmem).1, rfl, rfl,
    ⟨x, p, held, y, quarantined, hbefore, hid, hq, hdecision, ?_⟩,
    ⟨x', v, l.reviewer, y' ++ (t, .claimed row) :: after, by simp [hbefore'], ?_, ?_⟩, ?_⟩
  · intro w other hother heq
    exact not_mem_of_acts_nil (a := .claim) hacts (by simp [Event.act, heq]) hother
  · rw [hhash, ← hpayload]
    rfl
  · intro w other hother
    rcases List.mem_append.mp hother with hother | hother
    · exact hno w other hother
    · rcases List.mem_cons.mp hother with hother | hother
      · simp at hother
      · exact not_mem_of_acts_nil (a := .approve other) hacts (by simp [Event.act]) hother
  · rw [← hreviewer]
    rfl
  · intro other res hother hdecision hid
    have hsame := mem_records.mpr ⟨hother, hdecision, hid⟩
    rw [hrecords] at hsame
    simp only [List.mem_singleton, Prod.mk.injEq] at hsame
    exact hsame.2

end

/-- Nothing executes upstream unaudited. -/
theorem upstream_audited (lib : UuidLib) (cfg : Config) (hled : cfg.ledgered)
    (c : Pool Op Res World Unit) (hc : Reached lib cfg c) :
    (∀ pre t agent out post, c.shared.hist = pre ++ (t, .forwarded agent out) :: post →
      ∃ entry, (t, .appended entry none) ∈ pre ∧ entry.decision = lit "allow" ∧
        entry.agent = agent ∧ entry.payloadHash = hexEncode (Sha256.sum256 out.body)) ∧
    (∀ pre t entryID req post, c.shared.hist = pre ++ (t, .called entryID req) :: post →
      ∃ before row after entry, StartRecorded lib pre t entryID before row after entry) := by
  have hjournal := hc.inv.journal
  refine ⟨fun pre t agent out post h => hjournal pre t _ post h hled, ?_⟩
  intro pre t entryID req post h
  have hj := hjournal pre t _ post h
  rw [h] at hjournal
  exact hjournal.of_append.startRecorded hled hj

theorem upstream_audited_once : ∃ c, Reached sampleLib sampleConfig c ∧
    ∃ pre t entryID req post, c.shared.hist = pre ++ (t, .called entryID req) :: post ∧
      ∃ before row after entry, StartRecorded sampleLib pre t entryID before row after entry := by
  obtain ⟨c, hc, hcalls⟩ := heldAndReplayed_reached
  obtain ⟨⟨t, e⟩, hmem, he⟩ := List.countP_pos_iff.mp (hcalls ▸ Nat.one_pos)
  obtain ⟨pre, post, hhist⟩ := List.append_of_mem hmem
  cases e with
  | called entryID req =>
    have h := (upstream_audited sampleLib sampleConfig trivial c hc).2
    exact ⟨c, hc, pre, t, entryID, req, post, hhist, h pre t entryID req post hhist⟩
  | _ => simp [Event.calls] at he

end KiteRail.Replay
