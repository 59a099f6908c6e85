import KiteRail.QuarantineDiscipline

namespace KiteRail.Replay
open Bytes QuarantineStore QuarantineWorker Prog Discipline

/-- A row that thread `t` claimed and has not called yet, with its records so far. -/
structure Claimed (lib : UuidLib) (t : ℕ) (row : Quarantine) (rs : List (Ledger × Option GoError))
    (s : World) : Prop where
  lock : s.lock = some t
  found : s.table.find row.id = some row
  status : row.status = .replaying
  claim : ClaimedBy lib t row rs s.hist

/-- The rows of the batch whose turn is still to come. -/
def Waiting (lib : UuidLib) (t : ℕ) (rows : List Quarantine) (s : World) : Prop :=
  ∀ row ∈ rows, Claimed lib t row [] s

structure Tried (lib : UuidLib) (cfg : Config) (t : ℕ) (row : Quarantine) (s : World) : Prop where
  lock : s.lock = some t
  found : s.table.find row.id = some row
  status : row.status = .replaying
  called : cfg.targeted → (acts lib row.id s.hist).getLast? = some .call

/-- The operations of a pass that leave a waiting row alone. -/
def Spares (lib : UuidLib) (id : UUID) : Op → Prop
  | .now => True
  | .ctxErr => True
  | .evaluate _ => True
  | .append entry => entry.requestID ≠ lib.text id
  | .markReplayed id' => id' ≠ id
  | .markReplayFailed id' _ => id' ≠ id
  | .returnToApproved id' => id' ≠ id
  | .httpDo entryID _ => entryID ≠ lib.text id
  | _ => False

section
variable {lib : UuidLib} {cfg : Config} {t : ℕ} {row cur : Quarantine} {rows rest : List Quarantine}
  {rs : List (Ledger × Option GoError)} {s s' : World} {op : Op} {r : Res op}

lemma ClaimedBy.append {hist new : History} (h : ClaimedBy lib t row rs hist)
    (hacts : acts lib row.id new = []) :
    ClaimedBy lib t row (rs ++ records lib t row.id new) (hist ++ new) := by
  obtain ⟨before, after, rfl, hafter, hrs⟩ := h
  exact ⟨before, after ++ new, by simp, by simp [hafter, hacts], by simp [hrs]⟩

lemma Claimed.stable : (discipline lib cfg).Stable t (Claimed lib t row rs) := by
  intro s s' h hr
  obtain ⟨new, hhist, hown, hacts⟩ := Rely.hist hr
  refine ⟨Rely.lock hr h.lock, Rely.rows hr h.lock _ _ h.found h.status, h.status, ?_⟩
  have hclaim := h.claim.append (hacts h.lock _ _ h.found h.status)
  rwa [records_of_others hown, List.append_nil, ← hhist] at hclaim

lemma Waiting.stable : (discipline lib cfg).Stable t (Waiting lib t rows) :=
  fun s s' h hr row hrow => Claimed.stable s s' (h row hrow) hr

lemma Tried.stable : (discipline lib cfg).Stable t (Tried lib cfg t row) := by
  intro s s' h hr
  obtain ⟨new, hhist, -, hacts⟩ := Rely.hist hr
  refine ⟨Rely.lock hr h.lock, Rely.rows hr h.lock _ _ h.found h.status, h.status, fun ht => ?_⟩
  rw [hhist, acts_append, hacts h.lock _ _ h.found h.status, List.append_nil]
  exact h.called ht

lemma lock_stable : (discipline lib cfg).Stable t fun s => s.lock = some t :=
  fun _ _ h hr => Rely.lock hr h

lemma Claimed.record (h : Claimed lib t row rs s) {e : Event} (hact : e.act lib row.id = none) :
    Claimed lib t row (rs ++ records lib t row.id [(t, e)]) (s.record t e) :=
  ⟨h.lock, h.found, h.status, h.claim.append (by simp [acts, hact])⟩

lemma Claimed.update (h : Claimed lib t row rs s) {guard : Quarantine → Bool}
    {set : Quarantine → Quarantine} {hset : ∀ r, (set r).id = r.id} {event : Quarantine → Event}
    (hevent : ∀ r, r.id ≠ row.id → (event r).act lib row.id = none)
    (hsilent : ∀ r entry res, event r ≠ .appended entry res) (hguard : guard row = false) :
    Claimed lib t row rs (s.update t guard set hset event) := by
  refine ⟨h.lock, by simp [World.update, h.found, hguard], h.status, ?_⟩
  have hacts : acts lib row.id ((s.table.hits guard).map fun r => (t, event r)) = [] := by
    rw [acts_hits hevent, h.found]
    simp [Option.filter_some, hguard]
  have hrecords : records lib t row.id ((s.table.hits guard).map fun r => (t, event r)) = [] := by
    rw [records, List.filterMap_map, List.filterMap_eq_nil_iff]
    intro r _
    cases he : event r with
    | appended entry res => exact absurd he (hsilent r entry res)
    | _ => simp [he]
  have hclaim := h.claim.append hacts
  rwa [hrecords, List.append_nil] at hclaim

lemma Claimed.spare (h : Claimed lib t row rs s) (hsp : Spares lib row.id op)
    (hx : (World.machine lib).semantics.exec t op s r s') : Claimed lib t row rs s' := by
  rcases exec_cases hx with rfl | hd
  · exact h
  cases op with
  | append entry =>
    obtain ⟨res, rfl⟩ := hd
    have hne : entry.requestID ≠ lib.text row.id := hsp
    simpa [records, hne] using h.record (e := .appended entry res) rfl
  | markReplayed id =>
    obtain ⟨now, rfl⟩ := hd
    have hne : id ≠ row.id := hsp
    exact h.update (fun r hr => by simp [Event.act, hr]) (by simp) (by simp [Ne.symm hne])
  | markReplayFailed id site =>
    obtain rfl := hd
    have hne : id ≠ row.id := hsp
    exact h.update (fun r hr => by simp [Event.act, hr]) (by simp) (by simp [Ne.symm hne])
  | returnToApproved id =>
    obtain rfl := hd
    have hne : id ≠ row.id := hsp
    exact h.update (fun r hr => by simp [Event.act, hr]) (by simp) (by simp [Ne.symm hne])
  | httpDo entryID req =>
    obtain rfl := hd
    have hne : entryID ≠ lib.text row.id := hsp
    simpa [records] using h.record (e := .called entryID req) (by simp [Event.act, hne])
  | _ => first
    | exact hd.elim
    | exact hsp.elim

lemma Waiting.spare (h : Waiting lib t rows s) (hsp : ∀ row ∈ rows, Spares lib row.id op)
    (hx : (World.machine lib).semantics.exec t op s r s') : Waiting lib t rows s' :=
  fun row hrow => (h row hrow).spare (hsp row hrow) hx

lemma waiting_cons :
    Waiting lib t (cur :: rest) s ↔ Claimed lib t cur [] s ∧ Waiting lib t rest s := by
  simp [Waiting]

/-- Operations for one row spare the others. -/
lemma spares_append (hne : ∀ row ∈ rest, cur.id ≠ row.id) {entry : Ledger}
    (hid : entry.requestID = lib.text cur.id) :
    ∀ row ∈ rest, Spares lib row.id (.append entry) :=
  fun row hrow he => hne row hrow (lib.text_injective (hid.symm.trans he))

lemma spares_httpDo (hne : ∀ row ∈ rest, cur.id ≠ row.id) (req : OutRequest) :
    ∀ row ∈ rest, Spares lib row.id (.httpDo (lib.text cur.id) req) :=
  fun row hrow he => hne row hrow (lib.text_injective he)

lemma Tried.record (h : Tried lib cfg t row s) {e : Event} (hact : e.act lib row.id = none) :
    Tried lib cfg t row (s.record t e) :=
  ⟨h.lock, h.found, h.status, fun ht => by simpa [World.record, acts, hact] using h.called ht⟩

section Worker
variable {wk : Worker} (hw : Deployed cfg wk) (hne : ∀ row ∈ rest, cur.id ≠ row.id)

include hne in
lemma holds_recordLedger {A : World → Prop} (hst : (discipline lib cfg).Stable t A)
    (hA : ∀ s e, A s → (∀ u, e.act lib u = none) → A (s.record t e)) (approvedBy decision : Bytes) :
    (discipline lib cfg).Holds t (fun s => A s ∧ Waiting lib t rest s)
      (recordLedger wk (toQuarantineEntry lib cur) approvedBy decision)
      fun _ s => A s ∧ Waiting lib t rest s := by
  have hwait : (discipline lib cfg).Stable t (Waiting lib t rest) := Waiting.stable
  have hstable := hst.and hwait
  refine holds_bind (C := fun _ s => A s ∧ Waiting lib t rest s) ?_ fun _ =>
    holds_ret hstable fun _ _ h => h
  unfold appendLedger
  split
  · refine holds_effect (.append _) hstable (fun _ => hstable) (fun _ _ _ => trivial)
      fun s r s' _ h hx => ?_
    refine ⟨?_, h.2.spare (spares_append hne rfl) hx⟩
    rcases exec_cases hx with rfl | ⟨res, rfl⟩
    · exact h.1
    · exact hA s _ h.1 fun _ => rfl
  · exact holds_ret hstable fun _ _ h => h

lemma holds_endTurn (op : Op) {A : World → Prop} (hst : (discipline lib cfg).Stable t A)
    (hsp : ∀ row ∈ rest, Spares lib row.id op)
    (hp : ∀ s, Inv lib cfg s → A s → Permitted lib cfg t s op)
    (hA : ∀ s, A s → Waiting lib t rest s) {α : Type} (f : Res op → α) :
    (discipline lib cfg).Holds t A (effect op >>= fun r => return f r)
      fun _ => Waiting lib t rest :=
  holds_op op hst hp (fun s _ _ _ h hx => (hA s h).spare hsp hx) fun _ =>
    holds_ret Waiting.stable fun _ _ h => h

include hne in
lemma holds_markReplayFailed {site : ParkSite} {A : World → Prop}
    (hst : (discipline lib cfg).Stable t A)
    (hA : ∀ s, A s → s.lock = some t ∧ ParkGround lib cfg s cur.id site ∧ Waiting lib t rest s) :
    (discipline lib cfg).Holds t A (markReplayFailed lib (toQuarantineEntry lib cur).id site)
      fun _ => Waiting lib t rest := by
  rw [markReplayFailed, show (toQuarantineEntry lib cur).id = lib.text cur.id from rfl,
    parseQuarantineID_text]
  exact holds_endTurn (.markReplayFailed cur.id site) hst hne
    (fun s _ h => ⟨(hA s h).1, (hA s h).2.1⟩) (fun s h => (hA s h).2.2) _

include hne in
lemma holds_returnToApproved {A : World → Prop} (hst : (discipline lib cfg).Stable t A)
    (hA : ∀ s, A s → s.lock = some t ∧ Waiting lib t rest s) :
    (discipline lib cfg).Holds t A (returnToApproved lib (toQuarantineEntry lib cur).id)
      fun _ => Waiting lib t rest := by
  rw [returnToApproved, show (toQuarantineEntry lib cur).id = lib.text cur.id from rfl,
    parseQuarantineID_text]
  exact holds_endTurn (.returnToApproved cur.id) hst hne (fun s _ h => (hA s h).1)
    (fun s h => (hA s h).2) _

include hne in
lemma holds_markReplayed {A : World → Prop} (hst : (discipline lib cfg).Stable t A)
    (hA : ∀ s, A s → s.lock = some t ∧ Waiting lib t rest s) :
    (discipline lib cfg).Holds t A (markReplayed lib (toQuarantineEntry lib cur).id)
      fun _ => Waiting lib t rest := by
  rw [markReplayed, show (toQuarantineEntry lib cur).id = lib.text cur.id from rfl,
    parseQuarantineID_text]
  exact holds_endTurn (.markReplayed cur.id) hst hne (fun s _ h => (hA s h).1)
    (fun s h => (hA s h).2) _

include hne in
/-- Outcomes that are recorded once the turn is over. -/
lemma holds_recordAfter (approvedBy decision : Bytes) :
    (discipline lib cfg).Holds t (Waiting lib t rest)
      (recordLedger wk (toQuarantineEntry lib cur) approvedBy decision)
      fun _ => Waiting lib t rest :=
  holds_mono
    (holds_recordLedger hne (Stable.pure True) (fun _ _ _ _ => trivial) approvedBy decision)
    (fun _ _ h => ⟨trivial, h⟩) fun _ _ _ h => h.2

include hne in
lemma holds_settleReplay (approvedBy : Bytes) (outcome : Bytes × Option GoError) :
    (discipline lib cfg).Holds t (fun s => Tried lib cfg t cur s ∧ Waiting lib t rest s)
      (settleReplay lib wk (toQuarantineEntry lib cur) approvedBy outcome)
      fun _ => Waiting lib t rest := by
  have hst : (discipline lib cfg).Stable t fun s => Tried lib cfg t cur s ∧ Waiting lib t rest s :=
    Tried.stable.and Waiting.stable
  obtain ⟨text, err⟩ := outcome
  cases err with
  | none =>
    refine holds_bind (holds_markReplayed hne hst fun s h => ⟨h.1.lock, h.2⟩) fun res => ?_
    cases res with
    | some _ => exact holds_ret Waiting.stable fun _ _ h => h
    | none => exact holds_recordAfter hne _ _
  | some err =>
    refine holds_bind (holds_recordLedger hne Tried.stable
      (fun s e h hact => h.record (hact _)) approvedBy text) fun _ => ?_
    split
    · refine holds_bind (holds_markReplayFailed hne hst fun s h => ⟨h.1.lock, ?_, h.2⟩) fun _ =>
        holds_ret Waiting.stable fun _ _ h => h
      exact fun row _ _ => ⟨by simp, fun _ => h.1.called⟩
    · exact holds_bind (holds_returnToApproved hne hst fun s h => ⟨h.1.lock, h.2⟩) fun _ =>
        holds_ret Waiting.stable fun _ _ h => h

/-- The key that the upstream deduplicates on. -/
lemma replayRequest_key (wk : Worker) (url : URL) (entry : QuarantineEntry) (approvedBy : Bytes)
    (headers : Header) :
    (replayRequest wk url entry approvedBy headers).header.get (lit "Idempotency-Key") =
      lit "kiterail-quarantine-" ++ entry.id := by
  simp only [replayRequest]
  split
  · exact Header.get_set_self _ _ _
  · rw [Header.get_set_of_ne _ _ (by decide +kernel)]
    exact Header.get_set_self _ _ _

/-- The write-ahead record was made, if one is due. -/
def Recorded (lib : UuidLib) (cfg : Config) (t : ℕ) (cur : Quarantine) (s : World) : Prop :=
  ∃ rs, Claimed lib t cur rs s ∧ (cfg.ledgered → rs = [(startedEntry lib cur, none)])

lemma Recorded.stable : (discipline lib cfg).Stable t (Recorded lib cfg t cur) := by
  rintro s s' ⟨rs, h, hrs⟩ hr
  exact ⟨rs, Claimed.stable s s' h hr, hrs⟩

lemma Recorded.tried (h : Recorded lib cfg t cur s) (ht : ¬ cfg.targeted) :
    Tried lib cfg t cur s := by
  obtain ⟨rs, h, -⟩ := h
  exact ⟨h.lock, h.found, h.status, fun h => absurd h ht⟩

/-- The call that a recorded claim permits. -/
lemma Recorded.permits (h : Recorded lib cfg t cur s) (hmax : cur.attempts ≤ cfg.maxReplayAttempts)
    {req : OutRequest} (hbody : req.body = cur.payload)
    (hkey : req.header.get (lit "Idempotency-Key") =
      lit "kiterail-quarantine-" ++ lib.text cur.id) :
    Permitted lib cfg t s (.httpDo (lib.text cur.id) req) := by
  obtain ⟨rs, h, hrs⟩ := h
  exact ⟨h.lock, ⟨cur, rs, h.claim, rfl, hbody, hkey, hrs⟩,
    cur, rs, h.found, h.status, h.claim, rfl, hmax⟩

lemma Recorded.called (h : Recorded lib cfg t cur s) {req : OutRequest} :
    Tried lib cfg t cur (s.record t (.called (lib.text cur.id) req)) := by
  obtain ⟨rs, h, -⟩ := h
  refine ⟨h.lock, h.found, h.status, fun _ => ?_⟩
  simp [World.record, acts, Event.act]

include hw hne in
lemma holds_doReplay (hmax : cur.attempts ≤ cfg.maxReplayAttempts) (approvedBy : Bytes) :
    (discipline lib cfg).Holds t (fun s => Recorded lib cfg t cur s ∧ Waiting lib t rest s)
      (doReplay wk (toQuarantineEntry lib cur) approvedBy)
      fun _ s => Tried lib cfg t cur s ∧ Waiting lib t rest s := by
  have hst : (discipline lib cfg).Stable t fun s =>
      Recorded lib cfg t cur s ∧ Waiting lib t rest s := Recorded.stable.and Waiting.stable
  have hst' : (discipline lib cfg).Stable t fun s =>
      Tried lib cfg t cur s ∧ Waiting lib t rest s := Tried.stable.and Waiting.stable
  intro s hi hA
  unfold doReplay
  cases htarget : wk.target with
  | error err =>
    have ht : ¬ cfg.targeted := fun h => by
      obtain ⟨url, hurl⟩ := hw.target h
      simp [htarget] at hurl
    exact holds_ret hst (fun _ _ h => ⟨h.1.tried ht, h.2⟩) s hi hA
  | ok url =>
    obtain ⟨headers, hdec⟩ : ∃ g, Mcp.decodeReplayHeaders
        (some (toQuarantineEntry lib cur).requestHeaders) = .ok g := by
      obtain ⟨⟨rs, h, -⟩, -⟩ := hA
      exact hi.headers _ _ h.found
    simp only [hdec]
    refine holds_op (.httpDo _ _) (B := fun _ s => Tried lib cfg t cur s ∧ Waiting lib t rest s) hst
      (fun s _ h => h.1.permits hmax rfl (replayRequest_key _ _ _ _ _)) ?_ (fun r => ?_) s hi hA
    · intro s r s' _ h hx
      refine ⟨?_, h.2.spare (spares_httpDo hne _) hx⟩
      obtain rfl := exec_httpDo hx
      exact h.1.called
    · cases r with
      | error err => exact holds_ret hst' fun _ _ h => h
      | ok status =>
        dsimp only
        split
        · exact holds_ret hst' fun _ _ h => h
        · exact holds_ret hst' fun _ _ h => h

include hw hne in
lemma holds_replayRecorded (hmax : cur.attempts ≤ cfg.maxReplayAttempts) :
    (discipline lib cfg).Holds t (Waiting lib t (cur :: rest))
      (replayRecorded lib wk (toQuarantineEntry lib cur) (approver (toQuarantineEntry lib cur)))
      fun _ => Waiting lib t rest := by
  have hst : (discipline lib cfg).Stable t (Waiting lib t (cur :: rest)) := Waiting.stable
  have hrest : (discipline lib cfg).Holds t
      (fun s => Recorded lib cfg t cur s ∧ Waiting lib t rest s)
      (doReplay wk (toQuarantineEntry lib cur) (approver (toQuarantineEntry lib cur)) >>= fun o =>
        settleReplay lib wk (toQuarantineEntry lib cur) (approver (toQuarantineEntry lib cur)) o)
      fun _ => Waiting lib t rest :=
    holds_bind (holds_doReplay hw hne hmax _) fun o => holds_settleReplay hne _ o
  unfold replayRecorded appendLedger
  cases hl : wk.lStore with
  | false =>
    have hno : ¬ cfg.ledgered := fun h => by simp [hw.ledger h] at hl
    refine holds_mono hrest (fun s _ h => ?_) fun _ _ _ h => h
    obtain ⟨hcur, hwait⟩ := waiting_cons.mp h
    exact ⟨⟨[], hcur, fun h => absurd h hno⟩, hwait⟩
  | true =>
    refine holds_op (.append (startedEntry lib cur)) (B := fun res s =>
      Claimed lib t cur [(startedEntry lib cur, res)] s ∧ Waiting lib t rest s) hst
      (fun _ _ _ => trivial) ?_ ?_
    · intro s r s' _ h hx
      obtain ⟨hcur, hwait⟩ := waiting_cons.mp h
      refine ⟨?_, hwait.spare (spares_append hne rfl) hx⟩
      obtain rfl := exec_append hx
      simpa [records, startedEntry, replayEntry, QuarantineHandler.ledgerEntry,
        toQuarantineEntry] using hcur.record (e := .appended (startedEntry lib cur) r) rfl
    · intro res
      cases res with
      | none => exact holds_mono hrest (fun s _ h => ⟨⟨_, h.1, fun _ => rfl⟩, h.2⟩) fun _ _ _ h => h
      | some err =>
        exact holds_bind (holds_returnToApproved hne (Claimed.stable.and Waiting.stable)
          fun s h => ⟨h.1.lock, h.2⟩) fun _ => holds_ret Waiting.stable fun _ _ h => h

lemma holds_currentDecision {A : World → Prop} (hst : (discipline lib cfg).Stable t A)
    (entry : QuarantineEntry) :
    (discipline lib cfg).Holds t A (currentDecision entry) fun _ => A := by
  unfold currentDecision
  dsimp only
  split
  · exact holds_ret hst fun _ _ h => h
  · refine holds_bind (C := fun _ => A) ?_ fun outcome => ?_
    swap
    · cases outcome <;> exact holds_ret hst fun _ _ h => h
    unfold Proxy.policyRecheck
    split
    · exact holds_ret hst fun _ _ h => h
    · refine holds_silent .now (fun _ _ h => h) (fun _ => trivial) hst fun _ => ?_
      refine holds_effect (.evaluate _) hst (fun _ => hst) (fun _ _ _ => trivial) ?_
      intro s r s' _ hA hx
      rcases exec_cases hx with rfl | hd
      · exact hA
      · exact hd.elim

include hne in
lemma holds_blockedByCurrentPolicy (approvedBy : Bytes) :
    (discipline lib cfg).Holds t (Waiting lib t (cur :: rest))
      (blockedByCurrentPolicy lib wk (toQuarantineEntry lib cur) approvedBy)
      fun blocked => if blocked then Waiting lib t rest else Waiting lib t (cur :: rest) := by
  have hst : (discipline lib cfg).Stable t (Waiting lib t (cur :: rest)) := Waiting.stable
  have hdone : (discipline lib cfg).Holds t (Waiting lib t rest) (.ret true)
      fun blocked => if blocked then Waiting lib t rest else Waiting lib t (cur :: rest) :=
    holds_ret Waiting.stable fun _ _ h => h
  refine holds_bind (holds_currentDecision hst _) fun decision => ?_
  split
  · exact holds_ret hst fun _ _ h => h
  · refine holds_bind (holds_markReplayFailed hne hst fun s h => ?_) fun res => ?_
    · obtain ⟨hcur, hwait⟩ := waiting_cons.mp h
      exact ⟨hcur.lock, fun _ _ _ => ⟨by simp, by simp⟩, hwait⟩
    · cases res with
      | some _ => exact hdone
      | none =>
        dsimp only
        split
        · exact holds_op (.append _) Waiting.stable (fun _ _ _ => trivial)
            (fun s r s' _ h hx => h.spare (spares_append hne rfl) hx) fun _ => hdone
        · exact hdone

include hw hne in
lemma holds_processClaimed :
    (discipline lib cfg).Holds t (Waiting lib t (cur :: rest))
      (processClaimed lib wk (toQuarantineEntry lib cur)) fun _ => Waiting lib t rest := by
  have hst : (discipline lib cfg).Stable t (Waiting lib t (cur :: rest)) := Waiting.stable
  unfold processClaimed
  dsimp only
  split
  · rename_i hmax
    have hmax' : cfg.maxReplayAttempts < cur.attempts := hw.limit ▸ hmax
    refine holds_bind (holds_markReplayFailed hne hst fun s h => ?_) fun res => ?_
    · obtain ⟨hcur, hwait⟩ := waiting_cons.mp h
      refine ⟨hcur.lock, fun row hrow _ => ⟨fun _ => ?_, by simp⟩, hwait⟩
      obtain rfl := Option.some.inj (hcur.found.symm.trans hrow)
      exact hmax'
    · cases res with
      | some _ => exact holds_ret Waiting.stable fun _ _ h => h
      | none => exact holds_recordAfter hne _ _
  · rename_i hmax
    have hmax' : cur.attempts ≤ cfg.maxReplayAttempts := hw.limit ▸ not_lt.mp hmax
    split
    · refine holds_bind (holds_blockedByCurrentPolicy hne _) fun blocked => ?_
      cases blocked with
      | true => exact holds_ret Waiting.stable fun _ _ h => h
      | false => exact holds_replayRecorded hw hne hmax'
    · exact holds_replayRecorded hw hne hmax'

include hw in
lemma holds_processEach (hpair : rows.Pairwise fun a b => a.id ≠ b.id) :
    (discipline lib cfg).Holds t (Waiting lib t rows)
      (processEach lib wk (rows.map (toQuarantineEntry lib))) fun _ _ => True := by
  induction rows with
  | nil => exact holds_ret Waiting.stable fun _ _ _ => trivial
  | cons cur rest ih =>
    obtain ⟨hne, hpair⟩ := List.pairwise_cons.mp hpair
    refine holds_silent .ctxErr (fun _ _ h => h) (fun _ => trivial) Waiting.stable fun err => ?_
    cases err with
    | some _ => exact holds_ret Waiting.stable fun _ _ _ => trivial
    | none =>
      exact holds_bind (holds_processClaimed hw hne) fun _ => ih hpair

lemma claimRows_pairwise {ids : List UUID} (hnd : ids.Nodup) :
    (s.claimRows ids).Pairwise fun a b => a.id ≠ b.id := by
  rw [World.claimRows, List.pairwise_map, List.pairwise_filterMap]
  refine hnd.imp fun {a b} hab r hr r' hr' he => hab ?_
  rw [← Table.find_key hr, ← Table.find_key hr']
  exact he

lemma waiting_claim {limit : ℕ} {ids : List UUID} (hok : s.claimable limit ids = true)
    (hl : s.lock = some t) : Waiting lib t (s.claimRows ids) (s.claim t ids) := by
  intro row hrow
  obtain ⟨r, hr, rfl⟩ := List.mem_map.mp hrow
  obtain ⟨id, hid, hf⟩ := List.mem_filterMap.mp hr
  obtain rfl : r.id = id := Table.find_key hf
  have happroved : r.status = .approved := by
    have hall := (Bool.and_eq_true_iff.mp hok).2
    simpa [hf] using List.all_eq_true.mp hall r.id hid
  have hguard : (decide (r.id ∈ ids) && decide (r.status = .approved)) = true := by
    simp [hid, happroved]
  refine ⟨hl, ?_, rfl, ?_⟩
  · simp [World.claim, World.update, World.claimOf_id, hf, hid, happroved]
  · have hmem : r ∈ s.table.hits fun r => r.id ∈ ids && r.status = .approved :=
      List.mem_filter.mpr ⟨(Table.find_eq_some_iff.mp hf).1, hguard⟩
    obtain ⟨before, after, hhits⟩ := List.append_of_mem hmem
    have hnd : ((s.table.hits fun r => r.id ∈ ids && r.status = .approved).map
        Quarantine.id).Nodup := s.table.nodup.sublist (List.filter_sublist.map _)
    rw [hhits, List.map_append, List.map_cons] at hnd
    have hafter : ∀ r' ∈ after, r'.id ≠ r.id := by
      intro r' hr' he
      refine (List.nodup_cons.mp (List.nodup_append.mp hnd).2.1).1 ?_
      exact List.mem_map.mpr ⟨r', hr', he⟩
    refine ⟨s.hist ++ before.map fun r => (t, .claimed (World.claimOf r)),
      after.map fun r => (t, .claimed (World.claimOf r)), ?_, ?_, ?_⟩
    · simp only [World.claim, World.update, hhits, List.map_append, List.map_cons,
        List.append_assoc]
    · rw [acts, List.filterMap_map, List.filterMap_eq_nil_iff]
      intro r' hr'
      have hne := hafter r' hr'
      simp [Event.act, World.claimOf, hne]
    · rw [records, List.filterMap_map, List.filterMap_eq_nil_iff]
      exact fun _ _ => rfl

include hw in
lemma holds_drainOnce :
    (discipline lib cfg).Holds t (fun s => s.lock = some t) (drainOnce lib wk) fun _ _ => True := by
  refine holds_op (.claimApprovedForReplay _) (B := fun res s => ∀ rows, res = .ok rows →
    rows.Pairwise (fun a b => a.id ≠ b.id) ∧ Waiting lib t rows s) lock_stable
    (fun _ _ h => h) ?_ fun res => ?_
  · rintro s _ s' _ hl hx rows rfl
    obtain ⟨ids, hok, rfl, rfl⟩ := exec_claimApproved hx
    have hnd : ids.Nodup := by
      simp only [World.claimable, Bool.and_eq_true, decide_eq_true_eq] at hok
      exact hok.1.1
    exact ⟨claimRows_pairwise hnd, waiting_claim hok hl⟩
  · cases res with
    | error err => exact fun _ _ _ _ _ _ => trivial
    | ok rows =>
      intro s hi h
      obtain ⟨hpair, hwait⟩ := h rows rfl
      exact holds_processEach hw hpair s hi hwait

lemma holds_recoverStuckReplays :
    (discipline lib cfg).Holds t (fun s => s.lock = some t) recoverStuckReplays
      fun _ s => s.lock = some t := by
  refine holds_op .recoverStuckReplays (B := fun _ s => s.lock = some t) lock_stable
    (fun _ _ h => h) (fun s r s' _ hl hx => ?_) fun res => ?_
  · rcases exec_cases hx with rfl | rfl
    · exact hl
    · exact hl
  · cases res <;> exact holds_ret lock_stable fun _ _ h => h

include hw in
theorem holds_processOnce :
    (discipline lib cfg).Holds t (fun _ => True) (processOnce lib wk) fun _ _ => True := by
  have htrue : (discipline lib cfg).Stable t fun _ => True := Stable.pure True
  have hroll : ∀ r : Bool × Option GoError, (discipline lib cfg).Holds t (fun _ => True)
      (effect .rollback >>= fun _ => .ret r) fun _ _ => True := fun r =>
    holds_op .rollback htrue (fun _ _ _ => trivial) (fun _ _ _ _ _ _ => trivial) fun _ =>
      holds_ret htrue fun _ _ h => h
  have hpass : (discipline lib cfg).Holds t (fun s => s.lock = some t) (replayPass lib wk)
      fun _ _ => True := by
    refine holds_bind holds_recoverStuckReplays fun res => ?_
    cases res with
    | error err => exact holds_ret lock_stable fun _ _ _ => trivial
    | ok _ => exact holds_bind (holds_drainOnce hw) fun _ => holds_ret htrue fun _ _ h => h
  refine holds_bind (C := fun _ _ => True) ?_ fun _ => holds_ret htrue fun _ _ h => h
  refine holds_silent .ctxErr (fun _ _ h => h) (fun _ => trivial) htrue fun err => ?_
  cases err with
  | some err => exact holds_ret htrue fun _ _ h => h
  | none =>
    refine holds_silent .beginTx (fun _ _ h => h) (fun _ => trivial) htrue fun err => ?_
    cases err with
    | some err => exact holds_ret htrue fun _ _ h => h
    | none =>
      refine holds_op .tryReplayLock (B := fun res s => res = .ok true → s.lock = some t) htrue
        (fun _ _ _ => trivial) (fun s r s' _ _ hx hr => exec_tryReplayLock (hr ▸ hx)) fun res => ?_
      match res with
      | .error err => exact holds_mono (hroll _) (fun _ _ _ => trivial) fun _ _ _ h => h
      | .ok false => exact holds_mono (hroll _) (fun _ _ _ => trivial) fun _ _ _ h => h
      | .ok true =>
        exact holds_bind (holds_mono hpass (fun _ _ h => h rfl) fun _ _ _ h => h) fun _ => hroll _

end Worker
end
end KiteRail.Replay
