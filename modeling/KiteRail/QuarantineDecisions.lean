import KiteRail.RequestContext

/-! The reviewers' decisions under contexts that may be cancelled. The decision and its
ledger entry are two operations, so a client that leaves between them leaves a decision
without an entry; the handler then returns an error, and `ErrAuditUnavailable` where
the store had reported success. -/
namespace KiteRail.Replay
open Bytes QuarantineStore QuarantineHandler Discipline

/-- A committed decision, with the word of its ledger entry and the verb of the store's
errors. -/
structure Verdict where
  id : UUID
  reviewer : Option Bytes
  decision : Bytes
  verb : Bytes
  deriving DecidableEq

def Event.verdict : Event → Option Verdict
  | .approved id reviewer => some ⟨id, reviewer, lit "approved", lit "approve"⟩
  | .denied id reviewer => some ⟨id, reviewer, lit "denied", lit "deny"⟩
  | _ => none

structure Records (lib : UuidLib) (s : World) (v : Verdict) (entry : Ledger) : Prop where
  decision : entry.decision = v.decision
  agent : entry.agent = v.reviewer.getD []
  requestID : entry.requestID = lib.text v.id
  payload : ∃ row, s.table.find v.id = some row ∧ entry.payloadHash = payloadHash row.payload

inductive Decides (lib : UuidLib) : Eff (Option GoError) → Prop
  | approve (id reviewerID : Bytes) :
      Decides lib (QuarantineHandler.approve lib ⟨true⟩ id reviewerID)
  | deny (id reviewerID reason : Bytes) :
      Decides lib (QuarantineHandler.deny lib ⟨true⟩ id reviewerID reason)

/-- What the store's answer `res` says about the decisions `evs` of a request. -/
def Ruled (v : Verdict) (res : Option GoError) (evs : List Event) (cancelled : Prop) : Prop :=
  (∀ e ∈ evs, e.verdict = some v) ∧
    (res ≠ none → evs = [] ∨ cancelled ∧ ∃ r, res = requireDecided v.verb r)

/-- What a decision came to. -/
def Accounted (lib : UuidLib) (t : ℕ) (err : Option GoError) (d : Desk) : Prop :=
  ∀ e v, (t, e) ∈ d.world.hist → e.verdict = some v →
    (err = none ∧ ∃ entry, (t, .appended entry none) ∈ d.world.hist ∧ Records lib d.world v entry) ∨
    (t ∈ d.cancelled ∧ err ≠ none ∧
      (err = some errAuditUnavailable ∨ ∃ r, err = requireDecided v.verb r))

section
variable {lib : UuidLib} {t : ℕ} {d d' : Desk} {s : World}

lemma Ruled.of_ack {v : Verdict} {ack : Ack} {evs : List Event} {cancelled : Prop}
    (hevs : ∀ e ∈ evs, e.verdict = some v) (hack : ack.fails → cancelled) :
    Ruled v (requireDecided v.verb (ack.result evs.length)) evs cancelled := by
  refine ⟨hevs, fun hres => ?_⟩
  cases ack with
  | ok =>
    cases evs with
    | nil => exact .inl rfl
    | cons e evs => simp [Ack.result, requireDecided] at hres
  | lost err => exact .inr ⟨hack rfl, _, rfl⟩
  | uncounted err => exact .inr ⟨hack rfl, _, rfl⟩

lemma count_update {guard : Quarantine → Bool} {set : Quarantine → Quarantine}
    {hset : ∀ r, (set r).id = r.id} {event : Quarantine → Event} :
    s.count (s.update t guard set hset event) = ((s.table.hits guard).map event).length := by
  simp [World.count, World.update]

lemma own_update {guard : Quarantine → Bool} {set : Quarantine → Quarantine}
    {hset : ∀ r, (set r).id = r.id} {event : Quarantine → Event} (hown : own t s.hist = []) :
    own t (s.update t guard set hset event).hist = (s.table.hits guard).map event := by
  have hmap : (s.table.hits guard).map (fun r => (t, event r)) =
      ((s.table.hits guard).map event).map (Prod.mk t) := by simp [Function.comp_def]
  rw [World.update, own_append, hown, hmap, own_self, List.nil_append]

/-- The guarded update of a decision, by how it met the context. -/
lemma Ruled.of_update {v : Verdict} {guard : Quarantine → Bool} {set : Quarantine → Quarantine}
    {hset : ∀ r, (set r).id = r.id} {event : Quarantine → Event} {ack : Ack}
    (hown : own t s.hist = []) (hevent : ∀ r, guard r = true → (event r).verdict = some v)
    (hack : ack.fails → t ∈ d'.cancelled) (hd : s.update t guard set hset event = d'.world) :
    Ruled v (requireDecided v.verb (ack.result (s.count (s.update t guard set hset event))))
      (own t d'.world.hist) (t ∈ d'.cancelled) := by
  rw [← hd, own_update hown, count_update]
  refine .of_ack (fun e he => ?_) hack
  obtain ⟨r, hr, rfl⟩ := List.mem_map.mp he
  exact hevent r (List.mem_filter.mp hr).2

lemma exec_approve {id : UUID} {resolvedAt : Time} {resolvedBy : Option Bytes} {r : ExecResult}
    (hown : own t d.world.hist = [])
    (h : (Desk.machine lib).semantics.exec t
      (.approveQuarantineEntry id resolvedAt resolvedBy) d r d') :
    Ruled ⟨id, resolvedBy, lit "approved", lit "approve"⟩ (requireDecided (lit "approve") r)
      (own t d'.world.hist) (t ∈ d'.cancelled) := by
  obtain ⟨ch, ha, hc⟩ := Desk.exec_cases h
  cases ch with
  | done now ack =>
    obtain ⟨rfl, hd⟩ := Prod.mk.inj (Option.some.inj ha)
    refine .of_update hown (fun r hg => ?_) (Desk.cut_of_fails hc rfl) hd
    obtain ⟨hid, -⟩ := Bool.and_eq_true_iff.mp hg
    rw [← of_decide_eq_true hid]
    rfl
  | dropped err =>
    obtain ⟨rfl, hd⟩ := Prod.mk.inj (Option.some.inj ha)
    rw [← hd, hown]
    exact ⟨by simp, fun _ => .inl rfl⟩
  | _ => simp [World.answer] at ha

lemma exec_deny {id : UUID} {resolvedAt : Time} {resolvedBy reason : Option Bytes} {r : ExecResult}
    (hown : own t d.world.hist = [])
    (h : (Desk.machine lib).semantics.exec t
      (.denyQuarantineEntry id resolvedAt resolvedBy reason) d r d') :
    Ruled ⟨id, resolvedBy, lit "denied", lit "deny"⟩ (requireDecided (lit "deny") r)
      (own t d'.world.hist) (t ∈ d'.cancelled) := by
  obtain ⟨ch, ha, hc⟩ := Desk.exec_cases h
  cases ch with
  | done now ack =>
    obtain ⟨rfl, hd⟩ := Prod.mk.inj (Option.some.inj ha)
    refine .of_update hown (fun r hg => ?_) (Desk.cut_of_fails hc rfl) hd
    obtain ⟨hid, -⟩ := Bool.and_eq_true_iff.mp hg
    rw [← of_decide_eq_true hid]
    rfl
  | dropped err =>
    obtain ⟨rfl, hd⟩ := Prod.mk.inj (Option.some.inj ha)
    rw [← hd, hown]
    exact ⟨by simp, fun _ => .inl rfl⟩
  | _ => simp [World.answer] at ha

lemma exec_get {id : UUID} {r : Except GoError Quarantine}
    (h : (Desk.machine lib).semantics.exec t (.getQuarantineEntry id) d r d') :
    d'.world = d.world ∧ ∀ row, r = .ok row → d.world.table.find id = some row := by
  obtain ⟨ch, ha, -⟩ := Desk.exec_cases h
  cases ch with
  | done now ack =>
    cases ack with
    | ok =>
      simp only [World.answer] at ha
      split at ha
      · rename_i row hrow
        obtain ⟨rfl, hd⟩ := Prod.mk.inj (Option.some.inj ha)
        exact ⟨hd.symm, fun row' hr => by rw [hrow, Except.ok.inj hr]⟩
      · obtain ⟨rfl, hd⟩ := Prod.mk.inj (Option.some.inj ha)
        exact ⟨hd.symm, by simp⟩
    | _ => simp [World.answer] at ha
  | dropped err =>
    obtain ⟨rfl, hd⟩ := Prod.mk.inj (Option.some.inj ha)
    exact ⟨hd.symm, by simp⟩
  | _ => simp [World.answer] at ha

lemma accounted_of_nil {err : Option GoError} (h : own t d.world.hist = []) :
    Accounted lib t err d := by
  intro e v he
  rw [← mem_own, h] at he
  simp at he

lemma own_nil_stable :
    (Desk.discipline lib).Stable t fun d => own t d.world.hist = [] :=
  Desk.stable_own (P := fun evs _ => evs = [])

lemma ruled_stable {v : Verdict} {res : Option GoError} :
    (Desk.discipline lib).Stable t fun d => Ruled v res (own t d.world.hist) (t ∈ d.cancelled) :=
  Desk.stable_own (P := fun evs cancelled => Ruled v res evs cancelled)

lemma holds_update {op : Op} {v : Verdict} {payload : Bytes} {res : Res op → Option GoError}
    (hop : ∀ d r d', own t d.world.hist = [] → (Desk.machine lib).semantics.exec t op d r d' →
      Ruled v (res r) (own t d'.world.hist) (t ∈ d'.cancelled)) :
    (Desk.discipline lib).Holds t (fun d => own t d.world.hist = [] ∧ HeldAs v.id payload d)
      (do
        let r ← effect op
        return res r)
      fun res d => Ruled v res (own t d.world.hist) (t ∈ d.cancelled) ∧ HeldAs v.id payload d :=
  Desk.holds_op (own_nil_stable.and Desk.stable_kept)
    (B := fun r d => Ruled v (res r) (own t d.world.hist) (t ∈ d.cancelled) ∧ HeldAs v.id payload d)
    (fun d r d' hA hx => ⟨hop d r d' hA.1 hx, hA.2.of_kept (frame_of_exec (Desk.exec_world hx)).2⟩)
    fun _ => holds_ret (ruled_stable.and Desk.stable_kept) fun _ _ h => h

lemma holds_approve_ruled {id approvedBy payload : Bytes} {qid : UUID}
    (hq : parseQuarantineID lib id = .ok qid) :
    (Desk.discipline lib).Holds t (fun d => own t d.world.hist = [] ∧ HeldAs qid payload d)
      (QuarantineStore.approve lib id approvedBy) fun res d =>
        Ruled ⟨qid, nullString approvedBy, lit "approved", lit "approve"⟩ res (own t d.world.hist)
          (t ∈ d.cancelled) ∧ HeldAs qid payload d := by
  simp only [QuarantineStore.approve, hq]
  refine Desk.holds_silent rfl (fun _ _ h => h) (own_nil_stable.and Desk.stable_kept) fun _ => ?_
  exact holds_update fun _ _ _ hown hx => exec_approve hown hx

lemma holds_deny_ruled {id deniedBy reason payload : Bytes} {qid : UUID}
    (hq : parseQuarantineID lib id = .ok qid) :
    (Desk.discipline lib).Holds t (fun d => own t d.world.hist = [] ∧ HeldAs qid payload d)
      (QuarantineStore.deny lib id deniedBy reason) fun res d =>
        Ruled ⟨qid, nullString deniedBy, lit "denied", lit "deny"⟩ res (own t d.world.hist)
          (t ∈ d.cancelled) ∧ HeldAs qid payload d := by
  simp only [QuarantineStore.deny, hq]
  refine Desk.holds_silent rfl (fun _ _ h => h) (own_nil_stable.and Desk.stable_kept) fun _ => ?_
  exact holds_update fun _ _ _ hown hx => exec_deny hown hx

lemma nullString_getD (b : Bytes) : (nullString b).getD [] = b := by
  unfold nullString
  split_ifs with hb
  · simp [hb]
  · rfl

/-- What the answer `res` to an append of `entry` says about the events of a request. -/
def Written (v : Verdict) (entry : Ledger) (res : Option GoError) (evs : List Event)
    (cancelled : Prop) : Prop :=
  (∀ e ∈ evs, ∀ w, e.verdict = some w → w = v) ∧ (res = none → .appended entry none ∈ evs) ∧
    (res ≠ none → cancelled)

lemma exec_append_written {v : Verdict} {entry : Ledger} {res : Option GoError}
    (h : Ruled v none (own t d.world.hist) (t ∈ d.cancelled))
    (hx : (Desk.machine lib).semantics.exec t (.append entry) d res d') :
    Written v entry res (own t d'.world.hist) (t ∈ d'.cancelled) := by
  obtain ⟨hown, hcut⟩ := Desk.exec_append hx
  rw [hown]
  refine ⟨fun e he w hw => ?_, fun hres => by simp [hres], fun hres => ?_⟩
  · rcases List.mem_append.mp he with he | he
    · exact Option.some.inj (hw.symm.trans (h.1 e he))
    · obtain rfl := List.mem_singleton.mp he
      simp [Event.verdict] at hw
  · exact not_not.mp (hcut.not.mp hres)

lemma holds_appendLedger {v : Verdict} {row : Quarantine} {reviewerID rule : Bytes}
    (hid : row.id = v.id) (hreviewer : v.reviewer = nullString reviewerID) :
    (Desk.discipline lib).Holds t
      (fun d => Ruled v none (own t d.world.hist) (t ∈ d.cancelled) ∧ HeldAs v.id row.payload d)
      (appendLedger ⟨true⟩ (toQuarantineEntry lib row) reviewerID v.decision rule)
      (Accounted lib t) := by
  let entry := decisionEntry (toQuarantineEntry lib row) reviewerID v.decision rule
  have hst : ∀ res, (Desk.discipline lib).Stable t fun d =>
      Written v entry res (own t d.world.hist) (t ∈ d.cancelled) ∧ HeldAs v.id row.payload d :=
    fun res => (Desk.stable_own (P := Written v entry res)).and Desk.stable_kept
  refine Desk.holds_op (ruled_stable.and Desk.stable_kept) (B := fun (res : Option GoError) d =>
      Written v entry res (own t d.world.hist) (t ∈ d.cancelled) ∧ HeldAs v.id row.payload d)
    (fun d res d' hA hx =>
      ⟨exec_append_written hA.1 hx, hA.2.of_kept (frame_of_exec (Desk.exec_world hx)).2⟩) ?_
  rintro (_ | err)
  · refine holds_ret (hst none) fun d _ hd e w he hw => .inl ⟨rfl, entry, ?_, ?_⟩
    · exact mem_own.mp (hd.1.2.1 rfl)
    · obtain rfl := hd.1.1 e (mem_own.mpr he) w hw
      obtain ⟨row', hrow', hp⟩ := hd.2
      refine ⟨rfl, ?_, congrArg lib.text hid, row', hrow', congrArg payloadHash hp.symm⟩
      rw [hreviewer, nullString_getD]
      rfl
  · exact holds_ret (hst (some err)) fun d _ hd e w he hw =>
      .inr ⟨hd.1.2.2 (by simp), by simp, .inl rfl⟩

lemma holds_decideWith_accounted {id reviewerID decision rule : Bytes} (verdict : UUID → Verdict)
    {decide : Eff (Option GoError)} (hid : ∀ q, (verdict q).id = q)
    (hreviewer : ∀ q, (verdict q).reviewer = nullString reviewerID)
    (hdecision : ∀ q, (verdict q).decision = decision)
    (hdecide : ∀ q payload, parseQuarantineID lib id = .ok q →
      (Desk.discipline lib).Holds t (fun d => own t d.world.hist = [] ∧ HeldAs q payload d) decide
        fun res d => Ruled (verdict q) res (own t d.world.hist) (t ∈ d.cancelled) ∧
          HeldAs q payload d) :
    (Desk.discipline lib).Holds t (fun d => own t d.world.hist = [])
      (decideWith lib ⟨true⟩ id reviewerID decide decision rule) (Accounted lib t) := by
  cases hq : parseQuarantineID lib id with
  | error err =>
    simp only [decideWith, QuarantineStore.get, hq]
    exact holds_ret own_nil_stable fun _ _ h => accounted_of_nil h
  | ok q =>
    have hrefused : ∀ err, (Desk.discipline lib).Holds t (fun d => own t d.world.hist = [])
        (.ret (some err)) (Accounted lib t) := fun _ =>
      holds_ret own_nil_stable fun _ _ h => accounted_of_nil h
    simp only [decideWith, QuarantineStore.get, hq, Prog.bind_bind]
    refine Desk.holds_op own_nil_stable (B := fun (r : Except GoError Quarantine) d =>
      own t d.world.hist = [] ∧ ∀ row, r = .ok row → row.id = q ∧ HeldAs q row.payload d) ?_ ?_
    · intro d r d' hown hx
      obtain ⟨hd, hrow⟩ := exec_get hx
      refine ⟨by rw [hd, hown], fun row hr => ⟨Table.find_key (hrow row hr), row, ?_, rfl⟩⟩
      rw [hd, hrow row hr]
    · rintro (err | row)
      · exact holds_mono (hrefused _) (fun _ _ h => h.1) fun _ _ _ h => h
      · intro d hi hd
        obtain ⟨hrow, hheld⟩ := hd.2 row rfl
        refine holds_bind (hdecide q row.payload hq) (fun res => ?_) d hi ⟨hd.1, hheld⟩
        cases res with
        | some err =>
          refine holds_ret (ruled_stable.and Desk.stable_kept) fun d _ h e w he hw => .inr ?_
          obtain rfl := Option.some.inj (hw.symm.trans (h.1.1 e (mem_own.mpr he)))
          rcases h.1.2 (by simp) with hnil | ⟨hcut, hres⟩
          · simp [← mem_own, hnil] at he
          · exact ⟨hcut, by simp, .inr hres⟩
        | none =>
          rw [← hdecision q]
          exact holds_mono (holds_appendLedger (v := verdict q) (hrow.trans (hid q).symm)
            (hreviewer q)) (fun _ _ h => by rwa [hid q]) fun _ _ _ h => h

end

/-- Every committed decision is in the ledger by the time the handler returns, or the
context of the request was cancelled and the handler returns an error. -/
theorem decision_recorded_or_reported (lib : UuidLib) (table : Table Quarantine.id)
    (ls : List (Label Op Res)) (c : Pool Op Res Desk (Option GoError))
    (hr : Run (Desk.machine lib).semantics (Decides lib) (Pool.initial (Desk.initial table)) ls c)
    (t : ℕ) (err : Option GoError) (ht : c.thread t = some (.ret err)) :
    Accounted lib t err c.shared := by
  have hentry : ∀ p t d, Decides lib p → True → (Desk.discipline lib).fresh t d →
      (Desk.discipline lib).wp t p (Accounted lib t) d := by
    intro p t d hp hi hfresh
    cases hp with
    | approve id reviewerID =>
      exact holds_decideWith_accounted
        (fun q => ⟨q, nullString reviewerID, lit "approved", lit "approve"⟩) (fun _ => rfl)
        (fun _ => rfl) (fun _ => rfl) (fun _ _ hq => holds_approve_ruled hq) d hi hfresh.1
    | deny id reviewerID reason =>
      exact holds_decideWith_accounted
        (fun q => ⟨q, nullString reviewerID, lit "denied", lit "deny"⟩) (fun _ => rfl)
        (fun _ => rfl) (fun _ => rfl) (fun _ _ hq => holds_deny_ruled hq) d hi hfresh.1
  have hsound : Sound (Desk.discipline lib) (Accounted lib) c :=
    (Sound.initial (D := Desk.discipline lib) trivial
      fun _ => ⟨rfl, List.not_mem_nil⟩).run hentry hr
  exact (hsound.threads t _ ht).2 _ ((Desk.discipline lib).rely_refl t _) trivial

def sampleRow : Quarantine :=
  ⟨1, lit "agent", lit "tool", lit "payload", .pending, noon, none, none, none, 0, none, .null, [],
    []⟩

def samplePending : Table Quarantine.id := ⟨[sampleRow], List.nodup_singleton _⟩

def approvalThen (fate : Fate) : List (Machine.Move Op Res (Option GoError) Fate Empty) :=
  [.start (QuarantineHandler.approve sampleLib ⟨true⟩ (sampleLib.text 1) (lit "alice")),
    .act 0 (.accepted well), .act 0 (.accepted (.clock noon)), .act 0 (.accepted well),
    .act 0 fate]

lemma approvalThen_decides (fate : Fate) :
    ∀ p ∈ Machine.starts (approvalThen fate), Decides sampleLib p :=
  List.forall_mem_cons.mpr ⟨.approve (sampleLib.text 1) (lit "alice"), List.forall_mem_nil _⟩

def sampleVerdict : Verdict := ⟨1, some (lit "alice"), lit "approved", lit "approve"⟩

def Event.isRecord : Event → Bool
  | .appended _ none => true
  | _ => false

/-- The client leaves after the approval committed: there is no ledger entry. -/
theorem approval_without_record : ∃ ls c,
    Run (Desk.machine sampleLib).semantics (Decides sampleLib)
      (Pool.initial (Desk.initial samplePending)) ls c ∧ (∀ u, .lose u ∉ ls) ∧
    c.thread 0 = some (.ret (some errAuditUnavailable)) ∧
    (∃ e, (0, e) ∈ c.shared.world.hist ∧ e.verdict = some sampleVerdict) ∧
    ∀ u entry, (u, .appended entry none) ∉ c.shared.world.hist := by
  have hplay : ((Desk.machine sampleLib).play (approvalThen (.cut (.dropped .canceled)))
      (Pool.initial (Desk.initial samplePending))).map (fun c =>
        ((c.thread 0).bind Prog.result,
          (own 0 c.shared.world.hist).any fun e => e.verdict = some sampleVerdict,
          c.shared.world.hist.any fun e => e.2.isRecord)) =
      some (some (some errAuditUnavailable), true, false) := by decide
  obtain ⟨c, hplay, hfacts⟩ := Option.map_eq_some_iff.mp hplay
  simp only [Prod.mk.injEq, List.any_eq_true, decide_eq_true_eq] at hfacts
  obtain ⟨hret, ⟨e, he, hv⟩, hno⟩ := hfacts
  obtain ⟨p, hp, hresult⟩ := Option.bind_eq_some_iff.mp hret
  obtain ⟨ls, hr, hlose⟩ := Machine.play_run_labels (approvalThen_decides _) hplay
  refine ⟨ls, c, hr, fun u hu => ?_, by rw [hp, Prog.result_eq_some hresult],
    ⟨e, mem_own.mp he, hv⟩, fun u entry hmem => ?_⟩
  · simpa [approvalThen] using hlose u hu
  · exact absurd (List.any_eq_false.mp hno _ hmem) (by simp [Event.isRecord])

theorem decision_recorded_accepted : ∃ ls c,
    Run (Desk.machine sampleLib).semantics (Decides sampleLib)
      (Pool.initial (Desk.initial samplePending)) ls c ∧
    c.thread 0 = some (.ret none) ∧
    ∃ entry, (0, .appended entry none) ∈ c.shared.world.hist ∧
      Records sampleLib c.shared.world sampleVerdict entry := by
  have hplay : ((Desk.machine sampleLib).play (approvalThen (.accepted well))
      (Pool.initial (Desk.initial samplePending))).map (fun c =>
        ((c.thread 0).bind Prog.result,
          (own 0 c.shared.world.hist).any fun e => e.verdict = some sampleVerdict)) =
      some (some none, true) := by decide
  obtain ⟨c, hplay, hfacts⟩ := Option.map_eq_some_iff.mp hplay
  simp only [Prod.mk.injEq, List.any_eq_true, decide_eq_true_eq] at hfacts
  obtain ⟨hret, e, he, hv⟩ := hfacts
  obtain ⟨p, hp, hresult⟩ := Option.bind_eq_some_iff.mp hret
  obtain ⟨ls, hr⟩ := Machine.play_run (approvalThen_decides _) hplay
  have ht : c.thread 0 = some (.ret none) := by rw [hp, Prog.result_eq_some hresult]
  refine ⟨ls, c, hr, ht, ?_⟩
  have h := decision_recorded_or_reported sampleLib samplePending ls c hr 0 none ht e sampleVerdict
    (mem_own.mp he) hv
  exact (h.resolve_right fun h => h.2.1 rfl).2

end KiteRail.Replay
