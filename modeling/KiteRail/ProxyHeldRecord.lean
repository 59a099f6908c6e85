import KiteRail.RequestContext

/-! Held requests and their records under contexts that may be cancelled. A request is
recorded as held before it is stored, and where it is not stored a second record says
so. That record is appended under the context of the request, so a cancellation leaves
the first one standing alone. -/
namespace KiteRail.Proxy
open Bytes Replay Discipline

inductive Serving : Eff Reply → Prop
  | request (h : Handler) (r : Request) (hl : h.ledgerStore = true) : Serving (serveHTTP h r)

/-- The request of thread `t` was recorded as held. -/
def Quarantined (d : Desk) (t : ℕ) (entry : Ledger) : Prop :=
  (t, .appended entry none) ∈ d.world.hist ∧ entry.decision = lit "quarantine"

def Stored (d : Desk) (t : ℕ) (entry : Ledger) : Prop :=
  ∃ row, (t, .held row) ∈ d.world.hist ∧ HeldAs row.id row.payload d ∧
    entry.payloadHash = payloadHash row.payload

/-- A later record says that the request was not stored. -/
def Retracted (d : Desk) (t : ℕ) (entry : Ledger) : Prop :=
  ∃ pre post failed, d.world.hist = pre ++ (t, .appended entry none) :: post ∧
    (t, .appended failed none) ∈ post ∧ failed.decision = lit "quarantine_store_failed" ∧
    failed.payloadHash = entry.payloadHash

def Unheld (evs : List Event) : Prop :=
  ∀ entry, .appended entry none ∈ evs → entry.decision ≠ lit "quarantine"

/-- The events of a finished request. -/
inductive Trail (cancelled : Prop) : List Event → Prop
  | unheld {evs : List Event} (h : Unheld evs) : Trail cancelled evs
  | stored {entry : Ledger} {row : Quarantine} {rest : List Event}
      (hhash : entry.payloadHash = payloadHash row.payload) (hrest : Unheld rest) :
      Trail cancelled (.appended entry none :: .held row :: rest)
  | retracted {entry failed : Ledger} (hdecision : failed.decision = lit "quarantine_store_failed")
      (hhash : failed.payloadHash = entry.payloadHash) (hlive : ¬ cancelled) :
      Trail cancelled [.appended entry none, .appended failed none]
  | phantom {entry failed : Ledger} {err : GoError} (hcut : cancelled) :
      Trail cancelled [.appended entry none, .appended failed (some err)]

lemma text_eq_quarantine {a : Action} (h : a.text = lit "quarantine") : a = .quarantine := by
  cases a with
  | allow => exact absurd h (by decide)
  | deny => exact absurd h (by decide)
  | quarantine => rfl
  | other text hother => exact absurd h hother.2.2

section
variable {lib : UuidLib} {t : ℕ} {d d' : Desk}

lemma trail_stable : (Desk.discipline lib).Stable t fun d =>
    Trail (t ∈ d.cancelled) (own t d.world.hist) :=
  Desk.stable_own (P := fun evs cancelled => Trail cancelled evs)

lemma own_stable {evs : List Event} :
    (Desk.discipline lib).Stable t fun d => own t d.world.hist = evs :=
  Desk.stable_own (P := fun own _ => own = evs)

lemma exec_create {arg : CreateQuarantineEntryParams} {r : Except GoError Bytes}
    (h : (Desk.machine lib).semantics.exec t (.createQuarantineEntry arg) d r d') :
    (∃ row, own t d'.world.hist = own t d.world.hist ++ [.held row] ∧ row.payload = arg.payload) ∨
      own t d'.world.hist = own t d.world.hist ∧ ∃ err, r = .error err := by
  obtain ⟨ch, ha, -⟩ := Desk.exec_cases h
  cases ch with
  | inserted id ack =>
    simp only [World.answer] at ha
    split_ifs at ha with hnew
    obtain ⟨-, hd⟩ := Prod.mk.inj (Option.some.inj ha)
    refine .inl ⟨World.heldRow id arg, ?_, rfl⟩
    rw [← hd, World.held, own_append]
    exact congrArg _ (own_self t [.held (World.heldRow id arg)])
  | dropped err =>
    obtain ⟨rfl, hd⟩ := Prod.mk.inj (Option.some.inj ha)
    exact .inr ⟨by rw [hd], err, rfl⟩
  | _ => simp [World.answer] at ha

/-- The second record, after the events `evs`. -/
lemma holds_recordStoreFailure_trail {h : Handler} (hl : h.ledgerStore = true) {entry : Ledger}
    {evs : List Event} {reply : Reply}
    (htrail : ∀ failed res cancelled, failed.decision = lit "quarantine_store_failed" →
      failed.payloadHash = entry.payloadHash → (res = none ↔ ¬ cancelled) →
      Trail cancelled (evs ++ [.appended failed res])) :
    (Desk.discipline lib).Holds t (fun d => own t d.world.hist = evs)
      (do
        recordStoreFailure h entry
        return reply)
      fun _ d => Trail (t ∈ d.cancelled) (own t d.world.hist) := by
  rw [recordStoreFailure, if_pos hl]
  refine Desk.holds_silent rfl (fun _ _ h => h) own_stable fun stamp => ?_
  refine Desk.holds_op own_stable
    (B := fun (_ : Option GoError) d => Trail (t ∈ d.cancelled) (own t d.world.hist)) ?_ fun _ =>
    holds_ret trail_stable fun _ _ h => h
  intro d res d' hown hx
  obtain ⟨hown', hcut⟩ := Desk.exec_append hx
  rw [hown', hown]
  exact htrail _ res _ rfl rfl hcut

lemma unheld_nil : Unheld [] := by simp [Unheld]

lemma holds_enforce_trail {h : Handler} (hl : h.ledgerStore = true) (r : Request) (body : Bytes)
    (inv : Invocation) (time stamp : Time) (decision : ProxyDecision) :
    let input := evalInput inv (agentFromContext r.identity) time
    let entry := auditEntry input inv decision body stamp
    (Desk.discipline lib).Holds t (fun d => own t d.world.hist = [.appended entry none])
      (enforce h r body inv input decision entry)
      fun _ d => Trail (t ∈ d.cancelled) (own t d.world.hist) := by
  intro input entry
  have hother : decision.action ≠ .quarantine → ∀ rest, Unheld rest →
      ∀ d : Desk, own t d.world.hist = .appended entry none :: rest →
      Trail (t ∈ d.cancelled) (own t d.world.hist) := by
    intro ha rest hrest d hown
    rw [hown]
    refine .unheld fun entry' hmem hdecision => ?_
    rcases List.mem_cons.mp hmem with heq | hmem
    · obtain rfl : entry' = entry := by simpa using heq
      exact ha (text_eq_quarantine hdecision)
    · exact hrest entry' hmem hdecision
  unfold enforce
  cases ha : decision.action with
  | allow =>
    refine Desk.holds_op own_stable
      (B := fun _ d => Trail (t ∈ d.cancelled) (own t d.world.hist)) (fun d res d' hown hx => ?_)
      fun _ => holds_ret trail_stable fun _ _ h => h
    rcases exec_cases (Desk.exec_world hx) with hd | hd
    · exact hother (by simp [ha]) [] unheld_nil d' (by rw [hd, hown])
    · let sent := [Event.forwarded (agentFromContext r.identity) (rewrite h r body)]
      refine hother (by simp [ha]) sent (by simp [Unheld, sent]) d' ?_
      rw [hd, World.record, own_append, hown]
      exact congrArg _ (own_self t sent)
  | deny => exact holds_ret own_stable fun d _ hown => hother (by simp [ha]) [] unheld_nil d hown
  | other text _ =>
    exact holds_ret own_stable fun d _ hown => hother (by simp [ha]) [] unheld_nil d hown
  | quarantine =>
    refine Desk.holds_silent rfl (fun _ _ h => h) own_stable fun createdAt => ?_
    refine Desk.holds_op own_stable (B := fun (res : Except GoError Bytes) d =>
      (∃ row, own t d.world.hist = [.appended entry none, .held row] ∧ row.payload = body) ∨
        own t d.world.hist = [.appended entry none] ∧ ∃ err, res = .error err) ?_ fun res => ?_
    · intro d res d' hown hx
      simpa [hown] using exec_create hx
    · cases res with
      | ok id =>
        refine holds_ret (Desk.stable_own (P := fun own _ =>
          (∃ row, own = [.appended entry none, .held row] ∧ row.payload = body) ∨
            own = [.appended entry none] ∧ ∃ err, (.ok id : Except GoError Bytes) = .error err)) ?_
        rintro d - (⟨row, hown, hpayload⟩ | ⟨-, err, herr⟩)
        · rw [hown]
          exact .stored (congrArg payloadHash hpayload.symm) unheld_nil
        · simp at herr
      | error err =>
        rintro d hi (⟨row, hown, hpayload⟩ | ⟨hown, -⟩)
        · refine holds_recordStoreFailure_trail hl (fun failed res cancelled hf _ _ => ?_) d hi hown
          refine .stored (congrArg payloadHash hpayload.symm) fun entry' hmem => ?_
          obtain ⟨rfl, -⟩ : entry' = failed ∧ _ := by simpa using hmem
          rw [hf]
          decide
        · refine holds_recordStoreFailure_trail hl (fun failed res cancelled hf hhash hcut => ?_)
            d hi hown
          cases res with
          | none => exact .retracted hf hhash (hcut.mp rfl)
          | some err => exact .phantom (not_not.mp (hcut.not.mp (by simp)))

lemma holds_unheld {evs : List Event} (hevs : Unheld evs) (reply : Reply) :
    (Desk.discipline lib).Holds t (fun d => own t d.world.hist = evs) (.ret reply)
      fun _ d => Trail (t ∈ d.cancelled) (own t d.world.hist) :=
  holds_ret own_stable fun d _ hown => by
    rw [hown]
    exact .unheld hevs

lemma holds_evaluateParsed_trail {h : Handler} (hl : h.ledgerStore = true) (r : Request)
    (body : Bytes) (inv : Invocation) :
    (Desk.discipline lib).Holds t (fun d => own t d.world.hist = []) (evaluateParsed h r body inv)
      fun _ d => Trail (t ∈ d.cancelled) (own t d.world.hist) := by
  refine Desk.holds_silent rfl (fun _ _ h => h) own_stable fun time => ?_
  refine Desk.holds_silent rfl (fun _ _ h => h) own_stable fun outcome => ?_
  cases outcome with
  | error err => exact holds_unheld unheld_nil _
  | ok decision =>
    refine Desk.holds_silent rfl (fun _ _ h => h) own_stable fun stamp => ?_
    simp only [record, if_pos hl]
    refine Desk.holds_op own_stable (B := fun (res : Option GoError) d => own t d.world.hist =
      [.appended (auditEntry (evalInput inv (agentFromContext r.identity) time) inv decision body
        stamp) res]) (fun d res d' hown hx => ?_) fun res => ?_
    · rw [(Desk.exec_append hx).1, hown]
      rfl
    · cases res with
      | some err => exact holds_unheld (by simp [Unheld]) _
      | none => exact holds_enforce_trail hl r body inv time stamp decision

lemma holds_serveHTTP_trail {h : Handler} (hl : h.ledgerStore = true) (r : Request) :
    (Desk.discipline lib).Holds t (fun d => own t d.world.hist = []) (serveHTTP h r)
      fun _ d => Trail (t ∈ d.cancelled) (own t d.world.hist) := by
  unfold serveHTTP
  split
  · exact holds_unheld unheld_nil _
  split
  · exact holds_unheld unheld_nil _
  · exact holds_unheld unheld_nil _
  split
  · exact holds_unheld unheld_nil _
  · exact holds_evaluateParsed_trail hl r _ _

lemma exists_of_own {hist : History} {evs rest : List Event} {e : Event}
    (h : own t hist = evs ++ e :: rest) :
    ∃ pre post, hist = pre ++ (t, e) :: post ∧ own t post = rest := by
  obtain ⟨pre, hist', rfl, -, hrest⟩ := List.filterMap_eq_append_iff.mp h
  obtain ⟨mid, ⟨u, e'⟩, post, rfl, -, he, hpost⟩ := List.filterMap_eq_cons_iff.mp hrest
  obtain ⟨rfl, rfl⟩ : u = t ∧ e' = e := by simpa using he
  exact ⟨pre ++ mid, post, by simp, hpost⟩

/-- A trail decides whether a held request is stored or retracted. -/
lemma Trail.settled (hstored : ∀ row, (t, .held row) ∈ d.world.hist → HeldAs row.id row.payload d)
    (h : Trail (t ∈ d.cancelled) (own t d.world.hist)) {entry : Ledger}
    (hq : Quarantined d t entry) :
    Stored d t entry ∨ Retracted d t entry ↔
      (∃ row, (t, .held row) ∈ d.world.hist) ∨ t ∉ d.cancelled := by
  obtain ⟨hentry, hdecision⟩ := hq
  rw [← mem_own] at hentry
  generalize hevs : own t d.world.hist = evs at h hentry
  cases h with
  | unheld h => exact absurd hdecision (h entry hentry)
  | @stored q row rest hhash hrest =>
    have hrow : (t, .held row) ∈ d.world.hist := mem_own.mp (by simp [hevs])
    obtain rfl : entry = q := by
      rcases List.mem_cons.mp hentry with heq | hmem
      · simpa using heq
      · exact absurd hdecision (hrest entry (by simpa using hmem))
    exact ⟨fun _ => .inl ⟨row, hrow⟩, fun _ => .inl ⟨row, hrow, hstored row hrow, hhash⟩⟩
  | @retracted q failed hf hhash hlive =>
    obtain rfl : entry = q := by
      rcases List.mem_cons.mp hentry with heq | hmem
      · simpa using heq
      · obtain rfl : entry = failed := by simpa using hmem
        exact absurd (hf.symm.trans hdecision) (by decide)
    obtain ⟨pre, post, hhist, hpost⟩ := exists_of_own (hevs.trans (List.nil_append _).symm)
    have hfailed : (t, .appended failed none) ∈ post := mem_own.mp (by simp [hpost])
    exact ⟨fun _ => .inr hlive, fun _ => .inr ⟨pre, post, failed, hhist, hfailed, hf, hhash⟩⟩
  | @phantom q failed err hcut =>
    obtain rfl : entry = q := by simpa using hentry
    have hheld : ∀ row, (t, .held row) ∉ d.world.hist := fun row hrow => by
      rw [← mem_own, hevs] at hrow
      simp at hrow
    constructor
    · rintro (⟨row, hrow, -⟩ | ⟨pre, post, other, hhist, hother, hf, -⟩)
      · exact absurd hrow (hheld row)
      · have hmem : (t, .appended other none) ∈ d.world.hist := by simp [hhist, hother]
        rw [← mem_own, hevs] at hmem
        obtain rfl : other = entry := by simpa using hmem
        exact absurd (hf.symm.trans hdecision) (by decide)
    · rintro (⟨row, hrow⟩ | hlive)
      · exact absurd hrow (hheld row)
      · exact absurd hcut hlive

end

/-- A request that was recorded as held is, once its handler has returned, stored or
retracted exactly if its insert took effect or its context was not cancelled. -/
theorem quarantine_settled_iff (lib : UuidLib) (table : Table Quarantine.id)
    (ls : List (Label Op Res)) (c : Pool Op Res Desk Reply)
    (hr : Run (Desk.machine lib).semantics Serving (Pool.initial (Desk.initial table)) ls c)
    (t : ℕ) (reply : Reply) (ht : c.thread t = some (.ret reply)) (entry : Ledger)
    (hq : Quarantined c.shared t entry) :
    Stored c.shared t entry ∨ Retracted c.shared t entry ↔
      (∃ row, (t, .held row) ∈ c.shared.world.hist) ∨ t ∉ c.shared.cancelled := by
  have hentry : ∀ p t d, Serving p → True → (Desk.discipline lib).fresh t d →
      (Desk.discipline lib).wp t p
        (fun _ d => Trail (t ∈ d.cancelled) (own t d.world.hist)) d := by
    rintro _ t d ⟨h, r, hl⟩ hi hfresh
    exact holds_serveHTTP_trail hl r d hi hfresh.1
  have hsound : Sound (Desk.discipline lib)
      (fun t _ d => Trail (t ∈ d.cancelled) (own t d.world.hist)) c :=
    (Sound.initial (D := Desk.discipline lib) trivial
      fun _ => ⟨rfl, List.not_mem_nil⟩).run hentry hr
  have htrail := (hsound.threads t _ ht).2 _ ((Desk.discipline lib).rely_refl t _) trivial
  exact htrail.settled (Desk.stored_of_run hr t) hq

/-- A request that is recorded as held; its insert and the second record meet these
fates. -/
def heldThen (insert second : Fate) : List (Machine.Move Op Res Reply Fate Empty) :=
  [.start (serveHTTP sampleHandler sampleRequest), .act 0 (.accepted (.clock noon)),
    .act 0 (.accepted (.verdict (.ok ⟨.quarantine, lit "rule", [], lit "v1"⟩))),
    .act 0 (.accepted (.clock noon)), .act 0 (.accepted well), .act 0 (.accepted (.clock noon)),
    .act 0 insert, .act 0 (.accepted (.clock noon)), .act 0 second]

lemma heldThen_serving (insert second : Fate) :
    ∀ p ∈ Machine.starts (heldThen insert second), Serving p :=
  List.forall_mem_cons.mpr ⟨.request sampleHandler sampleRequest rfl, List.forall_mem_nil _⟩

def recordsAs (decision : Bytes) : Event → Bool
  | .appended entry none => entry.decision = decision
  | _ => false

lemma recordsAs_iff {decision : Bytes} {e : Event} : recordsAs decision e = true ↔
    ∃ entry, e = .appended entry none ∧ entry.decision = decision := by
  cases e with
  | appended entry res => cases res <;> simp [recordsAs]
  | _ => simp [recordsAs]

/-- The client leaves before the request is stored: the record stands alone. -/
theorem phantom_record : ∃ ls c reply entry,
    Run (Desk.machine sampleLib).semantics Serving (Pool.initial (Desk.initial .empty)) ls c ∧
    (∀ u, .lose u ∉ ls) ∧ c.thread 0 = some (.ret reply) ∧ Quarantined c.shared 0 entry ∧
    c.shared.world.table.rows = [] ∧ ∀ u failed, (u, .appended failed none) ∈ c.shared.world.hist →
      failed.decision ≠ lit "quarantine_store_failed" := by
  have hplay : ((Desk.machine sampleLib).play
      (heldThen (.cut (.dropped .canceled)) (.cut (.dropped .canceled)))
      (Pool.initial (Desk.initial .empty))).map (fun c =>
        (((c.thread 0).bind Prog.result).isSome,
          (own 0 c.shared.world.hist).any (recordsAs (lit "quarantine")),
          c.shared.world.table.rows.isEmpty,
          c.shared.world.hist.any fun e => recordsAs (lit "quarantine_store_failed") e.2)) =
      some (true, true, true, false) := by decide +kernel
  obtain ⟨c, hplay, hfacts⟩ := Option.map_eq_some_iff.mp hplay
  simp only [Prod.mk.injEq, List.any_eq_true, List.isEmpty_iff] at hfacts
  obtain ⟨hret, ⟨e, he, hrecord⟩, hrows, hno⟩ := hfacts
  obtain ⟨entry, rfl, hdecision⟩ := recordsAs_iff.mp hrecord
  obtain ⟨reply, hreply⟩ := Option.isSome_iff_exists.mp hret
  obtain ⟨p, hp, hresult⟩ := Option.bind_eq_some_iff.mp hreply
  obtain ⟨ls, hr, hlose⟩ := Machine.play_run_labels (heldThen_serving _ _) hplay
  refine ⟨ls, c, reply, entry, hr, fun u hu => ?_, by rw [hp, Prog.result_eq_some hresult],
    ⟨mem_own.mp he, hdecision⟩, hrows, fun u failed hmem hf => ?_⟩
  · simpa [heldThen] using hlose u hu
  · exact absurd (List.any_eq_false.mp hno _ hmem) (not_not.mpr (recordsAs_iff.mpr ⟨_, rfl, hf⟩))

/-- An insert that fails under a live context is retracted. -/
theorem quarantine_settled_refused : ∃ ls c entry,
    Run (Desk.machine sampleLib).semantics Serving (Pool.initial (Desk.initial .empty)) ls c ∧
    Quarantined c.shared 0 entry ∧ (Stored c.shared 0 entry ∨ Retracted c.shared 0 entry) := by
  have hplay : ((Desk.machine sampleLib).play
      (heldThen (.accepted (.dropped (.text (msg "disk full")))) (.accepted well))
      (Pool.initial (Desk.initial .empty))).map (fun c =>
        (((c.thread 0).bind Prog.result).isSome,
          (own 0 c.shared.world.hist).any (recordsAs (lit "quarantine")),
          c.shared.cancelled)) = some (true, true, []) := by decide +kernel
  obtain ⟨c, hplay, hfacts⟩ := Option.map_eq_some_iff.mp hplay
  simp only [Prod.mk.injEq, List.any_eq_true] at hfacts
  obtain ⟨hret, ⟨e, he, hrecord⟩, hlive⟩ := hfacts
  obtain ⟨entry, rfl, hdecision⟩ := recordsAs_iff.mp hrecord
  obtain ⟨reply, hreply⟩ := Option.isSome_iff_exists.mp hret
  obtain ⟨p, hp, hresult⟩ := Option.bind_eq_some_iff.mp hreply
  obtain ⟨ls, hr⟩ := Machine.play_run (heldThen_serving _ _) hplay
  have ht : c.thread 0 = some (.ret reply) := by rw [hp, Prog.result_eq_some hresult]
  have hq : Quarantined c.shared 0 entry := ⟨mem_own.mp he, hdecision⟩
  exact ⟨ls, c, entry, hr, hq,
    (quarantine_settled_iff sampleLib .empty ls c hr 0 reply ht entry hq).mpr
      (.inr (by simp [hlive]))⟩

end KiteRail.Proxy
