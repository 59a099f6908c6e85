import KiteRail.QuarantineOutline

namespace KiteRail.Replay
open Bytes QuarantineStore Prog Discipline

section
variable {lib : UuidLib} {cfg : Config} {t : ℕ} {s s' : World}

def Noted (cfg : Config) (t : ℕ) (entry : Ledger) (s : World) : Prop :=
  cfg.ledgered → (t, .appended entry none) ∈ s.hist

lemma Noted.stable {entry : Ledger} : (discipline lib cfg).Stable t (Noted cfg t entry) := by
  intro s s' h hr hl
  obtain ⟨new, hhist, -⟩ := Rely.hist hr
  rw [hhist]
  exact List.mem_append_left _ (h hl)

lemma true_stable : (discipline lib cfg).Stable t fun _ => True := Stable.pure True

section Proxy
open Proxy
variable {h : Handler} (hl : cfg.ledgered → h.ledgerStore = true)

include hl in
lemma holds_record (entry : Ledger) :
    (discipline lib cfg).Holds t (fun _ => True) (record h entry)
      fun res s => res = none → Noted cfg t entry s := by
  have hst : ∀ res : Option GoError,
      (discipline lib cfg).Stable t fun s => res = none → Noted cfg t entry s :=
    fun _ s s' h hr hres => Noted.stable s s' (h hres) hr
  unfold record
  split
  · refine holds_effect (.append entry) true_stable hst (fun _ _ _ => trivial)
      fun s r s' _ _ hx hr => ?_
    obtain rfl := exec_append hx
    exact fun _ => by simp [World.record, hr]
  · rename_i hno
    exact holds_ret true_stable fun _ _ _ _ hled => absurd (hl hled) hno

lemma holds_recordStoreFailure (entry : Ledger) :
    (discipline lib cfg).Holds t (fun _ => True) (recordStoreFailure h entry) fun _ _ => True := by
  unfold recordStoreFailure
  split
  · refine holds_silent .now (fun _ _ h => h) (fun _ => trivial) true_stable fun _ => ?_
    exact holds_op (.append _) true_stable (fun _ _ _ => trivial) (fun _ _ _ _ _ _ => trivial)
      fun _ => holds_ret true_stable fun _ _ h => h
  · exact holds_ret true_stable fun _ _ h => h

lemma holds_enforce (r : Request) (body : Bytes) (inv : Invocation) (time stamp : Time)
    (decision : ProxyDecision) :
    let input := evalInput inv (agentFromContext r.identity) time
    let entry := auditEntry input inv decision body stamp
    (discipline lib cfg).Holds t (Noted cfg t entry) (enforce h r body inv input decision entry)
      fun _ _ => True := by
  intro input entry
  unfold enforce
  cases ha : decision.action with
  | allow =>
    refine holds_op (.forward _ _) (B := fun _ _ => True) Noted.stable (fun s _ hn hled => ?_)
      (fun _ _ _ _ _ _ => trivial) fun _ => holds_ret true_stable fun _ _ h => h
    exact ⟨entry, hn hled, congrArg Action.text ha, rfl, rfl⟩
  | deny => exact holds_ret Noted.stable fun _ _ _ => trivial
  | other text => exact holds_ret Noted.stable fun _ _ _ => trivial
  | quarantine =>
    refine holds_silent .now (fun _ _ h => h) (fun _ => trivial) Noted.stable fun createdAt => ?_
    refine holds_op (.createQuarantineEntry _) (B := fun _ _ => True) Noted.stable
      (fun s _ hn => ⟨Mcp.decodeReplayHeaders_encoded rfl, fun id hled => ?_⟩)
      (fun _ _ _ _ _ _ => trivial) fun res => ?_
    · exact ⟨entry, hn hled, congrArg Action.text ha, rfl⟩
    · cases res with
      | ok id => exact holds_ret true_stable fun _ _ h => h
      | error err =>
        exact holds_bind (holds_recordStoreFailure entry) fun _ =>
          holds_ret true_stable fun _ _ h => h

include hl in
lemma holds_evaluateParsed (r : Request) (body : Bytes) (inv : Invocation) :
    (discipline lib cfg).Holds t (fun _ => True) (evaluateParsed h r body inv) fun _ _ => True := by
  refine holds_silent .now (fun _ _ h => h) (fun _ => trivial) true_stable fun time => ?_
  refine holds_silent (.evaluate _) (fun _ _ h => h) (fun _ => trivial) true_stable
    fun outcome => ?_
  cases outcome with
  | error err => exact holds_ret true_stable fun _ _ h => h
  | ok decision =>
    refine holds_silent .now (fun _ _ h => h) (fun _ => trivial) true_stable fun stamp => ?_
    refine holds_bind (holds_record hl _) fun res => ?_
    cases res with
    | some err => exact fun _ _ _ _ _ _ => trivial
    | none =>
      exact holds_mono (holds_enforce r body inv time stamp decision) (fun _ _ hn => hn rfl)
        fun _ _ _ h => h

include hl in
theorem holds_serveHTTP (r : Request) :
    (discipline lib cfg).Holds t (fun _ => True) (serveHTTP h r) fun _ _ => True := by
  unfold serveHTTP
  split
  · exact holds_ret true_stable fun _ _ h => h
  · split
    · exact holds_ret true_stable fun _ _ h => h
    · exact holds_ret true_stable fun _ _ h => h
    · split
      · exact holds_ret true_stable fun _ _ h => h
      · exact holds_evaluateParsed hl r _ _

end Proxy

/-- A decision of a reviewer needs nothing but its statement's guard. -/
lemma holds_decideWith {h : QuarantineHandler.Handler} {decide : Eff (Option GoError)}
    (hd : (discipline lib cfg).Holds t (fun _ => True) decide fun _ _ => True)
    (id reviewerID decision rule : Bytes) :
    (discipline lib cfg).Holds t (fun _ => True)
      (QuarantineHandler.decideWith lib h id reviewerID decide decision rule)
      fun _ _ => True := by
  refine holds_bind (C := fun _ _ => True) ?_ fun res => ?_
  · unfold QuarantineStore.get
    split
    · exact holds_ret true_stable fun _ _ h => h
    · refine holds_silent (.getQuarantineEntry _) (fun _ _ h => h) (fun _ => trivial) true_stable ?_
      rintro (err | row) <;> exact holds_ret true_stable fun _ _ h => h
  · cases res with
    | error err => exact holds_ret true_stable fun _ _ h => h
    | ok entry =>
      refine holds_bind hd fun res => ?_
      cases res with
      | some err => exact holds_ret true_stable fun _ _ h => h
      | none =>
        dsimp only [QuarantineHandler.appendLedger]
        split
        · refine holds_op (.append _) (B := fun _ _ => True) true_stable (fun _ _ _ => trivial)
            (fun _ _ _ _ _ _ => trivial) ?_
          rintro (_ | err) <;> exact holds_ret true_stable fun _ _ h => h
        · exact holds_ret true_stable fun _ _ h => h

lemma holds_approve (id approvedBy : Bytes) :
    (discipline lib cfg).Holds t (fun _ => True) (approve lib id approvedBy) fun _ _ => True := by
  unfold approve
  split
  · exact holds_ret true_stable fun _ _ h => h
  · refine holds_silent .now (fun _ _ h => h) (fun _ => trivial) true_stable fun _ => ?_
    exact holds_op (.approveQuarantineEntry _ _ _) true_stable (fun _ _ _ => trivial)
      (fun _ _ _ _ _ _ => trivial) fun _ => holds_ret true_stable fun _ _ h => h

lemma holds_deny (id deniedBy reason : Bytes) :
    (discipline lib cfg).Holds t (fun _ => True) (deny lib id deniedBy reason) fun _ _ => True := by
  unfold deny
  split
  · exact holds_ret true_stable fun _ _ h => h
  · refine holds_silent .now (fun _ _ h => h) (fun _ => trivial) true_stable fun _ => ?_
    exact holds_op (.denyQuarantineEntry _ _ _ _) true_stable (fun _ _ _ => trivial)
      (fun _ _ _ _ _ _ => trivial) fun _ => holds_ret true_stable fun _ _ h => h

theorem holds_serves {p : Eff Unit} (hp : Serves lib cfg p) :
    (discipline lib cfg).Holds t (fun _ => True) p fun _ _ => True := by
  have hdone : ∀ {α : Type} {q : Eff α},
      (discipline lib cfg).Holds t (fun _ => True) q (fun _ _ => True) →
      (discipline lib cfg).Holds t (fun _ => True) (q >>= fun _ => .ret ()) fun _ _ => True :=
    fun hq => holds_bind hq fun _ => holds_ret true_stable fun _ _ h => h
  cases hp with
  | proxy h r hl => exact hdone (holds_serveHTTP hl r)
  | approve h id reviewerID => exact hdone (holds_decideWith (holds_approve id reviewerID) _ _ _ _)
  | deny h id reviewerID reason =>
    exact hdone (holds_decideWith (holds_deny id reviewerID reason) _ _ _ _)
  | pass wk hw => exact holds_processOnce hw

theorem sound_run {ls : List (Label Op Res)} {c : Pool Op Res World Unit}
    (hr : Run (World.machine lib).semantics (Serves lib cfg) (Pool.initial World.initial) ls c) :
    Sound (discipline lib cfg) (fun _ _ _ => True) c :=
  (Sound.initial Inv.initial fun _ => trivial).run
    (fun _ _ _ hp hi _ => holds_serves hp _ hi trivial) hr

end
end KiteRail.Replay
