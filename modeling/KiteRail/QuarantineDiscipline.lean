import KiteRail.QuarantineInvariant

/-! The rely/guarantee discipline of a deployment: what each operation does, what a
thread must know before it, and what the others leave alone. The statements of a
replay pass are only made under its lock, so the rows it claimed are its own. -/
namespace KiteRail.Replay
open Bytes QuarantineStore QuarantineWorker

section
variable (lib : UuidLib) (cfg : Config)

def Does (t : ℕ) (s s' : World) : Op → Prop
  | .append entry => ∃ res, s' = s.record t (.appended entry res)
  | .forward agent out => s' = s.record t (.forwarded agent out)
  | .createQuarantineEntry arg => ∃ id h, s' = s.held t id arg h
  | .approveQuarantineEntry id resolvedAt resolvedBy => s' = s.approve t id resolvedAt resolvedBy
  | .denyQuarantineEntry id resolvedAt resolvedBy reason =>
    s' = s.deny t id resolvedAt resolvedBy reason
  | .claimApprovedForReplay _ => ∃ ids, s' = s.claim t ids
  | .markReplayed id => ∃ now, s' = s.replayed t id now
  | .markReplayFailed id site => s' = s.parked t id site
  | .returnToApproved id => s' = s.released t id
  | .recoverStuckReplays => s' = s.recovered t
  | .tryReplayLock => (s.lock = none ∨ s.lock = some t) ∧ s' = { s with lock := some t }
  | .rollback => s' = s.unlock t
  | .httpDo entryID req => s' = s.record t (.called entryID req)
  | _ => False

/-- What a thread must know before an operation. -/
def Permitted (t : ℕ) (s : World) : Op → Prop
  | .forward agent out => Justified lib cfg s.hist t (.forwarded agent out)
  | .createQuarantineEntry arg =>
    (∃ g, Mcp.decodeReplayHeaders (some arg.requestHeaders) = .ok g) ∧
      ∀ id, Justified lib cfg s.hist t (.held (World.heldRow id arg))
  | .claimApprovedForReplay _ => s.lock = some t
  | .markReplayed _ => s.lock = some t
  | .markReplayFailed id site => s.lock = some t ∧ ParkGround lib cfg s id site
  | .returnToApproved _ => s.lock = some t
  | .recoverStuckReplays => s.lock = some t
  | .httpDo entryID req => s.lock = some t ∧ Justified lib cfg s.hist t (.called entryID req) ∧
      ∃ row rs, s.table.find row.id = some row ∧ row.status = .replaying ∧
        ClaimedBy lib t row rs s.hist ∧ entryID = lib.text row.id ∧
        row.attempts ≤ cfg.maxReplayAttempts
  | _ => True

/-- What thread `t` may rely on: its own part of the history is its own, and while it
holds the lock nothing happens to the rows that are being replayed. -/
structure Rely (t : ℕ) (s s' : World) : Prop where
  hist : ∃ new, s'.hist = s.hist ++ new ∧ (∀ e ∈ new, e.1 ≠ t) ∧
    (s.lock = some t → ∀ u row, s.table.find u = some row → row.status = .replaying →
      acts lib u new = [])
  lock : s.lock = some t → s'.lock = some t
  rows : s.lock = some t → ∀ u row, s.table.find u = some row → row.status = .replaying →
    s'.table.find u = some row

end

section
variable {lib : UuidLib} {cfg : Config} {s s' : World} {t u : ℕ} {op : Op} {r : Res op}

lemma exec_cases (h : (World.machine lib).semantics.exec t op s r s') :
    s' = s ∨ Does t s s' op := by
  obtain ⟨ch, h⟩ := h
  change World.answer lib ch t op s = some (r, s') at h
  unfold World.answer at h
  split at h <;> try split_ifs at h with hc
  all_goals try split at h
  all_goals first
    | obtain ⟨rfl, rfl⟩ := Prod.mk.inj (Option.some.inj h)
    | simp at h
  all_goals first
    | exact .inl rfl
    | exact .inr rfl
    | exact .inr ⟨_, rfl⟩
    | exact .inr ⟨_, hc, rfl⟩
    | exact .inr ⟨hc, rfl⟩

lemma exec_httpDo {entryID : Bytes} {req : OutRequest} {r : Except GoError ℕ}
    (h : (World.machine lib).semantics.exec t (.httpDo entryID req) s r s') :
    s' = s.record t (.called entryID req) := by
  obtain ⟨ch, h⟩ := h
  cases ch with
  | response status => exact (Prod.mk.inj (Option.some.inj h)).2.symm
  | dropped err => exact (Prod.mk.inj (Option.some.inj h)).2.symm
  | _ => simp [World.machine, World.answer] at h

lemma exec_append {entry : Ledger} {r : Option GoError}
    (h : (World.machine lib).semantics.exec t (.append entry) s r s') :
    s' = s.record t (.appended entry r) := by
  obtain ⟨ch, h⟩ := h
  cases ch with
  | dropped err =>
    obtain ⟨rfl, rfl⟩ := Prod.mk.inj (Option.some.inj h)
    rfl
  | done now ack =>
    cases ack with
    | ok =>
      obtain ⟨rfl, rfl⟩ := Prod.mk.inj (Option.some.inj h)
      rfl
    | _ => simp [World.machine, World.answer] at h
  | _ => simp [World.machine, World.answer] at h

lemma exec_tryReplayLock
    (h : (World.machine lib).semantics.exec t .tryReplayLock s (.ok true) s') :
    s'.lock = some t := by
  obtain ⟨ch, h⟩ := h
  cases ch with
  | done now ack =>
    simp only [World.machine, World.answer] at h
    split_ifs at h with hfree
    · exact (Prod.mk.inj (Option.some.inj h)).2 ▸ rfl
    · cases ack <;> simp [Ack.answer] at h
  | _ => simp [World.machine, World.answer] at h

lemma exec_claimApproved {limit : ℕ} {rows : List Quarantine}
    (h : (World.machine lib).semantics.exec t (.claimApprovedForReplay limit) s (.ok rows) s') :
    ∃ ids, s.claimable limit ids = true ∧ rows = s.claimRows ids ∧ s' = s.claim t ids := by
  obtain ⟨ch, h⟩ := h
  cases ch with
  | claimed ids ack =>
    simp only [World.machine, World.answer] at h
    split_ifs at h with hok
    obtain ⟨hrows, rfl⟩ := Prod.mk.inj (Option.some.inj h)
    cases ack with
    | ok => exact ⟨ids, hok, (Except.ok.inj hrows).symm, rfl⟩
    | _ => simp [Ack.answer] at hrows
  | _ => simp [World.machine, World.answer] at h

lemma Inv.exec (hi : Inv lib cfg s) (hp : Permitted lib cfg t s op)
    (h : (World.machine lib).semantics.exec t op s r s') : Inv lib cfg s' := by
  rcases exec_cases h with rfl | hd
  · exact hi
  cases op with
  | append entry =>
    obtain ⟨res, rfl⟩ := hd
    exact hi.recordSilent (fun _ => rfl) trivial
  | forward agent out =>
    obtain rfl := hd
    exact hi.recordSilent (fun _ => rfl) hp
  | createQuarantineEntry arg =>
    obtain ⟨id, hnew, rfl⟩ := hd
    exact hi.held hp.1 (hp.2 id)
  | approveQuarantineEntry id resolvedAt resolvedBy =>
    obtain rfl := hd
    exact hi.approve id resolvedAt resolvedBy
  | denyQuarantineEntry id resolvedAt resolvedBy reason =>
    obtain rfl := hd
    exact hi.deny id resolvedAt resolvedBy reason
  | claimApprovedForReplay limit =>
    obtain ⟨ids, rfl⟩ := hd
    exact hi.claim ids
  | markReplayed id =>
    obtain ⟨now, rfl⟩ := hd
    exact hi.replayed id now
  | markReplayFailed id site =>
    obtain rfl := hd
    exact hi.parked hp.2
  | returnToApproved id =>
    obtain rfl := hd
    exact hi.release fun r hg => of_decide_eq_true (Bool.and_eq_true_iff.mp hg).2
  | recoverStuckReplays =>
    obtain rfl := hd
    exact hi.release fun r hg => of_decide_eq_true hg
  | tryReplayLock =>
    obtain ⟨-, rfl⟩ := hd
    exact hi.setLock _
  | rollback =>
    obtain rfl := hd
    exact hi.setLock _
  | httpDo entryID req =>
    obtain rfl := hd
    obtain ⟨-, hj, row, rs, hrow, -, hclaim, hid, hmax⟩ := hp
    exact hi.called hrow hclaim hid hmax hj
  | _ => exact hd.elim

lemma Rely.refl (t : ℕ) (s : World) : Rely lib t s s :=
  ⟨⟨[], by simp, by simp, fun _ _ _ _ _ => rfl⟩, id, fun _ _ _ hf _ => hf⟩

lemma Rely.trans {a b c : World} (h : Rely lib t a b) (g : Rely lib t b c) : Rely lib t a c := by
  obtain ⟨new, hb, hown, hacts⟩ := h.hist
  obtain ⟨new', hc, hown', hacts'⟩ := g.hist
  refine ⟨⟨new ++ new', by simp [hb, hc], ?_, ?_⟩, fun hl => g.lock (h.lock hl), ?_⟩
  · intro e he
    exact (List.mem_append.mp he).elim (hown e) (hown' e)
  · intro hl u row hf hr
    rw [acts_append, hacts hl u row hf hr, hacts' (h.lock hl) u row (h.rows hl u row hf hr) hr]
    rfl
  · exact fun hl u row hf hr => g.rows (h.lock hl) u row (h.rows hl u row hf hr) hr

lemma Rely.record (hne : t ≠ u) {e : Event}
    (hact : s.lock = some u → ∀ v, e.act lib v = none) : Rely lib u s (s.record t e) := by
  refine ⟨⟨[(t, e)], rfl, by simpa using hne, fun hl v _ _ _ => ?_⟩, id, fun _ _ _ hf _ => hf⟩
  simp [acts, hact hl v]

lemma Rely.update (hne : t ≠ u) {guard : Quarantine → Bool} {set : Quarantine → Quarantine}
    {hset : ∀ r, (set r).id = r.id} {event : Quarantine → Event}
    (hevent : ∀ r v, r.id ≠ v → (event r).act lib v = none)
    (hguard : s.lock = some u → ∀ r, guard r = true → r.status ≠ .replaying) :
    Rely lib u s (s.update t guard set hset event) := by
  have hmiss : s.lock = some u → ∀ row : Quarantine, row.status = .replaying →
      guard row = false := fun hl row hr =>
    Bool.eq_false_iff.mpr fun hg => hguard hl row hg hr
  refine ⟨⟨_, rfl, ?_, ?_⟩, id, ?_⟩
  · intro e he
    obtain ⟨r, -, rfl⟩ := List.mem_map.mp he
    exact hne
  · intro hl v row hf hr
    rw [acts_hits fun r hv => hevent r v hv, hf]
    simp [Option.filter_some, hmiss hl row hr]
  · intro hl v row hf hr
    simp [World.update, hf, hmiss hl row hr]

lemma Rely.held (hne : t ≠ u) {id : UUID} {arg : CreateQuarantineEntryParams}
    {hnew : s.table.find (World.heldRow id arg).id = none} :
    Rely lib u s (s.held t id arg hnew) := by
  have hother : ∀ v row, s.table.find v = some row → v ≠ (World.heldRow id arg).id := by
    intro v row hf hv
    rw [hv, hnew] at hf
    exact absurd hf (by simp)
  refine ⟨⟨_, rfl, by simpa using hne, fun _ v row hf _ => ?_⟩, fun hl => hl,
    fun _ v row hf _ => ?_⟩
  · simp [acts, Event.act, Ne.symm (hother v row hf)]
  · rw [World.held, Table.find_insert, if_neg (hother v row hf), hf]

lemma Rely.setLock {lock : Option ℕ} (hl : s.lock = some u → lock = some u) :
    Rely lib u s { s with lock := lock } :=
  ⟨⟨[], by simp, by simp, fun _ _ _ _ _ => rfl⟩, hl, fun _ _ _ hf _ => hf⟩

lemma Rely.unlock (hne : t ≠ u) : Rely lib u s (s.unlock t) :=
  Rely.setLock fun hl => by simp [hl, Ne.symm hne]

/-- Permitted operations of one thread are what the others rely on. -/
lemma Rely.exec (hne : t ≠ u) (hp : Permitted lib cfg t s op)
    (h : (World.machine lib).semantics.exec t op s r s') : Rely lib u s s' := by
  have hother : s.lock = some t → s.lock ≠ some u := fun ht hu =>
    hne (Option.some.inj (ht.symm.trans hu))
  have hundecided : ∀ (id : UUID) (r : Quarantine),
      (decide (r.id = id) && World.undecided r) = true → r.status ≠ .replaying := by
    intro id r hg hr
    simp [World.undecided, hr] at hg
  rcases exec_cases h with rfl | hd
  · exact .refl u _
  cases op with
  | append entry =>
    obtain ⟨res, rfl⟩ := hd
    exact .record hne fun _ _ => rfl
  | forward agent out =>
    obtain rfl := hd
    exact .record hne fun _ _ => rfl
  | createQuarantineEntry arg =>
    obtain ⟨id, hnew, rfl⟩ := hd
    exact .held hne
  | approveQuarantineEntry id resolvedAt resolvedBy =>
    obtain rfl := hd
    exact .update hne (fun r v hv => by simp [Event.act, hv]) fun _ r hg => hundecided id r hg
  | denyQuarantineEntry id resolvedAt resolvedBy reason =>
    obtain rfl := hd
    exact .update hne (fun r v hv => by simp [Event.act, hv]) fun _ r hg => hundecided id r hg
  | claimApprovedForReplay limit =>
    obtain ⟨ids, rfl⟩ := hd
    exact .update hne (fun r v hv => by simp [Event.act, World.claimOf, hv]) fun hl =>
      absurd hl (hother hp)
  | markReplayed id =>
    obtain ⟨now, rfl⟩ := hd
    exact .update hne (fun r v hv => by simp [Event.act, hv]) fun hl => absurd hl (hother hp)
  | markReplayFailed id site =>
    obtain rfl := hd
    exact .update hne (fun r v hv => by simp [Event.act, hv]) fun hl => absurd hl (hother hp.1)
  | returnToApproved id =>
    obtain rfl := hd
    exact .update hne (fun r v hv => by simp [Event.act, hv]) fun hl => absurd hl (hother hp)
  | recoverStuckReplays =>
    obtain rfl := hd
    exact .update hne (fun r v hv => by simp [Event.act, hv]) fun hl => absurd hl (hother hp)
  | tryReplayLock =>
    obtain ⟨hfree, rfl⟩ := hd
    refine .setLock fun hl => ?_
    rcases hfree with hn | ht
    · simp [hl] at hn
    · exact absurd hl (hother ht)
  | rollback =>
    obtain rfl := hd
    exact .unlock hne
  | httpDo entryID req =>
    obtain rfl := hd
    exact .record hne fun hl => absurd hl (hother hp.1)
  | _ => exact hd.elim

def discipline (lib : UuidLib) (cfg : Config) : Discipline (World.machine lib).semantics where
  inv := Inv lib cfg
  fresh _ _ := True
  guar t op s r s' :=
    Permitted lib cfg t s op ∧ (World.machine lib).semantics.exec t op s r s'
  rely := Rely lib
  rely_refl := Rely.refl
  rely_trans _ _ _ _ := Rely.trans
  rely_guar _ _ _ _ _ _ hne _ hg := .exec hne hg.1 hg.2
  rely_env _ _ _ _ he := he.choose.elim
  rely_lose _ _ _ hne _ := .unlock hne
  fresh_rely _ _ _ _ _ := trivial
  inv_env _ _ _ he := he.choose.elim
  inv_lose _ _ hi := hi.setLock _

/-- The rule for one operation: what is known before it permits it. -/
lemma holds_effect (op : Op) {A : World → Prop} {B : Res op → World → Prop}
    (hst : (discipline lib cfg).Stable t A) (hst' : ∀ r, (discipline lib cfg).Stable t (B r))
    (hp : ∀ s, Inv lib cfg s → A s → Permitted lib cfg t s op)
    (hpost : ∀ s r s', Inv lib cfg s → A s →
      (World.machine lib).semantics.exec t op s r s' → B r s') :
    (discipline lib cfg).Holds t A (effect op) B :=
  Discipline.holds_call hst (fun s r s' hi hA hx =>
    ⟨hi.exec (hp s hi hA) hx, ⟨hp s hi hA, hx⟩, hpost s r s' hi hA hx⟩)
    fun r => Discipline.holds_ret (hst' r) fun _ _ h => h

lemma holds_op (op : Op) {α : Type} {k : Res op → Eff α} {A : World → Prop}
    {B : Res op → World → Prop} {C : α → World → Prop}
    (hst : (discipline lib cfg).Stable t A)
    (hp : ∀ s, Inv lib cfg s → A s → Permitted lib cfg t s op)
    (hpost : ∀ s r s', Inv lib cfg s → A s →
      (World.machine lib).semantics.exec t op s r s' → B r s')
    (hk : ∀ r, (discipline lib cfg).Holds t (B r) (k r) C) :
    (discipline lib cfg).Holds t A (effect op >>= k) C :=
  Discipline.holds_call hst (fun s r s' hi hA hx =>
    ⟨hi.exec (hp s hi hA) hx, ⟨hp s hi hA, hx⟩, hpost s r s' hi hA hx⟩) hk

lemma holds_silent (op : Op) {α : Type} {k : Res op → Eff α} {A : World → Prop}
    {C : α → World → Prop} (hop : ∀ s s', ¬ Does t s s' op)
    (hp : ∀ s, Permitted lib cfg t s op) (hst : (discipline lib cfg).Stable t A)
    (hk : ∀ r, (discipline lib cfg).Holds t A (k r) C) :
    (discipline lib cfg).Holds t A (effect op >>= k) C :=
  holds_op op hst (fun s _ _ => hp s) (fun s r s' _ hA hx => by
    rcases exec_cases hx with rfl | hd
    · exact hA
    · exact absurd hd (hop _ _)) hk

end
end KiteRail.Replay
