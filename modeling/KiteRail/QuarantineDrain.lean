import KiteRail.ProgSegment
import KiteRail.QuarantineSafety

/-! Replay passes drain the table. Every row that is approved or being replayed owes
the attempts it may still use; nothing but an approval raises that debt, and a pass
that is not disturbed lowers it, and leaves nothing in `replaying`. -/
namespace KiteRail.Replay
open Bytes QuarantineStore QuarantineWorker Prog Discipline

def active (r : Quarantine) : Bool := r.status = .approved || r.status = .replaying

def weight (maxAttempts : ℕ) (r : Quarantine) : ℕ :=
  if active r then maxAttempts + 2 - min r.attempts (maxAttempts + 1) else 0

def debt (maxAttempts : ℕ) (s : World) : ℕ := (s.table.rows.map (weight maxAttempts)).sum

def Event.approves : Event → Bool
  | .approved _ _ => true
  | _ => false

def approvals (s : World) : ℕ := s.hist.countP fun e => e.2.approves

section
variable {lib : UuidLib} {cfg : Config} {n : ℕ} {s s' s'' : World} {t u : ℕ} {op : Op} {r : Res op}

lemma weight_pos {row : Quarantine} (h : active row = true) : 0 < weight n row := by
  rw [weight, if_pos h]
  omega

lemma weight_of_not_active {row : Quarantine} (h : active row = false) : weight n row = 0 := by
  simp [weight, h]

lemma weight_releaseOf_le {row : Quarantine} (h : row.status = .replaying) :
    weight n (World.releaseOf row) ≤ weight n row := by
  simp only [weight, active, World.releaseOf, h, decide_true, Bool.true_or, Bool.or_true, if_true]
  omega

lemma weight_releaseOf_lt {row : Quarantine} (h : row.status = .replaying) (hn : row.attempts ≤ n) :
    weight n (World.releaseOf row) < weight n row := by
  simp only [weight, active, World.releaseOf, h, decide_true, Bool.true_or, Bool.or_true, if_true]
  omega

/-- Without approvals the debt does not rise. -/
structure Progress (n : ℕ) (s s' : World) : Prop where
  approvals_le : approvals s ≤ approvals s'
  debt_le : approvals s' = approvals s → debt n s' ≤ debt n s

lemma Progress.refl (s : World) : Progress n s s := ⟨le_rfl, fun _ => le_rfl⟩

lemma Progress.trans (h : Progress n s s') (g : Progress n s' s'') : Progress n s s'' := by
  have h₁ := h.approvals_le
  have h₂ := g.approvals_le
  refine ⟨h₁.trans h₂, fun he => ?_⟩
  exact (g.debt_le (by omega)).trans (h.debt_le (by omega))

/-- A change that leaves the rows alone and approves nothing. -/
lemma Progress.same (ht : s'.table = s.table) (ha : approvals s' = approvals s) :
    Progress n s s' :=
  ⟨ha.ge, fun _ => by rw [debt, debt, ht]⟩

lemma approvals_update {guard : Quarantine → Bool} {set : Quarantine → Quarantine}
    {hset : ∀ r, (set r).id = r.id} {event : Quarantine → Event} :
    approvals (s.update t guard set hset event) =
      approvals s + (s.table.hits guard).countP fun r => (event r).approves := by
  simp only [approvals, World.update, List.countP_append, List.countP_map]
  rfl

lemma Progress.update {guard : Quarantine → Bool} {set : Quarantine → Quarantine}
    {hset : ∀ r, (set r).id = r.id} {event : Quarantine → Event}
    (h : ∀ r, guard r = true → (event r).approves = false → weight n (set r) ≤ weight n r) :
    Progress n s (s.update t guard set hset event) := by
  have ha : approvals (s.update t guard set hset event) = _ := approvals_update
  refine ⟨by omega, fun he => s.table.sum_update_le hset fun r hr => ?_⟩
  have hzero : (s.table.hits guard).countP (fun r => (event r).approves) = 0 := by omega
  have hno := List.countP_eq_zero.mp hzero r hr
  exact h r (List.mem_filter.mp hr).2 (by simpa using hno)

lemma Progress.record {e : Event} (he : e.approves = false) : Progress n s (s.record t e) :=
  .same rfl (by simp [approvals, World.record, he])

lemma Progress.held {id : UUID} {arg : CreateQuarantineEntryParams}
    {hnew : s.table.find (World.heldRow id arg).id = none} :
    Progress n s (s.held t id arg hnew) := by
  have ha : approvals (s.held t id arg hnew) = approvals s := by
    simp [approvals, World.held, Event.approves]
  have hd : debt n (s.held t id arg hnew) = debt n s := by
    have hw : weight n (World.heldRow id arg) = 0 := weight_of_not_active rfl
    simp [debt, World.held, Table.insert, hw]
  exact ⟨ha.ge, fun _ => hd.le⟩

/-- Every operation of every thread is progress. -/
lemma Progress.exec (h : (World.machine lib).semantics.exec t op s r s') : Progress n s s' := by
  rcases exec_cases h with rfl | hd
  · exact .refl _
  cases op with
  | append entry =>
    obtain ⟨res, rfl⟩ := hd
    exact .record rfl
  | forward agent out =>
    obtain rfl := hd
    exact .record rfl
  | createQuarantineEntry arg =>
    obtain ⟨id, hnew, rfl⟩ := hd
    exact .held
  | approveQuarantineEntry id resolvedAt resolvedBy =>
    obtain rfl := hd
    exact .update fun r _ ha => absurd ha (by simp [Event.approves])
  | denyQuarantineEntry id resolvedAt resolvedBy reason =>
    obtain rfl := hd
    exact .update fun r _ _ => (weight_of_not_active rfl).le.trans (Nat.zero_le _)
  | claimApprovedForReplay limit =>
    obtain ⟨ids, rfl⟩ := hd
    refine .update fun r hg _ => ?_
    have hr : r.status = .approved := of_decide_eq_true (Bool.and_eq_true_iff.mp hg).2
    simp [weight, active, World.claimOf, hr]
  | markReplayed id =>
    obtain ⟨now, rfl⟩ := hd
    exact .update fun r _ _ => (weight_of_not_active rfl).le.trans (Nat.zero_le _)
  | markReplayFailed id site =>
    obtain rfl := hd
    exact .update fun r _ _ => (weight_of_not_active rfl).le.trans (Nat.zero_le _)
  | returnToApproved id =>
    obtain rfl := hd
    exact .update fun r hg _ =>
      weight_releaseOf_le (of_decide_eq_true (Bool.and_eq_true_iff.mp hg).2)
  | recoverStuckReplays =>
    obtain rfl := hd
    exact .update fun r hg _ => weight_releaseOf_le (of_decide_eq_true hg)
  | tryReplayLock =>
    obtain ⟨-, rfl⟩ := hd
    exact .same rfl rfl
  | rollback =>
    obtain rfl := hd
    exact .same rfl rfl
  | httpDo entryID req =>
    obtain rfl := hd
    exact .record rfl
  | _ => exact hd.elim

/-- What the others may do: make progress, and while thread `t` holds the lock leave
it the lock and the rows that are being replayed. -/
structure Calm (n t : ℕ) (s s' : World) : Prop where
  progress : Progress n s s'
  lock : s.lock = some t → s'.lock = some t
  rows : s.lock = some t → ∀ row : Quarantine, row.status = .replaying →
    (s'.table.find row.id = some row ↔ s.table.find row.id = some row)

lemma Calm.refl (s : World) : Calm n t s s := ⟨.refl s, id, fun _ _ _ => .rfl⟩

lemma Calm.trans (h : Calm n t s s') (g : Calm n t s' s'') : Calm n t s s'' :=
  ⟨h.progress.trans g.progress, fun hl => g.lock (h.lock hl), fun hl row hr =>
    (g.rows (h.lock hl) row hr).trans (h.rows hl row hr)⟩

lemma Calm.unlock (hne : u ≠ t) : Calm n t s (s.unlock u) :=
  ⟨.same rfl rfl, fun hl => by simp [World.unlock, hl, Ne.symm hne], fun _ _ _ => .rfl⟩

lemma find_update_replaying {guard : Quarantine → Bool} {set : Quarantine → Quarantine}
    {hset : ∀ r, (set r).id = r.id} {event : Quarantine → Event}
    (hguard : ∀ r, guard r = true → r.status ≠ .replaying ∧ (set r).status ≠ .replaying)
    {row : Quarantine} (hr : row.status = .replaying) :
    (s.update u guard set hset event).table.find row.id = some row ↔
      s.table.find row.id = some row := by
  simp only [World.update, Table.find_update]
  cases hf : s.table.find row.id with
  | none => simp
  | some r =>
    by_cases hg : guard r = true
    · obtain ⟨h₁, h₂⟩ := hguard r hg
      have hne : r ≠ row := fun he => h₁ (he ▸ hr)
      have hne' : set r ≠ row := fun he => h₂ (he ▸ hr)
      simp [hg, hne, hne']
    · simp [hg]

/-- Operations that need the lock are only made by its owner. -/
lemma Calm.exec (hne : u ≠ t) (hp : Permitted lib cfg u s op)
    (h : (World.machine lib).semantics.exec u op s r s') : Calm n t s s' := by
  have hprogress : Progress n s s' := .exec h
  have hlock : s.lock = some t → s'.lock = some t := Rely.lock (Rely.exec hne hp h)
  refine ⟨hprogress, hlock, fun hl row hr => ?_⟩
  have hmine : s.lock ≠ some u := fun hu => hne (Option.some.inj (hu.symm.trans hl))
  have hundecided : ∀ (id : UUID) (r : Quarantine),
      (decide (r.id = id) && World.undecided r) = true → r.status ≠ .replaying := by
    intro id r hg hr
    simp [World.undecided, hr] at hg
  rcases exec_cases h with rfl | hd
  · exact .rfl
  cases op with
  | append entry =>
    obtain ⟨res, rfl⟩ := hd
    exact .rfl
  | forward agent out =>
    obtain rfl := hd
    exact .rfl
  | createQuarantineEntry arg =>
    obtain ⟨id, hnew, rfl⟩ := hd
    rw [World.held, Table.find_insert]
    split_ifs with hid
    · have hno : World.heldRow id arg ≠ row := fun he => by
        rw [← he] at hr
        exact absurd hr (by simp [World.heldRow])
      rw [hid, hnew]
      simp [hno]
    · exact .rfl
  | approveQuarantineEntry id resolvedAt resolvedBy =>
    obtain rfl := hd
    exact find_update_replaying (fun r hg => ⟨hundecided id r hg, by simp⟩) hr
  | denyQuarantineEntry id resolvedAt resolvedBy reason =>
    obtain rfl := hd
    exact find_update_replaying (fun r hg => ⟨hundecided id r hg, by simp⟩) hr
  | claimApprovedForReplay limit => exact absurd hp hmine
  | markReplayed id => exact absurd hp hmine
  | markReplayFailed id site => exact absurd hp.1 hmine
  | returnToApproved id => exact absurd hp hmine
  | recoverStuckReplays => exact absurd hp hmine
  | tryReplayLock =>
    obtain ⟨-, rfl⟩ := hd
    exact .rfl
  | rollback =>
    obtain rfl := hd
    exact .rfl
  | httpDo entryID req => exact absurd hp.1 hmine
  | _ => exact hd.elim

end

def acknowledged : ExecResult → Bool
  | .ok (.ok _) => true
  | _ => false

/-- The answers to a pass that gets the lock, is not cancelled and whose statements
succeed; nothing is asked of the re-check, the ledger and the upstream. A claim
returns as many approved rows as its limit allows. -/
def smooth (s : World) : (op : Op) → Res op → Bool
  | .ctxErr, err => err.isNone
  | .beginTx, err => err.isNone
  | .tryReplayLock, res => match res with
    | .ok acquired => acquired
    | .error _ => false
  | .recoverStuckReplays, res => acknowledged res
  | .claimApprovedForReplay limit, res => match res with
    | .ok rows => rows.length == min limit (s.table.hits fun r => r.status = .approved).length
    | .error _ => false
  | .markReplayed _, res => acknowledged res
  | .markReplayFailed _ _, res => acknowledged res
  | .returnToApproved _, res => acknowledged res
  | _, _ => true

def Takes (lib : UuidLib) (t : ℕ) (op : Op) (s : World) (r : Res op) (s' : World) : Prop :=
  (World.machine lib).semantics.exec t op s r s' ∧ smooth s op r = true

def quiet : Op → Bool
  | .now => true
  | .ctxErr => true
  | .evaluate _ => true
  | .append _ => true
  | .beginTx => true
  | .httpDo _ _ => true
  | _ => false

/-- The statements that end the turn of a row, and the recovery. -/
def settling : Op → Bool
  | .markReplayed _ => true
  | .markReplayFailed _ _ => true
  | .returnToApproved _ => true
  | .recoverStuckReplays => true
  | _ => false

/-- The rows being replayed are those of the batch of thread `t`. -/
structure Batch (t : ℕ) (rows : List Quarantine) (s : World) : Prop where
  lock : s.lock = some t
  replaying : ∀ row : Quarantine, row.status = .replaying →
    (s.table.find row.id = some row ↔ row ∈ rows)

/-- Unless something was approved since there were `a` approvals, the debt is below
`m`. -/
structure Within (n a m : ℕ) (s : World) : Prop where
  approvals_le : a ≤ approvals s
  debt_lt : approvals s = a → debt n s < m

section
variable {lib : UuidLib} {cfg : Config} {n a m : ℕ} {s s' : World} {t : ℕ} {op : Op} {r : Res op}
  {rows rest : List Quarantine} {cur : Quarantine}

lemma Within.progress (h : Within n a m s) (hp : Progress n s s') : Within n a m s' := by
  have hle := h.approvals_le
  have hle' := hp.approvals_le
  refine ⟨hle.trans hle', fun he => ?_⟩
  exact (hp.debt_le (by omega)).trans_lt (h.debt_lt (by omega))

lemma Batch.calm (h : Batch t rows s) (hc : Calm n t s s') : Batch t rows s' :=
  ⟨hc.lock h.lock, fun row hr => (hc.rows h.lock row hr).trans (h.replaying row hr)⟩

lemma quiet_exec (hq : quiet op = true) (hx : (World.machine lib).semantics.exec t op s r s') :
    s'.table = s.table ∧ s'.lock = s.lock := by
  rcases exec_cases hx with rfl | hd
  · exact ⟨rfl, rfl⟩
  cases op with
  | append entry =>
    obtain ⟨res, rfl⟩ := hd
    exact ⟨rfl, rfl⟩
  | httpDo entryID req =>
    obtain rfl := hd
    exact ⟨rfl, rfl⟩
  | _ => first
    | exact hd.elim
    | simp [quiet] at hq

lemma Batch.quiet (h : Batch t rows s) (hq : quiet op = true)
    (hx : (World.machine lib).semantics.exec t op s r s') : Batch t rows s' := by
  obtain ⟨htable, hlock⟩ := quiet_exec hq hx
  exact ⟨hlock.trans h.lock, fun row hr => htable ▸ h.replaying row hr⟩

/-- A statement with the effect `f` either takes effect or is answered by an error. -/
lemma effect_of_acknowledged (ch : Choice) {x : Option (ExecResult × World)} {f : Time → World}
    {res : ExecResult} (hx : x = some (res, s')) (hack : acknowledged res = true)
    (hanswer : x = match ch with
      | .done now ack => some (ack.result (s.count (f now)), f now)
      | .dropped err => some (.error err, s)
      | _ => none) : ∃ now, s' = f now := by
  subst hanswer
  cases ch with
  | done now ack => exact ⟨now, (Prod.mk.inj (Option.some.inj hx)).2.symm⟩
  | dropped err =>
    obtain ⟨rfl, -⟩ := Prod.mk.inj (Option.some.inj hx)
    simp [acknowledged] at hack
  | _ => simp at hx

lemma does_of_smooth (hop : settling op = true) (h : Takes lib t op s r s') : Does t s s' op := by
  obtain ⟨⟨ch, hx⟩, hs⟩ := h
  cases op with
  | markReplayed id =>
    exact effect_of_acknowledged ch (f := s.replayed t id) hx hs (by cases ch <;> rfl)
  | markReplayFailed id site =>
    exact (effect_of_acknowledged ch (f := fun _ => s.parked t id site) hx hs
      (by cases ch <;> rfl)).choose_spec
  | returnToApproved id =>
    exact (effect_of_acknowledged ch (f := fun _ => s.released t id) hx hs
      (by cases ch <;> rfl)).choose_spec
  | recoverStuckReplays =>
    exact (effect_of_acknowledged ch (f := fun _ => s.recovered t) hx hs
      (by cases ch <;> rfl)).choose_spec
  | _ => simp [settling] at hop

/-- The statement that ends the turn of the first row of a batch. -/
lemma Batch.settle (hb : Batch t (cur :: rest) s) (hw : Within n a (m + 1) s)
    (hcur : cur.status = .replaying) (hne : ∀ row ∈ rest, row.id ≠ cur.id)
    {set : Quarantine → Quarantine} {hset : ∀ r, (set r).id = r.id} {event : Quarantine → Event}
    (hstatus : (set cur).status ≠ .replaying) (hlt : weight n (set cur) < weight n cur)
    (hevent : ∀ r, (event r).approves = false) :
    let s' := s.update t (fun r => r.id = cur.id && r.status = .replaying) set hset event
    Batch t rest s' ∧ Within n a m s' := by
  intro s'
  have hfound : s.table.find cur.id = some cur :=
    (hb.replaying cur hcur).mpr List.mem_cons_self
  have hhits : ∀ r ∈ s.table.hits (fun r => r.id = cur.id && r.status = .replaying), r = cur := by
    intro r hr
    obtain ⟨hf, hg⟩ := Table.mem_hits.mp hr
    have hid : r.id = cur.id := of_decide_eq_true (Bool.and_eq_true_iff.mp hg).1
    rw [hid, hfound] at hf
    exact (Option.some.inj hf).symm
  have hhit : cur ∈ s.table.hits (fun r => r.id = cur.id && r.status = .replaying) :=
    Table.mem_hits.mpr ⟨hfound, by simp [hcur]⟩
  refine ⟨⟨hb.lock, fun row hr => ?_⟩, ?_⟩
  · simp only [s', World.update, Table.find_update]
    by_cases hid : row.id = cur.id
    · have hnot : row ∉ rest := fun hmem => hne row hmem hid
      have hne' : set cur ≠ row := fun he => hstatus (he ▸ hr)
      simp [hid, hfound, hcur, hne', hnot]
    · have hmem : row ∈ cur :: rest ↔ row ∈ rest := by
        rw [List.mem_cons]
        exact ⟨fun h => h.resolve_left fun he => hid (congrArg Quarantine.id he), Or.inr⟩
      rw [← hmem, ← hb.replaying row hr]
      cases hf : s.table.find row.id with
      | none => simp
      | some r =>
        have hr' : r.id ≠ cur.id := by rwa [Table.find_key hf]
        simp [hr']
  · have happ : approvals s' = approvals s := by
      rw [approvals_update, List.countP_eq_zero.mpr fun r _ => by simp [hevent], Nat.add_zero]
    have hdebt : debt n s' < debt n s := by
      refine s.table.sum_update_lt hset (fun r hr => ?_) ⟨cur, hhit, hlt⟩
      rw [hhits r hr]
      exact hlt.le
    refine ⟨happ ▸ hw.approvals_le, fun he => ?_⟩
    have := hw.debt_lt (happ ▸ he)
    omega

end

/-- What a pass knows between two turns. -/
def Turn (n a t : ℕ) (rows : List Quarantine) (m : ℕ) (s : World) : Prop :=
  Batch t rows s ∧ Within n a m s

/-- Triples of a pass of thread `t` under interference. -/
def Achieves {α : Type} (lib : UuidLib) (n t : ℕ) (A : World → Prop) (p : Eff α)
    (B : α → World → Prop) : Prop :=
  ∀ s, A s → p.Ensures (Calm n t) (Takes lib t) B s

section
variable {lib : UuidLib} {n a m t : ℕ} {rows rest : List Quarantine} {cur : Quarantine}
  {wk : Worker} {α β : Type} {A : World → Prop} {B : α → World → Prop}

lemma Turn.calm (s s' : World) (h : Turn n a t rows m s) (hc : Calm n t s s') :
    Turn n a t rows m s' :=
  ⟨h.1.calm hc, h.2.progress hc.progress⟩

lemma achieves_ret {x : α} (h : ∀ s, A s → B x s) : Achieves lib n t A (.ret x) B := h

lemma achieves_bind {p : Eff β} {f : β → Eff α} {C : β → World → Prop}
    (hp : Achieves lib n t A p C) (hf : ∀ b, Achieves lib n t (C b) (f b) B) :
    Achieves lib n t A (p >>= f) B :=
  ensures_bind hp hf

lemma achieves_quiet {op : Op} {k : Res op → Eff α} (hq : quiet op = true)
    (hk : ∀ r, (∃ s, smooth s op r = true) → Achieves lib n t (Turn n a t rows m) (k r) B) :
    Achieves lib n t (Turn n a t rows m) (.call op k) B := by
  refine ensures_call (C := fun r s => Turn n a t rows m s ∧ ∃ s₀, smooth s₀ op r = true)
    Turn.calm ?_ fun r s h => hk r h.2 s h.1
  intro s r s' h hx
  exact ⟨⟨h.1.quiet hq hx.1, h.2.progress (.exec hx.1)⟩, s, hx.2⟩

lemma achieves_silent (op : Op) {k : Res op → Eff α} (hq : quiet op = true)
    (hk : ∀ r, (∃ s, smooth s op r = true) → Achieves lib n t (Turn n a t rows m) (k r) B) :
    Achieves lib n t (Turn n a t rows m) (effect op >>= k) B :=
  achieves_quiet hq hk

lemma achieves_appendLedger (entry : QuarantineEntry) (approvedBy decision : Bytes) :
    Achieves lib n t (Turn n a t rows m) (appendLedger wk entry approvedBy decision)
      fun _ => Turn n a t rows m := by
  unfold appendLedger
  split
  · exact achieves_quiet rfl fun _ _ => achieves_ret fun _ h => h
  · exact achieves_ret fun _ h => h

lemma achieves_recordLedger (entry : QuarantineEntry) (approvedBy decision : Bytes) :
    Achieves lib n t (Turn n a t rows m) (recordLedger wk entry approvedBy decision)
      fun _ => Turn n a t rows m :=
  achieves_bind (achieves_appendLedger entry approvedBy decision) fun _ => achieves_ret fun _ h => h

lemma achieves_currentDecision (entry : QuarantineEntry) :
    Achieves lib n t (Turn n a t rows m) (currentDecision entry) fun _ => Turn n a t rows m := by
  unfold currentDecision
  dsimp only
  split
  · exact achieves_ret fun _ h => h
  · refine achieves_bind (C := fun _ => Turn n a t rows m) ?_ fun outcome => ?_
    swap
    · cases outcome <;> exact achieves_ret fun _ h => h
    unfold Proxy.policyRecheck
    split
    · exact achieves_ret fun _ h => h
    · exact achieves_quiet rfl fun _ _ => achieves_quiet rfl fun _ _ => achieves_ret fun _ h => h

lemma achieves_doReplay (entry : QuarantineEntry) (approvedBy : Bytes) :
    Achieves lib n t (Turn n a t rows m) (doReplay wk entry approvedBy)
      fun _ => Turn n a t rows m := by
  unfold doReplay
  split
  · exact achieves_ret fun _ h => h
  · split
    · exact achieves_ret fun _ h => h
    · refine achieves_silent (.httpDo _ _) rfl fun r _ => ?_
      cases r with
      | error err => exact achieves_ret fun _ h => h
      | ok status =>
        dsimp only
        split
        · exact achieves_ret fun _ h => h
        · exact achieves_ret fun _ h => h

section Turns
variable (hcur : cur.status = .replaying) (hne : ∀ row ∈ rest, row.id ≠ cur.id)

lemma achieves_settle (op : Op) (hop : settling op = true) {f : Res op → α}
    (hdoes : ∀ s s', Does t s s' op → Turn n a t (cur :: rest) (m + 1) s → Turn n a t rest m s') :
    Achieves lib n t (Turn n a t (cur :: rest) (m + 1)) (effect op >>= fun r => return f r)
      fun _ => Turn n a t rest m :=
  ensures_call (C := fun _ => Turn n a t rest m) Turn.calm
    (fun s _ s' h hx => hdoes s s' (does_of_smooth hop hx) h) fun _ _ h => h

include hcur hne in
lemma achieves_markReplayFailed (site : ParkSite) :
    Achieves lib n t (Turn n a t (cur :: rest) (m + 1))
      (markReplayFailed lib (toQuarantineEntry lib cur).id site) fun _ => Turn n a t rest m := by
  rw [markReplayFailed, show (toQuarantineEntry lib cur).id = lib.text cur.id from rfl,
    parseQuarantineID_text]
  refine achieves_settle (.markReplayFailed cur.id site) rfl fun s s' hd h => ?_
  obtain rfl := hd
  refine h.1.settle h.2 hcur hne (by simp) ?_ fun _ => rfl
  exact (weight_of_not_active rfl).trans_lt (weight_pos (by simp [active, hcur]))

include hcur hne in
lemma achieves_markReplayed :
    Achieves lib n t (Turn n a t (cur :: rest) (m + 1))
      (markReplayed lib (toQuarantineEntry lib cur).id) fun _ => Turn n a t rest m := by
  rw [markReplayed, show (toQuarantineEntry lib cur).id = lib.text cur.id from rfl,
    parseQuarantineID_text]
  refine achieves_settle (.markReplayed cur.id) rfl fun s s' hd h => ?_
  obtain ⟨now, rfl⟩ := hd
  refine h.1.settle h.2 hcur hne (by simp) ?_ fun _ => rfl
  exact (weight_of_not_active rfl).trans_lt (weight_pos (by simp [active, hcur]))

include hcur hne in
lemma achieves_returnToApproved (hn : cur.attempts ≤ n) :
    Achieves lib n t (Turn n a t (cur :: rest) (m + 1))
      (returnToApproved lib (toQuarantineEntry lib cur).id) fun _ => Turn n a t rest m := by
  rw [returnToApproved, show (toQuarantineEntry lib cur).id = lib.text cur.id from rfl,
    parseQuarantineID_text]
  refine achieves_settle (.returnToApproved cur.id) rfl fun s s' hd h => ?_
  obtain rfl := hd
  exact h.1.settle h.2 hcur hne (by simp [World.releaseOf]) (weight_releaseOf_lt hcur hn)
    fun _ => rfl

include hcur hne in
lemma achieves_settleReplay (hn : cur.attempts ≤ n) (approvedBy : Bytes)
    (outcome : Bytes × Option GoError) :
    Achieves lib n t (Turn n a t (cur :: rest) (m + 1))
      (settleReplay lib wk (toQuarantineEntry lib cur) approvedBy outcome)
      fun _ => Turn n a t rest m := by
  obtain ⟨text, err⟩ := outcome
  cases err with
  | none =>
    refine achieves_bind (achieves_markReplayed hcur hne) fun res => ?_
    cases res with
    | some _ => exact achieves_ret fun _ h => h
    | none => exact achieves_recordLedger _ _ _
  | some err =>
    refine achieves_bind (achieves_recordLedger _ _ _) fun _ => ?_
    split
    · exact achieves_bind (achieves_markReplayFailed hcur hne _) fun _ => achieves_ret fun _ h => h
    · exact achieves_bind (achieves_returnToApproved hcur hne hn) fun _ =>
        achieves_ret fun _ h => h

include hcur hne in
lemma achieves_replayRecorded (hn : cur.attempts ≤ n) (approvedBy : Bytes) :
    Achieves lib n t (Turn n a t (cur :: rest) (m + 1))
      (replayRecorded lib wk (toQuarantineEntry lib cur) approvedBy)
      fun _ => Turn n a t rest m := by
  refine achieves_bind (achieves_appendLedger _ _ _) fun res => ?_
  cases res with
  | some err =>
    exact achieves_bind (achieves_returnToApproved hcur hne hn) fun _ => achieves_ret fun _ h => h
  | none =>
    exact achieves_bind (achieves_doReplay _ _) fun o => achieves_settleReplay hcur hne hn _ o

include hcur hne in
lemma achieves_blockedByCurrentPolicy (approvedBy : Bytes) :
    Achieves lib n t (Turn n a t (cur :: rest) (m + 1))
      (blockedByCurrentPolicy lib wk (toQuarantineEntry lib cur) approvedBy) fun blocked =>
        if blocked then Turn n a t rest m else Turn n a t (cur :: rest) (m + 1) := by
  refine achieves_bind (achieves_currentDecision _) fun decision => ?_
  split
  · exact achieves_ret fun _ h => h
  · refine achieves_bind (achieves_markReplayFailed hcur hne _) fun res => ?_
    cases res with
    | some _ => exact achieves_ret fun _ h => h
    | none =>
      dsimp only
      split
      · exact achieves_quiet rfl fun _ _ => achieves_ret fun _ h => h
      · exact achieves_ret fun _ h => h

include hcur hne in
/-- The turn of a row ends with exactly one transition, which lowers the debt. -/
lemma achieves_processClaimed (hmax : wk.maxReplayAttempts = n) :
    Achieves lib n t (Turn n a t (cur :: rest) (m + 1))
      (processClaimed lib wk (toQuarantineEntry lib cur)) fun _ => Turn n a t rest m := by
  unfold processClaimed
  dsimp only
  split
  · refine achieves_bind (achieves_markReplayFailed hcur hne _) fun res => ?_
    cases res with
    | some _ => exact achieves_ret fun _ h => h
    | none => exact achieves_recordLedger _ _ _
  · rename_i hle
    have hn : cur.attempts ≤ n := hmax ▸ not_lt.mp hle
    split
    · refine achieves_bind (achieves_blockedByCurrentPolicy hcur hne _) fun blocked => ?_
      cases blocked with
      | true => exact achieves_ret fun _ h => h
      | false => exact achieves_replayRecorded hcur hne hn _
    · exact achieves_replayRecorded hcur hne hn _

end Turns

lemma Within.mono {m' : ℕ} {s : World} (h : Within n a m s) (hm : m ≤ m') : Within n a m' s :=
  ⟨h.approvals_le, fun he => (h.debt_lt he).trans_le hm⟩

lemma achieves_processEach (hmax : wk.maxReplayAttempts = n)
    (hrows : ∀ row ∈ rows, row.status = .replaying) (hnd : (rows.map Quarantine.id).Nodup) :
    Achieves lib n t (Turn n a t rows (m + rows.length))
      (processEach lib wk (rows.map (toQuarantineEntry lib))) fun _ => Turn n a t [] m := by
  induction rows with
  | nil => exact achieves_ret fun _ h => h
  | cons cur rest ih =>
    obtain ⟨hnotin, hnd⟩ := List.nodup_cons.mp hnd
    have hne : ∀ row ∈ rest, row.id ≠ cur.id := fun row hrow he =>
      hnotin (he ▸ List.mem_map_of_mem hrow)
    have hrest := ih (fun row hrow => hrows row (List.mem_cons_of_mem _ hrow)) hnd
    refine achieves_silent .ctxErr rfl fun r hr => ?_
    cases r with
    | some err => exact absurd hr.choose_spec (by simp [smooth])
    | none =>
      exact achieves_bind (achieves_processClaimed (hrows cur List.mem_cons_self) hne hmax)
        fun _ => hrest

end

section Claim
variable {lib : UuidLib} {n a m t limit : ℕ} {s s' : World} {ids : List UUID}

lemma claimRows_ids (h : s.claimable limit ids = true) :
    (s.claimRows ids).map Quarantine.id = ids := by
  simp only [World.claimable, Bool.and_eq_true, List.all_eq_true] at h
  obtain ⟨-, hfound⟩ := h
  rw [World.claimRows, List.map_map]
  induction ids with
  | nil => rfl
  | cons id ids ih =>
    have hall := ih fun id' hid => hfound id' (List.mem_cons_of_mem _ hid)
    obtain ⟨r, hr, -⟩ := (Option.any_eq_true _ _).mp (hfound id List.mem_cons_self)
    have hid : r.id = id := Table.find_key hr
    simpa [hr, hid, World.claimOf] using hall

lemma mem_claimRows {row : Quarantine} :
    row ∈ s.claimRows ids ↔
      ∃ r, r.id ∈ ids ∧ s.table.find r.id = some r ∧ World.claimOf r = row := by
  simp only [World.claimRows, List.mem_map, List.mem_filterMap]
  constructor
  · rintro ⟨r, ⟨id, hid, hf⟩, rfl⟩
    have hkey : r.id = id := Table.find_key hf
    exact ⟨r, hkey ▸ hid, hkey ▸ hf, rfl⟩
  · rintro ⟨r, hid, hf, rfl⟩
    exact ⟨r, ⟨r.id, hid, hf⟩, rfl⟩

lemma claimable_approved (h : s.claimable limit ids = true) {r : Quarantine} (hid : r.id ∈ ids)
    (hf : s.table.find r.id = some r) : r.status = .approved := by
  simp only [World.claimable, Bool.and_eq_true, List.all_eq_true] at h
  simpa [hf] using h.2 r.id hid

/-- After a claim the rows being replayed are the claimed ones. -/
lemma Batch.claim (h : Batch t [] s) (hc : s.claimable limit ids = true) :
    Batch t (s.claimRows ids) (s.claim t ids) := by
  refine ⟨h.lock, fun row hr => ?_⟩
  have hnone : s.table.find row.id ≠ some row := fun hf =>
    absurd ((h.replaying row hr).mp hf) List.not_mem_nil
  simp only [World.claim, World.update, Table.find_update, mem_claimRows,
    Option.map_eq_some_iff]
  constructor
  · rintro ⟨r, hf, hrow⟩
    split_ifs at hrow with hg
    · obtain ⟨hid, -⟩ := Bool.and_eq_true_iff.mp hg
      have hkey : r.id = row.id := Table.find_key hf
      exact ⟨r, of_decide_eq_true hid, hkey ▸ hf, hrow⟩
    · exact absurd (hrow ▸ hf) hnone
  · rintro ⟨r, hid, hf, rfl⟩
    have happ := claimable_approved hc hid hf
    exact ⟨r, hf, by simp [hid, happ]⟩

lemma debt_eq_zero (h : ∀ r ∈ s.table.rows, active r = false) : debt n s = 0 := by
  rw [debt, List.sum_eq_zero]
  intro x hx
  obtain ⟨r, hr, rfl⟩ := List.mem_map.mp hx
  exact weight_of_not_active (h r hr)

/-- A claim that finds nothing: there was nothing to find. -/
lemma debt_of_empty_claim (h : Batch t [] s)
    (hnone : (s.table.hits fun r => r.status = .approved) = []) : debt n s = 0 := by
  apply debt_eq_zero
  intro r hr
  have hf : s.table.find r.id = some r := Table.find_eq_some_iff.mpr ⟨hr, rfl⟩
  have happ : r.status ≠ .approved := fun he => by
    have hmem : r ∈ s.table.hits fun r => r.status = .approved :=
      Table.mem_hits.mpr ⟨hf, by simp [he]⟩
    rw [hnone] at hmem
    exact absurd hmem List.not_mem_nil
  have hrep : r.status ≠ .replaying := fun he =>
    absurd ((h.replaying r he).mp hf) List.not_mem_nil
  simp [active, happ, hrep]

variable {wk : Worker}

/-- A claim followed by the turns of the claimed rows lowers a positive debt. -/
lemma achieves_drainOnce (hmax : wk.maxReplayAttempts = n) (hb : 0 < wk.batchSize) (hm : 0 < m) :
    Achieves lib n t (Turn n a t [] (m + 1)) (drainOnce lib wk) fun _ => Turn n a t [] m := by
  refine ensures_call (C := fun (res : Except GoError (List Quarantine)) s => ∃ rows,
      res = .ok rows ∧ (∀ row ∈ rows, row.status = .replaying) ∧ (rows.map Quarantine.id).Nodup ∧
      Turn n a t rows (m + 1) s ∧ (rows = [] → Within n a m s)) Turn.calm ?_ ?_
  · intro s res s' h hx
    obtain ⟨hexec, hsmooth⟩ := hx
    cases res with
    | error err => simp [smooth] at hsmooth
    | ok rows =>
      obtain ⟨ids, hc, rfl, rfl⟩ := exec_claimApproved hexec
      have hprogress : Progress n s (s.claim t ids) := .exec hexec
      have hlen : (s.claimRows ids).length = min wk.batchSize
          (s.table.hits fun r => r.status = .approved).length := by simpa [smooth] using hsmooth
      refine ⟨_, rfl, ?_, ?_, ⟨h.1.claim hc, h.2.progress hprogress⟩, fun hnil => ?_⟩
      · intro row hrow
        obtain ⟨r, -, -, rfl⟩ := mem_claimRows.mp hrow
        rfl
      · rw [claimRows_ids hc]
        simp only [World.claimable, Bool.and_eq_true, decide_eq_true_eq] at hc
        exact hc.1.1
      · rw [hnil, List.length_nil] at hlen
        have hnone : (s.table.hits fun r => r.status = .approved) = [] := by
          apply List.eq_nil_of_length_eq_zero
          omega
        have hzero : debt n s < m := by rw [debt_of_empty_claim h.1 hnone]; exact hm
        exact Within.progress ⟨h.2.approvals_le, fun _ => hzero⟩ hprogress
  · rintro res s ⟨rows, rfl, hrows, hnd, hturn, hempty⟩
    cases rows with
    | nil => exact ⟨hturn.1, hempty rfl⟩
    | cons cur rest =>
      have hweak : Turn n a t (cur :: rest) (m - rest.length + (cur :: rest).length) s :=
        ⟨hturn.1, hturn.2.mono (by rw [List.length_cons]; omega)⟩
      refine (achieves_processEach hmax hrows hnd s hweak).mono fun _ s h => ?_
      exact ⟨h.1, h.2.mono (Nat.sub_le _ _)⟩

/-- Recovery leaves nothing in `replaying`. -/
lemma batch_recovered (h : s.lock = some t) : Batch t [] (s.recovered t) := by
  refine ⟨h, fun row hr => ?_⟩
  have hfind : (s.recovered t).table.find row.id = _ :=
    s.table.find_update (fun r => r.status = .replaying) World.releaseOf (fun _ => rfl) row.id
  simp only [hfind, Option.map_eq_some_iff, List.not_mem_nil, iff_false, not_exists, not_and]
  intro r _ hrow
  split_ifs at hrow with hg
  · rw [← hrow] at hr
    simp [World.releaseOf] at hr
  · rw [hrow] at hg
    simp [hr] at hg

lemma achieves_replayPass (hmax : wk.maxReplayAttempts = n) (hb : 0 < wk.batchSize) (hm : 0 < m) :
    Achieves lib n t (fun s => s.lock = some t ∧ Within n a (m + 1) s) (replayPass lib wk)
      fun _ => Turn n a t [] m := by
  refine ensures_call (C := fun (res : ExecResult) s =>
    acknowledged res = true ∧ Turn n a t [] (m + 1) s) ?_ ?_ ?_
  · exact fun s s' h hc => ⟨hc.lock h.1, h.2.progress hc.progress⟩
  · intro s res s' h hx
    have hprogress : Progress n s s' := .exec hx.1
    obtain rfl : s' = s.recovered t := does_of_smooth rfl hx
    exact ⟨hx.2, batch_recovered h.1, h.2.progress hprogress⟩
  · rintro res s ⟨hack, hturn⟩
    match res with
    | .ok (.ok count) =>
      exact Ensures.bind (p := drainOnce lib wk) (f := fun _ => .ret none)
        ((achieves_drainOnce hmax hb hm s hturn).mono fun _ _ h => h)
    | .ok (.error err) => simp [acknowledged] at hack
    | .error err => simp [acknowledged] at hack

/-- Before it has the lock, a pass knows only that the debt did not rise. -/
lemma achieves_within (op : Op) {α : Type} {k : Res op → Eff α} {B : α → World → Prop}
    (hk : ∀ r, (∃ s, smooth s op r = true) → Achieves lib n t (Within n a m) (k r) B) :
    Achieves lib n t (Within n a m) (effect op >>= k) B := by
  refine ensures_call (C := fun r s => Within n a m s ∧ ∃ s₀, smooth s₀ op r = true)
    (fun s s' h hc => h.progress hc.progress) ?_ fun r s h => hk r h.2 s h.1
  exact fun s r s' h hx => ⟨h.progress (.exec hx.1), s, hx.2⟩

/-- The last operation of a pass gives back the lock and touches no row. -/
lemma achieves_rollback {α : Type} {f : Unit → α} :
    Achieves lib n t (Turn n a t [] m) (effect .rollback >>= fun r => return f r) fun _ s =>
      (∀ row ∈ s.table.rows, row.status ≠ .replaying) ∧ Within n a m s := by
  refine ensures_call (C := fun _ s =>
    (∀ row ∈ s.table.rows, row.status ≠ .replaying) ∧ Within n a m s) Turn.calm ?_
    fun _ _ h => h
  intro s r s' h hx
  have htable : s'.table = s.table := by
    rcases exec_cases hx.1 with rfl | rfl
    · rfl
    · rfl
  refine ⟨fun row hrow hr => ?_, h.2.progress (.exec hx.1)⟩
  rw [htable] at hrow
  have hfound := Table.find_eq_some_iff.mpr ⟨hrow, rfl⟩
  exact absurd ((h.1.replaying row hr).mp hfound) List.not_mem_nil

lemma achieves_processOnce (hmax : wk.maxReplayAttempts = n) (hb : 0 < wk.batchSize)
    (hm : 0 < m) :
    Achieves lib n t (Within n a (m + 1)) (processOnce lib wk) fun _ s =>
      (∀ row ∈ s.table.rows, row.status ≠ .replaying) ∧ Within n a m s := by
  refine achieves_bind (C := fun _ s =>
    (∀ row ∈ s.table.rows, row.status ≠ .replaying) ∧ Within n a m s) ?_
    fun _ => achieves_ret fun _ h => h
  refine achieves_within .ctxErr fun r hr => ?_
  cases r with
  | some err => exact absurd hr.choose_spec (by simp [smooth])
  | none =>
    refine achieves_within .beginTx fun r hr => ?_
    cases r with
    | some err => exact absurd hr.choose_spec (by simp [smooth])
    | none =>
      refine ensures_call (C := fun (res : Except GoError Bool) s =>
        res = .ok true ∧ s.lock = some t ∧ Within n a (m + 1) s)
        (fun s s' h hc => h.progress hc.progress) ?_ ?_
      · intro s res s' h hx
        have hres : res = .ok true := by
          have hsmooth := hx.2
          match res with
          | .ok true => rfl
          | .ok false => simp [smooth] at hsmooth
          | .error err => simp [smooth] at hsmooth
        have hexec := hx.1
        rw [hres] at hexec
        exact ⟨hres, exec_tryReplayLock hexec, h.progress (.exec hx.1)⟩
      · rintro res s ⟨rfl, hlock, hwithin⟩
        exact achieves_bind (achieves_replayPass hmax hb hm) (fun _ => achieves_rollback) s
          ⟨hlock, hwithin⟩

end Claim
/-- The operations of thread `t` are answered smoothly. -/
def undisturbed (t u : ℕ) (op : Op) (s : World) (r : Res op) (_ : World) : Bool :=
  u != t || smooth s op r

/-- Thread `t` makes a whole pass, from where it was started to its last operation;
the rest of the deployment goes on meanwhile. -/
structure Pass (lib : UuidLib) (cfg : Config) (wk : Worker) (t : ℕ)
    (c d : Pool Op Res World Unit) : Prop where
  started : c.thread t = some (processOnce lib wk)
  run : ∃ ls e op r,
    Run ((World.machine lib).only (undisturbed t)).semantics (Serves lib cfg) c ls e ∧
    Step ((World.machine lib).only (undisturbed t)).semantics (Serves lib cfg) e (.act t op r) d
  returned : d.thread t = some (.ret ())

section
variable {lib : UuidLib} {cfg : Config} {n t : ℕ} {wk : Worker} {c d : Pool Op Res World Unit}

lemma segment (lib : UuidLib) (cfg : Config) (n t : ℕ) :
    Segment ((World.machine lib).only (undisturbed t)).semantics (Serves lib cfg) t (Calm n t)
      (Takes lib t) fun c => Reached lib cfg c ∧ t < c.next where
  refl := .refl
  trans _ _ _ := .trans
  keep c l d hc hs := by
    obtain ⟨⟨ls, hr⟩, ht⟩ := hc
    refine ⟨⟨_, hr.snoc hs.of_only⟩, ?_⟩
    cases hs with
    | start => exact ht.trans (Nat.lt_succ_self _)
    | _ => exact ht
  named c hc := hc.2
  others c l d hc hs hl := by
    cases hs.of_only with
    | start => exact .refl _
    | @act u op k r s ht hx =>
      obtain ⟨-, hg, -⟩ := hc.1.sound.act ht hx
      exact .exec (fun he => hl (congrArg some he)) hg.1 hg.2
    | @lose u op k ht => exact .unlock fun he => hl (congrArg some he)
    | env he => exact he.choose.elim
  own c op r s hc hx := by
    obtain ⟨hexec, hok⟩ := (Machine.only_exec _).mp hx
    exact ⟨hexec, by simpa [undisturbed] using hok⟩

lemma Pass.achieves (hp : Pass lib cfg wk t c d) (hc : Reached lib cfg c)
    (hw : Deployed cfg wk) (hb : 0 < wk.batchSize) {m : ℕ} (hm : 0 < m)
    (hdebt : debt cfg.maxReplayAttempts c.shared ≤ m) :
    (∀ row ∈ d.shared.table.rows, row.status ≠ .replaying) ∧
      Within cfg.maxReplayAttempts (approvals c.shared) m d.shared := by
  obtain ⟨ls, e, op, r, hr, hs⟩ := hp.run
  have hname : t < c.next := (hc.sound.threads t _ hp.started).1
  have hwithin : Within cfg.maxReplayAttempts (approvals c.shared) (m + 1) c.shared :=
    ⟨le_rfl, fun _ => Nat.lt_succ_of_le hdebt⟩
  have hends : (processOnce lib wk).Ensures (Calm cfg.maxReplayAttempts t) (Takes lib t) _
      c.shared := achieves_processOnce hw.limit hb hm c.shared hwithin
  exact (hr.returns (segment lib cfg _ t) ⟨hc, hname⟩ hp.started hends hs hp.returned).2

lemma Progress.run {ls : List (Label Op Res)}
    (h : Run (World.machine lib).semantics (Serves lib cfg) c ls d) :
    Progress n c.shared d.shared := by
  induction h with
  | nil => exact .refl _
  | snoc _ hs ih =>
    refine ih.trans ?_
    cases hs with
    | start => exact .refl _
    | act ht hx => exact .exec hx
    | lose ht => exact .same rfl rfl
    | env he => exact he.choose.elim

lemma Pass.run_machine (hp : Pass lib cfg wk t c d) :
    ∃ ls, Run (World.machine lib).semantics (Serves lib cfg) c ls d := by
  obtain ⟨ls, e, op, r, hr, hs⟩ := hp.run
  exact ⟨_, hr.of_only.snoc hs.of_only⟩

end

/-- A run with `k` whole passes in it, one after the other. -/
inductive Drains (lib : UuidLib) (cfg : Config) (c : Pool Op Res World Unit) :
    ℕ → Pool Op Res World Unit → Prop
  | nil : Drains lib cfg c 0 c
  | other {k : ℕ} {d e : Pool Op Res World Unit} {ls : List (Label Op Res)} :
      Drains lib cfg c k d → Run (World.machine lib).semantics (Serves lib cfg) d ls e →
      Drains lib cfg c k e
  | pass {k t : ℕ} {wk : Worker} {d e : Pool Op Res World Unit} :
      Drains lib cfg c k d → Deployed cfg wk → 0 < wk.batchSize → Pass lib cfg wk t d e →
      Drains lib cfg c (k + 1) e

section
variable {lib : UuidLib} {cfg : Config} {c d : Pool Op Res World Unit} {k : ℕ}

lemma Drains.reached (hc : Reached lib cfg c) (h : Drains lib cfg c k d) : Reached lib cfg d := by
  induction h with
  | nil => exact hc
  | other _ hr ih => exact ih.run hr
  | pass _ _ _ hp ih =>
    obtain ⟨ls, hr⟩ := hp.run_machine
    exact ih.run hr

/-- Each pass takes one off the debt, down to nothing. -/
lemma Drains.debt_le (hc : Reached lib cfg c) (h : Drains lib cfg c k d) :
    approvals c.shared ≤ approvals d.shared ∧
      (approvals d.shared = approvals c.shared → debt cfg.maxReplayAttempts d.shared ≤
        debt cfg.maxReplayAttempts c.shared - k) := by
  induction h with
  | nil => exact ⟨le_rfl, fun _ => le_rfl⟩
  | other _ hr ih =>
    have hp := Progress.run (n := cfg.maxReplayAttempts) hr
    have hle := hp.approvals_le
    refine ⟨ih.1.trans hle, fun he => ?_⟩
    have h₁ := hp.debt_le (by omega)
    have h₂ := ih.2 (by omega)
    omega
  | @pass k t wk d e hd hw hb hp ih =>
    obtain ⟨ls, hr⟩ := hp.run_machine
    have hprogress := Progress.run (n := cfg.maxReplayAttempts) hr
    have hle := hprogress.approvals_le
    refine ⟨ih.1.trans hle, fun he => ?_⟩
    have h₁ := hprogress.debt_le (by omega)
    have h₂ := ih.2 (by omega)
    by_cases hpos : 0 < debt cfg.maxReplayAttempts d.shared
    · have hlt := (hp.achieves (hd.reached hc) hw hb hpos le_rfl).2.debt_lt (by omega)
      omega
    · omega

end

end KiteRail.Replay
