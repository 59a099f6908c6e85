import KiteRail.QuarantineWorld

/-! What every history of a deployment satisfies. The events about one entry are a
life that agrees with its row, and every event that touches the upstream, or that
creates a row, is justified by what the same thread recorded before it. -/
namespace KiteRail.Replay
open Bytes QuarantineStore QuarantineWorker

/-- What an event says about the entry `u`. -/
def Event.act (lib : UuidLib) (u : UUID) : Event → Option Act
  | .held row => if row.id = u then some (.hold row.payload) else none
  | .approved id reviewer => if id = u then some (.approve reviewer) else none
  | .denied id _ => if id = u then some .deny else none
  | .claimed row => if row.id = u then some .claim else none
  | .called entryID _ => if entryID = lib.text u then some .call else none
  | .replayed id => if id = u then some .replay else none
  | .released id => if id = u then some .release else none
  | .parked id site => if id = u then some (.park site) else none
  | .appended _ _ => none
  | .forwarded _ _ => none

/-- The life of `u` as the history tells it. -/
def acts (lib : UuidLib) (u : UUID) (hist : History) : List Act :=
  hist.filterMap fun e => e.2.act lib u

/-- The write-ahead records that thread `t` tried to make for `u`. -/
def records (lib : UuidLib) (t : ℕ) (u : UUID) (hist : History) : List (Ledger × Option GoError) :=
  hist.filterMap fun
    | (t', .appended entry res) =>
      if t' = t ∧ entry.decision = lit "replay_started" ∧ entry.requestID = lib.text u
        then some (entry, res) else none
    | _ => none

@[simp] lemma acts_append (lib : UuidLib) (u : UUID) (h g : History) :
    acts lib u (h ++ g) = acts lib u h ++ acts lib u g := List.filterMap_append

@[simp] lemma records_append (lib : UuidLib) (t : ℕ) (u : UUID) (h g : History) :
    records lib t u (h ++ g) = records lib t u h ++ records lib t u g := List.filterMap_append

lemma records_of_others {lib : UuidLib} {t : ℕ} {u : UUID} {h : History}
    (ht : ∀ e ∈ h, e.1 ≠ t) : records lib t u h = [] := by
  rw [records, List.filterMap_eq_nil_iff]
  rintro ⟨t', e⟩ he
  cases e with
  | appended entry res => simp [ht _ he]
  | _ => rfl

/-- The claim by `t` of a row, with what was recorded for it since. -/
def ClaimedBy (lib : UuidLib) (t : ℕ) (row : Quarantine) (rs : List (Ledger × Option GoError))
    (hist : History) : Prop :=
  ∃ before after, hist = before ++ (t, .claimed row) :: after ∧ acts lib row.id after = [] ∧
    records lib t row.id after = rs

/-- The record that precedes a replay of a claimed row. -/
def startedEntry (lib : UuidLib) (row : Quarantine) : Ledger :=
  replayEntry (toQuarantineEntry lib row) (approver (toQuarantineEntry lib row))
    (lit "replay_started")

section Journal
variable (lib : UuidLib) (cfg : Config)

/-- What must have happened before an event. -/
def Justified (pre : History) (t : ℕ) : Event → Prop
  | .held row => cfg.ledgered → ∃ entry, (t, .appended entry none) ∈ pre ∧
      entry.decision = lit "quarantine" ∧ entry.payloadHash = Proxy.payloadHash row.payload
  | .claimed row => ∃ l, Lives cfg (acts lib row.id pre) (some l) ∧ l.phase = .approved ∧
      row.payload = l.payload ∧ row.resolvedBy = l.reviewer
  | .called entryID req => ∃ row rs, ClaimedBy lib t row rs pre ∧ entryID = lib.text row.id ∧
      req.body = row.payload ∧
      req.header.get (lit "Idempotency-Key") = lit "kiterail-quarantine-" ++ entryID ∧
      (cfg.ledgered → rs = [(startedEntry lib row, none)])
  | .forwarded agent out => cfg.ledgered → ∃ entry, (t, .appended entry none) ∈ pre ∧
      entry.decision = lit "allow" ∧ entry.agent = agent ∧
      entry.payloadHash = Proxy.payloadHash out.body
  | _ => True

/-- Every event of the history is justified by those before it. -/
def Journal (hist : History) : Prop :=
  ∀ pre t e post, hist = pre ++ (t, e) :: post → Justified lib cfg pre t e

variable {lib cfg}

lemma Journal.nil : Journal lib cfg [] := by
  intro pre t e post h
  simp at h

lemma Journal.append {hist new : History} (h : Journal lib cfg hist)
    (hnew : ∀ pre t e post, new = pre ++ (t, e) :: post → Justified lib cfg (hist ++ pre) t e) :
    Journal lib cfg (hist ++ new) := by
  intro pre t e post heq
  rcases List.append_eq_append_iff.mp heq with ⟨c, rfl, hc⟩ | ⟨c, rfl, hc⟩
  · exact hnew c t e post hc
  · cases c with
    | nil => simpa using hnew [] t e post (by simpa using hc.symm)
    | cons x c =>
      obtain ⟨rfl, -⟩ := by simpa using hc
      exact h pre t e c (by simp)

lemma Journal.snoc {hist : History} {t : ℕ} {e : Event} (h : Journal lib cfg hist)
    (he : Justified lib cfg hist t e) : Journal lib cfg (hist ++ [(t, e)]) := by
  refine h.append fun pre t' e' post heq => ?_
  obtain ⟨rfl, hx, rfl⟩ : pre = [] ∧ (t, e) = (t', e') ∧ post = [] := by
    cases pre with
    | nil => simpa [eq_comm] using heq
    | cons x xs => simp at heq
  obtain ⟨rfl, rfl⟩ := Prod.mk.inj hx
  simpa using he

end Journal
end KiteRail.Replay
