import KiteRail.QuarantineDiscipline

namespace KiteRail.Replay
open Bytes QuarantineStore

def Event.decision : Event → Option UUID
  | .approved id _ => some id
  | .denied id _ => some id
  | _ => none

def ruling : Op → Option UUID
  | .approveQuarantineEntry id _ _ => some id
  | .denyQuarantineEntry id _ _ _ => some id
  | _ => none

/-- The entry exists and its reviewers have decided. -/
def World.Closed (s : World) (id : UUID) : Prop :=
  ∃ row, s.table.find id = some row ∧ World.undecided row = false

/-- What an operation adds to the history: no decision, or one that closes an open entry. -/
inductive Commits (t : ℕ) (op : Op) (s s' : World) : Prop
  | silent (new : History) (hhist : s'.hist = s.hist ++ new)
      (hnew : ∀ e ∈ new, e.1 = t ∧ e.2.decision = none)
  | decision (id : UUID) (e : Event) (hop : ruling op = some id) (he : e.decision = some id)
      (hopen : ¬ s.Closed id) (hclosed : s'.Closed id) (hhist : s'.hist = s.hist ++ [(t, e)])

section
variable {lib : UuidLib} {s s' : World} {t : ℕ} {op : Op} {id : UUID}
  {guard : Quarantine → Bool} {set : Quarantine → Quarantine} {hset : ∀ r, (set r).id = r.id}
  {event : Quarantine → Event}

lemma Commits.record {e : Event} (he : e.decision = none) : Commits t op s (s.record t e) :=
  .silent [(t, e)] rfl (by simpa using he)

lemma Commits.update (hevent : ∀ r, (event r).decision = none) :
    Commits t op s (s.update t guard set hset event) := by
  refine .silent _ rfl fun e he => ?_
  obtain ⟨r, -, rfl⟩ := List.mem_map.mp he
  exact ⟨rfl, hevent r⟩

/-- The guarded update of a decision changes one row or none. -/
lemma Commits.decide (hop : ruling op = some id) (hset' : ∀ r, World.undecided (set r) = false)
    (hevent : ∀ r, (event r).decision = some r.id) :
    Commits t op s (s.update t (fun r => r.id = id && World.undecided r) set hset event) := by
  have hhits : s.table.hits (fun r => r.id = id && World.undecided r) =
      ((s.table.find id).filter fun r => r.id = id && World.undecided r).toList :=
    s.table.hits_of_key fun r hr => of_decide_eq_true (Bool.and_eq_true_iff.mp hr).1
  cases hf : s.table.find id with
  | none => exact .silent [] (by simp [World.update, hhits, hf]) (by simp)
  | some row =>
    have hid : row.id = id := Table.find_key hf
    cases hu : World.undecided row with
    | false =>
      exact .silent [] (by simp [World.update, hhits, hf, hu, Option.filter_some]) (by simp)
    | true =>
      refine .decision id (event row) hop (hid ▸ hevent row) ?_ ⟨set row, ?_, hset' row⟩ ?_
      · rintro ⟨row', hrow', hdecided⟩
        obtain rfl := Option.some.inj (hf.symm.trans hrow')
        simp [hu] at hdecided
      · simp [World.update, hf, hid, hu]
      · simp [World.update, hhits, hf, hid, hu, Option.filter_some]

lemma exec_commits {r : Res op} (h : (World.machine lib).semantics.exec t op s r s') :
    Commits t op s s' := by
  rcases exec_cases h with rfl | hd
  · exact .silent [] (by simp) (by simp)
  cases op with
  | append entry =>
    obtain ⟨res, rfl⟩ := hd
    exact .record rfl
  | createQuarantineEntry arg =>
    obtain ⟨id, hnew, rfl⟩ := hd
    exact .silent [(t, .held _)] rfl (by simp [Event.decision])
  | approveQuarantineEntry id resolvedAt resolvedBy =>
    obtain rfl := hd
    exact .decide rfl (fun _ => rfl) fun _ => rfl
  | denyQuarantineEntry id resolvedAt resolvedBy reason =>
    obtain rfl := hd
    exact .decide rfl (fun _ => rfl) fun _ => rfl
  | claimApprovedForReplay limit =>
    obtain ⟨ids, rfl⟩ := hd
    exact .update fun _ => rfl
  | markReplayed id =>
    obtain ⟨now, rfl⟩ := hd
    exact .update fun _ => rfl
  | tryReplayLock =>
    obtain ⟨-, rfl⟩ := hd
    exact .silent [] (by simp) (by simp)
  | rollback =>
    obtain rfl := hd
    exact .silent [] (by simp [World.unlock]) (by simp)
  | _ => first
    | exact hd.elim
    | (obtain rfl := hd; exact .record rfl)
    | (obtain rfl := hd; exact .update fun _ => rfl)

/-- An update of decided rows to decided rows leaves a closed entry closed. -/
lemma World.Closed.update (h : s.Closed id)
    (hkeep : ∀ r, r.id = id → guard r = true → World.undecided r = false →
      World.undecided (set r) = false) :
    (s.update t guard set hset event).Closed id := by
  obtain ⟨row, hrow, hclosed⟩ := h
  refine ⟨if guard row then set row else row, by simp [World.update, hrow], ?_⟩
  split_ifs with hg
  · exact hkeep row (Table.find_key hrow) hg hclosed
  · exact hclosed

/-- A closed entry stays closed until it is parked. -/
lemma exec_closed {r : Res op} (h : (World.machine lib).semantics.exec t op s r s')
    (hclosed : s.Closed id) (hpark : ∀ site, op ≠ .markReplayFailed id site) : s'.Closed id := by
  rcases exec_cases h with rfl | hd
  · exact hclosed
  cases op with
  | append entry =>
    obtain ⟨res, rfl⟩ := hd
    exact hclosed
  | createQuarantineEntry arg =>
    obtain ⟨new, hnew, rfl⟩ := hd
    obtain ⟨row, hrow, hu⟩ := hclosed
    refine ⟨row, ?_, hu⟩
    rw [World.held, Table.find_insert, if_neg, hrow]
    rintro rfl
    exact absurd (hnew.symm.trans hrow) (by simp)
  | claimApprovedForReplay limit =>
    obtain ⟨ids, rfl⟩ := hd
    exact hclosed.update fun _ _ _ _ => rfl
  | markReplayed id' =>
    obtain ⟨now, rfl⟩ := hd
    exact hclosed.update fun _ _ _ _ => rfl
  | markReplayFailed id' site =>
    obtain rfl := hd
    refine hclosed.update fun r hr hg _ => ?_
    have hid : r.id = id' := of_decide_eq_true (Bool.and_eq_true_iff.mp hg).1
    exact absurd rfl (hr.symm.trans hid ▸ hpark site)
  | tryReplayLock =>
    obtain ⟨-, rfl⟩ := hd
    exact hclosed
  | rollback =>
    obtain rfl := hd
    exact hclosed
  | _ => first
    | exact hd.elim
    | (obtain rfl := hd; exact hclosed)
    | (obtain rfl := hd; exact hclosed.update fun _ _ _ _ => rfl)

end

end KiteRail.Replay
