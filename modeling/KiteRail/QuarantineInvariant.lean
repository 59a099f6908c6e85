import KiteRail.QuarantineJournal

/-! The invariant of a deployment and the rules that its threads keep. A statement's
own guard keeps most of the invariant; what a thread has to establish first is said
by `Permitted`, and what it may rely on while it holds the replay lock by `Rely`. -/
namespace KiteRail.Replay
open Bytes QuarantineStore QuarantineWorker

/-- A row is what its life says. -/
structure Agrees (l : Life) (row : Quarantine) : Prop where
  status : row.status = l.phase.status
  attempts : row.attempts = l.attempts
  payload : row.payload = l.payload
  reviewer : l.phase = .approved ∨ l.phase = .claimed ∨ l.phase = .called →
    row.resolvedBy = l.reviewer

structure Inv (lib : UuidLib) (cfg : Config) (s : World) : Prop where
  lives : ∀ u, ∃ m, Lives cfg (acts lib u s.hist) m ∧ Option.Rel Agrees m (s.table.find u)
  journal : Journal lib cfg s.hist
  headers : ∀ u row, s.table.find u = some row →
    ∃ g, Mcp.decodeReplayHeaders (some row.requestHeaders) = .ok g

lemma Phase.replaying_iff {p : Phase} : p.status = .replaying ↔ p = .claimed ∨ p = .called := by
  cases p <;> simp [Phase.status]

lemma Phase.approved_iff {p : Phase} : p.status = .approved ↔ p = .approved := by
  cases p <;> simp [Phase.status]

lemma Phase.undecided_iff {p : Phase} :
    p.status = .pending ∨ p.status = .replayFailed ↔ p = .pending ∨ p = .parked := by
  cases p <;> simp [Phase.status]

section
variable {lib : UuidLib} {cfg : Config} {s s' : World} {t : ℕ}

lemma Inv.life (h : Inv lib cfg s) {u : UUID} {row : Quarantine}
    (hrow : s.table.find u = some row) :
    ∃ l, Lives cfg (acts lib u s.hist) (some l) ∧ Agrees l row := by
  obtain ⟨m, hm, hrel⟩ := h.lives u
  rw [hrow] at hrel
  cases hrel with
  | some ha => exact ⟨_, hm, ha⟩

lemma Inv.initial : Inv lib cfg World.initial where
  lives u := ⟨none, .nil, .none⟩
  journal := .nil
  headers u row h := by simp [World.initial] at h

lemma Inv.recordSilent (h : Inv lib cfg s) {e : Event} (hact : ∀ u, e.act lib u = none)
    (hj : Justified lib cfg s.hist t e) : Inv lib cfg (s.record t e) where
  lives u := by simpa [World.record, acts, hact] using h.lives u
  journal := h.journal.snoc hj
  headers := h.headers

lemma Inv.setLock (h : Inv lib cfg s) (lock : Option ℕ) : Inv lib cfg { s with lock := lock } :=
  ⟨h.lives, h.journal, h.headers⟩

lemma acts_hits {guard : Quarantine → Bool} {event : Quarantine → Event} {u : UUID}
    (hevent : ∀ r, r.id ≠ u → (event r).act lib u = none) :
    acts lib u ((s.table.hits guard).map fun r => (t, event r)) =
      (((s.table.find u).filter guard).bind fun r => (event r).act lib u).toList := by
  rw [acts, List.filterMap_map]
  exact s.table.hits_filterMap guard hevent

/-- A guarded update that is a step of the life of every row it changes. -/
lemma Inv.update (h : Inv lib cfg s) {guard : Quarantine → Bool} {set : Quarantine → Quarantine}
    {hset : ∀ r, (set r).id = r.id} {event : Quarantine → Event} (act : Act)
    (hevent : ∀ r u, (event r).act lib u = if r.id = u then some act else none)
    (hheaders : ∀ r, (set r).requestHeaders = r.requestHeaders)
    (hnext : ∀ r l, s.table.find r.id = some r → guard r = true →
      Lives cfg (acts lib r.id s.hist) (some l) → Agrees l r →
      ∃ l', Next cfg (some l) act l' ∧ Agrees l' (set r))
    (hjust : ∀ r pre, s.table.find r.id = some r → guard r = true → acts lib r.id pre = [] →
      Justified lib cfg (s.hist ++ pre) t (event r)) :
    Inv lib cfg (s.update t guard set hset event) where
  lives u := by
    have hacts : acts lib u ((s.table.hits guard).map fun r => (t, event r)) =
        (((s.table.find u).filter guard).map fun _ => act).toList := by
      rw [acts_hits fun r hr => by simp [hevent, hr]]
      cases hf : s.table.find u with
      | none => rfl
      | some r =>
        cases hg : guard r <;> simp [Option.filter_some, hg, hevent, Table.find_key hf]
    simp only [World.update, acts_append, hacts, Table.find_update]
    cases hf : s.table.find u with
    | none => simpa [hf] using h.lives u
    | some r =>
      obtain rfl : r.id = u := Table.find_key hf
      obtain ⟨l, hl, ha⟩ := h.life hf
      by_cases hg : guard r = true
      · obtain ⟨l', hn, ha'⟩ := hnext r l hf hg hl ha
        exact ⟨some l', by simpa [Option.filter_some, hg] using hl.snoc hn, by
          simpa [hg] using Option.Rel.some ha'⟩
      · exact ⟨some l, by simpa [Option.filter_some, hg] using hl, by
          simpa [hg] using Option.Rel.some ha⟩
  journal := by
    refine h.journal.append fun pre t' e post heq => ?_
    obtain ⟨r₁, r₂, hhits, rfl, hr₂⟩ := List.map_eq_append_iff.mp heq
    obtain ⟨r, r₃, rfl, he, rfl⟩ := List.map_eq_cons_iff.mp hr₂
    obtain ⟨rfl, rfl⟩ := Prod.mk.inj he
    have hmem : r ∈ s.table.hits guard := by simp [hhits]
    obtain ⟨hrow, hg⟩ := List.mem_filter.mp hmem
    refine hjust r _ (Table.find_eq_some_iff.mpr ⟨hrow, rfl⟩) hg ?_
    rw [acts, List.filterMap_map, List.filterMap_eq_nil_iff]
    intro r' hr'
    have hne : r'.id ≠ r.id := by
      have hnd : ((s.table.hits guard).map Quarantine.id).Nodup :=
        s.table.nodup.sublist (List.filter_sublist.map _)
      rw [hhits, List.map_append, List.nodup_append] at hnd
      exact hnd.2.2 _ (List.mem_map_of_mem hr') _ (by simp)
    simp [hevent, hne]
  headers u row hrow := by
    rw [World.update, Table.find_update] at hrow
    obtain ⟨r, hr, rfl⟩ := Option.map_eq_some_iff.mp hrow
    by_cases hg : guard r = true <;> simpa [hg, hheaders] using h.headers u r hr

lemma Agrees.undecided {l : Life} {r : Quarantine} (h : Agrees l r)
    (hr : World.undecided r = true) : l.phase = .pending ∨ l.phase = .parked := by
  rw [← Phase.undecided_iff, ← h.status]
  simpa [World.undecided] using hr

lemma Agrees.replaying {l : Life} {r : Quarantine} (h : Agrees l r) (hr : r.status = .replaying) :
    l.phase = .claimed ∨ l.phase = .called := Phase.replaying_iff.mp (h.status.symm.trans hr)

lemma Inv.approve (h : Inv lib cfg s) (id : UUID) (resolvedAt : Time) (resolvedBy : Option Bytes) :
    Inv lib cfg (s.approve t id resolvedAt resolvedBy) := by
  refine h.update (.approve resolvedBy) (fun _ _ => rfl) (fun _ => rfl) ?_ fun _ _ _ _ _ => trivial
  intro r l _ hg _ ha
  obtain ⟨-, hr⟩ := Bool.and_eq_true_iff.mp hg
  exact ⟨_, .approve resolvedBy (ha.undecided hr), rfl, rfl, ha.payload, fun _ => rfl⟩

lemma Inv.deny (h : Inv lib cfg s) (id : UUID) (resolvedAt : Time)
    (resolvedBy reason : Option Bytes) :
    Inv lib cfg (s.deny t id resolvedAt resolvedBy reason) := by
  refine h.update .deny (fun _ _ => rfl) (fun _ => rfl) ?_ fun _ _ _ _ _ => trivial
  intro r l _ hg _ ha
  obtain ⟨-, hr⟩ := Bool.and_eq_true_iff.mp hg
  exact ⟨_, .deny (ha.undecided hr), rfl, ha.attempts, ha.payload, by simp⟩

lemma Inv.claim (h : Inv lib cfg s) (ids : List UUID) : Inv lib cfg (s.claim t ids) := by
  have happroved : ∀ (r : Quarantine) (l : Life), (decide (r.id ∈ ids) &&
      decide (r.status = .approved)) = true → Agrees l r → l.phase = .approved := by
    intro r l hg ha
    obtain ⟨-, hr⟩ := Bool.and_eq_true_iff.mp hg
    exact Phase.approved_iff.mp (ha.status.symm.trans (of_decide_eq_true hr))
  refine h.update .claim (fun _ _ => rfl) (fun _ => rfl) ?_ ?_
  · intro r l _ hg _ ha
    have hp := happroved r l hg ha
    exact ⟨_, .claim hp, rfl, ha.attempts, ha.payload, fun _ => ha.reviewer (.inl hp)⟩
  · intro r pre hf hg hpre
    obtain ⟨l, hl, ha⟩ := h.life hf
    have hp := happroved r l hg ha
    refine ⟨l, ?_, hp, ha.payload, ha.reviewer (.inl hp)⟩
    simpa [World.claimOf, hpre] using hl

lemma Inv.replayed (h : Inv lib cfg s) (id : UUID) (now : Time) :
    Inv lib cfg (s.replayed t id now) := by
  refine h.update .replay (fun _ _ => rfl) (fun _ => rfl) ?_ fun _ _ _ _ _ => trivial
  intro r l _ hg _ ha
  obtain ⟨-, hr⟩ := Bool.and_eq_true_iff.mp hg
  exact ⟨_, .replay (ha.replaying (of_decide_eq_true hr)), rfl, congrArg (· + 1) ha.attempts,
    ha.payload, by simp⟩

lemma Inv.release (h : Inv lib cfg s) {guard : Quarantine → Bool}
    (hguard : ∀ r, guard r = true → r.status = .replaying) :
    Inv lib cfg (s.update t guard World.releaseOf (fun _ => rfl) fun r => .released r.id) := by
  refine h.update .release (fun _ _ => rfl) (fun _ => rfl) ?_ fun _ _ _ _ _ => trivial
  intro r l _ hg _ ha
  have hp := ha.replaying (hguard r hg)
  refine ⟨_, .release hp, rfl, congrArg (· + 1) ha.attempts, ha.payload, fun _ => ?_⟩
  exact ha.reviewer (.inr hp)

/-- What a thread knows before it parks an entry. -/
def ParkGround (lib : UuidLib) (cfg : Config) (s : World) (id : UUID) (site : ParkSite) : Prop :=
  ∀ row, s.table.find id = some row → row.status = .replaying →
    (site = .exhausted → cfg.maxReplayAttempts < row.attempts) ∧
    (site = .failed → cfg.targeted → (acts lib id s.hist).getLast? = some .call)

lemma Lives.phase_of_getLast {acts : List Act} {l : Life} (h : Lives cfg acts (some l)) {a : Act}
    (ha : acts.getLast? = some a) : ∃ m, Lives cfg acts.dropLast m ∧ Next cfg m a l := by
  have hsplit : acts = acts.dropLast ++ [a] := (List.dropLast_append_getLast? a ha).symm
  rw [hsplit] at h
  exact Lives.snoc_iff.mp h

lemma Inv.parked (h : Inv lib cfg s) {id : UUID} {site : ParkSite}
    (hground : ParkGround lib cfg s id site) : Inv lib cfg (s.parked t id site) := by
  refine h.update (.park site) (fun _ _ => rfl) (fun _ => rfl) ?_ fun _ _ _ _ _ => trivial
  intro r l hf hg hl ha
  obtain ⟨hid, hr⟩ := Bool.and_eq_true_iff.mp hg
  obtain rfl : r.id = id := of_decide_eq_true hid
  obtain ⟨hx, hfailed⟩ := hground r hf (of_decide_eq_true hr)
  refine ⟨_, .park site (ha.replaying (of_decide_eq_true hr)) ?_ ?_, rfl, ha.attempts, ha.payload,
    by simp⟩
  · exact fun hsite => ha.attempts ▸ hx hsite
  · intro hsite ht
    obtain ⟨_, -, hn⟩ := hl.phase_of_getLast (hfailed hsite ht)
    cases hn
    rfl

lemma Inv.held (h : Inv lib cfg s) {id : UUID} {arg : CreateQuarantineEntryParams}
    {hnew : s.table.find (World.heldRow id arg).id = none}
    (hheaders : ∃ g, Mcp.decodeReplayHeaders (some arg.requestHeaders) = .ok g)
    (hj : Justified lib cfg s.hist t (.held (World.heldRow id arg))) :
    Inv lib cfg (s.held t id arg hnew) where
  lives u := by
    obtain ⟨m, hm, hrel⟩ := h.lives u
    simp only [World.held, acts_append, Table.find_insert]
    by_cases hu : u = (World.heldRow id arg).id
    · rw [hu, hnew] at hrel
      rw [hu] at hm ⊢
      cases hrel
      refine ⟨some ⟨.pending, 0, 0, none, arg.payload⟩, ?_, ?_⟩
      · have hact : acts lib (World.heldRow id arg).id [(t, .held (World.heldRow id arg))] =
            [.hold arg.payload] := by simp [acts, Event.act, World.heldRow]
        exact hact ▸ hm.snoc (.hold arg.payload)
      · simpa using Option.Rel.some ⟨rfl, rfl, rfl, by simp⟩
    · refine ⟨m, ?_, by simpa [hu] using hrel⟩
      simpa [acts, Event.act, Ne.symm hu] using hm
  journal := h.journal.snoc hj
  headers u row hrow := by
    simp only [World.held, Table.find_insert] at hrow
    split_ifs at hrow with hu
    · obtain rfl := Option.some.inj hrow
      exact hheaders
    · exact h.headers u row hrow

lemma ClaimedBy.acts_eq {row : Quarantine} {rs : List (Ledger × Option GoError)} {hist : History}
    (h : ClaimedBy lib t row rs hist) : ∃ before, acts lib row.id hist = before ++ [.claim] := by
  obtain ⟨before, after, rfl, hafter, -⟩ := h
  exact ⟨acts lib row.id before, by
    rw [acts_append, List.append_cancel_left_eq]
    simpa [acts, Event.act] using hafter⟩

/-- A call of a row that was claimed and not called since. -/
lemma Inv.called (h : Inv lib cfg s) {entryID : Bytes} {req : OutRequest} {row : Quarantine}
    {rs : List (Ledger × Option GoError)} (hrow : s.table.find row.id = some row)
    (hclaim : ClaimedBy lib t row rs s.hist) (hid : entryID = lib.text row.id)
    (hmax : row.attempts ≤ cfg.maxReplayAttempts)
    (hj : Justified lib cfg s.hist t (.called entryID req)) :
    Inv lib cfg (s.record t (.called entryID req)) where
  lives u := by
    simp only [World.record, acts_append]
    by_cases hu : row.id = u
    · subst hu
      obtain ⟨l, hl, ha⟩ := h.life hrow
      have hphase : l.phase = .claimed := by
        obtain ⟨before, hacts⟩ := hclaim.acts_eq
        rw [hacts] at hl
        obtain ⟨_, -, hn⟩ := Lives.snoc_iff.mp hl
        cases hn
        rfl
      refine ⟨some { l with phase := .called, calls := l.calls + 1 }, ?_, ?_⟩
      · simpa [acts, Event.act, hid] using hl.snoc (.call hphase (ha.attempts ▸ hmax))
      · rw [hrow]
        refine .some ⟨?_, ha.attempts, ha.payload, fun _ => ha.reviewer (.inr (.inl hphase))⟩
        rw [ha.status, hphase]
        rfl
    · have hne : lib.text row.id ≠ lib.text u := fun he => hu (lib.text_injective he)
      simpa [acts, Event.act, hid, hne] using h.lives u
  journal := h.journal.snoc hj
  headers := h.headers

end
end KiteRail.Replay
