import KiteRail.NotifyRules

namespace KiteRail.Notify
open Bytes Prog Replay Discipline
variable {lib : UuidLib} {t : ℕ} {s s' : Outbox} {T : ℕ} {key : Key} {keys : List Key}

/-- The thread claimed at `T`, and has the claims of `keys`. -/
structure Holding (t T : ℕ) (keys : List Key) (s : Outbox) : Prop where
  claimed : ∀ h ∈ s.holds, h.thread = t → h.claimedAt = T
  held : ∀ key ∈ keys, ⟨t, key, T⟩ ∈ s.holds

structure Batch (t T : ℕ) (keys : List Key) (s : Outbox) : Prop extends Holding t T keys s where
  idle : ∀ x ∈ s.sends, x.thread ≠ t
  soon : s.punctual = true → s.last t < T + lease

structure Inside (t T : ℕ) (keys : List Key) (s : Outbox) : Prop extends Holding t T keys s where
  sending : ∃ x ∈ s.sends, x.thread = t

lemma Holding.others (h : Holding t T keys s) (hr : Others t s s') :
    Holding t T keys s' :=
  ⟨fun x hx ht => h.claimed x ((hr.holds x ht).mp hx) ht,
    fun key hk => (hr.holds _ rfl).mpr (h.held key hk)⟩

lemma stable_unclaimed : (notifyRules lib).Stable t (Unclaimed t) :=
  fun s s' h hr => (notifyRules lib).fresh_rely t s s' h hr

lemma stable_batch : (notifyRules lib).Stable t (Batch t T keys) := by
  intro s s' h hr
  refine ⟨h.toHolding.others hr, fun x hx ht => h.idle x ((hr.sends x ht).mp hx) ht, fun hp => ?_⟩
  rw [hr.last]
  exact h.soon (hr.punctual hp)

lemma stable_inside : (notifyRules lib).Stable t (Inside t T keys) := by
  intro s s' h hr
  obtain ⟨x, hx, ht⟩ := h.sending
  exact ⟨h.toHolding.others hr, x, (hr.sends x ht).mpr hx, ht⟩

lemma Batch.tail (h : Batch t T (key :: keys) s) : Batch t T keys s :=
  ⟨⟨h.claimed, fun k hk => h.held k (List.mem_cons_of_mem _ hk)⟩, h.idle, h.soon⟩

section Moves

lemma leased_delivered (hi : Leased s) : Leased (s.delivered key) := by
  refine hi.of_fewer_sends rfl rfl id (fun k r h => ?_) fun _ hx => hx
  refine ⟨_, (Table.find_update s.rows _ (fun r => { r with deliveredAt := some s.clock })
    (fun _ => rfl) k).trans (by rw [h, Option.map_some]), ?_⟩
  split <;> exact le_rfl

lemma moves_delivered : Moves t s (s.delivered key) :=
  ⟨rfl, fun _ _ => Iff.rfl, fun _ _ => Iff.rfl, fun _ _ => rfl, id⟩

lemma moves_failed {nextAttemptAt : ℕ} : Moves t s (s.failed t key nextAttemptAt) :=
  ⟨rfl, fun h hne => by simp [Outbox.failed, hne], fun _ _ => Iff.rfl, fun _ _ => rfl, id⟩

lemma moves_sending : Moves t s (s.sending t key) := by
  refine ⟨rfl, fun _ _ => Iff.rfl, fun x hne => ?_, fun _ _ => rfl,
    fun hp => (Bool.and_eq_true_iff.mp hp).1⟩
  refine ⟨fun hx => ?_, List.mem_cons_of_mem _⟩
  rcases List.mem_cons.mp hx with rfl | hx
  · exact absurd rfl hne
  · exact hx

lemma moves_returned {err : Option GoError} : Moves t s (s.returned t key err) :=
  ⟨rfl, fun _ _ => Iff.rfl, fun x hne => by simp [Outbox.returned, hne],
    fun u hu => Function.update_of_ne hu _ _, id⟩

lemma moves_claimed {err : Option GoError} : Moves t s (s.claimed t keys err) := by
  refine ⟨rfl, fun h hne => ?_, fun _ _ => Iff.rfl, fun _ _ => rfl, id⟩
  simp only [Outbox.claimed]
  split
  · exact Iff.rfl
  · refine ⟨fun hh => (List.mem_append.mp hh).elim (fun hh => ?_) id, List.mem_append_right _⟩
    obtain ⟨k, -, rfl⟩ := List.mem_map.mp hh
    exact absurd rfl hne

lemma moves_began {channels : List Bytes} : Moves t s (s.began t channels) :=
  ⟨rfl, fun _ _ => Iff.rfl, fun _ _ => Iff.rfl, fun _ hu => Function.update_of_ne hu _ _, id⟩

lemma moves_enqueued {channels names : List Bytes} :
    Moves t s ((s.began t channels).enqueued names) :=
  ⟨rfl, fun _ _ => Iff.rfl, fun _ _ => Iff.rfl, fun _ hu => Function.update_of_ne hu _ _, id⟩

lemma leased_enqueue {channels : List Bytes} {r : Option GoError} (hi : Leased s)
    (hx : (Outbox.machine lib).semantics.exec t (.enqueueHeldNotifications channels) s r s') :
    Leased s' := by
  rcases exec_enqueue hx with rfl | rfl
  · exact ⟨hi.claimed_le, hi.leased, hi.apart, hi.inside⟩
  · refine hi.of_fewer_sends rfl rfl id (fun k row h => ⟨row, ?_, le_rfl⟩) fun _ hx => hx
    exact find_enqueued h

end Moves

section Rules
variable {α : Type} {B : α → Outbox → Prop} {A : Outbox → Prop}

lemma holds_now {k : ℕ → NotifyProg α} (hst : (notifyRules lib).Stable t A)
    (hk : ∀ time, (notifyRules lib).Holds t A (k time) B) :
    (notifyRules lib).Holds t A (now >>= k) B := by
  refine holds_call (C := fun _ => A) hst (fun s r s' hi hA hx => ?_) hk
  obtain rfl := exec_now hx
  exact ⟨hi, Moves.refl t _, hA⟩

lemma holds_getQuarantineEntry {id : UUID} {k : Except GoError Quarantine → NotifyProg α}
    (hst : (notifyRules lib).Stable t A) (hk : ∀ r, (notifyRules lib).Holds t A (k r) B) :
    (notifyRules lib).Holds t A (getQuarantineEntry id >>= k) B := by
  refine holds_call (C := fun _ => A) hst (fun s r s' hi hA hx => ?_) hk
  obtain ⟨rfl, -⟩ := exec_getQuarantineEntry hx
  exact ⟨hi, Moves.refl t _, hA⟩

lemma holds_markDelivered : (notifyRules lib).Holds t (Batch t T (key :: keys))
    (markDelivered key) fun _ => Batch t T keys := by
  refine holds_call (C := fun _ => Batch t T keys) stable_batch
    (fun s r s' hi hA hx => ?_) fun _ => holds_ret stable_batch fun _ _ h => h
  have hb := hA.tail
  rcases exec_markDelivered hx with rfl | rfl
  · exact ⟨hi, Moves.refl t _, hb⟩
  · exact ⟨leased_delivered hi, moves_delivered, ⟨hb.claimed, hb.held⟩, hb.idle, hb.soon⟩

lemma holds_fail (hnot : key ∉ keys) (attempts : ℕ) : (notifyRules lib).Holds t
    (Batch t T (key :: keys)) (fail key attempts) fun _ => Batch t T keys := by
  refine holds_now stable_batch fun time => ?_
  refine holds_call (C := fun _ => Batch t T keys) stable_batch
    (fun s r s' hi hA hx => ?_) fun _ => holds_ret stable_batch fun _ _ h => h
  have hb := hA.tail
  obtain ⟨hclock, rfl | rfl⟩ := exec_markFailed hx
  · exact ⟨hi, Moves.refl t _, hb⟩
  · have hown : s.punctual = true → ∃ h ∈ s.holds, h.thread = t ∧ h.key = key ∧
        s.clock < h.claimedAt + lease := fun hp =>
      ⟨⟨t, key, T⟩, hA.held key List.mem_cons_self, rfl, rfl, hclock ▸ hA.soon hp⟩
    refine ⟨leased_failed hi hA.idle hown _, moves_failed,
      ⟨fun h hh => hb.claimed h (List.mem_filter.mp hh).1, fun k hk => ?_⟩, hb.idle, hb.soon⟩
    refine List.mem_filter.mpr ⟨hb.held k hk, ?_⟩
    have hne : k ≠ key := fun he => hnot (he ▸ hk)
    simp [hne]

/-- A send that began in time returns before the lease ends. -/
lemma holds_send (action : HeldAction) : (notifyRules lib).Holds t (Batch t T (key :: keys))
    (send key action) fun _ => Batch t T (key :: keys) := by
  refine holds_call (C := fun _ => Inside t T (key :: keys)) stable_batch
    (fun s r s' hi hA hx => ?_) fun _ => ?_
  · obtain rfl := exec_beginSend hx
    exact ⟨leased_sending hi, moves_sending, ⟨hA.claimed, hA.held⟩, _, List.mem_cons_self, rfl⟩
  · refine holds_call (C := fun _ => Batch t T (key :: keys)) stable_inside
      (fun s err s' hi hA hx => ?_) fun _ => holds_ret stable_batch fun _ _ h => h
    obtain rfl := exec_endSend hx
    refine ⟨hi.of_fewer_sends rfl rfl id (fun _ r h => ⟨r, h, le_rfl⟩)
      fun _ hx => (List.mem_filter.mp hx).1, moves_returned, ⟨hA.claimed, hA.held⟩,
      fun x hx => of_decide_eq_true (List.mem_filter.mp hx).2, fun hp => ?_⟩
    -- the claim that covers the send is the one of this batch
    obtain ⟨x, hmem, rfl⟩ := hA.sending
    obtain ⟨hle, h, hh, ht, -, hlt⟩ := hi.inside hp x hmem
    rw [hA.claimed h hh ht] at hlt
    simpa [Outbox.returned] using hle.trans_lt hlt

end Rules

def Names (lib : UuidLib) (row : ClaimDueNotificationsRow) (key : Key) : Prop :=
  row.quarantineID = lib.text key.1 ∧ row.channel = key.2

lemma holds_deliver {w : Worker} {row : ClaimDueNotificationsRow} (hrow : Names lib row key)
    (hnot : key ∉ keys) : (notifyRules lib).Holds t (Batch t T (key :: keys))
      (deliver lib w row) fun _ => Batch t T keys := by
  obtain ⟨id, channel⟩ := key
  obtain ⟨hid, rfl⟩ := hrow
  rw [deliver, hid, lib.parse_text]
  dsimp only
  split
  · exact holds_markDelivered
  refine holds_getQuarantineEntry stable_batch fun r => ?_
  cases r with
  | error e => exact holds_fail hnot row.attempts
  | ok entry =>
    dsimp only
    split
    · exact holds_markDelivered
    refine holds_bind (holds_send _) fun err => ?_
    cases err with
    | some e => exact holds_fail hnot row.attempts
    | none => exact holds_markDelivered

lemma holds_deliverAll {w : Worker} {due : List ClaimDueNotificationsRow}
    (hdue : List.Forall₂ (Names lib) due keys) (hnodup : keys.Nodup) :
    (notifyRules lib).Holds t (Batch t T keys) (deliverAll lib w due)
      fun _ _ => True := by
  induction hdue with
  | nil => exact holds_ret stable_batch fun _ _ _ => trivial
  | cons hrow _ ih =>
    obtain ⟨hnot, hnodup⟩ := List.nodup_cons.mp hnodup
    exact holds_bind (holds_deliver hrow hnot) fun _ => ih hnodup

lemma forall₂_claimRows {R : ClaimDueNotificationsRow → Key → Prop}
    (h : ∀ k ∈ keys, ∃ r, s.rows.find k = some r ∧
      R ⟨lib.text r.quarantineID, r.channel, r.attempts + 1⟩ k) :
    List.Forall₂ R (Outbox.claimRows lib s keys) keys := by
  induction keys with
  | nil => exact .nil
  | cons key keys ih =>
    obtain ⟨r, hfind, hrow⟩ := h key List.mem_cons_self
    rw [Outbox.claimRows, List.filterMap_cons, hfind]
    exact .cons hrow (ih fun k hk => h k (List.mem_cons_of_mem _ hk))

lemma due_of_claimable {maxAttempts batchSize : ℕ}
    (h : s.claimable maxAttempts batchSize keys = true) {k : Key} (hk : k ∈ keys) :
    ∃ r, s.rows.find k = some r ∧ r.deliveredAt = none ∧ r.attempts < maxAttempts ∧
      r.nextAttemptAt ≤ s.clock := by
  simp only [Outbox.claimable, Bool.and_eq_true, List.all_eq_true] at h
  have hdue := h.2 k hk
  cases hfind : s.rows.find k with
  | none => simp [hfind] at hdue
  | some r =>
    simp only [hfind, Option.any_some, Outbox.due, Bool.and_eq_true, decide_eq_true_eq,
      Option.isNone_iff_eq_none] at hdue
    exact ⟨r, rfl, hdue.1.1, hdue.1.2, hdue.2⟩

lemma nodup_of_claimable {maxAttempts batchSize : ℕ}
    (h : s.claimable maxAttempts batchSize keys = true) : keys.Nodup := by
  simp only [Outbox.claimable, Bool.and_eq_true, decide_eq_true_eq] at h
  exact h.1.1

lemma names_row {r : Notification} {n : ℕ} (h : s.rows.find key = some r) :
    Names lib ⟨lib.text r.quarantineID, r.channel, n⟩ key := by
  rw [← Table.find_key h]
  exact ⟨rfl, rfl⟩

lemma names_claimRows {maxAttempts batchSize : ℕ}
    (hclaim : s.claimable maxAttempts batchSize keys = true) :
    keys.Nodup ∧ List.Forall₂ (Names lib) (Outbox.claimRows lib s keys) keys := by
  refine ⟨nodup_of_claimable hclaim, forall₂_claimRows fun k hk => ?_⟩
  obtain ⟨r, hfind, -⟩ := due_of_claimable hclaim hk
  exact ⟨r, hfind, names_row hfind⟩

lemma batch_claimed (h : Unclaimed t s) (hclock : s.clock = s.last t) :
    Batch t s.clock keys (s.claimed t keys none) := by
  refine ⟨⟨fun x hx ht => ?_, fun key hk => ?_⟩, h.2, fun _ => ?_⟩
  · rcases List.mem_append.mp hx with hx | hx
    · obtain ⟨k, -, rfl⟩ := List.mem_map.mp hx
      rfl
    · exact absurd ht (h.1 x hx)
  · exact List.mem_append_left _ (List.mem_map.mpr ⟨key, hk, rfl⟩)
  · change s.last t < s.clock + lease
    rw [hclock]
    exact Nat.lt_add_of_pos_right (by decide)

lemma holds_processOnce (w : Worker) :
    (notifyRules lib).Holds t (Unclaimed t) (processOnce lib w) fun _ _ => True := by
  rw [processOnce]
  split
  · exact holds_ret stable_unclaimed fun _ _ _ => trivial
  refine holds_call (C := fun _ => Unclaimed t) stable_unclaimed
    (fun s r s' hi hA hx => ⟨leased_enqueue hi hx, ?_⟩) fun err => ?_
  · rcases exec_enqueue hx with rfl | rfl
    · exact ⟨moves_began, hA⟩
    · exact ⟨moves_enqueued, hA⟩
  cases (err : Option GoError) with
  | some e => exact holds_ret stable_unclaimed fun _ _ _ => trivial
  | none =>
    refine holds_call (C := fun (r : Except GoError (List ClaimDueNotificationsRow)) s =>
      ∀ due, r = .ok due → ∃ T keys, keys.Nodup ∧ List.Forall₂ (Names lib) due keys ∧
        Batch t T keys s) stable_unclaimed (fun s r s' hi hA hx => ?_) fun r => ?_
    · obtain ⟨hclock, ⟨rfl, e, rfl⟩ | ⟨keys, err, hclaim, rfl, hr⟩⟩ := exec_claim hx
      · exact ⟨hi, Moves.refl t _, by simp⟩
      · refine ⟨leased_claimed hi hclaim err, moves_claimed, fun due hdue => ?_⟩
        obtain ⟨rfl, rfl⟩ := hr due hdue
        obtain ⟨hnodup, hnames⟩ := names_claimRows hclaim
        exact ⟨s.clock, keys, hnodup, hnames, batch_claimed hA hclock⟩
    · cases (r : Except GoError (List ClaimDueNotificationsRow)) with
      | error e => exact holds_ret (fun _ _ _ _ _ he => by simp at he) fun _ _ _ => trivial
      | ok due =>
        intro s hi h
        obtain ⟨T, keys, hnodup, hnames, hbatch⟩ := h due rfl
        exact holds_deliverAll hnames hnodup s hi hbatch

lemma leased_start (world : World) : Leased (Outbox.start world) :=
  ⟨by simp [Outbox.start], by simp [Outbox.start], by simp [Outbox.start], by simp [Outbox.start]⟩

abbrev WorkerPool := Pool NotifyOp NotifyRes Outbox Unit

lemma wp_pass {p : NotifyProg Unit} (hp : Passes lib p) (hi : Leased s) (hf : Unclaimed t s) :
    (notifyRules lib).wp t p (fun _ _ => True) s := by
  cases hp with
  | pass w => exact holds_processOnce w s hi hf

lemma sound_run {world : World} {ls : List (Label NotifyOp NotifyRes)} {c : WorkerPool}
    (hr : Run (Outbox.machine lib).semantics (Passes lib) (.initial (Outbox.start world)) ls c) :
    Sound (notifyRules lib) (fun _ _ _ => True) c := by
  refine Sound.run (fun p t s hp hi hf => wp_pass hp hi hf)
    (Sound.initial (leased_start world) fun t => ?_) hr
  exact ⟨by simp [Outbox.start], by simp [Outbox.start]⟩

end KiteRail.Notify
