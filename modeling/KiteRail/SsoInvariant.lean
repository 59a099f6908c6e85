import KiteRail.SsoStore

/-! What the history and the tables of single sign-on keep to. Every number is in one place
only: it is that of an attempt in the table, of an attempt that one thread holds, of an
attempt that became a session, or of a session. -/
namespace KiteRail.Sso
open Bytes Startup
variable {svc : Service} {s : Store} {t : ℕ}

section Histories

def attemptOf : Event → Option ℕ
  | .created _ attempt _ => attempt
  | _ => none

def sessionAttempts (history : List Event) : List ℕ := history.filterMap attemptOf

def Session.born (x : Session) : Session := { x with lastSeenAt := x.createdAt, revokedAt := none }

/-- What the history says of a row of `sessions`. -/
structure Recorded (history : List Event) (clock : ℤ) (x : Session) : Prop where
  born : ∃ t attempt, .created t attempt x.born ∈ history
  seen : x.lastSeenAt = x.createdAt ∨ .touched x.serial x.lastSeenAt ∈ history
  since : x.createdAt ≤ x.lastSeenAt
  before : x.lastSeenAt ≤ clock
  unrevoked : x.revokedAt = none → .revoked x.serial ∉ history

/-- The claims of a token that thread `t` had verified give the identity and the role. -/
def SignedIn (svc : Service) (past : List Event) (t : ℕ) (x : Session) : Prop :=
  ∃ idToken claims role, .verified t idToken ∈ past ∧ idToken.claims = .ok claims ∧
    identityFrom svc claims = .ok x.email ∧ roleFrom svc claims = some role ∧
    x.role = roleText role

/-- A session is made of an attempt that the thread deleted and that is not a session yet. -/
structure Admitted (svc : Service) (past : List Event) (t : ℕ) (attempt : Option ℕ)
    (x : Session) : Prop where
  attempt : ∃ n state, attempt = some n ∧ .consumed t n state ∈ past ∧ n ∉ sessionAttempts past
  user : SignedIn svc past t x
  expiry : x.expiresAt ≤ x.createdAt + svc.cfg.sessionTTL

/-- A session that a lookup at `time` finds. -/
structure Active (svc : Service) (past : List Event) (t : ℕ) (x : Session) (cutoff time : ℤ) :
    Prop where
  recorded : Recorded past time x
  unrevoked : x.revokedAt = none
  unexpired : time < x.expiresAt
  recent : cutoff < x.lastSeenAt
  cutoff : ∃ reading, .read t reading ∈ past ∧ reading ≤ time ∧
    cutoff = reading - svc.cfg.sessionIdleTTL

/-- What an event says of those before it. -/
def Lawful (svc : Service) (past : List Event) : Event → Prop
  | .received t _ => ∀ call, .received t call ∉ past
  | .attempted t _ _ => ∃ b r, .received t (.login b r) ∈ past
  | .consumed t n state => (∃ u, .attempted u n state ∈ past) ∧
      ∃ b r, .received t (.callback b r) ∈ past ∧ state = param r (lit "state")
  | .created t attempt x => Admitted svc past t attempt x
  | .found t x cutoff time => Active svc past t x cutoff time
  | _ => True

variable {history : List Event} {n : ℕ} {state : Bytes}

lemma login_of_attempted (h : Grounded (Lawful svc) history)
    (ha : .attempted t n state ∈ history) : ∃ b r, .received t (.login b r) ∈ history := by
  obtain ⟨later, earlier, rfl, ⟨b, r, hrecv⟩, -⟩ := h.split ha
  exact ⟨b, r, by simp [hrecv]⟩

lemma attempted_of_consumed (h : Grounded (Lawful svc) history)
    (hc : .consumed t n state ∈ history) : (∃ u, .attempted u n state ∈ history) ∧
      ∃ b r, .received t (.callback b r) ∈ history ∧ state = param r (lit "state") := by
  obtain ⟨later, earlier, rfl, ⟨⟨u, hattempted⟩, b, r, hrecv, hstate⟩, -⟩ := h.split hc
  exact ⟨⟨u, by simp [hattempted]⟩, b, r, by simp [hrecv], hstate⟩

end Histories

/-- Where a number is used. -/
inductive Place
  | unused
  | pending (state : Bytes)
  | held (t : ℕ)
  | spent
  | session (idHash : Bytes)

structure Placed (place : ℕ → Place) (s : Store) : Prop where
  unused : ∀ n, s.serial ≤ n → place n = .unused
  attempts : ∀ k a, s.attempts.find k = some a → place a.serial = .pending k
  tickets : ∀ t n, s.ticket t = some n → place n = .held t
  spent : ∀ n ∈ sessionAttempts s.history, place n = .spent
  sessions : ∀ k x, s.sessions.find k = some x → place x.serial = .session k
  revoked : ∀ n, .revoked n ∈ s.history → ∃ k, place n = .session k

structure Inv (svc : Service) (s : Store) : Prop where
  lawful : Grounded (Lawful svc) s.history
  placed : ∃ place, Placed place s
  attempts : ∀ k a, s.attempts.find k = some a → ∃ t, .attempted t a.serial a.state ∈ s.history
  tickets : ∀ t n, s.ticket t = some n → ∃ state, .consumed t n state ∈ s.history
  sessions : ∀ k x, s.sessions.find k = some x → Recorded s.history s.clock x

lemma Recorded.mono {history new : List Event} {clock clock' : ℤ} {x : Session}
    (h : Recorded history clock x) (hclock : clock ≤ clock')
    (hnew : x.revokedAt = none → .revoked x.serial ∉ new) :
    Recorded (new ++ history) clock' x where
  born := by
    obtain ⟨t, attempt, hmem⟩ := h.born
    exact ⟨t, attempt, List.mem_append_right _ hmem⟩
  seen := h.seen.imp_right (List.mem_append_right _)
  since := h.since
  before := h.before.trans hclock
  unrevoked hx hmem := by
    rcases List.mem_append.mp hmem with hmem | hmem
    · exact hnew hx hmem
    · exact h.unrevoked hx hmem

section Events

/-- Of a revoked session there is still the row, or there was. -/
def Revoked (s : Store) (new : List Event) : Prop :=
  ∀ n, .revoked n ∈ new → ∃ k x, s.sessions.find k = some x ∧ x.serial = n ∧ x.revokedAt ≠ none

lemma sessionAttempts_append {new history : List Event} (h : ∀ e ∈ new, attemptOf e = none) :
    sessionAttempts (new ++ history) = sessionAttempts history := by
  have hnone : new.filterMap attemptOf = [] := List.filterMap_eq_nil_iff.mpr h
  rw [sessionAttempts, List.filterMap_append, hnone]
  rfl

lemma Placed.append {place : ℕ → Place} {new : List Event} (h : Placed place s)
    (hnew : ∀ e ∈ new, attemptOf e = none) (hrevoked : Revoked s new) :
    Placed place { s with history := new ++ s.history } := by
  refine ⟨h.unused, h.attempts, h.tickets, fun n hn => ?_, h.sessions, fun n hn => ?_⟩
  · exact h.spent n (sessionAttempts_append hnew ▸ hn)
  · rcases List.mem_append.mp hn with hn | hn
    · obtain ⟨k, x, hx, rfl, -⟩ := hrevoked n hn
      exact ⟨k, h.sessions k x hx⟩
    · exact h.revoked n hn

lemma Inv.append {new : List Event} (h : Inv svc s) (hnew : ∀ e ∈ new, attemptOf e = none)
    (hrevoked : Revoked s new) (hlawful : Grounded (Lawful svc) (new ++ s.history)) :
    Inv svc { s with history := new ++ s.history } := by
  obtain ⟨place, hplace⟩ := h.placed
  refine ⟨hlawful, ⟨place, hplace.append hnew hrevoked⟩, fun k a ha => ?_, fun t n ht => ?_,
    fun k x hx => ?_⟩
  · obtain ⟨t, ht⟩ := h.attempts k a ha
    exact ⟨t, List.mem_append_right _ ht⟩
  · obtain ⟨state, hstate⟩ := h.tickets t n ht
    exact ⟨state, List.mem_append_right _ hstate⟩
  · refine (h.sessions k x hx).mono le_rfl fun hx' hmem => ?_
    obtain ⟨k', x', hfind, hserial, hne⟩ := hrevoked _ hmem
    have hsame := (hplace.sessions k' x' hfind).symm.trans (hserial ▸ hplace.sessions k x hx)
    obtain rfl : k' = k := by simpa using hsame
    obtain rfl := Option.some.inj (hx.symm.trans hfind)
    exact hne hx'

lemma Inv.note {e : Event} (h : Inv svc s) (he : attemptOf e = none) (hne : ∀ n, e ≠ .revoked n)
    (hlawful : Lawful svc s.history e) : Inv svc (s.note e) := by
  have hnew : ∀ e' ∈ [e], attemptOf e' = none := by simpa using he
  refine h.append hnew (fun n hn => ?_) ⟨hlawful, h.lawful⟩
  exact absurd (List.mem_singleton.mp hn).symm (hne n)

end Events

section LoginAttempts

lemma Inv.removeAttempts (h : Inv svc s) (guard : LoginAttempt → Bool) :
    Inv svc { s with attempts := s.attempts.delete guard } where
  lawful := h.lawful
  placed := by
    obtain ⟨place, hplace⟩ := h.placed
    refine ⟨place, hplace.unused, fun k a ha => ?_, hplace.tickets, hplace.spent,
      hplace.sessions, hplace.revoked⟩
    exact hplace.attempts k a (Table.find_delete.mp ha).1
  attempts k a ha := h.attempts k a (Table.find_delete.mp ha).1
  tickets := h.tickets
  sessions := h.sessions

/-- The next number is used nowhere. -/
lemma Placed.update_serial {place : ℕ → Place} {n : ℕ} {p : Place} (h : Placed place s)
    (hn : place n = p) (hp : p ≠ .unused) (q : Place) :
    Function.update place s.serial q n = p := by
  have hne : n ≠ s.serial := by
    intro heq
    exact hp (hn.symm.trans (h.unused n heq.ge))
  rw [Function.update_of_ne hne]
  exact hn

lemma Placed.attempted {place : ℕ → Place} (h : Placed place s) (arg : CreateLoginAttemptParams)
    (hfree : s.attempts.find arg.state = none) :
    Placed (Function.update place s.serial (.pending arg.state)) (s.attempted t arg) := by
  rw [Store.attempted, dif_pos hfree]
  refine ⟨fun n hn => ?_, fun k a ha => ?_, fun u n hn => ?_, fun n hn => ?_, fun k x hx => ?_,
    fun n hn => ?_⟩
  · rw [Function.update_of_ne (Nat.ne_of_gt hn)]
    exact h.unused n (Nat.le_of_succ_le hn)
  · rw [Table.find_insert] at ha
    split at ha
    · rename_i hk
      obtain rfl := Option.some.inj ha
      rw [Function.update_self, hk]
    · exact h.update_serial (h.attempts k a ha) (by simp) _
  · exact h.update_serial (h.tickets u n hn) (by simp) _
  · exact h.update_serial (h.spent n hn) (by simp) _
  · exact h.update_serial (h.sessions k x hx) (by simp) _
  · obtain ⟨k, hk⟩ := h.revoked n (List.mem_of_ne_of_mem (by simp) hn)
    exact ⟨k, h.update_serial hk (by simp) _⟩

lemma Inv.attempted (h : Inv svc s) (hrecv : ∃ b r, .received t (.login b r) ∈ s.history)
    (arg : CreateLoginAttemptParams) : Inv svc (s.attempted t arg) := by
  by_cases hfree : s.attempts.find arg.state = none
  · obtain ⟨place, hplace⟩ := h.placed
    have hplaced : ∃ place, Placed place (s.attempted t arg) := ⟨_, hplace.attempted arg hfree⟩
    rw [Store.attempted, dif_pos hfree] at hplaced ⊢
    refine ⟨⟨hrecv, h.lawful⟩, hplaced, fun k a ha => ?_, fun u n hn => ?_, fun k x hx => ?_⟩
    · rw [Table.find_insert] at ha
      split at ha
      · obtain rfl := Option.some.inj ha
        exact ⟨t, List.mem_cons_self⟩
      · obtain ⟨u, hu⟩ := h.attempts k a ha
        exact ⟨u, List.mem_cons_of_mem _ hu⟩
    · obtain ⟨state, hstate⟩ := h.tickets u n hn
      exact ⟨state, List.mem_cons_of_mem _ hstate⟩
    · have hnew : .revoked x.serial ∉ [Event.attempted t s.serial arg.state] := by simp
      exact (h.sessions k x hx).mono le_rfl fun _ => hnew
  · rw [Store.attempted, dif_neg hfree]
    exact h

lemma pending_eq_some {state : Bytes} {a : LoginAttempt} (h : s.pending state = some a) :
    s.attempts.find a.state = some a ∧ a.state = state ∧ s.clock < a.expiresAt := by
  obtain ⟨hfind, hlive⟩ := Option.filter_eq_some_iff.mp h
  have hstate := Table.find_key hfind
  exact ⟨hstate ▸ hfind, hstate, by simpa using hlive⟩

lemma Placed.consumed {place : ℕ → Place} {a : LoginAttempt} (h : Placed place s)
    (ha : s.attempts.find a.state = some a) (hlive : s.clock < a.expiresAt) :
    Placed (Function.update place a.serial (.held t)) (s.consumed t a) := by
  -- everything but the row itself is elsewhere
  have helse : ∀ n p, place n = p → p ≠ .pending a.state →
      Function.update place a.serial (.held t) n = p := by
    intro n p hn hp
    have hne : n ≠ a.serial := by
      intro heq
      exact hp (hn.symm.trans (heq ▸ h.attempts _ a ha))
    rw [Function.update_of_ne hne]
    exact hn
  refine ⟨fun n hn => ?_, fun k a' ha' => ?_, fun u n hn => ?_, fun n hn => ?_,
    fun k x hx => ?_, fun n hn => ?_⟩
  · exact helse n _ (h.unused n hn) (by simp)
  · obtain ⟨hfind, hguard⟩ := Table.find_delete.mp ha'
    refine helse _ _ (h.attempts k a' hfind) fun hk => ?_
    obtain rfl : k = a.state := by simpa using hk
    obtain rfl := Option.some.inj (ha.symm.trans hfind)
    simp [hlive] at hguard
  · by_cases hu : u = t
    · subst hu
      obtain rfl : a.serial = n := by simpa [Store.consumed] using hn
      exact Function.update_self ..
    · have hold : s.ticket u = some n := by simpa [Store.consumed, hu] using hn
      exact helse n _ (h.tickets u n hold) (by simp)
  · exact helse n _ (h.spent n hn) (by simp)
  · exact helse _ _ (h.sessions k x hx) (by simp)
  · obtain ⟨k, hk⟩ := h.revoked n (List.mem_of_ne_of_mem (by simp) hn)
    exact ⟨k, helse n _ hk (by simp)⟩

lemma Inv.consumed {a : LoginAttempt} {state : Bytes} (h : Inv svc s)
    (ha : s.pending state = some a)
    (hrecv : ∃ b r, .received t (.callback b r) ∈ s.history ∧ state = param r (lit "state")) :
    Inv svc (s.consumed t a) := by
  obtain ⟨hfind, rfl, hlive⟩ := pending_eq_some ha
  obtain ⟨place, hplace⟩ := h.placed
  refine ⟨⟨⟨h.attempts _ a hfind, hrecv⟩, h.lawful⟩, ⟨_, hplace.consumed hfind hlive⟩,
    fun k a' ha' => ?_, fun u n hn => ?_, fun k x hx => ?_⟩
  · obtain ⟨u, hu⟩ := h.attempts k a' (Table.find_delete.mp ha').1
    exact ⟨u, List.mem_cons_of_mem _ hu⟩
  · by_cases hu : u = t
    · subst hu
      obtain rfl : a.serial = n := by simpa [Store.consumed] using hn
      exact ⟨a.state, List.mem_cons_self⟩
    · have hold : s.ticket u = some n := by simpa [Store.consumed, hu] using hn
      obtain ⟨state, hstate⟩ := h.tickets u n hold
      exact ⟨state, List.mem_cons_of_mem _ hstate⟩
  · have hnew : .revoked x.serial ∉ [Event.consumed t a.serial a.state] := by simp
    exact (h.sessions k x hx).mono le_rfl fun _ => hnew

end LoginAttempts

section Sessions

lemma Placed.created {place : ℕ → Place} {n : ℕ} (h : Placed place s)
    (hticket : s.ticket t = some n) (arg : CreateSessionParams)
    (hfree : s.sessions.find arg.idHash = none) :
    Placed (Function.update (Function.update place n .spent) s.serial (.session arg.idHash))
      (s.created t arg) := by
  have hn := h.tickets t n hticket
  -- the numbers of neither the attempt nor the new session
  have helse : ∀ m p, place m = p → p ≠ .unused → p ≠ .held t →
      Function.update (Function.update place n .spent) s.serial (.session arg.idHash) m = p := by
    intro m p hm hunused hheld
    have hserial : m ≠ s.serial := by
      intro heq
      exact hunused (hm.symm.trans (h.unused m heq.ge))
    have hattempt : m ≠ n := by
      intro heq
      exact hheld (hm.symm.trans (heq ▸ hn))
    rw [Function.update_of_ne hserial, Function.update_of_ne hattempt]
    exact hm
  have hlt : n ≠ s.serial := by
    intro heq
    rw [h.unused n heq.ge] at hn
    simp at hn
  rw [Store.created, dif_pos hfree]
  refine ⟨fun m hm => ?_, fun k a ha => ?_, fun u m hm => ?_, fun m hm => ?_, fun k x hx => ?_,
    fun m hm => ?_⟩
  · have hle : s.serial ≤ m := Nat.le_of_succ_le hm
    have hattempt : m ≠ n := by
      intro heq
      rw [← heq, h.unused m hle] at hn
      simp at hn
    rw [Function.update_of_ne (Nat.ne_of_gt hm), Function.update_of_ne hattempt]
    exact h.unused m hle
  · exact helse _ _ (h.attempts k a ha) (by simp) (by simp)
  · have hu : u ≠ t := by
      rintro rfl
      simp at hm
    have hold : s.ticket u = some m := by simpa [hu] using hm
    exact helse m _ (h.tickets u m hold) (by simp) (by simpa using hu)
  · rw [sessionAttempts, List.filterMap_cons, attemptOf, hticket] at hm
    rcases List.mem_cons.mp hm with rfl | hm
    · rw [Function.update_of_ne hlt, Function.update_self]
    · exact helse m _ (h.spent m hm) (by simp) (by simp)
  · replace hx := (Table.find_insert s.sessions (s.inserted arg) hfree k).symm.trans hx
    split at hx
    · rename_i hk
      obtain rfl := Option.some.inj hx
      exact hk ▸ Function.update_self ..
    · exact helse _ _ (h.sessions k x hx) (by simp) (by simp)
  · obtain ⟨k, hk⟩ := h.revoked m (List.mem_of_ne_of_mem (by simp) hm)
    exact ⟨k, helse m _ hk (by simp) (by simp)⟩

lemma Inv.created {n : ℕ} {arg : CreateSessionParams} (h : Inv svc s)
    (hticket : s.ticket t = some n) (huser : SignedIn svc s.history t (s.inserted arg))
    (hexpiry : arg.expiresAt ≤ s.clock + svc.cfg.sessionTTL) : Inv svc (s.created t arg) := by
  by_cases hfree : s.sessions.find arg.idHash = none
  · obtain ⟨place, hplace⟩ := h.placed
    have hplaced : ∃ place, Placed place (s.created t arg) :=
      ⟨_, hplace.created hticket arg hfree⟩
    obtain ⟨state, hstate⟩ := h.tickets t n hticket
    have hunspent : n ∉ sessionAttempts s.history := by
      intro hn
      have hheld := (hplace.spent n hn).symm.trans (hplace.tickets t n hticket)
      simp at hheld
    have hfresh : .revoked s.serial ∉ s.history := by
      intro hmem
      obtain ⟨k, hk⟩ := hplace.revoked _ hmem
      rw [hplace.unused _ le_rfl] at hk
      simp at hk
    rw [Store.created, dif_pos hfree] at hplaced ⊢
    refine ⟨⟨⟨⟨n, state, hticket, hstate, hunspent⟩, huser, hexpiry⟩, h.lawful⟩, hplaced,
      fun k a ha => ?_, fun u m hm => ?_, fun k x hx => ?_⟩
    · obtain ⟨u, hu⟩ := h.attempts k a ha
      exact ⟨u, List.mem_cons_of_mem _ hu⟩
    · have hu : u ≠ t := by
        rintro rfl
        simp at hm
      obtain ⟨state', hstate'⟩ := h.tickets u m (by simpa [hu] using hm)
      exact ⟨state', List.mem_cons_of_mem _ hstate'⟩
    · replace hx := (Table.find_insert s.sessions (s.inserted arg) hfree k).symm.trans hx
      split at hx
      · obtain rfl := Option.some.inj hx
        exact ⟨⟨t, _, List.mem_cons_self⟩, .inl rfl, le_rfl, le_rfl,
          fun _ hmem => hfresh (List.mem_of_ne_of_mem (by simp) hmem)⟩
      · have hnew : .revoked x.serial ∉ [Event.created t (s.ticket t) (s.inserted arg)] := by simp
        exact (h.sessions k x hx).mono le_rfl fun _ => hnew
  · rw [Store.created, dif_neg hfree]
    exact h

lemma Inv.removeSessions (h : Inv svc s) (guard : Session → Bool) :
    Inv svc { s with sessions := s.sessions.delete guard } where
  lawful := h.lawful
  placed := by
    obtain ⟨place, hplace⟩ := h.placed
    refine ⟨place, hplace.unused, hplace.attempts, hplace.tickets, hplace.spent, fun k x hx => ?_,
      hplace.revoked⟩
    exact hplace.sessions k x (Table.find_delete.mp hx).1
  attempts := h.attempts
  tickets := h.tickets
  sessions k x hx := h.sessions k x (Table.find_delete.mp hx).1

lemma active_eq_some {idHash : Bytes} {cutoff : ℤ} {x : Session}
    (h : s.active idHash cutoff = some x) : s.sessions.find idHash = some x ∧
      x.idHash = idHash ∧ x.revokedAt = none ∧ s.clock < x.expiresAt ∧ cutoff < x.lastSeenAt := by
  obtain ⟨hfind, hactive⟩ := Option.filter_eq_some_iff.mp h
  simp only [Bool.and_eq_true, Option.isNone_iff_eq_none, decide_eq_true_eq] at hactive
  exact ⟨hfind, Table.find_key hfind, hactive.1.1, hactive.1.2, hactive.2⟩

lemma Inv.active {idHash : Bytes} {reading : ℤ} {x : Session} (h : Inv svc s)
    (hx : s.active idHash (reading - svc.cfg.sessionIdleTTL) = some x)
    (hread : .read t reading ∈ s.history) (hle : reading ≤ s.clock) :
    Active svc s.history t x (reading - svc.cfg.sessionIdleTTL) s.clock := by
  obtain ⟨hfind, -, hrevoked, hexpires, hseen⟩ := active_eq_some hx
  exact ⟨h.sessions _ x hfind, hrevoked, hexpires, hseen, reading, hread, hle, rfl⟩

lemma Inv.updateSessions (h : Inv svc s) (guard : Session → Bool) (set : Session → Session)
    (hset : ∀ x, (set x).idHash = x.idHash) (hserial : ∀ x, (set x).serial = x.serial)
    (hrec : ∀ k x, s.sessions.find k = some x → guard x = true →
      Recorded s.history s.clock (set x)) :
    Inv svc { s with sessions := s.sessions.update guard set hset } := by
  obtain ⟨place, hplace⟩ := h.placed
  refine ⟨h.lawful, ⟨place, hplace.unused, hplace.attempts, hplace.tickets, hplace.spent,
    fun k x hx => ?_, hplace.revoked⟩, h.attempts, h.tickets, fun k x hx => ?_⟩
  all_goals
    rw [Table.find_update] at hx
    obtain ⟨y, hy, rfl⟩ := Option.map_eq_some_iff.mp hx
  · have hkeep : (if guard y then set y else y).serial = y.serial := by
      split
      · exact hserial y
      · rfl
    exact hkeep ▸ hplace.sessions k y hy
  · split
    · rename_i hguard
      exact hrec k y hy hguard
    · exact h.sessions k y hy

lemma unrevoked_iff {idHash : Bytes} {x : Session} :
    Store.unrevoked idHash x = true ↔ x.idHash = idHash ∧ x.revokedAt = none := by
  simp [Store.unrevoked]

lemma Inv.touched (h : Inv svc s) (idHash : Bytes) : Inv svc (s.touched idHash) := by
  have hplain : ∀ e ∈ (s.sessions.hits (Store.unrevoked idHash)).map
      (fun x => Event.touched x.serial s.clock), attemptOf e = none := by simp [attemptOf]
  have hevents := h.append hplain (fun n hn => by simp at hn) (h.lawful.append fun e he past => by
    obtain ⟨x, -, rfl⟩ := List.mem_map.mp he
    trivial)
  refine hevents.updateSessions (Store.unrevoked idHash) (fun x => { x with lastSeenAt := s.clock })
    (fun _ => rfl) (fun _ => rfl) fun k x hx hguard => ?_
  obtain ⟨hborn, -, hsince, hbefore, hopen⟩ := hevents.sessions k x hx
  have hkey : s.sessions.find x.idHash = some x := Table.find_key hx ▸ hx
  have hhit : x ∈ s.sessions.hits (Store.unrevoked idHash) := Table.mem_hits.mpr ⟨hkey, hguard⟩
  exact ⟨hborn, .inr (List.mem_append_left _ (List.mem_map.mpr ⟨x, hhit, rfl⟩)),
    hsince.trans hbefore, le_rfl, hopen⟩

lemma Inv.revoked (h : Inv svc s) (idHash : Bytes) : Inv svc (s.revoked idHash) := by
  have hrows := h.updateSessions (Store.unrevoked idHash)
    (fun x => { x with revokedAt := some s.clock }) (fun _ => rfl) (fun _ => rfl)
    fun k x hx _ => by
      obtain ⟨hborn, hseen, hsince, hbefore, -⟩ := h.sessions k x hx
      exact ⟨hborn, hseen, hsince, hbefore, fun hnone => absurd hnone (by simp)⟩
  refine hrows.append (by simp [attemptOf]) (fun n hn => ?_) (h.lawful.append fun e he past => ?_)
  · obtain ⟨x, hx, heq⟩ := List.mem_map.mp hn
    obtain rfl : x.serial = n := by simpa using heq
    obtain ⟨hfind, hguard⟩ := Table.mem_hits.mp hx
    refine ⟨x.idHash, { x with revokedAt := some s.clock }, ?_, rfl, by simp⟩
    rw [Table.find_update, hfind, Option.map_some, if_pos hguard]
  · obtain ⟨x, -, rfl⟩ := List.mem_map.mp he
    trivial

end Sessions

lemma Inv.tick (h : Inv svc s) (d : ℕ) : Inv svc { s with clock := s.clock + d } where
  lawful := h.lawful
  placed := by
    obtain ⟨place, hplace⟩ := h.placed
    exact ⟨place, hplace.unused, hplace.attempts, hplace.tickets, hplace.spent, hplace.sessions,
      hplace.revoked⟩
  attempts := h.attempts
  tickets := h.tickets
  sessions k x hx := by
    obtain ⟨hborn, hseen, hsince, hbefore, hopen⟩ := h.sessions k x hx
    exact ⟨hborn, hseen, hsince, hbefore.trans (by simp), hopen⟩

lemma Inv.discover (h : Inv svc s) : Inv svc { s with discovered := true } where
  lawful := h.lawful
  placed := by
    obtain ⟨place, hplace⟩ := h.placed
    exact ⟨place, hplace.unused, hplace.attempts, hplace.tickets, hplace.spent, hplace.sessions,
      hplace.revoked⟩
  attempts := h.attempts
  tickets := h.tickets
  sessions := h.sessions

lemma Inv.start (clock : ℤ) (discovered : Bool) : Inv svc (.start clock discovered) := by
  refine ⟨trivial, ⟨fun _ => .unused, fun _ _ => rfl, ?_, ?_, ?_, ?_, ?_⟩, ?_, ?_, ?_⟩
  all_goals simp [Store.start, sessionAttempts]

end KiteRail.Sso
