import KiteRail.QuarantineSafety

/-! Requests under a context that the client may cancel. The database accepts every
operation issued under a live context; a cancellation cuts the operation it meets,
before or after that took effect, and every later one is refused. An `Append` is one
transaction, and where it reports an error it was not committed. -/
namespace KiteRail
open Bytes Replay

/-- The world, and the requests whose context was cancelled. -/
@[ext]
structure Desk where
  world : World
  cancelled : List ℕ

/-- How an operation meets the context it was issued under. -/
inductive Fate
  | accepted (ch : Choice)
  | cut (ch : Choice)

def Replay.Ack.fails : Ack → Bool
  | .ok => false
  | _ => true

def Replay.Choice.fails : Choice → Bool
  | .dropped _ => true
  | .done _ ack => ack.fails
  | .inserted _ ack => ack.fails
  | .claimed _ ack => ack.fails
  | _ => false

/-- Whether the operation fails without an effect. -/
def Replay.Choice.drops : Choice → Bool
  | .dropped _ => true
  | _ => false

/-- Whether an operation is issued under the context of its request and needs it live. -/
def Op.contextual : Op → Bool
  | .now => false
  | .ctxErr => false
  | .evaluate _ => false
  | .forward _ _ => false
  | .rollback => false
  | .httpDo _ _ => false
  | _ => true

/-- The insert of a held request may fail by itself. -/
def Op.refusable : Op → Choice → Bool
  | .createQuarantineEntry _, ch => ch.drops
  | _, _ => false

namespace Desk
variable (lib : UuidLib)

def initial (table : Table Quarantine.id) : Desk := ⟨⟨table, none, []⟩, []⟩

def answer (fate : Fate) (t : ℕ) (op : Op) (d : Desk) : Option (Res op × Desk) :=
  match fate with
  | .accepted ch =>
    if (op.contextual → t ∉ d.cancelled) ∧ (ch.fails → op.refusable ch) then
      (World.answer lib ch t op d.world).map fun a => (a.1, ⟨a.2, d.cancelled⟩)
    else none
  | .cut ch =>
    if op.contextual ∧ ch.fails ∧ (t ∈ d.cancelled → ch.drops) then
      (World.answer lib ch t op d.world).map fun a => (a.1, ⟨a.2, t :: d.cancelled⟩)
    else none

def machine : Machine Op Res Desk Fate Empty where
  answer := answer lib
  fault := fun f _ => f.elim
  lose := fun t d => ⟨d.world.unlock t, d.cancelled⟩

end Desk

def own (t : ℕ) (hist : History) : List Event :=
  hist.filterMap fun e => if e.1 = t then some e.2 else none

@[simp] lemma own_append (t : ℕ) (h g : History) : own t (h ++ g) = own t h ++ own t g :=
  List.filterMap_append

lemma own_self (t : ℕ) (es : List Event) : own t (es.map (Prod.mk t)) = es := by
  simp [own, List.filterMap_map]

lemma own_other {t u : ℕ} (h : t ≠ u) (es : List Event) : own u (es.map (Prod.mk t)) = [] := by
  simp [own, List.filterMap_map, h]

lemma mem_own {t : ℕ} {e : Event} {hist : History} : e ∈ own t hist ↔ (t, e) ∈ hist := by
  simp [own, List.mem_filterMap]

/-- Held requests stay, with what they carry. -/
def Kept (s s' : World) : Prop :=
  ∀ id row, s.table.find id = some row →
    ∃ row', s'.table.find id = some row' ∧ row'.payload = row.payload

lemma Kept.refl (s : World) : Kept s s := fun _ row h => ⟨row, h, rfl⟩

lemma Kept.trans {a b c : World} (h : Kept a b) (g : Kept b c) : Kept a c := by
  intro id row hrow
  obtain ⟨row', hrow', hp⟩ := h id row hrow
  obtain ⟨row'', hrow'', hp'⟩ := g id row' hrow'
  exact ⟨row'', hrow'', hp'.trans hp⟩

section
variable {lib : UuidLib} {s s' : World} {t u : ℕ} {op : Op} {r : Res op} {d d' : Desk}

lemma Kept.update {guard : Quarantine → Bool} {set : Quarantine → Quarantine}
    {hset : ∀ r, (set r).id = r.id} {event : Quarantine → Event}
    (hp : ∀ r, (set r).payload = r.payload) : Kept s (s.update t guard set hset event) := by
  intro id row hrow
  rw [World.update, Table.find_update, hrow]
  refine ⟨_, rfl, ?_⟩
  by_cases hg : guard row <;> simp [hg, hp]

lemma Kept.held {id : UUID} {arg : CreateQuarantineEntryParams}
    {h : s.table.find (World.heldRow id arg).id = none} : Kept s (s.held t id arg h) := by
  intro u row hrow
  have hne : u ≠ (World.heldRow id arg).id := by
    rintro rfl
    exact absurd (h.symm.trans hrow) (by simp)
  exact ⟨row, by rw [World.held, Table.find_insert, if_neg hne, hrow], rfl⟩

/-- An operation adds events of its own thread, stores what it holds and keeps what was
held. -/
lemma frame_of_exec (h : (World.machine lib).semantics.exec t op s r s') :
    (∃ new : List Event, s'.hist = s.hist ++ new.map (Prod.mk t) ∧
      ∀ row, .held row ∈ new → s'.table.find row.id = some row) ∧ Kept s s' := by
  have hupdate : ∀ {guard : Quarantine → Bool} {set : Quarantine → Quarantine}
      {hset : ∀ r, (set r).id = r.id} {event : Quarantine → Event},
      (∀ r, (set r).payload = r.payload) → (∀ r row, event r ≠ .held row) →
      (∃ new : List Event, (s.update t guard set hset event).hist = s.hist ++ new.map (Prod.mk t) ∧
        ∀ row, .held row ∈ new → (s.update t guard set hset event).table.find row.id = some row) ∧
        Kept s (s.update t guard set hset event) := by
    intro guard set hset event hp hevent
    refine ⟨⟨(s.table.hits guard).map event, ?_, fun row hrow => ?_⟩, .update hp⟩
    · simp [World.update, Function.comp_def]
    · obtain ⟨r, -, hr⟩ := List.mem_map.mp hrow
      exact absurd hr (hevent r row)
  rcases exec_cases h with rfl | hd
  · exact ⟨⟨[], by simp, by simp⟩, .refl _⟩
  cases op with
  | append entry =>
    obtain ⟨res, rfl⟩ := hd
    exact ⟨⟨[.appended entry res], rfl, by simp⟩, .refl _⟩
  | forward agent out =>
    obtain rfl := hd
    exact ⟨⟨[.forwarded agent out], rfl, by simp⟩, .refl _⟩
  | httpDo entryID req =>
    obtain rfl := hd
    exact ⟨⟨[.called entryID req], rfl, by simp⟩, .refl _⟩
  | createQuarantineEntry arg =>
    obtain ⟨id, hnew, rfl⟩ := hd
    refine ⟨⟨[.held (World.heldRow id arg)], rfl, fun row hrow => ?_⟩, .held⟩
    obtain rfl : row = World.heldRow id arg := by simpa using hrow
    rw [World.held, Table.find_insert, if_pos rfl]
  | claimApprovedForReplay limit =>
    obtain ⟨ids, rfl⟩ := hd
    exact hupdate (fun _ => rfl) fun _ _ => Event.noConfusion
  | markReplayed id =>
    obtain ⟨now, rfl⟩ := hd
    exact hupdate (fun _ => rfl) fun _ _ => Event.noConfusion
  | tryReplayLock =>
    obtain ⟨-, rfl⟩ := hd
    exact ⟨⟨[], by simp, by simp⟩, .refl _⟩
  | rollback =>
    obtain rfl := hd
    exact ⟨⟨[], by simp [World.unlock], by simp⟩, .refl _⟩
  | _ => first
    | exact hd.elim
    | (obtain rfl := hd; exact hupdate (fun _ => rfl) fun _ _ => Event.noConfusion)

/-- A request that is held under `id`. -/
def HeldAs (id : UUID) (payload : Bytes) (d : Desk) : Prop :=
  ∃ row, d.world.table.find id = some row ∧ row.payload = payload

lemma HeldAs.of_kept {id : UUID} {payload : Bytes} (h : HeldAs id payload d)
    (hk : Kept d.world d'.world) : HeldAs id payload d' := by
  obtain ⟨row, hrow, hp⟩ := h
  obtain ⟨row', hrow', hp'⟩ := hk id row hrow
  exact ⟨row', hrow', hp'.trans hp⟩

namespace Desk

/-- What an operation does, by how it met its context. -/
lemma exec_cases (h : (machine lib).semantics.exec t op d r d') :
    ∃ ch, World.answer lib ch t op d.world = some (r, d'.world) ∧
      ((op.contextual → t ∉ d.cancelled) ∧ (ch.fails → op.refusable ch) ∧
          d'.cancelled = d.cancelled ∨
        op.contextual ∧ ch.fails ∧ d'.cancelled = t :: d.cancelled) := by
  obtain ⟨fate, h⟩ := h
  change answer lib fate t op d = some (r, d') at h
  cases fate with
  | accepted ch =>
    simp only [answer] at h
    split_ifs at h with hc
    obtain ⟨⟨r', w⟩, ha, he⟩ := Option.map_eq_some_iff.mp h
    obtain ⟨rfl, rfl⟩ := Prod.mk.inj he
    exact ⟨ch, ha, .inl ⟨hc.1, hc.2, rfl⟩⟩
  | cut ch =>
    simp only [answer] at h
    split_ifs at h with hc
    obtain ⟨⟨r', w⟩, ha, he⟩ := Option.map_eq_some_iff.mp h
    obtain ⟨rfl, rfl⟩ := Prod.mk.inj he
    exact ⟨ch, ha, .inr ⟨hc.1, hc.2.1, rfl⟩⟩

/-- What a request may rely on: its events and its context are its own. -/
structure Rely (t : ℕ) (d d' : Desk) : Prop where
  own : own t d'.world.hist = own t d.world.hist
  cancelled : t ∈ d'.cancelled ↔ t ∈ d.cancelled
  kept : Kept d.world d'.world

lemma exec_world (h : (machine lib).semantics.exec t op d r d') :
    (World.machine lib).semantics.exec t op d.world r d'.world :=
  (exec_cases h).imp fun _ => And.left

lemma Rely.exec (hne : t ≠ u) (h : (machine lib).semantics.exec t op d r d') : Rely u d d' := by
  obtain ⟨ch, -, hc⟩ := exec_cases h
  obtain ⟨⟨new, hnew, -⟩, hkept⟩ := frame_of_exec (exec_world h)
  refine ⟨by rw [hnew, own_append, own_other hne, List.append_nil], ?_, hkept⟩
  rcases hc with ⟨-, -, hc⟩ | ⟨-, -, hc⟩ <;> simp [hc, Ne.symm hne]

/-- The discipline of requests under contexts: nothing is assumed of the others but
that they act in their own name. -/
def discipline (lib : UuidLib) : Discipline (machine lib).semantics where
  inv _ := True
  fresh t d := own t d.world.hist = [] ∧ t ∉ d.cancelled
  guar t op d r d' := (machine lib).semantics.exec t op d r d'
  rely := Rely
  rely_refl _ _ := ⟨rfl, .rfl, .refl _⟩
  rely_trans _ _ _ _ h g :=
    ⟨g.own.trans h.own, g.cancelled.trans h.cancelled, h.kept.trans g.kept⟩
  rely_guar _ _ _ _ _ _ hne _ hx := .exec hne hx
  rely_env _ _ _ _ he := he.choose.elim
  rely_lose _ _ _ _ _ := ⟨rfl, .rfl, .refl _⟩
  fresh_rely _ _ _ h hr := ⟨hr.own.trans h.1, hr.cancelled.not.mpr h.2⟩
  inv_env _ _ _ _ := trivial
  inv_lose _ _ _ := trivial

variable {α : Type} {k : Res op → Eff α} {A : Desk → Prop} {B : Res op → Desk → Prop}
  {C : α → Desk → Prop}

lemma holds_op (hst : (discipline lib).Stable t A)
    (hpost : ∀ d r d', A d → (machine lib).semantics.exec t op d r d' → B r d')
    (hk : ∀ r, (discipline lib).Holds t (B r) (k r) C) :
    (discipline lib).Holds t A (effect op >>= k) C :=
  Discipline.holds_call hst (fun d r d' _ hA hx => ⟨trivial, hx, hpost d r d' hA hx⟩) hk

lemma holds_silent (hop : op.contextual = false) (hdoes : ∀ s s', ¬ Does t s s' op)
    (hst : (discipline lib).Stable t A) (hk : ∀ r, (discipline lib).Holds t A (k r) C) :
    (discipline lib).Holds t A (effect op >>= k) C := by
  refine holds_op hst (fun d r d' hA hx => ?_) hk
  obtain ⟨ch, -, ⟨-, -, hc⟩ | ⟨hctx, -, -⟩⟩ := exec_cases hx
  · have hw := (Replay.exec_cases (exec_world hx)).resolve_right (hdoes _ _)
    exact Desk.ext hw hc ▸ hA
  · simp [hop] at hctx

/-- Assertions about the request itself, and about what it has seen held, are stable. -/
lemma stable_own {P : List Event → Prop → Prop} :
    (discipline lib).Stable t fun d => P (own t d.world.hist) (t ∈ d.cancelled) := by
  intro d d' h hr
  rw [Rely.own hr, propext (Rely.cancelled hr)]
  exact h

lemma stable_kept {id : UUID} {payload : Bytes} :
    (discipline lib).Stable t (HeldAs id payload) := by
  intro d d' h hr
  exact h.of_kept (Rely.kept hr)

/-- A cancellation is the only reason to fail for what may not be refused. -/
lemma cut_of_fails {ch : Choice}
    (hc : (op.contextual → t ∉ d.cancelled) ∧ (ch.fails → op.refusable ch) ∧
        d'.cancelled = d.cancelled ∨
      op.contextual ∧ ch.fails ∧ d'.cancelled = t :: d.cancelled)
    (hop : op.refusable ch = false) (hf : ch.fails) : t ∈ d'.cancelled := by
  rcases hc with ⟨-, hr, -⟩ | ⟨-, -, hc⟩
  · exact absurd (hr hf) (by simp [hop])
  · simp [hc]

/-- An append fails exactly when the context is cancelled. -/
lemma exec_append {entry : Ledger} {res : Option GoError}
    (h : (machine lib).semantics.exec t (.append entry) d res d') :
    own t d'.world.hist = own t d.world.hist ++ [.appended entry res] ∧
      (res = none ↔ t ∉ d'.cancelled) := by
  refine ⟨?_, ?_⟩
  · rw [Replay.exec_append (exec_world h), World.record, own_append]
    exact congrArg _ (own_self t [.appended entry res])
  · obtain ⟨ch, ha, hc⟩ := exec_cases h
    cases ch with
    | dropped err =>
      obtain ⟨rfl, -⟩ := Prod.mk.inj (Option.some.inj ha)
      exact ⟨by simp, fun hn => absurd (cut_of_fails hc rfl rfl) hn⟩
    | done now ack =>
      cases ack with
      | ok =>
        obtain ⟨rfl, -⟩ := Prod.mk.inj (Option.some.inj ha)
        refine ⟨fun _ => ?_, fun _ => rfl⟩
        rcases hc with ⟨hlive, -, hc⟩ | ⟨-, hf, -⟩
        · exact hc ▸ hlive rfl
        · simp [Choice.fails, Ack.fails] at hf
      | _ => simp [World.answer] at ha
    | _ => simp [World.answer] at ha

theorem stored_of_run {α : Type} {entry : Eff α → Prop} {table : Table Quarantine.id}
    {ls : List (Label Op Res)} {c : Pool Op Res Desk α}
    (hr : Run (machine lib).semantics entry (Pool.initial (initial table)) ls c) :
    ∀ t row, (t, .held row) ∈ c.shared.world.hist → HeldAs row.id row.payload c.shared := by
  induction hr with
  | nil =>
    intro t row h
    simp [Pool.initial, initial] at h
  | snoc _ hs ih =>
    cases hs with
    | start hp => exact ih
    | @act u op k r d' ht hx =>
      obtain ⟨⟨new, hnew, hheld⟩, hkept⟩ := frame_of_exec (exec_world hx)
      intro t row h
      rw [hnew] at h
      rcases List.mem_append.mp h with h | h
      · exact (ih t row h).of_kept hkept
      · obtain ⟨e, he, heq⟩ := List.mem_map.mp h
        obtain ⟨rfl, rfl⟩ := Prod.mk.inj heq
        exact ⟨row, hheld row he, rfl⟩
    | lose ht => exact ih
    | env he => exact he.choose.elim

end Desk
end
end KiteRail
