import KiteRail.QuarantineAudit

/-! What replay attempts are spent on. A release counts an attempt whether or not the
upstream was called, so an approval can be used up without ever being executed; it
cannot where no such release reaches the limit. -/
namespace KiteRail.Replay
open Bytes QuarantineStore Discipline

/-- The calls for an entry since its last committed approval. -/
def callsSince (lib : UuidLib) (u : UUID) (hist : History) : ℕ :=
  (acts lib u hist).foldl Act.tally 0

/-- A step that spends the last attempt on no entry that was not called since its
approval. -/
def spares (lib : UuidLib) (cfg : Config) (s s' : World) : Bool :=
  (s'.hist.drop s.hist.length).all fun
    | (_, .released id) => (s.table.find id).all fun row =>
        0 < callsSince lib id s.hist || row.attempts < cfg.maxReplayAttempts
    | _ => true

section
variable {lib : UuidLib} {cfg : Config} {c d : Pool Op Res World Unit} {s s' : World} {t : ℕ}
  {ls : List (Label Op Res)}

lemma act_eq_release {e : Event} {u : UUID} :
    e.act lib u = some .release ↔ e = .released u := by
  cases e <;> simp [Event.act]

lemma act_eq_call {e : Event} {u : UUID} :
    e.act lib u = some .call ↔ ∃ req, e = .called (lib.text u) req := by
  cases e <;> simp [Event.act]

/-- Steps that spare keep every life restrained. -/
lemma Inv.restrained (h : Inv lib cfg s) {op : Op} {r : Res op}
    (hx : (World.machine lib).semantics.exec t op s r s') (hs : spares lib cfg s s' = true)
    {u : UUID} (hr : Lives.Restrained cfg (acts lib u s.hist)) :
    Lives.Restrained cfg (acts lib u s'.hist) := by
  obtain ⟨new, hnew, hone⟩ := hist_of_exec hx
  rw [spares, hnew, List.drop_left, List.all_eq_true] at hs
  rw [hnew, acts_append]
  have hlen := hone u
  rcases hacts : acts lib u new with _ | ⟨a, rest⟩
  · simpa using hr
  · obtain rfl : rest = [] := by simpa [hacts] using hlen
    refine hr.snoc fun ha l hl hcalls => ?_
    subst ha
    obtain ⟨⟨t', e⟩, hmem, he⟩ := List.mem_filterMap.mp
      (show Act.release ∈ acts lib u new by simp [hacts])
    obtain rfl := act_eq_release.mp he
    obtain ⟨m, hm, hrel⟩ := h.lives u
    obtain rfl := hl.unique hm
    have hspares := hs _ hmem
    cases hf : s.table.find u with
    | none => simp [hf] at hrel
    | some row =>
      rw [hf] at hrel
      cases hrel with
      | some ha => simpa [hf, callsSince, hl.tally_eq, hcalls, ha.attempts] using hspares

lemma restrained_run
    (hr : Run ((World.machine lib).restrict (spares lib cfg)).semantics (Serves lib cfg)
      (Pool.initial World.initial) ls c) (u : UUID) :
    Lives.Restrained cfg (acts lib u c.shared.hist) := by
  induction hr with
  | nil =>
    intro before after l heq
    simp [acts, Pool.initial, World.initial] at heq
  | snoc hr hs ih =>
    have hreached : Reached lib cfg _ := ⟨_, hr.of_restrict⟩
    cases hs with
    | start hp => exact ih
    | act ht hx =>
      obtain ⟨hx, hspares⟩ := (World.machine lib).restrict_exec.mp hx
      exact hreached.inv.restrained hx hspares ih
    | lose ht => exact ih
    | env he => exact he.choose.elim

/-- An approved entry past the limit is not called until it is approved again. -/
theorem Reached.spent (h : Reached lib cfg c) {u : UUID} {row : Quarantine}
    (hrow : c.shared.table.find u = some row) (hl : cfg.maxReplayAttempts < row.attempts)
    (hr : Run (World.machine lib).semantics (Serves lib cfg) c ls d) {new : History}
    (hnew : d.shared.hist = c.shared.hist ++ new) (hno : ∀ v other, (v, .approved u other) ∉ new)
    (v : ℕ) (req : OutRequest) : (v, .called (lib.text u) req) ∉ new := by
  obtain ⟨l, hlives, ha⟩ := h.inv.life hrow
  obtain ⟨m, hm, -⟩ := (h.run hr).inv.lives u
  rw [hnew, acts_append] at hm
  have hcall := hlives.spent (ha.attempts ▸ hl) hm fun other hmem => by
    obtain ⟨⟨w, e⟩, he, hact⟩ := List.mem_filterMap.mp hmem
    obtain rfl := act_eq_approve.mp hact
    exact hno w other he
  exact fun hmem => hcall (List.mem_filterMap.mpr ⟨_, hmem, by simp [Event.act]⟩)

end

/-- An approval is only used up by replays, in every run whose steps spare the entries
that were not called. -/
theorem park_follows_call (lib : UuidLib) (cfg : Config) (ht : cfg.targeted)
    (ls : List (Label Op Res)) (c : Pool Op Res World Unit)
    (hr : Run ((World.machine lib).restrict (spares lib cfg)).semantics (Serves lib cfg)
      (Pool.initial World.initial) ls c) :
    ∀ pre t id site post, c.shared.hist = pre ++ (t, .parked id site) :: post → site ≠ .blocked →
      ∃ x u reviewer y v req, pre = x ++ (u, .approved id reviewer) :: y ∧
        (∀ w other, (w, .approved id other) ∉ y) ∧ (v, .called (lib.text id) req) ∈ y := by
  intro pre t id site post hhist hsite
  have hreached : Reached lib cfg c := ⟨ls, hr.of_restrict⟩
  have hrestrained := restrained_run hr id
  obtain ⟨m, hm, -⟩ := hreached.inv.lives id
  have hacts : acts lib id c.shared.hist =
      (acts lib id pre ++ [.park site]) ++ acts lib id post := by
    rw [hhist]
    simp [acts, Event.act]
  rw [hacts] at hm hrestrained
  obtain ⟨m', hm'⟩ := hm.of_append
  obtain ⟨before, after, reviewer, hpre, hno, hcall⟩ :=
    Lives.called_of_park hsite ht hm' hrestrained.of_append.of_append
  obtain ⟨x, u, e, y, rfl, he, -, rfl⟩ := exists_of_acts hpre
  obtain rfl := act_eq_approve.mp he
  obtain ⟨⟨v, e⟩, hmem, he⟩ := List.mem_filterMap.mp hcall
  obtain ⟨req, rfl⟩ := act_eq_call.mp he
  refine ⟨x, u, reviewer, y, v, req, rfl, fun w other hother => hno other ?_, hmem⟩
  exact List.mem_filterMap.mpr ⟨_, hother, by simp [Event.act]⟩

def defers : List Choice := [.dropped (.text (msg "connection refused")), well, well]

def exhausts : List Choice := [well, well, well]

def fails : List Choice := [well, .response 500, well, well, well]

def Event.isCall : Event → Bool
  | .called _ _ => true
  | _ => false

/-- Four deferrals use up an approval: the entry is parked and was never called. No
process dies in this run. -/
theorem deferrals_exhaust_approval : ∃ ls c pre t post,
    Run (World.machine sampleLib).semantics (Serves sampleLib sampleConfig)
      (Pool.initial World.initial) ls c ∧ (∀ u, .lose u ∉ ls) ∧
    c.shared.hist = pre ++ (t, .parked 1 .exhausted) :: post ∧
    ∀ v entryID req, (v, .called entryID req) ∉ c.shared.hist := by
  have hplay : ((World.machine sampleLib).play
      (passes [defers, defers, defers, defers, exhausts])
      (Pool.initial World.initial)).map (fun c =>
        (c.shared.hist.any fun e => e.2.act sampleLib 1 = some (.park .exhausted),
          c.shared.hist.any fun e => e.2.isCall)) = some (true, false) := by decide +kernel
  obtain ⟨c, hplay, hfacts⟩ := Option.map_eq_some_iff.mp hplay
  obtain ⟨hparked, hcalled⟩ := Prod.mk.inj hfacts
  obtain ⟨ls, hr, hlose⟩ := Machine.play_run_labels (passes_serves _) hplay
  obtain ⟨⟨t, e⟩, hmem, he⟩ := List.any_eq_true.mp hparked
  obtain rfl := act_eq_park.mp (of_decide_eq_true he)
  obtain ⟨pre, post, hhist⟩ := List.append_of_mem hmem
  refine ⟨ls, c, pre, t, post, hr, fun u hu => ?_, hhist, fun v entryID req hcall => ?_⟩
  · have hlost := hlose u hu
    simp [passes, heldAndApproved, claimingPass] at hlost
  · exact absurd (List.any_eq_false.mp hcalled _ hcall) (by simp [Event.isCall])

/-- Four failed calls park the entry. -/
theorem park_follows_call_fourth : ∃ ls c pre t post,
    Run ((World.machine sampleLib).restrict (spares sampleLib sampleConfig)).semantics
      (Serves sampleLib sampleConfig) (Pool.initial World.initial) ls c ∧
    c.shared.hist = pre ++ (t, .parked 1 .failed) :: post ∧
    ∃ v req, (v, .called (sampleLib.text 1) req) ∈ pre := by
  have hplay : (((World.machine sampleLib).restrict (spares sampleLib sampleConfig)).play
      (passes [fails, fails, fails, fails]) (Pool.initial World.initial)).map (fun c =>
        c.shared.hist.any fun e => e.2.act sampleLib 1 = some (.park .failed)) = some true := by
    decide +kernel
  obtain ⟨c, hplay, hparked⟩ := Option.map_eq_some_iff.mp hplay
  obtain ⟨ls, hr⟩ := Machine.play_run (passes_serves _) hplay
  obtain ⟨⟨t, e⟩, hmem, he⟩ := List.any_eq_true.mp hparked
  obtain rfl := act_eq_park.mp (of_decide_eq_true he)
  obtain ⟨pre, post, hhist⟩ := List.append_of_mem hmem
  obtain ⟨x, u, reviewer, y, v, req, rfl, -, hcall⟩ :=
    park_follows_call sampleLib sampleConfig trivial ls c hr pre t 1 .failed post hhist (by simp)
  exact ⟨ls, c, _, t, post, hr, hhist, v, req,
    List.mem_append_right _ (List.mem_cons_of_mem _ hcall)⟩

end KiteRail.Replay
