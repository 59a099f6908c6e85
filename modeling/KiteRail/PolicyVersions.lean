import KiteRail.PolicyReload
import KiteRail.ProgSegment

namespace KiteRail.Policy
open Bytes Prog Rego Discipline
variable {opa : OpaLib}

/-- The version on a decision is the fingerprint of the files that decided, if the
directory was not edited while they were fingerprinted and loaded, and the loader read the files
that count. A reload that fails publishes nothing. -/
theorem version_names_bundle (opa : OpaLib) (dir : Option Tree)
    (ls : List (Label (EngineOp opa) EngineRes))
    (c : Pool (EngineOp opa) EngineRes (Host opa) (Outcome opa))
    (hr : Run (Host.machine opa).semantics Calls (.initial (Host.start dir)) ls c) :
    (∀ a, c.shared.active = some a → a.query.Undisturbed → opa.Covers a.query.origin →
      a.version = versionOf a.query.source) ∧
    (∀ t query decision, c.thread t = some (.ret (.decided query decision)) →
      query.Undisturbed → opa.Covers query.origin →
      decision.policyVersion = versionOf query.source) ∧
    (∀ t e, c.thread t = some (.ret (.reloaded (.error e))) → ∀ p ∈ c.shared.log, p.thread ≠ t) ∧
    (∀ l d, Step (Host.machine opa).semantics Calls c l d → d.shared.active ≠ c.shared.active →
      ∃ t a, l = .act t (.publish a) () ∧
        (⟨t, a, c.shared.seen t⟩ : Publication opa) ∈ d.shared.log) := by
  have hsound := sound_run hr
  refine ⟨fun a ha => hsound.inv.named_active ha, fun t q d ht => achieved_of_ret hsound ht, ?_, ?_⟩
  · intro t e ht
    exact achieved_of_ret hsound ht
  · intro l d hs hne
    exact Step.active_eq hs hne

/-! Two bundles of one file, and scripts over them. -/

def bundleOf (content : String) : Tree := ⟨[(lit "policy.rego", lit content)], by simp, []⟩

/-- A loader that follows links, and a compiler that accepts everything. -/
def acceptingOpa : OpaLib where
  lists dir := (dir.readable.map Prod.fst).filter policyFile
  prepare _ := .ok ⟨[⟨lit "data.elodea.authz", [⟨lit "data.elodea.authz.decision", 0⟩]⟩],
    fun _ => .ok none⟩

def listTools : EvalInput :=
  ⟨lit "mcp", [], lit "tools/list", none, lit "agent-7", ⟨0, 0⟩, lit "tools/list"⟩

abbrev EnginePool :=
  Pool (EngineOp acceptingOpa) EngineRes (Host acceptingOpa) (Outcome acceptingOpa)

abbrev EngineMove :=
  Machine.Move (EngineOp acceptingOpa) EngineRes (Outcome acceptingOpa) Attempt (Option Tree)

def steps (t n : ℕ) : List EngineMove := List.replicate n (.act t .works)

def EnginePool.decided (c : EnginePool) (t : ℕ) : Option (Query acceptingOpa × ProxyDecision) :=
  match c.thread t with
  | some (.ret (.decided query decision)) => some (query, decision)
  | _ => none

lemma EnginePool.decided_eq {c : EnginePool} {t : ℕ} {query : Query acceptingOpa}
    {decision : ProxyDecision} (h : EnginePool.decided c t = some (query, decision)) :
    c.thread t = some (.ret (.decided query decision)) := by
  unfold EnginePool.decided at h
  split at h
  · rename_i heq
    obtain ⟨rfl, rfl⟩ := Prod.mk.inj (Option.some.inj h)
    exact heq
  · simp at h

def EnginePool.reloaded (c : EnginePool) (t : ℕ) : Bool :=
  match c.thread t with
  | some (.ret (.reloaded (.ok _))) => true
  | _ => false

lemma EnginePool.reloaded_eq {c : EnginePool} {t : ℕ} (h : EnginePool.reloaded c t = true) :
    c.thread t = some (.ret (.reloaded (.ok ()))) := by
  unfold EnginePool.reloaded at h
  split at h
  · rename_i heq
    exact heq
  · simp at h

lemma calls_reloads {n : ℕ} {script : List EngineMove}
    (h : Machine.starts script = List.replicate n reloadCall) :
    ∀ p ∈ Machine.starts script, Calls p := by
  intro p hp
  rw [h] at hp
  exact List.eq_of_mem_replicate hp ▸ .reload

lemma calls_evaluation {script : List EngineMove}
    (h : Machine.starts script = [reloadCall, evaluateCall listTools]) :
    ∀ p ∈ Machine.starts script, Calls p := by
  rw [h]
  simp [Calls.reload, Calls.evaluate]

/-- An edit between the fingerprint and the load of a reload, and an evaluation. -/
def editedReload : List EngineMove :=
  .start reloadCall :: steps 0 3 ++ .env (some (bundleOf "b")) :: steps 0 5 ++
    .start (evaluateCall listTools) :: steps 1 2

def quietReload : List EngineMove :=
  .start reloadCall :: steps 0 8 ++ .start (evaluateCall listTools) :: steps 1 2

/-- One reload has loaded before an edit, another runs after it, and the first publishes
last. -/
def overlappingReloads : List EngineMove :=
  .start reloadCall :: steps 0 8 ++ .start reloadCall :: steps 1 7 ++
    .env (some (bundleOf "b")) :: .start reloadCall :: steps 2 8 ++ steps 1 1

def laterReload : List EngineMove :=
  .start reloadCall :: steps 0 8 ++ .env (some (bundleOf "b")) :: .start reloadCall :: steps 1 8

/-- A directory with a policy behind a link. -/
def linkedBundle : Tree :=
  { bundleOf "a" with linked := [(lit "..data/policy.rego", lit "b")] }

lemma linked_reload_misnames : ∃ ls c a, Run (Host.machine acceptingOpa).semantics Calls
    (.initial (Host.start (some linkedBundle))) ls c ∧
    c.shared.active = some a ∧ a.query.Undisturbed ∧ a.version ≠ versionOf a.query.source := by
  have hplay : (((Host.machine acceptingOpa).play (.start reloadCall :: steps 0 9)
      (.initial (Host.start (some linkedBundle)))).bind fun c =>
        c.shared.active.map fun a => (decide a.query.Undisturbed,
          decide (a.version = versionOf a.query.source))) = some (true, false) := by
    decide +kernel
  obtain ⟨c, hc, hactive⟩ := Option.bind_eq_some_iff.mp hplay
  obtain ⟨a, ha, hfacts⟩ := Option.map_eq_some_iff.mp hactive
  obtain ⟨ls, hrun⟩ := Machine.play_run (calls_reloads (n := 1) rfl) hc
  simp only [Prod.mk.injEq, decide_eq_true_eq, decide_eq_false_iff_not] at hfacts
  exact ⟨ls, c, a, hrun, ha, hfacts⟩

/-- The version of the first bundle on a decision of the second. Without any edit, files behind a
link decide and are not in the version. -/
theorem edited_reload_misnames : (∃ ls c a query decision,
    Run (Host.machine acceptingOpa).semantics Calls
      (.initial (Host.start (some (bundleOf "a")))) ls c ∧
    c.shared.active = some a ∧ a.version = versionOf (some (bundleOf "a").files) ∧
    a.version ≠ versionOf a.query.source ∧
    c.thread 1 = some (.ret (.decided query decision)) ∧
    query.source = some (bundleOf "b").files ∧
    decision.policyVersion ≠ versionOf query.source) ∧
    ∃ ls c a, Run (Host.machine acceptingOpa).semantics Calls
      (.initial (Host.start (some linkedBundle))) ls c ∧
      c.shared.active = some a ∧ a.query.Undisturbed ∧
      a.version ≠ versionOf a.query.source := by
  refine ⟨?_, linked_reload_misnames⟩
  have hplay : (((Host.machine acceptingOpa).play editedReload
      (.initial (Host.start (some (bundleOf "a"))))).map fun c =>
        (c.shared.active.map fun a => (decide (a.version = versionOf (some (bundleOf "a").files)),
          decide (a.version = versionOf a.query.source)),
        (EnginePool.decided c 1).map fun r => (decide (r.1.source = some (bundleOf "b").files),
          decide (r.2.policyVersion = versionOf r.1.source)))) =
      some (some (true, false), some (true, false)) := by
    decide +kernel
  obtain ⟨c, hc, hfacts⟩ := Option.map_eq_some_iff.mp hplay
  obtain ⟨hactive, hdecided⟩ := Prod.mk.inj hfacts
  obtain ⟨a, ha, hversions⟩ := Option.map_eq_some_iff.mp hactive
  obtain ⟨⟨query, decision⟩, hd, hsources⟩ := Option.map_eq_some_iff.mp hdecided
  obtain ⟨ls, hrun⟩ := Machine.play_run (calls_evaluation rfl) hc
  simp only [Prod.mk.injEq, decide_eq_true_eq, decide_eq_false_iff_not] at hversions hsources
  exact ⟨ls, c, a, query, decision, hrun, ha, hversions.1, hversions.2, EnginePool.decided_eq hd,
    hsources⟩

theorem version_names_bundle_quiet : ∃ ls c a query decision,
    Run (Host.machine acceptingOpa).semantics Calls
      (.initial (Host.start (some (bundleOf "a")))) ls c ∧
    c.shared.active = some a ∧ a.query.Undisturbed ∧ acceptingOpa.Covers a.query.origin ∧
    a.version = versionOf a.query.source ∧
    c.thread 1 = some (.ret (.decided query decision)) ∧ query.Undisturbed ∧
    acceptingOpa.Covers query.origin ∧ decision.policyVersion = versionOf query.source := by
  have hplay : (((Host.machine acceptingOpa).play quietReload
      (.initial (Host.start (some (bundleOf "a"))))).map fun c =>
        (c.shared.active.map fun a =>
          (decide a.query.Undisturbed, decide (acceptingOpa.Covers a.query.origin)),
        (EnginePool.decided c 1).map fun r =>
          (decide r.1.Undisturbed, decide (acceptingOpa.Covers r.1.origin)))) =
      some (some (true, true), some (true, true)) := by
    decide
  obtain ⟨c, hc, hfacts⟩ := Option.map_eq_some_iff.mp hplay
  obtain ⟨hactive, hdecided⟩ := Prod.mk.inj hfacts
  obtain ⟨a, ha, hmet⟩ := Option.map_eq_some_iff.mp hactive
  obtain ⟨⟨query, decision⟩, hd, hmet'⟩ := Option.map_eq_some_iff.mp hdecided
  obtain ⟨ls, hrun⟩ := Machine.play_run (calls_evaluation rfl) hc
  simp only [Prod.mk.injEq, decide_eq_true_eq] at hmet hmet'
  have hthread := EnginePool.decided_eq hd
  obtain ⟨hnamed, hnamed', -⟩ := version_names_bundle acceptingOpa _ ls c hrun
  exact ⟨ls, c, a, query, decision, hrun, ha, hmet.1, hmet.2, hnamed a ha hmet.1 hmet.2, hthread,
    hmet'.1, hmet'.2, hnamed' 1 query decision hthread hmet'.1 hmet'.2⟩

/-- Publications are added, and where they do not overlap the active query gets no older. -/
def Advances (s s' : Host opa) : Prop :=
  (∃ new, s'.log = new ++ s.log) ∧ (Sequential s'.log → s.floor ≤ s'.floor)

lemma Advances.refl (s : Host opa) : Advances s s := ⟨⟨[], rfl⟩, fun _ => le_rfl⟩

lemma Advances.trans {a b c : Host opa} (h : Advances a b) (g : Advances b c) : Advances a c := by
  obtain ⟨⟨new, hnew⟩, hrise⟩ := h
  obtain ⟨⟨new', hnew'⟩, hrise'⟩ := g
  refine ⟨⟨new' ++ new, by rw [hnew', hnew, List.append_assoc]⟩, fun hseq => ?_⟩
  exact (hrise (Sequential.of_append (hnew' ▸ hseq))).trans (hrise' hseq)

lemma Others.advances {t : ℕ} {s s' : Host opa} (h : Others t s s') : Advances s s' := by
  obtain ⟨new, hnew, -⟩ := h.grows
  exact ⟨⟨new, hnew⟩, h.rises⟩

/-- What the steps of the others mean to a thread of a sound pool. -/
lemma engine_segment (u : ℕ) : Segment (Host.machine opa).semantics Calls u Advances
    (fun op s r s' => (Host.machine opa).semantics.exec u op s r s')
    fun c => Sound (engineRules opa) Achieved c ∧ u < c.next where
  refl := Advances.refl
  trans _ _ _ h g := h.trans g
  keep := by
    intro c l d h hs
    refine ⟨h.1.step (fun p t s hp hi hf => wp_call_of hp hi hf) hs, ?_⟩
    cases hs with
    | start hp => exact h.2.trans (Nat.lt_succ_self _)
    | _ => exact h.2
  named _ h := h.2
  others := by
    intro c l d h hs hl
    cases hs with
    | start hp => exact Advances.refl _
    | lose ht => exact Advances.refl _
    | env he => exact ((engineRules opa).rely_env u _ _ h.1.inv he).advances
    | @act t op k r s ht hx =>
      have hne : t ≠ u := fun he => hl (congrArg some he)
      exact ((h.1.act ht hx).2.1.others hne).advances
  own _ _ _ _ _ hx := hx

/-- An evaluation uses a query at least as new as the one that was active when it began. -/
lemma evaluateCall_ensures (u : ℕ) (input : EvalInput) {n : ℕ} {s : Host opa}
    (h : Sequential s.log → n ≤ s.floor) :
    (evaluateCall input).Ensures Advances
      (fun op s r s' => (Host.machine opa).semantics.exec u op s r s')
      (fun outcome s => ∀ query decision, outcome = .decided query decision →
        Sequential s.log → n ≤ query.loaded) s := by
  have hstable : ∀ (query : Query opa) (a b : Host opa),
      (Sequential a.log → n ≤ query.loaded) → Advances a b →
        Sequential b.log → n ≤ query.loaded := by
    rintro query a b ha ⟨⟨new, hnew⟩, -⟩ hseq
    exact ha (Sequential.of_append (hnew ▸ hseq))
  intro s₁ active s₂ hcalm hx
  obtain ⟨rfl, hactive⟩ := exec_current hx
  have hloaded : Sequential s₂.log → n ≤ active.query.loaded := by
    intro hseq
    obtain ⟨⟨new, hnew⟩, hrise⟩ := hcalm
    have hfloor : s₂.floor = active.query.loaded := by rw [Host.floor, hactive]; rfl
    rw [← hfloor]
    exact (h (Sequential.of_append (hnew ▸ hseq))).trans (hrise hseq)
  intro s₃ outcome s₄ hcalm' hx'
  obtain rfl := exec_eval hx'
  rintro _ _ ⟨⟩
  exact hstable active.query s₂ s₄ hloaded hcalm'

/-- Once a reload that began after an edit has succeeded, later evaluations use a query
that was loaded after it, if reloads do not overlap. -/
theorem reloads_do_not_regress (opa : OpaLib) (dir : Option Tree)
    (ls ls' : List (Label (EngineOp opa) EngineRes))
    (c d e : Pool (EngineOp opa) EngineRes (Host opa) (Outcome opa)) (t u : ℕ)
    (input : EvalInput) (query : Query opa) (decision : ProxyDecision)
    (hr : Run (Host.machine opa).semantics Calls (.initial (Host.start dir)) ls c)
    (hret : c.thread t = some (.ret (.reloaded (.ok ()))))
    (hstart : Step (Host.machine opa).semantics Calls c (.start u) d)
    (heval : d.thread u = some (evaluateCall input))
    (hr' : Run (Host.machine opa).semantics Calls d ls' e)
    (hdone : e.thread u = some (.ret (.decided query decision)))
    (hseq : Sequential e.shared.log) : c.shared.started t ≤ query.loaded := by
  have hsound := sound_run hr
  have hfloor : Sequential c.shared.log → c.shared.started t ≤ c.shared.floor :=
    achieved_of_ret hsound hret
  obtain ⟨hshared, hnext⟩ : d.shared = c.shared ∧ u < d.next := by
    cases hstart with
    | start hp => exact ⟨rfl, Nat.lt_succ_self _⟩
  have hd : Sound (engineRules opa) Achieved d :=
    hsound.step (fun p t s hp hi hf => wp_call_of hp hi hf) hstart
  rw [← hshared] at hfloor ⊢
  have hens := evaluateCall_ensures u input hfloor
  obtain ⟨-, hend⟩ := hr'.ensures (engine_segment u) ⟨hd, hnext⟩ heval hens
  obtain ⟨s, ⟨⟨new, hnew⟩, -⟩, hs⟩ := hend _ hdone
  exact hs query decision rfl (Sequential.of_append (hnew ▸ hseq))

def evaluateNext (c : EnginePool) : EnginePool :=
  ⟨c.shared, Function.update c.thread c.next (some (evaluateCall listTools)), c.next + 1⟩

/-- The first bundle decides although a reload that began after the edit has succeeded. -/
theorem overlapping_reloads_regress : ∃ ls ls' c d e query decision,
    Run (Host.machine acceptingOpa).semantics Calls
      (.initial (Host.start (some (bundleOf "a")))) ls c ∧
    c.thread 2 = some (.ret (.reloaded (.ok ()))) ∧
    Step (Host.machine acceptingOpa).semantics Calls c (.start 3) d ∧
    d.thread 3 = some (evaluateCall listTools) ∧
    Run (Host.machine acceptingOpa).semantics Calls d ls' e ∧
    e.thread 3 = some (.ret (.decided query decision)) ∧
    query.loaded < c.shared.started 2 ∧ query.source = some (bundleOf "a").files ∧
    c.shared.contents = some (bundleOf "b").files := by
  have hplay : (((Host.machine acceptingOpa).play overlappingReloads
      (.initial (Host.start (some (bundleOf "a"))))).bind fun c =>
        ((Host.machine acceptingOpa).play (steps 3 2) (evaluateNext c)).map fun e =>
          (c.next, EnginePool.reloaded c 2, decide (c.shared.contents = some (bundleOf "b").files),
            (EnginePool.decided e 3).map fun r => (decide (r.1.loaded < c.shared.started 2),
              decide (r.1.source = some (bundleOf "a").files)))) =
      some (3, true, true, some (true, true)) := by
    decide
  obtain ⟨c, hc, hplay⟩ := Option.bind_eq_some_iff.mp hplay
  obtain ⟨e, he, hfacts⟩ := Option.map_eq_some_iff.mp hplay
  simp only [Prod.mk.injEq, decide_eq_true_eq] at hfacts
  obtain ⟨hnext, hreloaded, hcontents, hdecided⟩ := hfacts
  obtain ⟨⟨query, decision⟩, hd, hquery⟩ := Option.map_eq_some_iff.mp hdecided
  simp only [Prod.mk.injEq, decide_eq_true_eq] at hquery
  obtain ⟨ls, hrun⟩ := Machine.play_run (calls_reloads (n := 3) rfl) hc
  obtain ⟨ls', hrun'⟩ := Machine.play_run (calls_reloads (n := 0) rfl) he
  refine ⟨ls, ls', c, evaluateNext c, e, query, decision, hrun, EnginePool.reloaded_eq hreloaded,
    hnext ▸ .start (.evaluate listTools), ?_, hrun', EnginePool.decided_eq hd, hquery.1, hquery.2,
    hcontents⟩
  simp [evaluateNext, hnext]

theorem reloads_do_not_regress_later : ∃ ls ls' c e query decision,
    Run (Host.machine acceptingOpa).semantics Calls
      (.initial (Host.start (some (bundleOf "a")))) ls c ∧
    c.thread 1 = some (.ret (.reloaded (.ok ()))) ∧ c.shared.started 1 = 1 ∧
    Run (Host.machine acceptingOpa).semantics Calls (evaluateNext c) ls' e ∧
    e.thread 2 = some (.ret (.decided query decision)) ∧ 1 ≤ query.loaded := by
  have hplay : (((Host.machine acceptingOpa).play laterReload
      (.initial (Host.start (some (bundleOf "a"))))).bind fun c =>
        ((Host.machine acceptingOpa).play (steps 2 2) (evaluateNext c)).map fun e =>
          (c.next, EnginePool.reloaded c 1, c.shared.started 1, decide (Sequential e.shared.log),
            (EnginePool.decided e 2).isSome)) = some (2, true, 1, true, true) := by
    decide
  obtain ⟨c, hc, hplay⟩ := Option.bind_eq_some_iff.mp hplay
  obtain ⟨e, he, hfacts⟩ := Option.map_eq_some_iff.mp hplay
  simp only [Prod.mk.injEq, decide_eq_true_eq] at hfacts
  obtain ⟨hnext, hreloaded, hstarted, hseq, hdecided⟩ := hfacts
  obtain ⟨⟨query, decision⟩, hd⟩ := Option.isSome_iff_exists.mp hdecided
  obtain ⟨ls, hrun⟩ := Machine.play_run (calls_reloads (n := 2) rfl) hc
  obtain ⟨ls', hrun'⟩ := Machine.play_run (calls_reloads (n := 0) rfl) he
  have hret := EnginePool.reloaded_eq hreloaded
  have hdone := EnginePool.decided_eq hd
  have hthread : (evaluateNext c).thread 2 = some (evaluateCall listTools) := by
    simp [evaluateNext, hnext]
  refine ⟨ls, ls', c, e, query, decision, hrun, hret, hstarted, hrun', hdone, ?_⟩
  rw [← hstarted]
  exact reloads_do_not_regress acceptingOpa _ ls ls' c (evaluateNext c) e 1 2 listTools query
    decision hrun hret (hnext ▸ .start (.evaluate listTools)) hthread hrun' hdone hseq

end KiteRail.Policy
