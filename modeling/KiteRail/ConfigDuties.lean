import KiteRail.ConfigValidate
import KiteRail.SlackServe

/-! What a configuration that passed `Validate` keeps apart: the tokens of the three trust
domains, and the identities of agents from those of their reviewers. The reviewers of the
Slack app are normalised once more after they were checked. -/
namespace KiteRail.Startup
open Bytes GoStrings

section Tokens
variable {env : Setting} {c : Config}

lemma lookup_eq_none {seen : List (Bytes × Bytes)} {tok : Bytes} :
    seen.lookup tok = none ↔ tok ∉ seen.map Prod.fst := by
  rw [List.lookup_eq_none_iff]
  constructor
  · intro h hmem
    obtain ⟨p, hp, rfl⟩ := List.mem_map.mp hmem
    simpa using h p hp
  · intro h p hp
    rw [bne_iff_ne]
    rintro rfl
    exact h (List.mem_map_of_mem hp)

lemma claimKeys_eq_ok {role : Bytes} {keys seen seen' : List (Bytes × Bytes)} :
    claimKeys role seen keys = .ok seen' ↔ (∀ k ∈ keys, k.1 ∉ seen.map Prod.fst) ∧
      (keys.map Prod.fst).Nodup ∧
      seen' = (keys.map fun k => (k.1, role ++ lit ":" ++ k.2)).reverse ++ seen := by
  induction keys generalizing seen with
  | nil => simp [claimKeys, eq_comm]
  | cons k keys ih =>
    obtain ⟨tok, id⟩ := k
    rw [claimKeys, List.forall_mem_cons]
    cases hseen : seen.lookup tok with
    | some owner =>
      have htaken : tok ∈ seen.map Prod.fst := by
        by_contra hnot
        rw [lookup_eq_none.mpr hnot] at hseen
        simp at hseen
      simp [htaken]
    | none =>
      have hfree := lookup_eq_none.mp hseen
      simp only [ih, List.map_cons, List.mem_cons, not_or, List.nodup_cons, List.reverse_cons,
        List.append_assoc, List.singleton_append]
      constructor
      · rintro ⟨hkeys, hnodup, rfl⟩
        refine ⟨⟨hfree, fun k hk => (hkeys k hk).2⟩, ⟨fun hin => ?_, hnodup⟩, rfl⟩
        obtain ⟨k, hk, heq⟩ := List.mem_map.mp hin
        exact (hkeys k hk).1 heq
      · rintro ⟨⟨-, hkeys⟩, ⟨hnot, hnodup⟩, rfl⟩
        exact ⟨fun k hk => ⟨fun heq => hnot (List.mem_map.mpr ⟨k, hk, heq⟩), hkeys k hk⟩,
          hnodup, rfl⟩

lemma pairs_fst (keys : Keys) : (pairs keys).map Prod.fst = keys.keys := by
  simp [pairs, AList.keys, List.keys]

def Apart (a b : Keys) : Prop := ∀ tok ∈ a, tok ∉ b

lemma Apart.symm {a b : Keys} (h : Apart a b) : Apart b a := fun tok hb ha => h tok ha hb

lemma claimRoles_isOk {roles : List (Bytes × Keys)} {seen : List (Bytes × Bytes)} :
    (∃ seen', roles.foldlM (fun seen role =>
        claimKeys role.1 seen (env.order.visit 5 (pairs role.2))) seen = .ok seen') ↔
      (∀ role ∈ roles, ∀ tok ∈ role.2, tok ∉ seen.map Prod.fst) ∧
        roles.Pairwise fun r r' => Apart r.2 r'.2 := by
  induction roles generalizing seen with
  | nil => simp [pure, Except.pure]
  | cons role roles ih =>
    have hkeys : ((env.order.visit 5 (pairs role.2)).map Prod.fst).Perm role.2.keys := by
      rw [← pairs_fst]
      exact (env.order.perm 5 _).map _
    set mine := (env.order.visit 5 (pairs role.2)).map fun k =>
      (k.1, role.1 ++ lit ":" ++ k.2) with hmine
    have hfst : ∀ tok, tok ∈ (mine.reverse ++ seen).map Prod.fst ↔
        tok ∈ role.2 ∨ tok ∈ seen.map Prod.fst := by
      intro tok
      rw [List.map_append, List.map_reverse, List.mem_append, List.mem_reverse, hmine,
        List.map_map, AList.mem_keys, ← hkeys.mem_iff]
      rfl
    have hclaim : ∀ seen', claimKeys role.1 seen (env.order.visit 5 (pairs role.2)) = .ok seen' ↔
        (∀ tok ∈ role.2, tok ∉ seen.map Prod.fst) ∧ seen' = mine.reverse ++ seen := by
      intro seen'
      rw [claimKeys_eq_ok, hkeys.nodup_iff, and_iff_right role.2.keys_nodup]
      refine and_congr_left fun _ => ?_
      constructor
      · intro h tok htok
        obtain ⟨k, hk, rfl⟩ := List.mem_map.mp (hkeys.mem_iff.mpr (AList.mem_keys.mp htok))
        exact h k hk
      · intro h k hk
        exact h k.1 (AList.mem_keys.mpr (hkeys.mem_iff.mp (List.mem_map_of_mem hk)))
    rw [List.forall_mem_cons, List.pairwise_cons, List.foldlM_cons]
    cases hres : claimKeys role.1 seen (env.order.visit 5 (pairs role.2)) with
    | error e =>
      have hnot : ¬ ∀ tok ∈ role.2, tok ∉ seen.map Prod.fst := by
        intro h
        rw [(hclaim _).mpr ⟨h, rfl⟩] at hres
        simp at hres
      refine ⟨fun ⟨_, h⟩ => ?_, fun h => absurd h.1.1 hnot⟩
      simp [bind, Except.bind] at h
    | ok seen' =>
      obtain ⟨hrole, rfl⟩ := (hclaim seen').mp hres
      refine ih.trans ?_
      simp only [hfst, not_or]
      constructor
      · rintro ⟨hroles, hpair⟩
        exact ⟨⟨hrole, fun r hr tok htok => (hroles r hr tok htok).2⟩,
          fun r hr tok htok htok' => (hroles r hr tok htok').1 htok, hpair⟩
      · rintro ⟨⟨-, hroles⟩, hapart, hpair⟩
        exact ⟨fun r hr tok htok => ⟨fun hmem => hapart r hr tok hmem htok,
          hroles r hr tok htok⟩, hpair⟩

theorem checkTokens_eq_ok : checkTokens env c = .ok () ↔ Apart c.apiKeys c.reviewerAPIKeys ∧
    Apart c.apiKeys c.adminAPIKeys ∧ Apart c.reviewerAPIKeys c.adminAPIKeys := by
  set roles := [(lit "reviewer", c.reviewerAPIKeys), (lit "admin", c.adminAPIKeys)] with hroles
  set seen := (env.order.visit 3 (pairs c.apiKeys)).map fun k => (k.1, lit "agent:" ++ k.2)
    with hseen
  have hfst : ∀ tok, tok ∈ seen.map Prod.fst ↔ tok ∈ c.apiKeys := by
    intro tok
    rw [hseen, List.map_map, AList.mem_keys, ← pairs_fst]
    exact ((env.order.perm 3 (pairs c.apiKeys)).map Prod.fst).mem_iff
  have hok : checkTokens env c = .ok () ↔ ∃ seen', (env.order.visit 4 roles).foldlM
      (fun seen role => claimKeys role.1 seen (env.order.visit 5 (pairs role.2))) seen =
        .ok seen' := by
    rw [checkTokens]
    cases (env.order.visit 4 roles).foldlM
      (fun seen role => claimKeys role.1 seen (env.order.visit 5 (pairs role.2))) seen with
    | error e => simp [bind, Except.bind]
    | ok seen' => simp [bind, Except.bind, pure, Except.pure]
  have hpair := (env.order.perm 4 roles).pairwise_iff
    (R := fun r r' : Bytes × Keys => Apart r.2 r'.2) fun h => h.symm
  rw [hok, claimRoles_isOk, hpair]
  simp only [MapOrder.mem_visit, hfst, hroles, List.forall_mem_cons, List.pairwise_cons,
    List.not_mem_nil, and_true, List.Pairwise.nil, implies_true, false_implies]
  constructor
  · rintro ⟨⟨hreviewer, hadmin⟩, hboth⟩
    exact ⟨Apart.symm hreviewer, Apart.symm hadmin, hboth⟩
  · rintro ⟨hreviewer, hadmin, hboth⟩
    exact ⟨⟨hreviewer.symm, hadmin.symm⟩, hboth⟩

end Tokens

section Duties
variable {env : Setting} {c c' : Config}

lemma checkDuties_eq_ok : checkDuties env c = .ok () ↔
    ∀ a ∈ ids c.apiKeys, a ∉ ids c.reviewerAPIKeys ∧ a ∉ ids c.adminAPIKeys := by
  simp only [checkDuties, forM_eq_ok, List.forall_mem_cons, List.not_mem_nil, failIf_eq_ok,
    MapOrder.mem_visit, false_implies, implies_true, and_true, List.contains_eq_mem,
    decide_eq_false_iff_not]
  constructor
  · rintro ⟨hreviewer, hadmin⟩ a ha
    exact ⟨fun hmem => hreviewer a hmem ha, fun hmem => hadmin a hmem ha⟩
  · intro h
    exact ⟨fun id hid ha => (h id ha).1 hid, fun id hid ha => (h id ha).2 hid⟩

lemma checkReviewer_eq_ok {agentIDs : List Bytes} {r : Bytes} :
    checkReviewer env agentIDs r = .ok () ↔ 64 ∈ r ∧ toLower env.table r ∉ agentIDs := by
  rw [checkReviewer, seq_eq_ok]
  simp

def SlackComplete (c : Config) : Prop :=
  c.slack.anySet = true → c.slack.botToken ≠ [] ∧ c.slack.signingSecret ≠ [] ∧
    c.slack.channelID ≠ [] ∧ c.slack.reviewers ≠ [] ∧
    (c.production = true → c.slack.teamID ≠ [])

lemma validateSlack_eq_ok : validateSlack env c = .ok () ↔ SlackComplete c ∧
    ∀ r ∈ c.slack.reviewers, 64 ∈ r ∧
      ∀ a ∈ ids c.apiKeys, toLower env.table r ≠ toLower env.table a := by
  have hagents : ∀ r, toLower env.table r ∉
      (env.order.visit 2 (ids c.apiKeys)).map (toLower env.table) ↔
      ∀ a ∈ ids c.apiKeys, toLower env.table r ≠ toLower env.table a := by
    intro r
    simp only [List.mem_map, MapOrder.mem_visit, not_exists, not_and]
    exact forall₂_congr fun a _ => ne_comm
  rw [validateSlack]
  by_cases hset : c.slack.anySet = true
  · simp only [hset, SlackComplete, seq_eq_ok, forM_eq_ok, checkReviewer_eq_ok, hagents,
      failIf_eq_ok, Bool.not_true, Bool.false_eq_true, if_false, forall_const,
      Bool.or_eq_false_iff, beq_eq_false_iff_ne, List.isEmpty_eq_false_iff, Bool.and_eq_false_iff]
    constructor
    · rintro ⟨⟨⟨hbot, hsecret⟩, hchannel⟩, hne, hall, hteam⟩
      refine ⟨⟨hbot, hsecret, hchannel, hne, fun hprod => ?_⟩, hall⟩
      simpa [hprod] using hteam
    · rintro ⟨⟨hbot, hsecret, hchannel, hne, hteam⟩, hall⟩
      refine ⟨⟨⟨hbot, hsecret⟩, hchannel⟩, hne, hall, ?_⟩
      cases hprod : c.production with
      | true => exact .inr (hteam hprod)
      | false => exact .inl rfl
  · have hnil : c.slack.reviewers = [] := by
      simp only [SlackConfig.anySet, Bool.or_eq_true, not_or] at hset
      simpa using hset.2
    simp [hset, SlackComplete, hnil]

/-- What the later stages rely on of a configuration that was accepted. -/
structure Accepted (env : Setting) (c : Config) : Prop where
  reviewers : Apart c.apiKeys c.reviewerAPIKeys
  admins : Apart c.apiKeys c.adminAPIKeys
  humans : Apart c.reviewerAPIKeys c.adminAPIKeys
  duties : ∀ a ∈ ids c.apiKeys, a ∉ ids c.reviewerAPIKeys ∧ a ∉ ids c.adminAPIKeys
  slack : ∀ r ∈ c.slack.reviewers, 64 ∈ r ∧
    ∀ a ∈ ids c.apiKeys, toLower env.table r ≠ toLower env.table a

lemma complete_eq_ok : complete c = .ok c' ↔ ∃ o, c.oidc.withDefaults = .ok o ∧
    ¬ (0 < c.pgMaxOpenConns ∧ c.pgMaxOpenConns < 2) ∧ c' = { c.withDefaults with oidc := o } := by
  rw [complete]
  cases c.oidc.withDefaults with
  | error e => simp [bind, Except.bind]
  | ok o =>
    simp only [Except.ok.injEq, exists_eq_left']
    exact seq_eq_ok.trans (and_congr (by simp) ⟨fun h => (Except.ok.inj h).symm, fun h => h ▸ rfl⟩)

lemma result_of_validate (h : validate env c = .ok c') :
    ∃ o, c' = { c.withDefaults with oidc := o } := by
  simp only [validate, seq_eq_ok] at h
  obtain ⟨-, -, -, -, -, -, -, -, -, -, -, -, -, hrest⟩ := h
  obtain ⟨o, -, -, heq⟩ := complete_eq_ok.mp hrest
  exact ⟨o, heq⟩

lemma accepted_of_validate (h : validate env c = .ok c') : Accepted env c' := by
  obtain ⟨o, rfl⟩ := result_of_validate h
  simp only [validate, seq_eq_ok] at h
  obtain ⟨-, -, -, -, -, -, -, -, hslack, htokens, hduties, -, -, -⟩ := h
  obtain ⟨hreviewers, hadmins, hhumans⟩ := checkTokens_eq_ok.mp htokens
  exact ⟨hreviewers, hadmins, hhumans, checkDuties_eq_ok.mp hduties,
    (validateSlack_eq_ok.mp hslack).2⟩

def Config.withOwners (c : Config) (agent reviewer : Bytes) : Config :=
  { c with
    apiKeys := .singleton (List.replicate 24 97) agent
    reviewerAPIKeys := .singleton (List.replicate 24 98) reviewer
    adminAPIKeys := ∅ }

lemma checkProduction_withOwners (h : checkProduction env c = .ok ()) (agent reviewer : Bytes) :
    checkProduction env (c.withOwners agent reviewer) = .ok () := by
  have hsame : (c.withOwners agent reviewer).production = c.production := rfl
  rw [checkProduction, hsame]
  rw [checkProduction] at h
  split at h
  · rename_i hskip
    rw [if_pos hskip]
  · rename_i hstrict
    rw [if_neg hstrict]
    simp only [seq_eq_ok, forM_eq_ok, failIf_eq_ok] at h ⊢
    obtain ⟨hdsn, -, -, htls⟩ := h
    refine ⟨hdsn, ?_, ?_, htls⟩
    · simp [Config.withOwners, pairs, AList.singleton]
      decide
    · simp [Config.withOwners, pairs, AList.singleton, minProductionTokenBytes]

/-- Only the checks of the keys see the owners. -/
lemma validate_withOwners (h : validate env c = .ok c') {agent reviewer : Bytes}
    (hne : agent ≠ reviewer)
    (hslack : ∀ r ∈ c.slack.reviewers, toLower env.table r ≠ toLower env.table agent) :
    ∃ c'', validate env (c.withOwners agent reviewer) = .ok c'' := by
  simp only [validate, seq_eq_ok] at h ⊢
  obtain ⟨htarget, habsolute, hlevel, hinterval, -, -, hoidc, hnotify, hslack', -, -, horigins,
    hproduction, hrest⟩ := h
  obtain ⟨hcomplete, hall⟩ := validateSlack_eq_ok.mp hslack'
  obtain ⟨o, ho, hpg, -⟩ := complete_eq_ok.mp hrest
  refine ⟨_, htarget, habsolute, hlevel, hinterval, by rfl, by rfl, hoidc, hnotify, ?_, ?_, ?_,
    horigins, checkProduction_withOwners hproduction agent reviewer,
    complete_eq_ok.mpr ⟨o, ho, hpg, rfl⟩⟩
  · refine validateSlack_eq_ok.mpr ⟨hcomplete, fun r hr => ⟨(hall r hr).1, ?_⟩⟩
    simpa [Config.withOwners, ids, AList.singleton] using hslack r hr
  · refine checkTokens_eq_ok.mpr ⟨fun tok ha hb => ?_, fun tok _ hb => ?_, fun tok _ hb => ?_⟩
    · rw [AList.mem_keys] at ha hb
      have heq := (List.mem_singleton.mp ha).symm.trans (List.mem_singleton.mp hb)
      have hdiff : List.replicate 24 98 ≠ (List.replicate 24 97 : Bytes) := by decide
      exact hdiff heq.symm
    all_goals exact absurd hb (AList.notMem_empty tok)
  · refine checkDuties_eq_ok.mpr ?_
    simpa [Config.withOwners, ids, AList.singleton] using hne

/-- No agent is recorded as the approver of a held action: not through a static key, whose
identity is that of a reviewer or an admin, and not through Slack, whose identity is one of
the emails that the app was built with. -/
def Separated (table : CaseTable) (c : Config) : Prop :=
  (∀ a ∈ ids c.apiKeys, a ∉ ids c.reviewerAPIKeys ∧ a ∉ ids c.adminAPIKeys) ∧
  ∀ a ∈ ids c.apiKeys, ∀ e ∈ Slack.newReviewers table c.slack.reviewers,
    toLower table a ≠ toLower table e

/-- Each reviewer is also listed without the space around the entry. -/
def ListedTrimmed (table : CaseTable) (reviewers : List Bytes) : Prop :=
  ∀ r ∈ reviewers, ∃ r' ∈ reviewers, toLower table r' = toLower table (trimSpace r)

lemma separated_of_listed (h : validate env c = .ok c')
    (hlisted : ListedTrimmed env.table c'.slack.reviewers) : Separated env.table c' := by
  have hacc := accepted_of_validate h
  refine ⟨hacc.duties, fun a ha e he heq => ?_⟩
  obtain ⟨r, hr, rfl⟩ := List.mem_map.mp (List.mem_of_mem_filter he)
  obtain ⟨r', hr', hsame⟩ := hlisted r hr
  rw [toLower_toLower] at heq
  exact (hacc.slack r' hr').2 a ha (hsame.trans heq.symm)

lemma normalised_mem {table : CaseTable} {reviewers : List Bytes} {r : Bytes}
    (hr : r ∈ reviewers) (hmail : 64 ∈ r) :
    toLower table (trimSpace r) ∈ Slack.newReviewers table reviewers := by
  refine List.mem_filter.mpr ⟨List.mem_map_of_mem hr, bne_iff_ne.mpr (toLower_ne_nil ?_)⟩
  exact List.ne_nil_of_mem (mem_trimFunc (by decide) (by decide) hmail)

/-- With a given list of reviewers the duties are separated, whatever the rest of the
configuration, exactly if each reviewer is also listed without space around the entry. -/
theorem duties_separated_iff (env : Setting) (c₀ c₁ : Config) (h : validate env c₀ = .ok c₁) :
    (∀ c c', validate env c = .ok c' → c.slack.reviewers = c₀.slack.reviewers →
      Separated env.table c') ↔ ListedTrimmed env.table c₀.slack.reviewers := by
  constructor
  · intro hall r hr
    by_contra hnot
    push Not at hnot
    -- The trimmed entry, as an agent, passes the check.
    have hne : trimSpace r ≠ trimSpace r ++ [0] := by simp
    obtain ⟨c', hc'⟩ := validate_withOwners h hne hnot
    have hmail : 64 ∈ r := by
      obtain ⟨o, rfl⟩ := result_of_validate h
      exact ((accepted_of_validate h).slack r hr).1
    have hsep := (hall _ c' hc' rfl).2
    obtain ⟨o, rfl⟩ := result_of_validate hc'
    have hagent : trimSpace r ∈
        ids (c₀.withOwners (trimSpace r) (trimSpace r ++ [0])).apiKeys :=
      List.mem_singleton.mpr rfl
    exact hsep _ hagent _ (normalised_mem hr hmail) (toLower_toLower _).symm
  · intro hlisted c c' hc heq
    refine separated_of_listed hc ?_
    obtain ⟨o, rfl⟩ := result_of_validate hc
    exact heq ▸ hlisted

end Duties

section Sample

def lowerLetter (r : ℕ) : ℕ := if 65 ≤ r ∧ r ≤ 90 then r + 32 else r

lemma scalar_lowerLetter (r : ℕ) (hr : Utf8.Scalar r) : Utf8.Scalar (lowerLetter r) := by
  simp only [Utf8.Scalar, lowerLetter] at hr ⊢
  split
  · omega
  · exact hr

lemma lowerLetter_lowerLetter (r : ℕ) : lowerLetter (lowerLetter r) = lowerLetter r := by
  by_cases h : 65 ≤ r ∧ r ≤ 90
  · have heq : lowerLetter r = r + 32 := if_pos h
    rw [heq, lowerLetter, if_neg (by omega)]
  · have heq : lowerLetter r = r := if_neg h
    rw [heq, heq]

/-- The case tables without letters beyond ASCII. -/
def asciiCase : CaseTable :=
  ⟨lowerLetter, fun _ _ => rfl, scalar_lowerLetter, lowerLetter_lowerLetter⟩

def sampleSetting : Setting where
  table := asciiCase
  parseURL _ := some (lit "https", lit "tools.example")
  allowDevCredentials := []
  order := ⟨fun _ _ entries => entries, fun _ _ entries => .refl entries⟩

def sampleConfig (agent reviewer : String) : Config where
  targetURL := lit "https://tools.example"
  postgresDSN := []
  logLevel := lit "info"
  apiKeys := .singleton (lit "agent-token") (lit agent)
  reviewerAPIKeys := .singleton (lit "reviewer-token") (lit "bob")
  adminAPIKeys := ∅
  allowedOrigins := [lit "*"]
  environment := lit "development"
  readTimeout := 0
  readHeaderTimeout := 0
  writeTimeout := 0
  idleTimeout := 0
  shutdownDrainDelay := 0
  maxRequestBodyBytes := 0
  pgMaxOpenConns := 25
  tlsCertFile := []
  tlsKeyFile := []
  tlsTerminatedUpstream := false
  policyReloadInterval := 0
  oidc := ⟨[], [], [], [], [], [], [], [], [], [], 0, 0, []⟩
  consoleURL := []
  notify := ⟨[], [], []⟩
  slack := ⟨lit "xoxb", lit "secret", lit "C1", [], [lit reviewer]⟩

theorem duties_separated_plain : ∃ c', validate sampleSetting
    (sampleConfig "agent-1" "alice@example.com") = .ok c' ∧ Separated asciiCase c' := by
  have hok : ∃ c', validate sampleSetting (sampleConfig "agent-1" "alice@example.com") = .ok c' :=
    ⟨_, rfl⟩
  obtain ⟨c', hc'⟩ := hok
  refine ⟨c', hc', (duties_separated_iff sampleSetting _ c' hc').mpr ?_ _ c' hc' rfl⟩
  intro r hr
  obtain rfl := List.mem_singleton.mp hr
  exact ⟨_, hr, rfl⟩

/-- A reviewer with a space before the name is not recognised as the agent of that name. -/
theorem padded_reviewer_accepted : ∃ c', validate sampleSetting
    (sampleConfig "alice@example.com" " alice@example.com") = .ok c' ∧
    lit "alice@example.com" ∈ ids c'.apiKeys ∧
    lit "alice@example.com" ∈ Slack.newReviewers asciiCase c'.slack.reviewers :=
  ⟨_, rfl, by decide, by decide⟩

end Sample

end KiteRail.Startup
