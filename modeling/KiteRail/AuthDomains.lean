import KiteRail.AuthChains

namespace KiteRail.Auth
open Bytes Header Startup
open Proxy (Identity Request Role)

section Lookup
variable {order : MapOrder} {token : Bytes}

lemma foldl_found {entries : List (Sigma fun _ : Bytes => Identity)} (h : entries.NodupKeys)
    (found : Option Identity) :
    entries.foldl (fun found e => if e.1 = token then some e.2 else found) found =
      (entries.dlookup token).or found := by
  induction entries generalizing found with
  | nil => rfl
  | cons e entries ih =>
    obtain ⟨name, identity⟩ := e
    obtain ⟨hnot, hrest⟩ := List.nodupKeys_cons.mp h
    rw [List.foldl_cons, ih hrest]
    by_cases heq : name = token
    · subst heq
      rw [if_pos rfl, List.dlookup_eq_none.mpr hnot, List.dlookup_cons_eq]
      rfl
    · rw [if_neg heq, List.dlookup_cons_ne _ _ (Ne.symm heq)]

lemma lookupIdentity_eq (identities : Identities) :
    lookupIdentity order identities token = identities.lookup token := by
  have hperm := order.perm 10 identities.entries
  have hnodup := (List.perm_nodupKeys hperm).mpr identities.nodupKeys
  rw [lookupIdentity, foldl_found hnodup, Option.or_none, List.perm_dlookup token hnodup hperm]
  rfl

lemma lookup_addOwners {role : Role} {keys : List (Sigma fun _ : Bytes => Bytes)}
    (h : keys.NodupKeys) (m : Identities) :
    (addOwners role keys m).lookup token =
      ((keys.dlookup token).map fun id => (⟨id, role⟩ : Identity)).or (m.lookup token) := by
  induction keys generalizing m with
  | nil => rfl
  | cons k keys ih =>
    obtain ⟨name, id⟩ := k
    obtain ⟨hnot, hrest⟩ := List.nodupKeys_cons.mp h
    rw [addOwners, List.foldl_cons]
    refine (ih hrest _).trans ?_
    by_cases heq : name = token
    · subst heq
      rw [List.dlookup_eq_none.mpr hnot, List.dlookup_cons_eq, AList.lookup_insert]
      rfl
    · rw [List.dlookup_cons_ne _ _ (Ne.symm heq), AList.lookup_insert_ne (Ne.symm heq)]

def owner (role : Role) (keys : Keys) (token : Bytes) : Option Identity :=
  (keys.lookup token).map fun id => ⟨id, role⟩

lemma lookup_identities (c : Config) : (identities order c).lookup token =
    (owner .admin c.adminAPIKeys token).or
      ((owner .reviewer c.reviewerAPIKeys token).or (owner .agent c.apiKeys token)) := by
  have hvisit : ∀ (place : ℕ) (keys : Keys),
      (order.visit place keys.entries).NodupKeys ∧
      (order.visit place keys.entries).dlookup token = keys.lookup token := fun place keys => by
    have hperm := order.perm place keys.entries
    have hnodup := (List.perm_nodupKeys hperm).mpr keys.nodupKeys
    exact ⟨hnodup, List.perm_dlookup token hnodup hperm⟩
  rw [identities, lookup_addOwners (hvisit 13 _).1, lookup_addOwners (hvisit 12 _).1,
    lookup_addOwners (hvisit 11 _).1, (hvisit 13 _).2, (hvisit 12 _).2, (hvisit 11 _).2,
    AList.lookup_empty, Option.or_none]
  rfl

end Lookup

section Owners
variable {env : Setting} {c : Config} {order : MapOrder} {t : Bytes} {i : Identity}

lemma owner_eq_some {role : Role} {keys : Keys} :
    owner role keys t = some i ↔ keys.lookup t = some i.id ∧ i.role = role := by
  rw [owner, Option.map_eq_some_iff]
  constructor
  · rintro ⟨id, hid, rfl⟩
    exact ⟨hid, rfl⟩
  · rintro ⟨hid, rfl⟩
    exact ⟨i.id, hid, rfl⟩

lemma owner_eq_none {role : Role} {keys : Keys} (h : t ∉ keys) : owner role keys t = none := by
  rw [owner, AList.lookup_eq_none.mpr h]
  rfl

lemma identities_eq_some (h : Accepted env c) : (identities order c).lookup t = some i ↔
    owner .agent c.apiKeys t = some i ∨ owner .reviewer c.reviewerAPIKeys t = some i ∨
      owner .admin c.adminAPIKeys t = some i := by
  rw [lookup_identities]
  by_cases hadmin : t ∈ c.adminAPIKeys
  · rw [owner_eq_none (h.admins.symm t hadmin), owner_eq_none (h.humans.symm t hadmin)]
    simp
  · rw [owner_eq_none hadmin, Option.none_or]
    by_cases hreviewer : t ∈ c.reviewerAPIKeys
    · rw [owner_eq_none (h.reviewers.symm t hreviewer)]
      simp
    · rw [owner_eq_none hreviewer]
      simp

lemma identities_agent (h : Accepted env c) :
    (identities order c).lookup t = some i ∧ isAgent i.role = true ↔
      owner .agent c.apiKeys t = some i := by
  rw [identities_eq_some h]
  constructor
  · rintro ⟨hagent | hreviewer | hadmin, hrole⟩
    · exact hagent
    · simp [(owner_eq_some.mp hreviewer).2, isAgent] at hrole
    · simp [(owner_eq_some.mp hadmin).2, isAgent] at hrole
  · intro hagent
    exact ⟨.inl hagent, by rw [(owner_eq_some.mp hagent).2]; rfl⟩

lemma identities_human (h : Accepted env c) :
    (identities order c).lookup t = some i ∧ isHuman i.role = true ↔
      owner .reviewer c.reviewerAPIKeys t = some i ∨ owner .admin c.adminAPIKeys t = some i := by
  rw [identities_eq_some h]
  constructor
  · rintro ⟨hagent | hreviewer | hadmin, hrole⟩
    · simp [(owner_eq_some.mp hagent).2, isHuman] at hrole
    · exact .inl hreviewer
    · exact .inr hadmin
  · rintro (hreviewer | hadmin)
    · exact ⟨.inr (.inl hreviewer), by rw [(owner_eq_some.mp hreviewer).2]; rfl⟩
    · exact ⟨.inr (.inr hadmin), by rw [(owner_eq_some.mp hadmin).2]; rfl⟩

end Owners

section Chains
variable {α : Type} {d : Deps} {r : Request} {next : Handler α} {a : α}

def bearerIdentity (d : Deps) (r : Request) : Option Identity :=
  if bearerPrefix <+: r.header.get (lit "Authorization") then
    d.identities.lookup ((r.header.get (lit "Authorization")).drop bearerPrefix.length)
  else none

lemma bearerIdentity_eq_some {i : Identity} : bearerIdentity d r = some i ↔
    ∃ t, r.header.get (lit "Authorization") = bearerPrefix ++ t ∧
      d.identities.lookup t = some i := by
  rw [bearerIdentity]
  constructor
  · intro h
    split at h
    · rename_i hpre
      obtain ⟨t, ht⟩ := hpre
      rw [← ht, List.drop_left] at h
      exact ⟨t, ht.symm, h⟩
    · simp at h
  · rintro ⟨t, ht, h⟩
    rw [ht, if_pos (List.prefix_append _ _), List.drop_left]
    exact h

lemma middleware_eq_served : middleware d.order d.identities next r = .served a ↔
    ∃ i, bearerIdentity d r = some i ∧ next { r with identity := some i } = .served a := by
  simp only [middleware, bearerIdentity, lookupIdentity_eq]
  by_cases hpre : bearerPrefix <+: r.header.get (lit "Authorization")
  · rw [if_neg (not_not.mpr hpre), if_pos hpre]
    cases d.identities.lookup ((r.header.get (lit "Authorization")).drop bearerPrefix.length) with
    | none => simp
    | some i => simp
  · rw [if_pos hpre, if_neg hpre]
    simp

/-- What is set aside: the server serves, and the request is no preflight and comes from no
origin that is refused. -/
structure Admitted (d : Deps) (r : Request) : Prop where
  ready : d.ready = true
  method : r.method ≠ lit "OPTIONS"
  origin : originAdmitted (originAllowed d.allowedOrigins) r = true

lemma outer_eq_served : corsMiddleware d.allowedOrigins (drainMiddleware d.ready next) r =
    .served a ↔ Admitted d r ∧ next r = .served a := by
  simp only [corsMiddleware, drainMiddleware]
  constructor
  · intro h
    split at h
    · simp at h
    rename_i horigin
    split at h
    · simp at h
    rename_i hmethod
    split at h
    · rename_i hready
      exact ⟨⟨hready, hmethod, not_not.mp horigin⟩, h⟩
    · simp at h
  · rintro ⟨⟨hready, hmethod, horigin⟩, h⟩
    rw [if_neg (not_not.mpr horigin), if_neg hmethod, if_pos hready]
    exact h

lemma requireRole_eq_served {allowed : Role → Bool} {i : Identity} (h : r.identity = some i) :
    requireRole allowed next r = .served a ↔ allowed i.role = true ∧ next r = .served a := by
  rw [requireRole, h]
  cases hrole : allowed i.role with
  | true => simp [hrole]
  | false => simp [hrole]

/-- Through the agents' chain go agents within their rates. -/
lemma agentChain_eq_served : agentChain d next r = .served a ↔ Admitted d r ∧
    ∃ i, bearerIdentity d r = some i ∧ isAgent i.role = true ∧ d.allow i.id = true ∧
      next { r with identity := some i } = .served a := by
  rw [agentChain, outer_eq_served, middleware_eq_served]
  refine and_congr_right fun _ => exists_congr fun i => and_congr_right fun _ => ?_
  simp only [rateLimiter]
  by_cases hallow : d.allow i.id = true
  · rw [if_pos hallow, requireRole_eq_served rfl]
    simp [hallow]
  · rw [if_neg hallow]
    simp [hallow]

/-- The identity of a human's request, and whether a session gives it. -/
def humanIdentity (d : Deps) (r : Request) : Option (Identity × Bool) :=
  if r.header.get (lit "Authorization") ≠ [] then (bearerIdentity d r).map fun i => (i, false)
  else
    match d.sessions with
    | none => (bearerIdentity d r).map fun i => (i, false)
    | some authenticateSession => (authenticateSession r).map fun i => (i, true)

/-- The request could not have been made by another site. -/
def Protected (d : Deps) (r : Request) : Prop :=
  r.header.get csrfHeader = csrfHeaderValue ∧
    originAdmitted (originAllowed d.allowedOrigins) r = true

lemma middleware_eq_served_token : middleware d.order d.identities next r = .served a ↔
    ∃ i bySession, (bearerIdentity d r).map (fun i => (i, false)) = some (i, bySession) ∧
      (bySession = true → safeMethod r.method = true ∨ Protected d r) ∧
      next { r with identity := some i } = .served a := by
  rw [middleware_eq_served]
  constructor
  · rintro ⟨i, hi, h⟩
    exact ⟨i, false, by rw [hi]; rfl, by simp, h⟩
  · rintro ⟨i, bySession, hi, -, h⟩
    obtain ⟨j, hj, heq⟩ := Option.map_eq_some_iff.mp hi
    obtain ⟨rfl, rfl⟩ := Prod.mk.inj heq
    exact ⟨j, hj, h⟩

lemma humanMiddleware_eq_served :
    humanMiddleware d.order d.identities d.sessions (originAllowed d.allowedOrigins) next r =
      .served a ↔ ∃ i bySession, humanIdentity d r = some (i, bySession) ∧
        (bySession = true → safeMethod r.method = true ∨ Protected d r) ∧
        next { r with identity := some i } = .served a := by
  simp only [humanMiddleware, humanIdentity]
  by_cases hauth : r.header.get (lit "Authorization") ≠ []
  · rw [if_pos hauth, if_pos hauth]
    exact middleware_eq_served_token
  rw [if_neg hauth, if_neg hauth]
  cases d.sessions with
  | none => exact middleware_eq_served_token
  | some authenticateSession =>
    simp only
    cases authenticateSession r with
    | none => simp
    | some i =>
      have hcross : ¬ (¬ safeMethod r.method = true ∧ (r.header.get csrfHeader ≠ csrfHeaderValue ∨
          ¬ originAdmitted (originAllowed d.allowedOrigins) r = true)) ↔
          (safeMethod r.method = true ∨ Protected d r) := by
        rw [Protected]
        tauto
      simp only [Option.map_some, Option.some.injEq, Prod.mk.injEq]
      split
      · rename_i hrefused
        have hnot := not_iff_not.mpr hcross |>.mp (not_not.mpr hrefused)
        simp only [reduceCtorEq, false_iff, not_exists, not_and]
        rintro j bySession ⟨rfl, rfl⟩ hsafe
        exact absurd (hsafe rfl) hnot
      · rename_i hpass
        constructor
        · exact fun h => ⟨i, true, ⟨rfl, rfl⟩, fun _ => hcross.mp hpass, h⟩
        · rintro ⟨j, bySession, ⟨rfl, rfl⟩, -, h⟩
          exact h

/-- Through the humans' chain go reviewers and admins. -/
lemma humanChain_eq_served : humanChain d next r = .served a ↔ Admitted d r ∧
    ∃ i bySession, humanIdentity d r = some (i, bySession) ∧
      (bySession = true → safeMethod r.method = true ∨ Protected d r) ∧
      isHuman i.role = true ∧ next { r with identity := some i } = .served a := by
  rw [humanChain, outer_eq_served, humanMiddleware_eq_served]
  refine and_congr_right fun _ => exists_congr fun i => exists_congr fun bySession => ?_
  rw [requireRole_eq_served rfl]

lemma bearerIdentity_of_nil (h : r.header.get (lit "Authorization") = []) :
    bearerIdentity d r = none := by
  rw [bearerIdentity, h, if_neg]
  decide

lemma bySession_of_nil (h : r.header.get (lit "Authorization") = []) {i : Identity}
    {bySession : Bool} (hi : humanIdentity d r = some (i, bySession)) : bySession = true := by
  simp only [humanIdentity, h, bearerIdentity_of_nil h] at hi
  rw [if_neg (by simp)] at hi
  cases hs : d.sessions with
  | none => simp [hs] at hi
  | some authenticateSession =>
    simp only [hs, Option.map_eq_some_iff, Prod.mk.injEq] at hi
    obtain ⟨-, -, -, rfl⟩ := hi
    rfl

end Chains

section Domains
variable {env : Setting} {c : Config} {order : MapOrder} {ready : Bool} {allow : Bytes → Bool}
variable {active : Bytes → Option Identity} {r : Request}

/-- The handler behind the chain is reached, with the identity in the request's context. -/
def Reached (chain : Handler (Option Identity) → Handler (Option Identity)) (r : Request)
    (i : Identity) : Prop :=
  chain (fun r => .served r.identity) r = .served (some i)

def AgentToken (c : Config) (v : Bytes) (i : Identity) : Prop :=
  ∃ t, v = bearerPrefix ++ t ∧ c.apiKeys.lookup t = some i.id ∧ i.role = .agent

def HumanToken (c : Config) (v : Bytes) (i : Identity) : Prop :=
  ∃ t, v = bearerPrefix ++ t ∧ (c.reviewerAPIKeys.lookup t = some i.id ∧ i.role = .reviewer ∨
    c.adminAPIKeys.lookup t = some i.id ∧ i.role = .admin)

lemma reached_agent_iff (h : Accepted env c) (hin : Admitted (deps order c ready allow active) r)
    (hrate : ∀ id, allow id = true) (i : Identity) :
    Reached (agentChain (deps order c ready allow active)) r i ↔
      AgentToken c (r.header.get (lit "Authorization")) i := by
  rw [Reached, agentChain_eq_served, AgentToken]
  simp only [bearerIdentity_eq_some, Answer.served.injEq, Option.some.injEq]
  constructor
  · rintro ⟨-, j, ⟨t, hv, hj⟩, hrole, -, rfl⟩
    exact ⟨t, hv, owner_eq_some.mp ((identities_agent h).mp ⟨hj, hrole⟩)⟩
  · rintro ⟨t, hv, howner⟩
    have hboth : (identities order c).lookup t = some i ∧ isAgent i.role = true :=
      (identities_agent h).mpr (owner_eq_some.mpr howner)
    obtain ⟨hi, hrole⟩ := hboth
    exact ⟨hin, i, ⟨t, hv, hi⟩, hrole, hrate i.id, rfl⟩

lemma humanIdentity_of_noCookie (h : sessionCookie c.oidc r = none) :
    humanIdentity (deps order c ready allow active) r =
      (bearerIdentity (deps order c ready allow active) r).map fun i => (i, false) := by
  simp only [humanIdentity]
  by_cases hauth : r.header.get (lit "Authorization") ≠ []
  · rw [if_pos hauth]
  rw [if_neg hauth, bearerIdentity_of_nil (not_not.mp hauth)]
  cases henabled : c.oidc.enabled with
  | true => simp [deps, henabled, authenticateSession, h]
  | false => simp [deps, henabled]

lemma humanToken_of_bearer (h : Accepted env c) {i : Identity} (hrole : isHuman i.role = true)
    (hi : bearerIdentity (deps order c ready allow active) r = some i) :
    HumanToken c (r.header.get (lit "Authorization")) i := by
  obtain ⟨t, hv, hi⟩ := bearerIdentity_eq_some.mp hi
  refine ⟨t, hv, ?_⟩
  rcases (identities_human h).mp ⟨hi, hrole⟩ with hreviewer | hadmin
  · exact .inl (owner_eq_some.mp hreviewer)
  · exact .inr (owner_eq_some.mp hadmin)

lemma reached_human_iff (h : Accepted env c) (hin : Admitted (deps order c ready allow active) r)
    (hcookie : sessionCookie c.oidc r = none) (i : Identity) :
    Reached (humanChain (deps order c ready allow active)) r i ↔
      HumanToken c (r.header.get (lit "Authorization")) i := by
  rw [Reached, humanChain_eq_served, humanIdentity_of_noCookie hcookie]
  simp only [Option.map_eq_some_iff, Prod.mk.injEq, Answer.served.injEq, Option.some.injEq]
  constructor
  · rintro ⟨-, j, bySession, ⟨k, hk, rfl, -⟩, -, hrole, rfl⟩
    exact humanToken_of_bearer h hrole hk
  · rintro ⟨t, hv, howner⟩
    have howner' : owner .reviewer c.reviewerAPIKeys t = some i ∨
        owner .admin c.adminAPIKeys t = some i := by rwa [owner_eq_some, owner_eq_some]
    have hboth : (identities order c).lookup t = some i ∧ isHuman i.role = true :=
      (identities_human h).mpr howner'
    obtain ⟨hi, hrole⟩ := hboth
    have hbearer := bearerIdentity_eq_some (d := deps order c ready allow active).mpr ⟨t, hv, hi⟩
    exact ⟨hin, i, false, ⟨i, hbearer, rfl, rfl⟩, by simp, hrole, rfl⟩

/-- The one chain that a header opens is settled by the map that holds its token. -/
lemma tokens_disjoint (h : Accepted env c) {v : Bytes} {i j : Identity} (hi : AgentToken c v i) :
    ¬ HumanToken c v j := by
  obtain ⟨t, rfl, hagent, -⟩ := hi
  rintro ⟨t', hv, hhuman⟩
  obtain rfl := List.append_cancel_left hv
  have hmem : t ∈ c.apiKeys := AList.lookup_isSome.mp (by rw [hagent]; rfl)
  rcases hhuman with ⟨hreviewer, -⟩ | ⟨hadmin, -⟩
  · exact h.reviewers t hmem (AList.lookup_isSome.mp (by rw [hreviewer]; rfl))
  · exact h.admins t hmem (AList.lookup_isSome.mp (by rw [hadmin]; rfl))

end Domains

section Calls
variable {d : Deps} {r : Request} {call : Call}

lemma stripPrefix_eq_served {strip : Bytes} {next : Handler Call}
    (h : stripPrefix strip next r = .served call) :
    ∃ url, next { r with url := url } = .served call := by
  rw [stripPrefix] at h
  split at h
  · exact ⟨_, h⟩
  · simp at h

lemma quarantineHandler_method (h : quarantineHandler r = .served call) (hcall : call ≠ .read) :
    r.method = lit "POST" := by
  simp only [quarantineHandler] at h
  split at h
  · exact absurd (Answer.served.inj h).symm hcall
  split at h
  · rename_i hpost
    exact hpost.1
  split at h
  · rename_i hpost
    exact hpost.1
  · simp at h

lemma policyHandler_eq_served (h : policyHandler r = .served call) (hcall : call ≠ .read) :
    r.method = lit "POST" ∧ ∃ id, r.identity = some ⟨id, .admin⟩ ∧ call = .reload id := by
  simp only [policyHandler] at h
  split at h
  · exact absurd (Answer.served.inj h).symm hcall
  split at h
  · rename_i hpost
    rw [handleReload] at h
    split at h
    · rename_i id hid
      exact ⟨hpost.1, id, hid, (Answer.served.inj h).symm⟩
    · simp at h
  split at h
  · exact absurd (Answer.served.inj h).symm hcall
  split at h
  · simp at h
  · simp at h

/-- A session alone changes nothing. -/
lemma protected_of_served {next : Handler Call} {strip : Bytes}
    (hnext : ∀ r, next r = .served call → r.method = lit "POST")
    (h : humanChain d (stripPrefix strip next) r = .served call)
    (hnil : r.header.get (lit "Authorization") = []) : Protected d r := by
  obtain ⟨-, i, bySession, hi, hsafe, -, hserved⟩ := humanChain_eq_served.mp h
  obtain ⟨url, hurl⟩ := stripPrefix_eq_served hserved
  have hmethod := hnext _ hurl
  have hpost : r.method = lit "POST" := hmethod
  rcases hsafe (bySession_of_nil hnil hi) with hsafe | hprotected
  · rw [hpost] at hsafe
    exact absurd hsafe (by decide)
  · exact hprotected

lemma admin_of_reload {who : Bytes} (h : policiesRoute d r = .served (.reload who)) :
    ∃ bySession, humanIdentity d r = some (⟨who, .admin⟩, bySession) := by
  obtain ⟨-, i, bySession, hi, -, -, hserved⟩ := humanChain_eq_served.mp h
  obtain ⟨url, hurl⟩ := stripPrefix_eq_served hserved
  obtain ⟨-, id, hid, hcall⟩ := policyHandler_eq_served hurl (by simp)
  obtain rfl := Call.reload.inj hcall
  obtain rfl := Option.some.inj hid
  exact ⟨bySession, hi⟩

end Calls

/-- The trust domains do not overlap. The first part holds of requests with any cookies, so
a session never opens the agents' chain. -/
theorem trust_domains_apart (env : Setting) (c₀ c : Config) (hv : validate env c₀ = .ok c)
    (order : MapOrder) (ready : Bool) (allow : Bytes → Bool) (active : Bytes → Option Identity)
    (hrate : ∀ id, allow id = true) (r : Request)
    (hin : Admitted (deps order c ready allow active) r) :
    (∀ i, Reached (agentChain (deps order c ready allow active)) r i ↔
      AgentToken c (r.header.get (lit "Authorization")) i) ∧
    (sessionCookie c.oidc r = none →
      (∀ i, Reached (humanChain (deps order c ready allow active)) r i ↔
        HumanToken c (r.header.get (lit "Authorization")) i) ∧
      ∀ who, policiesRoute (deps order c ready allow active) r = .served (.reload who) →
        ∃ t, r.header.get (lit "Authorization") = bearerPrefix ++ t ∧
          c.adminAPIKeys.lookup t = some who) ∧
    (∀ r' i j, Admitted (deps order c ready allow active) r' → sessionCookie c.oidc r' = none →
      r'.header.get (lit "Authorization") = r.header.get (lit "Authorization") →
      Reached (agentChain (deps order c ready allow active)) r i →
      ¬ Reached (humanChain (deps order c ready allow active)) r' j) ∧
    (Apart c.apiKeys c.reviewerAPIKeys ∧ Apart c.apiKeys c.adminAPIKeys ∧
      Apart c.reviewerAPIKeys c.adminAPIKeys) ∧
    ∀ call, call ≠ .read → r.header.get (lit "Authorization") = [] →
      (quarantineRoute (deps order c ready allow active) r = .served call ∨
        policiesRoute (deps order c ready allow active) r = .served call) →
      r.header.get (lit "X-Requested-With") = lit "elodea" ∧
        (r.header.get (lit "Origin") = [] ∨
          originAllowed c.allowedOrigins (r.header.get (lit "Origin")) = true) := by
  have hacc := accepted_of_validate hv
  refine ⟨reached_agent_iff hacc hin hrate, fun hcookie => ⟨reached_human_iff hacc hin hcookie,
    fun who hreload => ?_⟩, fun r' i j hin' hcookie' hsame hagent hhuman => ?_,
    ⟨hacc.reviewers, hacc.admins, hacc.humans⟩, fun call hcall hnil hserved => ?_⟩
  · obtain ⟨bySession, hi⟩ := admin_of_reload hreload
    rw [humanIdentity_of_noCookie hcookie] at hi
    obtain ⟨i, hi, heq⟩ := Option.map_eq_some_iff.mp hi
    obtain ⟨rfl, -⟩ := Prod.mk.inj heq
    obtain ⟨t, ht, ⟨-, hrole⟩ | ⟨hadmin, -⟩⟩ := humanToken_of_bearer hacc rfl hi
    · simp at hrole
    · exact ⟨t, ht, hadmin⟩
  · have htoken := (reached_agent_iff hacc hin hrate i).mp hagent
    rw [← hsame] at htoken
    exact tokens_disjoint hacc htoken ((reached_human_iff hacc hin' hcookie' j).mp hhuman)
  · have hprotected : Protected (deps order c ready allow active) r := by
      rcases hserved with hq | hp
      · exact protected_of_served (fun r h => quarantineHandler_method h hcall) hq hnil
      · exact protected_of_served (fun r h => (policyHandler_eq_served h hcall).1) hp hnil
    have horigin := hprotected.2
    rw [originAdmitted, Bool.or_eq_true, beq_iff_eq] at horigin
    exact ⟨hprotected.1, horigin⟩

def sampleRequest (authorization : String) : Request where
  method := lit "POST"
  url := ⟨[], [], lit "/", [], []⟩
  header := .singleton (lit "Authorization") [lit authorization]
  body := ⟨[], none⟩
  identity := none

theorem trust_domains_apart_agent : ∃ c,
    validate sampleSetting (sampleConfig "agent-1" "alice@example.com") = .ok c ∧
    Reached (agentChain (deps sampleSetting.order c true (fun _ => true) fun _ => none))
      (sampleRequest "Bearer agent-token") ⟨lit "agent-1", .agent⟩ := by
  have hok : ∃ c, validate sampleSetting (sampleConfig "agent-1" "alice@example.com") = .ok c ∧
      c.apiKeys = .singleton (lit "agent-token") (lit "agent-1") := ⟨_, rfl, rfl⟩
  obtain ⟨c, hc, hkeys⟩ := hok
  have hapart := trust_domains_apart sampleSetting _ c hc sampleSetting.order true (fun _ => true)
    (fun _ => none) (fun _ => rfl) (sampleRequest "Bearer agent-token")
    ⟨rfl, by decide, by rw [originAdmitted]; rfl⟩
  refine ⟨c, hc, (hapart.1 _).mpr ⟨lit "agent-token", by decide, ?_, rfl⟩⟩
  rw [hkeys]
  decide

end KiteRail.Auth
