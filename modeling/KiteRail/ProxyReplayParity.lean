import KiteRail.ProxyEnforcement

namespace KiteRail.Proxy
open Bytes Header Prog

section Headers
variable {header : Header} {key expected : Bytes}

/-- Ignoring case, only one canonical name matches. -/
lemma filter_equalFold {es : List (Sigma fun _ : Bytes => List Bytes)}
    (hnd : (es.map Sigma.fst).Nodup) (hc : ∀ e ∈ es, CanonicalName e.1)
    (hkey : CanonicalName key) (hexp : Utf8.Ascii expected)
    (hfold : lowerAscii key = lowerAscii expected) :
    es.filter (fun e => equalFold e.1 expected) =
      match es.dlookup key with
      | some vs => [⟨key, vs⟩]
      | none => [] := by
  induction es with
  | nil => rfl
  | cons e es ih =>
    obtain ⟨name, vs⟩ := e
    obtain ⟨hnotin, hnd⟩ := List.nodup_cons.mp hnd
    have hname : CanonicalName name := hc ⟨name, vs⟩ (by simp)
    have hrest := ih hnd fun e he => hc e (by simp [he])
    have hmatch : equalFold name expected = true ↔ name = key := by
      rw [equalFold_iff (ascii_of_token hname.1) hexp, ← hfold]
      exact ⟨fun h => hname.ext hkey h, fun h => by rw [h]⟩
    by_cases hk : name = key
    · subst hk
      have hnone : es.dlookup name = none :=
        List.dlookup_eq_none.mpr (by simpa [List.keys] using hnotin)
      simp only [List.filter_cons, hmatch.mpr rfl, if_true, hrest, hnone, List.dlookup_cons_eq]
    · have hno : equalFold name expected = false := by simpa using mt hmatch.mp hk
      simp only [List.filter_cons, hno, Bool.false_eq_true, if_false, hrest]
      rw [List.dlookup_cons_ne _ _ (Ne.symm hk)]

/-- On names as `net/http` delivers them, `singleHeader` reads one entry. -/
lemma singleHeader_canonical (hc : Canonical header) (hkey : CanonicalName key)
    (hexp : Utf8.Ascii expected) (hfold : lowerAscii key = lowerAscii expected) :
    singleHeader header expected =
      match header.lookup key with
      | some vs => (singleValue expected vs).map some
      | none => .ok none := by
  rw [singleHeader, filter_equalFold header.nodupKeys (fun e he => hc e.1
    (List.mem_keys_of_mem he)) hkey hexp hfold]
  change _ = match header.entries.dlookup key with | some vs => _ | none => _
  cases header.entries.dlookup key with
  | none => rfl
  | some vs => simp

lemma singleValue_ok {vs : List Bytes} {value : Bytes} (h : singleValue expected vs = .ok value) :
    vs = [value] ∧ Utf8.Ascii value := by
  match vs with
  | [] => simp [singleValue] at h
  | [v] =>
    simp only [singleValue] at h
    split_ifs at h with hempty htrim hrunes
    obtain rfl : v = value := Except.ok.inj h
    refine ⟨rfl, Utf8.ascii_of_runes fun r hr => ?_⟩
    by_contra hge
    refine hrunes (List.any_eq_true.mpr ⟨r, hr, ?_⟩)
    simp only [Bool.or_eq_true, decide_eq_true_eq]
    omega
  | _ :: _ :: _ => simp [singleValue] at h

/-- Storing keeps every header that the parser accepted. -/
lemma singleHeader_stored {stored : Header} (hc : Canonical header) (hs : Canonical stored)
    (hlook : ∀ k, stored.lookup k =
      (Mcp.captured k (header.lookup k)).map (List.map Utf8.sanitize))
    (hkey : CanonicalName key) (hkept : Mcp.keptName (toLower key) = true)
    (hexp : Utf8.Ascii expected) (hfold : lowerAscii key = lowerAscii expected)
    {value : Option Bytes} (hok : singleHeader header expected = .ok value) :
    singleHeader stored expected = .ok value := by
  rw [singleHeader_canonical hc hkey hexp hfold] at hok
  rw [singleHeader_canonical hs hkey hexp hfold, hlook]
  cases hl : header.lookup key with
  | none => simpa [hl, Mcp.captured] using hok
  | some vs =>
    rw [hl] at hok
    cases hv : singleValue expected vs with
    | error e => simp [hv, Except.map] at hok
    | ok v =>
      obtain ⟨rfl, hascii⟩ := singleValue_ok hv
      simpa [Mcp.captured, hkept, Utf8.sanitize_of_ascii hascii, hv] using hok

end Headers

/-- The headers that the parser reads, with the names they are delivered under. -/
def mirrored : List (Bytes × Bytes) :=
  [(lit "Mcp-Method", lit "Mcp-Method"), (lit "Mcp-Name", lit "Mcp-Name"),
    (lit "Mcp-Protocol-Version", lit "MCP-Protocol-Version")]

lemma mirrored_kept : ∀ m ∈ mirrored, CanonicalName m.1 ∧ Mcp.keptName (toLower m.1) = true ∧
    Utf8.Ascii m.2 ∧ lowerAscii m.1 = lowerAscii m.2 := by
  unfold CanonicalName Utf8.Ascii
  decide +kernel

lemma bind_eq_ok_iff {ε α β : Type} {x : Except ε α} {f : α → Except ε β} {b : β} :
    x >>= f = .ok b ↔ ∃ a, x = .ok a ∧ f a = .ok b := by
  cases x with
  | error e => simp [Bind.bind, Except.bind]
  | ok a => simp [Bind.bind, Except.bind]

/-- Accepting reads each of those headers without error, and nothing else. -/
lemma validateMirroredHeaders_congr {header stored : Header} {ing : IngressRequest}
    {version : Option Bytes}
    (hsame : ∀ m ∈ mirrored, ∀ value, singleHeader header m.2 = .ok value →
      singleHeader stored m.2 = .ok value)
    (hok : validateMirroredHeaders header ing = .ok version) :
    validateMirroredHeaders stored ing = .ok version := by
  simp only [mirrored, List.mem_cons, List.not_mem_nil, or_false, forall_eq_or_imp,
    forall_eq] at hsame
  obtain ⟨hmethod, hname, hversion⟩ := hsame
  unfold validateMirroredHeaders at hok ⊢
  obtain ⟨method, h₁, hok⟩ := bind_eq_ok_iff.mp hok
  obtain ⟨_, h₂, hok⟩ := bind_eq_ok_iff.mp hok
  obtain ⟨name, h₃, hok⟩ := bind_eq_ok_iff.mp hok
  obtain ⟨_, h₄, hok⟩ := bind_eq_ok_iff.mp hok
  obtain ⟨v, h₅, hok⟩ := bind_eq_ok_iff.mp hok
  refine bind_eq_ok_iff.mpr ⟨method, hmethod _ h₁, ?_⟩
  refine bind_eq_ok_iff.mpr ⟨_, h₂, ?_⟩
  refine bind_eq_ok_iff.mpr ⟨name, hname _ h₃, ?_⟩
  refine bind_eq_ok_iff.mpr ⟨_, h₄, ?_⟩
  exact bind_eq_ok_iff.mpr ⟨v, hversion _ h₅, hok⟩

lemma parse_stored {header stored : Header} {body : Bytes} {inv : Invocation}
    (hc : Canonical header) (hs : Canonical stored)
    (hlook : ∀ k, stored.lookup k =
      (Mcp.captured k (header.lookup k)).map (List.map Utf8.sanitize))
    (hok : parse header body = .ok inv) : parse stored body = .ok inv := by
  unfold parse at hok ⊢
  cases hing : validateIngress body with
  | error e => simp [hing] at hok
  | ok ing =>
    simp only [hing] at hok ⊢
    cases hval : validateMirroredHeaders header ing with
    | error e => simp [hval] at hok
    | ok version =>
      have hstored : validateMirroredHeaders stored ing = .ok version := by
        refine validateMirroredHeaders_congr (fun m hm value hv => ?_) hval
        obtain ⟨hkey, hkept, hexp, hfold⟩ := mirrored_kept m hm
        exact singleHeader_stored hc hs hlook hkey hkept hexp hfold hv
      simpa [hval, hstored] using hok

/-- What the store holds for a request and reads back, in whatever order the columns
of the database keep the members of an object. -/
def ReadsBack (requestHeaders stored : Json) : Prop :=
  ∃ ms members, requestHeaders = .obj ms ∧ stored = .obj members ∧ members.Perm ms

lemma decode_held {r : Request} (hc : Canonical r.header) {body : Bytes} {inv : Invocation}
    {decision : ProxyDecision} {createdAt : Time} {stored : Json}
    (hback : ReadsBack (heldParams r body inv decision createdAt).requestHeaders stored) :
    ∃ headers, Mcp.decodeReplayHeaders (some stored) = .ok headers ∧ Canonical headers ∧
      ∀ k, headers.lookup k =
        (Mcp.captured k (r.header.lookup k)).map (List.map Utf8.sanitize) := by
  obtain ⟨ms, members, hms, rfl, hperm⟩ := hback
  obtain ⟨headers, hdec, hcan, hlook⟩ := Mcp.decodeReplayHeaders_stored
    (Mcp.canonical_captureReplayHeaders hc) ⟨ms, congrArg Except.ok hms, hperm⟩
  refine ⟨headers, hdec, hcan, fun k => ?_⟩
  rw [hlook, Mcp.lookup_captureReplayHeaders hc, Mcp.captured_captured]

/-- A held request comes from an accepted one that was evaluated once. -/
lemma held_of_runs {h : Handler} {r : Request} {tr : Trace} {reply : Reply}
    (hr : Runs (serveHTTP h r) tr reply) {arg : CreateQuarantineEntryParams}
    (harg : arg ∈ creates tr) :
    ∃ body inv decision time createdAt, Accepted h r body inv ∧
      evaluations tr = [(evalInput inv (agentFromContext r.identity) time, .ok decision)] ∧
      arg = heldParams r body inv decision createdAt := by
  rcases runs_serveHTTP hr with ⟨rfl, -⟩ | ⟨body, inv, ha, he⟩
  · simp [creates] at harg
  · cases he with
    | unevaluated time err => simp [creates] at harg
    | unrecorded time stamp decision entry err => simp [creates] at harg
    | recorded time stamp decision rest hrest =>
      obtain ⟨hev, -, hc⟩ := hrest.observe
      have hin : arg ∈ creates rest := by
        cases hl : h.ledgerStore <;> simpa [creates, hl] using harg
      split_ifs at hc with hq
      · obtain ⟨createdAt, hc⟩ := hc
        refine ⟨body, inv, decision, time, createdAt, ha, ?_, by simpa [hc] using hin⟩
        cases h.ledgerStore <;> simpa [evaluations] using hev
      · simp [hc] at hin

/-- Ingress and replay see the same action. -/
theorem recheck_sees_held_action (h : Handler) (r : Request) (hc : Canonical r.header)
    (tr : Trace) (reply : Reply) (hr : Runs (serveHTTP h r) tr reply)
    (arg : CreateQuarantineEntryParams) (harg : arg ∈ creates tr) (stored : Json)
    (hback : ReadsBack arg.requestHeaders stored) :
    ∃ input outcome headers inv, evaluations tr = [(input, outcome)] ∧
      Mcp.decodeReplayHeaders (some stored) = .ok headers ∧
      parse headers arg.payload = .ok inv ∧
      ∀ tr' result, Runs (policyRecheck arg.agentID arg.payload headers) tr' result →
        ∃ time, evaluations tr' = [({ input with timestamp := time }, result)] := by
  obtain ⟨body, inv, decision, time, createdAt, ha, hev, rfl⟩ := held_of_runs hr harg
  obtain ⟨headers, hdec, hcan, hlook⟩ := decode_held hc hback
  have hparse : parse headers body = .ok inv := parse_stored hc hcan hlook ha.parsed
  refine ⟨_, _, headers, inv, hev, hdec, hparse, fun tr' result hrun => ?_⟩
  unfold policyRecheck at hrun
  simp only [heldParams, hparse, effect, perform, call_bind, ret_bind, runs_call_iff,
    runs_ret_iff] at hrun
  obtain ⟨t, _, rfl, outcome, _, rfl, rfl, rfl⟩ := hrun
  exact ⟨t, rfl⟩

def sampleMirrored : Request :=
  { sampleRequest with header := (∅ : Header).set (lit "Mcp-Method") (lit "tools/call") }

theorem recheck_sees_held_action_sample :
    let tr := ((serveHTTP sampleHandler sampleMirrored).replay (smoothly .quarantine)).1
    ∃ arg ∈ creates tr, ∃ input outcome headers inv, evaluations tr = [(input, outcome)] ∧
      Mcp.decodeReplayHeaders (some arg.requestHeaders) = .ok headers ∧
      parse headers arg.payload = .ok inv ∧
      ∀ tr' result, Runs (policyRecheck arg.agentID arg.payload headers) tr' result →
        ∃ time, evaluations tr' = [({ input with timestamp := time }, result)] := by
  intro tr
  have hr : Runs (serveHTTP sampleHandler sampleMirrored) tr _ := runs_replay _ _
  have hlen : (creates tr).length = 1 := by decide +kernel
  obtain ⟨arg, harg⟩ := List.exists_mem_of_length_pos (l := creates tr) (by omega)
  have hc : Canonical sampleMirrored.header := by
    have hkey : CanonicalName (canonicalKey (lit "Mcp-Method")) := by
      unfold CanonicalName
      decide +kernel
    intro name hn
    rcases (AList.mem_insert _).mp hn with rfl | hempty
    · exact hkey
    · exact absurd hempty (AList.notMem_empty name)
  obtain ⟨_, _, _, _, _, _, _, rfl⟩ := held_of_runs hr harg
  exact ⟨_, harg, recheck_sees_held_action sampleHandler sampleMirrored hc tr _ hr _ harg _
    ⟨_, _, rfl, rfl, .refl _⟩⟩

end KiteRail.Proxy
