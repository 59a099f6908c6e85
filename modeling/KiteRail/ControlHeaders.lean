import KiteRail.ProxyEnforcement
import KiteRail.QuarantineWorker

/-! The headers that only the server asserts. On the way through the proxy they are
taken out of what the agent sent and set from the server's own data; in a replay
nothing but transport metadata comes from the stored row. -/
namespace KiteRail
open Bytes Header Prog

namespace Header

/-- The map after setting fields in order. -/
def setAll (h : Header) (fields : List (Bytes × Bytes)) : Header :=
  fields.foldl (fun h f => h.set f.1 f.2) h

/-- The value that setting fields in order gives to a name: the last one counts. -/
def assigned (fields : List (Bytes × Bytes)) (name : Bytes) : Option (List Bytes) :=
  (fields.reverse.find? fun f => canonicalKey f.1 == name).map fun f => [f.2]

lemma lookup_setAll (h : Header) (fields : List (Bytes × Bytes)) (name : Bytes) :
    (h.setAll fields).lookup name = (assigned fields name).or (h.lookup name) := by
  induction fields using List.reverseRecOn with
  | nil => rfl
  | append_singleton fields f ih =>
    have hstep : h.setAll (fields ++ [f]) = (h.setAll fields).set f.1 f.2 := by
      simp [setAll]
    rw [hstep, set, assigned, List.reverse_append]
    by_cases hf : canonicalKey f.1 = name
    · subst hf
      simp
    · have hne : name ≠ canonicalKey f.1 := Ne.symm hf
      rw [AList.lookup_insert_ne hne, ih, assigned]
      simp [hf]

end Header

namespace Proxy

/-- The names that an agent must not assert, however their letters are spelled. -/
def IsControl (name : Bytes) : Prop :=
  canonicalKey name ∈ [lit "Authorization", lit "Proxy-Authorization", lit "Cookie",
    lit "Idempotency-Key"] ∨
  lit "X-Elodea-" <+: canonicalKey name ∨ lit "X-Kiterail-" <+: canonicalKey name

lemma agentControlled_iff (name : Bytes) : agentControlled name = true ↔ IsControl name := by
  simp [agentControlled, IsControl, or_assoc]

/-- The fields that the proxy asserts to the upstream. -/
def forwardFields (h : Handler) (identity : Option Identity) : List (Bytes × Bytes) :=
  (lit "X-Elodea-Agent", agentFromContext identity) ::
    if h.targetAuthToken = [] then []
    else [(lit "Authorization", lit "Bearer " ++ h.targetAuthToken)]

lemma assigned_forwardFields (h : Handler) (identity : Option Identity) (name : Bytes) :
    assigned (forwardFields h identity) name =
      if name = lit "X-Elodea-Agent" then some [agentFromContext identity]
      else if name = lit "Authorization" ∧ h.targetAuthToken ≠ []
        then some [lit "Bearer " ++ h.targetAuthToken]
      else none := by
  have hagent : canonicalKey (lit "X-Elodea-Agent") = lit "X-Elodea-Agent" := by decide
  have hauth : canonicalKey (lit "Authorization") = lit "Authorization" := by decide
  have hne : lit "Authorization" ≠ lit "X-Elodea-Agent" := by decide
  by_cases ht : h.targetAuthToken = []
  · by_cases hn : name = lit "X-Elodea-Agent"
    · simp [assigned, forwardFields, ht, hn, hagent]
    · simp [assigned, forwardFields, ht, hn, hagent, Ne.symm hn]
  · by_cases ha : name = lit "Authorization"
    · simp [assigned, forwardFields, ht, ha, hauth, hne]
    · by_cases hn : name = lit "X-Elodea-Agent"
      · simp [assigned, forwardFields, ht, hn, hagent, hauth, hne]
      · simp [assigned, forwardFields, ht, hn, ha, hagent, hauth, Ne.symm hn, Ne.symm ha]

lemma rewrite_header (h : Handler) (r : Request) (body : Bytes) :
    (rewrite h r body).header =
      (stripAgentControlledHeaders r.header.proxied).setAll (forwardFields h r.identity) := by
  unfold rewrite forwardFields setAll
  split_ifs
  · rfl
  · rfl

lemma lookup_strip (header : Header) (name : Bytes) :
    (stripAgentControlledHeaders header).lookup name =
      if agentControlled name then none else header.lookup name :=
  lookup_without agentControlled header name

lemma lookup_rewrite {name : Bytes} (hn : IsControl name) (h : Handler) (r : Request)
    (body : Bytes) :
    (rewrite h r body).header.lookup name = assigned (forwardFields h r.identity) name := by
  rw [rewrite_header, lookup_setAll, lookup_strip, if_pos ((agentControlled_iff name).mpr hn),
    Option.or_none]

/-- Whatever is forwarded went through the rewrite hook. -/
lemma rewrite_of_forwards {h : Handler} {r : Request} {tr : Trace} {reply : Reply}
    (hr : Runs (serveHTTP h r) tr reply) {out : OutRequest} (hout : out ∈ forwards tr) :
    ∃ body, out = rewrite h r body := by
  rcases runs_serveHTTP hr with ⟨rfl, -⟩ | ⟨body, inv, -, he⟩
  · simp [forwards] at hout
  · refine ⟨body, ?_⟩
    cases he with
    | unevaluated time err => simp [forwards] at hout
    | unrecorded time stamp decision entry err => simp [forwards] at hout
    | recorded time stamp decision rest hrest =>
      have hrest' : out ∈ forwards rest := by
        cases hl : h.ledgerStore <;> simpa [forwards, hl] using hout
      rw [hrest.observe.2.1] at hrest'
      split_ifs at hrest' with ha
      · simpa using hrest'
      · simp at hrest'

end Proxy

namespace QuarantineWorker
variable (wk : Worker)

/-- The fields that a replay asserts to the upstream. -/
def replayFields (entry : QuarantineStore.QuarantineEntry) (approvedBy : Bytes) :
    List (Bytes × Bytes) :=
  [(lit "Content-Type", lit "application/json"), (lit "X-Elodea-Agent", entry.agentID),
    (lit "X-Elodea-Quarantine-ID", entry.id), (lit "X-Elodea-Approved-By", approvedBy),
    (lit "Idempotency-Key", lit "kiterail-quarantine-" ++ entry.id)] ++
  if wk.targetAuthToken = [] then []
  else [(lit "Authorization", lit "Bearer " ++ wk.targetAuthToken)]

/-- The names under which a replay passes on what was stored. -/
def IsMetadata (name : Bytes) : Prop :=
  toLower name ∈ [lit "accept", lit "mcp-method", lit "mcp-name", lit "mcp-protocol-version"] ∨
  lit "mcp-param-" <+: toLower name

lemma isMetadata_of_kept {name : Bytes} (h : Mcp.keptName (toLower name) = true) :
    IsMetadata name := by
  simp only [Mcp.keptName, Bool.or_eq_true, beq_iff_eq, Bool.and_eq_true,
    List.isPrefixOf_iff_prefix] at h
  simp only [IsMetadata, List.mem_cons, List.not_mem_nil, or_false]
  tauto

lemma lookup_copied (hs : Header) (name : Bytes) :
    (hs.entries.foldl (fun h e => h.insert e.1 e.2) (∅ : Header)).lookup name =
      hs.lookup name := by
  simpa [without] using lookup_without (fun _ => false) hs name

lemma replayRequest_header (url : URL) (entry : QuarantineStore.QuarantineEntry)
    (approvedBy : Bytes) (hs : Header) :
    (replayRequest wk url entry approvedBy hs).header =
      (hs.entries.foldl (fun h e => h.insert e.1 e.2) (∅ : Header)).setAll
        (replayFields wk entry approvedBy) := by
  unfold replayRequest replayFields setAll
  split_ifs
  · rfl
  · rfl

lemma lookup_decoded {encoded : Option Json} {hs : Header}
    (hd : Mcp.decodeReplayHeaders encoded = .ok hs) {name : Bytes} (hn : ¬ IsMetadata name) :
    hs.lookup name = none := by
  apply AList.lookup_eq_none.mpr
  intro hmem
  unfold Mcp.decodeReplayHeaders at hd
  split at hd
  · obtain rfl := Except.ok.inj hd
    exact AList.notMem_empty name hmem
  · split at hd
    · obtain rfl := Except.ok.inj hd
      exact hn (isMetadata_of_kept (Mcp.keptName_of_mem hmem))
    · simp at hd

lemma lookup_replayRequest (url : URL) (entry : QuarantineStore.QuarantineEntry)
    (approvedBy : Bytes) {hs : Header}
    (hd : Mcp.decodeReplayHeaders (some entry.requestHeaders) = .ok hs) {name : Bytes}
    (hn : ¬ IsMetadata name) :
    (replayRequest wk url entry approvedBy hs).header.lookup name =
      assigned (replayFields wk entry approvedBy) name := by
  rw [replayRequest_header, lookup_setAll, lookup_copied, lookup_decoded hd hn, Option.or_none]

lemma runs_doReplay {wk} {url : URL} {entry : QuarantineStore.QuarantineEntry}
    {approvedBy : Bytes} {hs : Header} {tr : Proxy.Trace} {res : Bytes × Option GoError}
    (hu : wk.target = .ok url) (hd : Mcp.decodeReplayHeaders (some entry.requestHeaders) = .ok hs)
    (hr : Runs (doReplay wk entry approvedBy) tr res) :
    ∃ answer, tr = [⟨.httpDo entry.id (replayRequest wk url entry approvedBy hs), answer⟩] := by
  simp only [doReplay, hu, hd, effect, perform_bind, runs_call_iff] at hr
  obtain ⟨answer, rest, rfl, hr⟩ := hr
  have hrest : rest = [] := by
    cases answer with
    | error err => exact (runs_ret_iff.mp hr).1
    | ok status =>
      simp only at hr
      split_ifs at hr
      · exact (runs_ret_iff.mp hr).1
      · exact (runs_ret_iff.mp hr).1
  exact ⟨answer, by rw [hrest]⟩

end QuarantineWorker

open Proxy QuarantineWorker

/-- Agents do not choose control headers. Two forwarded requests of one identity agree
on all of them, and have the server's values; every other name passes the filter; and a
replay has, apart from transport metadata, the worker's own fields and no others. -/
theorem control_headers_server_owned :
    (∀ (h : Handler) (r₁ r₂ : Request), r₁.identity = r₂.identity →
      ∀ (tr₁ tr₂ : Trace) (reply₁ reply₂ : Reply),
      Runs (serveHTTP h r₁) tr₁ reply₁ → Runs (serveHTTP h r₂) tr₂ reply₂ →
      ∀ out₁ ∈ forwards tr₁, ∀ out₂ ∈ forwards tr₂, ∀ name, IsControl name →
        out₁.header.lookup name = out₂.header.lookup name ∧
        out₁.header.lookup name =
          if name = lit "X-Elodea-Agent" then some [agentFromContext r₁.identity]
          else if name = lit "Authorization" ∧ h.targetAuthToken ≠ []
            then some [lit "Bearer " ++ h.targetAuthToken]
          else none) ∧
    (∀ (header : Header) (name : Bytes), ¬ IsControl name →
      (stripAgentControlledHeaders header).lookup name = header.lookup name) ∧
    (∀ (wk : Worker) (url : URL) (entry : QuarantineStore.QuarantineEntry) (approvedBy : Bytes)
      (hs : Header), wk.target = .ok url →
      Mcp.decodeReplayHeaders (some entry.requestHeaders) = .ok hs →
      ∀ (tr : Trace) (res : Bytes × Option GoError), Runs (doReplay wk entry approvedBy) tr res →
      ∃ req answer, tr = [⟨.httpDo entry.id req, answer⟩] ∧
        ∀ name, ¬ IsMetadata name →
          req.header.lookup name = assigned (replayFields wk entry approvedBy) name) := by
  refine ⟨?_, ?_, ?_⟩
  · intro h r₁ r₂ hid tr₁ tr₂ reply₁ reply₂ hr₁ hr₂ out₁ ho₁ out₂ ho₂ name hn
    obtain ⟨body₁, rfl⟩ := rewrite_of_forwards hr₁ ho₁
    obtain ⟨body₂, rfl⟩ := rewrite_of_forwards hr₂ ho₂
    rw [lookup_rewrite hn, lookup_rewrite hn, hid]
    exact ⟨rfl, assigned_forwardFields h r₂.identity name⟩
  · intro header name hn
    rw [lookup_strip, if_neg (mt (agentControlled_iff name).mp hn)]
  · intro wk url entry approvedBy hs hu hd tr res hr
    obtain ⟨answer, rfl⟩ := runs_doReplay hu hd hr
    exact ⟨_, answer, rfl, fun name hn => lookup_replayRequest wk url entry approvedBy hd hn⟩

def forgedRequest : Request :=
  { sampleRequest with
    header := Header.setAll ∅ [(lit "X-Elodea-Approved-By", lit "jane"),
      (lit "x-elodea-agent", lit "agent-2"), (lit "Accept", lit "text/plain")] }

def plainWorker : Worker :=
  ⟨true, .ok ⟨lit "http", lit "tools", lit "/mcp", [], []⟩, [], 3, 10, false⟩

def editedEntry : QuarantineStore.QuarantineEntry :=
  ⟨lit "q-1", lit "agent-1", lit "ls", [], .replaying, ⟨0, 0⟩, none, lit "jane", [], 0, none,
    .obj [(lit "Authorization", .arr [.str (lit "forged")]), (lit "Accept", .null)], [], []⟩

theorem control_headers_server_owned_forged :
    (∃ out ∈ forwards ((serveHTTP sampleHandler forgedRequest).replay (smoothly .allow)).1,
      out.header.lookup (lit "X-Elodea-Agent") = some [lit "agent-1"] ∧
      out.header.lookup (lit "X-Elodea-Approved-By") = none) ∧
    ∃ req answer, ((doReplay plainWorker editedEntry (lit "jane")).replay (smoothly .allow)).1 =
      [⟨.httpDo (lit "q-1") req, answer⟩] ∧ req.header.lookup (lit "Authorization") = none := by
  constructor
  · have hlen : (forwards ((serveHTTP sampleHandler forgedRequest).replay
        (smoothly .allow)).1).length = 1 := by decide +kernel
    obtain ⟨out, hout⟩ := List.length_eq_one_iff.mp hlen
    have hmem : out ∈ forwards ((serveHTTP sampleHandler forgedRequest).replay
        (smoothly .allow)).1 := by rw [hout]; exact List.mem_cons_self
    have hruns := runs_replay (smoothly .allow) (serveHTTP sampleHandler forgedRequest)
    have hvalue := fun name hn => (control_headers_server_owned.1 sampleHandler forgedRequest
      forgedRequest rfl _ _ _ _ hruns hruns out hmem out hmem name hn).2
    refine ⟨out, hmem, (hvalue _ ?_).trans ?_, (hvalue _ ?_).trans ?_⟩
    · unfold IsControl; decide
    · rfl
    · unfold IsControl; decide
    · decide +kernel
  · obtain ⟨req, answer, htr, hreq⟩ := control_headers_server_owned.2.2 plainWorker
      ⟨lit "http", lit "tools", lit "/mcp", [], []⟩ editedEntry (lit "jane") ∅ rfl (by rfl) _ _
      (runs_replay (smoothly .allow) _)
    refine ⟨req, answer, htr, (hreq _ ?_).trans ?_⟩
    · unfold IsMetadata; decide
    · decide +kernel

end KiteRail
