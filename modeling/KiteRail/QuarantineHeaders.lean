import KiteRail.ProxyReplayParity

namespace KiteRail.Proxy
open Bytes Header Prog

/-- The headers that come back equal the captured ones, name by name. -/
def Restores (stored : Json) (h : Header) : Prop :=
  ∃ g, Mcp.decodeReplayHeaders (some stored) = .ok g ∧
    ∀ name, g.lookup name = (Mcp.captureReplayHeaders h).lookup name

/-- Every captured value is valid UTF-8. -/
def CapturesUtf8 (h : Header) : Prop :=
  ∀ name values, (Mcp.captureReplayHeaders h).lookup name = some values →
    ∀ v ∈ values, Utf8.valid v = true

lemma capture_idempotent {h : Header} (hc : Canonical h) (name : Bytes) :
    (Mcp.captureReplayHeaders (Mcp.captureReplayHeaders h)).lookup name =
      (Mcp.captureReplayHeaders h).lookup name := by
  rw [Mcp.lookup_captureReplayHeaders (Mcp.canonical_captureReplayHeaders hc),
    Mcp.lookup_captureReplayHeaders hc, Mcp.captured_captured]

lemma map_sanitize_eq_self_iff (values : Option (List Bytes)) :
    values.map (List.map Utf8.sanitize) = values ↔
      ∀ vs, values = some vs → ∀ v ∈ vs, Utf8.valid v = true := by
  cases values with
  | none => simp
  | some vs =>
    have hmap : vs.map Utf8.sanitize = vs ↔ ∀ v ∈ vs, Utf8.sanitize v = v := by
      have hid := @List.map_inj_left _ _ vs Utf8.sanitize id
      rwa [List.map_id] at hid
    simp [hmap, Utf8.sanitize_eq_self_iff]

lemma restores_iff {h : Header} (hc : Canonical h) {ms : List (Bytes × Json)} {stored : Json}
    (henc : Mcp.encodeHeaders (Mcp.captureReplayHeaders h) = .ok (.obj ms))
    (hback : ReadsBack (.obj ms) stored) : Restores stored h ↔ CapturesUtf8 h := by
  obtain ⟨ms', members, hms, rfl, hperm⟩ := hback
  obtain rfl : ms = ms' := Json.obj.inj hms
  obtain ⟨g, hdec, -, hlook⟩ := Mcp.decodeReplayHeaders_stored hc ⟨ms, henc, hperm⟩
  have hname : ∀ name, g.lookup name = (Mcp.captureReplayHeaders h).lookup name ↔
      ∀ values, (Mcp.captureReplayHeaders h).lookup name = some values →
        ∀ v ∈ values, Utf8.valid v = true := by
    intro name
    rw [hlook, Mcp.lookup_captureReplayHeaders hc]
    exact map_sanitize_eq_self_iff _
  constructor
  · rintro ⟨g', hdec', hsame⟩ name
    obtain rfl : g = g' := Except.ok.inj (hdec.symm.trans hdec')
    exact (hname name).mp (hsame name)
  · intro hvalid
    exact ⟨g, hdec, fun name => (hname name).mpr (hvalid name)⟩

lemma runs_create {agentID toolName payload rule : Bytes} {explanation : Message} {h : Header}
    {tr : Trace} {res : Except GoError Bytes}
    (hr : Runs (QuarantineStore.create agentID toolName payload h rule explanation) tr res) :
    ∃ arg ms, creates tr = [arg] ∧ arg.requestHeaders = .obj ms ∧
      Mcp.encodeHeaders (Mcp.captureReplayHeaders h) = .ok (.obj ms) := by
  simp only [QuarantineStore.create, Mcp.encodeHeaders, effect, perform, call_bind, ret_bind,
    runs_call_iff, runs_ret_iff] at hr
  obtain ⟨createdAt, _, rfl, answer, _, rfl, rfl, -⟩ := hr
  exact ⟨_, _, rfl, rfl, rfl⟩

/-- Replay headers survive storage exactly when they are UTF-8. -/
theorem replay_headers_restored_iff (h : Header) (hc : Canonical h)
    (agentID toolName payload rule : Bytes) (explanation : Message) (tr : Trace)
    (res : Except GoError Bytes)
    (hr : Runs (QuarantineStore.create agentID toolName payload h rule explanation) tr res) :
    (∀ name, (Mcp.captureReplayHeaders (Mcp.captureReplayHeaders h)).lookup name =
      (Mcp.captureReplayHeaders h).lookup name) ∧
    ∃ arg, creates tr = [arg] ∧
      ∀ stored, ReadsBack arg.requestHeaders stored → (Restores stored h ↔ CapturesUtf8 h) := by
  refine ⟨capture_idempotent hc, ?_⟩
  obtain ⟨arg, ms, hcreates, hheaders, henc⟩ := runs_create hr
  refine ⟨arg, hcreates, fun stored hback => ?_⟩
  rw [hheaders] at hback
  exact restores_iff hc henc hback

def accepting (value : Bytes) : Header := (∅ : Header).set (lit "Accept") value

lemma canonical_accepting (value : Bytes) : Canonical (accepting value) := by
  have hkey : CanonicalName (canonicalKey (lit "Accept")) := by
    unfold CanonicalName
    decide
  intro name hn
  rcases (AList.mem_insert _).mp hn with rfl | hempty
  · exact hkey
  · exact absurd hempty (AList.notMem_empty name)

def holdAccepting (value : Bytes) : Eff (Except GoError Bytes) :=
  QuarantineStore.create (lit "agent-1") (lit "ls") [] (accepting value) (lit "rule") []

theorem replay_headers_restored_ascii :
    ∃ arg, creates ((holdAccepting (lit "text/plain")).replay (smoothly .quarantine)).1 = [arg] ∧
      (Restores arg.requestHeaders (accepting (lit "text/plain")) ↔
        CapturesUtf8 (accepting (lit "text/plain"))) := by
  have hr := runs_replay (smoothly .quarantine) (holdAccepting (lit "text/plain"))
  obtain ⟨-, arg, hcreates, hall⟩ := replay_headers_restored_iff _ (canonical_accepting _) _ _ _ _
    _ _ _ hr
  refine ⟨arg, hcreates, hall _ ?_⟩
  obtain ⟨arg', ms, hcreates', hheaders, -⟩ := runs_create hr
  obtain rfl : arg = arg' := by simpa [hcreates] using hcreates'
  exact ⟨ms, ms, hheaders, hheaders, .refl _⟩

/-- A value in Latin-1 comes back as three other bytes. -/
theorem latin1_header_replaced :
    ∃ arg g, creates ((holdAccepting [0xE9]).replay (smoothly .quarantine)).1 = [arg] ∧
      Mcp.decodeReplayHeaders (some arg.requestHeaders) = .ok g ∧
      (Mcp.captureReplayHeaders (accepting [0xE9])).lookup (lit "Accept") = some [[0xE9]] ∧
      g.lookup (lit "Accept") = some [[0xEF, 0xBF, 0xBD]] := by
  obtain ⟨arg, ms, hcreates, hheaders, henc⟩ := runs_create
    (runs_replay (smoothly .quarantine) (holdAccepting [0xE9]))
  obtain ⟨g, hdec, -, hlook⟩ := Mcp.decodeReplayHeaders_stored (canonical_accepting [0xE9])
    ⟨ms, henc, .refl _⟩
  rw [← hheaders] at hdec
  refine ⟨arg, g, hcreates, hdec, ?_, (hlook _).trans ?_⟩
  · decide
  · decide

end KiteRail.Proxy
