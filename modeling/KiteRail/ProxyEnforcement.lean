import KiteRail.ProxyHandler

namespace KiteRail.Proxy
open Bytes Header Prog

abbrev Trace := List (Answered Op Res)

def forwards (tr : Trace) : List OutRequest :=
  tr.filterMap fun
    | ⟨.forward _ out, _⟩ => some out
    | _ => none

def creates (tr : Trace) : List CreateQuarantineEntryParams :=
  tr.filterMap fun
    | ⟨.createQuarantineEntry arg, _⟩ => some arg
    | _ => none

def evaluations (tr : Trace) : List (EvalInput × Except GoError ProxyDecision) :=
  tr.filterMap fun
    | ⟨.evaluate input, res⟩ => some (input, res)
    | _ => none

def appends (tr : Trace) : List (Ledger × Option GoError) :=
  tr.filterMap fun
    | ⟨.append entry, res⟩ => some (entry, res)
    | _ => none

/-- The request is read within the limit and the parser accepts it. -/
structure Accepted (h : Handler) (r : Request) (body : Bytes) (inv : Invocation) : Prop where
  method : r.method = lit "POST"
  read : r.body.readAll h.maxBodyBytes = .ok body
  parsed : parse r.header body = .ok inv

/-- A request that passed every check: accepted, evaluated without error, and its
decision recorded by a successful append. -/
structure Cleared (h : Handler) (r : Request) (tr : Trace) (body : Bytes) (inv : Invocation)
    (decision : ProxyDecision) (entry : Ledger) : Prop where
  accepted : Accepted h r body inv
  evaluated : ∃ time, evaluations tr =
    [(evalInput inv (agentFromContext r.identity) time, .ok decision)]
  recorded : (appends tr).head? = some (entry, none)

/-- What the store is asked to hold. -/
def heldParams (r : Request) (body : Bytes) (inv : Invocation) (decision : ProxyDecision)
    (createdAt : Time) : CreateQuarantineEntryParams :=
  ⟨agentFromContext r.identity, inv.tool, body, createdAt,
    .obj ((Mcp.captureReplayHeaders (Mcp.captureReplayHeaders r.header)).entries.map fun e =>
      (Utf8.sanitize e.1, .arr (e.2.map fun v => .str (Utf8.sanitize v)))),
    decision.rule, decision.explanation⟩

section
variable {h : Handler} {r : Request} {body : Bytes} {inv : Invocation} {tr : Trace} {reply : Reply}

inductive Enforced (h : Handler) (r : Request) (body : Bytes) (inv : Invocation)
    (decision : ProxyDecision) : Trace → Prop
  | forwarded (ha : decision.action = .allow) :
      Enforced h r body inv decision
        [⟨.forward (agentFromContext r.identity) (rewrite h r body), ()⟩]
  | held (ha : decision.action = .quarantine) (createdAt : Time) (id : Bytes) :
      Enforced h r body inv decision [⟨.now, createdAt⟩,
        ⟨.createQuarantineEntry (heldParams r body inv decision createdAt), .ok id⟩]
  | lost (ha : decision.action = .quarantine) (createdAt : Time) (err : GoError) (rest : Trace)
      (hrest : rest = [] ∨ ∃ stamp entry res, rest = [⟨.now, stamp⟩, ⟨.append entry, res⟩]) :
      Enforced h r body inv decision (⟨.now, createdAt⟩ ::
        ⟨.createQuarantineEntry (heldParams r body inv decision createdAt), .error err⟩ :: rest)
  | refused (ha : decision.action ≠ .allow) (hq : decision.action ≠ .quarantine) :
      Enforced h r body inv decision []

lemma runs_enforce {time : Time} {decision : ProxyDecision} {entry : Ledger}
    (hr : Runs (enforce h r body inv (evalInput inv (agentFromContext r.identity) time) decision
      entry) tr reply) : Enforced h r body inv decision tr := by
  unfold enforce at hr
  cases ha : decision.action with
  | allow =>
    simp only [ha, perform_bind, runs_call_iff, pure_eq, runs_ret_iff] at hr
    obtain ⟨_, _, rfl, rfl, -⟩ := hr
    exact .forwarded ha
  | deny =>
    simp only [ha, pure_eq, runs_ret_iff] at hr
    obtain ⟨rfl, -⟩ := hr
    exact .refused (by simp [ha]) (by simp [ha])
  | other text =>
    simp only [ha, pure_eq, runs_ret_iff] at hr
    obtain ⟨rfl, -⟩ := hr
    exact .refused (by simp [ha]) (by simp [ha])
  | quarantine =>
    simp only [ha, QuarantineStore.create, Mcp.encodeHeaders, effect, perform, call_bind,
      ret_bind, runs_call_iff] at hr
    obtain ⟨createdAt, _, rfl, res, rest, rfl, hr⟩ := hr
    cases res with
    | ok id =>
      simp only [pure_eq, runs_ret_iff] at hr
      obtain ⟨rfl, -⟩ := hr
      exact .held ha createdAt id
    | error err =>
      simp only [recordStoreFailure] at hr
      split_ifs at hr with hl
      · simp only [effect, perform, call_bind, ret_bind, pure_eq, runs_call_iff,
          runs_ret_iff] at hr
        obtain ⟨stamp, _, rfl, res, _, rfl, rfl, -⟩ := hr
        exact .lost ha createdAt err _ (.inr ⟨stamp, _, res, rfl⟩)
      · simp only [pure_eq, ret_bind, runs_ret_iff] at hr
        obtain ⟨rfl, -⟩ := hr
        exact .lost ha createdAt err [] (.inl rfl)

lemma Enforced.observe {decision : ProxyDecision} (he : Enforced h r body inv decision tr) :
    evaluations tr = [] ∧
    forwards tr = (if decision.action = .allow then [rewrite h r body] else []) ∧
    if decision.action = .quarantine
      then ∃ createdAt, creates tr = [heldParams r body inv decision createdAt]
      else creates tr = [] := by
  cases he with
  | forwarded ha => simp [evaluations, forwards, creates, ha]
  | held ha createdAt id => simp [evaluations, forwards, creates, ha]
  | lost ha createdAt err rest hrest =>
    rcases hrest with rfl | ⟨stamp, entry, res, rfl⟩ <;>
      simp [evaluations, forwards, creates, ha]
  | refused ha hq => simp [evaluations, forwards, creates, ha, hq]

/-- How far an accepted request gets. -/
inductive Evaluated (h : Handler) (r : Request) (body : Bytes) (inv : Invocation) : Trace → Prop
  | unevaluated (time : Time) (err : GoError) : Evaluated h r body inv
      [⟨.now, time⟩,
        ⟨.evaluate (evalInput inv (agentFromContext r.identity) time), .error err⟩]
  | unrecorded (time stamp : Time) (decision : ProxyDecision) (entry : Ledger) (err : GoError) :
      Evaluated h r body inv [⟨.now, time⟩,
        ⟨.evaluate (evalInput inv (agentFromContext r.identity) time), .ok decision⟩,
        ⟨.now, stamp⟩, ⟨.append entry, some err⟩]
  | recorded (time stamp : Time) (decision : ProxyDecision) (rest : Trace)
      (hrest : Enforced h r body inv decision rest) :
      Evaluated h r body inv (⟨.now, time⟩ ::
        ⟨.evaluate (evalInput inv (agentFromContext r.identity) time), .ok decision⟩ ::
        ⟨.now, stamp⟩ :: ((if h.ledgerStore then [⟨.append (auditEntry
          (evalInput inv (agentFromContext r.identity) time) inv decision body stamp), none⟩]
          else []) ++ rest))

lemma runs_evaluateParsed
    (hr : Runs (evaluateParsed h r body inv) tr reply) : Evaluated h r body inv tr := by
  simp only [evaluateParsed, effect, perform, call_bind, ret_bind, runs_call_iff] at hr
  obtain ⟨time, _, rfl, outcome, _, rfl, hr⟩ := hr
  cases outcome with
  | error err =>
    simp only [pure_eq, runs_ret_iff] at hr
    obtain ⟨rfl, -⟩ := hr
    exact .unevaluated time err
  | ok decision =>
    simp only [record, runs_call_iff] at hr
    obtain ⟨stamp, _, rfl, hr⟩ := hr
    split_ifs at hr with hl
    · simp only [effect, perform, call_bind, ret_bind, runs_call_iff] at hr
      obtain ⟨res, rest, rfl, hr⟩ := hr
      cases res with
      | some err =>
        obtain ⟨rfl, -⟩ := runs_ret_iff.mp hr
        exact .unrecorded time stamp decision _ err
      | none => simpa [hl] using Evaluated.recorded time stamp decision rest (runs_enforce hr)
    · simpa [hl] using Evaluated.recorded time stamp decision _ (runs_enforce hr)

/-- A request has no effect at all unless it is accepted. -/
lemma runs_serveHTTP (hr : Runs (serveHTTP h r) tr reply) :
    (tr = [] ∧ ∀ body inv, ¬ Accepted h r body inv) ∨
      ∃ body inv, Accepted h r body inv ∧ Evaluated h r body inv tr := by
  unfold serveHTTP at hr
  split_ifs at hr with hm
  · exact .inl ⟨(runs_ret_iff.mp hr).1, fun _ _ a => hm a.method⟩
  have hpost : r.method = lit "POST" := not_not.mp hm
  cases hread : r.body.readAll h.maxBodyBytes with
  | error e =>
    rw [hread] at hr
    refine .inl ⟨?_, fun _ _ a => absurd (hread.symm.trans a.read) (by simp)⟩
    cases e <;> exact (runs_ret_iff.mp hr).1
  | ok body =>
    simp only [hread] at hr
    cases hparse : parse r.header body with
    | error e =>
      simp only [hparse] at hr
      refine .inl ⟨(runs_ret_iff.mp hr).1, fun body' inv a => ?_⟩
      have hb : body = body' := Except.ok.inj (hread.symm.trans a.read)
      subst hb
      exact absurd (hparse.symm.trans a.parsed) (by simp)
    | ok inv =>
      simp only [hparse] at hr
      exact .inr ⟨body, inv, ⟨hpost, hread, hparse⟩, runs_evaluateParsed hr⟩

inductive Effect (h : Handler) (r : Request) (tr : Trace) : Prop
  | none (hf : forwards tr = []) (hc : creates tr = [])
      (hn : ∀ body inv decision entry, ¬ Cleared h r tr body inv decision entry)
  | cleared (body : Bytes) (inv : Invocation) (decision : ProxyDecision) (entry : Ledger)
      (hcl : Cleared h r tr body inv decision entry)
      (hash : entry.payloadHash = payloadHash body)
      (hf : forwards tr = if decision.action = .allow then [rewrite h r body] else [])
      (hc : if decision.action = .quarantine
        then ∃ createdAt, creates tr = [heldParams r body inv decision createdAt]
        else creates tr = [])

lemma Evaluated.effect (hl : h.ledgerStore = true) (ha : Accepted h r body inv)
    (he : Evaluated h r body inv tr) : Effect h r tr := by
  cases he with
  | unevaluated time err =>
    refine .none rfl rfl fun _ _ decision _ hc => ?_
    obtain ⟨_, hev⟩ := hc.evaluated
    simp [evaluations] at hev
  | unrecorded time stamp decision entry err =>
    refine .none rfl rfl fun _ _ _ _ hc => ?_
    have hrec := hc.recorded
    simp [appends] at hrec
  | recorded time stamp decision rest hrest =>
    simp only [hl, if_true, List.cons_append, List.nil_append]
    obtain ⟨hev, hf, hc⟩ := hrest.observe
    refine .cleared body inv decision _ ⟨ha, ⟨time, ?_⟩, rfl⟩ rfl hf hc
    simpa [evaluations] using hev

end

/-- A world in which the engine decides `action` and everything succeeds. -/
def smoothly (action : Action) : (op : Op) → Res op
  | .now => ⟨0, 0⟩
  | .ctxErr => none
  | .evaluate _ => .ok ⟨action, lit "rule", [], lit "v1"⟩
  | .append _ => none
  | .forward _ _ => ()
  | .createQuarantineEntry _ => .ok (lit "q-1")
  | .getQuarantineEntry _ => .error .noRows
  | .approveQuarantineEntry _ _ _ => .ok (.ok 1)
  | .denyQuarantineEntry _ _ _ _ => .ok (.ok 1)
  | .claimApprovedForReplay _ => .ok []
  | .markReplayed _ => .ok (.ok 1)
  | .markReplayFailed _ _ => .ok (.ok 1)
  | .returnToApproved _ => .ok (.ok 1)
  | .recoverStuckReplays => .ok (.ok 0)
  | .beginTx => none
  | .tryReplayLock => .ok true
  | .rollback => ()
  | .httpDo _ _ => .ok 200

def sampleHandler : Handler :=
  ⟨⟨lit "http", lit "tools", lit "/mcp", [], []⟩, lit "token", true, 1048576⟩

/-- A call of a tool that names a path and a query of its own. -/
def sampleRequest : Request :=
  ⟨lit "POST", ⟨[], [], lit "/admin", [], lit "force=1"⟩, ∅,
    ⟨lit "\x7b\"jsonrpc\":\"2.0\",\"id\":1,\"method\":\"tools/call\"," ++
      lit "\"params\":\x7b\"name\":\"ls\"\x7d\x7d", none⟩, some ⟨lit "agent-1", .agent⟩⟩

end KiteRail.Proxy
