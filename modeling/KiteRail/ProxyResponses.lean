import KiteRail.GoStrings
import KiteRail.ProxyEnforcement
import KiteRail.ProxyGrammar
import KiteRail.ProxyObjects

/-! What the client reads. A request that is not forwarded is answered by the proxy itself: with
a JSON-RPC error, with a tool result that says it is an error, or, to clients that declare no
protocol version, with a plain object. None of these can be taken for a result of the call. -/
namespace KiteRail.Proxy
open Bytes Header Json Prog

section Rendering

structure Response where
  status : ℕ
  header : Header
  body : Bytes

/-- A map is written with its names in order, and a line break after it. -/
def writeJSON (header : Header) (status : ℕ) (body : List (Bytes × Json)) : Response :=
  ⟨status, header.set (lit "Content-Type") (lit "application/json"),
    encode (sorted (.obj body)) ++ [10]⟩

/-- A JSON-RPC response; `key` is `result` or `error`. -/
def envelope (responseID : Option Json) (key : Bytes) (value : Json) : List (Bytes × Json) :=
  [(lit "jsonrpc", .str (lit "2.0")), (lit "id", responseID.getD .null), (key, value)]

/-- The object of an error; `data` is its further member, if it has one. -/
def errorObject (code : ℤ) (message : Bytes) (data : List (Bytes × Json)) : Json :=
  .obj ((lit "code", .num (decimal code)) :: (lit "message", .str message) :: data)

def ingressError (status : ℕ) (code : ℤ) (message : Bytes) (requestID : Option Json) : Response :=
  writeJSON ∅ status (envelope requestID (lit "error") (errorObject code message []))

/-- `http.Error`. -/
def httpError (status : ℕ) (text : Bytes) : Response :=
  ⟨status, ((∅ : Header).set (lit "Content-Type") (lit "text/plain; charset=utf-8")).set
    (lit "X-Content-Type-Options") (lit "nosniff"), text ++ [10]⟩

def codeDeniedByPolicy : ℤ := -32010
def codeQuarantined : ℤ := -32011
def decisionMetaKey : Bytes := lit "elodea/decision"
def quarantineIDHeader : Bytes := lit "X-Elodea-Quarantine-ID"
def decisionHeader : Bytes := lit "X-Elodea-Decision"
def policyVersionHeader : Bytes := lit "X-Elodea-Policy-Version"

/-- Explanations are written as sentences; their end is trimmed inside of a message. -/
def sentence (explanation : Bytes) : Bytes :=
  (GoStrings.trimSpace explanation).rdropWhile fun b => b == 46

/-- The members of a tool result that the model reads as an error. -/
def toolResult (text : Bytes) (details : List (Bytes × Json)) : List (Bytes × Json) :=
  [(lit "content", .arr [.obj [(lit "type", .str (lit "text")), (lit "text", .str text)]]),
    (lit "isError", .bool true), (lit "_meta", .obj [(decisionMetaKey, .obj details)])]

/-- A tool result for `tools/call`, else an error object. -/
def outcomeBody (inv : Invocation) (code : ℤ) (message text : Bytes)
    (details : List (Bytes × Json)) : List (Bytes × Json) :=
  if inv.method = lit "tools/call" then
    envelope inv.responseID (lit "result") (.obj (toolResult text details))
  else envelope inv.responseID (lit "error") (errorObject code message [(lit "data", .obj details)])

def writeOutcome (header : Header) (inv : Invocation) (code : ℤ) (message text : Bytes)
    (details : List (Bytes × Json)) : Response :=
  writeJSON header 200 (outcomeBody inv code message text details)

def setDecisionHeaders (header : Header) (outcome : Bytes) (decision : ProxyDecision) : Header :=
  let header := header.set decisionHeader outcome
  if decision.policyVersion = [] then header
  else header.set policyVersionHeader decision.policyVersion

-- how an operand is printed in quotes
variable (quote : Bytes → Bytes)

def render (m : Message) : Bytes :=
  m.flatMap fun
    | .text b => b
    | .quoted b => quote b

def writeIngressError (e : IngressError) : Response :=
  ingressError e.status e.code (render quote e.message) e.responseID

def decisionMeta (outcome : Bytes) (decision : ProxyDecision) (quarantineID : Bytes) :
    List (Bytes × Json) :=
  [(lit "decision", .str outcome), (lit "rule", .str decision.rule),
    (lit "explanation", .str (render quote decision.explanation)),
    (lit "policy_version", .str decision.policyVersion)] ++
    if quarantineID = [] then [] else [(lit "quarantine_id", .str quarantineID)]

def writeDeny (native : Bool) (inv : Invocation) (decision : ProxyDecision) : Response :=
  let header := setDecisionHeaders ∅ (lit "deny") decision
  let explanation := render quote decision.explanation
  if native then
    writeOutcome header inv codeDeniedByPolicy (lit "Denied by policy")
      (lit "Blocked by Elodea policy " ++ quote decision.rule ++ lit ": " ++
        sentence explanation ++ lit ". The action was not executed.")
      (decisionMeta quote (lit "deny") decision [])
  else
    writeJSON header 403
      [(lit "error", .str (lit "Denied by policy")), (lit "explanation", .str explanation)]

def writeQuarantine (native : Bool) (inv : Invocation) (quarantineID : Bytes)
    (decision : ProxyDecision) : Response :=
  let header := (setDecisionHeaders ∅ (lit "quarantine") decision).set quarantineIDHeader
    quarantineID
  if native then
    writeOutcome header inv codeQuarantined (lit "Pending human approval")
      (lit "This action requires human approval (Elodea policy " ++ quote decision.rule ++
        lit ": " ++ sentence (render quote decision.explanation) ++
        lit "). It has NOT been executed yet; a reviewer will approve or deny it. " ++
        lit "Quarantine ID: " ++ quarantineID ++ lit ". Do not retry the call.")
      (decisionMeta quote (lit "quarantine") decision quarantineID)
  else
    writeJSON header 202
      [(lit "quarantine_id", .str quarantineID), (lit "status", .str (lit "quarantined"))]

/-- The error handler of the reverse proxy. -/
def badGateway : Response := httpError 502 (lit "upstream unavailable")

/-- What the proxy writes itself. `passed` says whether there is an answer of the upstream to
pass on to the client of a forwarded request. -/
def Reply.response (passed : Bool) : Reply → Option Response
  | .rejected e => some (writeIngressError quote e)
  | .failed status text => some (httpError status text)
  | .denied native inv decision => some (writeDeny quote native inv decision)
  | .held native inv id decision => some (writeQuarantine quote native inv id decision)
  | .forwarded => if passed then none else some badGateway

end Rendering

section Reading
variable {header : Header} {status : ℕ} {ms parts : List (Bytes × Json)} {v : Json}

/-- What a client takes for the result of its call. -/
def Success (body : Bytes) : Prop :=
  ∃ members result, Mcp.decodeObject body = .ok members ∧
    member members (lit "result") = some result ∧
    ¬ ∃ parts, result = .obj parts ∧ member parts (lit "isError") = some (.bool true)

/-- Values that are written whatever bytes their strings have. -/
abbrev Sendable : Json → Prop := Orderly fun _ => True

lemma sendable_obj (names : List Bytes) (h : ms.map Prod.fst = names) (hnodup : names.Nodup)
    (hvalid : ∀ n ∈ names, Utf8.valid n = true) (hvalues : ∀ m ∈ ms, Sendable m.2) :
    Sendable (.obj ms) := by
  subst h
  exact .obj hnodup (List.forall_mem_map.mp hvalid) hvalues

lemma decodeObject_writeJSON (h : Sendable (.obj ms)) (hd : depth (.obj ms) ≤ 9) :
    Mcp.decodeObject (writeJSON header status ms).body = .ok (writtenMembers ms) :=
  decodeObject_written h (hd.trans (by decide)) (by simp [Space, isSpace])

lemma not_success_of_absent (h : Sendable (.obj ms)) (hd : depth (.obj ms) ≤ 9)
    (hresult : member ms (lit "result") = none) :
    ¬ Success (writeJSON header status ms).body := by
  rintro ⟨members, result, hdecode, hmember, -⟩
  rw [decodeObject_writeJSON h hd] at hdecode
  rw [← Except.ok.inj hdecode, member_written h, hresult] at hmember
  simp at hmember

lemma not_success_of_isError (h : Sendable (.obj ms)) (hd : depth (.obj ms) ≤ 9)
    (hresult : member ms (lit "result") = some (.obj parts)) (hparts : Sendable (.obj parts))
    (herror : member parts (lit "isError") = some (.bool true)) :
    ¬ Success (writeJSON header status ms).body := by
  rintro ⟨members, result, hdecode, hmember, hnot⟩
  rw [decodeObject_writeJSON h hd] at hdecode
  rw [← Except.ok.inj hdecode, member_written h, hresult, Option.map_some,
    cleaned_sorted_obj hparts] at hmember
  refine hnot ⟨_, (Option.some.inj hmember).symm, ?_⟩
  rw [member_written hparts, herror]
  rfl

/-- Where a quarantine id may stand in a body: in a plain object, in a tool result, or in an error
object. -/
def quarantineIDAt (v : Json) : Option Json :=
  [[lit "quarantine_id"], [lit "result", lit "_meta", decisionMetaKey, lit "quarantine_id"],
    [lit "error", lit "data", lit "quarantine_id"]].findSome? (atPath · v)

def bodyQuarantineID (body : Bytes) : Option Json :=
  (Mcp.decodeObject body).toOption.bind fun members => quarantineIDAt (.obj members)

lemma bodyQuarantineID_writeJSON (h : Sendable (.obj ms)) (hd : depth (.obj ms) ≤ 9) :
    bodyQuarantineID (writeJSON header status ms).body =
      (quarantineIDAt (.obj ms)).map fun v => v.sorted.cleaned := by
  rw [bodyQuarantineID, decodeObject_writeJSON h hd]
  change quarantineIDAt (.obj (writtenMembers ms)) = _
  simp only [quarantineIDAt, ← cleaned_sorted_obj h, atPath_written _ h, List.map_findSome?]
  rfl

end Reading

section Documents
variable {quote : Bytes → Bytes} {header : Header} {status : ℕ} {responseID : Option Json}
  {key : Bytes} {value : Json}

lemma sendable_envelope (hid : Sendable (responseID.getD .null))
    (hkey : key = lit "result" ∨ key = lit "error") (hvalue : Sendable value) :
    Sendable (.obj (envelope responseID key value)) := by
  have hvalues : ∀ m ∈ envelope responseID key value, Sendable m.2 := by
    simp only [envelope, List.forall_mem_cons]
    exact ⟨.str trivial, hid, hvalue, by simp⟩
  rcases hkey with rfl | rfl
  · exact sendable_obj [lit "jsonrpc", lit "id", lit "result"] rfl (by decide) (by decide) hvalues
  · exact sendable_obj [lit "jsonrpc", lit "id", lit "error"] rfl (by decide) (by decide) hvalues

lemma depth_envelope (hid : depth (responseID.getD .null) = 0) (hvalue : depth value ≤ 8) :
    depth (.obj (envelope responseID key value)) ≤ 9 := by
  refine depth_obj_le.mpr ?_
  simp only [envelope, List.forall_mem_cons]
  exact ⟨Nat.zero_le _, hid ▸ Nat.zero_le _, hvalue, by simp⟩

lemma sendable_decisionMeta (outcome : Bytes) (decision : ProxyDecision) (id : Bytes) :
    Sendable (.obj (decisionMeta quote outcome decision id)) ∧
      depth (.obj (decisionMeta quote outcome decision id)) = 1 := by
  rw [decisionMeta]
  split_ifs with hid
  · refine ⟨sendable_obj [lit "decision", lit "rule", lit "explanation", lit "policy_version"] rfl
      (by decide) (by decide) ?_, rfl⟩
    simp only [List.append_nil, List.forall_mem_cons]
    exact ⟨.str trivial, .str trivial, .str trivial, .str trivial, by simp⟩
  · refine ⟨sendable_obj [lit "decision", lit "rule", lit "explanation", lit "policy_version",
      lit "quarantine_id"] rfl (by decide) (by decide) ?_, rfl⟩
    simp only [List.cons_append, List.nil_append, List.forall_mem_cons]
    exact ⟨.str trivial, .str trivial, .str trivial, .str trivial, .str trivial, by simp⟩

/-- A JSON-RPC response for the id, with a result or an error but not both. -/
def Answers (id : Json) (body : Bytes) : Prop :=
  ∃ members, Mcp.decodeObject body = .ok members ∧
    member members (lit "jsonrpc") = some (.str (lit "2.0")) ∧
    member members (lit "id") = some id ∧
    (member members (lit "result")).isSome ≠ (member members (lit "error")).isSome

/-- Ids that are echoed: null, and the strings and numbers that were decoded. -/
structure Echoable (id : Json) : Prop where
  proper : Proper id
  flat : depth id = 0
  sorted : id.sorted = id

lemma Echoable.sendable {id : Json} (h : Echoable id) : Sendable id :=
  h.proper.mono fun _ _ => trivial

/-- The id comes back as it is in the response, to the last digit of a number. -/
lemma answers_envelope (hid : Echoable (responseID.getD .null))
    (hkey : key = lit "result" ∨ key = lit "error") (hvalue : Sendable value)
    (hdepth : depth value ≤ 8) :
    Answers (responseID.getD .null) (writeJSON header status
      (envelope responseID key value)).body := by
  have hsend := sendable_envelope hid.sendable hkey hvalue
  refine ⟨_, decodeObject_writeJSON hsend (depth_envelope hid.flat hdepth), ?_, ?_, ?_⟩
  · rw [member_written hsend]
    rfl
  · rw [member_written hsend]
    change some (responseID.getD .null).sorted.cleaned = _
    rw [hid.sorted, Proper.cleaned hid.proper]
  · rw [member_written hsend, member_written hsend, Option.isSome_map, Option.isSome_map]
    rcases hkey with rfl | rfl
    · change true ≠ false
      exact Bool.noConfusion
    · change false ≠ true
      exact Bool.noConfusion

lemma sendable_errorObject (code : ℤ) (message : Bytes) :
    Sendable (errorObject code message []) ∧ depth (errorObject code message []) ≤ 8 := by
  refine ⟨sendable_obj [lit "code", lit "message"] rfl (by decide) (by decide) ?_,
    show 1 ≤ 8 by decide⟩
  simp only [List.forall_mem_cons]
  exact ⟨.num (number_decimal code), .str trivial, by simp⟩

variable {details : List (Bytes × Json)}

lemma sendable_errorObject_data (code : ℤ) (message : Bytes)
    (h : Sendable (.obj details) ∧ depth (.obj details) = 1) :
    Sendable (errorObject code message [(lit "data", .obj details)]) ∧
      depth (errorObject code message [(lit "data", .obj details)]) ≤ 8 := by
  constructor
  · refine sendable_obj [lit "code", lit "message", lit "data"] rfl (by decide) (by decide) ?_
    simp only [List.forall_mem_cons]
    exact ⟨.num (number_decimal code), .str trivial, h.1, by simp⟩
  · refine depth_obj_le.mpr ?_
    simp only [List.forall_mem_cons]
    exact ⟨Nat.zero_le _, Nat.zero_le _, by omega, by simp⟩

lemma sendable_toolResult (text : Bytes)
    (h : Sendable (.obj details) ∧ depth (.obj details) = 1) :
    Sendable (.obj (toolResult text details)) ∧ depth (.obj (toolResult text details)) ≤ 8 := by
  have hcontent : Sendable (.obj [(lit "type", .str (lit "text")), (lit "text", .str text)]) := by
    refine sendable_obj [lit "type", lit "text"] rfl (by decide) (by decide) ?_
    simp only [List.forall_mem_cons]
    exact ⟨.str trivial, .str trivial, by simp⟩
  have hmeta : Sendable (.obj [(decisionMetaKey, .obj details)]) := by
    refine sendable_obj [decisionMetaKey] rfl (by decide) (by decide) ?_
    simp only [List.forall_mem_cons]
    exact ⟨h.1, by simp⟩
  have hdepth : depth (.obj [(decisionMetaKey, .obj details)]) ≤ 7 := by
    refine depth_obj_le.mpr ?_
    simp only [List.forall_mem_cons]
    exact ⟨by omega, by simp⟩
  constructor
  · refine sendable_obj [lit "content", lit "isError", lit "_meta"] rfl (by decide) (by decide) ?_
    simp only [toolResult, List.forall_mem_cons]
    exact ⟨.arr (by simpa using hcontent), .bool true, hmeta, by simp⟩
  · refine depth_obj_le.mpr ?_
    simp only [toolResult, List.forall_mem_cons]
    exact ⟨show 2 ≤ 7 by decide, Nat.zero_le _, hdepth, by simp⟩

lemma refused_ingressError {code : ℤ} {message : Bytes}
    (hid : Echoable (responseID.getD .null)) :
    ¬ Success (ingressError status code message responseID).body ∧
      Answers (responseID.getD .null) (ingressError status code message responseID).body := by
  obtain ⟨hsend, hdepth⟩ := sendable_errorObject code message
  exact ⟨not_success_of_absent (sendable_envelope hid.sendable (.inr rfl) hsend)
    (depth_envelope hid.flat hdepth) rfl, answers_envelope hid (.inr rfl) hsend hdepth⟩

lemma sendable_outcome {inv : Invocation} {code : ℤ} {message text : Bytes}
    (hid : Echoable (inv.responseID.getD .null))
    (h : Sendable (.obj details) ∧ depth (.obj details) = 1) :
    Sendable (.obj (outcomeBody inv code message text details)) ∧
      depth (.obj (outcomeBody inv code message text details)) ≤ 9 := by
  rw [outcomeBody]
  split_ifs with hmethod
  · obtain ⟨hsend, hdepth⟩ := sendable_toolResult text h
    exact ⟨sendable_envelope hid.sendable (.inl rfl) hsend, depth_envelope hid.flat hdepth⟩
  · obtain ⟨hsend, hdepth⟩ := sendable_errorObject_data code message h
    exact ⟨sendable_envelope hid.sendable (.inr rfl) hsend, depth_envelope hid.flat hdepth⟩

lemma refused_writeOutcome {inv : Invocation} {code : ℤ} {message text : Bytes}
    (hid : Echoable (inv.responseID.getD .null))
    (h : Sendable (.obj details) ∧ depth (.obj details) = 1) :
    ¬ Success (writeOutcome header inv code message text details).body ∧
      Answers (inv.responseID.getD .null)
        (writeOutcome header inv code message text details).body := by
  rw [writeOutcome, outcomeBody]
  split_ifs with hmethod
  · obtain ⟨hsend, hdepth⟩ := sendable_toolResult text h
    exact ⟨not_success_of_isError (sendable_envelope hid.sendable (.inl rfl) hsend)
      (depth_envelope hid.flat hdepth) rfl hsend rfl,
      answers_envelope hid (.inl rfl) hsend hdepth⟩
  · obtain ⟨hsend, hdepth⟩ := sendable_errorObject_data code message h
    exact ⟨not_success_of_absent (sendable_envelope hid.sendable (.inr rfl) hsend)
      (depth_envelope hid.flat hdepth) rfl, answers_envelope hid (.inr rfl) hsend hdepth⟩

end Documents

section Correlation
variable {h : Handler} {r : Request} {header : Header} {body : Bytes}

/-- The id that is echoed for the id of a request: strings and numbers, else null. -/
def echoed : Option Json → Json
  | some (.str s) => .str s
  | some (.num text) => .num text
  | _ => .null

/-- The id that a response to the body has to carry. -/
def bodyID (body : Bytes) : Json :=
  echoed ((Mcp.decodeObject body).toOption.bind fun requestBody => member requestBody (lit "id"))

def correlationID (h : Handler) (r : Request) : Json :=
  if r.method ≠ lit "POST" then .null
  else (r.body.readAll h.maxBodyBytes).toOption.elim .null bodyID

lemma echoable_bodyID (body : Bytes) : Echoable (bodyID body) := by
  rw [bodyID]
  cases hdecode : Mcp.decodeObject body with
  | error e => exact ⟨.null, rfl, rfl⟩
  | ok requestBody =>
    have hproper := (proper_of_decodeObject hdecode).1
    change Echoable (echoed (member requestBody (lit "id")))
    cases hid : member requestBody (lit "id") with
    | none => exact ⟨.null, rfl, rfl⟩
    | some id =>
      cases hproper with
      | obj _ _ hvalues =>
        have hvalue := hvalues _ (member_mem hid)
        cases id with
        | str s => exact ⟨hvalue, rfl, rfl⟩
        | num text => exact ⟨hvalue, rfl, rfl⟩
        | _ => exact ⟨.null, rfl, rfl⟩

lemma echoable_correlationID (h : Handler) (r : Request) : Echoable (correlationID h r) := by
  rw [correlationID]
  split_ifs with hmethod
  · exact ⟨.null, rfl, rfl⟩
  · cases (r.body.readAll h.maxBodyBytes).toOption with
    | none => exact ⟨.null, rfl, rfl⟩
    | some body => exact echoable_bodyID body

lemma requestIdentifier_id (requestBody : List (Bytes × Json)) :
    ((requestIdentifier requestBody).toOption.bind Prod.snd).getD .null =
      echoed (member requestBody (lit "id")) := by
  rw [requestIdentifier]
  cases member requestBody (lit "id") with
  | none => rfl
  | some id => cases id <;> rfl

/-- The id is settled before anything else is checked. -/
lemma validateIngress_id :
    (∀ e id, validateIngress body = .error (e, id) → id.getD .null = bodyID body) ∧
      ∀ ing, validateIngress body = .ok ing → ing.responseID.getD .null = bodyID body := by
  cases hdecode : Mcp.decodeObject body with
  | error e => simp [validateIngress, bodyID, hdecode, Except.toOption, echoed]
  | ok requestBody =>
    have hid : bodyID body =
        ((requestIdentifier requestBody).toOption.bind Prod.snd).getD .null := by
      rw [requestIdentifier_id, bodyID, hdecode]
      rfl
    rw [hid, validateIngress, hdecode]
    cases hidentifier : requestIdentifier requestBody with
    | error e => simp [hidentifier, Except.toOption]
    | ok pair =>
      obtain ⟨requestID, responseID⟩ := pair
      cases hcall : validateCall requestBody requestID responseID with
      | error e => simp [hidentifier, hcall, Except.toOption]
      | ok ing =>
        obtain ⟨-, -, -, -, -, -, -, -, -, -, -, hresponse⟩ := validateCall_eq_ok.mp hcall
        simp [hidentifier, hcall, Except.toOption, hresponse]

lemma parse_id :
    (∀ e, parse header body = .error e → e.responseID.getD .null = bodyID body) ∧
      ∀ inv, parse header body = .ok inv → inv.responseID.getD .null = bodyID body := by
  obtain ⟨herror, hok⟩ := @validateIngress_id body
  rw [parse]
  cases hingress : validateIngress body with
  | error e => simpa using herror e.1 e.2 hingress
  | ok ing =>
    have hid := hok ing hingress
    dsimp only
    cases hmirror : validateMirroredHeaders header ing with
    | error e => simpa using hid
    | ok version => simpa using hid

end Correlation

section Told
variable {h : Handler} {r : Request} {body : Bytes} {inv : Invocation} {decision : ProxyDecision}
  {tr : Trace} {reply : Reply}

lemma reply_enforce {time : Time} {entry : Ledger}
    (hr : Runs (enforce h r body inv (evalInput inv (agentFromContext r.identity) time) decision
      entry) tr reply) :
    reply = .forwarded ∧ forwards tr ≠ [] ∨
      reply = .failed 500 (lit "Internal Server Error") ∧ forwards tr = [] ∨
      reply = .denied (nativeMCP r) inv decision ∧ decision.action = .deny ∧ forwards tr = [] ∨
      ∃ arg id, reply = .held (nativeMCP r) inv id decision ∧ decision.action = .quarantine ∧
        forwards tr = [] ∧ ⟨.createQuarantineEntry arg, .ok id⟩ ∈ tr := by
  have hforwards := (runs_enforce hr).observe.2.1
  unfold enforce at hr
  cases ha : decision.action with
  | allow =>
    simp only [ha, perform_bind, runs_call_iff, pure_eq, runs_ret_iff] at hr
    obtain ⟨_, _, rfl, rfl, rfl⟩ := hr
    exact .inl ⟨rfl, by simp [forwards]⟩
  | deny =>
    simp only [ha, pure_eq, runs_ret_iff] at hr
    exact .inr (.inr (.inl ⟨hr.2, rfl, by simpa [ha] using hforwards⟩))
  | other text htext =>
    simp only [ha, pure_eq, runs_ret_iff] at hr
    exact .inr (.inl ⟨hr.2, by simpa [ha] using hforwards⟩)
  | quarantine =>
    have hnone : forwards tr = [] := by simpa [ha] using hforwards
    simp only [ha, QuarantineStore.create, Mcp.encodeHeaders, effect, perform, call_bind,
      ret_bind, runs_call_iff] at hr
    obtain ⟨createdAt, _, rfl, res, rest, rfl, hr⟩ := hr
    cases res with
    | ok id =>
      simp only [pure_eq, runs_ret_iff] at hr
      obtain ⟨rfl, rfl⟩ := hr
      exact .inr (.inr (.inr ⟨_, id, rfl, rfl, hnone,
        List.mem_cons_of_mem _ List.mem_cons_self⟩))
    | error err =>
      refine .inr (.inl ⟨?_, hnone⟩)
      simp only [recordStoreFailure] at hr
      split_ifs at hr with hl
      · simp only [effect, perform, call_bind, ret_bind, pure_eq, runs_call_iff,
          runs_ret_iff] at hr
        obtain ⟨stamp, _, -, res, _, -, -, rfl⟩ := hr
        rfl
      · simp only [pure_eq, ret_bind, runs_ret_iff] at hr
        exact hr.2

lemma status_of_parse {header : Header} {e : IngressError} (h : parse header body = .error e) :
    e.status = 400 := by
  simp only [parse] at h
  repeat' split at h
  all_goals simp only [reduceCtorEq, Except.error.injEq] at h
  all_goals exact h ▸ rfl

/-- What a client is told by the proxy, and what happened. -/
inductive Told (h : Handler) (r : Request) : Trace → Reply → Prop
  | rejected (e : IngressError) (hs : e.status < 500)
      (hid : e.responseID.getD .null = correlationID h r) : Told h r [] (.rejected e)
  | failed {tr : Trace} {status : ℕ} {text : Bytes} (hf : forwards tr = [])
      (ht : status = 500 ∧ text = lit "Internal Server Error" ∨
        status = 503 ∧ text = lit "audit unavailable") :
      Told h r tr (.failed status text)
  | denied {tr : Trace} {inv : Invocation} {input : EvalInput} {decision : ProxyDecision}
      (hid : inv.responseID.getD .null = correlationID h r) (hf : forwards tr = [])
      (hev : evaluations tr = [(input, .ok decision)]) (ha : decision.action = .deny) :
      Told h r tr (.denied (nativeMCP r) inv decision)
  | held {tr : Trace} {inv : Invocation} {input : EvalInput} {decision : ProxyDecision}
      {arg : CreateQuarantineEntryParams} {id : Bytes}
      (hid : inv.responseID.getD .null = correlationID h r) (hf : forwards tr = [])
      (hev : evaluations tr = [(input, .ok decision)]) (ha : decision.action = .quarantine)
      (hc : ⟨.createQuarantineEntry arg, .ok id⟩ ∈ tr) :
      Told h r tr (.held (nativeMCP r) inv id decision)
  | forwarded {tr : Trace} (hf : forwards tr ≠ []) : Told h r tr .forwarded

/-- The decision is recorded and then enforced; `audit` is what recording it took. -/
lemma told_recorded (audit : Trace) {time stamp : Time} {rest : Trace} {entry : Ledger}
    (hid : inv.responseID.getD .null = correlationID h r) (haudit : evaluations audit = [])
    (hquiet : forwards audit = [])
    (hr : Runs (enforce h r body inv (evalInput inv (agentFromContext r.identity) time) decision
      entry) rest reply) :
    Told h r (⟨.now, time⟩ :: ⟨.evaluate (evalInput inv (agentFromContext r.identity) time),
      .ok decision⟩ :: ⟨.now, stamp⟩ :: (audit ++ rest)) reply := by
  have hev := (runs_enforce hr).observe.1
  have hevaluations : evaluations (⟨.now, time⟩ ::
      ⟨.evaluate (evalInput inv (agentFromContext r.identity) time), .ok decision⟩ ::
      ⟨.now, stamp⟩ :: (audit ++ rest)) =
      [(evalInput inv (agentFromContext r.identity) time, .ok decision)] := by
    rw [evaluations] at haudit hev ⊢
    simp [haudit, hev]
  have hforwards : forwards (⟨.now, time⟩ ::
      ⟨.evaluate (evalInput inv (agentFromContext r.identity) time), .ok decision⟩ ::
      ⟨.now, stamp⟩ :: (audit ++ rest)) = forwards rest := by
    rw [forwards] at hquiet
    simp [forwards, hquiet]
  rcases reply_enforce hr with ⟨rfl, hf⟩ | ⟨rfl, hf⟩ | ⟨rfl, ha, hf⟩ | ⟨arg, id, rfl, ha, hf, hc⟩
  · exact .forwarded (hforwards ▸ hf)
  · exact .failed (hforwards.trans hf) (.inl ⟨rfl, rfl⟩)
  · exact .denied hid (hforwards.trans hf) hevaluations ha
  · exact .held hid (hforwards.trans hf) hevaluations ha (List.mem_cons_of_mem _
      (List.mem_cons_of_mem _ (List.mem_cons_of_mem _ (List.mem_append_right _ hc))))

lemma told_evaluateParsed (hid : inv.responseID.getD .null = correlationID h r)
    (hr : Runs (evaluateParsed h r body inv) tr reply) : Told h r tr reply := by
  simp only [evaluateParsed, effect, perform, call_bind, ret_bind, runs_call_iff] at hr
  obtain ⟨time, _, rfl, outcome, _, rfl, hr⟩ := hr
  cases outcome with
  | error err =>
    simp only [pure_eq, runs_ret_iff] at hr
    obtain ⟨rfl, rfl⟩ := hr
    exact .failed rfl (.inl ⟨rfl, rfl⟩)
  | ok decision =>
    simp only [record, runs_call_iff] at hr
    obtain ⟨stamp, _, rfl, hr⟩ := hr
    split_ifs at hr with hl
    · simp only [effect, perform, call_bind, ret_bind, runs_call_iff] at hr
      obtain ⟨res, rest, rfl, hr⟩ := hr
      cases res with
      | some err =>
        obtain ⟨rfl, rfl⟩ := runs_ret_iff.mp hr
        exact .failed rfl (.inr ⟨rfl, rfl⟩)
      | none => exact told_recorded [⟨.append _, none⟩] hid rfl rfl hr
    · exact told_recorded [] hid rfl rfl hr

theorem told_serveHTTP (hr : Runs (serveHTTP h r) tr reply) : Told h r tr reply := by
  unfold serveHTTP at hr
  split_ifs at hr with hmethod
  · obtain ⟨rfl, rfl⟩ := runs_ret_iff.mp hr
    exact .rejected _ (by decide) (by simp [correlationID, hmethod])
  cases hread : r.body.readAll h.maxBodyBytes with
  | error e =>
    rw [hread] at hr
    have hid : correlationID h r = .null := by
      simp [correlationID, hread, Except.toOption]
    cases e with
    | tooLarge =>
      obtain ⟨rfl, rfl⟩ := runs_ret_iff.mp hr
      exact .rejected _ (by decide) hid.symm
    | failed e =>
      obtain ⟨rfl, rfl⟩ := runs_ret_iff.mp hr
      exact .rejected _ (by decide) hid.symm
  | ok body =>
    simp only [hread] at hr
    have hid : correlationID h r = bodyID body := by
      rw [correlationID, if_neg hmethod, hread]
      rfl
    cases hparse : parse r.header body with
    | error e =>
      simp only [hparse] at hr
      obtain ⟨rfl, rfl⟩ := runs_ret_iff.mp hr
      have hs : e.status = 400 := status_of_parse hparse
      exact .rejected e (by omega) ((parse_id.1 e hparse).trans hid.symm)
    | ok inv =>
      simp only [hparse] at hr
      exact told_evaluateParsed ((parse_id.2 inv hparse).trans hid.symm) hr

end Told

section Truth
variable {quote : Bytes → Bytes} {h : Handler} {r : Request} {tr : Trace} {reply : Reply}
  {resp : Response}

lemma get_setDecisionHeaders (outcome : Bytes) (decision : ProxyDecision) :
    (setDecisionHeaders ∅ outcome decision).get decisionHeader = outcome ∧
      (setDecisionHeaders ∅ outcome decision).get policyVersionHeader = decision.policyVersion ∧
      (setDecisionHeaders ∅ outcome decision).get quarantineIDHeader = [] := by
  have hversion : canonicalKey policyVersionHeader ≠ canonicalKey decisionHeader := by decide
  have hid : canonicalKey quarantineIDHeader ≠ canonicalKey decisionHeader := by decide
  have hid' : canonicalKey quarantineIDHeader ≠ canonicalKey policyVersionHeader := by decide
  rw [setDecisionHeaders]
  split_ifs with hnone
  · rw [get_set_self, get_set_of_ne _ _ hversion, get_set_of_ne _ _ hid, hnone]
    exact ⟨rfl, rfl, rfl⟩
  · rw [get_set_of_ne _ _ hversion.symm, get_set_self, get_set_self, get_set_of_ne _ _ hid',
      get_set_of_ne _ _ hid]
    exact ⟨rfl, rfl, rfl⟩

lemma get_writeJSON {header : Header} {status : ℕ} {body : List (Bytes × Json)} {name : Bytes}
    (hname : name ∈ [decisionHeader, policyVersionHeader, quarantineIDHeader]) :
    (writeJSON header status body).header.get name = header.get name := by
  have hne : ∀ name ∈ [decisionHeader, policyVersionHeader, quarantineIDHeader],
      canonicalKey name ≠ canonicalKey (lit "Content-Type") := by decide
  exact get_set_of_ne header _ (hne name hname)

/-- A response is neither a result, nor silent about the decision, nor about another request. -/
structure Truthful (h : Handler) (r : Request) (tr : Trace) (resp : Response) : Prop where
  refused : ¬ Success resp.body
  answers : resp.status < 500 → nativeMCP r = true ∨ evaluations tr = [] →
    Answers (correlationID h r) resp.body
  decided : resp.status < 500 → ∀ input decision, evaluations tr = [(input, .ok decision)] →
    resp.header.get decisionHeader = decision.action.text ∧
    resp.header.get policyVersionHeader = decision.policyVersion
  held : resp.header.get quarantineIDHeader ≠ [] → ∃ arg,
    ⟨.createQuarantineEntry arg, .ok (resp.header.get quarantineIDHeader)⟩ ∈ tr
  named : ∀ v, bodyQuarantineID resp.body = some v → ∃ arg id,
    ⟨.createQuarantineEntry arg, .ok id⟩ ∈ tr ∧ resp.header.get quarantineIDHeader = id ∧
      v = (Json.str id).cleaned

lemma truthful_writeIngressError {e : IngressError}
    (hid : e.responseID.getD .null = correlationID h r) :
    Truthful h r [] (writeIngressError quote e) := by
  have hecho : Echoable (e.responseID.getD .null) := hid ▸ echoable_correlationID h r
  obtain ⟨hsend, hdepth⟩ := sendable_errorObject e.code (render quote e.message)
  obtain ⟨hrefused, hanswers⟩ := refused_ingressError hecho
  refine ⟨hrefused, fun _ _ => hid ▸ hanswers, fun _ input decision hev => ?_, fun hheld => ?_,
    fun v hv => ?_⟩
  · simp [evaluations] at hev
  · exact absurd (get_writeJSON (by simp)) hheld
  · rw [writeIngressError, ingressError, bodyQuarantineID_writeJSON
      (sendable_envelope hecho.sendable (.inr rfl) hsend) (depth_envelope hecho.flat hdepth)] at hv
    exact absurd hv (by simp [show quarantineIDAt (.obj (envelope e.responseID (lit "error")
      (errorObject e.code (render quote e.message) []))) = none from rfl])

lemma truthful_httpError {status : ℕ} {text : Bytes} (hs : 500 ≤ status)
    (ht : text ∈ [lit "Internal Server Error", lit "audit unavailable",
      lit "upstream unavailable"]) : Truthful h r tr (httpError status text) := by
  have hplain : ∀ text ∈ [lit "Internal Server Error", lit "audit unavailable",
      lit "upstream unavailable"], (Mcp.decodeObject (text ++ [10])).toOption = none := by
    decide +kernel
  have hnone : (Mcp.decodeObject (httpError status text).body).toOption = none := hplain text ht
  refine ⟨?_, fun hlt => absurd hs (Nat.not_le.mpr hlt),
    fun hlt => absurd hs (Nat.not_le.mpr hlt), fun hheld => ?_, fun v hv => ?_⟩
  · rintro ⟨members, result, hdecode, -⟩
    rw [hdecode] at hnone
    simp [Except.toOption] at hnone
  · refine absurd ?_ hheld
    have hne : canonicalKey quarantineIDHeader ≠ canonicalKey (lit "X-Content-Type-Options") := by
      decide
    have hne' : canonicalKey quarantineIDHeader ≠ canonicalKey (lit "Content-Type") := by decide
    rw [httpError, get_set_of_ne _ _ hne, get_set_of_ne _ _ hne']
    rfl
  · rw [bodyQuarantineID, hnone] at hv
    simp at hv

lemma quarantineIDAt_outcome (inv : Invocation) (code : ℤ) (message text : Bytes)
    (details : List (Bytes × Json)) :
    quarantineIDAt (.obj (outcomeBody inv code message text details)) =
      member details (lit "quarantine_id") := by
  have hpath : atPath [lit "quarantine_id"] (.obj details) =
      member details (lit "quarantine_id") := Option.bind_fun_some _
  rw [outcomeBody, ← hpath, quarantineIDAt]
  split_ifs with hmethod
  · have hresult : atPath [lit "result", lit "_meta", decisionMetaKey, lit "quarantine_id"]
        (.obj (envelope inv.responseID (lit "result") (.obj (toolResult text details)))) =
        atPath [lit "quarantine_id"] (.obj details) := rfl
    rw [List.findSome?_cons, List.findSome?_cons, hresult]
    cases atPath [lit "quarantine_id"] (.obj details) <;> rfl
  · have herror : atPath [lit "error", lit "data", lit "quarantine_id"]
        (.obj (envelope inv.responseID (lit "error")
          (errorObject code message [(lit "data", .obj details)]))) =
        atPath [lit "quarantine_id"] (.obj details) := rfl
    rw [List.findSome?_cons, List.findSome?_cons, List.findSome?_cons, herror]
    cases atPath [lit "quarantine_id"] (.obj details) <;> rfl

lemma eq_of_decisionMeta {outcome id : Bytes} {decision : ProxyDecision} {v : Json}
    (h : member (decisionMeta quote outcome decision id) (lit "quarantine_id") = some v) :
    v = .str id := by
  rw [decisionMeta] at h
  split_ifs at h with hid
  · exact absurd h (by simp [member, lit])
  · exact (Option.some.inj h).symm

/-- A decision is told in both forms: natively as an outcome, else as a plain object without a
result. -/
lemma truthful_outcome {header : Header} {inv : Invocation} {input : EvalInput}
    {decision : ProxyDecision} {code : ℤ} {message text : Bytes}
    {details plain : List (Bytes × Json)} {status : ℕ}
    (hid : inv.responseID.getD .null = correlationID h r)
    (hev : evaluations tr = [(input, .ok decision)])
    (hdetails : Sendable (.obj details) ∧ depth (.obj details) = 1)
    (hplain : Sendable (.obj plain) ∧ depth (.obj plain) ≤ 9 ∧
      member plain (lit "result") = none)
    (hdecision : header.get decisionHeader = decision.action.text)
    (hversion : header.get policyVersionHeader = decision.policyVersion)
    (hheld : header.get quarantineIDHeader ≠ [] → ∃ arg,
      ⟨.createQuarantineEntry arg, .ok (header.get quarantineIDHeader)⟩ ∈ tr)
    (hnamed : ∀ v, member details (lit "quarantine_id") = some v ∨
      quarantineIDAt (.obj plain) = some v → ∃ arg id,
        ⟨.createQuarantineEntry arg, .ok id⟩ ∈ tr ∧ header.get quarantineIDHeader = id ∧
          v = .str id) :
    Truthful h r tr (if nativeMCP r then writeOutcome header inv code message text details
      else writeJSON header status plain) := by
  have htold : ∀ status body, Sendable (.obj body) → depth (.obj body) ≤ 9 →
      (∀ v, quarantineIDAt (.obj body) = some v →
        member details (lit "quarantine_id") = some v ∨ quarantineIDAt (.obj plain) = some v) →
      ¬ Success (writeJSON header status body).body →
      (nativeMCP r = true → Answers (correlationID h r) (writeJSON header status body).body) →
      Truthful h r tr (writeJSON header status body) := by
    intro status body hsend hdepth hwhere hrefused hanswers
    refine ⟨hrefused, fun _ hor => hanswers (hor.resolve_right (by simp [hev])),
      fun _ input' decision' hev' => ?_, ?_, fun v hv => ?_⟩
    · rw [get_writeJSON (by simp), get_writeJSON (by simp)]
      have heq := hev.symm.trans hev'
      simp only [List.cons.injEq, Prod.mk.injEq, Except.ok.injEq, and_true] at heq
      exact heq.2 ▸ ⟨hdecision, hversion⟩
    · rw [get_writeJSON (by simp)]
      exact hheld
    · rw [bodyQuarantineID_writeJSON hsend hdepth] at hv
      obtain ⟨w, hw, rfl⟩ := Option.map_eq_some_iff.mp hv
      obtain ⟨arg, id, hcreated, hheader, rfl⟩ := hnamed w (hwhere w hw)
      exact ⟨arg, id, hcreated, (get_writeJSON (by simp)).trans hheader, rfl⟩
  have hecho : Echoable (inv.responseID.getD .null) := hid ▸ echoable_correlationID h r
  split_ifs with hnative
  · obtain ⟨hrefused, hanswers⟩ := refused_writeOutcome hecho hdetails
    obtain ⟨hsend, hdepth⟩ := sendable_outcome hecho hdetails
    refine htold 200 _ hsend hdepth (fun v hv => ?_) hrefused fun _ => hid ▸ hanswers
    exact .inl ((quarantineIDAt_outcome inv code message text details).symm.trans hv)
  · exact htold status plain hplain.1 hplain.2.1 (fun v hv => .inr hv)
      (not_success_of_absent hplain.1 hplain.2.1 hplain.2.2) fun h => absurd h hnative

lemma truthful_writeDeny {inv : Invocation} {input : EvalInput} {decision : ProxyDecision}
    (hid : inv.responseID.getD .null = correlationID h r)
    (hev : evaluations tr = [(input, .ok decision)]) (ha : decision.action = .deny) :
    Truthful h r tr (writeDeny quote (nativeMCP r) inv decision) := by
  obtain ⟨hdecision, hversion, hnone⟩ := get_setDecisionHeaders (lit "deny") decision
  have hplain : Sendable (.obj [(lit "error", .str (lit "Denied by policy")),
      (lit "explanation", .str (render quote decision.explanation))]) := by
    refine sendable_obj [lit "error", lit "explanation"] rfl (by decide) (by decide) ?_
    simp only [List.forall_mem_cons]
    exact ⟨.str trivial, .str trivial, by simp⟩
  refine truthful_outcome hid hev (sendable_decisionMeta _ _ _)
    ⟨hplain, show 1 ≤ 9 by decide, rfl⟩ (by rw [hdecision, ha]; rfl) hversion
    (fun hheld => absurd hnone hheld) fun v hv => ?_
  -- neither form has a place for an id
  rcases hv with hv | hv
  · exact absurd hv (by simp [show member (decisionMeta quote (lit "deny") decision [])
      (lit "quarantine_id") = none from rfl])
  · exact absurd hv (by simp [show quarantineIDAt (.obj [(lit "error",
      .str (lit "Denied by policy")), (lit "explanation",
        .str (render quote decision.explanation))]) = none from rfl])

lemma truthful_writeQuarantine {inv : Invocation} {input : EvalInput} {decision : ProxyDecision}
    {arg : CreateQuarantineEntryParams} {id : Bytes}
    (hid : inv.responseID.getD .null = correlationID h r)
    (hev : evaluations tr = [(input, .ok decision)]) (ha : decision.action = .quarantine)
    (hc : ⟨.createQuarantineEntry arg, .ok id⟩ ∈ tr) :
    Truthful h r tr (writeQuarantine quote (nativeMCP r) inv id decision) := by
  obtain ⟨hdecision, hversion, -⟩ := get_setDecisionHeaders (lit "quarantine") decision
  have hplain : Sendable (.obj [(lit "quarantine_id", .str id),
      (lit "status", .str (lit "quarantined"))]) := by
    refine sendable_obj [lit "quarantine_id", lit "status"] rfl (by decide) (by decide) ?_
    simp only [List.forall_mem_cons]
    exact ⟨.str trivial, .str trivial, by simp⟩
  have hne : canonicalKey decisionHeader ≠ canonicalKey quarantineIDHeader := by decide
  have hne' : canonicalKey policyVersionHeader ≠ canonicalKey quarantineIDHeader := by decide
  refine truthful_outcome hid hev (sendable_decisionMeta _ _ _)
    ⟨hplain, show 1 ≤ 9 by decide, rfl⟩ ?_ ?_ (fun _ => ⟨arg, ?_⟩)
    fun v hv => ⟨arg, id, hc, get_set_self _ _ _, ?_⟩
  · rw [get_set_of_ne _ _ hne, hdecision, ha]
    rfl
  · rw [get_set_of_ne _ _ hne', hversion]
  · rw [get_set_self]
    exact hc
  · rcases hv with hv | hv
    · exact eq_of_decisionMeta hv
    · exact (Option.some.inj hv).symm

/-- Whatever the engine, the ledger, the store and the upstream answer: a request that the proxy
answers itself was not forwarded, unless the answer is 502 because there is none of the upstream
to pass on; and the answer does not read as a result of the call. Unless the proxy failed, a
client that declares a protocol version, or whose request was not evaluated, gets a JSON-RPC
response with the very id of its request, and the headers tell the decision and the version of
the policies that made it. A quarantine id is told, in the header or in the body, only if the
store has given it out for this request. -/
theorem own_answers_truthful {passed : Bool} (hr : Runs (serveHTTP h r) tr reply)
    (hresp : reply.response quote passed = some resp) :
    (forwards tr = [] ∨ passed = false ∧ resp = badGateway) ∧
      (resp.status = 502 ↔ forwards tr ≠ []) ∧ Truthful h r tr resp := by
  cases told_serveHTTP hr with
  | rejected e hs hid =>
    obtain rfl := Option.some.inj hresp
    refine ⟨.inl rfl, ⟨fun h502 => ?_, fun hf => absurd rfl hf⟩, truthful_writeIngressError hid⟩
    have hstatus : e.status = 502 := h502
    omega
  | @failed _ status text hf ht =>
    obtain rfl := Option.some.inj hresp
    refine ⟨.inl hf, ⟨fun h502 => ?_, fun hne => absurd hf hne⟩, ?_⟩
    · have hstatus : status = 502 := h502
      omega
    · exact truthful_httpError (by omega) (by rcases ht with ⟨-, rfl⟩ | ⟨-, rfl⟩ <;> simp)
  | denied hid hf hev ha =>
    obtain rfl := Option.some.inj hresp
    refine ⟨.inl hf, ⟨fun h502 => ?_, fun hne => absurd hf hne⟩, truthful_writeDeny hid hev ha⟩
    simp only [writeDeny] at h502
    split_ifs at h502 <;> simp [writeOutcome, writeJSON] at h502
  | held hid hf hev ha hc =>
    obtain rfl := Option.some.inj hresp
    refine ⟨.inl hf, ⟨fun h502 => ?_, fun hne => absurd hf hne⟩,
      truthful_writeQuarantine hid hev ha hc⟩
    simp only [writeQuarantine] at h502
    split_ifs at h502 <;> simp [writeOutcome, writeJSON] at h502
  | forwarded hf =>
    cases passed with
    | true => simp [Reply.response] at hresp
    | false =>
      obtain rfl := Option.some.inj hresp
      exact ⟨.inr ⟨rfl, rfl⟩, ⟨fun _ => hf, fun _ => rfl⟩,
        truthful_httpError (by decide) (by simp)⟩

def nativeRequest : Request :=
  { sampleRequest with
    header := (∅ : Header).set (lit "MCP-Protocol-Version") (lit "2026-07-28") }

def numberText : Json → Option Bytes
  | .num text => some text
  | _ => none

lemma eq_of_numberText {id : Json} {text : Bytes} (h : numberText id = some text) :
    id = .num text := by
  cases id <;> simp_all [numberText]

/-- A call that is denied, and one that is forwarded to an upstream that does not answer. -/
theorem own_answers_truthful_sample :
    (∃ tr reply resp, Runs (serveHTTP sampleHandler nativeRequest) tr reply ∧
      reply.response id true = some resp ∧ evaluations tr ≠ [] ∧ resp.status = 200 ∧
      Answers (.num (lit "1")) resp.body) ∧
    ∃ tr reply, Runs (serveHTTP sampleHandler nativeRequest) tr reply ∧
      reply.response id false = some badGateway ∧ forwards tr ≠ [] ∧
      ¬ Success badGateway.body := by
  constructor
  · have hr := runs_replay (smoothly .deny) (serveHTTP sampleHandler nativeRequest)
    have hstatus : (((serveHTTP sampleHandler nativeRequest).replay (smoothly .deny)).2.response
        id true).map Response.status = some 200 := by decide +kernel
    have heval : (evaluations ((serveHTTP sampleHandler nativeRequest).replay
        (smoothly .deny)).1).length = 1 := by decide +kernel
    have hid : correlationID sampleHandler nativeRequest = .num (lit "1") :=
      eq_of_numberText (by decide +kernel)
    obtain ⟨resp, hresp, hresp200⟩ := Option.map_eq_some_iff.mp hstatus
    have htrue := (own_answers_truthful hr hresp).2.2
    refine ⟨_, _, resp, hr, hresp, ?_, hresp200, hid ▸ htrue.answers (by omega) (.inl (by decide))⟩
    intro hnil
    simp [hnil] at heval
  · have hr := runs_replay (smoothly .allow) (serveHTTP sampleHandler nativeRequest)
    have hstatus : (((serveHTTP sampleHandler nativeRequest).replay (smoothly .allow)).2.response
        id false).map Response.status = some 502 := by decide +kernel
    obtain ⟨resp, hresp, hresp502⟩ := Option.map_eq_some_iff.mp hstatus
    obtain ⟨hforwarded, hiff, htrue⟩ := own_answers_truthful hr hresp
    have hf := hiff.mp hresp502
    obtain ⟨-, rfl⟩ := hforwarded.resolve_left hf
    exact ⟨_, _, hr, hresp, hf, htrue.refused⟩

end Truth

end KiteRail.Proxy
