import KiteRail.McpDecode
import KiteRail.ProxyIngress

namespace KiteRail.Proxy
open Bytes Json

/-- The value of the member whose unescaped name is `key`, as it stands in the text. -/
def rawMember (ms : List (List StrItem × Raw)) (key : Bytes) : Option Raw :=
  (ms.find? fun m => unquote m.1 == key).map Prod.snd

lemma member_read (ms : List (List StrItem × Raw)) (key : Bytes) :
    member (readMembers unquote ms) key = (rawMember ms key).map (Raw.read unquote) := by
  rw [readMembers_eq, member, rawMember, List.find?_map, Option.map_map, Option.map_map]
  rfl

/-- `key` is the member of `params` that a request with this method must name. -/
def Mirrors (method key : Bytes) : Prop :=
  (method = lit "tools/call" ∨ method = lit "prompts/get") ∧ key = lit "name" ∨
    method = lit "resources/read" ∧ key = lit "uri"

/-- The members of `params`, and what of the invocation they make. -/
structure Call (ps : List (List StrItem × Raw)) (ing : IngressRequest) : Prop where
  name : ∀ key, Mirrors ing.method key →
    (∃ items, rawMember ps key = some (.str items) ∧ ing.paramsName = unquote items) ∧
      ing.paramsName ≠ []
  unnamed : (∀ key, ¬ Mirrors ing.method key) → ing.paramsName = []
  tool : ing.tool = if ing.method = lit "tools/call" then ing.paramsName else ing.method
  toolArguments : ing.method = lit "tools/call" →
    rawMember ps (lit "arguments") = none ∧ ing.arguments = none ∨
      ∃ args, rawMember ps (lit "arguments") = some (.obj args) ∧
        ing.arguments = some (readMembers unquote args)
  otherArguments : ing.method ≠ lit "tools/call" → ing.arguments = some (readMembers unquote ps)

/-- The members of a request, and the invocation that they make. -/
structure Envelope (ms : List (List StrItem × Raw)) (ing : IngressRequest) : Prop where
  id : (rawMember ms (lit "id") = none ∧ ing.requestID = [] ∧ ing.responseID = none) ∨
    (∃ items, rawMember ms (lit "id") = some (.str items) ∧ ing.requestID = unquote items) ∧
      ing.responseID = some (.str ing.requestID) ∨
    rawMember ms (lit "id") = some (.num ing.requestID) ∧
      ing.responseID = some (.num ing.requestID)
  result : rawMember ms (lit "result") = none
  error : rawMember ms (lit "error") = none
  jsonrpc : ∃ items, rawMember ms (lit "jsonrpc") = some (.str items) ∧ lit "2.0" = unquote items
  method : ∃ items, rawMember ms (lit "method") = some (.str items) ∧ ing.method = unquote items
  nonempty : ing.method ≠ []
  params : ∃ ps, rawMember ms (lit "params") = some (.obj ps) ∧ Call ps ing

section Members
variable {ms : List (List StrItem × Raw)} {key : Bytes}

lemma member_eq_none : member (readMembers unquote ms) key = none ↔ rawMember ms key = none := by
  rw [member_read, Option.map_eq_none_iff]

lemma member_eq_str {s : Bytes} : member (readMembers unquote ms) key = some (.str s) ↔
    ∃ items, rawMember ms key = some (.str items) ∧ s = unquote items := by
  rw [member_read, Option.map_eq_some_iff]
  constructor
  · rintro ⟨v, hv, heq⟩
    cases v with
    | str items => exact ⟨items, hv, (Json.str.inj heq).symm⟩
    | _ => simp [Raw.read] at heq
  · rintro ⟨items, hv, rfl⟩
    exact ⟨_, hv, rfl⟩

lemma member_eq_num {text : Bytes} : member (readMembers unquote ms) key = some (.num text) ↔
    rawMember ms key = some (.num text) := by
  rw [member_read, Option.map_eq_some_iff]
  constructor
  · rintro ⟨v, hv, heq⟩
    cases v with
    | num text' => rwa [← Json.num.inj heq]
    | _ => simp [Raw.read] at heq
  · exact fun hv => ⟨_, hv, rfl⟩

lemma member_eq_obj {object : List (Bytes × Json)} :
    member (readMembers unquote ms) key = some (.obj object) ↔
      ∃ ps, rawMember ms key = some (.obj ps) ∧ object = readMembers unquote ps := by
  rw [member_read, Option.map_eq_some_iff]
  constructor
  · rintro ⟨v, hv, heq⟩
    cases v with
    | obj ps => exact ⟨ps, hv, (Json.obj.inj heq).symm⟩
    | _ => simp [Raw.read] at heq
  · rintro ⟨ps, hv, rfl⟩
    exact ⟨_, hv, rfl⟩

end Members

lemma requestIdentifier_eq_ok {body : List (Bytes × Json)} {requestID : Bytes}
    {responseID : Option Json} : requestIdentifier body = .ok (requestID, responseID) ↔
      (member body (lit "id") = none ∧ requestID = [] ∧ responseID = none) ∨
      (member body (lit "id") = some (.str requestID) ∧ responseID = some (.str requestID)) ∨
      (member body (lit "id") = some (.num requestID) ∧ responseID = some (.num requestID)) := by
  cases hid : member body (lit "id") with
  | none => simp [requestIdentifier, hid, eq_comm]
  | some v =>
    cases v with
    | str s =>
      simp only [requestIdentifier, hid, Except.ok.injEq, Prod.mk.injEq, Option.some.injEq,
        Json.str.injEq, reduceCtorEq, false_and, or_false, false_or]
      exact ⟨fun h => ⟨h.1, h.1 ▸ h.2.symm⟩, fun h => ⟨h.1, h.1 ▸ h.2.symm⟩⟩
    | num text =>
      simp only [requestIdentifier, hid, Except.ok.injEq, Prod.mk.injEq, Option.some.injEq,
        Json.num.injEq, reduceCtorEq, false_and, false_or]
      exact ⟨fun h => ⟨h.1, h.1 ▸ h.2.symm⟩, fun h => ⟨h.1, h.1 ▸ h.2.symm⟩⟩
    | _ => simp [requestIdentifier, hid]

lemma nameField_eq_some {method key : Bytes} :
    nameField method = some key ↔ Mirrors method key := by
  have hread : lit "resources/read" ≠ lit "tools/call" ∧
      lit "resources/read" ≠ lit "prompts/get" := by decide
  rw [nameField, Mirrors]
  split
  · rename_i h
    have hne : method ≠ lit "resources/read" := by
      rintro rfl
      exact h.elim hread.1 hread.2
    simp [h, hne, eq_comm]
  · rename_i h
    split
    · rename_i hm
      refine ⟨fun he => .inr ⟨hm, (Option.some.inj he).symm⟩, ?_⟩
      rintro (⟨hcall, -⟩ | ⟨-, rfl⟩)
      · exact absurd hcall h
      · rfl
    · rename_i hm
      simp [h, hm]

lemma mirroredName_eq_ok {method name : Bytes} {parameters : List (Bytes × Json)} :
    mirroredName method parameters = .ok name ↔
      (∀ key, Mirrors method key → member parameters key = some (.str name) ∧ name ≠ []) ∧
      ((∀ key, ¬ Mirrors method key) → name = []) := by
  simp only [← nameField_eq_some, mirroredName]
  cases hfield : nameField method with
  | none => simp [eq_comm]
  | some key =>
    simp only [Option.some.injEq, forall_eq', false_imp_iff, and_true]
    cases hm : member parameters key with
    | none => simp
    | some v =>
      cases v with
      | str s =>
        cases s with
        | nil => simp
        | cons b bs => simp +contextual [eq_comm]
      | _ => simp

lemma policyArguments_eq_ok {method : Bytes} {parameters : List (Bytes × Json)}
    {arguments : Option (List (Bytes × Json))} :
    policyArguments method parameters = .ok arguments ↔
      (method = lit "tools/call" → member parameters (lit "arguments") = none ∧ arguments = none ∨
        ∃ args, member parameters (lit "arguments") = some (.obj args) ∧
          arguments = some args) ∧
      (method ≠ lit "tools/call" → arguments = some parameters) := by
  rw [policyArguments]
  split
  · rename_i hm
    simp only [hm, true_imp_iff, ne_eq, not_true_eq_false, false_imp_iff, and_true]
    cases hargs : member parameters (lit "arguments") with
    | none => simp [eq_comm]
    | some v => cases v <;> simp [eq_comm]
  · rename_i hm
    simp [hm, eq_comm]

/-- The checks after the id. -/
lemma validateCall_eq_ok {body : List (Bytes × Json)} {requestID : Bytes}
    {responseID : Option Json} {ing : IngressRequest} :
    validateCall body requestID responseID = .ok ing ↔
      member body (lit "result") = none ∧ member body (lit "error") = none ∧
      member body (lit "jsonrpc") = some (.str (lit "2.0")) ∧
      ∃ parameters, member body (lit "method") = some (.str ing.method) ∧ ing.method ≠ [] ∧
        member body (lit "params") = some (.obj parameters) ∧
        mirroredName ing.method parameters = .ok ing.paramsName ∧
        policyArguments ing.method parameters = .ok ing.arguments ∧
        ing.tool = (if ing.method = lit "tools/call" then ing.paramsName else ing.method) ∧
        ing.requestID = requestID ∧ ing.responseID = responseID := by
  have hversion : (member body (lit "jsonrpc")).bind Json.str? = some (lit "2.0") ↔
      member body (lit "jsonrpc") = some (.str (lit "2.0")) := by
    cases member body (lit "jsonrpc") with
    | none => simp
    | some v => cases v <;> simp [Json.str?]
  constructor
  · intro h
    simp only [validateCall, bind, Except.bind, pure, Except.pure, throw, throwThe,
      MonadExceptOf.throw] at h
    split at h
    · simp at h
    rename_i hresult
    split at h
    · simp at h
    rename_i herror
    split at h
    · simp at h
    rename_i hjsonrpc
    refine ⟨by simpa using hresult, by simpa using herror, hversion.mp (not_not.mp hjsonrpc), ?_⟩
    split at h
    swap
    · simp at h
    rename_i methodRaw paramsRaw hmethod hparams
    split at h
    swap
    · simp at h
    rename_i b bs
    split at h
    swap
    · simp at h
    rename_i parameters
    split at h
    · simp at h
    rename_i name hname
    split at h
    · simp at h
    rename_i arguments hargs
    obtain rfl := Except.ok.inj h
    exact ⟨parameters, hmethod, by simp, hparams, hname, hargs, rfl, rfl, rfl⟩
  · rintro ⟨hresult, herror, hjsonrpc, parameters, hmethod, hne, hparams, hname, hargs, htool,
      rfl, rfl⟩
    obtain ⟨b, bs, heq⟩ := List.exists_cons_of_ne_nil hne
    obtain ⟨method, name, tool, arguments, requestID, responseID⟩ := ing
    simp only at hmethod hname hargs htool heq
    subst heq htool
    simp only [validateCall, hresult, herror, hversion.mpr hjsonrpc, hmethod, hparams, hname, hargs]
    rfl

lemma call_iff {ps : List (List StrItem × Raw)} {ing : IngressRequest} :
    Call ps ing ↔ mirroredName ing.method (readMembers unquote ps) = .ok ing.paramsName ∧
      policyArguments ing.method (readMembers unquote ps) = .ok ing.arguments ∧
      ing.tool = if ing.method = lit "tools/call" then ing.paramsName else ing.method := by
  simp only [mirroredName_eq_ok, policyArguments_eq_ok, member_eq_none, member_eq_str,
    member_eq_obj]
  constructor
  · intro h
    refine ⟨⟨h.name, h.unnamed⟩, ⟨fun hm => (h.toolArguments hm).imp id ?_, h.otherArguments⟩,
      h.tool⟩
    rintro ⟨args, hargs, heq⟩
    exact ⟨_, ⟨args, hargs, rfl⟩, heq⟩
  · rintro ⟨⟨hname, hnone⟩, ⟨hargs, hothers⟩, htool⟩
    refine ⟨hname, hnone, htool, fun hm => (hargs hm).imp id ?_, hothers⟩
    rintro ⟨_, ⟨args, hraw, rfl⟩, heq⟩
    exact ⟨args, hraw, heq⟩

/-- The envelope says of the text what the checks ask of the members that were read. -/
lemma envelope_iff {ms : List (List StrItem × Raw)} {ing : IngressRequest} :
    Envelope ms ing ↔
      requestIdentifier (readMembers unquote ms) = .ok (ing.requestID, ing.responseID) ∧
      validateCall (readMembers unquote ms) ing.requestID ing.responseID = .ok ing := by
  simp only [requestIdentifier_eq_ok, validateCall_eq_ok, member_eq_none, member_eq_str,
    member_eq_num, member_eq_obj]
  constructor
  · intro h
    obtain ⟨ps, hps, hcall⟩ := h.params
    obtain ⟨hname, hargs, htool⟩ := call_iff.mp hcall
    exact ⟨h.id, h.result, h.error, h.jsonrpc, _, h.method, h.nonempty, ⟨ps, hps, rfl⟩, hname,
      hargs, htool, trivial, trivial⟩
  · rintro ⟨hid, hresult, herror, hversion, _, hmethod, hne, ⟨ps, hps, rfl⟩, hname, hargs, htool,
      -⟩
    exact ⟨hid, hresult, herror, hversion, hmethod, hne, ps, hps,
      call_iff.mpr ⟨hname, hargs, htool⟩⟩

lemma validateIngress_eq_ok {b : Bytes} {ing : IngressRequest} :
    validateIngress b = .ok ing ↔ Utf8.valid b = true ∧ ∃ ms, Document (.obj ms) b ∧
      (Raw.obj ms).Distinct unquote ∧ Envelope ms ing := by
  rw [validateIngress]
  constructor
  · intro h
    split at h
    · simp at h
    rename_i body hbody
    split at h
    · simp at h
    rename_i requestID responseID hid
    split at h
    · simp at h
    rename_i ing' hcall
    obtain rfl := Except.ok.inj h
    obtain ⟨hvalid, ms, hdoc, hd, rfl⟩ := (Mcp.decodeObject_eq_ok b body).mp hbody
    obtain ⟨-, -, -, -, -, -, -, -, -, -, rfl, rfl⟩ := validateCall_eq_ok.mp hcall
    exact ⟨hvalid, ms, hdoc, hd, envelope_iff.mpr ⟨hid, hcall⟩⟩
  · rintro ⟨hvalid, ms, hdoc, hd, henv⟩
    obtain ⟨hid, hcall⟩ := envelope_iff.mp henv
    simp only [(Mcp.decodeObject_eq_ok b _).mpr ⟨hvalid, ms, hdoc, hd, rfl⟩, hid, hcall]

/-- The bodies that are accepted, the invocation that is made of each, and that numbers in
the arguments keep the text that they have in the body. -/
theorem ingress_grammar (b : Bytes) (ing : IngressRequest) :
    (validateIngress b = .ok ing ↔ Utf8.valid b = true ∧ ∃ ms, Document (.obj ms) b ∧
      (Raw.obj ms).Distinct unquote ∧ Envelope ms ing) ∧
    ∀ args, (Json.obj (readMembers unquote args)).numbers = (Raw.obj args).numbers :=
  ⟨validateIngress_eq_ok, fun args => numbers_read (.obj args)⟩

end KiteRail.Proxy
