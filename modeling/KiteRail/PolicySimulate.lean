import KiteRail.PolicyBundle
import KiteRail.ProxyEnforcement
import KiteRail.ProxyMirrors
import KiteRail.ProxyObjects
import KiteRail.TimeText

/-! The policy simulator. A reviewer posts the document that the proxy evaluated, or would
evaluate, and is told the decision. However the document is spelt and ordered, the engine is
asked about what it was asked about when the request was enforced. -/
namespace KiteRail.Policy
open Bytes Json Proxy Prog

section Handler

def maxSimulationBodyBytes : ℤ := 1048576

def zeroInput : EvalInput := ⟨[], [], [], none, [], ⟨-62135596800000000000, 0⟩, []⟩

def inputFields : List (Bytes × Decoder EvalInput) :=
  [(lit "protocol", field EvalInput.protocol (fun i v => { i with protocol := v }) decodeString),
    (lit "protocol_version",
      field EvalInput.protocolVersion (fun i v => { i with protocolVersion := v }) decodeString),
    (lit "tool", field EvalInput.tool (fun i v => { i with tool := v }) decodeString),
    (lit "arguments", field EvalInput.arguments (fun i v => { i with arguments := v }) decodeMap),
    (lit "agent", field EvalInput.agent (fun i v => { i with agent := v }) decodeString),
    (lit "timestamp",
      field EvalInput.timestamp (fun i v => { i with timestamp := v }) Time.decodeTime),
    (lit "raw_method", field EvalInput.rawMethod (fun i v => { i with rawMethod := v })
      decodeString)]

inductive SimulateReply
  | failed (status : ℕ) (text : Bytes)
  | decided (decision : ProxyDecision)

/-- A timestamp that was left out is the time of the simulation. -/
def defaultTimestamp (input : EvalInput) : Eff EvalInput :=
  if input.timestamp.isZero then do
    let now ← effect .now
    return { input with timestamp := now }
  else return input

def simulate (input : EvalInput) : Eff SimulateReply := do
  match ← effect (.evaluate (← defaultTimestamp input)) with
  | .error _ => return .failed 500 (lit "Internal server error")
  | .ok decision => return .decided decision

/-- The object is written as a map and read into the typed input. -/
def normalizedInput (object : List (Bytes × Json)) : Option EvalInput :=
  decodeNext zeroInput (decodeStruct inputFields) (encode (sorted (.obj object)))

def handleSimulate (body : BodyReader) : Eff SimulateReply :=
  match body.readAll maxSimulationBodyBytes with
  | .error .tooLarge => return .failed 413 (lit "Request body exceeds limit")
  | .error (.failed _) => return .failed 400 (lit "Invalid request body")
  | .ok text =>
    match (Mcp.decodeObject text).toOption.bind normalizedInput with
    | none => return .failed 400 (lit "Invalid request body")
    | some input =>
      if input.tool = [] ∨ input.agent = [] then
        return .failed 400 (lit "tool and agent are required")
      else simulate input

end Handler

section Document

def optional (name : Bytes) (text : Bytes) : List (Bytes × Json) :=
  if text = [] then [] else [(name, .str text)]

/-- The input as the members of a JSON object, empty optional fields left out. -/
def inputMembers (input : EvalInput) : List (Bytes × Json) :=
  (lit "agent", .str input.agent) ::
    (lit "arguments", input.arguments.elim .null .obj) ::
    (optional (lit "protocol") input.protocol ++
      (optional (lit "protocol_version") input.protocolVersion ++
        [(lit "raw_method", .str input.rawMethod),
          (lit "timestamp", .str input.timestamp.formatRFC3339Nano),
          (lit "tool", .str input.tool)]))

/-- Inputs that JSON can carry. -/
structure Sayable (input : EvalInput) : Prop where
  texts : ∀ t ∈ [input.protocol, input.protocolVersion, input.tool, input.agent, input.rawMethod],
    Utf8.valid t = true
  arguments : ∀ args, input.arguments = some args →
    Proper (.obj args) ∧ depth (.obj args) < maxNestingDepth
  strict : input.timestamp.Strict
  minutes : Time.WholeMinutes input.timestamp.offset

/-- The input with its arguments in the order of their names. -/
def sortedInput (input : EvalInput) : EvalInput :=
  { input with arguments := input.arguments.map fun args => sortMembers (sortedMembers args) }

variable {input : EvalInput}

def inputNames : List Bytes :=
  [lit "agent", lit "arguments", lit "protocol", lit "protocol_version", lit "raw_method",
    lit "timestamp", lit "tool"]

lemma optional_sublist (name text : Bytes) :
    ((optional name text).map Prod.fst).Sublist [name] := by
  rw [optional]
  split_ifs <;> simp

lemma inputMembers_names : ((inputMembers input).map Prod.fst).Sublist inputNames := by
  simp only [inputMembers, List.map_cons, List.map_append, List.map_nil, inputNames]
  refine .cons_cons _ (.cons_cons _ ?_)
  exact (optional_sublist _ _).append ((optional_sublist _ _).append (.refl _))

lemma sorted_inputMembers : sorted (.obj (inputMembers input)) =
    .obj (inputMembers (sortedInput input)) := by
  have hvalues : sortedMembers (inputMembers input) = inputMembers (sortedInput input) := by
    have hoptional : ∀ name text, (optional name text).map (fun m => (m.1, m.2.sorted)) =
        optional name text := by
      intro name text
      rw [optional]
      split_ifs <;> rfl
    have hargs : (input.arguments.elim .null .obj : Json).sorted =
        (sortedInput input).arguments.elim .null .obj := by
      cases h : input.arguments <;> simp [sortedInput, h, sorted]
    simp only [sortedMembers_eq, inputMembers, List.map_cons, List.map_append, List.map_nil,
      hoptional, hargs]
    rfl
  rw [sorted, hvalues]
  refine congrArg obj (List.Pairwise.insertionSort_eq ?_)
  have hnames : inputNames.Pairwise (· ≤ ·) := by decide
  exact List.pairwise_map.mp (hnames.sublist inputMembers_names)

lemma Sayable.proper (h : Sayable input) :
    Proper (.obj (inputMembers input)) ∧
      depth (.obj (inputMembers input)) ≤ maxNestingDepth := by
  have htexts := h.texts
  simp only [List.forall_mem_cons] at htexts
  obtain ⟨hprotocol, hversion, htool, hagent, hmethod, -⟩ := htexts
  have htime : Utf8.valid input.timestamp.formatRFC3339Nano = true :=
    Utf8.valid_of_ascii fun b hb => ((Time.formatRFC3339Nano_plain _).safe b hb).1
  have hargs : Proper (input.arguments.elim .null .obj) ∧
      depth (input.arguments.elim .null .obj) < maxNestingDepth := by
    cases ha : input.arguments with
    | none => exact ⟨.null, by simp [depth, maxNestingDepth]⟩
    | some args => exact h.arguments args ha
  have hoptional : ∀ name text, Utf8.valid text = true → ∀ m ∈ optional name text,
      Proper m.2 ∧ depth m.2 < maxNestingDepth := by
    intro name text ht m hm
    rw [optional] at hm
    split_ifs at hm
    · simp at hm
    · obtain rfl := List.mem_singleton.mp hm
      exact ⟨.str ht, by simp [depth, maxNestingDepth]⟩
  have hall : ∀ m ∈ inputMembers input, Proper m.2 ∧ depth m.2 < maxNestingDepth := by
    have hstr : ∀ t, Utf8.valid t = true → Proper (.str t) ∧ depth (.str t) < maxNestingDepth :=
      fun t ht => ⟨.str ht, by simp [depth, maxNestingDepth]⟩
    simp only [inputMembers, List.forall_mem_cons, List.forall_mem_append]
    exact ⟨hstr _ hagent, hargs, hoptional _ _ hprotocol, hoptional _ _ hversion,
      hstr _ hmethod, hstr _ htime, hstr _ htool, by simp⟩
  have hnames : ∀ name ∈ (inputMembers input).map Prod.fst, Utf8.valid name = true :=
    fun name hname => (by decide : ∀ name ∈ inputNames, Utf8.valid name = true) name
      (inputMembers_names.subset hname)
  refine ⟨.obj ((by decide : inputNames.Nodup).sublist inputMembers_names)
    (List.forall_mem_map.mp hnames) fun m hm => (hall m hm).1, ?_⟩
  have hdepth : depthMembers (inputMembers input) ≤ maxNestingDepth - 1 :=
    depthMembers_le.mpr fun m hm => Nat.le_sub_one_of_lt (hall m hm).2
  rw [depth]
  simp only [maxNestingDepth] at hdepth ⊢
  omega

lemma fills_optional {i : EvalInput} {name text : Bytes} {set : EvalInput → Bytes → EvalInput}
    {get : EvalInput → Bytes} (hname : Utf8.valid name = true)
    (hf : inputFields.find? (fun f => Header.equalFold name f.1) =
      some (name, field get set decodeString))
    (ht : Utf8.valid text = true) (hempty : set i [] = i) :
    Fills inputFields i (optional name text) (set i text) := by
  rw [optional]
  split_ifs with h
  · rw [h, hempty]
    exact .nil _
  · exact .cons hname hf (field_eq (decodeString_str ht)) (.nil _)

lemma decodeMap_spell {arguments : Option (List (Bytes × Json))}
    (h : ∀ args, arguments = some args → Proper (.obj args)) :
    decodeMap none (spell (arguments.elim .null .obj)) = (arguments, true) := by
  cases harg : arguments with
  | none => rfl
  | some args =>
    cases h args harg with
    | obj hnodup hnames hvalues =>
      rw [Option.elim_some, spell, spellMembers_eq, decodeMap, Option.getD_none,
        anyMembers_spell hnodup (by simp) hnames fun m hm => anyValue_spell (hvalues m hm),
        List.nil_append]

lemma fills_inputMembers (h : Sayable input) :
    Fills inputFields zeroInput (inputMembers input) input := by
  have htexts := h.texts
  simp only [List.forall_mem_cons] at htexts
  obtain ⟨hprotocol, hversion, htool, hagent, hmethod, -⟩ := htexts
  refine .cons (by decide) rfl (field_eq (decodeString_str hagent)) ?_
  have harguments := decodeMap_spell fun args ha => (h.arguments args ha).1
  refine .cons (by decide) rfl (field_eq harguments) ?_
  refine .append (fills_optional (by decide) rfl hprotocol rfl) ?_
  refine .append (fills_optional (by decide) rfl hversion rfl) ?_
  refine .cons (by decide) rfl (field_eq (decodeString_str hmethod)) ?_
  refine .cons (by decide) rfl (field_eq (Time.decodeTime_format h.strict h.minutes)) ?_
  exact .cons (by decide) rfl (field_eq (decodeString_str htool)) (.nil _)

lemma Sayable.sorted (h : Sayable input) : Sayable (sortedInput input) := by
  refine ⟨h.texts, fun args ha => ?_, h.strict, h.minutes⟩
  obtain ⟨args, hargs, rfl⟩ := Option.map_eq_some_iff.mp ha
  obtain ⟨hproper, hdepth⟩ := h.arguments args hargs
  have hsorted : Json.sorted (.obj args) = .obj (sortMembers (sortedMembers args)) := rfl
  rw [← hsorted]
  exact ⟨hproper.sorted, (depth_sorted _).trans_lt hdepth⟩

/-- An object that says an input is normalized to it, with its arguments in order. -/
lemma normalizedInput_eq {object : List (Bytes × Json)} (h : Sayable input)
    (hobject : Proper (.obj object)) (hsame : Same (.obj object) (.obj (inputMembers input))) :
    normalizedInput object = some (sortedInput input) := by
  have hsorted : Json.sorted (.obj object) = .obj (inputMembers (sortedInput input)) :=
    (sorted_eq_of_same hobject h.proper.1 hsame).trans sorted_inputMembers
  have hdec := (fills_inputMembers h.sorted).decodeStruct
  have hnext : decodeNext zeroInput (decodeStruct inputFields)
      (encode (.obj (inputMembers (sortedInput input))) ++ []) =
        decoded zeroInput (decodeStruct inputFields)
          (spell (.obj (inputMembers (sortedInput input)))) :=
    decodeNext_encode _ h.sorted.proper.1.numbers h.sorted.proper.2 (by simp [Follows])
  rw [List.append_nil] at hnext
  rw [normalizedInput, hsorted, hnext, decoded, hdec]
  rfl

end Document

section Shipped
open Rego Value
variable {input : EvalInput}

lemma argument_inputDocument (input : EvalInput) (name : String) :
    argument (inputDocument input) name = (input.arguments.bind fun args =>
      args.find? fun m => m.1 == lit name).map fun m => ofJson m.2 := by
  have hfield : (inputDocument input).field (lit "arguments") =
      some (input.arguments.elim .null fun arguments => ofJson (.obj arguments)) := by
    rw [inputDocument]
    cases input.arguments <;> rfl
  rw [argument, hfield, Option.bind_some]
  cases input.arguments with
  | none => rfl
  | some args =>
    simp only [Option.elim_some, field_ofJson, Json.get?, Option.bind_some, Option.map_map]
    rfl

/-- What a condition sees of an argument is the same after sorting if it does not look into
objects. -/
lemma any_argument (hargs : ∀ args, input.arguments = some args → (args.map Prod.fst).Nodup)
    {p : Value → Bool} (hp : ∀ v, p (ofJson (Json.sorted v)) = p (ofJson v)) (name : String) :
    (argument (inputDocument (sortedInput input)) name).any p =
      (argument (inputDocument input) name).any p := by
  rw [argument_inputDocument, argument_inputDocument, sortedInput]
  cases harg : input.arguments with
  | none => rfl
  | some args =>
    simp only [Option.map_some, Option.bind_some, find_sortMembers (hargs args harg)]
    cases args.find? fun m => m.1 == lit name with
    | none => rfl
    | some m => exact hp m.2

/-- The shipped policies do not look into objects. -/
lemma bundleDecisions_sorted
    (hargs : ∀ args, input.arguments = some args → (args.map Prod.fst).Nodup) :
    bundleDecisions (inputDocument (sortedInput input)) =
      bundleDecisions (inputDocument input) := by
  have hstr : ∀ v, (ofJson (Json.sorted v)).str? = (ofJson v).str? := by
    intro v
    cases v <;> rfl
  have hisString : ∀ v, (ofJson (Json.sorted v)).isString = (ofJson v).isString := by
    intro v
    cases v <;> rfl
  have hisNumber : ∀ v, (ofJson (Json.sorted v)).isNumber = (ofJson v).isNumber := by
    intro v
    cases v <;> rfl
  have hatMost : ∀ limit v, atMost limit (ofJson (Json.sorted v)) = atMost limit (ofJson v) := by
    intro limit v
    cases v <;> rfl
  have hssn := any_argument hargs (p := containsSsnPattern) fun v => by
    rw [containsSsnPattern, hisString, hstr, ← containsSsnPattern]
  have hnumber := any_argument hargs hisNumber
  have hstring := any_argument hargs hisString
  have hle : ∀ limit, _ := fun limit => any_argument hargs (hatMost limit)
  have hgt : ∀ limit, _ := fun limit => any_argument hargs (p := fun v => !atMost limit v)
    fun v => by rw [hatMost]
  have hnamed := any_argument hargs (p := fun v => v.str? != some []) fun v => by rw [hstr]
  have hamong := any_argument hargs (p := among highRiskJurisdictions) fun v => by
    rw [among, hstr, ← among]
  have htool : ∀ name, toolIs (inputDocument (sortedInput input)) name =
      toolIs (inputDocument input) name := fun _ => rfl
  have hprotocol : protocol (inputDocument (sortedInput input)) =
      protocol (inputDocument input) := rfl
  simp only [bundleDecisions, piiRedaction, refundLimit, refundAmountValid, wireTransfer,
    wireJurisdictionKnown, wireAmountKnown, jurisdictionHighRisk, hssn, hnumber, hstring, hle, hgt,
    hnamed, hamong, htool, hprotocol]

end Shipped

section Accepted
variable {header : Header} {body : Bytes} {inv : Invocation} {members : List (Bytes × Json)}

lemma decodeObject_of_ingress {ing : IngressRequest} (h : validateIngress body = .ok ing) :
    ∃ members, Mcp.decodeObject body = .ok members ∧
      validateCall members ing.requestID ing.responseID = .ok ing := by
  obtain ⟨hvalid, ms, hdoc, hd, henv⟩ := validateIngress_eq_ok.mp h
  exact ⟨_, (Mcp.decodeObject_eq_ok body _).mpr ⟨hvalid, ms, hdoc, hd, rfl⟩,
    (envelope_iff.mp henv).2⟩

/-- What the proxy makes of a body can be said in JSON. -/
lemma sayable_of_ingress {ing : IngressRequest} (h : validateIngress body = .ok ing) :
    (∀ args, ing.arguments = some args → Proper (.obj args) ∧
      depth (.obj args) < maxNestingDepth) ∧ Utf8.valid ing.method = true ∧
      Utf8.valid ing.tool = true ∧ ing.tool ≠ [] := by
  obtain ⟨members, hdecode, hcall⟩ := decodeObject_of_ingress h
  obtain ⟨hproper, hdepth⟩ := proper_of_decodeObject hdecode
  obtain ⟨-, -, -, parameters, hmethod, hne, hparams, hname, hargs, htool, -, -⟩ :=
    validateCall_eq_ok.mp hcall
  have hmethodValid := valid_of_member hproper hmethod
  obtain ⟨hpproper, hpdepth⟩ := proper_member (d := maxNestingDepth - 1) hproper hdepth hparams
  obtain ⟨htools, hothers⟩ := policyArguments_eq_ok.mp hargs
  obtain ⟨hmirror, -⟩ := mirroredName_eq_ok.mp hname
  refine ⟨fun args ha => ?_, hmethodValid, ?_⟩
  · by_cases hm : ing.method = lit "tools/call"
    · rcases htools hm with ⟨-, hnone⟩ | ⟨args', hmem, hsome⟩
      · simp [hnone] at ha
      · obtain rfl := Option.some.inj (hsome.symm.trans ha)
        obtain ⟨haproper, hadepth⟩ := proper_member (d := maxNestingDepth - 2) hpproper hpdepth hmem
        exact ⟨haproper, hadepth.trans_lt (by decide)⟩
    · obtain rfl := Option.some.inj ((hothers hm).symm.trans ha)
      exact ⟨hpproper, hpdepth.trans_lt (by decide)⟩
  · rw [htool]
    split_ifs with hm
    · obtain ⟨hmem, hnonempty⟩ := hmirror (lit "name") (.inl ⟨.inl hm, rfl⟩)
      exact ⟨valid_of_member hpproper hmem, hnonempty⟩
    · exact ⟨hmethodValid, hne⟩

lemma sayable_of_parse (h : parse header body = .ok inv) {agent : Bytes} {timestamp : Time}
    (hagent : Utf8.valid agent = true) (hstrict : timestamp.Strict)
    (hminutes : Time.WholeMinutes timestamp.offset) :
    Sayable (evalInput inv agent timestamp) ∧ inv.tool ≠ [] := by
  cases hing : validateIngress body with
  | error e => simp [Proxy.parse, hing] at h
  | ok ing =>
    obtain ⟨version, hversion, rfl⟩ := (parse_eq_ok hing).mp h
    obtain ⟨hargs, hmethod, htool, hne⟩ := sayable_of_ingress hing
    have hdeclared : Utf8.valid (version.getD []) = true := by
      obtain ⟨-, -, -, -, hmirrored, -⟩ :=
        (validateMirroredHeaders_eq_ok (paramsName_valid hing)).mp hversion
      cases hmirrored with
      | absent => rfl
      | single hclean =>
        refine Utf8.valid_of_ascii fun b hb => ?_
        rcases hclean.plain b hb with rfl | ⟨-, hle⟩
        · decide
        · exact UInt8.lt_of_le_of_lt hle (by decide)
    refine ⟨⟨?_, hargs, hstrict, hminutes⟩, hne⟩
    simp only [evalInput, List.forall_mem_cons]
    exact ⟨by decide, hdeclared, htool, hagent, hmethod, by simp⟩

end Accepted

section Parity
variable {h : Handler} {r : Request} {tr tr' : Trace} {reply : Reply} {reply' : SimulateReply}
  {input : EvalInput} {answer : Except GoError ProxyDecision} {body : BodyReader} {text : Bytes}
  {object : List (Bytes × Json)}

/-- What a simulation answers to the engine's answer. -/
def replyTo : Except GoError ProxyDecision → SimulateReply
  | .error _ => .failed 500 (lit "Internal server error")
  | .ok decision => .decided decision

/-- A simulation of an input asks about it and answers with what it is told. -/
lemma runs_handleSimulate (hsay : Sayable input) (htool : input.tool ≠ [])
    (hagent : input.agent ≠ []) (htime : input.timestamp.isZero = false)
    (hread : body.readAll maxSimulationBodyBytes = .ok text)
    (hdecode : Mcp.decodeObject text = .ok object)
    (hsame : Same (.obj object) (.obj (inputMembers input)))
    (hsim : Runs (handleSimulate body) tr' reply') :
    ∃ told, tr' = [⟨.evaluate (sortedInput input), told⟩] ∧ reply' = replyTo told := by
  have hobject := (proper_of_decodeObject hdecode).1
  have hprogram : handleSimulate body = simulate (sortedInput input) := by
    simp only [handleSimulate, hread, hdecode, Except.toOption, Option.bind_some,
      normalizedInput_eq hsay hobject hsame]
    exact if_neg (not_or.mpr ⟨htool, hagent⟩)
  have hstamped : defaultTimestamp (sortedInput input) = .ret (sortedInput input) := by
    rw [defaultTimestamp, if_neg (by simpa [sortedInput] using htime)]
    rfl
  rw [hprogram, simulate, hstamped] at hsim
  obtain ⟨told, rest, rfl, hrest⟩ := runs_call_iff.mp hsim
  cases told with
  | error err =>
    obtain ⟨rfl, rfl⟩ := runs_ret_iff.mp hrest
    exact ⟨.error err, rfl, rfl⟩
  | ok decision =>
    obtain ⟨rfl, rfl⟩ := runs_ret_iff.mp hrest
    exact ⟨.ok decision, rfl, rfl⟩

lemma evaluated_input {rbody : Bytes} {inv : Invocation} (he : Evaluated h r rbody inv tr)
    (hmem : (input, answer) ∈ evaluations tr) :
    ∃ time, input = evalInput inv (agentFromContext r.identity) time := by
  cases he with
  | unevaluated time err =>
    obtain ⟨rfl, -⟩ : input = _ ∧ answer = _ := by simpa [evaluations] using hmem
    exact ⟨time, rfl⟩
  | unrecorded time stamp decision entry err =>
    obtain ⟨rfl, -⟩ : input = _ ∧ answer = _ := by simpa [evaluations] using hmem
    exact ⟨time, rfl⟩
  | recorded time stamp decision rest hrest =>
    have hnone : evaluations rest = [] := hrest.observe.1
    simp only [evaluations] at hnone hmem
    split_ifs at hmem <;>
      simp only [List.filterMap_cons, List.filterMap_append, List.filterMap_nil, List.nil_append,
        hnone, List.append_nil, List.mem_singleton, Prod.mk.injEq] at hmem <;>
      exact ⟨time, hmem.1⟩

/-- A request and a simulation of the input that was evaluated for it, however the document is
spelt: the engine is asked about the same input up to the order of members, so the shipped
policies decide alike, and the simulation answers with what the engine says. -/
theorem simulation_matches_enforcement (hr : Runs (serveHTTP h r) tr reply)
    (heval : (input, answer) ∈ evaluations tr)
    (hagent : Utf8.valid input.agent = true ∧ input.agent ≠ [])
    (hclock : input.timestamp.Strict ∧ Time.WholeMinutes input.timestamp.offset ∧
      input.timestamp.isZero = false)
    (hread : body.readAll maxSimulationBodyBytes = .ok text)
    (hdecode : Mcp.decodeObject text = .ok object)
    (hsame : Same (.obj object) (.obj (inputMembers input)))
    (hsim : Runs (handleSimulate body) tr' reply') :
    ∃ asked told, tr' = [⟨.evaluate asked, told⟩] ∧ reply' = replyTo told ∧
      asked = { input with arguments := asked.arguments } ∧
      Same (asked.arguments.elim .null .obj) (input.arguments.elim .null .obj) ∧
      ∀ json version, evaluateBundle json version asked = evaluateBundle json version input := by
  rcases runs_serveHTTP hr with ⟨rfl, -⟩ | ⟨rbody, inv, haccepted, hevaluated⟩
  · simp [evaluations] at heval
  obtain ⟨time, hinput⟩ := evaluated_input hevaluated heval
  obtain ⟨hsay, htool⟩ : Sayable input ∧ input.tool ≠ [] := by
    rw [hinput] at hagent hclock ⊢
    exact sayable_of_parse haccepted.parsed hagent.1 hclock.1 hclock.2.1
  obtain ⟨told, htrace, hreply⟩ := runs_handleSimulate hsay htool hagent.2 hclock.2.2 hread hdecode
    hsame hsim
  refine ⟨_, told, htrace, hreply, rfl, ?_, fun json version => ?_⟩
  · rw [sortedInput]
    cases input.arguments with
    | none => exact same_refl .null
    | some args => exact same_sorted (.obj args)
  · have hnodup : ∀ args, input.arguments = some args → (args.map Prod.fst).Nodup := by
      intro args hargs
      cases (hsay.arguments args hargs).1 with
      | obj hnodup _ _ => exact hnodup
    rw [evaluateBundle, evaluateBundle, bundleDecisions_sorted hnodup]

/-- An object is decoded from a text if it is written like what is decoded. -/
lemma decodeObject_of_encode {members : List (Bytes × Json)} (hproper : Proper (.obj members))
    (hdepth : depth (.obj members) ≤ maxNestingDepth)
    (h : (Mcp.decodeObject text).toOption.map (fun ms => encode (.obj ms)) =
      some (encode (.obj members))) : Mcp.decodeObject text = .ok members := by
  cases hdecode : Mcp.decodeObject text with
  | error err => simp [hdecode, Except.toOption] at h
  | ok decoded =>
    obtain ⟨hproper', hdepth'⟩ := proper_of_decodeObject hdecode
    have hencode : encode (.obj decoded) = encode (.obj members) := by
      simpa [hdecode, Except.toOption] using h
    rw [← decodeObject_encode hproper' hdepth', hencode, decodeObject_encode hproper hdepth]

def refundRequest : Request :=
  ⟨lit "POST", ⟨[], [], lit "/", [], []⟩, ∅,
    ⟨lit "\x7b\"jsonrpc\":\"2.0\",\"id\":1,\"method\":\"tools/call\",\"params\":" ++
      lit "\x7b\"name\":\"stripe.charge.refund\",\"arguments\":" ++
      lit "\x7b\"reason\":\"late\",\"amount\":250\x7d\x7d\x7d", none⟩,
    some ⟨lit "agent-7", .agent⟩⟩

def refundInput : EvalInput :=
  ⟨lit "mcp", [], lit "stripe.charge.refund",
    some [(lit "reason", .str (lit "late")), (lit "amount", .num (lit "250"))],
    lit "agent-7", ⟨0, 0⟩, lit "tools/call"⟩

/-- The input in another order, with space and escapes. -/
def refundText : Bytes :=
  lit "\x7b \"tool\": \"stripe.charge.refund\",\n \"raw_method\": \"tools\\/call\"," ++
    lit " \"arguments\": \x7b\"amount\": 250, \"reason\": \"l\\u0061te\"\x7d," ++
    lit " \"timestamp\": \"1970-01-01T00:00:00Z\", \"protocol\": \"mcp\"," ++
    lit " \"agent\": \"agent\\u002d7\" \x7d"

def refundObject : List (Bytes × Json) :=
  [(lit "tool", .str (lit "stripe.charge.refund")), (lit "raw_method", .str (lit "tools/call")),
    (lit "arguments", .obj [(lit "amount", .num (lit "250")), (lit "reason", .str (lit "late"))]),
    (lit "timestamp", .str (lit "1970-01-01T00:00:00Z")), (lit "protocol", .str (lit "mcp")),
    (lit "agent", .str (lit "agent-7"))]

lemma refundObject_proper :
    Proper (.obj refundObject) ∧ depth (.obj refundObject) ≤ maxNestingDepth := by
  have hargs : Proper
      (.obj [(lit "amount", .num (lit "250")), (lit "reason", .str (lit "late"))]) := by
    refine .obj (by decide) (by decide) ?_
    simp only [List.forall_mem_cons]
    exact ⟨.num (number_decimal 250), .str (by decide), by simp⟩
  refine ⟨.obj (by decide) (by decide) ?_, by decide⟩
  simp only [refundObject, List.forall_mem_cons]
  exact ⟨.str (by decide), .str (by decide), hargs, .str (by decide), .str (by decide),
    .str (by decide), by simp⟩

lemma same_of_mem {as bs : List (Bytes × Json)} (hlength : as.length = bs.length)
    (h : ∀ m ∈ as, m ∈ bs) : Same (.obj as) (.obj bs) := by
  rw [Same, sameMembers_iff]
  exact ⟨hlength, fun m hm => ⟨m.2, h m hm, same_refl _⟩⟩

lemma refundObject_same : Same (.obj refundObject) (.obj (inputMembers refundInput)) := by
  have htime : (⟨0, 0⟩ : Time).formatRFC3339Nano = lit "1970-01-01T00:00:00Z" := by decide +kernel
  have hmembers : inputMembers refundInput = [(lit "agent", .str (lit "agent-7")),
      (lit "arguments", .obj [(lit "reason", .str (lit "late")), (lit "amount", .num (lit "250"))]),
      (lit "protocol", .str (lit "mcp")), (lit "raw_method", .str (lit "tools/call")),
      (lit "timestamp", .str (lit "1970-01-01T00:00:00Z")),
      (lit "tool", .str (lit "stripe.charge.refund"))] := by
    rw [← htime]
    rfl
  have hargs : Same (.obj [(lit "amount", .num (lit "250")), (lit "reason", .str (lit "late"))])
      (.obj [(lit "reason", .str (lit "late")), (lit "amount", .num (lit "250"))]) :=
    same_of_mem rfl (by simp)
  rw [hmembers, Same, sameMembers_iff]
  simp only [refundObject, List.forall_mem_cons]
  exact ⟨rfl, ⟨_, by simp, same_refl _⟩, ⟨_, by simp, same_refl _⟩, ⟨_, by simp, hargs⟩,
    ⟨_, by simp, same_refl _⟩, ⟨_, by simp, same_refl _⟩, ⟨_, by simp, same_refl _⟩, by simp⟩

def textAndNumber : Option (List (Bytes × Json)) → Option (List Bytes)
  | some [(name, .str text), (name', .num text')] => some [name, text, name', text']
  | _ => none

lemma eq_of_textAndNumber {arguments : Option (List (Bytes × Json))} {name text name' text' : Bytes}
    (h : textAndNumber arguments = some [name, text, name', text']) :
    arguments = some [(name, .str text), (name', .num text')] := by
  rw [textAndNumber.eq_def] at h
  split at h
  · simpa [and_assoc] using h
  · simp at h

theorem simulation_matches_enforcement_refund : ∃ tr reply answer asked told reply',
    Runs (serveHTTP sampleHandler refundRequest) tr reply ∧
      (refundInput, answer) ∈ evaluations tr ∧
      Runs (handleSimulate ⟨refundText, none⟩) [⟨.evaluate asked, told⟩] reply' ∧
      ∀ json version,
        evaluateBundle json version asked = evaluateBundle json version refundInput := by
  have hr := runs_replay (smoothly .allow) (serveHTTP sampleHandler refundRequest)
  set tr := ((serveHTTP sampleHandler refundRequest).replay (smoothly .allow)).1
  have hfacts : ((evaluations tr).head?.map fun e => ([e.1.protocol, e.1.protocolVersion,
      e.1.tool, e.1.agent, e.1.rawMethod], textAndNumber e.1.arguments, e.1.timestamp)) =
      some ([lit "mcp", [], lit "stripe.charge.refund", lit "agent-7", lit "tools/call"],
        some [lit "reason", lit "late", lit "amount", lit "250"], ⟨0, 0⟩) := by decide +kernel
  obtain ⟨⟨input, answer⟩, hhead, hinput⟩ := Option.map_eq_some_iff.mp hfacts
  obtain rfl : input = refundInput := by
    obtain ⟨protocol, version, tool, arguments, agent, timestamp, rawMethod⟩ := input
    simp only [Prod.mk.injEq, List.cons.injEq, and_true] at hinput
    obtain ⟨⟨rfl, rfl, rfl, rfl, rfl⟩, harguments, rfl⟩ := hinput
    rw [eq_of_textAndNumber harguments]
    rfl
  have heval : (refundInput, answer) ∈ evaluations tr := List.mem_of_mem_head? hhead
  have hclock : refundInput.timestamp.Strict ∧ Time.WholeMinutes refundInput.timestamp.offset ∧
      refundInput.timestamp.isZero = false :=
    ⟨⟨by decide, by decide, by decide⟩, rfl, by decide⟩
  have hagent : Utf8.valid refundInput.agent = true ∧ refundInput.agent ≠ [] := by decide
  have hread : BodyReader.readAll maxSimulationBodyBytes ⟨refundText, none⟩ = .ok refundText :=
    if_neg (by decide +kernel)
  have hdecode : Mcp.decodeObject refundText = .ok refundObject :=
    decodeObject_of_encode refundObject_proper.1 refundObject_proper.2 (by decide +kernel)
  have hsim := runs_replay (smoothly .allow) (handleSimulate ⟨refundText, none⟩)
  obtain ⟨asked, told, htrace, -, -, -, hbundle⟩ := simulation_matches_enforcement hr heval hagent
    hclock hread hdecode refundObject_same hsim
  rw [htrace] at hsim
  exact ⟨tr, _, answer, asked, told, _, hr, heval, hsim, hbundle⟩

end Parity

end KiteRail.Policy
