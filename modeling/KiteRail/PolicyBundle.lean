import KiteRail.PolicyDecision
import KiteRail.ProxyHandler

/-! The shipped policies on the document that the proxy hands to the engine. A condition
of a rule body holds if the expression is defined and not false, so a negation also holds
where the expression is undefined. -/
namespace KiteRail.Policy
open Bytes Rego Value

/-- `input.arguments[name]`. -/
def argument (input : Value) (name : String) : Option Value :=
  (input.field (lit "arguments")).bind fun arguments => arguments.field (lit name)

/-- `input.tool == name`. -/
def toolIs (input : Value) (name : String) : Bool := input.text (lit "tool") = some (lit name)

/-- `decisions contains {…} if body`. -/
def contribute (action : Action) (rule explanation : String) (body : Bool) : List Value :=
  if body then [candidate action.text (lit rule) (lit explanation)] else []

/-! `pii_redaction.rego` -/

def digit (b : UInt8) : Bool := 48 ≤ b && b ≤ 57

def ssnPattern : List (UInt8 → Bool) :=
  [digit, digit, digit, (· == 45), digit, digit, (· == 45), digit, digit, digit, digit]

def containsSsnPattern (value : Value) : Bool :=
  value.isString && value.str?.any (regexMatch ssnPattern)

def piiRedaction (input : Value) : List Value :=
  contribute .deny "pii_ssn_detected" "SSN pattern detected in payload destined for external model"
    (["ssn", "social_security", "tax_id"].any fun field =>
      (argument input field).any containsSsnPattern)

/-! `refund_limit.rego` -/

def refundAmountValid (input : Value) : Bool := (argument input "amount").any isNumber

def refundLimit (input : Value) : List Value :=
  contribute .allow "refund_under_limit" "Refund amount within autonomous limit"
    (toolIs input "stripe.charge.refund" && refundAmountValid input &&
      (argument input "amount").any (atMost 1000)) ++
  contribute .quarantine "refund_over_limit"
    "Refund exceeds the $1,000 autonomous limit. Routed to human approval."
    (toolIs input "stripe.charge.refund" && refundAmountValid input &&
      (argument input "amount").any fun amount => !atMost 1000 amount) ++
  contribute .quarantine "refund_amount_invalid"
    "Refund amount is missing or not a number. Routed to human approval."
    (toolIs input "stripe.charge.refund" && !refundAmountValid input)

/-! `wire_transfer.rego` -/

def highRiskJurisdictions : List Bytes :=
  [lit "HIGH_RISK", lit "SANCTIONED", lit "OFAC_FLAGGED"]

def wireJurisdictionKnown (input : Value) : Bool :=
  (argument input "jurisdiction").any isString &&
    (argument input "jurisdiction").any fun jurisdiction => jurisdiction.str? != some []

def wireAmountKnown (input : Value) : Bool := (argument input "amount").any isNumber

def jurisdictionHighRisk (input : Value) : Bool :=
  (argument input "jurisdiction").any (among highRiskJurisdictions)

def wireTransfer (input : Value) : List Value :=
  contribute .deny "aml_jurisdiction_block"
    "Transfer to OFAC-flagged jurisdiction blocked by AML policy"
    (toolIs input "swift.wire.initiate" && jurisdictionHighRisk input) ++
  contribute .quarantine "wire_incomplete"
    "Wire transfer is missing a valid jurisdiction or amount. Routed to compliance review."
    (toolIs input "swift.wire.initiate" && !wireJurisdictionKnown input) ++
  contribute .quarantine "wire_incomplete"
    "Wire transfer is missing a valid jurisdiction or amount. Routed to compliance review."
    (toolIs input "swift.wire.initiate" && !wireAmountKnown input) ++
  contribute .quarantine "wire_high_value"
    "Wire transfer exceeds $10,000. Routed to compliance review."
    (toolIs input "swift.wire.initiate" && wireJurisdictionKnown input &&
      !jurisdictionHighRisk input && wireAmountKnown input &&
      (argument input "amount").any fun amount => !atMost 10000 amount) ++
  contribute .allow "wire_allowed" "Wire transfer within limits and to approved jurisdiction"
    (toolIs input "swift.wire.initiate" && wireJurisdictionKnown input &&
      !jurisdictionHighRisk input && wireAmountKnown input &&
      (argument input "amount").any (atMost 10000))

/-! `protocol.rego` -/

def mcpDiscoveryMethods : List Bytes :=
  [lit "initialize", lit "ping", lit "tools/list", lit "resources/list",
    lit "resources/templates/list", lit "prompts/list"]

def protocol (input : Value) : List Value :=
  contribute .allow "mcp_protocol_discovery" "Read-only MCP protocol operation"
    ((input.field (lit "raw_method")).any (among mcpDiscoveryMethods))

/-- `decisions` of the shipped bundle. -/
def bundleDecisions (input : Value) : List Value :=
  piiRedaction input ++ refundLimit input ++ wireTransfer input ++ protocol input

/-- `Evaluate` with the shipped bundle loaded. -/
def evaluateBundle (json : JsonBuiltins) (version : Bytes) (input : EvalInput) : ProxyDecision :=
  decided json version (bundleDecisions (inputDocument input))

section Bids
variable {a : Action} {xs ys : List Value} {json : JsonBuiltins} {version : Bytes}

def Bids (a : Action) (decisions : List Value) : Prop :=
  ∃ d ∈ decisions, d.text (lit "action") = some a.text

lemma bids_append : Bids a (xs ++ ys) ↔ Bids a xs ∨ Bids a ys := by
  simp only [Bids, List.mem_append, or_and_right, exists_or]

lemma text_candidate (action rule explanation : Bytes) :
    (candidate action rule explanation).text (lit "action") = some action ∧
      (candidate action rule explanation).text (lit "rule") = some rule := by
  have hne : lit "action" ≠ lit "rule" := by decide
  simp [candidate, record, Value.text, Value.field, Value.str?, hne]

lemma text_injective : Function.Injective Action.text := by
  have hdeny : lit "allow" ≠ lit "deny" := by decide
  have hquarantine : lit "allow" ≠ lit "quarantine" := by decide
  have hboth : lit "deny" ≠ lit "quarantine" := by decide
  intro a b h
  cases a <;> cases b <;> grind [Action.text]

lemma bids_contribute {b : Action} {rule explanation : String} {body : Bool} :
    Bids a (contribute b rule explanation body) ↔ body = true ∧ b = a := by
  cases body with
  | false => simp [Bids, contribute]
  | true => simp [Bids, contribute, (text_candidate _ _ _).1, text_injective.eq_iff]

lemma decided_of_bids (json : JsonBuiltins) (version : Bytes) (hwf : ∀ d ∈ xs, WellFormed d) :
    ((decided json version xs).action = .allow ↔
      Bids .allow xs ∧ ¬ Bids .deny xs ∧ ¬ Bids .quarantine xs) ∧
    ((decided json version xs).action = .quarantine ↔ Bids .quarantine xs ∧ ¬ Bids .deny xs) ∧
    ((decided json version xs).action = .deny ↔
      Bids .deny xs ∨ ¬ Bids .quarantine xs ∧ ¬ Bids .allow xs) := by
  by_cases hnil : xs = []
  · subst hnil
    have hbids : ∀ a, ¬ Bids a [] := by simp [Bids]
    have hdeny : (decided json version []).action = .deny := by
      rw [decided_default (by simp [aggregated])]
    simp [hbids, hdeny]
  · obtain ⟨d, hw, haction, -⟩ := decided_wellFormed json version hnil hwf
    have hbids : Bids (decided json version xs).action xs := ⟨d, hw.mem, haction⟩
    have hmax : ∀ b, Bids b xs → rank b ≤ rank (decided json version xs).action := by
      rintro b ⟨e, he, hb⟩
      exact hw.rank_le he hb
    have hdeny := hmax .deny
    have hquarantine := hmax .quarantine
    have hpos : rank (decided json version xs).action ≠ 0 := by
      rcases severityOf_cases hw.severity with ⟨-, hn⟩ | ⟨-, hn⟩ | ⟨-, hn⟩ <;> omega
    cases ha : (decided json version xs).action <;> rw [ha] at hbids hdeny hquarantine hpos <;>
      simp_all [rank]

end Bids

/-! What the policies see of an invocation. -/

section Input
variable {inv : Proxy.Invocation} {agent : Bytes} {timestamp : Time} {a : Action}

def arg (inv : Proxy.Invocation) (name : String) : Option Json :=
  inv.arguments.bind fun arguments => Proxy.member arguments (lit name)

/-- Three digits, two digits and four digits with dashes between them, somewhere. -/
def HasSsn (s : Bytes) : Prop :=
  ∃ before area group serial after,
    s = before ++ (area ++ 45 :: (group ++ 45 :: (serial ++ after))) ∧
    area.length = 3 ∧ group.length = 2 ∧ serial.length = 4 ∧
    ∀ b ∈ area ++ group ++ serial, digit b = true

def Tainted (inv : Proxy.Invocation) : Prop :=
  ∃ name ∈ ["ssn", "social_security", "tax_id"], ∃ s, arg inv name = some (.str s) ∧ HasSsn s

def AmountWithin (inv : Proxy.Invocation) (limit : ℚ) : Prop :=
  ∃ text, arg inv "amount" = some (.num text) ∧ number text ≤ limit

def HighRisk (inv : Proxy.Invocation) : Prop :=
  ∃ s ∈ highRiskJurisdictions, arg inv "jurisdiction" = some (.str s)

def NamesJurisdiction (inv : Proxy.Invocation) : Prop :=
  ∃ s, arg inv "jurisdiction" = some (.str s) ∧ s ≠ []

/-- The calls that need nobody's approval. -/
def Permitted (inv : Proxy.Invocation) : Prop :=
  inv.method ∈ mcpDiscoveryMethods ∨
  inv.tool = lit "stripe.charge.refund" ∧ AmountWithin inv 1000 ∨
  inv.tool = lit "swift.wire.initiate" ∧ NamesJurisdiction inv ∧ ¬ HighRisk inv ∧
    AmountWithin inv 10000

/-- The calls that somebody may approve. -/
def Reviewable (inv : Proxy.Invocation) : Prop :=
  inv.tool = lit "stripe.charge.refund" ∨ inv.tool = lit "swift.wire.initiate" ∧ ¬ HighRisk inv

lemma field_document (inv : Proxy.Invocation) (agent : Bytes) (timestamp : Time) :
    let document := inputDocument (Proxy.evalInput inv agent timestamp)
    document.field (lit "tool") = some (.str inv.tool) ∧
    document.field (lit "raw_method") = some (.str inv.method) ∧
    document.field (lit "arguments") = some (match inv.arguments with
      | some arguments => ofJson (.obj arguments)
      | none => .null) :=
  ⟨rfl, rfl, rfl⟩

lemma argument_document (inv : Proxy.Invocation) (agent : Bytes) (timestamp : Time)
    (name : String) :
    argument (inputDocument (Proxy.evalInput inv agent timestamp)) name =
      (arg inv name).map ofJson := by
  rw [argument, (field_document inv agent timestamp).2.2, Option.bind_some, arg]
  cases inv.arguments with
  | none => rfl
  | some arguments =>
    simp only [field_ofJson]
    rfl

lemma matchesHere_iff {cs : List (UInt8 → Bool)} {s : Bytes} : matchesHere cs s = true ↔
    ∃ xs rest, s = xs ++ rest ∧ List.Forall₂ (fun c b => c b = true) cs xs := by
  induction cs generalizing s with
  | nil => simp [matchesHere]
  | cons c cs ih =>
    cases s with
    | nil => simp [matchesHere]
    | cons b bs =>
      rw [matchesHere, Bool.and_eq_true, ih]
      constructor
      · rintro ⟨hb, xs, rest, rfl, hxs⟩
        exact ⟨b :: xs, rest, rfl, .cons hb hxs⟩
      · rintro ⟨xs, rest, hs, hxs⟩
        cases hxs with
        | cons hb hxs =>
          obtain ⟨rfl, rfl⟩ := List.cons.inj hs
          exact ⟨hb, _, rest, rfl, hxs⟩

lemma regexMatch_iff {cs : List (UInt8 → Bool)} {s : Bytes} : regexMatch cs s = true ↔
    ∃ before xs after, s = before ++ (xs ++ after) ∧
      List.Forall₂ (fun c b => c b = true) cs xs := by
  simp only [regexMatch, List.any_eq_true, List.mem_tails, matchesHere_iff]
  constructor
  · rintro ⟨t, ⟨before, rfl⟩, xs, after, rfl, hxs⟩
    exact ⟨before, xs, after, rfl, hxs⟩
  · rintro ⟨before, xs, after, rfl, hxs⟩
    exact ⟨_, ⟨before, rfl⟩, xs, after, rfl, hxs⟩

lemma regexMatch_ssn {s : Bytes} : regexMatch ssnPattern s = true ↔ HasSsn s := by
  rw [regexMatch_iff, HasSsn]
  constructor
  · rintro ⟨before, xs, after, rfl, hxs⟩
    match xs, hxs.length_eq, hxs with
    | [a, b, c, d, e, f, g, h, i, j, k], _, hxs =>
      simp only [ssnPattern, List.forall₂_cons, beq_iff_eq, List.Forall₂.nil] at hxs
      obtain ⟨ha, hb, hc, rfl, he, hf, rfl, hh, hi, hj, hk, -⟩ := hxs
      exact ⟨before, [a, b, c], [e, f], [h, i, j, k], after, rfl, rfl, rfl, rfl,
        by simp [ha, hb, hc, he, hf, hh, hi, hj, hk]⟩
  · rintro ⟨before, area, group, serial, after, rfl, harea, hgroup, hserial, hdigits⟩
    match area, group, serial with
    | [a, b, c], [e, f], [h, i, j, k] =>
      refine ⟨before, [a, b, c, 45, e, f, 45, h, i, j, k], after, rfl, ?_⟩
      simpa [ssnPattern] using hdigits

variable (inv agent timestamp)

lemma toolIs_document (name : String) :
    toolIs (inputDocument (Proxy.evalInput inv agent timestamp)) name = true ↔
      inv.tool = lit name := by
  rw [toolIs, text_of_field (field_document inv agent timestamp).1]
  simp [str?]

lemma discovery_document :
    ((inputDocument (Proxy.evalInput inv agent timestamp)).field (lit "raw_method")).any
      (among mcpDiscoveryMethods) = true ↔ inv.method ∈ mcpDiscoveryMethods := by
  rw [(field_document inv agent timestamp).2.1]
  simp [among, str?]

lemma tainted_document :
    (["ssn", "social_security", "tax_id"].any fun field =>
      (argument (inputDocument (Proxy.evalInput inv agent timestamp)) field).any
        containsSsnPattern) = true ↔ Tainted inv := by
  rw [List.any_eq_true, Tainted]
  refine exists_congr fun name => and_congr_right fun _ => ?_
  rw [argument_document]
  cases arg inv name with
  | none => simp
  | some j => cases j <;> simp [ofJson, containsSsnPattern, isString, str?, regexMatch_ssn]

lemma amountKnown_document :
    (argument (inputDocument (Proxy.evalInput inv agent timestamp)) "amount").any isNumber = true ↔
      ∃ text, arg inv "amount" = some (.num text) := by
  rw [argument_document]
  cases arg inv "amount" with
  | none => simp
  | some j => cases j <;> simp [ofJson, isNumber]

lemma amountWithin_document (limit : ℚ) {text : Bytes} (h : arg inv "amount" = some (.num text)) :
    ((argument (inputDocument (Proxy.evalInput inv agent timestamp)) "amount").any
      (atMost limit) = true ↔ AmountWithin inv limit) ∧
    ((argument (inputDocument (Proxy.evalInput inv agent timestamp)) "amount").any
      (fun amount => !atMost limit amount) = true ↔ ¬ AmountWithin inv limit) := by
  rw [argument_document, AmountWithin, h]
  simp [ofJson, atMost]

lemma highRisk_document :
    jurisdictionHighRisk (inputDocument (Proxy.evalInput inv agent timestamp)) = true ↔
      HighRisk inv := by
  rw [jurisdictionHighRisk, argument_document, HighRisk]
  cases arg inv "jurisdiction" with
  | none => simp
  | some j => cases j <;> simp [ofJson, among, str?]

lemma jurisdictionKnown_document :
    wireJurisdictionKnown (inputDocument (Proxy.evalInput inv agent timestamp)) = true ↔
      NamesJurisdiction inv := by
  rw [wireJurisdictionKnown, argument_document, NamesJurisdiction]
  cases arg inv "jurisdiction" with
  | none => simp
  | some j => cases j <;> simp [ofJson, isString, str?]

lemma bids_piiRedaction :
    Bids a (piiRedaction (inputDocument (Proxy.evalInput inv agent timestamp))) ↔
      Tainted inv ∧ .deny = a := by
  rw [piiRedaction, bids_contribute, tainted_document]

lemma bids_protocol : Bids a (protocol (inputDocument (Proxy.evalInput inv agent timestamp))) ↔
    inv.method ∈ mcpDiscoveryMethods ∧ .allow = a := by
  rw [protocol, bids_contribute, discovery_document]

lemma bids_refundLimit :
    Bids a (refundLimit (inputDocument (Proxy.evalInput inv agent timestamp))) ↔
      inv.tool = lit "stripe.charge.refund" ∧
        (AmountWithin inv 1000 ∧ .allow = a ∨ ¬ AmountWithin inv 1000 ∧ .quarantine = a) := by
  simp only [refundLimit, bids_append, bids_contribute, Bool.and_eq_true, toolIs_document,
    refundAmountValid, Bool.not_eq_true', ← Bool.not_eq_true, amountKnown_document]
  by_cases hknown : ∃ text, arg inv "amount" = some (.num text)
  · obtain ⟨text, htext⟩ := hknown
    obtain ⟨hmost, hover⟩ := amountWithin_document inv agent timestamp 1000 htext
    simp only [hmost, hover]
    grind
  · have hnot : ¬ AmountWithin inv 1000 := fun ⟨text, htext, _⟩ => hknown ⟨text, htext⟩
    simp [hknown, hnot]

lemma bids_wireTransfer (hlow : ¬ HighRisk inv) :
    Bids a (wireTransfer (inputDocument (Proxy.evalInput inv agent timestamp))) ↔
      inv.tool = lit "swift.wire.initiate" ∧
        (NamesJurisdiction inv ∧ AmountWithin inv 10000 ∧ .allow = a ∨
          ¬ (NamesJurisdiction inv ∧ AmountWithin inv 10000) ∧ .quarantine = a) := by
  simp only [wireTransfer, bids_append, bids_contribute, Bool.and_eq_true, toolIs_document,
    wireAmountKnown, Bool.not_eq_true', ← Bool.not_eq_true, amountKnown_document,
    jurisdictionKnown_document, highRisk_document, hlow]
  by_cases hknown : ∃ text, arg inv "amount" = some (.num text)
  · obtain ⟨text, htext⟩ := hknown
    obtain ⟨hmost, hover⟩ := amountWithin_document inv agent timestamp 10000 htext
    simp only [hmost, hover]
    grind
  · have hnot : ¬ AmountWithin inv 10000 := fun ⟨text, htext, _⟩ => hknown ⟨text, htext⟩
    simp [hknown, hnot]
    grind

/-- A wire to a jurisdiction of high risk is denied, whatever else is said about it. -/
lemma bids_wireTransfer_high (hhigh : HighRisk inv) :
    (Bids .deny (wireTransfer (inputDocument (Proxy.evalInput inv agent timestamp))) ↔
      inv.tool = lit "swift.wire.initiate") ∧
    (Bids .quarantine (wireTransfer (inputDocument (Proxy.evalInput inv agent timestamp))) →
      inv.tool = lit "swift.wire.initiate") ∧
    ¬ Bids .allow (wireTransfer (inputDocument (Proxy.evalInput inv agent timestamp))) := by
  have hrisk := (highRisk_document inv agent timestamp).mpr hhigh
  simp only [wireTransfer, bids_append, bids_contribute, Bool.and_eq_true, toolIs_document, hrisk]
  refine ⟨by simp, ?_, by simp⟩
  rintro ((((h | h) | h) | h) | h) <;> simp_all

end Input

lemma wellFormed_contribute {a : Action} {rule explanation : String} {body : Bool} {d : Value}
    (hd : d ∈ contribute a rule explanation body) (ha : ∀ t ht, a ≠ .other t ht)
    (hrule : blank (lit rule) = false) : WellFormed d := by
  cases body with
  | false => exact absurd hd (by simp [contribute])
  | true =>
    obtain rfl : d = _ := by simpa [contribute] using hd
    obtain ⟨haction, htext⟩ := text_candidate a.text (lit rule) (lit explanation)
    refine ⟨?_, _, htext, hrule⟩
    rw [Recognised, haction]
    cases a with
    | other t ht => exact absurd rfl (ha t ht)
    | _ => simp [Action.text]

/-- Every candidate of the shipped bundle has an action and a rule. -/
lemma wellFormed_bundle (input : Value) : ∀ d ∈ bundleDecisions input, WellFormed d := by
  intro d hd
  simp only [bundleDecisions, piiRedaction, refundLimit, wireTransfer, protocol,
    List.mem_append] at hd
  rcases hd with ((hd | (hd | hd) | hd) | (((hd | hd) | hd) | hd) | hd) | hd <;>
    exact wellFormed_contribute hd (by simp) (by decide)

lemma discovery_ne : lit "stripe.charge.refund" ∉ mcpDiscoveryMethods ∧
    lit "swift.wire.initiate" ∉ mcpDiscoveryMethods ∧ lit "tools/call" ∉ mcpDiscoveryMethods ∧
    lit "stripe.charge.refund" ≠ lit "swift.wire.initiate" := by
  decide

lemma not_reviewable_of_discovery {header : Header} {body : Bytes} {inv : Proxy.Invocation}
    (hparse : Proxy.parse header body = .ok inv) (h : inv.method ∈ mcpDiscoveryMethods) :
    inv.tool ≠ lit "stripe.charge.refund" ∧ inv.tool ≠ lit "swift.wire.initiate" := by
  have hmethod : inv.method ≠ lit "tools/call" := fun he => discovery_ne.2.2.1 (he ▸ h)
  have htool := Proxy.tool_of_parse hparse
  rw [if_neg hmethod] at htool
  rw [htool]
  exact ⟨fun he => discovery_ne.1 (he ▸ h), fun he => discovery_ne.2.1 (he ▸ h)⟩

/-- What the shipped bundle lets through, holds and denies. -/
theorem bundle_lets_through (json : JsonBuiltins) (version : Bytes) (header : Header)
    (body : Bytes) (inv : Proxy.Invocation) (agent : Bytes) (timestamp : Time)
    (hparse : Proxy.parse header body = .ok inv) :
    let action := (evaluateBundle json version (Proxy.evalInput inv agent timestamp)).action
    (action = .allow ↔ ¬ Tainted inv ∧ Permitted inv) ∧
    (action = .quarantine ↔ ¬ Tainted inv ∧ Reviewable inv ∧ ¬ Permitted inv) ∧
    (action = .deny ↔ ¬ (¬ Tainted inv ∧ Permitted inv) ∧
      ¬ (¬ Tainted inv ∧ Reviewable inv ∧ ¬ Permitted inv)) ∧
    (inv.method = lit "tools/call" → inv.tool ≠ lit "stripe.charge.refund" →
      inv.tool ≠ lit "swift.wire.initiate" → action ≠ .allow) := by
  intro action
  obtain ⟨hallow, hquarantine, hdeny⟩ := decided_of_bids json version
    (wellFormed_bundle (inputDocument (Proxy.evalInput inv agent timestamp)))
  have hdiscovery := not_reviewable_of_discovery hparse
  have hcall : inv.method = lit "tools/call" → inv.method ∉ mcpDiscoveryMethods :=
    fun he hmem => discovery_ne.2.2.1 (he ▸ hmem)
  have htools := discovery_ne.2.2.2
  simp only [bundleDecisions, bids_append, bids_piiRedaction, bids_refundLimit,
    bids_protocol] at hallow hquarantine hdeny
  change (action = _ ↔ _) at hallow hquarantine hdeny
  by_cases hhigh : HighRisk inv
  · obtain ⟨hwire, hheld, hnot⟩ := bids_wireTransfer_high inv agent timestamp hhigh
    simp only [hwire, hnot] at hallow hquarantine hdeny
    grind [Permitted, Reviewable]
  · simp only [bids_wireTransfer inv agent timestamp hhigh] at hallow hquarantine hdeny
    grind [Permitted, Reviewable]

def isSmall : Json → Bool
  | .num text => number text ≤ 1000
  | _ => false

def refundCall : Bytes :=
  lit "\x7b\"jsonrpc\":\"2.0\",\"method\":\"tools/call\",\"params\":" ++
  lit "\x7b\"name\":\"stripe.charge.refund\",\"arguments\":\x7b\"amount\":250\x7d\x7d\x7d"

theorem bundle_lets_through_refund : ∃ inv, Proxy.parse ∅ refundCall = .ok inv ∧
    (evaluateBundle .strings (lit "v1") (Proxy.evalInput inv (lit "agent-7") ⟨0, 0⟩)).action =
      .allow := by
  have hcall : ((Proxy.parse ∅ refundCall).toOption.map fun inv =>
      (inv.tool, (arg inv "amount").any isSmall,
      ["ssn", "social_security", "tax_id"].all fun name => (arg inv name).isNone)) =
      some (lit "stripe.charge.refund", true, true) := by
    decide +kernel
  cases hparse : Proxy.parse ∅ refundCall with
  | error e => simp [hparse, Except.toOption] at hcall
  | ok inv =>
    simp only [hparse, Except.toOption, Option.map_some, Option.some.injEq, Prod.mk.injEq] at hcall
    obtain ⟨htool, hamount, hclean⟩ := hcall
    refine ⟨inv, rfl, (bundle_lets_through _ _ _ _ _ _ _ hparse).1.mpr ⟨?_, ?_⟩⟩
    · rintro ⟨name, hname, s, harg, -⟩
      have hnone := List.all_eq_true.mp hclean name hname
      simp [harg] at hnone
    · refine .inr (.inl ⟨htool, ?_⟩)
      cases harg : arg inv "amount" with
      | none => simp [harg] at hamount
      | some amount =>
        rw [harg, Option.any_some] at hamount
        cases amount with
        | num text => exact ⟨text, harg, by simpa [isSmall] using hamount⟩
        | _ => simp [isSmall] at hamount

end KiteRail.Policy
