import KiteRail.Effects
import KiteRail.GoStrings
import KiteRail.RegoValue

namespace KiteRail

/-- The layout `2006-01-02T15:04:05.999999999Z07:00`. -/
def Time.rfc3339Nano (t : Time) : Bytes :=
  let secs := t.wallNano / 1000000000
  let date := CivilDate.ofDays (secs / 86400)
  let tod := (secs % 86400).toNat
  let frac := (Bytes.padded 9 (t.wallNano % 1000000000).toNat).rdropWhile fun b => b == 48
  formatYear date.year ++ 45 :: formatMonthDay date ++ 84 :: Bytes.padded 2 (tod / 3600) ++
    58 :: Bytes.padded 2 (tod / 60 % 60) ++ 58 :: Bytes.padded 2 (tod % 60) ++
    (if frac = [] then [] else 46 :: frac) ++ formatZone t.offset

example : (⟨1500000000, 7200⟩ : Time).rfc3339Nano = Bytes.lit "1970-01-01T02:00:01.5+02:00" := by
  decide

namespace Policy
open Bytes Rego

/-- The input document of `Evaluate`. -/
def inputDocument (input : EvalInput) : Value :=
  .obj [(.str (lit "schema_version"), .str (lit "elodea.eval/v1")),
    (.str (lit "protocol"), .str input.protocol),
    (.str (lit "protocol_version"), .str input.protocolVersion),
    (.str (lit "tool"), .str input.tool),
    (.str (lit "arguments"), match input.arguments with
      | some arguments => Value.ofJson (.obj arguments)
      | none => .null),
    (.str (lit "agent"), .str input.agent),
    (.str (lit "timestamp"), .str input.timestamp.rfc3339Nano),
    (.str (lit "raw_method"), .str input.rawMethod)]

/-- `severity` of `main.rego`. -/
def severity : List (Bytes × ℕ) :=
  [(lit "deny", 3), (lit "quarantine", 2), (lit "allow", 1)]

/-- `severity[d.action]`, undefined for any action that is not in the table. -/
def severityOf (d : Value) : Option ℕ :=
  (d.text (lit "action")).bind fun a => List.lookup a severity

/-- A candidate as policies write it. -/
def candidate (action rule explanation : Bytes) : Value :=
  .record [(lit "action", action), (lit "rule", rule), (lit "explanation", explanation)]

def defaultDecision : Value :=
  candidate (lit "deny") (lit "default_deny") (lit "No matching allow rule found")

/-- The rule for `decision`. -/
def aggregated (json : JsonBuiltins) (decisions : List Value) : Option Value := do
  guard (0 < decisions.length)
  let maxSev ← (decisions.filterMap severityOf).max?
  let winners := sort ((decisions.filter fun d => severityOf d = some maxSev).map json.marshal)
  json.unmarshal (← winners.head?)

def decision (json : JsonBuiltins) (decisions : List Value) : Value :=
  (aggregated json decisions).getD defaultDecision

/-- `strings.TrimSpace` leaves nothing. -/
def blank (s : Bytes) : Bool := (Utf8.runes s).all GoUnicode.isSpace

lemma blank_nil : blank [] = true := by decide

/-- `Action.Valid`, with the action. -/
def validAction (text : Bytes) : Option Action :=
  if text = lit "allow" then some .allow
  else if text = lit "deny" then some .deny
  else if text = lit "quarantine" then some .quarantine
  else none

def invalidPolicyDecision : ProxyDecision :=
  ⟨.deny, lit "invalid_policy_decision", msg "Policy engine returned an invalid decision", []⟩

def failingClosed (s : String) : Message :=
  [.text (lit s ++ [0xE2, 0x80, 0x94] ++ lit " failing closed")]

/-- The checks on the fields of a decision. -/
def validated (action rule explanation : Bytes) : ProxyDecision :=
  match validAction action with
  | some a => if blank rule then invalidPolicyDecision else ⟨a, rule, [.text explanation], []⟩
  | none => invalidPolicyDecision

/-- `evaluate` on the outcome of a prepared query: an error, or the value of the first
expression if there is one. -/
def evaluate : Except GoError (Option Value) → ProxyDecision
  | .error _ => ⟨.deny, lit "policy_eval_error", failingClosed "Policy evaluation failed ", []⟩
  | .ok none =>
    ⟨.deny, lit "no_policy_decision", failingClosed "No policy produced a decision ", []⟩
  | .ok (some (.obj members)) =>
    let fields := Value.obj members
    validated ((fields.text (lit "action")).getD []) ((fields.text (lit "rule")).getD [])
      ((fields.text (lit "explanation")).getD [])
  | .ok (some _) => invalidPolicyDecision

/-- `Evaluate` with the version read together with the query. -/
def evaluateWith (version : Bytes) (outcome : Except GoError (Option Value)) : ProxyDecision :=
  { evaluate outcome with policyVersion := version }

/-- The decision on candidates that policies contributed. -/
def decided (json : JsonBuiltins) (version : Bytes) (decisions : List Value) : ProxyDecision :=
  evaluateWith version (.ok (some (decision json decisions)))

section Severity
variable {d : Value} {n : ℕ}

/-- The recognised actions, from the most restrictive. -/
lemma severityOf_cases (h : severityOf d = some n) :
    (d.text (lit "action") = some (lit "deny") ∧ n = 3) ∨
    (d.text (lit "action") = some (lit "quarantine") ∧ n = 2) ∨
    (d.text (lit "action") = some (lit "allow") ∧ n = 1) := by
  obtain ⟨a, ha, hn⟩ := Option.bind_eq_some_iff.mp h
  simp only [severity, List.lookup] at hn
  rw [ha]
  split at hn
  · rename_i heq
    exact .inl ⟨congrArg some (beq_iff_eq.mp heq), (Option.some.inj hn).symm⟩
  · split at hn
    · rename_i heq
      exact .inr (.inl ⟨congrArg some (beq_iff_eq.mp heq), (Option.some.inj hn).symm⟩)
    · split at hn
      · rename_i heq
        exact .inr (.inr ⟨congrArg some (beq_iff_eq.mp heq), (Option.some.inj hn).symm⟩)
      · simp at hn

lemma severityOf_deny (h : d.text (lit "action") = some (lit "deny")) : severityOf d = some 3 := by
  rw [severityOf, h]
  decide

lemma severityOf_quarantine (h : d.text (lit "action") = some (lit "quarantine")) :
    severityOf d = some 2 := by
  rw [severityOf, h]
  decide

lemma text_of_severity_one (h : severityOf d = some 1) :
    d.text (lit "action") = some (lit "allow") := by
  rcases severityOf_cases h with ⟨-, hn⟩ | ⟨-, hn⟩ | ⟨ha, -⟩
  · exact absurd hn (by decide)
  · exact absurd hn (by decide)
  · exact ha

lemma severityOf_allow (h : d.text (lit "action") = some (lit "allow")) :
    severityOf d = some 1 := by
  rw [severityOf, h]
  decide

end Severity

/-- The candidate that decides: of maximal severity, and first of those in the order of
their encodings. -/
structure Wins (json : JsonBuiltins) (decisions : List Value) (d : Value) (n : ℕ) : Prop where
  mem : d ∈ decisions
  severity : severityOf d = some n
  highest : ∀ e ∈ decisions, ∀ k, severityOf e = some k → k ≤ n
  first : ∀ e ∈ decisions, severityOf e = some n → json.marshal d ≤ json.marshal e

section Aggregation
variable {json : JsonBuiltins} {decisions : List Value} {d w : Value} {n : ℕ} {version : Bytes}

lemma aggregated_cases (json : JsonBuiltins) (decisions : List Value) :
    ((∀ d ∈ decisions, severityOf d = none) ∧ aggregated json decisions = none) ∨
    ∃ d n, Wins json decisions d n ∧
      aggregated json decisions = json.unmarshal (json.marshal d) := by
  cases hmax : (decisions.filterMap severityOf).max? with
  | none =>
    have hnil := List.max?_eq_none_iff.mp hmax
    refine .inl ⟨fun d hd => List.filterMap_eq_nil_iff.mp hnil d hd, ?_⟩
    simp [aggregated, hmax]
  | some n =>
    obtain ⟨hmem, hhigh⟩ := List.max?_eq_some_iff.mp hmax
    obtain ⟨d₀, hd₀, hs₀⟩ := List.mem_filterMap.mp hmem
    set winners := (decisions.filter fun d => severityOf d = some n).map json.marshal with hw
    have hne : winners ≠ [] := by
      have : json.marshal d₀ ∈ winners :=
        List.mem_map_of_mem (List.mem_filter.mpr ⟨hd₀, by simpa using hs₀⟩)
      exact List.ne_nil_of_mem this
    cases hhead : (sort winners).head? with
    | none =>
      have hempty : sort winners = [] := by simpa using hhead
      obtain ⟨x, hx⟩ := List.exists_mem_of_ne_nil _ hne
      rw [← mem_sort, hempty] at hx
      exact absurd hx List.not_mem_nil
    | some x =>
      obtain ⟨hx, hleast⟩ := head_sort_iff.mp hhead
      obtain ⟨d, hd, rfl⟩ := List.mem_map.mp hx
      obtain ⟨hd, hs⟩ := List.mem_filter.mp hd
      have hs : severityOf d = some n := by simpa using hs
      refine .inr ⟨d, n, ⟨hd, hs, fun e he k hk => ?_, fun e he hk => ?_⟩, ?_⟩
      · exact hhigh k (List.mem_filterMap.mpr ⟨e, he, hk⟩)
      · exact hleast _ (List.mem_map_of_mem (List.mem_filter.mpr ⟨he, by simpa using hk⟩))
      · have hlen : 0 < decisions.length := List.length_pos_of_mem hd
        simp only [aggregated, hmax, ← hw, hhead, Option.bind_eq_bind, Option.bind_some]
        simp [hlen]

/-- The action, rule and explanation that a candidate states, missing ones empty. -/
def stated (d : Value) : ProxyDecision :=
  validated ((d.text (lit "action")).getD []) ((d.text (lit "rule")).getD [])
    ((d.text (lit "explanation")).getD [])

lemma evaluate_value {a : Bytes} (h : w.text (lit "action") = some a) :
    evaluate (.ok (some w)) = stated w := by
  cases w with
  | obj members => rfl
  | _ => exact absurd h (by simp [Value.text, Value.field])

lemma Wins.text_action (h : Wins json decisions d n) : ∃ a, d.text (lit "action") = some a := by
  obtain ⟨a, ha, -⟩ := Option.bind_eq_some_iff.mp h.severity
  exact ⟨a, ha⟩

/-- What is read back of an encoded candidate states the same. -/
lemma stated_unmarshal (json : JsonBuiltins) (d : Value) :
    ∃ w, json.unmarshal (json.marshal d) = some w ∧ stated w = stated d ∧
      w.text (lit "action") = d.text (lit "action") := by
  obtain ⟨w, hw, htext⟩ := json.unmarshal_marshal d
  have haction := htext (lit "action") (by decide)
  have hrule := htext (lit "rule") (by decide)
  have hexp := htext (lit "explanation") (by decide)
  exact ⟨w, hw, by rw [stated, haction, hrule, hexp, stated], haction⟩

lemma Wins.decided_eq (h : Wins json decisions d n)
    (hagg : aggregated json decisions = json.unmarshal (json.marshal d)) :
    decided json version decisions = { stated d with policyVersion := version } := by
  obtain ⟨w, hw, hstated, haction⟩ := stated_unmarshal json d
  obtain ⟨a, ha⟩ := h.text_action
  rw [decided, evaluateWith, decision, hagg, hw, Option.getD_some,
    evaluate_value (haction.trans ha), hstated]

lemma decided_default (hagg : aggregated json decisions = none) :
    decided json version decisions =
      ⟨.deny, lit "default_deny", msg "No matching allow rule found", version⟩ := by
  have hdefault : evaluate (.ok (some defaultDecision)) =
      ⟨.deny, lit "default_deny", msg "No matching allow rule found", []⟩ := by decide
  rw [decided, evaluateWith, decision, hagg, Option.getD_none, hdefault]

/-- How restrictive an action is. -/
def rank : Action → ℕ
  | .deny => 3
  | .quarantine => 2
  | .allow => 1
  | .other _ _ => 0

lemma action_of_severity (h : severityOf d = some n) : ∃ a : Action,
    d.text (lit "action") = some a.text ∧ rank a = n ∧ validAction a.text = some a := by
  rcases severityOf_cases h with ⟨ha, rfl⟩ | ⟨ha, rfl⟩ | ⟨ha, rfl⟩
  · exact ⟨.deny, ha, rfl, by decide⟩
  · exact ⟨.quarantine, ha, rfl, by decide⟩
  · exact ⟨.allow, ha, rfl, by decide⟩

lemma rank_allow {a : Action} (h : rank a = 1) : a = .allow := by
  cases a <;> simp_all [rank]

def ruleOf (d : Value) : Bytes := (d.text (lit "rule")).getD []

lemma stated_of_action {a : Action} (ha : d.text (lit "action") = some a.text)
    (hv : validAction a.text = some a) :
    stated d = if blank (ruleOf d) then invalidPolicyDecision
      else ⟨a, ruleOf d, [.text ((d.text (lit "explanation")).getD [])], []⟩ := by
  simp only [stated, validated, ha, Option.getD_some, hv, ruleOf]
  rfl

/-- What the engine returns: the default, or what the winner states if its rule is not
blank. -/
lemma decided_cases (json : JsonBuiltins) (version : Bytes) (decisions : List Value) :
    ((∀ d ∈ decisions, severityOf d = none) ∧ (decided json version decisions).action = .deny) ∨
    ∃ d a, Wins json decisions d (rank a) ∧ d.text (lit "action") = some a.text ∧
      decided json version decisions = { stated d with policyVersion := version } ∧
      stated d = if blank (ruleOf d) then invalidPolicyDecision
        else ⟨a, ruleOf d, [.text ((d.text (lit "explanation")).getD [])], []⟩ := by
  rcases aggregated_cases json decisions with ⟨hnone, hagg⟩ | ⟨d, n, hwins, hagg⟩
  · exact .inl ⟨hnone, by rw [decided_default hagg]⟩
  · obtain ⟨a, ha, rfl, hv⟩ := action_of_severity hwins.severity
    exact .inr ⟨d, a, hwins, ha, hwins.decided_eq hagg, stated_of_action ha hv⟩

lemma decided_of_rule {a : Action} (hd : decided json version decisions =
      { stated d with policyVersion := version })
    (hs : stated d = if blank (ruleOf d) then invalidPolicyDecision
      else ⟨a, ruleOf d, [.text ((d.text (lit "explanation")).getD [])], []⟩)
    (hrule : blank (ruleOf d) = false) :
    (decided json version decisions).action = a ∧
      (decided json version decisions).rule = ruleOf d := by
  rw [hd, hs, hrule]
  exact ⟨rfl, rfl⟩

/-- Winners of one severity have one encoding, and so one rule. -/
lemma Wins.ruleOf_eq {d' : Value} (h : Wins json decisions d n) (h' : Wins json decisions d' n) :
    ruleOf d = ruleOf d' := by
  have hsame : json.marshal d = json.marshal d' := List.le_antisymm
    (h.first d' h'.mem h'.severity) (h'.first d h.mem h.severity)
  have hplain : plainName (lit "rule") = true := by decide
  obtain ⟨w, hw, htext⟩ := json.unmarshal_marshal d
  obtain ⟨w', hw', htext'⟩ := json.unmarshal_marshal d'
  obtain rfl : w = w' := Option.some.inj (hw.symm.trans (hsame ▸ hw'))
  rw [ruleOf, ← htext _ hplain, htext' _ hplain, ruleOf]

/-- The order of the candidates does not matter, nor does repetition. -/
lemma decided_congr {decisions' : List Value} (h : ∀ d, d ∈ decisions' ↔ d ∈ decisions) :
    decided json version decisions' = decided json version decisions := by
  suffices hagg : aggregated json decisions' = aggregated json decisions by
    rw [decided, decision, hagg, decided, decision]
  rcases aggregated_cases json decisions' with ⟨hnone, hagg'⟩ | ⟨d', n', hw', hagg'⟩
  · rcases aggregated_cases json decisions with ⟨-, hagg⟩ | ⟨d, n, hw, -⟩
    · rw [hagg', hagg]
    · have hbad := hnone d ((h d).mpr hw.mem)
      rw [hw.severity] at hbad
      exact absurd hbad (by simp)
  · rcases aggregated_cases json decisions with ⟨hnone, -⟩ | ⟨d, n, hw, hagg⟩
    · have hbad := hnone d' ((h d').mp hw'.mem)
      rw [hw'.severity] at hbad
      exact absurd hbad (by simp)
    · have hle : n' ≤ n := hw.highest d' ((h d').mp hw'.mem) n' hw'.severity
      have hge : n ≤ n' := hw'.highest d ((h d).mpr hw.mem) n hw.severity
      obtain rfl : n = n' := le_antisymm hge hle
      have hsame : json.marshal d' = json.marshal d := List.le_antisymm
        (hw'.first d ((h d).mpr hw.mem) hw.severity) (hw.first d' ((h d').mp hw'.mem) hw'.severity)
      rw [hagg', hagg, hsame]

end Aggregation

def Recognised (d : Value) : Prop :=
  d.text (lit "action") ∈ [some (lit "deny"), some (lit "quarantine"), some (lit "allow")]

/-- The candidate has one of the three actions and a rule that is not blank. -/
def WellFormed (d : Value) : Prop :=
  Recognised d ∧ ∃ rule, d.text (lit "rule") = some rule ∧ blank rule = false

section
variable {json : JsonBuiltins} {decisions : List Value} {d : Value} {n : ℕ} {version : Bytes}

lemma severityOf_isSome_iff : (severityOf d).isSome ↔ Recognised d := by
  constructor
  · intro h
    obtain ⟨n, hn⟩ := Option.isSome_iff_exists.mp h
    rcases severityOf_cases hn with ⟨ha, -⟩ | ⟨ha, -⟩ | ⟨ha, -⟩ <;> simp [Recognised, ha]
  · intro h
    simp only [Recognised, List.mem_cons, List.not_mem_nil, or_false] at h
    rcases h with h | h | h
    · simp [severityOf_deny h]
    · simp [severityOf_quarantine h]
    · simp [severityOf_allow h]

lemma severityOf_of_action {a : Action} (h : d.text (lit "action") = some a.text)
    (hv : ∀ t ht, a ≠ .other t ht) : severityOf d = some (rank a) := by
  cases a with
  | allow => exact severityOf_allow h
  | deny => exact severityOf_deny h
  | quarantine => exact severityOf_quarantine h
  | other t ht => exact absurd rfl (hv t ht)

lemma Wins.rank_le {e : Value} {a : Action} (h : Wins json decisions d n) (he : e ∈ decisions)
    (ha : e.text (lit "action") = some a.text) : rank a ≤ n := by
  cases a with
  | other t ht => exact Nat.zero_le _
  | _ => exact h.highest e he _ (severityOf_of_action ha (by simp))

lemma WellFormed.rule (h : WellFormed d) : blank (ruleOf d) = false ∧
    d.text (lit "rule") = some (ruleOf d) := by
  obtain ⟨-, rule, hrule, hblank⟩ := h
  simp [ruleOf, hrule, hblank]

lemma decided_wellFormed (json : JsonBuiltins) (version : Bytes) (hne : decisions ≠ [])
    (hwf : ∀ d ∈ decisions, WellFormed d) :
    ∃ d, Wins json decisions d (rank (decided json version decisions).action) ∧
      d.text (lit "action") = some (decided json version decisions).action.text ∧
      d.text (lit "rule") = some (decided json version decisions).rule := by
  rcases decided_cases json version decisions with ⟨hnone, -⟩ | ⟨d, a, hw, ha, hd, hs⟩
  · obtain ⟨d, hd⟩ := List.exists_mem_of_ne_nil _ hne
    have hsome := severityOf_isSome_iff.mpr (hwf d hd).1
    rw [hnone d hd] at hsome
    exact absurd hsome (by simp)
  · obtain ⟨hblank, htext⟩ := (hwf d hw.mem).rule
    obtain ⟨haction, hrule⟩ := decided_of_rule hd hs hblank
    exact ⟨d, by rwa [haction], by rwa [haction], by rwa [hrule]⟩

/-- An allow decision is what some allow candidate states, and no other candidate with a
recognised action is more restrictive. -/
lemma decided_allow_iff : (decided json version decisions).action = .allow ↔
    ∃ d, Wins json decisions d 1 ∧ blank (ruleOf d) = false := by
  constructor
  · intro hallow
    rcases decided_cases json version decisions with ⟨-, hdeny⟩ | ⟨d, a, hw, ha, hd, hs⟩
    · rw [hallow] at hdeny
      exact absurd hdeny (by simp)
    · cases hblank : blank (ruleOf d) with
      | true =>
        rw [hd, hs, hblank] at hallow
        exact absurd hallow (by simp [invalidPolicyDecision])
      | false =>
        obtain rfl : a = .allow := (decided_of_rule hd hs hblank).1.symm.trans hallow
        exact ⟨d, hw, hblank⟩
  · rintro ⟨d, hw, hblank⟩
    rcases decided_cases json version decisions with ⟨hnone, -⟩ | ⟨d', a, hw', ha, hd, hs⟩
    · have hbad := hnone d hw.mem
      rw [hw.severity] at hbad
      exact absurd hbad (by simp)
    · have hrank : rank a = 1 := le_antisymm (hw.highest d' hw'.mem _ hw'.severity)
        (hw'.highest d hw.mem _ hw.severity)
      have hblank' : blank (ruleOf d') = false := by
        rw [hw'.ruleOf_eq (hrank ▸ hw), hblank]
      rw [(decided_of_rule hd hs hblank').1, rank_allow hrank]

end

theorem most_restrictive_wins (json : JsonBuiltins) (version : Bytes) (decisions : List Value) :
    ((decided json version decisions).action = .allow →
      (∃ d ∈ decisions, d.text (lit "action") = some (lit "allow") ∧
        ∃ rule, d.text (lit "rule") = some rule ∧ blank rule = false) ∧
      ∀ d ∈ decisions, d.text (lit "action") ≠ some (lit "deny") ∧
        d.text (lit "action") ≠ some (lit "quarantine")) ∧
    (decisions ≠ [] → (∀ d ∈ decisions, WellFormed d) →
      (∃ d ∈ decisions, d.text (lit "action") = some (decided json version decisions).action.text ∧
        d.text (lit "rule") = some (decided json version decisions).rule ∧
        ∀ e ∈ decisions, ∀ a : Action, e.text (lit "action") = some a.text →
          rank a ≤ rank (decided json version decisions).action) ∧
      ∀ decisions', (∀ d, d ∈ decisions' ↔ d ∈ decisions) →
        decided json version decisions' = decided json version decisions) ∧
    (decisions ≠ [] → ∀ decisions', (∀ d ∈ decisions, d ∈ decisions') →
      (∀ d ∈ decisions', WellFormed d) →
      rank (decided json version decisions).action ≤
        rank (decided json version decisions').action) ∧
    ((∀ d ∈ decisions, ¬ Recognised d) → (decided json version decisions).action = .deny) := by
  refine ⟨?_, ?_, ?_, ?_⟩
  · intro hallow
    obtain ⟨d, hw, hblank⟩ := decided_allow_iff.mp hallow
    refine ⟨⟨d, hw.mem, text_of_severity_one hw.severity, ?_⟩, fun e he => ⟨?_, ?_⟩⟩
    · cases hrule : d.text (lit "rule") with
      | none => simp [ruleOf, hrule, blank_nil] at hblank
      | some rule => exact ⟨rule, rfl, by simpa [ruleOf, hrule] using hblank⟩
    · intro hdeny
      exact absurd (hw.highest e he 3 (severityOf_deny hdeny)) (by decide)
    · intro hquarantine
      exact absurd (hw.highest e he 2 (severityOf_quarantine hquarantine)) (by decide)
  · intro hne hwf
    obtain ⟨d, hw, haction, hrule⟩ := decided_wellFormed json version hne hwf
    exact ⟨⟨d, hw.mem, haction, hrule, fun e he a ha => hw.rank_le he ha⟩,
      fun decisions' h => decided_congr h⟩
  · intro hne decisions' hsub hwf
    have hne' : decisions' ≠ [] := by
      obtain ⟨d, hd⟩ := List.exists_mem_of_ne_nil _ hne
      exact List.ne_nil_of_mem (hsub d hd)
    obtain ⟨d, hw, -⟩ := decided_wellFormed json version hne
      fun d hd => hwf d (hsub d hd)
    obtain ⟨d', hw', -⟩ := decided_wellFormed json version hne' hwf
    exact hw'.highest d (hsub d hw.mem) _ hw.severity
  · intro hnone
    rcases decided_cases json version decisions with ⟨-, hdeny⟩ | ⟨d, a, hw, -⟩
    · exact hdeny
    · exact absurd (severityOf_isSome_iff.mp (by simp [hw.severity])) (hnone d hw.mem)

def smallRefund : Value := candidate (lit "allow") (lit "refund_ok") (lit "Small refund")

def needsReview : Value := candidate (lit "quarantine") (lit "review") (lit "Needs review")

/-- A review added to a refund that was let through holds it. -/
theorem most_restrictive_wins_review :
    decided .strings (lit "v1") [needsReview, smallRefund] =
      decided .strings (lit "v1") [smallRefund, needsReview] ∧
    rank (decided .strings (lit "v1") [smallRefund]).action ≤
      rank (decided .strings (lit "v1") [smallRefund, needsReview]).action := by
  have hwf : ∀ d ∈ [smallRefund, needsReview], WellFormed d := by
    intro d hd
    simp only [List.mem_cons, List.not_mem_nil, or_false] at hd
    rcases hd with rfl | rfl
    · exact ⟨by rw [Recognised]; decide, lit "refund_ok", by decide⟩
    · exact ⟨by rw [Recognised]; decide, lit "review", by decide⟩
  have hboth := most_restrictive_wins .strings (lit "v1") [smallRefund, needsReview]
  have hone := most_restrictive_wins .strings (lit "v1") [smallRefund]
  constructor
  · exact (hboth.2.1 (by simp) hwf).2 _ fun d => by simp [or_comm]
  · exact hone.2.2.1 (by simp) _ (by simp) hwf

/-- A candidate whose action is not recognised does not count: the decision is allow just
when there is no deny and no quarantine candidate and the first of the allow candidates
has a rule. -/
theorem unrecognised_fails_closed_iff (json : JsonBuiltins) (version : Bytes)
    (decisions : List Value) : (∃ d ∈ decisions, ¬ Recognised d) →
    ((decided json version decisions).action ≠ .allow ↔
      (∃ d ∈ decisions, d.text (lit "action") = some (lit "deny") ∨
        d.text (lit "action") = some (lit "quarantine")) ∨
      ∀ d ∈ decisions, d.text (lit "action") = some (lit "allow") →
        (∀ e ∈ decisions, e.text (lit "action") = some (lit "allow") →
          json.marshal d ≤ json.marshal e) →
        ∀ rule, d.text (lit "rule") = some rule → blank rule = true) := by
  intro _
  rw [Ne, decided_allow_iff]
  constructor
  · intro h
    by_cases hmore : ∃ d ∈ decisions, d.text (lit "action") = some (lit "deny") ∨
        d.text (lit "action") = some (lit "quarantine")
    · exact .inl hmore
    · refine .inr fun d hd hallow hfirst rule hrule => ?_
      have hwins : Wins json decisions d 1 := by
        refine ⟨hd, severityOf_allow hallow, fun e he k hk => ?_, fun e he hk => ?_⟩
        · rcases severityOf_cases hk with ⟨ha, -⟩ | ⟨ha, -⟩ | ⟨-, rfl⟩
          · exact absurd ⟨e, he, .inl ha⟩ hmore
          · exact absurd ⟨e, he, .inr ha⟩ hmore
          · exact le_refl 1
        · exact hfirst e he (text_of_severity_one hk)
      by_contra hblank
      exact h ⟨d, hwins, by simpa [ruleOf, hrule] using hblank⟩
  · rintro h ⟨d, hw, hblank⟩
    rcases h with ⟨e, he, hdeny | hquarantine⟩ | h
    · exact absurd (hw.highest e he 3 (severityOf_deny hdeny)) (by decide)
    · exact absurd (hw.highest e he 2 (severityOf_quarantine hquarantine)) (by decide)
    · cases hrule : d.text (lit "rule") with
      | none => simp [ruleOf, hrule, blank_nil] at hblank
      | some rule =>
        have hall := h d hw.mem (text_of_severity_one hw.severity)
          (fun e he ha => hw.first e he (severityOf_allow ha)) rule hrule
        simp [ruleOf, hrule, hall] at hblank

/-- A deny rule spelled `Deny` leaves the call to the allow rule. -/
theorem misspelt_deny_allowed :
    ¬ Recognised (candidate (lit "Deny") (lit "embargo") (lit "Sanctioned destination")) ∧
    decided .strings (lit "v1") [candidate (lit "Deny") (lit "embargo")
      (lit "Sanctioned destination"), smallRefund] =
      ⟨.allow, lit "refund_ok", msg "Small refund", lit "v1"⟩ := by
  constructor
  · rw [Recognised]
    decide
  · decide

/-- Next to a quarantine candidate the misspelt rule does no harm. -/
theorem unrecognised_fails_closed_quarantine :
    (decided .strings (lit "v1") [smallRefund, candidate (lit "Deny") (lit "embargo")
      (lit "Sanctioned destination"), needsReview]).action ≠ .allow := by
  refine (unrecognised_fails_closed_iff .strings (lit "v1") _ ?_).mpr (.inl ?_)
  · refine ⟨candidate (lit "Deny") (lit "embargo") (lit "Sanctioned destination"), by simp, ?_⟩
    rw [Recognised]
    decide
  · exact ⟨needsReview, by simp, .inr (by decide)⟩

end Policy
end KiteRail
