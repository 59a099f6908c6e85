import KiteRail.JsonStrings
import KiteRail.ProxyGrammar

namespace KiteRail.Proxy
open Bytes Header Json

/-- A value that a mirrored header may have. -/
structure Clean (v : Bytes) : Prop where
  nonempty : v ≠ []
  leading : ∀ b ∈ v.head?, b ≠ 32 ∧ b ≠ 9
  trailing : ∀ b ∈ v.getLast?, b ≠ 32 ∧ b ≠ 9
  plain : ∀ b ∈ v, b = 9 ∨ 0x20 ≤ b ∧ b ≤ 0x7E

/-- The header is absent, or has exactly one value; names are matched ignoring case. -/
inductive Mirrored (header : Header) (name : Bytes) : Option Bytes → Prop
  | absent (h : ∀ e ∈ header.entries, equalFold e.1 name = false) : Mirrored header name none
  | single {v : Bytes} (hclean : Clean v)
      (h : (header.entries.filter fun e => equalFold e.1 name).flatMap (fun e => e.2) = [v]) :
      Mirrored header name (some v)

def sentinelStart : Bytes := lit "=?base64?"

def sentinelEnd : Bytes := lit "?="

/-- The spellings of a name in its header. -/
def Spells (v name : Bytes) : Prop :=
  name ≠ [] ∧ (v = name ∧ ¬ (sentinelStart <+: name ∧ sentinelEnd <:+ name) ∨
    v = sentinelStart ++ Base64.encode name ++ sentinelEnd)

section Values

lemma trimSpaces_eq_self {v : Bytes} : trimSpaces v = v ↔
    (∀ b ∈ v.head?, b ≠ 32 ∧ b ≠ 9) ∧ ∀ b ∈ v.getLast?, b ≠ 32 ∧ b ≠ 9 := by
  have hleft : v.dropWhile (fun b => b == 32 || b == 9) = v ↔ ∀ b ∈ v.head?, b ≠ 32 ∧ b ≠ 9 := by
    cases v with
    | nil => simp
    | cons b v => simp [List.dropWhile_eq_self_iff]
  have hright : v.rdropWhile (fun b => b == 32 || b == 9) = v ↔
      ∀ b ∈ v.getLast?, b ≠ 32 ∧ b ≠ 9 := by
    rw [List.rdropWhile_eq_self_iff]
    cases v using List.reverseRecOn with
    | nil => simp
    | append_singleton v b => simp
  rw [← hleft, ← hright, trimSpaces]
  constructor
  · intro h
    have hlength := (List.rdropWhile_prefix (fun b => b == 32 || b == 9)
      (l := v.dropWhile fun b => b == 32 || b == 9)).length_le
    rw [h] at hlength
    have hdrop := (List.dropWhile_suffix (fun b => b == 32 || b == 9)).eq_of_length_le hlength
    exact ⟨hdrop, by rwa [hdrop] at h⟩
  · rintro ⟨hdrop, hrdrop⟩
    rw [hdrop, hrdrop]

lemma runes_plain {v : Bytes} :
    ((Utf8.runes v).any fun r => (r < 0x20 && r != 9) || 0x7E < r) = false ↔
      ∀ b ∈ v, b = 9 ∨ 0x20 ≤ b ∧ b ≤ 0x7E := by
  have hascii : Utf8.Ascii v → Utf8.runes v = v.map UInt8.toNat := by
    intro h
    induction v with
    | nil => rfl
    | cons b v ih =>
      rw [Utf8.Ascii, List.forall_mem_cons] at h
      rw [Utf8.runes, Utf8.decode_cons_of_lt h.1, List.map_cons, List.map_cons, ← Utf8.runes,
        ih h.2]
      rfl
  have hbyte : ∀ b : UInt8, ((b.toNat < 0x20 && b.toNat != 9) || 0x7E < b.toNat) = false ↔
      b = 9 ∨ 0x20 ≤ b ∧ b ≤ 0x7E := by
    intro b
    simp only [Bool.or_eq_false_iff, Bool.and_eq_false_iff, decide_eq_false_iff_not, not_lt,
      bne_eq_false_iff_eq, UInt8.le_iff_toNat_le, ← UInt8.toNat_inj, UInt8.reduceToNat]
    omega
  constructor
  · intro h
    rw [List.any_eq_false] at h
    have hlt : ∀ r ∈ Utf8.runes v, r < 0x80 := by
      intro r hr
      have hr' := h r hr
      simp only [Bool.or_eq_true, decide_eq_true_eq, not_or, not_lt] at hr'
      omega
    intro b hb
    refine (hbyte b).mp ?_
    have hmem : b.toNat ∈ Utf8.runes v := by
      rw [hascii (Utf8.ascii_of_runes hlt)]
      exact List.mem_map_of_mem hb
    simpa using h _ hmem
  · intro h
    have ha : Utf8.Ascii v := by
      intro b hb
      rcases h b hb with rfl | ⟨-, hle⟩
      · decide
      · simp only [UInt8.le_iff_toNat_le, UInt8.lt_iff_toNat_lt, UInt8.reduceToNat] at hle ⊢
        omega
    rw [hascii ha, List.any_map, List.any_eq_false]
    intro b hb
    simpa using (hbyte b).mpr (h b hb)

lemma clean_iff {v : Bytes} : Clean v ↔ v ≠ [] ∧ trimSpaces v = v ∧
    ((Utf8.runes v).any fun r => (r < 0x20 && r != 9) || 0x7E < r) = false := by
  rw [trimSpaces_eq_self, runes_plain]
  exact ⟨fun h => ⟨h.nonempty, ⟨h.leading, h.trailing⟩, h.plain⟩,
    fun ⟨hne, ⟨hlead, htrail⟩, hplain⟩ => ⟨hne, hlead, htrail, hplain⟩⟩

lemma singleValue_eq_ok {name v : Bytes} {values : List Bytes} :
    singleValue name values = .ok v ↔ values = [v] ∧ Clean v := by
  rw [clean_iff]
  constructor
  · intro h
    unfold singleValue at h
    split at h
    · rename_i value
      split at h
      · simp at h
      rename_i hne
      split at h
      · simp at h
      rename_i htrim
      split at h
      · simp at h
      rename_i hrunes
      obtain rfl := Except.ok.inj h
      exact ⟨rfl, hne, not_not.mp htrim, Bool.eq_false_iff.mpr hrunes⟩
    · simp at h
  · rintro ⟨rfl, hne, htrim, hrunes⟩
    rw [singleValue, if_neg hne, if_neg (not_not.mpr htrim), if_neg (Bool.eq_false_iff.mp hrunes)]

lemma singleHeader_eq_ok {header : Header} {name : Bytes} {o : Option Bytes} :
    singleHeader header name = .ok o ↔ Mirrored header name o := by
  rw [singleHeader]
  split
  · rename_i hnone
    constructor
    · intro h
      obtain rfl := Except.ok.inj h
      rw [List.filter_eq_nil_iff] at hnone
      exact .absent fun e he => Bool.eq_false_iff.mpr (hnone e he)
    · intro h
      cases h with
      | absent _ => rfl
      | single hclean h =>
        rw [hnone] at h
        simp at h
  · rename_i hsome
    constructor
    · intro h
      cases hv : singleValue name
          ((header.entries.filter fun e => equalFold e.1 name).flatMap fun e => e.2) with
      | error e =>
        rw [hv] at h
        simp [Except.map] at h
      | ok v =>
        rw [hv] at h
        obtain rfl := Except.ok.inj h
        obtain ⟨hvalues, hclean⟩ := singleValue_eq_ok.mp hv
        exact .single hclean hvalues
    · intro h
      cases h with
      | absent h =>
        have hnone := List.filter_eq_nil_iff.mpr fun e he => Bool.eq_false_iff.mp (h e he)
        exact absurd hnone hsome
      | single hclean h =>
        rw [singleValue_eq_ok.mpr ⟨h, hclean⟩]
        rfl

end Values

section Names

lemma encode_length (bs : Bytes) : Base64.encode bs = [] ∨ 2 ≤ (Base64.encode bs).length := by
  fun_cases Base64.encode bs with
  | case1 => exact .inl rfl
  | _ => exact .inr (by simp)

/-- The prefix and the suffix of the sentinel do not overlap around Base64. -/
lemma sentinel_split {v encoded : Bytes} (hend : sentinelEnd <:+ v)
    (hv : v = sentinelStart ++ encoded) (hlength : encoded = [] ∨ 2 ≤ encoded.length) :
    sentinelEnd <:+ encoded := by
  subst hv
  rcases hlength with rfl | hlength
  · exact absurd hend (by decide)
  · exact List.suffix_of_suffix_length_le hend (List.suffix_append _ _) hlength

lemma trimPrefix_append (p s : Bytes) : trimPrefix p (p ++ s) = s := by
  simp [trimPrefix]

lemma trimSuffix_append (p s : Bytes) : trimSuffix p (s ++ p) = s := by
  have hsuffix : p.isSuffixOf (s ++ p) = true :=
    List.isSuffixOf_iff_suffix.mpr (List.suffix_append s p)
  rw [trimSuffix, if_pos hsuffix, List.length_append, Nat.add_sub_cancel, List.take_left]

/-- What the header says: itself, or the text that its sentinel encodes. -/
lemma decodeHeaderName_eq_ok {v name : Bytes} : decodeHeaderName v = .ok name ↔
    (v = name ∧ ¬ (sentinelStart <+: name ∧ sentinelEnd <:+ name)) ∨
      (v = sentinelStart ++ Base64.encode name ++ sentinelEnd ∧ Utf8.valid name = true) := by
  have hcond : ∀ v : Bytes, (!(lit "=?base64?").isPrefixOf v || !(lit "?=").isSuffixOf v) = true ↔
      ¬ (sentinelStart <+: v ∧ sentinelEnd <:+ v) := by
    intro v
    rw [← List.isPrefixOf_iff_prefix, ← List.isSuffixOf_iff_suffix, sentinelStart, sentinelEnd]
    cases (lit "=?base64?").isPrefixOf v <;> cases (lit "?=").isSuffixOf v <;> simp
  rw [decodeHeaderName]
  constructor
  · intro h
    dsimp only at h
    split at h
    · rename_i hnot
      obtain rfl := Except.ok.inj h
      exact .inl ⟨rfl, (hcond v).mp hnot⟩
    rename_i hboth
    rw [hcond, not_not] at hboth
    obtain ⟨⟨encoded, rfl⟩, hend⟩ := hboth
    have hstart : trimPrefix (lit "=?base64?") (sentinelStart ++ encoded) = encoded :=
      trimPrefix_append _ _
    rw [hstart] at h
    split at h
    · rename_i decoded hdecode
      split at h
      · rename_i hcanonical
        obtain rfl := Except.ok.inj h
        simp only [Bool.and_eq_true, beq_iff_eq] at hcanonical
        obtain ⟨hvalid, hencode⟩ := hcanonical
        refine .inr ⟨?_, hvalid⟩
        have hsuffix : sentinelEnd <:+ encoded := by
          by_contra hnot
          have htrim : trimSuffix (lit "?=") encoded = encoded :=
            if_neg fun h => hnot (List.isSuffixOf_iff_suffix.mp h)
          rw [htrim] at hencode
          exact hnot (sentinel_split hend rfl (hencode ▸ encode_length decoded))
        obtain ⟨middle, rfl⟩ := hsuffix
        have htrim : trimSuffix (lit "?=") (middle ++ sentinelEnd) = middle := trimSuffix_append _ _
        rw [htrim] at hencode
        rw [hencode, List.append_assoc]
      · simp at h
    · simp at h
  · rintro (⟨rfl, hnot⟩ | ⟨rfl, hvalid⟩)
    · exact if_pos ((hcond v).mpr hnot)
    · have hboth : sentinelStart <+: sentinelStart ++ Base64.encode name ++ sentinelEnd ∧
          sentinelEnd <:+ sentinelStart ++ Base64.encode name ++ sentinelEnd :=
        ⟨List.append_assoc _ _ _ ▸ List.prefix_append _ _, List.suffix_append _ _⟩
      have htrim : trimSuffix (lit "?=") (trimPrefix (lit "=?base64?")
          (sentinelStart ++ Base64.encode name ++ sentinelEnd)) = Base64.encode name := by
        rw [List.append_assoc]
        exact (congrArg _ (trimPrefix_append _ _)).trans (trimSuffix_append _ _)
      dsimp only
      rw [if_neg (fun h => (hcond _).mp h hboth), htrim, Base64.decode_encode]
      simp [hvalid]

end Names

section Parsing

lemma checkMethodHeader_eq_ok {ing : IngressRequest} {o : Option Bytes} :
    checkMethodHeader ing o = .ok () ↔ ∀ v ∈ o, v = ing.method := by
  cases o with
  | none => simp [checkMethodHeader]
  | some v => simp [checkMethodHeader]

lemma checkNameHeader_eq_ok {ing : IngressRequest} {o : Option Bytes}
    (hvalid : Utf8.valid ing.paramsName = true) :
    checkNameHeader ing o = .ok () ↔ ∀ v ∈ o, Spells v ing.paramsName := by
  cases o with
  | none => simp [checkNameHeader]
  | some v =>
    have hcheck : checkNameHeader ing (some v) = .ok () ↔
        ing.paramsName ≠ [] ∧ decodeHeaderName v = .ok ing.paramsName := by
      rw [checkNameHeader]
      cases hdecode : decodeHeaderName v with
      | error e => simp [bind, Except.bind]
      | ok d => simp [bind, Except.bind]
    rw [hcheck, decodeHeaderName_eq_ok]
    simp [Spells, hvalid]

lemma rawMember_mem {ms : List (List StrItem × Raw)} {key : Bytes} {v : Raw}
    (h : rawMember ms key = some v) : ∃ m ∈ ms, m.2 = v := by
  obtain ⟨m, hm, heq⟩ := Option.map_eq_some_iff.mp h
  exact ⟨m, List.mem_of_find?_eq_some hm, heq⟩

lemma paramsName_valid {body : Bytes} {ing : IngressRequest} (h : validateIngress body = .ok ing) :
    Utf8.valid ing.paramsName = true := by
  obtain ⟨hvalid, ms, ⟨l, text, r, hl, ht, hr, rfl⟩, -, henv⟩ := validateIngress_eq_ok.mp h
  obtain ⟨ps, hps, hcall⟩ := henv.params
  by_cases hmirrors : ∃ key, Mirrors ing.method key
  · obtain ⟨key, hkey⟩ := hmirrors
    obtain ⟨⟨items, hitems, heq⟩, -⟩ := hcall.name key hkey
    obtain ⟨m, hm, hobj⟩ := rawMember_mem hps
    obtain ⟨m', hm', hstr⟩ := rawMember_mem hitems
    have hmem : items ∈ (Raw.obj ms).strings := by
      refine Raw.strings_obj.mpr ⟨m, hm, .inr ?_⟩
      rw [hobj]
      refine Raw.strings_obj.mpr ⟨m', hm', .inr ?_⟩
      rw [hstr]
      exact List.mem_singleton_self items
    obtain ⟨text', hchars, hv⟩ := ht.strings_valid (valid_value hl hr hvalid) items hmem
    rw [heq]
    exact valid_unquote (x := []) hchars hv
  · rw [hcall.unnamed fun key hkey => hmirrors ⟨key, hkey⟩]
    rfl

lemma validateMirroredHeaders_eq_ok {header : Header} {ing : IngressRequest}
    {version : Option Bytes} (hvalid : Utf8.valid ing.paramsName = true) :
    validateMirroredHeaders header ing = .ok version ↔ ∃ method name,
      Mirrored header (lit "Mcp-Method") method ∧ Mirrored header (lit "Mcp-Name") name ∧
      Mirrored header (lit "MCP-Protocol-Version") version ∧ (∀ v ∈ method, v = ing.method) ∧
      (∀ v ∈ name, Spells v ing.paramsName) ∧ ∀ v ∈ version, 44 ∉ v := by
  simp only [← singleHeader_eq_ok, ← checkMethodHeader_eq_ok, ← checkNameHeader_eq_ok hvalid]
  have hcomma : ∀ o : Option Bytes, ((o.getD []).contains 44) = false ↔ ∀ v ∈ o, 44 ∉ v := by
    intro o
    cases o <;> simp
  rw [validateMirroredHeaders]
  constructor
  · intro h
    simp only [bind, Except.bind, pure, Except.pure] at h
    split at h
    · simp at h
    rename_i method hmethod
    split at h
    · simp at h
    rename_i hcheckMethod
    split at h
    · simp at h
    rename_i name hname
    split at h
    · simp at h
    rename_i hcheckName
    split at h
    · simp at h
    rename_i version' hversion
    split at h
    · simp [throw, throwThe, MonadExceptOf.throw] at h
    rename_i hno
    obtain rfl := Except.ok.inj h
    exact ⟨method, name, hmethod, hname, hversion, hcheckMethod, hcheckName,
      (hcomma _).mp (Bool.eq_false_iff.mpr hno)⟩
  · rintro ⟨method, name, hmethod, hname, hversion, hcheckMethod, hcheckName, hno⟩
    simp only [hmethod, hcheckMethod, hname, hcheckName, hversion, bind, Except.bind,
      (hcomma _).mpr hno]
    rfl

lemma parse_eq_ok {header : Header} {body : Bytes} {ing : IngressRequest} {inv : Invocation}
    (h : validateIngress body = .ok ing) : parse header body = .ok inv ↔
      ∃ version, validateMirroredHeaders header ing = .ok version ∧
        inv = ⟨lit "mcp", version.getD [], ing.method, ing.paramsName, ing.tool, ing.arguments,
          ing.requestID, ing.responseID⟩ := by
  simp only [parse, h]
  cases validateMirroredHeaders header ing with
  | error e => simp
  | ok version => simp [eq_comm]

end Parsing

section Spellings

/-- A name is spelled in Base64, whatever it is. -/
lemma clean_sentinel (name : Bytes) :
    Clean (sentinelStart ++ Base64.encode name ++ sentinelEnd) := by
  have hstart : sentinelStart = [61, 63, 98, 97, 115, 101, 54, 52, 63] := rfl
  have hend : sentinelEnd = [63, 61] := rfl
  have hplain : ∀ b ∈ sentinelStart ++ sentinelEnd, b = 9 ∨ 0x20 ≤ b ∧ b ≤ 0x7E := by
    simp [hstart, hend]
  refine ⟨by simp [hstart], by simp [hstart], by simp [hend], fun b hb => ?_⟩
  · rcases List.mem_append.mp hb with hb | hb
    · rcases List.mem_append.mp hb with hb | hb
      · exact hplain b (List.mem_append_left _ hb)
      · obtain ⟨-, -, hlow, hhigh⟩ := Base64.encode_plain name b hb
        exact .inr ⟨UInt8.le_of_lt hlow, hhigh⟩
    · exact hplain b (List.mem_append_right _ hb)

lemma mirrored_singleton {name v : Bytes} (hclean : Clean v) (hname : equalFold name name = true) :
    Mirrored (AList.singleton name [v]) name (some v) := by
  refine .single hclean ?_
  simp [AList.singleton, hname]

lemma mirrored_absent {name other v : Bytes} (h : equalFold name other = false) :
    Mirrored (AList.singleton name [v]) other none := by
  refine .absent fun e he => ?_
  obtain rfl := List.mem_singleton.mp he
  exact h

end Spellings

/-- The requests whose mirrored headers are accepted, that these change nothing but the
protocol version, and that every name can be mirrored. -/
theorem mirrored_headers (header : Header) (body : Bytes) (ing : IngressRequest)
    (hbody : validateIngress body = .ok ing) :
    ((∃ inv, parse header body = .ok inv) ↔ ∃ method name version,
      Mirrored header (lit "Mcp-Method") method ∧ Mirrored header (lit "Mcp-Name") name ∧
      Mirrored header (lit "MCP-Protocol-Version") version ∧ (∀ v ∈ method, v = ing.method) ∧
      (∀ v ∈ name, Spells v ing.paramsName) ∧ ∀ v ∈ version, 44 ∉ v) ∧
    (∀ header' inv inv', parse header body = .ok inv → parse header' body = .ok inv' →
      inv' = { inv with protocolVersion := inv'.protocolVersion }) ∧
    ∀ name, Utf8.valid name = true → name ≠ [] → ∃ v, Clean v ∧ Spells v name ∧
      (ing.paramsName = name →
        ∃ inv, parse (AList.singleton (lit "Mcp-Name") [v]) body = .ok inv) := by
  have hvalid := paramsName_valid hbody
  have hparse : ∀ header, (∃ inv, parse header body = .ok inv) ↔
      ∃ version, validateMirroredHeaders header ing = .ok version := by
    intro header
    simp only [parse_eq_ok hbody]
    exact ⟨fun ⟨_, version, h, _⟩ => ⟨version, h⟩, fun ⟨version, h⟩ => ⟨_, version, h, rfl⟩⟩
  refine ⟨?_, fun header' inv inv' h h' => ?_, fun name _ hne => ?_⟩
  · rw [hparse]
    simp only [validateMirroredHeaders_eq_ok hvalid]
    constructor
    · rintro ⟨version, method, name, h⟩
      exact ⟨method, name, version, h⟩
    · rintro ⟨method, name, version, h⟩
      exact ⟨version, method, name, h⟩
  · obtain ⟨version, -, rfl⟩ := (parse_eq_ok hbody).mp h
    obtain ⟨version', -, rfl⟩ := (parse_eq_ok hbody).mp h'
    rfl
  · have hspells : Spells (sentinelStart ++ Base64.encode name ++ sentinelEnd) name :=
      ⟨hne, .inr rfl⟩
    refine ⟨_, clean_sentinel name, hspells, fun heq => (hparse _).mpr ⟨none, ?_⟩⟩
    refine (validateMirroredHeaders_eq_ok hvalid).mpr ⟨none, some _, mirrored_absent (by decide),
      mirrored_singleton (clean_sentinel name) (by decide), mirrored_absent (by decide), by simp,
      ?_, by simp⟩
    simpa [heq] using hspells

def lightCall : Bytes :=
  lit "\x7b\"jsonrpc\":\"2.0\",\"method\":\"tools/call\"," ++
    lit "\"params\":\x7b\"name\":\"light w\"\x7d\x7d"

theorem mirrored_headers_light : ∃ ing v inv, validateIngress lightCall = .ok ing ∧
    ing.paramsName = lit "light w" ∧ Spells v (lit "light w") ∧
    parse (AList.singleton (lit "Mcp-Name") [v]) lightCall = .ok inv := by
  have hname : (validateIngress lightCall).toOption.map IngressRequest.paramsName =
      some (lit "light w") := by
    decide +kernel
  cases hbody : validateIngress lightCall with
  | error e =>
    rw [hbody] at hname
    simp [Except.toOption] at hname
  | ok ing =>
    rw [hbody] at hname
    have heq : ing.paramsName = lit "light w" := Option.some.inj hname
    obtain ⟨-, -, hspell⟩ := mirrored_headers ∅ lightCall ing hbody
    obtain ⟨v, -, hv, hinv⟩ := hspell (lit "light w") (by decide +kernel) (by decide)
    obtain ⟨inv, hparse⟩ := hinv heq
    exact ⟨ing, v, inv, rfl, heq, hv, hparse⟩

end KiteRail.Proxy
