import KiteRail.JsonRespell
import KiteRail.McpDecode

/-! What decoding keeps of the values that bodies denote. Two bodies that denote different
values are decoded differently, unless a string of one has a replacement character where
the other has an unpaired surrogate. -/
namespace KiteRail.Mcp
open Bytes Json Utf8

def denoted (body : Bytes) : Option Json := (Json.parse body).map (Raw.read wide)

def literals (body : Bytes) : List (List StrItem) := (Json.parse body).elim [] Raw.strings

lemma denoted_of_document {raw : Raw} {body : Bytes} (h : Document raw body) :
    denoted body = some (raw.read wide) ∧ literals body = raw.strings := by
  rw [denoted, literals, (parse_eq_some_iff body raw).mpr h]
  exact ⟨rfl, rfl⟩

lemma literal_of_document {raw : Raw} {body : Bytes} (h : Document raw body)
    (hv : valid body = true) : ∀ items ∈ raw.strings, Literal items := by
  obtain ⟨l, text, r, hl, ht, hr, rfl⟩ := h
  exact ht.strings_valid (valid_value hl hr hv)

section Other
variable {τ : ℕ → List ℕ}

/-- A string written by escapes, each code point by the units that `τ` has for it. -/
def spelled (τ : ℕ → List ℕ) (items : List StrItem) : List StrItem :=
  ((runesOfUnits (units items)).flatMap τ).map .unicode

/-- `τ` is one way to spell code points. -/
structure Spelling (τ : ℕ → List ℕ) : Prop where
  lt : ∀ r, Scalar r → ∀ u ∈ τ r, u < 0x10000
  runes : ∀ rs, (∀ r ∈ rs, Scalar r) → runesOfUnits (rs.flatMap τ) = rs

lemma spelling_units : Spelling unitsOfRune where
  lt _ hr := unitsOfRune_lt hr
  runes rs hrs := by
    have heq : runesOfUnits (rs.flatMap unitsOfRune ++ []) = rs ++ [] := runesOfUnits_runes hrs
    rwa [List.append_nil, List.append_nil] at heq

lemma spelling_lone : Spelling loneUnits where
  lt _ hr := loneUnits_lt hr
  runes _ hrs := runesOfUnits_lone hrs

lemma Spelling.units_lt (hτ : Spelling τ) {items : List StrItem} (h : Literal items) :
    ∀ u ∈ (runesOfUnits (units items)).flatMap τ, u < 0x10000 := by
  intro u hu
  obtain ⟨r, hr, hin⟩ := List.mem_flatMap.mp hu
  exact hτ.lt r (scalar_runesOfUnits h.units_lt r hr) u hin

lemma Spelling.chars (hτ : Spelling τ) {items : List StrItem} (h : Literal items) :
    ∃ text, Chars (spelled τ items) text ∧ AsciiText text :=
  chars_escapes (hτ.units_lt h)

lemma Spelling.literal (hτ : Spelling τ) {items : List StrItem} (h : Literal items) :
    Literal (spelled τ items) := by
  obtain ⟨text, hc, hascii⟩ := hτ.chars h
  exact ⟨text, hc, valid_of_ascii fun b hb => UInt8.lt_iff_toNat_lt.mpr (hascii b hb)⟩

lemma Spelling.unquote_eq (hτ : Spelling τ) {items : List StrItem} (h : Literal items) :
    unquote (spelled τ items) = unquote items := by
  rw [(hτ.literal h).unquote_eq, h.unquote_eq, spelled, units_escapes,
    hτ.runes _ (scalar_runesOfUnits h.units_lt)]

/-- A body with its strings spelled by `τ` is decoded alike. -/
lemma Spelling.decodeObject_eq (hτ : Spelling τ) {ms : List (List StrItem × Raw)} {body : Bytes}
    (hdoc : Document (.obj ms) body) (hv : valid body = true)
    (hd : (Raw.obj ms).Distinct unquote) :
    ∃ body', Document ((Raw.obj ms).rewrite (spelled τ)) body' ∧
      decodeObject body' = .ok (readMembers unquote ms) := by
  have hlit := literal_of_document hdoc hv
  obtain ⟨body', hdoc', hv'⟩ := hdoc.respell hv fun items h => hτ.chars h
  have hread : ((Raw.obj ms).rewrite (spelled τ)).read unquote = (Raw.obj ms).read unquote := by
    rw [read_rewrite]
    exact read_congr fun items hitems => hτ.unquote_eq (hlit items hitems)
  have hdistinct : ((Raw.obj ms).rewrite (spelled τ)).Distinct unquote := by
    intro ms' hms'
    rw [nodes_rewrite] at hms'
    obtain ⟨node, hnode, heq⟩ := List.mem_map.mp hms'
    cases node with
    | obj ns =>
      obtain rfl := Raw.obj.inj ((congrArg Raw.obj rewriteMembers_eq).symm.trans heq)
      have hnames : (ns.map fun m => unquote (spelled τ m.1)) = ns.map fun m => unquote m.1 := by
        refine List.map_congr_left fun m hm => hτ.unquote_eq (hlit m.1 ?_)
        exact List.mem_flatMap.mpr ⟨.obj ns, hnode, List.mem_map_of_mem hm⟩
      rw [List.map_map]
      exact hnames ▸ hd ns hnode
    | _ => simp [Raw.rewrite] at heq
  refine ⟨body', hdoc', (decodeObject_eq_ok body' _).mpr ⟨hv', _, hdoc', hdistinct, ?_⟩⟩
  exact (Json.obj.inj hread).symm

end Other

lemma wide_eq_iff {a b : List StrItem} (ha : Literal a) (hb : Literal b) :
    wide a = wide b ↔ units a = units b :=
  ⟨wideBytes_inj ha.units_lt hb.units_lt, congrArg wideBytes⟩

/-- No other body is decoded as this one is and denotes another value, exactly if no string
of it is ambiguous. -/
theorem decoding_faithful (body : Bytes) (members : List (Bytes × Json)) (value : Json)
    (h : decodeObject body = .ok members) (hvalue : denoted body = some value) :
    (∀ body' members' value', decodeObject body' = .ok members' →
      denoted body' = some value' → ¬ Same value value' → ¬ Same (.obj members) (.obj members')) ↔
    ∀ items ∈ literals body, ¬ Ambiguous items := by
  obtain ⟨hv, ms, hdoc, hd, rfl⟩ := (decodeObject_eq_ok body members).mp h
  obtain ⟨hden, hstr⟩ := denoted_of_document hdoc
  have hlit := literal_of_document hdoc hv
  obtain rfl : (Raw.obj ms).read wide = value := Option.some.inj (hden.symm.trans hvalue)
  rw [hstr]
  constructor
  · intro hall items hitems hamb
    -- Both spellings are decoded alike, so each denotes the value of the body.
    have hother : ∀ τ, Spelling τ → ∃ c, Literal c ∧
        units items = (runesOfUnits (units c)).flatMap τ := by
      intro τ hτ
      obtain ⟨body', hdoc', hdec⟩ := hτ.decodeObject_eq hdoc hv hd
      have hsame := not_imp_not.mp (hall body' _ _ hdec (denoted_of_document hdoc').1)
        (same_read_self (f := unquote) (.obj ms))
      obtain ⟨c', hc', heq⟩ := strings_of_same hsame items hitems
      rw [Raw.strings_rewrite] at hc'
      obtain ⟨c, hc, rfl⟩ := List.mem_map.mp hc'
      rw [wide_eq_iff (hlit items hitems) (hτ.literal (hlit c hc)), spelled, units_escapes] at heq
      exact ⟨c, hlit c hc, heq⟩
    obtain ⟨c, hc, hpaired⟩ := hother _ spelling_units
    obtain ⟨c', hc', hlone⟩ := hother _ spelling_lone
    rcases hamb with herror | hunpaired
    · exact runeError_notMem_lone (scalar_runesOfUnits hc'.units_lt) (hlone ▸ herror)
    · rw [hpaired, unpaired_units (scalar_runesOfUnits hc.units_lt)] at hunpaired
      exact Bool.false_ne_true hunpaired
  · intro hplain body' members' value' hdec hval hdiff hsame
    obtain ⟨hv', ms', hdoc', -, rfl⟩ := (decodeObject_eq_ok body' members').mp hdec
    have hlit' := literal_of_document hdoc' hv'
    obtain rfl : (Raw.obj ms').read wide = value' :=
      Option.some.inj ((denoted_of_document hdoc').1.symm.trans hval)
    refine hdiff (same_of_same (f := unquote) (v := .obj ms) (w := .obj ms') hsame ?_)
    intro a ha b hb heq
    exact congrArg wideBytes
      (units_eq_of_unquote_eq (hlit a ha) (hlit' b hb) (hplain a ha) heq)

section Examples

def bodyWith (text : Bytes) : Bytes := lit "\x7b\"a\":\"" ++ (text ++ lit "\"\x7d")

lemma document_bodyWith {items : List StrItem} {text : Bytes} (h : Chars items text) :
    Document (.obj [([.char 97], .str items)]) (bodyWith text) := by
  have hnil : Space [] := by simp [Space]
  have hname : Chars [.char 97] [97] := .cons (.char (by decide) (by decide) (by decide)) .nil
  have hmembers : Members 9999 [([.char 97], .str items)] _ :=
    .one hnil hname hnil hnil (.str h) hnil
  have htext := Text.obj hmembers
  refine ⟨[], _, [], hnil, htext, hnil, ?_⟩
  simp only [bodyWith, lit, List.nil_append, List.append_nil, List.cons_append,
    List.append_assoc]
  rfl

lemma decodeObject_bodyWith {items : List StrItem} {text : Bytes} (h : Chars items text)
    (hv : valid (bodyWith text) = true) :
    decodeObject (bodyWith text) = .ok [(lit "a", .str (unquote items))] ∧
    denoted (bodyWith text) = some (.obj [([0, 97], .str (wide items))]) ∧
    literals (bodyWith text) = [[.char 97], items] := by
  have hdoc := document_bodyWith h
  refine ⟨(decodeObject_eq_ok _ _).mpr ⟨hv, _, hdoc, ?_, rfl⟩, denoted_of_document hdoc⟩
  simp [Raw.Distinct, Raw.nodes]

theorem decoding_faithful_plain :
    decodeObject (bodyWith (lit "b")) = .ok [(lit "a", .str (lit "b"))] ∧
    denoted (bodyWith (lit "b")) = some (.obj [([0, 97], .str [0, 98])]) ∧
    (∀ body' members' value', decodeObject body' = .ok members' → denoted body' = some value' →
      ¬ Same (.obj [([0, 97], .str [0, 98])]) value' →
      ¬ Same (.obj [(lit "a", .str (lit "b"))]) (.obj members')) := by
  have hchars : Chars [.char 98] (lit "b") :=
    .cons (.char (by decide) (by decide) (by decide)) .nil
  obtain ⟨hdec, hden, hlit⟩ := decodeObject_bodyWith hchars (by rfl)
  refine ⟨hdec, hden, (decoding_faithful _ _ _ hdec hden).mpr ?_⟩
  rw [hlit]
  decide

/-- Two unpaired surrogates are decoded alike. -/
theorem lone_surrogates_replaced :
    decodeObject (bodyWith (lit "\\ud800")) = .ok [(lit "a", .str [0xEF, 0xBF, 0xBD])] ∧
    decodeObject (bodyWith (lit "\\udc00")) = .ok [(lit "a", .str [0xEF, 0xBF, 0xBD])] ∧
    denoted (bodyWith (lit "\\ud800")) = some (.obj [([0, 97], .str [0xD8, 0])]) ∧
    denoted (bodyWith (lit "\\udc00")) = some (.obj [([0, 97], .str [0xDC, 0])]) ∧
    ¬ Same (.obj [([0, 97], .str [0xD8, 0])]) (.obj [([0, 97], .str [0xDC, 0])]) := by
  have hhigh : Chars [.unicode 0xD800] (lit "\\ud800") := .cons (.unicode rfl) .nil
  have hlow : Chars [.unicode 0xDC00] (lit "\\udc00") := .cons (.unicode rfl) .nil
  obtain ⟨hdec, hden, -⟩ := decodeObject_bodyWith hhigh (by rfl)
  obtain ⟨hdec', hden', -⟩ := decodeObject_bodyWith hlow (by rfl)
  refine ⟨hdec, hdec', hden, hden', ?_⟩
  rintro ⟨-, hmembers⟩
  obtain ⟨j, hj, hsame⟩ := sameMembers_iff.mp hmembers _ List.mem_cons_self
  obtain rfl : j = .str [0xDC, 0] := by simpa using hj
  exact absurd hsame (by simp [Same])

end Examples

end KiteRail.Mcp
