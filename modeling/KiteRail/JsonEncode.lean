import KiteRail.JsonRespell
import KiteRail.JsonStruct

/-! Writing JSON, as `json.Marshal` writes it: without space, with the characters escaped that
HTML gives a meaning to, and with bytes that are not UTF-8 replaced. What is written is read
back, as long as its numbers are numbers and its containers are not nested too deep. -/
namespace KiteRail.Json
open Bytes Utf8

def htmlSafe (r : ℕ) : Bool :=
  32 ≤ r && r != 34 && r != 38 && r != 60 && r != 62 && r != 92

def hasEscape (r : ℕ) : Bool :=
  r == 34 || r == 92 || r == 8 || r == 12 || r == 10 || r == 13 || r == 9

/-- How a code point is written, or a byte that is not UTF-8. -/
def quoteRune : Option ℕ → List StrItem
  | none => [.unicode runeError]
  | some r =>
    if r < 0x80 then
      if htmlSafe r then [.char r.toUInt8]
      else if hasEscape r then [.escape r.toUInt8]
      else [.unicode r]
    else if r = 0x2028 ∨ r = 0x2029 then [.unicode r]
    else (encodeRune r).map .char

def escapeLetter (c : UInt8) : UInt8 :=
  if c = 8 then 98 else if c = 12 then 102 else if c = 10 then 110
  else if c = 13 then 114 else if c = 9 then 116 else c

def itemText : StrItem → Bytes
  | .char b => [b]
  | .escape c => [92, escapeLetter c]
  | .unicode u => [92, 117, hexDigit (u / 4096), hexDigit (u / 256 % 16), hexDigit (u / 16 % 16),
      hexDigit (u % 16)]

def quoteItems (s : Bytes) : List StrItem := (decode s).flatMap quoteRune

def quote (s : Bytes) : Bytes := 34 :: ((quoteItems s).flatMap itemText ++ [34])

mutual

def encode : Json → Bytes
  | .null => lit "null"
  | .bool true => lit "true"
  | .bool false => lit "false"
  | .num text => text
  | .str s => quote s
  | .arr es => 91 :: (encodeElements es ++ [93])
  | .obj ms => 123 :: (encodeMembers ms ++ [125])

def encodeElements : List Json → Bytes
  | [] => []
  | [v] => encode v
  | v :: w :: vs => encode v ++ 44 :: encodeElements (w :: vs)

def encodeMembers : List (Bytes × Json) → Bytes
  | [] => []
  | [(name, v)] => quote name ++ 58 :: encode v
  | (name, v) :: m :: ms => quote name ++ 58 :: (encode v ++ 44 :: encodeMembers (m :: ms))

end

mutual

/-- The syntax tree that is written. -/
def spell : Json → Raw
  | .null => .null
  | .bool b => .bool b
  | .num text => .num text
  | .str s => .str (quoteItems s)
  | .arr es => .arr (spellElements es)
  | .obj ms => .obj (spellMembers ms)

def spellElements : List Json → List Raw
  | [] => []
  | v :: vs => spell v :: spellElements vs

def spellMembers : List (Bytes × Json) → List (List StrItem × Raw)
  | [] => []
  | (name, v) :: ms => (quoteItems name, spell v) :: spellMembers ms

end

mutual

def depth : Json → ℕ
  | .arr es => depthElements es + 1
  | .obj ms => depthMembers ms + 1
  | _ => 0

def depthElements : List Json → ℕ
  | [] => 0
  | v :: vs => max (depth v) (depthElements vs)

def depthMembers : List (Bytes × Json) → ℕ
  | [] => 0
  | (_, v) :: ms => max (depth v) (depthMembers ms)

end

mutual

def strings : Json → List Bytes
  | .str s => [s]
  | .arr es => stringsElements es
  | .obj ms => stringsMembers ms
  | _ => []

def stringsElements : List Json → List Bytes
  | [] => []
  | v :: vs => strings v ++ stringsElements vs

def stringsMembers : List (Bytes × Json) → List Bytes
  | [] => []
  | (name, v) :: ms => name :: (strings v ++ stringsMembers ms)

end

section Trees
variable {es : List Json} {ms : List (Bytes × Json)}

@[simp] lemma spellElements_eq : spellElements es = es.map spell := by
  induction es with
  | nil => rfl
  | cons v vs ih => rw [spellElements, ih, List.map_cons]

@[simp] lemma spellMembers_eq : spellMembers ms = ms.map fun m => (quoteItems m.1, spell m.2) := by
  induction ms with
  | nil => rfl
  | cons m ms ih =>
    obtain ⟨name, v⟩ := m
    rw [spellMembers, ih, List.map_cons]

lemma depthElements_le {d : ℕ} : depthElements es ≤ d ↔ ∀ e ∈ es, depth e ≤ d := by
  induction es with
  | nil => simp [depthElements]
  | cons v vs ih => rw [depthElements, max_le_iff, ih, List.forall_mem_cons]

lemma depthMembers_le {d : ℕ} : depthMembers ms ≤ d ↔ ∀ m ∈ ms, depth m.2 ≤ d := by
  induction ms with
  | nil => simp [depthMembers]
  | cons m ms ih =>
    obtain ⟨name, v⟩ := m
    rw [depthMembers, max_le_iff, ih, List.forall_mem_cons]

@[simp] lemma stringsElements_eq : stringsElements es = es.flatMap strings := by
  induction es with
  | nil => rfl
  | cons v vs ih => rw [stringsElements, ih, List.flatMap_cons]

@[simp] lemma stringsMembers_eq :
    stringsMembers ms = ms.flatMap fun m => m.1 :: strings m.2 := by
  induction ms with
  | nil => rfl
  | cons m ms ih =>
    obtain ⟨name, v⟩ := m
    rw [stringsMembers, ih, List.flatMap_cons, List.cons_append]

@[elab_as_elim] theorem induct {P : Json → Prop} (null : P .null) (bool : ∀ b, P (.bool b))
    (num : ∀ text, P (.num text)) (str : ∀ s, P (.str s))
    (arr : ∀ es, (∀ e ∈ es, P e) → P (.arr es))
    (obj : ∀ ms, (∀ m ∈ ms, P m.2) → P (.obj ms)) (v : Json) : P v := by
  induction hn : sizeOf v using Nat.strong_induction_on generalizing v with
  | _ n ih =>
    subst hn
    cases v with
    | null => exact null
    | bool b => exact bool b
    | num text => exact num text
    | str s => exact str s
    | arr es =>
      refine arr es fun e he => ih _ ?_ e rfl
      have hlt := List.sizeOf_lt_of_mem he
      simp only [Json.arr.sizeOf_spec]
      omega
    | obj ms =>
      refine obj ms fun m hm => ih _ ?_ m.2 rfl
      have hlt := List.sizeOf_lt_of_mem hm
      obtain ⟨name, v⟩ := m
      simp only [Prod.mk.sizeOf_spec] at hlt
      simp only [Json.obj.sizeOf_spec]
      omega

end Trees

section Literals
variable {r : ℕ}

/-- What makes an item legal in a literal, and not the first half of a surrogate pair. -/
def Writable : StrItem → Prop
  | .char b => ¬ b < 32 ∧ b ≠ 34 ∧ b ≠ 92
  | .escape c => escaped (escapeLetter c) = some c
  | .unicode u => u < 0xD800 ∨ 0xDC00 ≤ u ∧ u < 0x10000

lemma itemText_of_writable {item : StrItem} (h : Writable item) :
    ItemText item (itemText item) := by
  cases item with
  | char b => exact .char h.1 h.2.1 h.2.2
  | escape c => exact .escape h
  | unicode u =>
    have hu : u < 0x10000 := by
      simp only [Writable] at h
      omega
    refine .unicode ?_
    rw [hex4, hexValue_hexDigit (by omega), hexValue_hexDigit (by omega),
      hexValue_hexDigit (by omega), hexValue_hexDigit (by omega)]
    simp only [Option.bind_eq_bind, Option.bind_some, Option.pure_def, Option.some.injEq]
    omega

lemma chars_of_writable {items : List StrItem} (h : ∀ i ∈ items, Writable i) :
    Chars items (items.flatMap itemText) := by
  induction items with
  | nil => exact .nil
  | cons i items ih =>
    rw [List.forall_mem_cons] at h
    exact .cons (itemText_of_writable h.1) (ih h.2)

lemma unquote_unicode {u : ℕ} (h : u < 0xD800 ∨ 0xDC00 ≤ u) (rest : List StrItem) :
    unquote (.unicode u :: rest) = encodeRune u ++ unquote rest := by
  cases rest with
  | nil => simp [unquote]
  | cons i rest =>
    cases i with
    | unicode v => rw [unquote, if_neg (by omega)]
    | char b => simp [unquote]
    | escape b => simp [unquote]

lemma unquote_chars (bs : Bytes) (rest : List StrItem) :
    unquote (bs.map .char ++ rest) = bs ++ unquote rest := by
  induction bs with
  | nil => rfl
  | cons b bs ih => rw [List.map_cons, List.cons_append, unquote, ih, List.cons_append]

lemma hasEscape_letter (h : hasEscape r = true) :
    escaped (escapeLetter r.toUInt8) = some r.toUInt8 := by
  simp only [hasEscape, Bool.or_eq_true, beq_iff_eq] at h
  rcases h with (((((rfl | rfl) | rfl) | rfl) | rfl) | rfl) | rfl <;> rfl

lemma htmlSafe_char (h : htmlSafe r = true) (hr : r < 0x80) : Writable (.char r.toUInt8) := by
  simp only [htmlSafe, Bool.and_eq_true, decide_eq_true_eq, bne_iff_ne] at h
  have hn : r.toUInt8.toNat = r := toNat_toUInt8 (by omega)
  refine ⟨?_, ?_, ?_⟩
  · rw [UInt8.lt_iff_toNat_lt, hn]
    exact not_lt.mpr h.1.1.1.1.1
  · exact fun he => h.1.1.1.1.2 (by rw [← hn, he]; rfl)
  · exact fun he => h.2 (by rw [← hn, he]; rfl)

lemma encodeRune_char (hr : 0x80 ≤ r) {b : UInt8} (hb : b ∈ encodeRune r) :
    Writable (.char b) := by
  have hge := encodeRune_beyond hr b hb
  refine ⟨?_, ?_, ?_⟩
  · rw [UInt8.lt_iff_toNat_lt]
    exact not_lt.mpr (le_trans (by decide) hge)
  all_goals
    rintro rfl
    exact absurd hge (by decide)

lemma quoteRune_writable (o : Option ℕ) : ∀ i ∈ quoteRune o, Writable i := by
  cases o with
  | none => simp [quoteRune, Writable, runeError]
  | some r =>
    rw [quoteRune]
    split_ifs with hascii hsafe hesc hline
    · simpa using htmlSafe_char hsafe hascii
    · simpa [Writable] using hasEscape_letter hesc
    · simp only [List.mem_singleton, forall_eq, Writable]
      omega
    · simp only [List.mem_singleton, forall_eq, Writable]
      omega
    · intro i hi
      obtain ⟨b, hb, rfl⟩ := List.mem_map.mp hi
      exact encodeRune_char (not_lt.mp hascii) hb

lemma unquote_quoteRune (o : Option ℕ) (rest : List StrItem) :
    unquote (quoteRune o ++ rest) = encodeRune (o.getD runeError) ++ unquote rest := by
  have hbyte : ∀ r : ℕ, r < 0x80 → encodeRune r = [r.toUInt8] := by
    intro r hr
    rw [encodeRune, if_pos hr]
  cases o with
  | none => exact unquote_unicode (by simp [runeError]) rest
  | some r =>
    rw [quoteRune, Option.getD_some]
    split_ifs with hascii hsafe hesc hline
    · simp [unquote, hbyte r hascii]
    · simp [unquote, hbyte r hascii]
    · exact unquote_unicode (by omega) rest
    · exact unquote_unicode (by omega) rest
    · exact unquote_chars _ rest

lemma chars_quoteItems (s : Bytes) : Chars (quoteItems s) ((quoteItems s).flatMap itemText) := by
  refine chars_of_writable fun i hi => ?_
  obtain ⟨o, -, ho⟩ := List.mem_flatMap.mp hi
  exact quoteRune_writable o i ho

/-- A literal stands for what was written, with replacements for what is not UTF-8. -/
@[simp] lemma unquote_quoteItems (s : Bytes) : unquote (quoteItems s) = sanitize s := by
  rw [quoteItems, sanitize, runes]
  induction decode s with
  | nil => rfl
  | cons o os ih => rw [List.flatMap_cons, unquote_quoteRune, ih, List.map_cons, List.flatMap_cons]

lemma quoteItems_of_safe {s : Bytes} (h : ∀ b ∈ s, b < 0x80 ∧ htmlSafe b.toNat = true) :
    quoteItems s = s.map .char := by
  induction s with
  | nil => rfl
  | cons b s ih =>
    rw [List.forall_mem_cons] at h
    obtain ⟨⟨hb, hsafe⟩, hs⟩ := h
    have hnat : b.toNat < 0x80 := UInt8.lt_iff_toNat_lt.mp hb
    have hrune : quoteRune (some b.toNat) = [.char b] := by
      have hbyte : b.toNat.toUInt8 = b := UInt8.ofNat_toNat
      rw [quoteRune, if_pos hnat, if_pos hsafe, hbyte]
    rw [quoteItems, decode_cons_of_lt hb, List.flatMap_cons, hrune]
    exact congrArg (StrItem.char b :: ·) (ih hs)

lemma quote_length_of_safe {s : Bytes} (h : ∀ b ∈ s, b < 0x80 ∧ htmlSafe b.toNat = true) :
    (quote s).length = s.length + 2 := by
  rw [quote, quoteItems_of_safe h]
  simp [List.flatMap_map, itemText]

lemma text_quoteItems {s : Bytes} (h : valid s = true) : text (quoteItems s) = s := by
  have hs := (sanitize_eq_self_iff s).mpr h
  rw [text, unquote_quoteItems, hs, hs]

end Literals

section Structs
variable {σ τ : Type} {fields : List (Bytes × Decoder σ)} {s s' : σ} {ms : List (Bytes × Json)}

/-- Members that decode one after another without error, each into a field of its name if there
is one. -/
inductive Fills (fields : List (Bytes × Decoder σ)) : σ → List (Bytes × Json) → σ → Prop
  | nil (s : σ) : Fills fields s [] s
  | cons {s s₁ s' : σ} {name : Bytes} {v : Json} {ms : List (Bytes × Json)}
      {n : Bytes} {d : Decoder σ} (hname : valid name = true)
      (hf : fields.find? (fun f => Header.equalFold name f.1) = some (n, d))
      (hd : d s (spell v) = (s₁, true)) (hrest : Fills fields s₁ ms s') :
      Fills fields s ((name, v) :: ms) s'
  | skip {s s' : σ} {name : Bytes} {v : Json} {ms : List (Bytes × Json)}
      (hname : valid name = true)
      (hf : fields.find? (fun f => Header.equalFold name f.1) = none)
      (hrest : Fills fields s ms s') : Fills fields s ((name, v) :: ms) s'

lemma Fills.append {s₁ : σ} {ns : List (Bytes × Json)} (h : Fills fields s ms s₁)
    (h' : Fills fields s₁ ns s') : Fills fields s (ms ++ ns) s' := by
  induction h with
  | nil => exact h'
  | cons hname hf hd _ ih => exact .cons hname hf hd (ih h')
  | skip hname hf _ ih => exact .skip hname hf (ih h')

lemma Fills.decodeStruct (h : Fills fields s ms s') :
    decodeStruct fields s (spell (.obj ms)) = (s', true) := by
  rw [spell, spellMembers_eq, Json.decodeStruct]
  induction h with
  | nil => rfl
  | cons hname hf hd _ ih =>
    rw [List.map_cons, List.foldl_cons]
    simp only [decodeMember, text_quoteItems hname, hf, hd, Bool.and_self]
    exact ih
  | skip hname hf _ ih =>
    rw [List.map_cons, List.foldl_cons]
    simp only [decodeMember, text_quoteItems hname, hf]
    exact ih

lemma field_eq {get : σ → τ} {set : σ → τ → σ} {d : Decoder τ} {v : Raw} {x : τ}
    (h : d (get s) v = (x, true)) : field get set d s v = (set s x, true) := by
  rw [field, h]

lemma decodeString_str {old t : Bytes} (h : valid t = true) :
    decodeString old (spell (.str t)) = (t, true) := by
  rw [spell, decodeString, text_quoteItems h]

lemma decodeInt64_decimal {n old : ℤ} (h₀ : 0 ≤ n) (h₁ : n ≤ GoStrconv.maxInt64) :
    decodeInt64 old (spell (.num (decimal n))) = (n, true) := by
  obtain ⟨k, rfl⟩ := Int.eq_ofNat_of_zero_le h₀
  simp only [spell, decodeInt64]
  rw [GoStrconv.parseInt_decimal h₁]

end Structs

section Values
variable {es : List Json} {ms : List (Bytes × Json)} {d : ℕ}

lemma elements_encode (hne : es ≠ []) (h : ∀ e ∈ es, Text d (spell e) (encode e)) :
    Elements d (es.map spell) (encodeElements es) := by
  have hnil : Space [] := by simp [Space]
  induction es with
  | nil => exact absurd rfl hne
  | cons v vs ih =>
    rw [List.forall_mem_cons] at h
    cases vs with
    | nil => simpa [encodeElements] using Elements.one hnil h.1 hnil
    | cons w vs =>
      have hrest := ih (List.cons_ne_nil w vs) h.2
      simpa [encodeElements] using Elements.more hnil h.1 hnil hrest

lemma members_encode (hne : ms ≠ []) (h : ∀ m ∈ ms, Text d (spell m.2) (encode m.2)) :
    Members d (ms.map fun m => (quoteItems m.1, spell m.2)) (encodeMembers ms) := by
  have hnil : Space [] := by simp [Space]
  induction ms with
  | nil => exact absurd rfl hne
  | cons m ms ih =>
    rw [List.forall_mem_cons] at h
    obtain ⟨name, v⟩ := m
    cases ms with
    | nil => simpa [encodeMembers, quote] using
        Members.one hnil (chars_quoteItems name) hnil hnil h.1 hnil
    | cons m ms =>
      have hrest := ih (List.cons_ne_nil m ms) h.2
      simpa [encodeMembers, quote] using
        Members.more hnil (chars_quoteItems name) hnil hnil h.1 hnil hrest

/-- What is written is a text of the grammar. -/
theorem text_encode (v : Json) (hnum : ∀ t ∈ numbers v, Number t) (hd : depth v ≤ d) :
    Text d (spell v) (encode v) := by
  induction v using Json.induct generalizing d with
  | null => exact .null
  | bool b =>
    cases b with
    | true => exact .trueWord
    | false => exact .falseWord
  | num text => exact .num (hnum text (by simp [numbers]))
  | str s => exact .str (chars_quoteItems s)
  | arr es ih =>
    rw [depth] at hd
    obtain ⟨d, rfl⟩ : ∃ k, d = k + 1 := ⟨d - 1, by omega⟩
    have hdepth := depthElements_le.mp (Nat.le_of_succ_le_succ hd)
    simp only [numbers, numbersElements_eq, List.mem_flatMap] at hnum
    rw [spell, spellElements_eq, encode]
    by_cases hne : es = []
    · subst hne
      exact .emptyArr (by simp [Space, encodeElements])
    · exact .arr (elements_encode hne fun e he =>
        ih e he (fun t ht => hnum t ⟨e, he, ht⟩) (hdepth e he))
  | obj ms ih =>
    rw [depth] at hd
    obtain ⟨d, rfl⟩ : ∃ k, d = k + 1 := ⟨d - 1, by omega⟩
    have hdepth := depthMembers_le.mp (Nat.le_of_succ_le_succ hd)
    simp only [numbers, numbersMembers_eq, List.mem_flatMap] at hnum
    rw [spell, spellMembers_eq, encode]
    by_cases hne : ms = []
    · subst hne
      exact .emptyObj (by simp [Space, encodeMembers])
    · exact .obj (members_encode hne fun m hm =>
        ih m hm (fun t ht => hnum t ⟨m, hm, ht⟩) (hdepth m hm))

/-- A reading that undoes the spelling of its strings gives the value back. -/
theorem read_spell {f : List StrItem → Bytes} (v : Json)
    (h : ∀ s ∈ strings v, f (quoteItems s) = s) : (spell v).read f = v := by
  induction v using Json.induct with
  | null => rfl
  | bool b => rfl
  | num text => rfl
  | str s => rw [spell, Raw.read, h s (by simp [strings])]
  | arr es ih =>
    simp only [strings, stringsElements_eq, List.mem_flatMap] at h
    rw [spell, Raw.read, readElements_eq, spellElements_eq, List.map_map]
    refine congrArg arr ((List.map_congr_left fun e he => ?_).trans (List.map_id es))
    exact ih e he fun s hs => h s ⟨e, he, hs⟩
  | obj ms ih =>
    simp only [strings, stringsMembers_eq, List.mem_flatMap, List.mem_cons] at h
    rw [spell, Raw.read, readMembers_eq, spellMembers_eq, List.map_map]
    refine congrArg obj ((List.map_congr_left fun m hm => ?_).trans (List.map_id ms))
    exact Prod.ext (h m.1 ⟨m, hm, .inl rfl⟩) (ih m hm fun s hs => h s ⟨m, hm, .inr hs⟩)

/-- What is written is parsed as it was spelt. -/
theorem parse_encode (v : Json) (hnum : ∀ t ∈ numbers v, Number t)
    (hd : depth v ≤ maxNestingDepth) : parse (encode v) = some (spell v) := by
  rw [parse_eq_some_iff]
  have hnil : Space [] := by simp [Space]
  exact ⟨[], encode v, [], hnil, text_encode v hnum hd, hnil, by simp⟩

/-- The first value of a stream is read, and what follows it is left alone. -/
theorem decodeNext_encode {σ : Type} {zero : σ} {dec : Decoder σ} (v : Json)
    (hnum : ∀ t ∈ numbers v, Number t) (hd : depth v ≤ maxNestingDepth) {rest : Bytes}
    (hrest : Follows rest) :
    decodeNext zero dec (encode v ++ rest) = decoded zero dec (spell v) := by
  have hfuel : 2 * (encode v).length ≤ 2 * (encode v ++ rest).length + 2 := by
    rw [List.length_append]
    omega
  have hvalue := (parse_complete (2 * (encode v ++ rest).length + 2)).1 maxNestingDepth (spell v)
    (encode v) [] rest (text_encode v hnum hd) (by simp [Space]) hrest hfuel
  rw [List.nil_append] at hvalue
  rw [decodeNext, hvalue, Option.bind_some]

end Values

section Decimals

lemma decimalNat_head {n : ℕ} (h : 0 < n) : (decimalNat n).head? ≠ some 48 := by
  induction n using Nat.strong_induction_on with
  | _ n ih =>
    by_cases hlt : n < 10
    · interval_cases n <;> decide
    · have hne : Nat.toDigits 10 (n / 10) ≠ [] := Nat.toDigits_ne_nil
      have hrest := ih (n / 10) (by omega) (by omega)
      rw [decimalNat, Nat.toDigits_of_base_le (by omega) (by omega), List.map_append,
        List.head?_append_of_ne_nil _ (by simpa only [ne_eq, List.map_eq_nil_iff] using hne)]
      exact hrest

lemma integer_decimalNat (n : ℕ) : Integer (decimalNat n) := by
  rcases Nat.eq_zero_or_pos n with rfl | hpos
  · exact .inl (by decide)
  · refine .inr ⟨⟨GoStrconv.decimalNat_ne_nil n, fun b hb => ?_⟩, decimalNat_head hpos⟩
    have hd := decimalNat_digits hb
    simp only [isDigit, Bool.and_eq_true, decide_eq_true_eq, UInt8.le_iff_toNat_le]
    exact hd

lemma number_decimal (n : ℤ) : Number (decimal n) := by
  cases n with
  | ofNat n => exact ⟨[], decimalNat n, [], [], .inl rfl, integer_decimalNat n, .inl rfl, .inl rfl,
      by simp [decimal]⟩
  | negSucc n => exact ⟨[45], decimalNat (n + 1), [], [], .inr rfl, integer_decimalNat (n + 1),
      .inl rfl, .inl rfl, by simp [decimal]⟩

end Decimals

section Pieces
variable {P : Bytes → Prop}

/-- What holds of literals, numbers and printable ASCII, and of texts one after the other, holds
of what is written. -/
theorem encode_pieces (hnil : P []) (happend : ∀ x y, P x → P y → P (x ++ y))
    (hchar : ∀ b : UInt8, 32 ≤ b ∧ b < 0x80 → P [b]) (hquote : ∀ s, P (quote s))
    (hnumber : ∀ t, Number t → P t) (v : Json) (hnum : ∀ t ∈ numbers v, Number t) :
    P (encode v) := by
  have hcons : ∀ b bs, 32 ≤ b ∧ b < 0x80 → P bs → P (b :: bs) := fun b bs hb hbs =>
    happend [b] bs (hchar b hb) hbs
  have hword : ∀ bs : Bytes, (∀ b ∈ bs, 32 ≤ b ∧ b < 0x80) → P bs := by
    intro bs h
    induction bs with
    | nil => exact hnil
    | cons b bs ih =>
      rw [List.forall_mem_cons] at h
      exact hcons b bs h.1 (ih h.2)
  have helems : ∀ es : List Json, (∀ e ∈ es, P (encode e)) → P (encodeElements es) := by
    intro es h
    induction es with
    | nil => exact hnil
    | cons v vs ih =>
      rw [List.forall_mem_cons] at h
      cases vs with
      | nil => exact h.1
      | cons w vs => exact happend _ _ h.1 (hcons _ _ (by decide) (ih h.2))
  have hmems : ∀ ms : List (Bytes × Json), (∀ m ∈ ms, P (encode m.2)) →
      P (encodeMembers ms) := by
    intro ms h
    induction ms with
    | nil => exact hnil
    | cons m ms ih =>
      rw [List.forall_mem_cons] at h
      obtain ⟨name, v⟩ := m
      cases ms with
      | nil => exact happend _ _ (hquote name) (hcons _ _ (by decide) h.1)
      | cons m ms =>
        exact happend _ _ (hquote name) (hcons _ _ (by decide)
          (happend _ _ h.1 (hcons _ _ (by decide) (ih h.2))))
  induction v using Json.induct with
  | null => exact hword (lit "null") (by decide +kernel)
  | bool b =>
    cases b with
    | true => exact hword (lit "true") (by decide +kernel)
    | false => exact hword (lit "false") (by decide +kernel)
  | num text => exact hnumber text (hnum text (by simp [numbers]))
  | str s => exact hquote s
  | arr es ih =>
    simp only [numbers, numbersElements_eq, List.mem_flatMap] at hnum
    rw [encode]
    exact hcons _ _ (by decide) (happend _ _ (helems es fun e he => ih e he fun t ht =>
      hnum t ⟨e, he, ht⟩) (hchar _ (by decide)))
  | obj ms ih =>
    simp only [numbers, numbersMembers_eq, List.mem_flatMap] at hnum
    rw [encode]
    exact hcons _ _ (by decide) (happend _ _ (hmems ms fun m hm => ih m hm fun t ht =>
      hnum t ⟨m, hm, ht⟩) (hchar _ (by decide)))

lemma hexDigit_ascii {n : ℕ} (h : n < 16) : hexDigit n < 0x80 := by
  interval_cases n <;> decide

lemma escapeLetter_ascii {c : UInt8} (h : c < 0x80) : escapeLetter c < 0x80 := by
  rw [escapeLetter]
  split_ifs <;> first | decide | exact h

lemma quoteRune_valid (o : Option ℕ) : valid ((quoteRune o).flatMap itemText) = true := by
  have hunicode : ∀ u < 0x10000, valid (itemText (.unicode u)) = true := by
    intro u hu
    refine valid_of_ascii ?_
    simp only [itemText, Ascii, List.forall_mem_cons]
    exact ⟨by decide, by decide, hexDigit_ascii (by omega), hexDigit_ascii (by omega),
      hexDigit_ascii (by omega), hexDigit_ascii (by omega), by simp⟩
  have hbyte : ∀ r < 0x80, r.toUInt8 < 0x80 := by
    intro r hr
    rw [UInt8.lt_iff_toNat_lt, Nat.toUInt8_eq, UInt8.toNat_ofNat']
    exact lt_of_le_of_lt (Nat.mod_le _ _) hr
  cases o with
  | none =>
    rw [quoteRune, List.flatMap_singleton]
    exact hunicode _ (by decide)
  | some r =>
    rw [quoteRune]
    split_ifs with hr hsafe hesc hline
    · rw [List.flatMap_singleton]
      exact valid_of_ascii (List.forall_mem_singleton.mpr (hbyte r hr))
    · rw [List.flatMap_singleton]
      refine valid_of_ascii ?_
      simp only [itemText, Ascii, List.forall_mem_cons]
      exact ⟨by decide, escapeLetter_ascii (hbyte r hr), by simp⟩
    · rw [List.flatMap_singleton]
      exact hunicode r (by omega)
    · rw [List.flatMap_singleton]
      exact hunicode r (by omega)
    · have hchars : ((encodeRune r).map StrItem.char).flatMap itemText = encodeRune r := by
        simp [List.flatMap_map, itemText]
      rw [hchars]
      exact valid_encodeRune r

lemma quote_valid (s : Bytes) : valid (quote s) = true := by
  have hitems : ∀ os : List (Option ℕ), valid ((os.flatMap quoteRune).flatMap itemText) = true := by
    intro os
    induction os with
    | nil => decide
    | cons o os ih =>
      rw [List.flatMap_cons, List.flatMap_append]
      exact valid_append (quoteRune_valid o) ih
  exact valid_append (x := [34]) (by decide) (valid_append (hitems (decode s)) (by decide))

lemma encode_valid (v : Json) (hnum : ∀ t ∈ numbers v, Number t) : valid (encode v) = true :=
  encode_pieces (P := fun bs => valid bs = true) (by decide) (fun _ _ => valid_append)
    (fun _ hb => valid_of_ascii (List.forall_mem_singleton.mpr hb.2)) quote_valid
    (fun _ ht => valid_of_ascii fun b hb => UInt8.lt_iff_toNat_lt.mpr (ht.ascii b hb)) v hnum

end Pieces

section Printable
variable {es : List Json} {ms : List (Bytes × Json)}

def Printable (bs : Bytes) : Prop := ∀ b ∈ bs, ¬ b < 32

@[simp] lemma printable_nil : Printable [] := by simp [Printable]

@[simp] lemma printable_cons {b : UInt8} {bs : Bytes} :
    Printable (b :: bs) ↔ ¬ b < 32 ∧ Printable bs := List.forall_mem_cons

@[simp] lemma printable_append {x y : Bytes} :
    Printable (x ++ y) ↔ Printable x ∧ Printable y := List.forall_mem_append

lemma Digits.printable {ds : Bytes} (h : Digits ds) : Printable ds := by
  intro b hb
  have hd := h.2 b hb
  simp only [isDigit, Bool.and_eq_true, decide_eq_true_eq, UInt8.le_iff_toNat_le] at hd
  rw [UInt8.lt_iff_toNat_lt]
  exact not_lt.mpr (le_trans (by decide) hd.1)

lemma Number.printable {text : Bytes} (h : Number text) : Printable text := by
  obtain ⟨sign, i, f, e, hsign, hi, hf, he, rfl⟩ := h
  have hs : Printable sign := by rcases hsign with rfl | rfl <;> simp
  have hint : Printable i := by
    rcases hi with rfl | ⟨hd, -⟩
    · simp
    · exact hd.printable
  have hfrac : Printable f := by
    rcases hf with rfl | ⟨ds, hd, rfl⟩
    · simp
    · exact printable_cons.mpr ⟨by decide, hd.printable⟩
  have hexp : Printable e := by
    rcases he with rfl | ⟨x, sg, ds, hx, hsg, hd, rfl⟩
    · simp
    · refine printable_cons.mpr ⟨by rcases hx with rfl | rfl <;> decide, ?_⟩
      refine printable_append.mpr ⟨?_, hd.printable⟩
      rcases hsg with rfl | rfl | rfl <;> simp
  simp [hs, hint, hfrac, hexp]

lemma ItemText.printable {item : StrItem} {t : Bytes} (h : ItemText item t) : Printable t := by
  have hhex : ∀ {b : UInt8} {n : ℕ}, hexValue b = some n → ¬ b < 32 := by
    intro b n hb hlt
    rw [UInt8.lt_iff_toNat_lt] at hlt
    have hlow : ∀ x : UInt8, 32 ≤ x.toNat → ¬ x ≤ b := fun x hx hle =>
      absurd (UInt8.le_iff_toNat_le.mp hle) (not_le.mpr (lt_of_lt_of_le hlt hx))
    simp [hexValue, hlow 48 (by decide), hlow 97 (by decide), hlow 65 (by decide)] at hb
  cases h with
  | char hge => simpa using hge
  | @escape e c he =>
    have hlow : ¬ e < 32 := by
      intro hlt
      rw [UInt8.lt_iff_toNat_lt] at hlt
      have hne : ∀ x : UInt8, 32 ≤ x.toNat → e ≠ x := fun x hx h => by
        rw [h] at hlt
        exact absurd hlt (not_lt.mpr hx)
      simp [escaped, hne 34 (by decide), hne 92 (by decide), hne 47 (by decide),
        hne 98 (by decide), hne 102 (by decide), hne 110 (by decide), hne 114 (by decide),
        hne 116 (by decide)] at he
    simp [hlow]
  | unicode hu =>
    simp only [hex4, Option.bind_eq_bind, Option.bind_eq_some_iff] at hu
    obtain ⟨a, h₁, b, h₂, c, h₃, d, h₄, -⟩ := hu
    simp [hhex h₁, hhex h₂, hhex h₃, hhex h₄]

lemma Chars.printable {items : List StrItem} {text : Bytes} (h : Chars items text) :
    Printable text := by
  induction h with
  | nil => simp
  | cons hitem _ ih => exact printable_append.mpr ⟨hitem.printable, ih⟩

lemma quote_printable (s : Bytes) : Printable (quote s) := by
  simp [quote, (chars_quoteItems s).printable]

lemma encode_printable (v : Json) (hnum : ∀ t ∈ numbers v, Number t) : Printable (encode v) :=
  encode_pieces printable_nil (fun _ _ hx hy => printable_append.mpr ⟨hx, hy⟩)
    (fun _ hb => printable_cons.mpr ⟨UInt8.not_lt.mpr hb.1, printable_nil⟩) quote_printable
    (fun _ => Number.printable) v hnum

end Printable

section Lines
variable {lines : List Bytes} {got : Bytes}

def joinLines (lines : List Bytes) : Bytes := lines.flatMap fun line => line ++ [10]

def completeLines (got : Bytes) : List Bytes := (got.splitOn 10).dropLast

lemma completeLines_cons {line : Bytes} (h : 10 ∉ line) (rest : Bytes) :
    completeLines (line ++ 10 :: rest) = line :: completeLines rest := by
  have hline : ∀ b ∈ line, (b == 10) = false := fun b hb => by
    simpa using ne_of_mem_of_not_mem hb h
  rw [completeLines, List.splitOn, List.splitOnP_append_cons_of_forall_mem hline _ (by rfl),
    List.dropLast_cons_of_ne_nil (List.splitOnP_ne_nil _ _)]
  rfl

lemma completeLines_of_notMem (h : 10 ∉ got) : completeLines got = [] := by
  have hgot : ∀ b ∈ got, (b == 10) = false := fun b hb => by
    simpa using ne_of_mem_of_not_mem hb h
  rw [completeLines, List.splitOn, List.splitOnP_eq_singleton hgot]
  rfl

/-- Wherever the text is cut, the complete lines are the first ones. -/
theorem completeLines_prefix (h : ∀ line ∈ lines, 10 ∉ line) (hgot : got <+: joinLines lines) :
    completeLines got <+: lines := by
  induction lines generalizing got with
  | nil =>
    obtain rfl : got = [] := List.prefix_nil.mp hgot
    exact List.prefix_rfl
  | cons line lines ih =>
    rw [List.forall_mem_cons] at h
    rw [joinLines, List.flatMap_cons, List.append_assoc, List.singleton_append] at hgot
    rcases List.prefix_or_prefix_of_prefix hgot (List.prefix_append _ _) with hcut | ⟨rest, rfl⟩
    · rw [completeLines_of_notMem fun hmem => h.1 (hcut.subset hmem)]
      exact List.nil_prefix
    · rw [List.prefix_append_right_inj] at hgot
      cases rest with
      | nil =>
        rw [List.append_nil, completeLines_of_notMem h.1]
        exact List.nil_prefix
      | cons b rest =>
        obtain ⟨rfl, hrest⟩ := List.cons_prefix_cons.mp hgot
        rw [completeLines_cons h.1, List.cons_prefix_cons]
        exact ⟨rfl, ih h.2 hrest⟩

theorem completeLines_joinLines (h : ∀ line ∈ lines, 10 ∉ line) :
    completeLines (joinLines lines) = lines := by
  induction lines with
  | nil => rfl
  | cons line lines ih =>
    rw [List.forall_mem_cons] at h
    rw [joinLines, List.flatMap_cons, List.append_assoc, List.singleton_append,
      completeLines_cons h.1]
    exact congrArg (line :: ·) (ih h.2)

end Lines

end KiteRail.Json
