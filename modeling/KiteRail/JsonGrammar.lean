import KiteRail.JsonText

/-! The grammar of JSON text, as RFC 8259 gives it, and what the parser accepts: exactly
the texts of the grammar, each with its one syntax tree. -/
namespace KiteRail.Json

def Space (ws : Bytes) : Prop := ∀ b ∈ ws, isSpace b = true

inductive ItemText : StrItem → Bytes → Prop
  | char {b : UInt8} (hge : ¬ b < 32) (hquote : b ≠ 34) (hslash : b ≠ 92) : ItemText (.char b) [b]
  | escape {e c : UInt8} (h : escaped e = some c) : ItemText (.escape c) [92, e]
  | unicode {h₁ h₂ h₃ h₄ : UInt8} {u : ℕ} (h : hex4 h₁ h₂ h₃ h₄ = some u) :
      ItemText (.unicode u) [92, 117, h₁, h₂, h₃, h₄]

inductive Chars : List StrItem → Bytes → Prop
  | nil : Chars [] []
  | cons {item : StrItem} {items : List StrItem} {t text : Bytes} (h : ItemText item t)
      (hs : Chars items text) : Chars (item :: items) (t ++ text)

def Digits (ds : Bytes) : Prop := ds ≠ [] ∧ ∀ b ∈ ds, isDigit b = true

/-- `int`: no leading zero. -/
def Integer (ds : Bytes) : Prop := ds = [48] ∨ Digits ds ∧ ds.head? ≠ some 48

def Fraction (text : Bytes) : Prop := text = [] ∨ ∃ ds, Digits ds ∧ text = 46 :: ds

def Exponent (text : Bytes) : Prop :=
  text = [] ∨ ∃ e sign ds, (e = 101 ∨ e = 69) ∧ (sign = [] ∨ sign = [43] ∨ sign = [45]) ∧
    Digits ds ∧ text = e :: (sign ++ ds)

def Number (text : Bytes) : Prop :=
  ∃ sign i f e, (sign = [] ∨ sign = [45]) ∧ Integer i ∧ Fraction f ∧ Exponent e ∧
    text = sign ++ i ++ f ++ e

mutual

/-- The texts of a value that nests containers at most `depth` deep. -/
inductive Text : ℕ → Raw → Bytes → Prop
  | null {depth : ℕ} : Text depth .null [110, 117, 108, 108]
  | trueWord {depth : ℕ} : Text depth (.bool true) [116, 114, 117, 101]
  | falseWord {depth : ℕ} : Text depth (.bool false) [102, 97, 108, 115, 101]
  | num {depth : ℕ} {text : Bytes} (h : Number text) : Text depth (.num text) text
  | str {depth : ℕ} {items : List StrItem} {text : Bytes} (h : Chars items text) :
      Text depth (.str items) (34 :: (text ++ [34]))
  | emptyArr {depth : ℕ} {ws : Bytes} (h : Space ws) :
      Text (depth + 1) (.arr []) (91 :: (ws ++ [93]))
  | arr {depth : ℕ} {es : List Raw} {text : Bytes} (h : Elements depth es text) :
      Text (depth + 1) (.arr es) (91 :: (text ++ [93]))
  | emptyObj {depth : ℕ} {ws : Bytes} (h : Space ws) :
      Text (depth + 1) (.obj []) (123 :: (ws ++ [125]))
  | obj {depth : ℕ} {ms : List (List StrItem × Raw)} {text : Bytes} (h : Members depth ms text) :
      Text (depth + 1) (.obj ms) (123 :: (text ++ [125]))

inductive Elements : ℕ → List Raw → Bytes → Prop
  | one {depth : ℕ} {v : Raw} {l t r : Bytes} (hl : Space l) (h : Text depth v t) (hr : Space r) :
      Elements depth [v] (l ++ (t ++ r))
  | more {depth : ℕ} {v : Raw} {l t r : Bytes} {vs : List Raw} {text : Bytes} (hl : Space l)
      (h : Text depth v t) (hr : Space r) (hs : Elements depth vs text) :
      Elements depth (v :: vs) (l ++ (t ++ (r ++ 44 :: text)))

inductive Members : ℕ → List (List StrItem × Raw) → Bytes → Prop
  | one {depth : ℕ} {name : List StrItem} {n m : Bytes} {v : Raw} {k l t r : Bytes}
      (hk : Space k) (hn : Chars name n) (hm : Space m) (hl : Space l) (h : Text depth v t)
      (hr : Space r) :
      Members depth [(name, v)] (k ++ 34 :: (n ++ 34 :: (m ++ 58 :: (l ++ (t ++ r)))))
  | more {depth : ℕ} {name : List StrItem} {n m : Bytes} {v : Raw} {k l t r : Bytes}
      {ms : List (List StrItem × Raw)} {text : Bytes}
      (hk : Space k) (hn : Chars name n) (hm : Space m) (hl : Space l) (h : Text depth v t)
      (hr : Space r) (hs : Members depth ms text) :
      Members depth ((name, v) :: ms)
        (k ++ 34 :: (n ++ 34 :: (m ++ 58 :: (l ++ (t ++ (r ++ 44 :: text))))))

end

/-- A text that is one value, with space around it. -/
def Document (v : Raw) (bs : Bytes) : Prop :=
  ∃ l text r, Space l ∧ Text maxNestingDepth v text ∧ Space r ∧ bs = l ++ (text ++ r)

section Lexical

/-- What follows a value: nothing, space, a comma or a closing bracket. -/
def Follows (rest : Bytes) : Prop :=
  ∀ b ∈ rest.head?, isSpace b = true ∨ b = 44 ∨ b = 93 ∨ b = 125

lemma Follows.not_digit {rest : Bytes} (h : Follows rest) :
    ∀ b ∈ rest.head?, isDigit b = false := by
  intro b hb
  rcases h b hb with hs | rfl | rfl | rfl
  · simp only [isSpace, Bool.or_eq_true, beq_iff_eq] at hs
    rcases hs with ((rfl | rfl) | rfl) | rfl <;> rfl
  all_goals rfl

lemma Follows.ne {rest : Bytes} (h : Follows rest) {b : UInt8} (hb : b ∈ rest.head?)
    (x : UInt8) (hx : isSpace x = false ∧ x ≠ 44 ∧ x ≠ 93 ∧ x ≠ 125) : b ≠ x := by
  rintro rfl
  rcases h b hb with hs | rfl | rfl | rfl <;> simp_all

lemma space_skip (bs : Bytes) : ∃ ws, Space ws ∧ bs = ws ++ skipSpace bs :=
  ⟨bs.takeWhile isSpace, fun _ h => List.mem_takeWhile_imp h, List.takeWhile_append_dropWhile.symm⟩

lemma skipSpace_append {ws bs : Bytes} (hs : Space ws) :
    skipSpace (ws ++ bs) = skipSpace bs := by
  rw [skipSpace, List.dropWhile_append_of_pos hs, skipSpace]

lemma skipSpace_cons {b : UInt8} (h : isSpace b = false) (bs : Bytes) :
    skipSpace (b :: bs) = b :: bs := by
  rw [skipSpace, List.dropWhile_cons, h]
  simp

lemma skipSpace_eq_nil {bs : Bytes} : skipSpace bs = [] ↔ Space bs := by
  simp [skipSpace, List.dropWhile_eq_nil_iff, Space]

lemma follows_append {ws rest : Bytes} (hs : Space ws) (h : Follows rest) :
    Follows (ws ++ rest) := by
  cases ws with
  | nil => exact h
  | cons b ws =>
    intro c hc
    obtain rfl : b = c := by simpa using hc
    exact .inl (hs b List.mem_cons_self)

/-- The literal of a string ends at its quote. -/
lemma stringItems_chars {items : List StrItem} {text : Bytes} (h : Chars items text)
    (rest : Bytes) : stringItems (text ++ 34 :: rest) = some (items, rest) := by
  induction h with
  | nil => rw [List.nil_append, stringItems.eq_def]; rfl
  | cons hitem _ ih =>
    rw [List.append_assoc]
    cases hitem with
    | char hge hquote hslash =>
      rw [List.singleton_append, stringItems.eq_def]
      simp [hge, hquote, hslash, ih]
    | @escape e c hc =>
      have hne : e ≠ 117 := by
        rintro rfl
        simp [escaped] at hc
      rw [List.cons_append, List.singleton_append, stringItems.eq_def]
      simp [hne, hc, ih]
    | unicode hu =>
      simp only [List.cons_append, List.nil_append]
      rw [stringItems.eq_def]
      simp [hu, ih]

lemma chars_stringItems {bs : Bytes} {items : List StrItem} {rest : Bytes}
    (h : stringItems bs = some (items, rest)) :
    ∃ text, bs = text ++ 34 :: rest ∧ Chars items text := by
  fun_induction stringItems bs generalizing items rest with
  | case2 b bs hb =>
    obtain ⟨rfl, rfl⟩ := Prod.mk.inj (Option.some.inj h)
    exact ⟨[], by rw [eq_of_beq hb, List.nil_append], .nil⟩
  | case4 b hquote hslash e hu h₁ h₂ h₃ h₄ bs ih =>
    simp only [Option.bind_eq_bind, Option.bind_eq_some_iff] at h
    obtain ⟨u, hhex, ⟨items', after⟩, hitems, heq⟩ := h
    obtain ⟨rfl, rfl⟩ := Prod.mk.inj (Option.some.inj heq)
    obtain ⟨text, rfl, hchars⟩ := ih hitems
    rw [eq_of_beq hslash, eq_of_beq hu]
    exact ⟨[92, 117, h₁, h₂, h₃, h₄] ++ text, by simp, .cons (.unicode hhex) hchars⟩
  | case6 b hquote hslash e bs hu ih =>
    simp only [Option.bind_eq_bind, Option.bind_eq_some_iff] at h
    obtain ⟨c, hescaped, ⟨items', after⟩, hitems, heq⟩ := h
    obtain ⟨rfl, rfl⟩ := Prod.mk.inj (Option.some.inj heq)
    obtain ⟨text, rfl, hchars⟩ := ih hitems
    rw [eq_of_beq hslash]
    exact ⟨[92, e] ++ text, by simp, .cons (.escape hescaped) hchars⟩
  | case8 b bs hquote hslash hge ih =>
    simp only [Option.bind_eq_bind, Option.bind_eq_some_iff] at h
    obtain ⟨⟨items', after⟩, hitems, heq⟩ := h
    obtain ⟨rfl, rfl⟩ := Prod.mk.inj (Option.some.inj heq)
    obtain ⟨text, rfl, hchars⟩ := ih hitems
    exact ⟨[b] ++ text, by simp, .cons (.char hge (by simpa using hquote) (by simpa using hslash))
      hchars⟩
  | _ => simp at h

end Lexical

section Numbers

def NoDigit (rest : Bytes) : Prop := ∀ b ∈ rest.head?, isDigit b = false

section Parts

attribute [local simp] digits integerPart fractionPart exponentPart

lemma digits_append {ds rest : Bytes} (hd : Digits ds) (hr : NoDigit rest) :
    digits (ds ++ rest) = some (ds, rest) := by
  have htake : (ds ++ rest).takeWhile isDigit = ds := by
    rw [List.takeWhile_append_of_pos hd.2]
    cases rest with
    | nil => simp
    | cons b rest => simp [hr b rfl]
  have hdrop : (ds ++ rest).dropWhile isDigit = rest := by
    rw [List.dropWhile_append_of_pos hd.2]
    cases rest with
    | nil => rfl
    | cons b rest => simp [hr b rfl]
  rw [digits, List.span_eq_takeWhile_dropWhile, htake, hdrop]
  simp [hd.1]

lemma digits_sound {bs ds rest : Bytes} (h : digits bs = some (ds, rest)) :
    bs = ds ++ rest ∧ Digits ds := by
  rw [digits, List.span_eq_takeWhile_dropWhile, Option.ite_none_left_eq_some] at h
  obtain ⟨hne, heq⟩ := h
  obtain ⟨rfl, rfl⟩ := Prod.mk.inj (Option.some.inj heq)
  refine ⟨List.takeWhile_append_dropWhile.symm, ?_, fun b hb => List.mem_takeWhile_imp hb⟩
  simpa using hne

lemma integerPart_append {i rest : Bytes} (hi : Integer i) (hr : NoDigit rest) :
    integerPart (i ++ rest) = some (i, rest) := by
  rcases hi with rfl | ⟨hd, hzero⟩
  · rfl
  · rw [← digits_append hd hr]
    cases i with
    | nil => exact absurd rfl hd.1
    | cons b i =>
      have hb : b ≠ 48 := by simpa using hzero
      rw [List.cons_append, integerPart]
      simp [hb]

lemma integerPart_sound {bs i rest : Bytes} (h : integerPart bs = some (i, rest)) :
    bs = i ++ rest ∧ Integer i := by
  unfold integerPart at h
  split at h
  · obtain ⟨rfl, rfl⟩ := Prod.mk.inj (Option.some.inj h)
    exact ⟨rfl, .inl rfl⟩
  · rename_i hzero
    obtain ⟨rfl, hd⟩ := digits_sound h
    refine ⟨rfl, .inr ⟨hd, fun hhead => ?_⟩⟩
    obtain ⟨b, i, rfl⟩ := List.exists_cons_of_ne_nil hd.1
    obtain rfl : b = 48 := by simpa using hhead
    exact hzero _ rfl

lemma fractionPart_append {f rest : Bytes} (hf : Fraction f) (hr : NoDigit rest)
    (hdot : 46 ∉ rest.head?) : fractionPart (f ++ rest) = some (f, rest) := by
  rcases hf with rfl | ⟨ds, hd, rfl⟩
  · cases rest with
    | nil => rfl
    | cons b rest =>
      have hb : b ≠ 46 := by simpa [eq_comm] using hdot
      rw [List.nil_append, fractionPart]
      simp [hb]
  · rw [List.cons_append, fractionPart, digits_append hd hr]
    rfl

lemma fractionPart_sound {bs f rest : Bytes} (h : fractionPart bs = some (f, rest)) :
    bs = f ++ rest ∧ Fraction f := by
  unfold fractionPart at h
  split at h
  · obtain ⟨⟨ds, after⟩, hdigits, heq⟩ := Option.map_eq_some_iff.mp h
    obtain ⟨rfl, rfl⟩ := Prod.mk.inj heq
    obtain ⟨rfl, hd⟩ := digits_sound hdigits
    exact ⟨rfl, .inr ⟨ds, hd, rfl⟩⟩
  · obtain ⟨rfl, rfl⟩ := Prod.mk.inj (Option.some.inj h)
    exact ⟨rfl, .inl rfl⟩

lemma exponentPart_append {e rest : Bytes} (he : Exponent e) (hr : NoDigit rest)
    (hexp : 101 ∉ rest.head? ∧ 69 ∉ rest.head?) : exponentPart (e ++ rest) = some (e, rest) := by
  rcases he with rfl | ⟨x, sign, ds, hx, hsign, hd, rfl⟩
  · cases rest with
    | nil => rfl
    | cons b rest =>
      have hb : b ≠ 101 ∧ b ≠ 69 := by simpa [eq_comm] using hexp
      simp [hb]
  · obtain ⟨d, ds', rfl⟩ := List.exists_cons_of_ne_nil hd.1
    have hdigit : d ≠ 43 ∧ d ≠ 45 := by
      have h := hd.2 d List.mem_cons_self
      constructor <;> (rintro rfl; simp [isDigit] at h)
    have happ := digits_append hd hr
    rcases hsign with rfl | rfl | rfl
    · simpa [hx, hdigit] using happ
    all_goals simpa [hx] using happ

lemma exponentPart_sound {bs e rest : Bytes} (h : exponentPart bs = some (e, rest)) :
    bs = e ++ rest ∧ Exponent e := by
  unfold exponentPart at h
  split at h
  · rename_i x tail
    split at h
    · rename_i hx
      have hx' : x = 101 ∨ x = 69 := by simpa using hx
      split at h
      · rename_i s after
        split at h
        · rename_i hs
          have hs' : s = 43 ∨ s = 45 := by simpa using hs
          obtain ⟨⟨ds, left⟩, hdigits, heq⟩ := Option.map_eq_some_iff.mp h
          obtain ⟨rfl, rfl⟩ := Prod.mk.inj heq
          obtain ⟨rfl, hd⟩ := digits_sound hdigits
          refine ⟨rfl, .inr ⟨x, [s], ds, hx', ?_, hd, rfl⟩⟩
          rcases hs' with rfl | rfl
          · exact .inr (.inl rfl)
          · exact .inr (.inr rfl)
        · obtain ⟨⟨ds, left⟩, hdigits, heq⟩ := Option.map_eq_some_iff.mp h
          obtain ⟨rfl, rfl⟩ := Prod.mk.inj heq
          obtain ⟨heq, hd⟩ := digits_sound hdigits
          exact ⟨by rw [heq, List.cons_append], .inr ⟨x, [], ds, hx', .inl rfl, hd, rfl⟩⟩
      · simp at h
    · obtain ⟨rfl, rfl⟩ := Prod.mk.inj (Option.some.inj h)
      exact ⟨rfl, .inl rfl⟩
  · obtain ⟨rfl, rfl⟩ := Prod.mk.inj (Option.some.inj h)
    exact ⟨rfl, .inl rfl⟩

end Parts

lemma Exponent.head {e rest : Bytes} (he : Exponent e) (hr : Follows rest) :
    NoDigit (e ++ rest) ∧ 46 ∉ (e ++ rest).head? := by
  rcases he with rfl | ⟨x, sign, ds, hx, -, -, rfl⟩
  · exact ⟨hr.not_digit, fun h => hr.ne h 46 (by decide) rfl⟩
  · rcases hx with rfl | rfl <;> exact ⟨by simp [NoDigit, isDigit], by simp⟩

lemma Fraction.head {f rest : Bytes} (hf : Fraction f) (hr : NoDigit rest) :
    NoDigit (f ++ rest) := by
  rcases hf with rfl | ⟨ds, -, rfl⟩
  · exact hr
  · simp [NoDigit, isDigit]

lemma Integer.head {i : Bytes} (hi : Integer i) : ∃ b i', i = b :: i' ∧ isDigit b = true := by
  rcases hi with rfl | ⟨hd, -⟩
  · exact ⟨48, [], rfl, rfl⟩
  · obtain ⟨b, i', rfl⟩ := List.exists_cons_of_ne_nil hd.1
    exact ⟨b, i', rfl, hd.2 b List.mem_cons_self⟩

/-- A number literal is read to its end. -/
lemma number_append {text rest : Bytes} (h : Number text) (hr : Follows rest) :
    number (text ++ rest) = some (text, rest) := by
  obtain ⟨sign, i, f, e, hsign, hi, hf, he, rfl⟩ := h
  obtain ⟨hnoDigit, hdot⟩ := he.head hr
  have hint := integerPart_append hi (hf.head hnoDigit)
  have hfrac := fractionPart_append hf hnoDigit hdot
  have hexp := exponentPart_append he hr.not_digit
    ⟨fun h => hr.ne h 101 (by decide) rfl, fun h => hr.ne h 69 (by decide) rfl⟩
  rcases hsign with rfl | rfl
  · obtain ⟨b, i', rfl, hb⟩ := hi.head
    have hminus : b ≠ 45 := by
      rintro rfl
      simp [isDigit] at hb
    simp only [List.nil_append, List.append_assoc, List.cons_append] at hint ⊢
    simp [number, hminus, hint, hfrac, hexp]
  · simp only [List.append_assoc, List.cons_append, List.nil_append]
    simp [number, hint, hfrac, hexp]

lemma number_sound {bs text rest : Bytes} (h : number bs = some (text, rest)) :
    bs = text ++ rest ∧ Number text := by
  have hparts : ∀ sign bs : Bytes, ((integerPart bs).bind fun i => (fractionPart i.2).bind fun f =>
      (exponentPart f.2).bind fun e => some (sign ++ i.1 ++ f.1 ++ e.1, e.2)) =
      some (text, rest) → (sign = [] ∨ sign = [45]) →
      sign ++ bs = text ++ rest ∧ Number text := by
    intro sign bs h hsign
    simp only [Option.bind_eq_some_iff] at h
    obtain ⟨⟨i, bs₁⟩, hint, ⟨f, bs₂⟩, hfrac, ⟨e, bs₃⟩, hexp, heq⟩ := h
    obtain ⟨rfl, rfl⟩ := Prod.mk.inj (Option.some.inj heq)
    obtain ⟨rfl, hi⟩ := integerPart_sound hint
    obtain ⟨rfl, hf⟩ := fractionPart_sound hfrac
    obtain ⟨rfl, he⟩ := exponentPart_sound hexp
    exact ⟨by simp, sign, i, f, e, hsign, hi, hf, he, rfl⟩
  unfold number at h
  split at h
  rename_i sign after hsplit
  split at hsplit
  · obtain ⟨rfl, rfl⟩ := Prod.mk.inj hsplit
    exact hparts [45] _ h (.inr rfl)
  · obtain ⟨rfl, rfl⟩ := Prod.mk.inj hsplit
    exact hparts [] bs h (.inl rfl)

lemma Number.head {text : Bytes} (h : Number text) :
    ∃ b rest, text = b :: rest ∧ (b = 45 ∨ isDigit b = true) := by
  obtain ⟨sign, i, f, e, rfl | rfl, hi, -, -, rfl⟩ := h
  · obtain ⟨b, i', rfl, hb⟩ := hi.head
    exact ⟨b, i' ++ f ++ e, rfl, .inr hb⟩
  · exact ⟨45, i ++ f ++ e, rfl, .inl rfl⟩

end Numbers

section Values
variable {depth fuel : ℕ}

lemma Text.head {v : Raw} {text : Bytes} (h : Text depth v text) :
    ∃ b rest, text = b :: rest ∧ isSpace b = false ∧ b ≠ 93 ∧ b ≠ 125 := by
  cases h with
  | num hn =>
    obtain ⟨b, rest, rfl, rfl | hb⟩ := hn.head
    · exact ⟨45, rest, rfl, by decide⟩
    · refine ⟨b, rest, rfl, ?_⟩
      simp only [isDigit, Bool.and_eq_true, decide_eq_true_eq, UInt8.le_iff_toNat_le] at hb
      simp only [isSpace, Bool.or_eq_false_iff, beq_eq_false_iff_ne, ne_eq, ← UInt8.toNat_inj]
      simp only [UInt8.reduceToNat] at hb ⊢
      omega
  | _ => exact ⟨_, _, rfl, by decide⟩

lemma Text.skipSpace {v : Raw} {text ws : Bytes} (h : Text depth v text) (hs : Space ws)
    (rest : Bytes) : skipSpace (ws ++ (text ++ rest)) = text ++ rest := by
  obtain ⟨b, text, rfl, hb, -⟩ := h.head
  rw [skipSpace_append hs, List.cons_append, skipSpace_cons hb]

lemma Elements.skipSpace {vs : List Raw} {text : Bytes} (h : Elements depth vs text)
    (rest : Bytes) : ∃ b after, Json.skipSpace (text ++ rest) = b :: after ∧ b ≠ 93 := by
  cases h with
  | one hl ht hr =>
    obtain ⟨b, t, rfl, hb, hne, -⟩ := ht.head
    rw [List.append_assoc, skipSpace_append hl, List.cons_append, List.cons_append,
      skipSpace_cons hb]
    exact ⟨b, _, rfl, hne⟩
  | more hl ht hr hs =>
    obtain ⟨b, t, rfl, hb, hne, -⟩ := ht.head
    rw [List.append_assoc, skipSpace_append hl, List.cons_append, List.cons_append,
      skipSpace_cons hb]
    exact ⟨b, _, rfl, hne⟩

lemma Members.skipSpace {ms : List (List StrItem × Raw)} {text : Bytes}
    (h : Members depth ms text) (rest : Bytes) :
    ∃ after, Json.skipSpace (text ++ rest) = 34 :: after := by
  cases h with
  | one hk _ _ _ _ _ =>
    rw [List.append_assoc, skipSpace_append hk, List.cons_append, skipSpace_cons (by decide)]
    exact ⟨_, rfl⟩
  | more hk _ _ _ _ _ _ =>
    rw [List.append_assoc, skipSpace_append hk, List.cons_append, skipSpace_cons (by decide)]
    exact ⟨_, rfl⟩

lemma follows_cons {b : UInt8} (h : b = 44 ∨ b = 93 ∨ b = 125) (rest : Bytes) :
    Follows (b :: rest) := by
  intro c hc
  obtain rfl : b = c := by simpa using hc
  exact .inr h

section Fuel

attribute [local simp] value elements members

lemma value_number {bs rest : Bytes} {b : UInt8} (h : skipSpace bs = b :: rest)
    (hb : b = 45 ∨ isDigit b = true) :
    value (fuel + 1) depth bs = (number (b :: rest)).map fun a => (.num a.1, a.2) := by
  have hne : b ≠ 123 ∧ b ≠ 91 ∧ b ≠ 34 ∧ b ≠ 116 ∧ b ≠ 102 ∧ b ≠ 110 := by
    rcases hb with rfl | hb
    · decide
    · simp only [isDigit, Bool.and_eq_true, decide_eq_true_eq, UInt8.le_iff_toNat_le,
        UInt8.reduceToNat] at hb
      simp only [ne_eq, ← UInt8.toNat_inj, UInt8.reduceToNat]
      omega
  simp [h, hne]

lemma value_emptyArr {bs rest after : Bytes} (h : skipSpace bs = 91 :: rest)
    (hclose : skipSpace rest = 93 :: after) :
    value (fuel + 1) (depth + 1) bs = some (.arr [], after) := by
  simp [h, hclose]

lemma value_arr {bs rest after : Bytes} {b : UInt8} (h : skipSpace bs = 91 :: rest)
    (hopen : skipSpace rest = b :: after) (hb : b ≠ 93) :
    value (fuel + 1) (depth + 1) bs = (elements fuel depth rest).map fun a => (.arr a.1, a.2) := by
  simp [h, hopen, hb]

lemma value_emptyObj {bs rest after : Bytes} (h : skipSpace bs = 123 :: rest)
    (hclose : skipSpace rest = 125 :: after) :
    value (fuel + 1) (depth + 1) bs = some (.obj [], after) := by
  simp [h, hclose]

lemma value_obj {bs rest after : Bytes} {b : UInt8} (h : skipSpace bs = 123 :: rest)
    (hopen : skipSpace rest = b :: after) (hb : b ≠ 125) :
    value (fuel + 1) (depth + 1) bs = (members fuel depth rest).map fun a => (.obj a.1, a.2) := by
  simp [h, hopen, hb]

end Fuel

/-- A text of the grammar, in a place where it may stand, is parsed to its tree. -/
def ValueComplete (fuel : ℕ) : Prop :=
  ∀ depth v text ws rest, Text depth v text → Space ws → Follows rest → 2 * text.length ≤ fuel →
    value fuel depth (ws ++ (text ++ rest)) = some (v, rest)

def ElementsComplete (fuel : ℕ) : Prop :=
  ∀ depth vs text rest, Elements depth vs text → 2 * text.length + 1 ≤ fuel →
    elements fuel depth (text ++ 93 :: rest) = some (vs, rest)

def MembersComplete (fuel : ℕ) : Prop :=
  ∀ depth ms text rest, Members depth ms text → 2 * text.length + 1 ≤ fuel →
    members fuel depth (text ++ 125 :: rest) = some (ms, rest)

lemma value_complete (ihe : ElementsComplete fuel) (ihm : MembersComplete fuel) :
    ValueComplete (fuel + 1) := by
  intro depth v text ws rest h hs hr hf
  have hskip := h.skipSpace hs rest
  cases h with
  | null => rw [value, hskip]; rfl
  | trueWord => rw [value, hskip]; rfl
  | falseWord => rw [value, hskip]; rfl
  | str hc =>
    rw [value, hskip]
    simp [stringItems_chars hc]
  | num hn =>
    have hnumber := number_append hn hr
    obtain ⟨b, text, rfl, hb⟩ := hn.head
    rw [List.cons_append] at hskip hnumber
    rw [List.cons_append, value_number hskip hb, hnumber]
    rfl
  | emptyArr hws =>
    simp only [List.cons_append, List.append_assoc, List.nil_append] at hskip ⊢
    exact value_emptyArr hskip (by rw [skipSpace_append hws]; exact skipSpace_cons rfl _)
  | emptyObj hws =>
    simp only [List.cons_append, List.append_assoc, List.nil_append] at hskip ⊢
    exact value_emptyObj hskip (by rw [skipSpace_append hws]; exact skipSpace_cons rfl _)
  | @arr depth es text he =>
    simp only [List.cons_append, List.append_assoc, List.nil_append] at hskip ⊢
    obtain ⟨b, after, hopen, hb⟩ := he.skipSpace (93 :: rest)
    simp only [List.length_cons, List.length_append, List.length_nil] at hf
    rw [value_arr hskip hopen hb, ihe depth es text rest he (by omega)]
    rfl
  | @obj depth ms text hm =>
    simp only [List.cons_append, List.append_assoc, List.nil_append] at hskip ⊢
    obtain ⟨after, hopen⟩ := hm.skipSpace (125 :: rest)
    simp only [List.length_cons, List.length_append, List.length_nil] at hf
    rw [value_obj hskip hopen (by decide), ihm depth ms text rest hm (by omega)]
    rfl

lemma elements_complete (ihv : ValueComplete fuel) (ihe : ElementsComplete fuel) :
    ElementsComplete (fuel + 1) := by
  intro depth vs text rest h hf
  cases h with
  | @one _ v l t r hl ht hr =>
    simp only [List.length_append] at hf
    have hv := ihv depth v t l (r ++ 93 :: rest) ht hl
      (follows_append hr (follows_cons (by simp) rest)) (by omega)
    rw [elements, List.append_assoc, List.append_assoc, hv]
    simp [skipSpace_append hr, skipSpace_cons (show isSpace 93 = false from rfl)]
  | @more _ v l t r vs text hl ht hr hs =>
    simp only [List.length_append, List.length_cons] at hf
    have hv := ihv depth v t l (r ++ 44 :: (text ++ 93 :: rest)) ht hl
      (follows_append hr (follows_cons (by simp) _)) (by omega)
    have hvs := ihe depth vs text rest hs (by omega)
    simp only [List.append_assoc, List.cons_append]
    rw [elements, hv]
    simp [skipSpace_append hr, skipSpace_cons (show isSpace 44 = false from rfl), hvs]

lemma members_complete (ihv : ValueComplete fuel) (ihm : MembersComplete fuel) :
    MembersComplete (fuel + 1) := by
  intro depth ms text rest h hf
  cases h with
  | @one _ name n m v k l t r hk hn hm hl ht hr =>
    simp only [List.length_append, List.length_cons] at hf
    have hv := ihv depth v t l (r ++ 125 :: rest) ht hl
      (follows_append hr (follows_cons (by simp) rest)) (by omega)
    simp only [List.append_assoc, List.cons_append]
    rw [members, skipSpace_append hk, skipSpace_cons rfl]
    simp [stringItems_chars hn, skipSpace_append hm,
      skipSpace_cons (show isSpace 58 = false from rfl), hv, skipSpace_append hr,
      skipSpace_cons (show isSpace 125 = false from rfl)]
  | @more _ name n m v k l t r ms text hk hn hm hl ht hr hs =>
    simp only [List.length_append, List.length_cons] at hf
    have hv := ihv depth v t l (r ++ 44 :: (text ++ 125 :: rest)) ht hl
      (follows_append hr (follows_cons (by simp) _)) (by omega)
    have hms := ihm depth ms text rest hs (by omega)
    simp only [List.append_assoc, List.cons_append]
    rw [members, skipSpace_append hk, skipSpace_cons rfl]
    simp [stringItems_chars hn, skipSpace_append hm,
      skipSpace_cons (show isSpace 58 = false from rfl), hv, skipSpace_append hr,
      skipSpace_cons (show isSpace 44 = false from rfl), hms]

/-- With fuel for every byte, each text of the grammar is parsed. -/
theorem parse_complete (fuel : ℕ) :
    ValueComplete fuel ∧ ElementsComplete fuel ∧ MembersComplete fuel := by
  induction fuel with
  | zero =>
    refine ⟨fun depth v text ws rest h _ _ hf => ?_, fun _ _ _ _ _ hf => ?_, fun _ _ _ _ _ hf => ?_⟩
    · obtain ⟨b, text, rfl, -⟩ := h.head
      simp at hf
    · simp at hf
    · simp at hf
  | succ fuel ih =>
    obtain ⟨ihv, ihe, ihm⟩ := ih
    exact ⟨value_complete ihe ihm, elements_complete ihv ihe, members_complete ihv ihm⟩

lemma keyword_sound {word bs rest : Bytes} (h : keyword word bs = some rest) :
    bs = word ++ rest := by
  rw [keyword, Option.ite_none_right_eq_some] at h
  obtain ⟨htake, hdrop⟩ := h
  calc bs = bs.take word.length ++ bs.drop word.length := (List.take_append_drop _ _).symm
    _ = word ++ rest := by rw [htake, Option.some.inj hdrop]

/-- What is parsed is a text of the grammar. -/
def ValueSound (fuel : ℕ) : Prop :=
  ∀ depth bs v rest, value fuel depth bs = some (v, rest) →
    ∃ ws text, Space ws ∧ Text depth v text ∧ bs = ws ++ (text ++ rest)

def ElementsSound (fuel : ℕ) : Prop :=
  ∀ depth bs vs rest, elements fuel depth bs = some (vs, rest) →
    ∃ text, Elements depth vs text ∧ bs = text ++ 93 :: rest

def MembersSound (fuel : ℕ) : Prop :=
  ∀ depth bs ms rest, members fuel depth bs = some (ms, rest) →
    ∃ text, Members depth ms text ∧ bs = text ++ 125 :: rest

lemma value_sound (ihe : ElementsSound fuel) (ihm : MembersSound fuel) :
    ValueSound (fuel + 1) := by
  intro depth bs v rest h
  obtain ⟨ws, hs, hbs⟩ := space_skip bs
  suffices htext : ∃ text, Text depth v text ∧ skipSpace bs = text ++ rest by
    obtain ⟨text, ht, heq⟩ := htext
    exact ⟨ws, text, hs, ht, heq ▸ hbs⟩
  clear hbs
  rw [value] at h
  split at h
  · simp at h
  rename_i b tail hskip
  rw [hskip]
  split at h
  · -- an object
    rename_i hb
    obtain rfl := eq_of_beq hb
    cases depth with
    | zero => simp at h
    | succ depth =>
      obtain ⟨ws', hs', htail⟩ := space_skip tail
      dsimp only at h
      split at h
      · rename_i after hclose
        obtain ⟨rfl, rfl⟩ := Prod.mk.inj (Option.some.inj h)
        exact ⟨_, .emptyObj hs', by rw [htail, hclose]; simp⟩
      · obtain ⟨⟨ms, after⟩, hms, heq⟩ := Option.map_eq_some_iff.mp h
        obtain ⟨rfl, rfl⟩ := Prod.mk.inj heq
        obtain ⟨text, ht, rfl⟩ := ihm depth tail ms after hms
        exact ⟨_, .obj ht, by simp⟩
  split at h
  · -- an array
    rename_i hb
    obtain rfl := eq_of_beq hb
    cases depth with
    | zero => simp at h
    | succ depth =>
      obtain ⟨ws', hs', htail⟩ := space_skip tail
      dsimp only at h
      split at h
      · rename_i after hclose
        obtain ⟨rfl, rfl⟩ := Prod.mk.inj (Option.some.inj h)
        exact ⟨_, .emptyArr hs', by rw [htail, hclose]; simp⟩
      · obtain ⟨⟨vs, after⟩, hvs, heq⟩ := Option.map_eq_some_iff.mp h
        obtain ⟨rfl, rfl⟩ := Prod.mk.inj heq
        obtain ⟨text, ht, rfl⟩ := ihe depth tail vs after hvs
        exact ⟨_, .arr ht, by simp⟩
  split at h
  · -- a string
    rename_i hb
    obtain rfl := eq_of_beq hb
    obtain ⟨⟨items, after⟩, hitems, heq⟩ := Option.map_eq_some_iff.mp h
    obtain ⟨rfl, rfl⟩ := Prod.mk.inj heq
    obtain ⟨text, rfl, hchars⟩ := chars_stringItems hitems
    exact ⟨_, .str hchars, by simp⟩
  split at h
  · rename_i hb
    obtain ⟨after, hword, heq⟩ := Option.map_eq_some_iff.mp h
    obtain ⟨rfl, rfl⟩ := Prod.mk.inj heq
    exact ⟨_, .trueWord, by rw [eq_of_beq hb, keyword_sound hword]; rfl⟩
  split at h
  · rename_i hb
    obtain ⟨after, hword, heq⟩ := Option.map_eq_some_iff.mp h
    obtain ⟨rfl, rfl⟩ := Prod.mk.inj heq
    exact ⟨_, .falseWord, by rw [eq_of_beq hb, keyword_sound hword]; rfl⟩
  split at h
  · rename_i hb
    obtain ⟨after, hword, heq⟩ := Option.map_eq_some_iff.mp h
    obtain ⟨rfl, rfl⟩ := Prod.mk.inj heq
    exact ⟨_, .null, by rw [eq_of_beq hb, keyword_sound hword]; rfl⟩
  · obtain ⟨⟨text, after⟩, hnumber, heq⟩ := Option.map_eq_some_iff.mp h
    obtain ⟨rfl, rfl⟩ := Prod.mk.inj heq
    obtain ⟨htext, hn⟩ := number_sound hnumber
    exact ⟨text, .num hn, htext⟩

lemma elements_sound (ihv : ValueSound fuel) (ihe : ElementsSound fuel) :
    ElementsSound (fuel + 1) := by
  intro depth bs vs rest h
  simp only [elements, Option.bind_eq_bind, Option.bind_eq_some_iff] at h
  obtain ⟨⟨v, after⟩, hv, h⟩ := h
  obtain ⟨l, t, hl, ht, rfl⟩ := ihv depth bs v after hv
  obtain ⟨r, hr, hafter⟩ := space_skip after
  dsimp only at h
  split at h
  · rename_i tail hcomma
    obtain ⟨⟨vs', after'⟩, hvs, heq⟩ := Option.bind_eq_some_iff.mp h
    obtain ⟨rfl, rfl⟩ := Prod.mk.inj (Option.some.inj heq)
    obtain ⟨text, htext, rfl⟩ := ihe depth tail vs' after' hvs
    refine ⟨_, .more hl ht hr htext, ?_⟩
    rw [hafter, hcomma]
    simp
  · rename_i tail hclose
    obtain ⟨rfl, rfl⟩ := Prod.mk.inj (Option.some.inj h)
    refine ⟨_, .one hl ht hr, ?_⟩
    rw [hafter, hclose]
    simp
  · simp at h

lemma members_sound (ihv : ValueSound fuel) (ihm : MembersSound fuel) :
    MembersSound (fuel + 1) := by
  intro depth bs ms rest h
  obtain ⟨k, hk, hbs⟩ := space_skip bs
  simp only [members] at h
  split at h
  swap
  · simp at h
  rename_i tail hquote
  obtain ⟨⟨name, after⟩, hname, hcolon⟩ := Option.bind_eq_some_iff.mp h
  obtain ⟨n, rfl, hn⟩ := chars_stringItems hname
  obtain ⟨m, hm, hafter⟩ := space_skip after
  split at hcolon
  swap
  · simp at hcolon
  rename_i tail hskip
  obtain ⟨⟨v, after'⟩, hv, hnext⟩ := Option.bind_eq_some_iff.mp hcolon
  obtain ⟨l, t, hl, ht, rfl⟩ := ihv depth tail v after' hv
  obtain ⟨r, hr, hafter'⟩ := space_skip after'
  split at hnext
  · rename_i tail hcomma
    obtain ⟨⟨ms', after''⟩, hms, heq⟩ := Option.bind_eq_some_iff.mp hnext
    obtain ⟨rfl, rfl⟩ := Prod.mk.inj (Option.some.inj heq)
    obtain ⟨text, htext, rfl⟩ := ihm depth tail ms' after'' hms
    refine ⟨_, .more hk hn hm hl ht hr htext, ?_⟩
    rw [hbs, hquote, hafter, hskip, hafter', hcomma]
    simp
  · rename_i tail hclose
    obtain ⟨rfl, rfl⟩ := Prod.mk.inj (Option.some.inj hnext)
    refine ⟨_, .one hk hn hm hl ht hr, ?_⟩
    rw [hbs, hquote, hafter, hskip, hafter', hclose]
    simp
  · simp at hnext

theorem parse_sound (fuel : ℕ) : ValueSound fuel ∧ ElementsSound fuel ∧ MembersSound fuel := by
  induction fuel with
  | zero =>
    exact ⟨by simp [ValueSound, value], by simp [ElementsSound, elements],
      by simp [MembersSound, members]⟩
  | succ fuel ih =>
    obtain ⟨ihv, ihe, ihm⟩ := ih
    exact ⟨value_sound ihe ihm, elements_sound ihv ihe, members_sound ihv ihm⟩

end Values

/-- The parser accepts exactly the texts of one value. -/
theorem parse_eq_some_iff (bs : Bytes) (v : Raw) : parse bs = some v ↔ Document v bs := by
  constructor
  · intro h
    rw [parse] at h
    split at h
    · rename_i v' rest hv
      obtain ⟨hspace, heq⟩ := Option.ite_none_right_eq_some.mp h
      obtain rfl := Option.some.inj heq
      obtain ⟨l, text, hl, ht, hbs⟩ := (parse_sound _).1 _ _ _ _ hv
      exact ⟨l, text, rest, hl, ht, skipSpace_eq_nil.mp hspace, hbs⟩
    · simp at h
  · rintro ⟨l, text, r, hl, ht, hr, rfl⟩
    have hfollows : Follows r := by
      have h := follows_append hr (show Follows [] by simp [Follows])
      rwa [List.append_nil] at h
    have hfuel : 2 * text.length ≤ 2 * (l ++ (text ++ r)).length + 2 := by
      simp only [List.length_append]
      omega
    rw [parse, (parse_complete _).1 _ v text l r ht hl hfollows hfuel]
    exact if_pos (skipSpace_eq_nil.mpr hr)

end KiteRail.Json
