import KiteRail.JsonGrammar
import KiteRail.JsonTree
import KiteRail.Utf8Append

namespace KiteRail.Json

def Raw.strings (v : Raw) : List (List StrItem) :=
  v.nodes.flatMap fun
    | .str items => [items]
    | .obj ms => ms.map Prod.fst
    | _ => []

lemma Raw.strings_arr {es : List Raw} {items : List StrItem} :
    items ∈ (Raw.arr es).strings ↔ ∃ e ∈ es, items ∈ e.strings := by
  simp only [Raw.strings, Raw.nodes, nodesElements_eq, List.flatMap_cons, List.nil_append,
    List.flatMap_assoc, List.mem_flatMap]

lemma Raw.strings_obj {ms : List (List StrItem × Raw)} {items : List StrItem} :
    items ∈ (Raw.obj ms).strings ↔ ∃ m ∈ ms, items = m.1 ∨ items ∈ m.2.strings := by
  simp only [Raw.strings, Raw.nodes, nodesMembers_eq, List.flatMap_cons, List.mem_append,
    List.flatMap_assoc, List.mem_flatMap, List.mem_map]
  constructor
  · rintro (⟨m, hm, rfl⟩ | ⟨m, hm, h⟩)
    · exact ⟨m, hm, .inl rfl⟩
    · exact ⟨m, hm, .inr h⟩
  · rintro ⟨m, hm, rfl | h⟩
    · exact .inl ⟨m, hm, rfl⟩
    · exact .inr ⟨m, hm, h⟩

section Valid
open Utf8

def AsciiHead (bs : Bytes) : Prop := ∀ b ∈ bs.head?, b.toNat < 0x80

lemma asciiHead_cons {b : UInt8} (h : b.toNat < 0x80) (bs : Bytes) : AsciiHead (b :: bs) := by
  simpa [AsciiHead] using h

lemma ascii_of_isSpace {b : UInt8} (h : isSpace b = true) : b.toNat < 0x80 := by
  simp only [isSpace, Bool.or_eq_true, beq_iff_eq] at h
  rcases h with ((rfl | rfl) | rfl) | rfl <;> decide

lemma asciiHead_space {r bs : Bytes} (hr : Space r) (h : AsciiHead bs) : AsciiHead (r ++ bs) := by
  cases r with
  | nil => exact h
  | cons b r => exact asciiHead_cons (ascii_of_isSpace (hr b List.mem_cons_self)) _

lemma valid_of_ascii_append {t bs : Bytes} (ht : ∀ b ∈ t, b.toNat < 0x80)
    (h : valid (t ++ bs) = true) : valid bs = true := by
  induction t with
  | nil => exact h
  | cons b t ih =>
    rw [List.forall_mem_cons] at ht
    exact ih ht.2 (valid_cons_ascii ht.1 h)

lemma valid_of_space {l bs : Bytes} (hl : Space l) (h : valid (l ++ bs) = true) :
    valid bs = true :=
  valid_of_ascii_append (fun b hb => ascii_of_isSpace (hl b hb)) h

lemma valid_value {l t r : Bytes} (hl : Space l) (hr : Space r)
    (h : valid (l ++ (t ++ r)) = true) : valid t = true := by
  have hend := asciiHead_space hr (show AsciiHead [] by simp [AsciiHead])
  rw [List.append_nil] at hend
  exact (valid_split hend (valid_of_space hl h)).1

lemma valid_value_comma {l t r text : Bytes} (hl : Space l) (hr : Space r)
    (h : valid (l ++ (t ++ (r ++ 44 :: text))) = true) : valid t = true ∧ valid text = true := by
  have hcomma : AsciiHead (r ++ 44 :: text) := asciiHead_space hr (asciiHead_cons (by decide) _)
  obtain ⟨ht, htail⟩ := valid_split hcomma (valid_of_space hl h)
  exact ⟨ht, valid_cons_ascii (by decide) (valid_of_space hr htail)⟩

lemma valid_name {k n m text : Bytes} (hk : Space k) (hm : Space m)
    (h : valid (k ++ 34 :: (n ++ 34 :: (m ++ 58 :: text))) = true) :
    valid n = true ∧ valid text = true := by
  have hquote : AsciiHead (34 :: (m ++ 58 :: text)) := asciiHead_cons (by decide) _
  obtain ⟨hn, hafter⟩ := valid_split hquote (valid_cons_ascii (by decide) (valid_of_space hk h))
  have hcolon := valid_of_space hm (valid_cons_ascii (by decide) hafter)
  exact ⟨hn, valid_cons_ascii (by decide) hcolon⟩

lemma valid_inside {a b : UInt8} {text : Bytes} (ha : a.toNat < 0x80) (hb : b.toNat < 0x80)
    (h : valid (a :: (text ++ [b])) = true) : valid text = true :=
  (valid_split (asciiHead_cons hb []) (valid_cons_ascii ha h)).1

variable {depth : ℕ}

lemma Elements.valid {es : List Raw} {text : Bytes} (h : Elements depth es text)
    (hv : Utf8.valid text = true) : ∀ e ∈ es, ∃ t, Text depth e t ∧ Utf8.valid t = true := by
  induction es generalizing text with
  | nil => cases h
  | cons e es ih =>
    rw [List.forall_mem_cons]
    cases h with
    | one hl ht hr => exact ⟨⟨_, ht, valid_value hl hr hv⟩, by simp⟩
    | more hl ht hr hs =>
      obtain ⟨ht', hs'⟩ := valid_value_comma hl hr hv
      exact ⟨⟨_, ht, ht'⟩, ih hs hs'⟩

lemma Members.valid {ms : List (List StrItem × Raw)} {text : Bytes} (h : Members depth ms text)
    (hv : Utf8.valid text = true) : ∀ m ∈ ms, (∃ t, Text depth m.2 t ∧ Utf8.valid t = true) ∧
      ∃ n, Chars m.1 n ∧ Utf8.valid n = true := by
  induction ms generalizing text with
  | nil => cases h
  | cons m ms ih =>
    rw [List.forall_mem_cons]
    cases h with
    | one hk hn hm hl ht hr =>
      obtain ⟨hn', hvalue⟩ := valid_name hk hm hv
      exact ⟨⟨⟨_, ht, valid_value hl hr hvalue⟩, _, hn, hn'⟩, by simp⟩
    | more hk hn hm hl ht hr hs =>
      obtain ⟨hn', hvalue⟩ := valid_name hk hm hv
      obtain ⟨ht', hs'⟩ := valid_value_comma hl hr hvalue
      exact ⟨⟨⟨_, ht, ht'⟩, _, hn, hn'⟩, ih hs hs'⟩

/-- The literals of a valid text are valid. -/
theorem Text.strings_valid {v : Raw} {t : Bytes} (h : Text depth v t) (hv : Utf8.valid t = true) :
    ∀ items ∈ v.strings, ∃ text, Chars items text ∧ Utf8.valid text = true := by
  induction v using Raw.induct generalizing depth t with
  | str items =>
    cases h with
    | str hc =>
      have heq : (Raw.str items).strings = [items] := rfl
      rw [heq, List.forall_mem_singleton]
      exact ⟨_, hc, valid_inside (by decide) (by decide) hv⟩
  | arr es ih =>
    intro items hitems
    obtain ⟨e, he, hmem⟩ := Raw.strings_arr.mp hitems
    cases h with
    | emptyArr _ => simp at he
    | arr hes =>
      obtain ⟨t, ht, hvt⟩ := hes.valid (valid_inside (by decide) (by decide) hv) e he
      exact ih e he ht hvt items hmem
  | obj ms ih =>
    intro items hitems
    obtain ⟨m, hm, hmem⟩ := Raw.strings_obj.mp hitems
    cases h with
    | emptyObj _ => simp at hm
    | obj hms =>
      obtain ⟨⟨t, ht, hvt⟩, hname⟩ := hms.valid (valid_inside (by decide) (by decide) hv) m hm
      rcases hmem with rfl | hmem
      · exact hname
      · exact ih m hm ht hvt items hmem
  | _ => simp [Raw.strings, Raw.nodes]

lemma hexValue_ascii {b : UInt8} {n : ℕ} (h : hexValue b = some n) : b.toNat < 0x80 := by
  simp only [hexValue, Bool.and_eq_true, decide_eq_true_eq, UInt8.le_iff_toNat_le,
    UInt8.reduceToNat] at h
  split at h
  · omega
  split at h
  · omega
  split at h
  · omega
  · simp at h

lemma escaped_ascii {e c : UInt8} (h : escaped e = some c) : e.toNat < 0x80 ∧ c.toNat < 0x80 := by
  unfold escaped at h
  split at h
  · rename_i he
    obtain rfl := Option.some.inj h
    simp only [Bool.or_eq_true, beq_iff_eq] at he
    rcases he with (rfl | rfl) | rfl <;> decide
  iterate 5
    split at h
    · rename_i he
      obtain rfl := Option.some.inj h
      obtain rfl := eq_of_beq he
      decide
  · simp at h

lemma ItemText.ascii {item : StrItem} {t : Bytes} (h : ItemText item t) :
    (∃ b, item = .char b ∧ t = [b]) ∨ t ≠ [] ∧ ∀ b ∈ t, b.toNat < 0x80 := by
  cases h with
  | @char b => exact .inl ⟨b, rfl, rfl⟩
  | escape h =>
    refine .inr ⟨by simp, ?_⟩
    simp [escaped_ascii h]
  | unicode h =>
    simp only [hex4, Option.bind_eq_bind, Option.bind_eq_some_iff] at h
    obtain ⟨a, ha, b, hb, c, hc, d, hd, -⟩ := h
    refine .inr ⟨by simp, ?_⟩
    simp [hexValue_ascii ha, hexValue_ascii hb, hexValue_ascii hc, hexValue_ascii hd]

lemma valid_around {x t y : Bytes} (hne : t ≠ []) (ht : ∀ b ∈ t, b.toNat < 0x80)
    (h : valid (x ++ (t ++ y)) = true) : valid x = true ∧ valid y = true := by
  have hhead : AsciiHead (t ++ y) := by
    obtain ⟨b, t, rfl⟩ := List.exists_cons_of_ne_nil hne
    exact asciiHead_cons (ht b List.mem_cons_self) _
  obtain ⟨hx, hrest⟩ := valid_split hhead h
  exact ⟨hx, valid_of_ascii_append ht hrest⟩

/-- What follows an escape does not depend on what stands before it. -/
lemma Chars.after {item : StrItem} {items : List StrItem} {text x : Bytes}
    (h : Chars (item :: items) text) (hitem : ∀ b, item ≠ .char b)
    (hv : valid (x ++ text) = true) :
    valid x = true ∧ ∃ text', Chars items text' ∧ valid text' = true := by
  cases h with
  | cons ht hs =>
    rcases ht.ascii with ⟨b, rfl, -⟩ | ⟨hne, hascii⟩
    · exact absurd rfl (hitem b)
    · obtain ⟨hx, hy⟩ := valid_around hne hascii hv
      exact ⟨hx, _, hs, hy⟩

/-- A string whose literal is valid is valid; `x` is what stands before the literal, which
may be part of a sequence. -/
lemma valid_unquote {items : List StrItem} {text x : Bytes} (h : Chars items text)
    (hv : valid (x ++ text) = true) : valid (x ++ unquote items) = true := by
  fun_induction unquote items generalizing text x with
  | case1 =>
    cases h with
    | nil => exact hv
  | case2 b rest ih =>
    cases h with
    | cons ht hs =>
      cases ht with
      | char =>
        rw [← List.append_assoc] at hv
        have hrest := ih hs hv
        rwa [List.append_assoc] at hrest
  | case3 b rest ih =>
    obtain ⟨hx, text', hs, hv'⟩ := h.after (by simp) hv
    have hb : b.toNat < 0x80 := by
      cases h with
      | cons ht _ =>
        cases ht with
        | escape he => exact (escaped_ascii he).2
    have hascii : valid [b] = true := valid_of_ascii (List.forall_mem_singleton.mpr hb)
    exact valid_append hx (valid_append hascii (ih (x := []) hs hv'))
  | case4 u v rest hpair ih =>
    obtain ⟨hx, text₁, hs₁, hv₁⟩ := h.after (by simp) hv
    obtain ⟨-, text₂, hs₂, hv₂⟩ := hs₁.after (x := []) (by simp) hv₁
    exact valid_append hx (valid_append (valid_encodeRune _) (ih (x := []) hs₂ hv₂))
  | case5 u v rest hpair ih =>
    obtain ⟨hx, text', hs, hv'⟩ := h.after (by simp) hv
    exact valid_append hx (valid_append (valid_encodeRune _) (ih (x := []) hs hv'))
  | case6 u rest hnext ih =>
    obtain ⟨hx, text', hs, hv'⟩ := h.after (by simp) hv
    exact valid_append hx (valid_append (valid_encodeRune _) (ih (x := []) hs hv'))

end Valid

end KiteRail.Json
