import KiteRail.JsonUtf16

namespace KiteRail.Json
open Utf8

def AsciiText (bs : Bytes) : Prop := ∀ b ∈ bs, b.toNat < 0x80

lemma asciiText_append {x y : Bytes} : AsciiText (x ++ y) ↔ AsciiText x ∧ AsciiText y :=
  List.forall_mem_append

lemma asciiText_cons {b : UInt8} {x : Bytes} :
    AsciiText (b :: x) ↔ b.toNat < 0x80 ∧ AsciiText x :=
  List.forall_mem_cons

lemma asciiText_nil : AsciiText [] := by simp [AsciiText]

section Escapes
variable {us : List ℕ}

lemma hexValue_hexDigit {n : ℕ} (h : n < 16) : hexValue (Bytes.hexDigit n) = some n := by
  have hall : ∀ i : Fin 16, hexValue (Bytes.hexDigit i) = some i.1 := by decide
  exact hall ⟨n, h⟩

lemma itemText_unicode {u : ℕ} (h : u < 0x10000) : ∃ t, ItemText (.unicode u) t := by
  have hhex : hex4 (Bytes.hexDigit (u / 4096)) (Bytes.hexDigit (u / 256 % 16))
      (Bytes.hexDigit (u / 16 % 16)) (Bytes.hexDigit (u % 16)) = some u := by
    rw [hex4, hexValue_hexDigit (by omega), hexValue_hexDigit (by omega),
      hexValue_hexDigit (by omega), hexValue_hexDigit (by omega)]
    exact congrArg some (by omega)
  exact ⟨_, .unicode hhex⟩

/-- Any units can be written by escapes alone. -/
lemma chars_escapes (h : ∀ u ∈ us, u < 0x10000) :
    ∃ text, Chars (us.map .unicode) text ∧ AsciiText text := by
  induction us with
  | nil => exact ⟨[], .nil, asciiText_nil⟩
  | cons u us ih =>
    rw [List.forall_mem_cons] at h
    obtain ⟨t, ht⟩ := itemText_unicode h.1
    obtain ⟨text, hc, hascii⟩ := ih h.2
    rcases ht.ascii with ⟨b, hb, -⟩ | ⟨-, hb⟩
    · simp at hb
    · exact ⟨t ++ text, .cons ht hc, asciiText_append.mpr ⟨hb, hascii⟩⟩

lemma units_escapes : units (us.map .unicode) = us := by
  induction us with
  | nil => rfl
  | cons u us ih =>
    have hcons : units (.unicode u :: us.map .unicode) = u :: units (us.map .unicode) := rfl
    rw [List.map_cons, hcons, ih]

end Escapes

section Texts
variable {depth : ℕ}

lemma elements_of_texts {es : List Raw} (hne : es ≠ [])
    (h : ∀ e ∈ es, ∃ t, Text depth e t ∧ AsciiText t) :
    ∃ text, Elements depth es text ∧ AsciiText text := by
  have hnil : Space [] := by simp [Space]
  induction es with
  | nil => exact absurd rfl hne
  | cons e es ih =>
    rw [List.forall_mem_cons] at h
    obtain ⟨⟨t, ht, hascii⟩, hrest⟩ := h
    by_cases hes : es = []
    · subst hes
      exact ⟨_, .one hnil ht hnil, by simpa using hascii⟩
    · obtain ⟨text, hs, hascii'⟩ := ih hes hrest
      refine ⟨_, .more hnil ht hnil hs, ?_⟩
      rw [List.nil_append, List.nil_append, asciiText_append, asciiText_cons]
      exact ⟨hascii, by decide, hascii'⟩

lemma members_of_texts {ms : List (List StrItem × Raw)} (hne : ms ≠ [])
    (h : ∀ m ∈ ms, (∃ n, Chars m.1 n ∧ AsciiText n) ∧ ∃ t, Text depth m.2 t ∧ AsciiText t) :
    ∃ text, Members depth ms text ∧ AsciiText text := by
  have hnil : Space [] := by simp [Space]
  induction ms with
  | nil => exact absurd rfl hne
  | cons m ms ih =>
    rw [List.forall_mem_cons] at h
    obtain ⟨⟨⟨n, hn, hname⟩, t, ht, hvalue⟩, hrest⟩ := h
    by_cases hms : ms = []
    · subst hms
      refine ⟨_, .one hnil hn hnil hnil ht hnil, ?_⟩
      simp only [List.nil_append, List.append_nil, asciiText_cons, asciiText_append]
      exact ⟨by decide, hname, by decide, by decide, hvalue⟩
    · obtain ⟨text, hs, hascii⟩ := ih hms hrest
      refine ⟨_, .more hnil hn hnil hnil ht hnil hs, ?_⟩
      simp only [List.nil_append, asciiText_cons, asciiText_append]
      exact ⟨by decide, hname, by decide, by decide, hvalue, by decide, hascii⟩

lemma isDigit_ascii {b : UInt8} (h : isDigit b = true) : b.toNat < 0x80 := by
  simp only [isDigit, Bool.and_eq_true, decide_eq_true_eq, UInt8.le_iff_toNat_le,
    UInt8.reduceToNat] at h
  omega

lemma Digits.ascii {ds : Bytes} (h : Digits ds) : AsciiText ds := fun b hb =>
  isDigit_ascii (h.2 b hb)

lemma Number.ascii {text : Bytes} (h : Number text) : AsciiText text := by
  obtain ⟨sign, i, f, e, hsign, hi, hf, he, rfl⟩ := h
  simp only [asciiText_append]
  refine ⟨⟨⟨?_, ?_⟩, ?_⟩, ?_⟩
  · rcases hsign with rfl | rfl <;> simp [AsciiText]
  · rcases hi with rfl | hi
    · simp [AsciiText]
    · exact hi.1.ascii
  · rcases hf with rfl | ⟨ds, hds, rfl⟩
    · exact asciiText_nil
    · exact asciiText_cons.mpr ⟨by decide, hds.ascii⟩
  · rcases he with rfl | ⟨c, sign, ds, hc, hsign, hds, rfl⟩
    · exact asciiText_nil
    · rw [asciiText_cons, asciiText_append]
      refine ⟨?_, ?_, hds.ascii⟩
      · rcases hc with rfl | rfl <;> decide
      · rcases hsign with rfl | rfl | rfl <;> simp [AsciiText]

variable {g : List StrItem → List StrItem}

/-- The tree with other strings is written at the same depth. -/
theorem Text.respell {v : Raw} {t : Bytes} (h : Text depth v t) (hv : Utf8.valid t = true)
    (hg : ∀ items, Literal items → ∃ text, Chars (g items) text ∧ AsciiText text) :
    ∃ t', Text depth (v.rewrite g) t' ∧ AsciiText t' := by
  have hnil : Space [] := by simp [Space]
  induction v using Raw.induct generalizing depth t with
  | null => exact ⟨_, .null, by simp [AsciiText]⟩
  | bool b =>
    cases b with
    | true => exact ⟨_, .trueWord, by simp [AsciiText]⟩
    | false => exact ⟨_, .falseWord, by simp [AsciiText]⟩
  | num text =>
    cases h with
    | num hn => exact ⟨_, .num hn, hn.ascii⟩
  | str items =>
    cases h with
    | str hc =>
      obtain ⟨text, hc', hascii⟩ := hg items ⟨_, hc, valid_inside (by decide) (by decide) hv⟩
      refine ⟨_, .str hc', ?_⟩
      rw [asciiText_cons, asciiText_append]
      exact ⟨by decide, hascii, by simp [AsciiText]⟩
  | arr es ih =>
    rw [Raw.rewrite, rewriteElements_eq]
    cases h with
    | emptyArr _ => exact ⟨_, .emptyArr hnil, by simp [AsciiText]⟩
    | @arr depth es text hes =>
      have hne : es ≠ [] := by rintro rfl; cases hes
      have htexts : ∀ e ∈ es.map (Raw.rewrite g), ∃ t, Text depth e t ∧ AsciiText t := by
        intro e' he'
        obtain ⟨e, he, rfl⟩ := List.mem_map.mp he'
        obtain ⟨t, ht, hvt⟩ := hes.valid (valid_inside (by decide) (by decide) hv) e he
        exact ih e he ht hvt
      obtain ⟨text, hs, hascii⟩ := elements_of_texts (by simpa using hne) htexts
      refine ⟨_, .arr hs, ?_⟩
      rw [asciiText_cons, asciiText_append]
      exact ⟨by decide, hascii, by simp [AsciiText]⟩
  | obj ms ih =>
    rw [Raw.rewrite, rewriteMembers_eq]
    cases h with
    | emptyObj _ => exact ⟨_, .emptyObj hnil, by simp [AsciiText]⟩
    | @obj depth ms text hms =>
      have hne : ms ≠ [] := by rintro rfl; cases hms
      have htexts : ∀ m ∈ ms.map fun m => (g m.1, m.2.rewrite g),
          (∃ n, Chars m.1 n ∧ AsciiText n) ∧ ∃ t, Text depth m.2 t ∧ AsciiText t := by
        intro m' hm'
        obtain ⟨m, hm, rfl⟩ := List.mem_map.mp hm'
        obtain ⟨⟨t, ht, hvt⟩, hname⟩ := hms.valid (valid_inside (by decide) (by decide) hv) m hm
        exact ⟨hg m.1 hname, ih m hm ht hvt⟩
      obtain ⟨text, hs, hascii⟩ := members_of_texts (by simpa using hne) htexts
      refine ⟨_, .obj hs, ?_⟩
      rw [asciiText_cons, asciiText_append]
      exact ⟨by decide, hascii, by simp [AsciiText]⟩

lemma Document.respell {v : Raw} {bs : Bytes} (h : Document v bs) (hv : Utf8.valid bs = true)
    (hg : ∀ items, Literal items → ∃ text, Chars (g items) text ∧ AsciiText text) :
    ∃ bs', Document (v.rewrite g) bs' ∧ Utf8.valid bs' = true := by
  obtain ⟨l, text, r, hl, ht, hr, rfl⟩ := h
  obtain ⟨t', ht', hascii⟩ := ht.respell (valid_value hl hr hv) hg
  have hnil : Space [] := by simp [Space]
  refine ⟨t', ⟨[], t', [], hnil, ht', hnil, by simp⟩, valid_of_ascii fun b hb => ?_⟩
  exact UInt8.lt_iff_toNat_lt.mpr (hascii b hb)

end Texts

section Strings
variable {f f' : List StrItem → Bytes} {v w : Raw}

lemma Raw.strings_rewrite {g : List StrItem → List StrItem} (v : Raw) :
    (v.rewrite g).strings = v.strings.map g := by
  rw [Raw.strings, nodes_rewrite, List.flatMap_map, Raw.strings, List.map_flatMap]
  refine List.flatMap_congr fun n _ => ?_
  cases n with
  | obj ms => simp [Raw.rewrite]
  | _ => rfl

lemma read_congr (h : ∀ items ∈ v.strings, f items = f' items) : v.read f = v.read f' := by
  induction v using Raw.induct with
  | str items =>
    rw [Raw.read, Raw.read, h items (by simp [Raw.strings, Raw.nodes])]
  | arr es ih =>
    rw [Raw.read, Raw.read, readElements_eq, readElements_eq]
    refine congrArg Json.arr (List.map_congr_left fun e he => ih e he fun items hin => ?_)
    exact h items (Raw.strings_arr.mpr ⟨e, he, hin⟩)
  | obj ms ih =>
    rw [Raw.read, Raw.read, readMembers_eq, readMembers_eq]
    refine congrArg Json.obj (List.map_congr_left fun m hm => Prod.ext ?_ (ih m hm ?_))
    · exact h m.1 (Raw.strings_obj.mpr ⟨m, hm, .inl rfl⟩)
    · exact fun items hin => h items (Raw.strings_obj.mpr ⟨m, hm, .inr hin⟩)
  | _ => rfl

lemma same_arr {es es' : List Raw} : Same ((Raw.arr es).read f) ((Raw.arr es').read f) ↔
    List.Forall₂ (fun e e' => Same (e.read f) (e'.read f)) es es' := by
  rw [Raw.read, Raw.read, Same, sameElements_iff, readElements_eq, readElements_eq,
    List.forall₂_map_left_iff, List.forall₂_map_right_iff]

lemma same_obj {ms ms' : List (List StrItem × Raw)} :
    Same ((Raw.obj ms).read f) ((Raw.obj ms').read f) ↔ ms.length = ms'.length ∧
      ∀ m ∈ ms, ∃ m' ∈ ms', f m.1 = f m'.1 ∧ Same (m.2.read f) (m'.2.read f) := by
  rw [Raw.read, Raw.read, Same, sameMembers_iff, readMembers_eq, readMembers_eq, List.length_map,
    List.length_map]
  refine and_congr_right fun _ => ⟨fun h m hm => ?_, fun h p hp => ?_⟩
  · obtain ⟨j, hj, hsame⟩ := h _ (List.mem_map_of_mem hm)
    obtain ⟨m', hm', heq⟩ := List.mem_map.mp hj
    obtain ⟨hname, rfl⟩ := Prod.mk.inj heq
    exact ⟨m', hm', hname.symm, hsame⟩
  · obtain ⟨m, hm, rfl⟩ := List.mem_map.mp hp
    obtain ⟨m', hm', hname, hsame⟩ := h m hm
    exact ⟨_, List.mem_map.mpr ⟨m', hm', Prod.ext hname.symm rfl⟩, hsame⟩

lemma same_read_self (v : Raw) : Same (v.read f) (v.read f) := by
  induction v using Raw.induct with
  | arr es ih => exact same_arr.mpr (List.forall₂_same.mpr ih)
  | obj ms ih => exact same_obj.mpr ⟨rfl, fun m hm => ⟨m, hm, rfl, ih m hm⟩⟩
  | _ => simp [Raw.read, Same]

lemma strings_of_same (h : Same (v.read f) (w.read f)) :
    ∀ items ∈ v.strings, ∃ items' ∈ w.strings, f items = f items' := by
  induction v using Raw.induct generalizing w with
  | str items =>
    cases w with
    | str items' => simpa [Raw.read, Same, Raw.strings, Raw.nodes] using h
    | _ => simp [Raw.read, Same] at h
  | arr es ih =>
    cases w with
    | arr es' =>
      intro items hitems
      obtain ⟨e, he, hin⟩ := Raw.strings_arr.mp hitems
      obtain ⟨hlen, hzip⟩ := List.forall₂_iff_zip.mp (same_arr.mp h)
      rw [← List.map_fst_zip hlen.le, List.mem_map] at he
      obtain ⟨⟨e, e'⟩, hpair, rfl⟩ := he
      obtain ⟨he, he'⟩ := List.of_mem_zip hpair
      have hsame := hzip hpair
      obtain ⟨items', hin', heq⟩ := ih e he hsame items hin
      exact ⟨items', Raw.strings_arr.mpr ⟨e', he', hin'⟩, heq⟩
    | _ => simp [Raw.read, Same] at h
  | obj ms ih =>
    cases w with
    | obj ms' =>
      intro items hitems
      obtain ⟨m, hm, hin⟩ := Raw.strings_obj.mp hitems
      obtain ⟨m', hm', hname, hsame⟩ := (same_obj.mp h).2 m hm
      rcases hin with rfl | hin
      · exact ⟨m'.1, Raw.strings_obj.mpr ⟨m', hm', .inl rfl⟩, hname⟩
      · obtain ⟨items', hin', heq⟩ := ih m hm hsame items hin
        exact ⟨items', Raw.strings_obj.mpr ⟨m', hm', .inr hin'⟩, heq⟩
    | _ => simp [Raw.read, Same] at h
  | _ => simp [Raw.strings, Raw.nodes]

/-- A finer reading tells two trees apart only by their strings. -/
lemma same_of_same (h : Same (v.read f) (w.read f))
    (hf : ∀ a ∈ v.strings, ∀ b ∈ w.strings, f a = f b → f' a = f' b) :
    Same (v.read f') (w.read f') := by
  induction v using Raw.induct generalizing w with
  | str items =>
    cases w with
    | str items' =>
      exact hf items (by simp [Raw.strings, Raw.nodes]) items' (by simp [Raw.strings, Raw.nodes]) h
    | _ => simp [Raw.read, Same] at h
  | arr es ih =>
    cases w with
    | arr es' =>
      obtain ⟨hlen, hzip⟩ := List.forall₂_iff_zip.mp (same_arr.mp h)
      refine same_arr.mpr (List.forall₂_iff_zip.mpr ⟨hlen, fun {e e'} hpair => ?_⟩)
      obtain ⟨he, he'⟩ := List.of_mem_zip hpair
      exact ih e he (hzip hpair) fun a ha b hb =>
        hf a (Raw.strings_arr.mpr ⟨e, he, ha⟩) b (Raw.strings_arr.mpr ⟨e', he', hb⟩)
    | _ => simp [Raw.read, Same] at h
  | obj ms ih =>
    cases w with
    | obj ms' =>
      refine same_obj.mpr ⟨(same_obj.mp h).1, fun m hm => ?_⟩
      obtain ⟨m', hm', hname, hsame⟩ := (same_obj.mp h).2 m hm
      refine ⟨m', hm', ?_, ih m hm hsame fun a ha b hb => ?_⟩
      · exact hf m.1 (Raw.strings_obj.mpr ⟨m, hm, .inl rfl⟩) m'.1
          (Raw.strings_obj.mpr ⟨m', hm', .inl rfl⟩) hname
      · exact hf a (Raw.strings_obj.mpr ⟨m, hm, .inr ha⟩) b (Raw.strings_obj.mpr ⟨m', hm', .inr hb⟩)
    | _ => simp [Raw.read, Same] at h
  | _ => cases w <;> simp_all [Raw.read, Same]

end Strings

end KiteRail.Json
