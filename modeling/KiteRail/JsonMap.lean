import KiteRail.JsonEncode

/-! JSON objects as maps, where the order of members does not count. Maps are written with their
names in order, so that equal values are written alike, and values of any type are read back with
the last of several members of one name. -/
namespace KiteRail.Json
open Bytes Utf8

section Sorting

def sortMembers {β : Type} (ms : List (Bytes × β)) : List (Bytes × β) :=
  ms.insertionSort fun a b => a.1 ≤ b.1

mutual

/-- The value with the members of every object in the order of their names. -/
def sorted : Json → Json
  | .arr es => .arr (sortedElements es)
  | .obj ms => .obj (sortMembers (sortedMembers ms))
  | v => v

def sortedElements : List Json → List Json
  | [] => []
  | v :: vs => sorted v :: sortedElements vs

def sortedMembers : List (Bytes × Json) → List (Bytes × Json)
  | [] => []
  | (name, v) :: ms => (name, sorted v) :: sortedMembers ms

end

variable {es : List Json} {ms : List (Bytes × Json)}

@[simp] lemma sortedElements_eq : sortedElements es = es.map sorted := by
  induction es with
  | nil => rfl
  | cons v vs ih => rw [sortedElements, ih, List.map_cons]

@[simp] lemma sortedMembers_eq : sortedMembers ms = ms.map fun m => (m.1, sorted m.2) := by
  induction ms with
  | nil => rfl
  | cons m ms ih => rw [sortedMembers, ih, List.map_cons]

lemma sortMembers_perm {β : Type} (ms : List (Bytes × β)) : (sortMembers ms).Perm ms :=
  List.perm_insertionSort _ ms

lemma mem_sorted_obj {m : Bytes × Json} :
    m ∈ sortMembers (sortedMembers ms) ↔ ∃ v, (m.1, v) ∈ ms ∧ m.2 = sorted v := by
  rw [(sortMembers_perm _).mem_iff, sortedMembers_eq, List.mem_map]
  constructor
  · rintro ⟨⟨name, v⟩, hv, rfl⟩
    exact ⟨v, hv, rfl⟩
  · rintro ⟨v, hv, heq⟩
    exact ⟨(m.1, v), hv, Prod.ext rfl heq.symm⟩

end Sorting

/-- Values that can be written and in which no object has two members of one name; `P` holds of
their strings. -/
inductive Orderly (P : Bytes → Prop) : Json → Prop
  | null : Orderly P .null
  | bool (b : Bool) : Orderly P (.bool b)
  | num {text : Bytes} (h : Number text) : Orderly P (.num text)
  | str {s : Bytes} (h : P s) : Orderly P (.str s)
  | arr {es : List Json} (h : ∀ e ∈ es, Orderly P e) : Orderly P (.arr es)
  | obj {ms : List (Bytes × Json)} (hnodup : (ms.map Prod.fst).Nodup)
      (hnames : ∀ m ∈ ms, valid m.1 = true) (h : ∀ m ∈ ms, Orderly P m.2) : Orderly P (.obj ms)

/-- Values that a valid text can denote and in which no object has two members of one name. -/
abbrev Proper : Json → Prop := Orderly fun s => valid s = true

section Texts
variable {d : ℕ}

/-- What a valid text without repeated names denotes. -/
theorem Text.proper {v : Raw} {t : Bytes} (h : Text d v t) (hv : valid t = true)
    (hd : v.Distinct unquote) :
    Proper (v.read unquote) ∧ depth (v.read unquote) ≤ d := by
  induction v using Raw.induct generalizing d t with
  | null => exact ⟨.null, Nat.zero_le _⟩
  | bool b => exact ⟨.bool b, Nat.zero_le _⟩
  | num text =>
    cases h with
    | num hn => exact ⟨.num hn, Nat.zero_le _⟩
  | str items =>
    cases h with
    | str hc =>
      have htext := valid_inside (by decide) (by decide) hv
      exact ⟨.str (valid_unquote (x := []) hc htext), Nat.zero_le _⟩
  | arr es ih =>
    rw [Raw.distinct_arr] at hd
    rw [Raw.read, readElements_eq, depth]
    cases h with
    | emptyArr _ => exact ⟨.arr (by simp), by simp [depthElements]⟩
    | arr hes =>
      have hall : ∀ e ∈ es, Proper (e.read unquote) ∧ depth (e.read unquote) ≤ _ := fun e he => by
        obtain ⟨t, ht, hvt⟩ := hes.valid (valid_inside (by decide) (by decide) hv) e he
        exact ih e he ht hvt (hd e he)
      refine ⟨.arr (List.forall_mem_map.mpr fun e he => (hall e he).1), ?_⟩
      rw [Nat.add_le_add_iff_right, depthElements_le]
      exact List.forall_mem_map.mpr fun e he => (hall e he).2
  | obj ms ih =>
    rw [Raw.distinct_obj] at hd
    rw [Raw.read, readMembers_eq, depth]
    cases h with
    | emptyObj _ => exact ⟨.obj (by simp) (by simp) (by simp), by simp [depthMembers]⟩
    | obj hms =>
      have hvalid := hms.valid (valid_inside (by decide) (by decide) hv)
      have hall : ∀ m ∈ ms, Proper (m.2.read unquote) ∧ depth (m.2.read unquote) ≤ _ :=
        fun m hm => by
          obtain ⟨⟨t, ht, hvt⟩, -⟩ := hvalid m hm
          exact ih m hm ht hvt (hd.2 m hm)
      refine ⟨.obj ?_ ?_ (List.forall_mem_map.mpr fun m hm => (hall m hm).1), ?_⟩
      · rw [List.map_map]
        exact hd.1
      · refine List.forall_mem_map.mpr fun m hm => ?_
        obtain ⟨-, n, hn, hvn⟩ := hvalid m hm
        exact valid_unquote (x := []) hn hvn
      · rw [Nat.add_le_add_iff_right, depthMembers_le]
        exact List.forall_mem_map.mpr fun m hm => (hall m hm).2

end Texts

section Canonical
variable {P : Bytes → Prop} {v w : Json} {ms : List (Bytes × Json)} {d : ℕ}

lemma Orderly.numbers (h : Orderly P v) : ∀ t ∈ v.numbers, Number t := by
  induction h with
  | num h => simpa [Json.numbers] using h
  | arr _ ih =>
    intro t ht
    simp only [Json.numbers, numbersElements_eq, List.mem_flatMap] at ht
    obtain ⟨e, he, ht⟩ := ht
    exact ih e he t ht
  | obj _ _ _ ih =>
    intro t ht
    simp only [Json.numbers, numbersMembers_eq, List.mem_flatMap] at ht
    obtain ⟨m, hm, ht⟩ := ht
    exact ih m hm t ht
  | _ => simp [Json.numbers]

lemma Proper.strings (h : Proper v) : ∀ s ∈ v.strings, valid s = true := by
  induction h with
  | str h => simpa [Json.strings] using h
  | arr _ ih =>
    intro s hs
    simp only [Json.strings, stringsElements_eq, List.mem_flatMap] at hs
    obtain ⟨e, he, hs⟩ := hs
    exact ih e he s hs
  | obj _ hnames _ ih =>
    intro s hs
    simp only [Json.strings, stringsMembers_eq, List.mem_flatMap, List.mem_cons] at hs
    obtain ⟨m, hm, rfl | hs⟩ := hs
    · exact hnames m hm
    · exact ih m hm s hs
  | _ => simp [Json.strings]

lemma unquote_of_valid {s : Bytes} (h : valid s = true) : unquote (quoteItems s) = s := by
  rw [unquote_quoteItems, (sanitize_eq_self_iff s).mpr h]

lemma Orderly.mono {Q : Bytes → Prop} (h : Orderly P v) (hpq : ∀ s, P s → Q s) : Orderly Q v := by
  induction h with
  | null => exact .null
  | bool b => exact .bool b
  | num h => exact .num h
  | str h => exact .str (hpq _ h)
  | arr _ ih => exact .arr ih
  | obj hnodup hnames _ ih => exact .obj hnodup hnames ih

lemma Orderly.distinct (h : Orderly P v) : (spell v).Distinct unquote := by
  induction h with
  | arr _ ih =>
    rw [spell, spellElements_eq, Raw.distinct_arr]
    exact List.forall_mem_map.mpr ih
  | @obj ms hnodup hnames _ ih =>
    rw [spell, spellMembers_eq, Raw.distinct_obj, List.map_map]
    refine ⟨?_, List.forall_mem_map.mpr ih⟩
    have hkeys : ms.map ((fun m => unquote m.1) ∘ fun m => (quoteItems m.1, spell m.2)) =
        ms.map Prod.fst := List.map_congr_left fun m hm => unquote_of_valid (hnames m hm)
    rw [hkeys]
    exact hnodup
  | _ => simp [spell, Raw.Distinct, Raw.nodes]

lemma Orderly.sorted (h : Orderly P v) : Orderly P v.sorted := by
  induction h with
  | null => exact .null
  | bool b => exact .bool b
  | num h => exact .num h
  | str h => exact .str h
  | arr _ ih =>
    rw [Json.sorted, sortedElements_eq]
    refine .arr fun e he => ?_
    obtain ⟨e, hmem, rfl⟩ := List.mem_map.mp he
    exact ih e hmem
  | @obj ms hnodup hnames _ ih =>
    rw [Json.sorted]
    refine .obj ?_ (fun m hm => ?_) fun m hm => ?_
    · rw [((sortMembers_perm _).map Prod.fst).nodup_iff, sortedMembers_eq, List.map_map]
      exact hnodup
    · obtain ⟨w, hw, -⟩ := mem_sorted_obj.mp hm
      exact hnames (m.1, w) hw
    · obtain ⟨w, hw, heq⟩ := mem_sorted_obj.mp hm
      exact heq ▸ ih _ hw

lemma depth_obj_le : depth (.obj ms) ≤ d + 1 ↔ ∀ m ∈ ms, depth m.2 ≤ d := by
  rw [depth, Nat.add_le_add_iff_right, depthMembers_le]

lemma depth_sorted_le : depth v.sorted ≤ d ↔ depth v ≤ d := by
  induction v using Json.induct generalizing d with
  | arr es ih =>
    rw [sorted, sortedElements_eq, depth, depth]
    cases d with
    | zero => simp
    | succ d =>
      rw [Nat.succ_le_succ_iff, Nat.succ_le_succ_iff, depthElements_le, depthElements_le,
        List.forall_mem_map]
      exact forall₂_congr fun e he => ih e he
  | obj ms ih =>
    rw [sorted, depth, depth]
    cases d with
    | zero => simp
    | succ d =>
      rw [Nat.succ_le_succ_iff, Nat.succ_le_succ_iff, depthMembers_le, depthMembers_le]
      constructor
      · intro h m hm
        exact (ih m hm).mp (h (m.1, m.2.sorted) (mem_sorted_obj.mpr ⟨m.2, hm, rfl⟩))
      · intro h m hm
        obtain ⟨w, hw, heq⟩ := mem_sorted_obj.mp hm
        rw [heq]
        exact (ih _ hw).mpr (h _ hw)
  | _ => rfl

lemma depth_sorted (v : Json) : depth v.sorted = depth v :=
  le_antisymm (depth_sorted_le.mpr le_rfl) (depth_sorted_le.mp le_rfl)

lemma same_sorted (v : Json) : Same v.sorted v := by
  induction v using Json.induct with
  | arr es ih =>
    rw [sorted, sortedElements_eq, Same, sameElements_iff, List.forall₂_map_left_iff]
    exact List.forall₂_same.mpr ih
  | obj ms ih =>
    rw [sorted, Same, sameMembers_iff]
    refine ⟨by rw [(sortMembers_perm _).length_eq, sortedMembers_eq, List.length_map],
      fun m hm => ?_⟩
    obtain ⟨w, hw, heq⟩ := mem_sorted_obj.mp hm
    exact ⟨w, hw, heq ▸ ih _ hw⟩
  | _ => simp [sorted, Same]

lemma same_refl (v : Json) : Same v v := by
  induction v using Json.induct with
  | arr es ih =>
    rw [Same, sameElements_iff]
    exact List.forall₂_same.mpr ih
  | obj ms ih =>
    rw [Same, sameMembers_iff]
    exact ⟨rfl, fun m hm => ⟨m.2, hm, ih m hm⟩⟩
  | _ => simp [Same]

lemma eq_of_name_eq (hnodup : (ms.map Prod.fst).Nodup) {a b : Bytes × Json} (ha : a ∈ ms)
    (hb : b ∈ ms) (h : a.1 = b.1) : a = b :=
  List.inj_on_of_nodup_map hnodup ha hb h

lemma sortMembers_eq_of_perm {ns : List (Bytes × Json)} (hnodup : (ms.map Prod.fst).Nodup)
    (hp : ms.Perm ns) : sortMembers ms = sortMembers ns := by
  refine List.Perm.eq_of_pairwise (fun a b ha hb hab hba => ?_)
    (List.pairwise_insertionSort (fun a b => a.1 ≤ b.1) ms)
    (List.pairwise_insertionSort (fun a b => a.1 ≤ b.1) ns)
    ((sortMembers_perm ms).trans (hp.trans (sortMembers_perm ns).symm))
  exact eq_of_name_eq hnodup ((sortMembers_perm ms).mem_iff.mp ha)
    (hp.mem_iff.mpr ((sortMembers_perm ns).mem_iff.mp hb)) (List.le_antisymm hab hba)

lemma find_sortMembers (hnodup : (ms.map Prod.fst).Nodup) (name : Bytes) :
    (sortMembers (sortedMembers ms)).find? (fun m => m.1 == name) =
      (ms.find? fun m => m.1 == name).map fun m => (m.1, m.2.sorted) := by
  cases hfind : ms.find? fun m => m.1 == name with
  | none =>
    rw [Option.map_none, List.find?_eq_none]
    intro m hm
    obtain ⟨v, hv, -⟩ := mem_sorted_obj.mp hm
    exact List.find?_eq_none.mp hfind (m.1, v) hv
  | some m =>
    have hm := List.mem_of_find?_eq_some hfind
    have hname : m.1 = name := by simpa using List.find?_some hfind
    obtain ⟨m', hm'⟩ : ∃ m', (sortMembers (sortedMembers ms)).find? (fun m => m.1 == name) =
        some m' := by
      rw [← Option.isSome_iff_exists, List.find?_isSome]
      exact ⟨(m.1, m.2.sorted), mem_sorted_obj.mpr ⟨m.2, hm, rfl⟩, by simpa using hname⟩
    obtain ⟨v, hv, heq⟩ := mem_sorted_obj.mp (List.mem_of_find?_eq_some hm')
    have hname' : m'.1 = name := by simpa using List.find?_some hm'
    obtain rfl : (m'.1, v) = m := eq_of_name_eq hnodup hv hm (hname'.trans hname.symm)
    rw [hm', Option.map_some]
    exact congrArg some (Prod.ext rfl heq)

/-- Sorting gives one form to values that differ in the order of members only. -/
theorem sorted_eq_of_same (hv : Proper v) (hw : Proper w) (h : Same v w) :
    v.sorted = w.sorted := by
  induction hv generalizing w with
  | @arr es hes ih =>
    clear hes
    cases hw with
    | @arr es' hes' =>
      rw [Same, sameElements_iff] at h
      rw [sorted, sorted, sortedElements_eq, sortedElements_eq]
      refine congrArg arr ?_
      induction h with
      | nil => rfl
      | cons hab _ ihs =>
        rw [List.forall_mem_cons] at hes' ih
        rw [List.map_cons, List.map_cons, ih.1 hes'.1 hab, ihs ih.2 hes'.2]
    | _ => simp [Same] at h
  | @obj ms hnodup _ _ ih =>
    cases hw with
    | @obj ns hnodup' _ hns =>
      rw [Same, sameMembers_iff] at h
      obtain ⟨hlength, hmembers⟩ := h
      rw [sorted, sorted, sortedMembers_eq, sortedMembers_eq]
      have hkeys : (ms.map fun m => (m.1, m.2.sorted)).map Prod.fst = ms.map Prod.fst :=
        List.map_map
      refine congrArg obj (sortMembers_eq_of_perm (hkeys ▸ hnodup) ?_)
      -- every member has its counterpart, and there are as many on both sides
      have hsub : ms.map (fun m => (m.1, m.2.sorted)) ⊆ ns.map fun m => (m.1, m.2.sorted) := by
        intro m hm
        obtain ⟨m, hmem, rfl⟩ := List.mem_map.mp hm
        obtain ⟨b, hb, hsame⟩ := hmembers m hmem
        exact List.mem_map.mpr ⟨(m.1, b), hb, by rw [ih m hmem (hns _ hb) hsame]⟩
      have hfst : (ms.map fun m => (m.1, m.2.sorted)).Nodup :=
        List.Nodup.of_map Prod.fst (hkeys ▸ hnodup)
      exact (List.subperm_of_subset hfst hsub).perm_of_length_le (by simp [hlength])
    | _ => simp [Same] at h
  | _ =>
    cases hw with
    | _ => simp_all [Same, sorted]

end Canonical

section Written
variable {P : Bytes → Prop} {ms : List (Bytes × Json)}

/-- What is read of a value once it was written: its strings with their invalid bytes replaced. -/
def cleaned (v : Json) : Json := (spell v).read unquote

lemma cleaned_obj : cleaned (.obj ms) = .obj (ms.map fun m => (sanitize m.1, cleaned m.2)) := by
  rw [cleaned, spell, spellMembers_eq, Raw.read, readMembers_eq, List.map_map]
  exact congrArg obj (List.map_congr_left fun m _ => Prod.ext (unquote_quoteItems m.1) rfl)

lemma Proper.cleaned {v : Json} (h : Proper v) : v.cleaned = v :=
  read_spell v fun s hs => unquote_of_valid (h.strings s hs)

/-- The members of a map once it was written, in the order in which they are. -/
def writtenMembers (ms : List (Bytes × Json)) : List (Bytes × Json) :=
  (sortMembers (sortedMembers ms)).map fun m => (m.1, m.2.cleaned)

lemma cleaned_sorted_obj (h : Orderly P (.obj ms)) :
    (sorted (.obj ms)).cleaned = .obj (writtenMembers ms) := by
  cases h with
  | obj _ hnames _ =>
    rw [sorted, cleaned_obj, writtenMembers]
    refine congrArg obj (List.map_congr_left fun m hm => ?_)
    obtain ⟨v, hv, -⟩ := mem_sorted_obj.mp hm
    exact Prod.ext ((sanitize_eq_self_iff m.1).mpr (hnames (m.1, v) hv)) rfl

lemma find_writtenMembers (h : Orderly P (.obj ms)) (name : Bytes) :
    (writtenMembers ms).find? (fun m => m.1 == name) =
      (ms.find? fun m => m.1 == name).map fun m => (m.1, m.2.sorted.cleaned) := by
  cases h with
  | obj hnodup _ _ =>
    rw [writtenMembers, List.find?_map]
    change Option.map _ ((sortMembers (sortedMembers ms)).find? fun m => m.1 == name) = _
    rw [find_sortMembers hnodup, Option.map_map]
    rfl

end Written

section Any

def putMember (object : List (Bytes × Json)) (name : Bytes) (v : Json) : List (Bytes × Json) :=
  if object.any fun m => m.1 == name then
    object.map fun m => if m.1 == name then (name, v) else m
  else object ++ [(name, v)]

mutual

/-- Decoding into a variable of any type, with numbers as texts. -/
def anyValue : Raw → Json
  | .null => .null
  | .bool b => .bool b
  | .num text => .num text
  | .str items => .str (text items)
  | .arr es => .arr (anyElements es)
  | .obj ms => .obj (anyMembers [] ms)

def anyElements : List Raw → List Json
  | [] => []
  | v :: vs => anyValue v :: anyElements vs

/-- Decoding into a map that has members already. -/
def anyMembers (object : List (Bytes × Json)) :
    List (List StrItem × Raw) → List (Bytes × Json)
  | [] => object
  | (name, v) :: ms => anyMembers (putMember object (text name) (anyValue v)) ms

end

@[simp] lemma anyElements_eq {es : List Raw} : anyElements es = es.map anyValue := by
  induction es with
  | nil => rfl
  | cons v vs ih => rw [anyElements, ih, List.map_cons]

/-- `map[string]any`, `none` for nil. -/
def decodeMap : Decoder (Option (List (Bytes × Json)))
  | _, .null => (none, true)
  | old, .obj ms => (some (anyMembers (old.getD []) ms), true)
  | old, _ => (old, false)

lemma anyMembers_spell {object ms : List (Bytes × Json)} (hnodup : (ms.map Prod.fst).Nodup)
    (hnew : ∀ m ∈ ms, m.1 ∉ object.map Prod.fst) (hnames : ∀ m ∈ ms, valid m.1 = true)
    (h : ∀ m ∈ ms, anyValue (spell m.2) = m.2) :
    anyMembers object (ms.map fun m => (quoteItems m.1, spell m.2)) = object ++ ms := by
  induction ms generalizing object with
  | nil => simp [anyMembers]
  | cons m ms ih =>
    rw [List.forall_mem_cons] at hnames h
    rw [List.map_cons, List.nodup_cons] at hnodup
    have habsent : (object.any fun m' => m'.1 == m.1) = false := by
      rw [List.any_eq_false]
      intro m' hm' heq
      exact hnew m List.mem_cons_self (List.mem_map.mpr ⟨m', hm', beq_iff_eq.mp heq⟩)
    rw [List.map_cons, anyMembers, text_quoteItems hnames.1, h.1, putMember, habsent]
    rw [if_neg (by simp), ih hnodup.2 ?_ hnames.2 h.2, List.append_assoc, List.singleton_append]
    intro m' hm'
    rw [List.map_append, List.mem_append, not_or]
    refine ⟨hnew m' (List.mem_cons_of_mem _ hm'), fun hmem => hnodup.1 ?_⟩
    rw [List.map_singleton, List.mem_singleton] at hmem
    exact hmem ▸ List.mem_map_of_mem hm'

theorem anyValue_spell {v : Json} (h : Proper v) : anyValue (spell v) = v := by
  induction h with
  | str h => rw [spell, anyValue, text_quoteItems h]
  | @arr es _ ih =>
    rw [spell, spellElements_eq, anyValue, anyElements_eq, List.map_map]
    exact congrArg arr ((List.map_congr_left ih).trans (List.map_id es))
  | @obj ms hnodup hnames _ ih =>
    rw [spell, spellMembers_eq, anyValue, anyMembers_spell hnodup (by simp) hnames ih,
      List.nil_append]
  | _ => rfl

end Any

end KiteRail.Json
