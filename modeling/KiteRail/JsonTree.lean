import KiteRail.JsonText

namespace KiteRail.Json

@[elab_as_elim] theorem Raw.induct {P : Raw → Prop} (null : P .null) (bool : ∀ b, P (.bool b))
    (num : ∀ text, P (.num text)) (str : ∀ items, P (.str items))
    (arr : ∀ es, (∀ e ∈ es, P e) → P (.arr es))
    (obj : ∀ ms, (∀ m ∈ ms, P m.2) → P (.obj ms)) (v : Raw) : P v := by
  induction hn : sizeOf v using Nat.strong_induction_on generalizing v with
  | _ n ih =>
    subst hn
    cases v with
    | null => exact null
    | bool b => exact bool b
    | num text => exact num text
    | str items => exact str items
    | arr es =>
      refine arr es fun e he => ih _ ?_ e rfl
      have hlt := List.sizeOf_lt_of_mem he
      simp only [Raw.arr.sizeOf_spec]
      omega
    | obj ms =>
      refine obj ms fun m hm => ih _ ?_ m.2 rfl
      have hlt := List.sizeOf_lt_of_mem hm
      obtain ⟨name, v⟩ := m
      simp only [Prod.mk.sizeOf_spec] at hlt
      simp only [Raw.obj.sizeOf_spec]
      omega

mutual

/-- The value of a syntax tree whose strings are read by `f`. -/
def Raw.read (f : List StrItem → Bytes) : Raw → Json
  | .null => .null
  | .bool b => .bool b
  | .num text => .num text
  | .str items => .str (f items)
  | .arr es => .arr (readElements f es)
  | .obj ms => .obj (readMembers f ms)

def readElements (f : List StrItem → Bytes) : List Raw → List Json
  | [] => []
  | v :: vs => v.read f :: readElements f vs

def readMembers (f : List StrItem → Bytes) : List (List StrItem × Raw) → List (Bytes × Json)
  | [] => []
  | (name, v) :: ms => (f name, v.read f) :: readMembers f ms

end

mutual

def Raw.nodes : Raw → List Raw
  | .arr es => .arr es :: nodesElements es
  | .obj ms => .obj ms :: nodesMembers ms
  | v => [v]

def nodesElements : List Raw → List Raw
  | [] => []
  | v :: vs => v.nodes ++ nodesElements vs

def nodesMembers : List (List StrItem × Raw) → List Raw
  | [] => []
  | (_, v) :: ms => v.nodes ++ nodesMembers ms

end

variable {f : List StrItem → Bytes} {es : List Raw} {ms : List (List StrItem × Raw)}

@[simp] lemma readElements_eq : readElements f es = es.map (Raw.read f) := by
  induction es with
  | nil => rfl
  | cons v vs ih => rw [readElements, ih, List.map_cons]

@[simp] lemma readMembers_eq : readMembers f ms = ms.map fun m => (f m.1, m.2.read f) := by
  induction ms with
  | nil => rfl
  | cons m ms ih =>
    obtain ⟨name, v⟩ := m
    rw [readMembers, ih, List.map_cons]

@[simp] lemma nodesElements_eq : nodesElements es = es.flatMap Raw.nodes := by
  induction es with
  | nil => rfl
  | cons v vs ih => rw [nodesElements, ih, List.flatMap_cons]

@[simp] lemma nodesMembers_eq : nodesMembers ms = ms.flatMap fun m => m.2.nodes := by
  induction ms with
  | nil => rfl
  | cons m ms ih =>
    obtain ⟨name, v⟩ := m
    rw [nodesMembers, ih, List.flatMap_cons]

def Raw.numbers (v : Raw) : List Bytes :=
  v.nodes.filterMap fun
    | .num text => some text
    | _ => none

mutual

def numbers : Json → List Bytes
  | .num text => [text]
  | .arr es => numbersElements es
  | .obj ms => numbersMembers ms
  | _ => []

def numbersElements : List Json → List Bytes
  | [] => []
  | v :: vs => numbers v ++ numbersElements vs

def numbersMembers : List (Bytes × Json) → List Bytes
  | [] => []
  | (_, v) :: ms => numbers v ++ numbersMembers ms

end

@[simp] lemma numbersElements_eq {es : List Json} : numbersElements es = es.flatMap numbers := by
  induction es with
  | nil => rfl
  | cons v vs ih => rw [numbersElements, ih, List.flatMap_cons]

@[simp] lemma numbersMembers_eq {ms : List (Bytes × Json)} :
    numbersMembers ms = ms.flatMap fun m => numbers m.2 := by
  induction ms with
  | nil => rfl
  | cons m ms ih =>
    obtain ⟨name, v⟩ := m
    rw [numbersMembers, ih, List.flatMap_cons]

theorem numbers_read (v : Raw) : (v.read f).numbers = v.numbers := by
  induction v using Raw.induct with
  | arr es ih =>
    simp only [Raw.read, numbers, readElements_eq, numbersElements_eq, List.flatMap_map,
      Raw.numbers, Raw.nodes, nodesElements_eq, List.filterMap_cons, List.filterMap_flatMap]
    exact List.flatMap_congr fun e he => ih e he
  | obj ms ih =>
    simp only [Raw.read, numbers, readMembers_eq, numbersMembers_eq, List.flatMap_map,
      Raw.numbers, Raw.nodes, nodesMembers_eq, List.filterMap_cons, List.filterMap_flatMap]
    exact List.flatMap_congr fun m hm => ih m hm
  | _ => rfl

/-- No object in the tree has two members with the same name. -/
def Raw.Distinct (f : List StrItem → Bytes) (v : Raw) : Prop :=
  ∀ ms, .obj ms ∈ v.nodes → (ms.map fun m => f m.1).Nodup

lemma Raw.distinct_arr : (Raw.arr es).Distinct f ↔ ∀ e ∈ es, e.Distinct f := by
  simp only [Raw.Distinct, Raw.nodes, nodesElements_eq, List.mem_cons, reduceCtorEq, false_or,
    List.mem_flatMap]
  exact ⟨fun h e he ms hms => h ms ⟨e, he, hms⟩, fun h ms ⟨e, he, hms⟩ => h e he ms hms⟩

lemma Raw.distinct_obj : (Raw.obj ms).Distinct f ↔
    (ms.map fun m => f m.1).Nodup ∧ ∀ m ∈ ms, m.2.Distinct f := by
  simp only [Raw.Distinct, Raw.nodes, nodesMembers_eq, List.mem_cons, Raw.obj.injEq,
    List.mem_flatMap]
  constructor
  · exact fun h => ⟨h ms (.inl rfl), fun m hm ms' hms => h ms' (.inr ⟨m, hm, hms⟩)⟩
  · rintro ⟨hnodup, h⟩ ms' (rfl | ⟨m, hm, hms⟩)
    · exact hnodup
    · exact h m hm ms' hms

section Rewriting

mutual

/-- The tree with every string rewritten by `g`. -/
def Raw.rewrite (g : List StrItem → List StrItem) : Raw → Raw
  | .str items => .str (g items)
  | .arr es => .arr (rewriteElements g es)
  | .obj ms => .obj (rewriteMembers g ms)
  | v => v

def rewriteElements (g : List StrItem → List StrItem) : List Raw → List Raw
  | [] => []
  | v :: vs => v.rewrite g :: rewriteElements g vs

def rewriteMembers (g : List StrItem → List StrItem) :
    List (List StrItem × Raw) → List (List StrItem × Raw)
  | [] => []
  | (name, v) :: ms => (g name, v.rewrite g) :: rewriteMembers g ms

end

variable {g : List StrItem → List StrItem}

@[simp] lemma rewriteElements_eq : rewriteElements g es = es.map (Raw.rewrite g) := by
  induction es with
  | nil => rfl
  | cons v vs ih => rw [rewriteElements, ih, List.map_cons]

@[simp] lemma rewriteMembers_eq :
    rewriteMembers g ms = ms.map fun m => (g m.1, m.2.rewrite g) := by
  induction ms with
  | nil => rfl
  | cons m ms ih =>
    obtain ⟨name, v⟩ := m
    rw [rewriteMembers, ih, List.map_cons]

lemma read_rewrite (v : Raw) : (v.rewrite g).read f = v.read (f ∘ g) := by
  induction v using Raw.induct with
  | arr es ih =>
    simp only [Raw.rewrite, Raw.read, rewriteElements_eq, readElements_eq, List.map_map]
    exact congrArg Json.arr (List.map_congr_left fun e he => ih e he)
  | obj ms ih =>
    simp only [Raw.rewrite, Raw.read, rewriteMembers_eq, readMembers_eq, List.map_map]
    exact congrArg Json.obj (List.map_congr_left fun m hm => Prod.ext rfl (ih m hm))
  | _ => rfl

lemma nodes_rewrite (v : Raw) : (v.rewrite g).nodes = v.nodes.map (Raw.rewrite g) := by
  induction v using Raw.induct with
  | arr es ih =>
    simp only [Raw.rewrite, Raw.nodes, rewriteElements_eq, nodesElements_eq, List.map_cons,
      List.flatMap_map, List.map_flatMap]
    exact congrArg _ (List.flatMap_congr fun e he => ih e he)
  | obj ms ih =>
    simp only [Raw.rewrite, Raw.nodes, rewriteMembers_eq, nodesMembers_eq, List.map_cons,
      List.flatMap_map, List.map_flatMap]
    exact congrArg _ (List.flatMap_congr fun m hm => ih m hm)
  | _ => rfl

end Rewriting

section Same

mutual

/-- Equality up to the order of members. -/
def Same : Json → Json → Prop
  | .null, .null => True
  | .bool a, .bool b => a = b
  | .num a, .num b => a = b
  | .str a, .str b => a = b
  | .arr as, .arr bs => SameElements as bs
  | .obj as, .obj bs => as.length = bs.length ∧ SameMembers as bs
  | _, _ => False

def SameElements : List Json → List Json → Prop
  | [], [] => True
  | a :: as, b :: bs => Same a b ∧ SameElements as bs
  | _, _ => False

def SameMembers : List (Bytes × Json) → List (Bytes × Json) → Prop
  | [], _ => True
  | (name, a) :: as, bs => (∃ b, (name, b) ∈ bs ∧ Same a b) ∧ SameMembers as bs

end

lemma sameElements_iff {as bs : List Json} : SameElements as bs ↔ List.Forall₂ Same as bs := by
  induction as generalizing bs with
  | nil => cases bs <;> simp [SameElements]
  | cons a as ih => cases bs <;> simp [SameElements, ih]

lemma sameMembers_iff {as bs : List (Bytes × Json)} :
    SameMembers as bs ↔ ∀ m ∈ as, ∃ b, (m.1, b) ∈ bs ∧ Same m.2 b := by
  induction as with
  | nil => simp [SameMembers]
  | cons m as ih =>
    obtain ⟨name, a⟩ := m
    simp [SameMembers, ih]

end Same

end KiteRail.Json
