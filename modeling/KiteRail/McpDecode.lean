import KiteRail.JsonGrammar
import KiteRail.JsonTree
import KiteRail.McpJson

namespace KiteRail.Mcp
open Bytes Json

lemma decodeElements_eq_ok {es : List Raw} {js : List Json}
    (h : ∀ e ∈ es, ∀ j, decodeValue e = .ok j ↔ e.Distinct unquote ∧ j = e.read unquote) :
    decodeElements es = .ok js ↔
      (∀ e ∈ es, e.Distinct unquote) ∧ js = es.map (Raw.read unquote) := by
  induction es generalizing js with
  | nil => simp [decodeElements, eq_comm]
  | cons e es ih =>
    have htail : ∀ vs, decodeElements es = .ok vs ↔
        (∀ e ∈ es, e.Distinct unquote) ∧ vs = es.map (Raw.read unquote) := fun vs =>
      ih fun e' he' => h e' (List.mem_cons_of_mem _ he')
    have hhead := h e List.mem_cons_self
    rw [List.forall_mem_cons, List.map_cons]
    constructor
    · intro hdec
      simp only [decodeElements, bind, Except.bind] at hdec
      split at hdec
      · simp at hdec
      rename_i v hv
      split at hdec
      · simp at hdec
      rename_i vs hvs
      obtain ⟨hd, rfl⟩ := (hhead v).mp hv
      obtain ⟨hds, rfl⟩ := (htail vs).mp hvs
      exact ⟨⟨hd, hds⟩, (Except.ok.inj hdec).symm⟩
    · rintro ⟨⟨hd, hds⟩, rfl⟩
      simp only [decodeElements, (hhead _).mpr ⟨hd, rfl⟩, (htail _).mpr ⟨hds, rfl⟩]
      rfl

lemma decodeMembers_eq_ok {ms : List (List StrItem × Raw)} {object js : List (Bytes × Json)}
    (h : ∀ m ∈ ms, ∀ j, decodeValue m.2 = .ok j ↔
      m.2.Distinct unquote ∧ j = m.2.read unquote) :
    decodeMembers object ms = .ok js ↔
      (∀ m ∈ ms, unquote m.1 ∉ object.map Prod.fst) ∧ (ms.map fun m => unquote m.1).Nodup ∧
      (∀ m ∈ ms, m.2.Distinct unquote) ∧
      js = object ++ ms.map fun m => (unquote m.1, m.2.read unquote) := by
  induction ms generalizing object with
  | nil => simp [decodeMembers, eq_comm]
  | cons m ms ih =>
    obtain ⟨name, v⟩ := m
    have htail : ∀ w, decodeMembers (object ++ [(unquote name, w)]) ms = .ok js ↔ _ := fun w =>
      ih fun m' hm' => h m' (List.mem_cons_of_mem _ hm')
    have hhead := h (name, v) List.mem_cons_self
    have hany : (object.any fun m => m.1 == unquote name) = true ↔
        unquote name ∈ object.map Prod.fst := by
      simp [List.any_eq_true, List.mem_map]
    rw [decodeMembers]
    simp only [hany, List.forall_mem_cons, List.map_cons, List.nodup_cons]
    split
    · rename_i hmem
      simp [hmem]
    · rename_i hmem
      constructor
      · intro hdec
        simp only [bind, Except.bind] at hdec
        split at hdec
        · simp at hdec
        rename_i w hw
        obtain ⟨hd, rfl⟩ := (hhead w).mp hw
        obtain ⟨hnot, hnodup, hds, rfl⟩ := (htail _).mp hdec
        simp only [List.map_append, List.map_cons, List.map_nil, List.mem_append,
          List.mem_singleton, not_or] at hnot
        refine ⟨⟨hmem, fun m hm => (hnot m hm).1⟩, ⟨fun hin => ?_, hnodup⟩, ⟨hd, hds⟩, by simp⟩
        obtain ⟨m, hm, heq⟩ := List.mem_map.mp hin
        exact (hnot m hm).2 heq
      · rintro ⟨⟨-, hnot⟩, ⟨hname, hnodup⟩, ⟨hd, hds⟩, rfl⟩
        simp only [(hhead _).mpr ⟨hd, rfl⟩, bind, Except.bind]
        refine (htail _).mpr ⟨fun m hm => ?_, hnodup, hds, by simp⟩
        simp only [List.map_append, List.map_cons, List.map_nil, List.mem_append,
          List.mem_singleton, not_or]
        exact ⟨hnot m hm, fun heq => hname (List.mem_map.mpr ⟨m, hm, heq⟩)⟩

/-- A tree is decoded unless an object in it repeats a name. -/
theorem decodeValue_eq_ok (v : Raw) (j : Json) :
    decodeValue v = .ok j ↔ v.Distinct unquote ∧ j = v.read unquote := by
  induction v using Raw.induct generalizing j with
  | arr es ih =>
    rw [decodeValue, Raw.distinct_arr, Raw.read, readElements_eq]
    cases hes : decodeElements es with
    | error e =>
      have hnot : ¬ ∀ e ∈ es, e.Distinct unquote := fun hd => by
        rw [(decodeElements_eq_ok ih).mpr ⟨hd, rfl⟩] at hes
        simp at hes
      exact ⟨fun h => by simp [bind, Except.bind] at h, fun h => absurd h.1 hnot⟩
    | ok js =>
      obtain ⟨hd, rfl⟩ := (decodeElements_eq_ok ih).mp hes
      exact ⟨fun h => ⟨hd, (Except.ok.inj h).symm⟩, fun h => by rw [h.2]; rfl⟩
  | obj ms ih =>
    rw [decodeValue, Raw.distinct_obj, Raw.read, readMembers_eq]
    cases hms : decodeMembers [] ms with
    | error e =>
      have hnot : ¬ ((ms.map fun m => unquote m.1).Nodup ∧ ∀ m ∈ ms, m.2.Distinct unquote) :=
        fun hd => by
          rw [(decodeMembers_eq_ok ih).mpr ⟨by simp, hd.1, hd.2, rfl⟩] at hms
          simp at hms
      exact ⟨fun h => by simp [bind, Except.bind] at h, fun h => absurd h.1 hnot⟩
    | ok js =>
      obtain ⟨-, hnodup, hd, rfl⟩ := (decodeMembers_eq_ok ih).mp hms
      exact ⟨fun h => ⟨⟨hnodup, hd⟩, (Except.ok.inj h).symm⟩, fun h => by rw [h.2]; rfl⟩
  | _ => simp [decodeValue, Raw.Distinct, Raw.nodes, Raw.read, eq_comm]

/-- The bodies that are accepted, and what is returned for them. -/
theorem decodeObject_eq_ok (body : Bytes) (members : List (Bytes × Json)) :
    decodeObject body = .ok members ↔ Utf8.valid body = true ∧ ∃ ms, Document (.obj ms) body ∧
      (Raw.obj ms).Distinct unquote ∧ members = readMembers unquote ms := by
  rw [decodeObject]
  split
  · rename_i raw hvalid hparse
    have hdoc := (parse_eq_some_iff body raw).mp hparse
    constructor
    · intro h
      simp only [bind, Except.bind] at h
      split at h
      · simp at h
      rename_i j hj
      obtain ⟨hd, rfl⟩ := (decodeValue_eq_ok raw j).mp hj
      cases raw with
      | obj ms => exact ⟨hvalid, ms, hdoc, hd, (Except.ok.inj h).symm⟩
      | _ => simp [Raw.read, throw, throwThe, MonadExceptOf.throw] at h
    · rintro ⟨-, ms, hms, hd, rfl⟩
      have heq := hparse.symm.trans ((parse_eq_some_iff body _).mpr hms)
      obtain rfl := Option.some.inj heq
      rw [(decodeValue_eq_ok _ _).mpr ⟨hd, rfl⟩]
      rfl
  · rename_i hneither
    refine ⟨fun h => by simp [throw, throwThe, MonadExceptOf.throw] at h, ?_⟩
    rintro ⟨hvalid, ms, hms, -⟩
    exact absurd ((parse_eq_some_iff body _).mpr hms) (hneither _ hvalid)

end KiteRail.Mcp
