import KiteRail.JsonMap
import KiteRail.McpDecode
import KiteRail.ProxyIngress

namespace KiteRail.Proxy
open Bytes Json

section Decoded
variable {body : Bytes} {members : List (Bytes × Json)}

lemma member_mem {key : Bytes} {v : Json} (h : member members key = some v) :
    (key, v) ∈ members := by
  obtain ⟨m, hm, rfl⟩ := Option.map_eq_some_iff.mp h
  have hkey : m.1 = key := by simpa using List.find?_some hm
  exact hkey ▸ List.mem_of_find?_eq_some hm

lemma proper_member {key : Bytes} {v : Json} {d : ℕ} (h : Proper (.obj members))
    (hd : depth (.obj members) ≤ d + 1) (hm : member members key = some v) :
    Proper v ∧ depth v ≤ d := by
  cases h with
  | obj _ _ hvalues =>
    exact ⟨hvalues _ (member_mem hm), depth_obj_le.mp hd _ (member_mem hm)⟩

lemma valid_of_member {key s : Bytes} (h : Proper (.obj members))
    (hm : member members key = some (.str s)) : Utf8.valid s = true := by
  cases h with
  | obj _ _ hvalues =>
    cases hvalues _ (member_mem hm) with
    | str h => exact h

lemma proper_of_decodeObject (h : Mcp.decodeObject body = .ok members) :
    Proper (.obj members) ∧ depth (.obj members) ≤ maxNestingDepth := by
  obtain ⟨hvalid, ms, ⟨l, text, r, hl, ht, hr, rfl⟩, hd, rfl⟩ :=
    (Mcp.decodeObject_eq_ok body members).mp h
  exact ht.proper (valid_value hl hr hvalid) hd

end Decoded

section Written
variable {P : Bytes → Prop} {members : List (Bytes × Json)} {space : Bytes}

/-- What is decoded of an object that was written, with space after it. -/
lemma decodeObject_cleaned {written : List (Bytes × Json)} (h : Orderly P (.obj members))
    (hdepth : depth (.obj members) ≤ maxNestingDepth) (hspace : Space space)
    (hclean : cleaned (.obj members) = .obj written) :
    Mcp.decodeObject (encode (.obj members) ++ space) = .ok written := by
  have hdoc : Document (spell (.obj members)) (encode (.obj members) ++ space) :=
    ⟨[], _, space, by simp [Space], text_encode _ h.numbers hdepth, hspace, rfl⟩
  have hdistinct := h.distinct
  have hvalid : Utf8.valid (encode (.obj members) ++ space) = true :=
    Utf8.valid_append (encode_valid _ h.numbers)
      (Utf8.valid_of_ascii fun b hb => UInt8.lt_iff_toNat_lt.mpr (ascii_of_isSpace (hspace b hb)))
  rw [cleaned] at hclean
  rw [spell] at hdoc hdistinct hclean
  exact (Mcp.decodeObject_eq_ok _ _).mpr ⟨hvalid, _, hdoc, hdistinct, (Json.obj.inj hclean).symm⟩

lemma decodeObject_encode (h : Proper (.obj members))
    (hdepth : depth (.obj members) ≤ maxNestingDepth) :
    Mcp.decodeObject (encode (.obj members)) = .ok members := by
  have hspace : Space [] := by simp [Space]
  simpa using decodeObject_cleaned h hdepth hspace (Proper.cleaned h)

/-- A map that was written is decoded to its members, whatever their order. -/
lemma decodeObject_written (h : Orderly P (.obj members))
    (hdepth : depth (.obj members) ≤ maxNestingDepth) (hspace : Space space) :
    Mcp.decodeObject (encode (sorted (.obj members)) ++ space) = .ok (writtenMembers members) := by
  have hclean := cleaned_sorted_obj h
  have hsorted := h.sorted
  rw [← depth_sorted] at hdepth
  rw [sorted] at hclean hsorted hdepth ⊢
  exact decodeObject_cleaned hsorted hdepth hspace hclean

lemma member_written (h : Orderly P (.obj members)) (key : Bytes) :
    member (writtenMembers members) key =
      (member members key).map fun v => v.sorted.cleaned := by
  rw [member, find_writtenMembers h, member, Option.map_map, Option.map_map]
  rfl

def atPath : List Bytes → Json → Option Json
  | [], v => some v
  | key :: path, .obj ms => (member ms key).bind (atPath path)
  | _ :: _, _ => none

lemma atPath_written (path : List Bytes) {v : Json} (h : Orderly P v) :
    atPath path v.sorted.cleaned = (atPath path v).map fun w => w.sorted.cleaned := by
  induction path generalizing v with
  | nil => rfl
  | cons key path ih =>
    cases v with
    | obj ms =>
      rw [cleaned_sorted_obj h, atPath, atPath, member_written h]
      cases hm : member ms key with
      | none => rfl
      | some w =>
        cases h with
        | obj _ _ hvalues => exact ih (hvalues _ (member_mem hm))
    | _ => simp [sorted, cleaned, spell, Raw.read, atPath]

end Written

end KiteRail.Proxy
