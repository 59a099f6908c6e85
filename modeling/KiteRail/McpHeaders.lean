import KiteRail.GoError
import KiteRail.HttpHeader
import KiteRail.JsonText

/-! The transport metadata kept for a replay: what is captured from a request, how
it is stored as JSON, and how it is restored. For names as `net/http` delivers
them, storing and restoring changes nothing but bytes that are not UTF-8. -/
namespace KiteRail.Mcp
open Bytes Header

/-- The lower-case names that are kept. -/
def keptName (lowerName : Bytes) : Bool :=
  lowerName == lit "accept" || lowerName == lit "mcp-method" || lowerName == lit "mcp-name" ||
    lowerName == lit "mcp-protocol-version" ||
    ((lit "mcp-param-").isPrefixOf lowerName && lowerName != lit "mcp-param-")

def captureReplayHeaders (header : Header) : Header :=
  header.entries.foldl (fun captured e =>
    if keptName (toLower e.1) then e.2.foldl (fun captured value => captured.add e.1 value) captured
    else captured) ∅

/-- `json.Marshal` of a header map: invalid UTF-8 is replaced. -/
def encodeHeaders (header : Header) : Except GoError Json :=
  .ok (.obj (header.entries.map fun e =>
    (Utf8.sanitize e.1, .arr (e.2.map fun v => .str (Utf8.sanitize v)))))

def stringOf : Json → Except GoError Bytes
  | .str s => .ok s
  | .null => .ok []
  | _ => .error (.text (msg "json: cannot unmarshal into Go value of type string"))

def stringsOf : Json → Except GoError (List Bytes)
  | .arr elements => elements.mapM stringOf
  | .null => .ok []
  | _ => .error (.text (msg "json: cannot unmarshal into Go value of type []string"))

/-- `json.Unmarshal` into a header map. -/
def unmarshalHeaders : Json → Except GoError Header
  | .obj members => members.foldlM (fun h m => do return h.insert m.1 (← stringsOf m.2)) ∅
  | .null => .ok ∅
  | _ => .error (.text (msg "json: cannot unmarshal into Go value of type http.Header"))

/-- Empty text stands for no headers. -/
def decodeReplayHeaders : Option Json → Except GoError Header
  | none => .ok ∅
  | some encoded =>
    match unmarshalHeaders encoded with
    | .ok stored => .ok (captureReplayHeaders stored)
    | .error err => .error (.wrap (msg "decode stored replay headers: ") err)

section Capture

/-- Whatever map it is taken from, only kept names are captured. -/
lemma keptName_of_mem {h : Header} {name : Bytes} (hn : name ∈ captureReplayHeaders h) :
    keptName (toLower name) = true := by
  suffices hall : ∀ n ∈ captureReplayHeaders h, keptName (toLower n) = true from hall name hn
  refine List.foldlRecOn (motive := fun g : Header => ∀ n ∈ g, keptName (toLower n) = true)
    h.entries _ (fun n hn => absurd hn (AList.notMem_empty n)) fun g hg e _ => ?_
  split_ifs with hkept
  · refine List.foldlRecOn (motive := fun g : Header => ∀ n ∈ g, keptName (toLower n) = true)
      e.2 _ hg fun g hg v _ n hn => ?_
    rcases (AList.mem_insert _).mp hn with rfl | hn
    · rwa [toLower_canonicalKey]
    · exact hg n hn
  · exact hg

lemma lookup_addAll {name : Bytes} (hn : CanonicalName name) (vs : List Bytes) (h : Header)
    (k : Bytes) :
    (vs.foldl (fun captured value => captured.add name value) h).lookup k =
      if k = name ∧ vs ≠ [] then some ((h.lookup name).getD [] ++ vs) else h.lookup k := by
  induction vs generalizing h with
  | nil => simp
  | cons v vs ih =>
    rw [List.foldl_cons, ih, add, hn.2]
    by_cases hk : k = name
    · subst hk
      by_cases hv : vs = []
      · simp [hv]
      · simp [hv]
    · simp [hk, AList.lookup_insert_ne hk]

lemma lookup_foldl_capture {es : List (Sigma fun _ : Bytes => List Bytes)} {h : Header}
    (hnd : (es.map Sigma.fst).Nodup) (hc : ∀ e ∈ es, CanonicalName e.1)
    (hfresh : ∀ e ∈ es, e.1 ∉ h) (k : Bytes) :
    (es.foldl (fun captured e => if keptName (toLower e.1) then
        e.2.foldl (fun captured value => captured.add e.1 value) captured
      else captured) h).lookup k =
      match es.dlookup k with
      | some vs => if keptName (toLower k) ∧ vs ≠ [] then some vs else none
      | none => h.lookup k := by
  induction es generalizing h with
  | nil => simp
  | cons e es ih =>
    obtain ⟨name, vs⟩ := e
    obtain ⟨hnotin, hnd⟩ := List.nodup_cons.mp hnd
    have hname : CanonicalName name := hc ⟨name, vs⟩ (by simp)
    have hnone : h.lookup name = none := AList.lookup_eq_none.mpr (hfresh ⟨name, vs⟩ (by simp))
    set h' : Header := if keptName (toLower name) then
        vs.foldl (fun captured value => captured.add name value) h else h with hdef
    have hlook : ∀ k, h'.lookup k =
        if k = name ∧ keptName (toLower name) ∧ vs ≠ [] then some vs else h.lookup k := by
      intro k
      rw [hdef]
      by_cases hkept : keptName (toLower name) = true
      · rw [if_pos hkept, lookup_addAll hname, hnone]
        simp [hkept]
      · simp [hkept]
    have hfresh' : ∀ e ∈ es, e.1 ∉ h' := by
      intro e he
      have hne : e.1 ≠ name := fun hen => hnotin (List.mem_map.mpr ⟨e, he, hen⟩)
      rw [← AList.lookup_eq_none, hlook]
      simpa [hne] using AList.lookup_eq_none.mpr (hfresh e (by simp [he]))
    have hstep := ih hnd (fun e he => hc e (by simp [he])) hfresh'
    rw [List.foldl_cons]
    refine hstep.trans ?_
    by_cases hk : k = name
    · subst hk
      have hrest : es.dlookup k = none :=
        List.dlookup_eq_none.mpr (by simpa [List.keys] using hnotin)
      rw [hrest, List.dlookup_cons_eq]
      simp [hlook, hnone]
    · rw [List.dlookup_cons_ne _ _ hk]
      cases es.dlookup k with
      | none => simp [hlook, hk]
      | some vs => rfl

end Capture

def captured (name : Bytes) : Option (List Bytes) → Option (List Bytes)
  | some vs => if keptName (toLower name) ∧ vs ≠ [] then some vs else none
  | none => none

theorem lookup_captureReplayHeaders {h : Header} (hc : Canonical h) (k : Bytes) :
    (captureReplayHeaders h).lookup k = captured k (h.lookup k) := by
  rw [captureReplayHeaders, lookup_foldl_capture h.nodupKeys (fun e he => hc e.1
    (List.mem_keys_of_mem he)) (fun e _ => AList.notMem_empty e.1)]
  change (match h.lookup k with | some vs => _ | none => _) = _
  cases h.lookup k <;> rfl

lemma canonical_captureReplayHeaders {h : Header} (hc : Canonical h) :
    Canonical (captureReplayHeaders h) := by
  intro name hn
  rw [← AList.lookup_isSome, lookup_captureReplayHeaders hc] at hn
  refine hc name (AList.lookup_isSome.mp ?_)
  cases hl : h.lookup name with
  | none => simp [hl, captured] at hn
  | some vs => rfl

/-- Capturing twice is capturing once. -/
lemma captured_captured (name : Bytes) (values : Option (List Bytes)) :
    captured name (captured name values) = captured name values := by
  cases values with
  | none => rfl
  | some vs => by_cases hv : keptName (toLower name) ∧ vs ≠ [] <;> simp [captured, hv]

section Storage

lemma stringsOf_encoded (vs : List Bytes) :
    stringsOf (.arr (vs.map fun v => .str (Utf8.sanitize v))) = .ok (vs.map Utf8.sanitize) := by
  simp only [stringsOf]
  induction vs with
  | nil => rfl
  | cons v vs ih =>
    rw [List.map_cons, List.mapM_cons, ih]
    rfl

lemma lookup_foldlM_insert {ms : List (Bytes × Json)} {value : Bytes → List Bytes} {h : Header}
    (hv : ∀ m ∈ ms, stringsOf m.2 = .ok (value m.1)) :
    ∃ g, ms.foldlM (fun h m => do return h.insert m.1 (← stringsOf m.2)) h = .ok g ∧
      ∀ k, g.lookup k = if k ∈ ms.map Prod.fst then some (value k) else h.lookup k := by
  induction ms generalizing h with
  | nil => exact ⟨h, rfl, by simp⟩
  | cons m ms ih =>
    obtain ⟨g, hg, hlook⟩ := ih (h := h.insert m.1 (value m.1)) fun m' hm => hv m' (by simp [hm])
    refine ⟨g, ?_, fun k => ?_⟩
    · rw [List.foldlM_cons, hv m (by simp)]
      exact hg
    · rw [hlook]
      by_cases hk : k ∈ ms.map Prod.fst
      · simp [hk]
      · by_cases hm : k = m.1
        · subst hm
          simp [hk]
        · simp [hk, hm, AList.lookup_insert_ne hm]

lemma decodeReplayHeaders_encoded {h : Header} {encoded : Json}
    (henc : encodeHeaders h = .ok encoded) :
    ∃ g, decodeReplayHeaders (some encoded) = .ok g := by
  have hfold : ∀ (es : List (Sigma fun _ : Bytes => List Bytes)) (h : Header), ∃ g,
      (es.map fun e =>
        (Utf8.sanitize e.1, Json.arr (e.2.map fun v => .str (Utf8.sanitize v)))).foldlM
        (fun h m => do return h.insert m.1 (← stringsOf m.2)) h = Except.ok (ε := GoError) g := by
    intro es
    induction es with
    | nil => exact fun h => ⟨h, rfl⟩
    | cons e es ih =>
      intro h
      obtain ⟨g, hg⟩ := ih (h.insert (Utf8.sanitize e.1) (e.2.map Utf8.sanitize))
      refine ⟨g, ?_⟩
      rw [List.map_cons, List.foldlM_cons, stringsOf_encoded]
      exact hg
  obtain ⟨g, hg⟩ := hfold h.entries ∅
  obtain rfl := Except.ok.inj henc
  exact ⟨captureReplayHeaders g, by simp only [decodeReplayHeaders, unmarshalHeaders, hg]⟩

/-- Stored members, in whatever order they are read back, give the captured values
with invalid UTF-8 replaced. -/
theorem decodeReplayHeaders_stored {h : Header} (hc : Canonical h) {members : List (Bytes × Json)}
    (hp : ∃ ms, encodeHeaders (captureReplayHeaders h) = .ok (.obj ms) ∧ members.Perm ms) :
    ∃ g, decodeReplayHeaders (some (.obj members)) = .ok g ∧ Canonical g ∧
      ∀ k, g.lookup k = (captured k (h.lookup k)).map (List.map Utf8.sanitize) := by
  obtain ⟨ms, henc, hp⟩ := hp
  have hcap := canonical_captureReplayHeaders hc
  set cap := captureReplayHeaders h with hcapdef
  simp only [encodeHeaders, Except.ok.injEq, Json.obj.injEq] at henc
  have hmem : ∀ m ∈ members, ∃ e ∈ cap.entries, m = (e.1, .arr (e.2.map fun v =>
      .str (Utf8.sanitize v))) := by
    intro m hm
    rw [hp.mem_iff, ← henc] at hm
    obtain ⟨e, he, rfl⟩ := List.mem_map.mp hm
    have hname := hcap e.1 (List.mem_keys_of_mem he)
    rw [Utf8.sanitize_of_ascii (ascii_of_token hname.1)]
    exact ⟨e, he, rfl⟩
  have hvalue : ∀ m ∈ members, stringsOf m.2 =
      .ok (((cap.lookup m.1).getD []).map Utf8.sanitize) := by
    intro m hm
    obtain ⟨e, he, rfl⟩ := hmem m hm
    rw [stringsOf_encoded, AList.mem_lookup_iff.mpr he]
    rfl
  obtain ⟨stored, hstored, hlook⟩ := @lookup_foldlM_insert members
    (fun k => ((cap.lookup k).getD []).map Utf8.sanitize) ∅ hvalue
  have hkeys : ∀ k, k ∈ members.map Prod.fst ↔ k ∈ cap := by
    intro k
    constructor
    · rintro hk
      obtain ⟨m, hm, rfl⟩ := List.mem_map.mp hk
      obtain ⟨e, he, rfl⟩ := hmem m hm
      exact List.mem_keys_of_mem he
    · intro hk
      obtain ⟨vs, hvs⟩ := Option.isSome_iff_exists.mp (AList.lookup_isSome.mpr hk)
      have hent : (⟨k, vs⟩ : Sigma fun _ : Bytes => List Bytes) ∈ cap.entries :=
        AList.mem_lookup_iff.mp hvs
      have hin :
          (Utf8.sanitize k, Json.arr (vs.map fun v => .str (Utf8.sanitize v))) ∈ members := by
        rw [hp.mem_iff, ← henc]
        exact List.mem_map.mpr ⟨_, hent, rfl⟩
      rw [Utf8.sanitize_of_ascii (ascii_of_token (hcap k hk).1)] at hin
      exact List.mem_map.mpr ⟨_, hin, rfl⟩
  have hstoredLook : ∀ k, stored.lookup k = (cap.lookup k).map (List.map Utf8.sanitize) := by
    intro k
    rw [hlook]
    by_cases hk : k ∈ cap
    · obtain ⟨vs, hvs⟩ := Option.isSome_iff_exists.mp (AList.lookup_isSome.mpr hk)
      simp [hkeys, hk, hvs]
    · rw [if_neg (mt (hkeys k).mp hk), AList.lookup_eq_none.mpr hk]
      rfl
  have hcanon : Canonical stored := by
    intro k hk
    rw [← AList.lookup_isSome, hstoredLook, Option.isSome_map, AList.lookup_isSome] at hk
    exact hcap k hk
  refine ⟨captureReplayHeaders stored, ?_, canonical_captureReplayHeaders hcanon, fun k => ?_⟩
  · simp only [decodeReplayHeaders, unmarshalHeaders, hstored]
  · rw [lookup_captureReplayHeaders hcanon, hstoredLook, hcapdef, lookup_captureReplayHeaders hc]
    cases h.lookup k with
    | none => rfl
    | some vs => by_cases hv : keptName (toLower k) ∧ vs ≠ [] <;> simp [captured, hv]

end Storage

end KiteRail.Mcp
