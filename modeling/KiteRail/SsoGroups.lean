import KiteRail.ConfigDuties
import KiteRail.SsoService

namespace KiteRail.Startup
open Bytes GoStrings

/-- `setListEnv`: the list after a variable with the value `val` was read. -/
def setListEnv (val : Bytes) (dst : List Bytes) : List Bytes :=
  if val = [] then dst else (val.splitOn 44).map trimSpace

/-- What `Load` makes of `ELODEA_OIDC_REVIEWER_GROUPS` and `ELODEA_OIDC_ADMIN_GROUPS`. -/
def Config.withGroups (c : Config) (reviewers admins : Bytes) : Config :=
  { c with
    oidc := { c.oidc with
      reviewerGroups := setListEnv reviewers c.oidc.reviewerGroups
      adminGroups := setListEnv admins c.oidc.adminGroups } }

def blank (item : Bytes) : Bool := allRunes GoUnicode.isSpace item

/-- The value has a blank item; or it is empty, and the list in the file has an empty one. -/
def HasBlank (val : Bytes) (file : List Bytes) : Prop :=
  if val = [] then [] ∈ file else ∃ item ∈ val.splitOn 44, blank item = true

lemma nil_mem_setListEnv {val : Bytes} {file : List Bytes} :
    [] ∈ setListEnv val file ↔ HasBlank val file := by
  unfold setListEnv HasBlank
  split
  · exact Iff.rfl
  · rw [List.mem_map]
    exact exists_congr fun item => and_congr_right fun _ => trimFunc_eq_nil_iff

variable {env : Setting} {c c' : Config}

lemma groups_of_withDefaults {o o' : OIDCConfig} (h : o.withDefaults = .ok o') :
    o'.reviewerGroups = o.reviewerGroups ∧ o'.adminGroups = o.adminGroups := by
  unfold OIDCConfig.withDefaults at h
  split at h
  · obtain rfl := Except.ok.inj h
    exact ⟨rfl, rfl⟩
  · obtain ⟨-, heq⟩ := seq_eq_ok.mp h
    obtain rfl := Except.ok.inj heq
    exact ⟨rfl, rfl⟩

lemma groups_of_validate (h : validate env c = .ok c') :
    c'.oidc.reviewerGroups = c.oidc.reviewerGroups ∧
      c'.oidc.adminGroups = c.oidc.adminGroups := by
  simp only [validate, seq_eq_ok] at h
  obtain ⟨-, -, -, -, -, -, -, -, -, -, -, -, -, hrest⟩ := h
  obtain ⟨o, ho, -, rfl⟩ := complete_eq_ok.mp hrest
  exact groups_of_withDefaults ho

end KiteRail.Startup

namespace KiteRail.Sso
open Bytes Startup
open Proxy (Role)
variable {svc : Service} {claims : Claims} {groups reviewers admins : List Bytes}

/-- One of the groups is a name of the list that is not empty. -/
def Member (groups names : List Bytes) : Prop := ∃ g ∈ groups, g ≠ [] ∧ g ∈ names

/-- A role is given for real groups only: to the members of a group of either list, admin to
those of an admin group. -/
structure FromGroups (svc : Service) (claims : Claims) (groups reviewers admins : List Bytes) :
    Prop where
  granted : (roleFrom svc claims).isSome = true ↔ Member groups admins ∨ Member groups reviewers
  admin : roleFrom svc claims = some .admin ↔ Member groups admins

lemma any_contains_iff {names : List Bytes} :
    groups.any names.contains = true ↔ Member groups names ∨ ([] ∈ groups ∧ [] ∈ names) := by
  simp only [List.any_eq_true, List.contains_iff_mem]
  constructor
  · rintro ⟨g, hg, hname⟩
    by_cases hnil : g = []
    · exact .inr (hnil ▸ ⟨hg, hname⟩)
    · exact .inl ⟨g, hg, hnil, hname⟩
  · rintro (⟨g, hg, -, hname⟩ | ⟨hg, hname⟩)
    · exact ⟨g, hg, hname⟩
    · exact ⟨[], hg, hname⟩

section Roles
variable (hgroups : groupsOf (claims.lookup svc.cfg.groupsClaim) = groups)
  (hreviewers : svc.cfg.reviewerGroups = reviewers) (hadmins : svc.cfg.adminGroups = admins)
include hgroups hreviewers hadmins

lemma roleFrom_isSome_iff : (roleFrom svc claims).isSome = true ↔
    groups.any admins.contains = true ∨ groups.any reviewers.contains = true := by
  unfold roleFrom
  simp only [hgroups, hreviewers, hadmins]
  split
  · simp [*]
  · split <;> simp [*]

lemma roleFrom_eq_admin_iff : roleFrom svc claims = some .admin ↔
    groups.any admins.contains = true := by
  unfold roleFrom
  simp only [hgroups, hreviewers, hadmins]
  split
  · simp [*]
  · split <;> simp [*]

/-- Beside real groups, an empty name in a list and in the claim gives the role of the list. -/
lemma fromGroups_iff : FromGroups svc claims groups reviewers admins ↔
    ([] ∈ groups → ([] ∈ admins → Member groups admins) ∧
      ([] ∈ reviewers → Member groups admins ∨ Member groups reviewers)) := by
  have hsome := roleFrom_isSome_iff hgroups hreviewers hadmins
  have hadmin := roleFrom_eq_admin_iff hgroups hreviewers hadmins
  rw [any_contains_iff, any_contains_iff] at hsome
  rw [any_contains_iff] at hadmin
  constructor
  · rintro ⟨hgranted, honly⟩ hnil
    rw [hsome] at hgranted
    rw [hadmin] at honly
    exact ⟨fun ha => honly.mp (.inr ⟨hnil, ha⟩), fun hr => hgranted.mp (.inr (.inr ⟨hnil, hr⟩))⟩
  · intro h
    refine ⟨hsome.trans ⟨?_, ?_⟩, hadmin.trans ⟨?_, .inl⟩⟩
    · rintro ((ha | ⟨hnil, ha⟩) | (hr | ⟨hnil, hr⟩))
      · exact .inl ha
      · exact .inl ((h hnil).1 ha)
      · exact .inr hr
      · exact (h hnil).2 hr
    · exact Or.imp .inl .inl
    · rintro (ha | ⟨hnil, ha⟩)
      · exact ha
      · exact (h hnil).1 ha

end Roles

/-- Which lists give roles to real groups only. For one user: unless the claim has an empty
string and a list a blank item, the user being in no real group that explains the role. For
all users: exactly if no list has a blank item. -/
theorem roles_from_groups_iff (env : Setting) (parseURL : Bytes → Option ReturnURL)
    (c c' : Config) (reviewers admins : Bytes)
    (h : validate env (c.withGroups reviewers admins) = .ok c')
    (henabled : c'.oidc.enabled = true) :
    let svc := newService env parseURL _ c' h henabled
    let reviewerNames := setListEnv reviewers c.oidc.reviewerGroups
    let adminNames := setListEnv admins c.oidc.adminGroups
    let groups := fun claims : Claims => groupsOf (claims.lookup c'.oidc.groupsClaim)
    (∀ claims, FromGroups svc claims (groups claims) reviewerNames adminNames ↔
      ([] ∈ groups claims →
        (HasBlank admins c.oidc.adminGroups → Member (groups claims) adminNames) ∧
        (HasBlank reviewers c.oidc.reviewerGroups →
          Member (groups claims) adminNames ∨ Member (groups claims) reviewerNames))) ∧
    ((∀ claims, FromGroups svc claims (groups claims) reviewerNames adminNames) ↔
      ¬ HasBlank reviewers c.oidc.reviewerGroups ∧ ¬ HasBlank admins c.oidc.adminGroups) := by
  intro svc reviewerNames adminNames groups
  obtain ⟨hreviewers, hadmins⟩ := groups_of_validate h
  have hone : ∀ claims, FromGroups svc claims (groups claims) reviewerNames adminNames ↔
      ([] ∈ groups claims →
        (HasBlank admins c.oidc.adminGroups → Member (groups claims) adminNames) ∧
        (HasBlank reviewers c.oidc.reviewerGroups →
          Member (groups claims) adminNames ∨ Member (groups claims) reviewerNames)) := by
    intro claims
    rw [← nil_mem_setListEnv, ← nil_mem_setListEnv]
    exact fromGroups_iff rfl hreviewers hadmins
  refine ⟨hone, fun hall => ?_, fun hno claims => ?_⟩
  · -- a user whose groups claim is the empty string is in no real group
    have hclaim : groups (AList.singleton c'.oidc.groupsClaim (.str [])) = [[]] := by
      simp only [groups, ← AList.insert_empty, AList.lookup_insert]
      rfl
    have hnone : ∀ names, ¬ Member [[]] names := by
      rintro names ⟨g, hg, hne, -⟩
      exact hne (List.mem_singleton.mp hg)
    have hempty := (hone (AList.singleton c'.oidc.groupsClaim (.str []))).mp (hall _)
    rw [hclaim] at hempty
    obtain ⟨ha, hr⟩ := hempty (List.mem_singleton.mpr rfl)
    exact ⟨fun hb => (hr hb).elim (hnone _) (hnone _), fun hb => hnone _ (ha hb)⟩
  · exact (hone claims).mpr fun _ => ⟨fun hb => absurd hb hno.2, fun hb => absurd hb hno.1⟩

section Sample

def groupsConfig : Config :=
  { sampleConfig "agent-1" "alice@example.com" with
    allowedOrigins := [lit "https://console.example"]
    oidc := ⟨lit "https://id.example", lit "rail", lit "secret",
      lit "https://rail.example/auth/callback", [], [], [], [], [], [], 0, 0, []⟩ }

/-- A trailing comma in the list of admins makes an admin of a user whose groups claim is the
empty string. -/
theorem blank_group_admin : ∃ c' h henabled,
    let svc := newService sampleSetting (fun _ => none)
      (groupsConfig.withGroups (lit "ops") (lit "root,")) c' h henabled
    let claims : Claims := .singleton (lit "groups") (.str [])
    c'.oidc.groupsClaim = lit "groups" ∧ roleFrom svc claims = some .admin ∧
      ¬ FromGroups svc claims (groupsOf (claims.lookup (lit "groups"))) [lit "ops"]
        [lit "root", []] := by
  refine ⟨_, rfl, rfl, rfl, rfl, fun h => ?_⟩
  obtain ⟨g, hg, hne, -⟩ := h.admin.mp rfl
  exact hne (List.mem_singleton.mp hg)

theorem roles_from_groups_plain : ∃ c' h henabled,
    let svc := newService sampleSetting (fun _ => none)
      (groupsConfig.withGroups (lit "ops, sre") (lit "root")) c' h henabled
    ∀ claims, FromGroups svc claims (groupsOf (claims.lookup c'.oidc.groupsClaim))
      [lit "ops", lit "sre"] [lit "root"] := by
  have hreviewers : ¬ HasBlank (lit "ops, sre") [] := by
    rw [← nil_mem_setListEnv]
    decide
  have hadmins : ¬ HasBlank (lit "root") [] := by
    rw [← nil_mem_setListEnv]
    decide
  refine ⟨_, rfl, rfl, ?_⟩
  exact (roles_from_groups_iff sampleSetting (fun _ => none) groupsConfig _ (lit "ops, sre")
    (lit "root") rfl rfl).2.mpr ⟨hreviewers, hadmins⟩

end Sample

end KiteRail.Sso
