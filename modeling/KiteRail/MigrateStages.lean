import KiteRail.Migrate

/-! What concurrent migrations preserve. The database is always at a stage of the newest
release: its first files have run, in order, and are listed. A transaction that has written
holds the advisory lock, so nobody else moves the stage under it. -/
namespace KiteRail.Migrations
open Bytes Prog

section Releases
variable {r : Release} {fleet : ℕ → Release} {k n : ℕ} {name : Bytes}

/-- The migrations of a release, in the order they run. -/
def Release.order (r : Release) : List Bytes := sortMigrations r.names

def Release.content (r : Release) (name : Bytes) : Bytes := (r.readFile name).getD []

lemma Release.names_nodup (r : Release) : r.names.Nodup :=
  r.nodup.sublist (List.filter_sublist.map _)

lemma Release.order_nodup (r : Release) : r.order.Nodup :=
  (sortMigrations_perm r.names).nodup_iff.mpr r.names_nodup

lemma Release.readFile_of_mem (h : name ∈ r.names) : r.readFile name = some (r.content name) := by
  obtain ⟨e, he, rfl⟩ := List.mem_map.mp h
  obtain ⟨hmem, hfile⟩ := List.mem_filter.mp he
  have hsome : (r.entries.find? fun f => !f.isDir && f.name == e.name).isSome := by
    apply List.find?_isSome.mpr
    exact ⟨e, hmem, by simp [(Bool.and_eq_true_iff.mp hfile).1]⟩
  obtain ⟨f, hf⟩ := Option.isSome_iff_exists.mp hsome
  simp [Release.content, Release.readFile, hf]

lemma Upgrades.order_succ (h : Upgrades fleet) (k : ℕ) :
    (fleet k).order <+: (fleet (k + 1)).order := by
  have hperm : (fleet (k + 1)).names.Perm
      ((fleet k).names ++ (fleet (k + 1)).names.filter (· ∉ (fleet k).names)) := by
    apply (List.perm_ext_iff_of_nodup (fleet (k + 1)).names_nodup ?_).mpr
    · intro name
      have hkeeps := h.keeps k name
      grind
    · have hnew := (fleet (k + 1)).names_nodup.filter (· ∉ (fleet k).names)
      exact List.nodup_append.mpr ⟨(fleet k).names_nodup, hnew, by grind⟩
  rw [Release.order, Release.order, sortMigrations_congr hperm, sortMigrations_append]
  · exact List.prefix_append _ _
  · intro old hold name hname
    obtain ⟨hmem, hnew⟩ := List.mem_filter.mp hname
    exact h.after k name hmem (by simpa using hnew) old hold

lemma Upgrades.order_le (h : Upgrades fleet) (hk : k ≤ n) :
    (fleet k).order <+: (fleet n).order := by
  induction n, hk using Nat.le_induction with
  | base => exact List.prefix_rfl
  | succ n _ ih => exact ih.trans (h.order_succ n)

lemma Upgrades.content_le (h : Upgrades fleet) (hk : k ≤ n) (hname : name ∈ (fleet k).names) :
    name ∈ (fleet n).names ∧ (fleet n).content name = (fleet k).content name := by
  induction n, hk using Nat.le_induction with
  | base => exact ⟨hname, rfl⟩
  | succ n _ ih =>
    obtain ⟨hmem, hread⟩ := h.keeps n name ih.1
    exact ⟨hmem, (congrArg (Option.getD · []) hread).trans ih.2⟩

end Releases

/-- What a history ends at: the scripts' meaning, the database it started from and the newest
release in it. -/
structure Plan (σ : Type) where
  run : Bytes → Base σ → Except GoError σ
  schema : σ
  newest : Release

namespace Plan
variable {σ : Type} (P : Plan σ)

def applyFile (b : Base σ) (name : Bytes) : Except GoError (Base σ) :=
  (P.run (P.newest.content name) b).map fun schema => (b.scripted name schema).recorded name

def install (names : List Bytes) (b : Base σ) : Except GoError (Base σ) :=
  names.foldlM P.applyFile b

/-- The database after the first `n` files of the newest release. -/
def Stage (n : ℕ) (b : Base σ) : Prop :=
  n ≤ P.newest.order.length ∧
    P.install (P.newest.order.take n) (Base.empty P.schema).created = .ok b

variable {P} {b b' : Base σ} {n : ℕ} {name : Bytes} {names : List Bytes}

lemma applyFile_eq_ok : P.applyFile b name = .ok b' ↔ ∃ schema,
    P.run (P.newest.content name) b = .ok schema ∧ b' = (b.scripted name schema).recorded name := by
  unfold applyFile
  cases P.run (P.newest.content name) b with
  | error err => simp [Except.map]
  | ok schema => simp [Except.map, eq_comm]

lemma install_cons : P.install (name :: names) b = P.applyFile b name >>= P.install names := rfl

lemma install_append (xs ys : List Bytes) :
    P.install (xs ++ ys) b = P.install xs b >>= P.install ys := List.foldlM_append

/-- What ran is listed, in the order it ran. -/
lemma install_lists (h : P.install names b = .ok b') :
    b'.ran = b.ran ++ names ∧ b'.versions = b.versions.map (· ++ names) := by
  induction names generalizing b with
  | nil =>
    cases h
    simp
  | cons name names ih =>
    rw [install_cons] at h
    cases happly : P.applyFile b name with
    | error err =>
      rw [happly] at h
      cases h
    | ok mid =>
      obtain ⟨schema, -, rfl⟩ := applyFile_eq_ok.mp happly
      rw [happly] at h
      obtain ⟨hran, hversions⟩ := ih h
      rw [hran, hversions]
      simp [Base.recorded, Base.scripted, Function.comp_def]

lemma Stage.ran (h : P.Stage n b) : b.ran = P.newest.order.take n := (install_lists h.2).1

lemma Stage.versions (h : P.Stage n b) : b.versions = some (P.newest.order.take n) :=
  (install_lists h.2).2

lemma Stage.length_ran (h : P.Stage n b) : b.ran.length = n := by
  rw [h.ran, List.length_take, min_eq_left h.1]

lemma Stage.zero : P.Stage 0 (Base.empty P.schema).created := ⟨Nat.zero_le _, rfl⟩

lemma Stage.next {schema : σ} (h : P.Stage n b) (hname : P.newest.order[n]? = some name)
    (hrun : P.run (P.newest.content name) b = .ok schema) :
    P.Stage (n + 1) ((b.scripted name schema).recorded name) := by
  obtain ⟨hlt, -⟩ := List.getElem?_eq_some_iff.mp hname
  refine ⟨hlt, ?_⟩
  rw [List.take_add_one, hname, install_append, h.2]
  change P.install [name] b = _
  rw [install_cons, applyFile_eq_ok.mpr ⟨schema, hrun, rfl⟩]
  rfl

end Plan

namespace Server
variable {σ : Type} {s s' : Server σ} {t u : ℕ} {w : Base σ} {x : Tx σ}

@[simp] lemma setTx_base : (s.setTx t x).base = s.base := rfl
@[simp] lemma setTx_lock : (s.setTx t x).lock = s.lock := rfl
@[simp] lemma setTx_commits : (s.setTx t x).commits = s.commits := rfl
@[simp] lemma setTx_lost : (s.setTx t x).lost = s.lost := rfl
@[simp] lemma setTx_tx_self : (s.setTx t x).tx t = x := by simp [setTx]
@[simp] lemma setTx_tx_ne (h : t ≠ u) : (s.setTx t x).tx u = s.tx u := by
  simp [setTx, Function.update_of_ne (Ne.symm h)]

@[simp] lemma aborted_base : (s.aborted t).base = s.base := rfl
@[simp] lemma aborted_lock : (s.aborted t).lock = s.released t := rfl
@[simp] lemma aborted_commits : (s.aborted t).commits = s.commits := rfl
@[simp] lemma aborted_lost : (s.aborted t).lost = s.lost := rfl
@[simp] lemma aborted_tx_self : (s.aborted t).tx t = .none := setTx_tx_self
@[simp] lemma aborted_tx_ne (h : t ≠ u) : (s.aborted t).tx u = s.tx u := setTx_tx_ne h

@[simp] lemma committed_base : (s.committed t w).base = w := rfl
@[simp] lemma committed_lock : (s.committed t w).lock = s.released t := rfl
@[simp] lemma committed_commits : (s.committed t w).commits = t :: s.commits := rfl
@[simp] lemma committed_lost : (s.committed t w).lost = s.lost := rfl
@[simp] lemma committed_tx_self : (s.committed t w).tx t = .none := setTx_tx_self
@[simp] lemma committed_tx_ne (h : t ≠ u) : (s.committed t w).tx u = s.tx u := setTx_tx_ne h

@[simp] lemma unsettled_base : (s.unsettled t w).base = s.base := rfl
@[simp] lemma unsettled_lock : (s.unsettled t w).lock = s.lock := rfl
@[simp] lemma unsettled_commits : (s.unsettled t w).commits = s.commits := rfl
@[simp] lemma unsettled_lost : (s.unsettled t w).lost = t :: s.lost := rfl
@[simp] lemma unsettled_tx_self : (s.unsettled t w).tx t = .closing w := setTx_tx_self
@[simp] lemma unsettled_tx_ne (h : t ≠ u) : (s.unsettled t w).tx u = s.tx u := setTx_tx_ne h

lemma released_of_ne (h : s.lock = some u) (hn : t ≠ u) : s.released t = some u := by
  simp [released, h, Ne.symm hn]

end Server
end KiteRail.Migrations
