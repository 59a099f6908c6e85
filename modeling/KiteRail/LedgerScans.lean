import KiteRail.LedgerHandler

/-! The gate before full scans. Verifications and exports run side by side with each other and
with requests for the head, and any of them may break off at any point. Whatever the database
answers, at most one request is past the gate, the rows are read by no other, and the gate is
shut only while a request that still runs is past it. -/
namespace KiteRail.Ledger
open Bytes Json Prog
open Proxy (Request)

/-- What the requests share. `holder` is the request whose deferred store will open the gate. -/
structure Gate where
  fullScan : Bool
  holder : Option ℕ

inductive DeskAnswer
  | passed
  | rows (answer : RowsAnswer)
  | head (answer : Except GoError GetLedgerHeadRow)
  | written (err : Option GoError)

/-- `CompareAndSwap(false, true)` by the request. -/
def Gate.swap (g : Gate) (t : ℕ) : Bool × Gate :=
  if g.fullScan then (false, g) else (true, ⟨true, some t⟩)

/-- A request that breaks off past the gate still opens it: the store is deferred. -/
def Gate.machine : Machine DeskOp DeskRes Gate DeskAnswer Empty where
  answer ch t op g :=
    match op, ch with
    | .acquireFullScan, .passed => some (g.swap t)
    | .releaseFullScan, .passed => some ((), ⟨false, none⟩)
    | .selectRows _, .rows answer => some (answer, g)
    | .getLedgerHead, .head answer => some (answer, g)
    | .write _, .written err => some (err, g)
    | _, _ => none
  fault f _ := nomatch f
  lose t g := if g.holder = some t then ⟨false, none⟩ else g

inductive DeskCall : DeskProg DeskResponse → Prop
  | handleExport (r : Request) : DeskCall (handleExport r)
  | handleVerify (r : Request) (contentLength : ℤ) : DeskCall (handleVerify r contentLength)
  | handleHead (r : Request) : DeskCall (handleHead r)

abbrev DeskPool := Pool DeskOp DeskRes Gate DeskResponse

section Inside

/-- Whether a step takes the request past the gate, or back from behind it. -/
def passes (t : ℕ) : Label DeskOp DeskRes → Option Bool
  | .act u .acquireFullScan true => if u = t then some true else none
  | .act u .releaseFullScan _ => if u = t then some false else none
  | .lose u => if u = t then some false else none
  | _ => none

/-- The request went past the gate and has not come back or broken off since. -/
def Inside (ls : List (Label DeskOp DeskRes)) (t : ℕ) : Prop :=
  (ls.filterMap (passes t)).getLast? = some true

variable {ls : List (Label DeskOp DeskRes)} {l : Label DeskOp DeskRes} {t : ℕ}

lemma inside_snoc_of_some {b : Bool} (h : passes t l = some b) :
    Inside (ls ++ [l]) t ↔ b = true := by
  simp [Inside, List.filterMap_append, h]

lemma inside_snoc_of_none (h : passes t l = none) : Inside (ls ++ [l]) t ↔ Inside ls t := by
  simp [Inside, List.filterMap_append, h]

end Inside

section Discipline
variable {t u : ℕ} {op : DeskOp} {r : DeskRes op} {g g' : Gate}

def Held (t : ℕ) (g : Gate) : Prop := g.holder = some t

/-- What an operation promises: the others stay where they are, the request moves as its label
says, and the rows are read past the gate only. -/
structure Keeps (t : ℕ) (op : DeskOp) (g : Gate) (r : DeskRes op) (g' : Gate) : Prop where
  others : ∀ u, t ≠ u → (Held u g' ↔ Held u g)
  own : Held t g' ↔ (passes t (.act t op r)).elim (Held t g) (· = true)
  scans : ∀ afterSeq, op = .selectRows afterSeq → Held t g
  refused : passes t (.act t op r) = none → op = .acquireFullScan → g.fullScan = true ∧ ¬ Held t g

lemma lose_held (htu : t ≠ u) : Held u (Gate.machine.semantics.lose t g) ↔ Held u g := by
  simp only [Gate.machine, Machine.semantics, Held]
  split
  next h => simp [h, htu]
  next => rfl

lemma lose_notHeld : ¬ Held t (Gate.machine.semantics.lose t g) := by
  simp only [Gate.machine, Machine.semantics, Held]
  split
  next => simp
  next h => exact h

lemma lose_inv (h : g.fullScan = g.holder.isSome) :
    (Gate.machine.semantics.lose t g).fullScan =
      (Gate.machine.semantics.lose t g).holder.isSome := by
  simp only [Gate.machine, Machine.semantics]
  split
  next => rfl
  next => exact h

def Gate.discipline : Discipline Gate.machine.semantics where
  inv g := g.fullScan = g.holder.isSome
  fresh t g := ¬ Held t g
  guar := Keeps
  rely u g g' := Held u g' ↔ Held u g
  rely_refl _ _ := Iff.rfl
  rely_trans _ _ _ _ h h' := h'.trans h
  rely_guar _ u _ _ _ _ htu _ h := h.others u htu
  rely_env _ _ _ _ h := nomatch h
  rely_lose _ _ _ htu _ := lose_held htu
  fresh_rely _ _ _ h hrel := fun h' => h (hrel.mp h')
  inv_env _ _ _ h := nomatch h
  inv_lose _ _ h := lose_inv h

open Discipline

lemma stable_held : Gate.discipline.Stable t (Held t) := fun _ _ h hrel => hrel.mpr h

lemma stable_notHeld : Gate.discipline.Stable t fun g => ¬ Held t g :=
  fun _ _ h hrel h' => h (hrel.mp h')

end Discipline

section Outline
open Discipline
variable {t : ℕ} {A : Gate → Prop}

def Quiet : DeskOp → Prop
  | .getLedgerHead | .write _ => True
  | _ => False

lemma quiet_exec {op : DeskOp} {g g' : Gate} {r : DeskRes op} (hop : Quiet op)
    (hx : Gate.machine.semantics.exec t op g r g') : g' = g ∧ Keeps t op g r g' := by
  obtain ⟨ch, h⟩ := hx
  cases op with
  | getLedgerHead | write =>
    cases ch <;> simp only [Gate.machine, reduceCtorEq, Option.some.injEq, Prod.mk.injEq] at h
    obtain ⟨rfl, rfl⟩ := h
    exact ⟨rfl, fun _ _ => Iff.rfl, Iff.rfl, by simp, by simp⟩
  | _ => exact hop.elim

lemma holds_quiet {op : DeskOp} (hop : Quiet op) (hA : Gate.discipline.Stable t A) :
    Gate.discipline.Holds t A (perform op) fun _ => A := by
  refine holds_call hA (fun g r g' hinv h hx => ?_) fun _ => holds_ret hA fun _ _ h => h
  obtain ⟨rfl, hkeeps⟩ := quiet_exec hop hx
  exact ⟨hinv, hkeeps, h⟩

lemma holds_write (body : Bytes) (hA : Gate.discipline.Stable t A) :
    Gate.discipline.Holds t A (write body) fun _ => A :=
  holds_quiet trivial hA

lemma holds_selectRows (afterSeq : ℤ) :
    Gate.discipline.Holds t (Held t) (selectRows afterSeq) fun _ => Held t := by
  refine holds_call stable_held (fun g r g' hinv h hx => ?_)
    fun _ => holds_ret stable_held fun _ _ h => h
  obtain ⟨ch, hch⟩ := hx
  cases ch <;> simp only [Gate.machine, reduceCtorEq, Option.some.injEq, Prod.mk.injEq] at hch
  obtain ⟨rfl, rfl⟩ := hch
  exact ⟨hinv, ⟨fun _ _ => Iff.rfl, Iff.rfl, fun _ _ => h, by simp⟩, h⟩

lemma holds_acquireFullScan :
    Gate.discipline.Holds t (fun g => ¬ Held t g) acquireFullScan
      fun ok g => if ok then Held t g else ¬ Held t g := by
  refine holds_call stable_notHeld (C := fun ok g => if ok then Held t g else ¬ Held t g)
    (fun g r g' hinv h hx => ?_) fun ok => ?_
  · obtain ⟨ch, hch⟩ := hx
    cases ch <;> simp only [Gate.machine, reduceCtorEq, Option.some.injEq] at hch
    rw [Gate.swap] at hch
    split at hch
    next hshut =>
      obtain ⟨rfl, rfl⟩ := Prod.mk.inj hch
      exact ⟨hinv, ⟨fun _ _ => Iff.rfl, Iff.rfl, by simp, fun _ _ => ⟨hshut, h⟩⟩, by simpa using h⟩
    next hopen =>
      obtain ⟨rfl, rfl⟩ := Prod.mk.inj hch
      have hfree : g.holder = none := by simpa [hopen] using hinv.symm
      refine ⟨rfl, ⟨fun u htu => ?_, ?_, by simp, ?_⟩, ?_⟩
      · simp [Held, hfree, htu]
      · simp [Held, passes]
      · simp [passes]
      · simp [Held]
  · cases ok with
    | false => exact holds_ret (by simpa using stable_notHeld) fun _ _ h => h
    | true => exact holds_ret (by simpa using stable_held) fun _ _ h => h

lemma holds_releaseFullScan :
    Gate.discipline.Holds t (Held t) releaseFullScan fun _ g => ¬ Held t g := by
  refine holds_call stable_held (fun g r g' hinv h hx => ?_)
    fun _ => holds_ret stable_notHeld fun _ _ h => h
  obtain ⟨ch, hch⟩ := hx
  cases ch <;> simp only [Gate.machine, reduceCtorEq, Option.some.injEq, Prod.mk.injEq] at hch
  obtain ⟨-, rfl⟩ := hch
  have hheld : g.holder = some t := h
  refine ⟨rfl, ⟨fun u htu => ?_, ?_, by simp, by simp⟩, by simp [Held]⟩
  · simp [Held, hheld, htu]
  · simp [Held, passes]

lemma holds_fullScan {scan : DeskProg DeskResponse}
    (hscan : Gate.discipline.Holds t (Held t) scan fun _ => Held t) :
    Gate.discipline.Holds t (fun g => ¬ Held t g) (fullScan scan) fun _ g => ¬ Held t g := by
  refine holds_bind holds_acquireFullScan fun ok => ?_
  cases ok with
  | false => exact holds_ret (by simpa using stable_notHeld) fun _ _ h => by simpa using h
  | true =>
    refine holds_mono (holds_bind hscan fun response => ?_) (fun _ _ h => by simpa using h)
      fun _ _ _ h => h
    exact holds_bind holds_releaseFullScan fun _ => holds_ret stable_notHeld fun _ _ h => h

lemma holds_writeRows (rows : List Ledger) (fin : RowsEnd) :
    Gate.discipline.Holds t (Held t) (writeRows rows fin) fun _ => Held t := by
  induction rows with
  | nil => exact holds_ret stable_held fun _ _ h => h
  | cons entry rows ih =>
    rw [writeRows]
    cases marshalEntry entry with
    | error err => exact holds_ret stable_held fun _ _ h => h
    | ok line =>
      refine holds_bind (holds_write _ stable_held) fun err => ?_
      cases err with
      | none => exact ih
      | some err => exact holds_ret stable_held fun _ _ h => h

lemma holds_streamExport (afterSeq : ℤ) :
    Gate.discipline.Holds t (Held t) (streamExport afterSeq) fun _ => Held t := by
  refine holds_bind (holds_selectRows afterSeq) fun answer => ?_
  cases answer with
  | failed err => exact holds_ret stable_held fun _ _ h => h
  | delivered rows fin => exact holds_writeRows rows fin

lemma holds_sendJSON (v : Except GoError Json) (hA : Gate.discipline.Stable t A) :
    Gate.discipline.Holds t A (sendJSON v) fun _ => A := by
  cases v with
  | error err => exact holds_ret hA fun _ _ h => h
  | ok v => exact holds_bind (holds_write _ hA) fun _ => holds_ret hA fun _ _ h => h

lemma holds_writeReport (verified : VerifyReport × Option GoError)
    (hA : Gate.discipline.Stable t A) :
    Gate.discipline.Holds t A (writeReport verified) fun _ => A := by
  rcases verified with ⟨report, err | err⟩
  · exact holds_sendJSON (.ok report.document) hA
  · exact holds_ret hA fun _ _ h => h

lemma holds_writeHead (head : Except GoError GetLedgerHeadRow)
    (hA : Gate.discipline.Stable t A) :
    Gate.discipline.Holds t A (writeHead head) fun _ => A := by
  cases head with
  | ok head => exact holds_sendJSON _ hA
  | error err =>
    rw [writeHead]
    split
    next => exact holds_sendJSON _ hA
    next => exact holds_ret hA fun _ _ h => h

/-- Every request starts and ends before the gate. -/
lemma deskCall_holds {p : DeskProg DeskResponse} (hp : DeskCall p) :
    Gate.discipline.Holds t (fun g => ¬ Held t g) p fun _ g => ¬ Held t g := by
  have hret : ∀ response : DeskResponse, Gate.discipline.Holds t (fun g => ¬ Held t g)
      (.ret response) fun _ g => ¬ Held t g := fun _ => holds_ret stable_notHeld fun _ _ h => h
  cases hp with
  | handleExport r =>
    rw [handleExport]
    split
    next => exact hret _
    next =>
      split
      next => exact hret _
      next after _ =>
        exact holds_fullScan (holds_bind (holds_streamExport after) fun _ =>
          holds_ret stable_held fun _ _ h => h)
  | handleVerify r contentLength =>
    rw [handleVerify]
    split
    next => exact hret _
    next =>
      split
      next => exact hret _
      next anchor _ =>
        exact holds_fullScan (holds_bind (holds_selectRows 0) fun _ =>
          holds_writeReport _ stable_held)
  | handleHead r =>
    rw [handleHead]
    split
    next => exact hret _
    next =>
      exact holds_bind (holds_quiet trivial stable_notHeld) fun _ =>
        holds_writeHead _ stable_notHeld

end Outline

section Runs
open Discipline
variable {ls : List (Label DeskOp DeskRes)} {l : Label DeskOp DeskRes} {c d : DeskPool}

abbrev Gate.Sound (c : DeskPool) : Prop :=
  Discipline.Sound Gate.discipline (fun t _ g => ¬ Held t g) c

lemma Gate.sound_run (hr : Run Gate.machine.semantics DeskCall (.initial ⟨false, none⟩) ls c) :
    Gate.Sound c := by
  have hinitial : Gate.Sound (.initial ⟨false, none⟩) :=
    Sound.initial rfl fun _ => by simp [Gate.discipline, Held]
  exact hinitial.run (fun _ _ s hp hinv hfresh => deskCall_holds hp s hinv hfresh) hr

lemma held_step (hc : Gate.Sound c) (hs : Step Gate.machine.semantics DeskCall c l d) (t : ℕ) :
    Held t d.shared ↔ (passes t l).elim (Held t c.shared) (· = true) := by
  cases hs with
  | start => simp [passes]
  | @act u op k r s ht hx =>
    have hkeeps := (hc.act ht hx).2.1
    by_cases hut : u = t
    · subst hut
      exact hkeeps.own
    · rw [hkeeps.others t hut]
      have hpasses : passes t (.act u op r) = none := by
        rw [passes.eq_def]
        split <;> simp_all
      simp [hpasses]
  | @lose u op k ht =>
    by_cases hut : u = t
    · subst hut
      simpa [passes] using lose_notHeld (g := c.shared)
    · simpa [passes, hut] using lose_held (g := c.shared) hut
  | env he => exact nomatch he

lemma running_step (hc : Gate.Sound c) (hd : Gate.Sound d)
    (hs : Step Gate.machine.semantics DeskCall c l d)
    (h : ∀ t, Held t c.shared → ∃ op k, c.thread t = some (.call op k)) (t : ℕ)
    (hheld : Held t d.shared) : ∃ op k, d.thread t = some (.call op k) := by
  cases hs with
  | start =>
    obtain ⟨op, k, ht⟩ := h t hheld
    have hne : t ≠ c.next := (hc.threads t _ ht).1.ne
    exact ⟨op, k, by simpa [Function.update_of_ne hne] using ht⟩
  | @act u op k r s hu hx =>
    by_cases hut : t = u
    · subst hut
      -- a request that has ended is not past the gate
      cases hnext : k r with
      | call op' k' => exact ⟨op', k', by simp⟩
      | ret response =>
        have hthread : Function.update c.thread t (some (k r)) t = some (.ret response) := by
          simp [hnext]
        exact absurd hheld ((hd.threads t _ hthread).2 _ (Gate.discipline.rely_refl _ _) hd.inv)
    · obtain ⟨op', k', ht⟩ := h t (((hc.act hu hx).2.1.others t (Ne.symm hut)).mp hheld)
      exact ⟨op', k', by simpa [Function.update_of_ne hut] using ht⟩
  | @lose u op k hu =>
    by_cases hut : t = u
    · subst hut
      exact absurd hheld lose_notHeld
    · obtain ⟨op', k', ht⟩ := h t ((lose_held (Ne.symm hut)).mp hheld)
      exact ⟨op', k', by simpa [Function.update_of_ne hut] using ht⟩
  | env he => exact nomatch he

lemma held_run (hr : Run Gate.machine.semantics DeskCall (.initial ⟨false, none⟩) ls c) (t : ℕ) :
    (Held t c.shared ↔ Inside ls t) ∧
      (Held t c.shared → ∃ op k, c.thread t = some (.call op k)) := by
  induction hr generalizing t with
  | nil => simp [Pool.initial, Held, Inside]
  | snoc hrun hs ih =>
    have hc := Gate.sound_run hrun
    have hd := Gate.sound_run (hrun.snoc hs)
    refine ⟨?_, running_step hc hd hs (fun u => (ih u).2) t⟩
    rw [held_step hc hs t]
    cases hpasses : passes t _ with
    | none => simp [inside_snoc_of_none hpasses, (ih t).1]
    | some b => simp [inside_snoc_of_some hpasses]

/-- In every run of the requests, one of them at most is past the gate, and the flag is set
exactly while one is. It still runs. The rows are read past the gate only, and a request is
turned away only while another one is past it. -/
theorem full_scans_exclusive
    (hr : Run Gate.machine.semantics DeskCall (.initial ⟨false, none⟩) ls c) :
    (∀ t u, Inside ls t → Inside ls u → t = u) ∧
    (c.shared.fullScan = true ↔ ∃ t, Inside ls t) ∧
    (∀ t, Inside ls t → ∃ op k, c.thread t = some (.call op k)) ∧
    ∀ l d, Step Gate.machine.semantics DeskCall c l d →
      (∀ t afterSeq answer, l = .act t (.selectRows afterSeq) answer → Inside ls t) ∧
      ∀ t, l = .act t .acquireFullScan false → ∃ u, u ≠ t ∧ Inside ls u := by
  have hc := Gate.sound_run hr
  have hinside : ∀ t, Inside ls t ↔ Held t c.shared := fun t => (held_run hr t).1.symm
  have hflag : c.shared.fullScan = true ↔ ∃ t, Inside ls t := by
    rw [show c.shared.fullScan = c.shared.holder.isSome from hc.inv, Option.isSome_iff_exists]
    simp only [hinside, Held]
  refine ⟨fun t u ht hu => ?_, hflag, fun t ht => (held_run hr t).2 ((hinside t).mp ht), ?_⟩
  · exact Option.some.inj (((hinside t).mp ht).symm.trans ((hinside u).mp hu))
  · intro l d hs
    constructor
    · rintro t afterSeq answer rfl
      cases hs with
      | act ht hx => exact (hinside t).mpr ((hc.act ht hx).2.1.scans afterSeq rfl)
    · rintro t rfl
      cases hs with
      | act ht hx =>
        obtain ⟨hshut, hnot⟩ := (hc.act ht hx).2.1.refused rfl rfl
        obtain ⟨u, hu⟩ := hflag.mp hshut
        refine ⟨u, ?_, hu⟩
        rintro rfl
        exact hnot ((hinside u).mp hu)

/-- An export goes past the gate and a verification is turned away; the export breaks off, and
the next verification goes past. -/
def overtakenExport : List (Machine.Move DeskOp DeskRes DeskResponse DeskAnswer Empty) :=
  [.start (handleExport (pageRequest "")), .start (handleVerify (pageRequest "") 0),
    .act 0 .passed, .act 1 .passed, .act 0 (.rows (.delivered [] .done)), .lose 0,
    .start (handleVerify (pageRequest "") 0), .act 2 .passed]

theorem full_scans_exclusive_overtaken : ∃ ls c,
    Run Gate.machine.semantics DeskCall (.initial ⟨false, none⟩) ls c ∧
      c.shared.fullScan = true ∧ ∃ t, Inside ls t := by
  have hplay : (Gate.machine.play overtakenExport (.initial ⟨false, none⟩)).map
      (fun c => c.shared.fullScan) = some true := by decide +kernel
  obtain ⟨c, hc, hflag⟩ := Option.map_eq_some_iff.mp hplay
  have hcalls : ∀ p ∈ Machine.starts overtakenExport, DeskCall p := by
    simp only [overtakenExport, Machine.starts, List.filterMap_cons, List.filterMap_nil,
      List.forall_mem_cons, List.not_mem_nil, false_implies, implies_true, and_true]
    exact ⟨.handleExport _, .handleVerify _ _, .handleVerify _ _⟩
  obtain ⟨ls, hr⟩ := Machine.play_run hcalls hc
  exact ⟨ls, c, hr, hflag, (full_scans_exclusive hr).2.1.mp hflag⟩

end Runs

end KiteRail.Ledger
