import KiteRail.NotifyOutline
import KiteRail.QuarantineSafety

namespace KiteRail.Notify
open Bytes Prog Replay Discipline
variable {lib : UuidLib} {s s' : Outbox} {c d : WorkerPool} {t : ℕ} {key : Key}

section Scripts

abbrev Script := List (Machine.Move NotifyOp NotifyRes Unit Reply Disturbance)

def slack : Bytes := lit "slack"

def webhook : Bytes := lit "webhook"

def held (ids : List UUID) : Script :=
  ids.map fun id => .env (.system (.inserted id .ok) 0 (.createQuarantineEntry
    ⟨lit "agent", lit "refund", [], noon, .null, lit "rule", []⟩))

def claiming (t : ℕ) (channels : List Bytes) (keys : List Key) : Script :=
  [.start (processOnce sampleLib (newWorker channels [])), .act t .works,
    .act t (.claims keys none)]

def entering (t : ℕ) : Script := [.act t .works, .act t .works]

def sending (t time : ℕ) : Script := entering t ++ [.env (.tick time), .act t .works]

lemma passes_of_starts {script : Script} (channels : List (List Bytes))
    (h : Machine.starts script =
      channels.map fun names => processOnce sampleLib (newWorker names [])) :
    ∀ p ∈ Machine.starts script, Passes sampleLib p := by
  intro p hp
  rw [h] at hp
  obtain ⟨names, -, rfl⟩ := List.mem_map.mp hp
  exact .pass _

end Scripts

/-- The workers are never inside `Send` for one notification at the same time, as long as
every send begins a timeout before the lease of its row ends. -/
theorem sends_exclusive (lib : UuidLib) (world : World) (ls : List (Label NotifyOp NotifyRes))
    (c : WorkerPool)
    (hr : Run (Outbox.machine lib).semantics (Passes lib) (.initial (Outbox.start world)) ls c)
    (hp : c.shared.punctual = true) :
    ∀ x ∈ c.shared.sends, ∀ y ∈ c.shared.sends, x.key = y.key → x.thread = y.thread := by
  intro x hx y hy hkey
  have hi : Leased c.shared := (sound_run hr).inv
  obtain ⟨hxle, h, hh, hthread, hhkey, hxlt⟩ := hi.inside hp x hx
  obtain ⟨hyle, h', hh', hthread', hhkey', hylt⟩ := hi.inside hp y hy
  have hle := hi.claimed_le h hh
  have hle' := hi.claimed_le h' hh'
  rcases hi.apart hp h hh h' hh' (hhkey.trans (hkey.trans hhkey'.symm)) with rfl | hlt | hlt
  · exact hthread.symm.trans hthread'
  · omega
  · omega

/-- A batch of thirteen rows whose sends take the whole timeout. The lease has ended when
the last send begins, and another replica has claimed the row. -/
def slowBatch : Script :=
  [.env (.deploy [slack])] ++ held ((List.range 13).map (BitVec.ofNat 128)) ++
    claiming 0 [slack] ((List.range 13).map fun n => (BitVec.ofNat 128 n, slack)) ++
    (List.range 12).flatMap (fun _ => sending 0 clientTimeout ++ [.act 0 .works]) ++
    entering 0 ++ claiming 1 [slack] [(12, slack)] ++ entering 1

theorem slow_batch_sends_twice : ∃ ls c x y,
    Run (Outbox.machine sampleLib).semantics (Passes sampleLib)
      (.initial (Outbox.start World.initial)) ls c ∧
    x ∈ c.shared.sends ∧ y ∈ c.shared.sends ∧ x.key = y.key ∧ x.thread ≠ y.thread := by
  have hplay : ((Outbox.machine sampleLib).play slowBatch
      (.initial (Outbox.start World.initial))).map (fun c =>
        c.shared.sends.map fun x => (x.thread, x.key)) =
      some [(1, (12, slack)), (0, (12, slack))] := by
    decide +kernel
  obtain ⟨c, hc, hsends⟩ := Option.map_eq_some_iff.mp hplay
  obtain ⟨x, rest, hx, heq, hrest⟩ := List.map_eq_cons_iff.mp hsends
  obtain ⟨y, rest', rfl, heq', -⟩ := List.map_eq_cons_iff.mp hrest
  obtain ⟨hxt, hxk⟩ := Prod.mk.inj heq
  obtain ⟨hyt, hyk⟩ := Prod.mk.inj heq'
  obtain ⟨ls, hrun⟩ := Machine.play_run (passes_of_starts [[slack], [slack]] rfl) hc
  refine ⟨ls, c, x, y, hrun, ?_, ?_, hxk.trans hyk.symm, ?_⟩
  · simp [hx]
  · simp [hx]
  · simp [hxt, hyt]

/-- Two workers inside `Send`, for two notifications. -/
theorem sends_exclusive_prompt : ∃ ls c,
    Run (Outbox.machine sampleLib).semantics (Passes sampleLib)
      (.initial (Outbox.start World.initial)) ls c ∧ c.shared.punctual = true ∧
    c.shared.sends.length = 2 ∧
    ∀ x ∈ c.shared.sends, ∀ y ∈ c.shared.sends, x.key = y.key → x.thread = y.thread := by
  have hplay : ((Outbox.machine sampleLib).play ([.env (.deploy [slack])] ++ held [1, 2] ++
      claiming 0 [slack] [(1, slack)] ++ entering 0 ++ claiming 1 [slack] [(2, slack)] ++
      entering 1) (.initial (Outbox.start World.initial))).map (fun c =>
        (c.shared.punctual, c.shared.sends.length)) = some (true, 2) := by
    decide +kernel
  obtain ⟨c, hc, hfacts⟩ := Option.map_eq_some_iff.mp hplay
  obtain ⟨hp, hlength⟩ := Prod.mk.inj hfacts
  obtain ⟨ls, hrun⟩ := Machine.play_run (passes_of_starts [[slack], [slack]] rfl) hc
  exact ⟨ls, c, hrun, hp, hlength, sends_exclusive sampleLib _ ls c hrun hp⟩

end KiteRail.Notify
