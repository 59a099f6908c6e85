import KiteRail.Effects

/-! The life of one held request, told as the sequence of everything that is ever
committed about it. A life is pending until a reviewer decides; an approved one is
claimed, called at most once per claim, and then replayed, released for another
attempt or parked for the reviewers. -/
namespace KiteRail.Replay

/-- Everything that happens to a held request. -/
inductive Act
  | hold (payload : Bytes)
  | approve (reviewer : Option Bytes)
  | deny
  | claim
  | call
  | replay
  | release
  | park (site : ParkSite)
  deriving DecidableEq

def Act.decides : Act → Bool
  | .approve _ => true
  | .deny => true
  | _ => false

def Act.parks : Act → Bool
  | .park _ => true
  | _ => false

/-- The number of calls since the last approval, after one more act. -/
def Act.tally (calls : ℕ) : Act → ℕ
  | .approve _ => 0
  | .call => calls + 1
  | _ => calls

/-- The stored status, with the claims that have led to a call told apart. -/
inductive Phase
  | pending
  | approved
  | claimed
  | called
  | replayed
  | parked
  | denied
  deriving DecidableEq

def Phase.status : Phase → Status
  | .pending => .pending
  | .approved => .approved
  | .claimed => .replaying
  | .called => .replaying
  | .replayed => .replayed
  | .parked => .replayFailed
  | .denied => .denied

/-- `calls` counts since the last approval, and `reviewer` is who gave it. -/
structure Life where
  phase : Phase
  attempts : ℕ
  calls : ℕ
  reviewer : Option Bytes
  payload : Bytes

/-- What the replicas of a deployment share: the limit, whether all of them write a
ledger, and whether the target of all of them parses. -/
structure Config where
  maxReplayAttempts : ℕ
  ledgered : Prop
  targeted : Prop

inductive Next (cfg : Config) : Option Life → Act → Life → Prop
  | hold (payload : Bytes) : Next cfg none (.hold payload) ⟨.pending, 0, 0, none, payload⟩
  | approve {l : Life} (reviewer : Option Bytes) (h : l.phase = .pending ∨ l.phase = .parked) :
      Next cfg (some l) (.approve reviewer) ⟨.approved, 0, 0, reviewer, l.payload⟩
  | deny {l : Life} (h : l.phase = .pending ∨ l.phase = .parked) :
      Next cfg (some l) .deny { l with phase := .denied }
  | claim {l : Life} (h : l.phase = .approved) :
      Next cfg (some l) .claim { l with phase := .claimed }
  | call {l : Life} (h : l.phase = .claimed) (hm : l.attempts ≤ cfg.maxReplayAttempts) :
      Next cfg (some l) .call { l with phase := .called, calls := l.calls + 1 }
  | replay {l : Life} (h : l.phase = .claimed ∨ l.phase = .called) :
      Next cfg (some l) .replay { l with phase := .replayed, attempts := l.attempts + 1 }
  | release {l : Life} (h : l.phase = .claimed ∨ l.phase = .called) :
      Next cfg (some l) .release { l with phase := .approved, attempts := l.attempts + 1 }
  | park {l : Life} (site : ParkSite) (h : l.phase = .claimed ∨ l.phase = .called)
      (hx : site = .exhausted → cfg.maxReplayAttempts < l.attempts)
      (hf : site = .failed → cfg.targeted → l.phase = .called) :
      Next cfg (some l) (.park site) { l with phase := .parked }

/-- Whole lives, extended at the end. -/
inductive Lives (cfg : Config) : List Act → Option Life → Prop
  | nil : Lives cfg [] none
  | snoc {acts : List Act} {l : Option Life} {a : Act} {l' : Life} :
      Lives cfg acts l → Next cfg l a l' → Lives cfg (acts ++ [a]) (some l')

namespace Lives
variable {cfg : Config} {acts more : List Act} {l : Life} {m : Option Life} {a : Act}

lemma snoc_iff {l' : Life} :
    Lives cfg (acts ++ [a]) (some l') ↔ ∃ l, Lives cfg acts l ∧ Next cfg l a l' := by
  constructor
  · intro h
    generalize hb : acts ++ [a] = bs at h
    cases h with
    | snoc h hn =>
      obtain ⟨rfl, ha⟩ := List.append_inj' hb rfl
      obtain rfl : a = _ := by simpa using ha
      exact ⟨_, h, hn⟩
  · rintro ⟨l, h, hn⟩
    exact .snoc h hn

lemma none_iff : Lives cfg acts none ↔ acts = [] := by
  constructor
  · rintro ⟨⟩
    rfl
  · rintro rfl
    exact .nil

lemma of_append (h : Lives cfg (acts ++ more) m) : ∃ l, Lives cfg acts l := by
  induction more using List.reverseRecOn generalizing m with
  | nil => exact ⟨m, by simpa using h⟩
  | append_singleton more a ih =>
    rw [← List.append_assoc] at h
    cases m with
    | none => simp [none_iff] at h
    | some l =>
      obtain ⟨_, h, -⟩ := snoc_iff.mp h
      exact ih h

lemma next_unique {l₁ l₂ : Life} (h₁ : Next cfg m a l₁) (h₂ : Next cfg m a l₂) : l₁ = l₂ := by
  cases h₁ <;> cases h₂ <;> rfl

/-- A life is determined by its acts. -/
lemma unique {m' : Option Life} (h : Lives cfg acts m) (g : Lives cfg acts m') : m = m' := by
  induction h generalizing m' with
  | nil =>
    cases m' with
    | none => rfl
    | some l =>
      generalize hb : ([] : List Act) = bs at g
      cases g
      simp at hb
  | snoc h hn ih =>
    cases m' with
    | none => simp [none_iff] at g
    | some l =>
      obtain ⟨l₁, g, hn'⟩ := snoc_iff.mp g
      rw [← ih g] at hn'
      rw [next_unique hn hn']

/-- Nothing follows a denial or a successful replay. -/
theorem terminal (h : Lives cfg acts (some l)) (hl : l.phase = .denied ∨ l.phase = .replayed)
    (g : Lives cfg (acts ++ more) m) : more = [] := by
  cases more with
  | nil => rfl
  | cons a more =>
    have g : Lives cfg ((acts ++ [a]) ++ more) m := by simpa using g
    obtain ⟨m', g⟩ := g.of_append
    cases m' with
    | none => simp [none_iff] at g
    | some l' =>
      obtain ⟨l₁, g, hn⟩ := snoc_iff.mp g
      rw [← unique h g] at hn
      rcases hl with hl | hl <;> cases hn <;> simp_all

/-- Induction over the acts after the request was held. -/
lemma invariant {P : List Act → Life → Prop}
    (hhold : ∀ payload, P [.hold payload] ⟨.pending, 0, 0, none, payload⟩)
    (hnext : ∀ acts l a l', Lives cfg acts (some l) → P acts l → Next cfg (some l) a l' →
      P (acts ++ [a]) l') (h : Lives cfg acts (some l)) : P acts l := by
  generalize hm : some l = m at h
  induction h generalizing l with
  | nil => simp at hm
  | @snoc acts m a l' h hn ih =>
    obtain rfl : l = l' := by simpa using hm
    cases m with
    | none =>
      rw [none_iff] at h
      subst h
      cases hn
      exact hhold _
    | some l₁ => exact hnext _ _ _ _ h (ih rfl) hn

/-- A life starts with the request that was held. -/
lemma held (h : Lives cfg acts (some l)) : ∃ rest, acts = .hold l.payload :: rest := by
  refine invariant (P := fun acts l => ∃ rest, acts = .hold l.payload :: rest)
    (fun _ => ⟨[], rfl⟩) ?_ h
  rintro _ l a l' _ ⟨rest, rfl⟩ hn
  have hpayload : l'.payload = l.payload := by cases hn <;> rfl
  exact ⟨rest ++ [a], by rw [hpayload]; rfl⟩

/-- Every attempt but a running one has been counted, and none starts past the
limit. -/
structure Bounded (cfg : Config) (l : Life) : Prop where
  total : l.calls ≤ cfg.maxReplayAttempts + 1
  counted : l.phase = .approved ∨ l.phase = .claimed → l.calls ≤ l.attempts
  running : l.phase = .called → 0 < l.calls ∧ l.calls ≤ l.attempts + 1

theorem bounded (h : Lives cfg acts (some l)) : Bounded cfg l := by
  refine invariant (P := fun _ l => Bounded cfg l) (fun _ => ⟨by simp, by simp, by simp⟩) ?_ h
  intro acts l a l' _ ih hn
  cases hn with
  | approve reviewer hp => exact ⟨by simp, by simp, by simp⟩
  | deny hp => exact ⟨ih.total, by simp, by simp⟩
  | claim hp => exact ⟨ih.total, fun _ => ih.counted (.inl hp), by simp⟩
  | call hp hmax =>
    have hc := ih.counted (.inr hp)
    exact ⟨by simp only; omega, by simp, fun _ => ⟨Nat.succ_pos _, Nat.succ_le_succ hc⟩⟩
  | replay hp => exact ⟨ih.total, by simp, by simp⟩
  | release hp =>
    refine ⟨ih.total, fun _ => ?_, by simp⟩
    rcases hp with hp | hp
    · exact Nat.le_succ_of_le (ih.counted (.inr hp))
    · exact (ih.running hp).2
  | park site hp hx hf => exact ⟨ih.total, by simp, by simp⟩

/-- Reviewers decide once, and once more after each time the entry was parked. -/
theorem decisions_eq (h : Lives cfg acts (some l)) : acts.countP Act.decides =
    acts.countP Act.parks + if l.phase = .pending ∨ l.phase = .parked then 0 else 1 := by
  refine invariant (P := fun acts l => acts.countP Act.decides = acts.countP Act.parks +
    if l.phase = .pending ∨ l.phase = .parked then 0 else 1) (fun _ => rfl) ?_ h
  intro acts l a l' _ ih hn
  rw [List.countP_append, List.countP_append, ih]
  cases hn with
  | approve reviewer hp => simp [hp, Act.decides, Act.parks]
  | deny hp => simp [hp, Act.decides, Act.parks]
  | claim hp => simp [hp, Act.decides, Act.parks]
  | call hp _ => simp [hp, Act.decides, Act.parks]
  | replay hp => rcases hp with hp | hp <;> simp [hp, Act.decides, Act.parks]
  | release hp => rcases hp with hp | hp <;> simp [hp, Act.decides, Act.parks]
  | park site hp _ _ => rcases hp with hp | hp <;> simp [hp, Act.decides, Act.parks]

/-- The last approval, and the calls since. -/
def Approved (acts : List Act) (l : Life) : Prop :=
  ∃ before after, acts = before ++ .approve l.reviewer :: after ∧
    (∀ reviewer, .approve reviewer ∉ after) ∧ l.calls = after.count .call

/-- Either the last approval is known, or there was none. -/
def Undecided (acts : List Act) (l : Life) : Prop :=
  (∀ reviewer, .approve reviewer ∉ acts) ∧ (l.phase = .pending ∨ l.phase = .denied)

lemma Approved.snoc {l' : Life} (h : Approved acts l) (ha : ∀ reviewer, a ≠ .approve reviewer)
    (hr : l'.reviewer = l.reviewer) (hc : l'.calls = l.calls + [a].count .call) :
    Approved (acts ++ [a]) l' := by
  obtain ⟨before, after, rfl, hno, hcalls⟩ := h
  refine ⟨before, after ++ [a], by simp [hr], ?_, by rw [hc, hcalls, List.count_append]⟩
  intro reviewer hmem
  rcases List.mem_append.mp hmem with hmem | hmem
  · exact hno reviewer hmem
  · exact ha reviewer (List.mem_singleton.mp hmem).symm

theorem approved_or_undecided (h : Lives cfg acts (some l)) :
    Approved acts l ∨ Undecided acts l := by
  refine invariant (P := fun acts l => Approved acts l ∨ Undecided acts l)
    (fun _ => .inr ⟨by simp, .inl rfl⟩) ?_ h
  intro acts l a l' _ ih hn
  have happroved : ∀ hp : l.phase ≠ .pending ∧ l.phase ≠ .denied, Approved acts l := fun hp =>
    ih.resolve_right fun hu => hu.2.elim hp.1 hp.2
  cases hn with
  | approve reviewer hp => exact .inl ⟨acts, [], rfl, by simp, rfl⟩
  | deny hp =>
    refine ih.imp (fun h => h.snoc (by simp) rfl rfl) fun h => ⟨?_, .inr rfl⟩
    simpa using h.1
  | claim hp => exact .inl ((happroved (by simp [hp])).snoc (by simp) rfl rfl)
  | call hp _ => exact .inl ((happroved (by simp [hp])).snoc (by simp) rfl rfl)
  | replay hp =>
    exact .inl ((happroved (by rcases hp with hp | hp <;> simp [hp])).snoc (by simp) rfl rfl)
  | release hp =>
    exact .inl ((happroved (by rcases hp with hp | hp <;> simp [hp])).snoc (by simp) rfl rfl)
  | park site hp _ _ =>
    exact .inl ((happroved (by rcases hp with hp | hp <;> simp [hp])).snoc (by simp) rfl rfl)

lemma approved (h : Lives cfg acts (some l)) (hp : l.phase ≠ .pending) (hd : l.phase ≠ .denied) :
    Approved acts l :=
  h.approved_or_undecided.resolve_right fun hu => hu.2.elim hp hd

/-- The last element with a property splits a list in one way. -/
lemma last_unique {α : Type} {p : α → Prop} {xs xs' ys ys' : List α} {x x' : α}
    (h : xs ++ x :: ys = xs' ++ x' :: ys') (hx : p x) (hx' : p x') (hys : ∀ y ∈ ys, ¬ p y)
    (hys' : ∀ y ∈ ys', ¬ p y) : xs = xs' ∧ x = x' ∧ ys = ys' := by
  rcases List.append_eq_append_iff.mp h with ⟨c, rfl, hc⟩ | ⟨c, rfl, hc⟩
  · cases c with
    | nil => simpa using hc
    | cons c cs =>
      obtain ⟨-, rfl⟩ := by simpa using hc
      exact absurd hx' (hys x' (by simp))
  · cases c with
    | nil => simpa [eq_comm] using hc
    | cons c cs =>
      obtain ⟨-, rfl⟩ := by simpa using hc
      exact absurd hx (hys' x (by simp))

/-- The bound on the calls after an approval. -/
theorem calls_since {before after : List Act} {reviewer : Option Bytes} {m : Option Life}
    (h : Lives cfg (before ++ .approve reviewer :: after) m)
    (hno : ∀ reviewer, .approve reviewer ∉ after) :
    after.count .call ≤ cfg.maxReplayAttempts + 1 := by
  cases m with
  | none => simp [none_iff] at h
  | some l =>
    rcases h.approved_or_undecided with ⟨before', after', heq, hno', hcalls⟩ | hu
    · obtain ⟨-, -, rfl⟩ := last_unique (p := fun a => ∃ reviewer, a = Act.approve reviewer) heq
        ⟨_, rfl⟩ ⟨_, rfl⟩ (by rintro _ ha ⟨r, rfl⟩; exact hno r ha)
        (by rintro _ ha ⟨r, rfl⟩; exact hno' r ha)
      exact hcalls ▸ h.bounded.total
    · exact absurd (List.mem_append_right _ (List.mem_cons_self)) (hu.1 reviewer)

lemma tally_eq (h : Lives cfg acts (some l)) : acts.foldl Act.tally 0 = l.calls := by
  refine invariant (P := fun acts l => acts.foldl Act.tally 0 = l.calls) (fun _ => rfl) ?_ h
  intro acts l a l' _ ih hn
  rw [List.foldl_append, ih]
  cases hn <;> rfl

/-- No release without a call uses up the last attempt. -/
def Restrained (cfg : Config) (acts : List Act) : Prop :=
  ∀ before after l, acts = before ++ .release :: after → Lives cfg before (some l) →
    l.calls = 0 → l.attempts < cfg.maxReplayAttempts

lemma Restrained.of_append (h : Restrained cfg (acts ++ more)) : Restrained cfg acts := by
  rintro before after l rfl
  exact h before (after ++ more) l (by simp)

lemma Restrained.snoc (h : Restrained cfg acts) (ha : a = .release → ∀ l, Lives cfg acts (some l) →
    l.calls = 0 → l.attempts < cfg.maxReplayAttempts) : Restrained cfg (acts ++ [a]) := by
  intro before after l heq hl hc
  rcases List.eq_nil_or_concat' after with rfl | ⟨after, b, rfl⟩
  · obtain ⟨rfl, ha'⟩ := List.append_inj' heq rfl
    exact ha (by simpa using ha') l hl hc
  · rw [← List.cons_append, ← List.append_assoc] at heq
    obtain ⟨rfl, -⟩ := List.append_inj' heq rfl
    exact h before after l rfl hl hc

/-- Under that restraint an entry without a call has attempts left. -/
theorem restrained (h : Lives cfg acts (some l)) (hr : Restrained cfg acts)
    (hp : l.phase = .approved ∨ l.phase = .claimed) (hc : l.calls = 0) :
    l.attempts ≤ cfg.maxReplayAttempts := by
  revert hr hp hc
  refine invariant (P := fun acts l => Restrained cfg acts → l.phase = .approved ∨
    l.phase = .claimed → l.calls = 0 → l.attempts ≤ cfg.maxReplayAttempts) (by simp) ?_ h
  intro acts l a l' hl ih hn hr hp hc
  cases hn with
  | approve reviewer _ => exact Nat.zero_le _
  | claim hp' => exact ih hr.of_append (.inl hp') hc
  | release hp' => exact hr acts [] l rfl hl hc
  | deny _ => simp at hp
  | call _ _ => simp at hp
  | replay _ => simp at hp
  | park _ _ _ _ => simp at hp

/-- Past the limit there is no call until the next approval. -/
theorem spent (h : Lives cfg acts (some l)) (hl : cfg.maxReplayAttempts < l.attempts)
    (g : Lives cfg (acts ++ more) m) (hno : ∀ reviewer, .approve reviewer ∉ more) :
    .call ∉ more := by
  suffices hspent : .call ∉ more ∧ ∃ l', m = some l' ∧ cfg.maxReplayAttempts < l'.attempts from
    hspent.1
  induction more using List.reverseRecOn generalizing m with
  | nil => exact ⟨by simp, l, (h.unique (by simpa using g)).symm, hl⟩
  | append_singleton more a ih =>
    rw [← List.append_assoc] at g
    cases m with
    | none => simp [none_iff] at g
    | some l' =>
      obtain ⟨m, g, hn⟩ := snoc_iff.mp g
      obtain ⟨hcall, l₁, rfl, hl₁⟩ := ih g fun reviewer hmem => hno reviewer (by simp [hmem])
      cases hn with
      | approve reviewer _ => exact absurd (by simp) (hno reviewer)
      | call _ hm => exact absurd hl₁ (not_lt.mpr hm)
      | deny _ => exact ⟨by simpa using hcall, _, rfl, hl₁⟩
      | claim _ => exact ⟨by simpa using hcall, _, rfl, hl₁⟩
      | replay _ => exact ⟨by simpa using hcall, _, rfl, Nat.lt_succ_of_lt hl₁⟩
      | release _ => exact ⟨by simpa using hcall, _, rfl, Nat.lt_succ_of_lt hl₁⟩
      | park _ _ _ _ => exact ⟨by simpa using hcall, _, rfl, hl₁⟩

/-- A parked entry that the policy did not block was called since its approval. -/
theorem called_of_park {site : ParkSite} {m : Option Life} (hsite : site ≠ .blocked)
    (ht : cfg.targeted) (h : Lives cfg (acts ++ [.park site]) m) (hr : Restrained cfg acts) :
    ∃ before after reviewer, acts = before ++ .approve reviewer :: after ∧
      (∀ reviewer, .approve reviewer ∉ after) ∧ .call ∈ after := by
  cases m with
  | none => simp [none_iff] at h
  | some l' =>
    obtain ⟨m, hl, hn⟩ := snoc_iff.mp h
    cases hn with
    | @park l _ hp hx hf =>
      have hcalled : 0 < l.calls := by
        rcases hp with hp | hp
        · refine Nat.pos_of_ne_zero fun hc => ?_
          cases site with
          | exhausted => exact absurd (hl.restrained hr (.inr hp) hc) (not_le.mpr (hx rfl))
          | blocked => exact hsite rfl
          | failed => exact absurd (hf rfl ht) (by simp [hp])
        · exact (hl.bounded.running hp).1
      have hphase : l.phase ≠ .pending ∧ l.phase ≠ .denied := by
        rcases hp with hp | hp <;> simp [hp]
      obtain ⟨before, after, rfl, hno, hcalls⟩ := hl.approved hphase.1 hphase.2
      exact ⟨before, after, l.reviewer, rfl, hno, List.count_pos_iff.mp (hcalls ▸ hcalled)⟩

end Lives
end KiteRail.Replay
