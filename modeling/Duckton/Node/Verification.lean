/-
  What an attempt's verified flag and verdicts rest on.

  A requester reads three guarantees into `verified`: that the rows hash to the agreed hash,
  that the agreed hash is the quorum's (and a provider is blamed only against one), and that the
  quorum is one of distinct nodes. Each holds exactly under the condition its theorem states.
-/
import Duckton.Node.Attempt

namespace Duckton.Node

open Duckton.Proto Duckton.Trust

/-! ## The rows behind a verified outcome -/

/-- What `f` would deliver, if it were downloaded from, hashes to what it committed. -/
def Coordinator.StreamsItsCommit (co : Coordinator) (blake3 : Bytes → Bytes) (cfg : GridConfig)
    (net : Network) (c : Collection) (f : InFlight) : Prop :=
  ∀ rs, co.transfer cfg net c f = some rs → canonicalHash blake3 rs = f.hash

/-- A verified outcome's rows hash to its agreed hash exactly when the worker it downloads from,
    the fastest of those that committed the agreed hash, streams what it committed. The coordinator
    itself compares nothing. -/
theorem verified_rows_hash_iff (co : Coordinator) (blake3 : Bytes → Bytes) (cfg : GridConfig)
    (job : Job) (net : Network) :
    (∀ o ∈ (co.dispatchAttempt cfg job net).outcome, o.verified = true →
      o.agreedHash = some (canonicalHash blake3 o.result)) ↔
    ∀ c agreed w, co.gather cfg job net = .ok c → co.decision cfg c = .agreed agreed true →
      IsWinner c.inflight agreed w → co.StreamsItsCommit blake3 cfg net c w := by
  constructor
  · intro h c agreed w hg hd hw rs hrs
    obtain ⟨o, ho, hrs', hag, hver⟩ := dispatchAttempt_of_delivered hg hd hw hrs
    have hhash := h o ho hver
    rw [hag, hrs', Option.some.injEq] at hhash
    rw [← hhash, hw.hash_eq]
  · intro h o ho hver
    obtain ⟨c, agreed, w, hg, hd, hw, hrs, hag⟩ := dispatchAttempt_done ho
    rw [hver] at hd
    have hhash := h c agreed w hg hd hw o.result hrs
    rw [hag, hhash, hw.hash_eq]

/-- Both workers commit the hash of one result; the faster one then streams another. -/
def forgingNetwork : Network :=
  plainNetwork [.new (some ⟨"b3:a"⟩) "10.0.0.1:7070", .new (some ⟨"b3:b"⟩) "10.0.0.2:7070"]
    [⟨"b3:a"⟩, ⟨"b3:b"⟩]
    [commitOf (canonicalHash id (oneCell 1)) 5 :: inlineTransfer oneCellJson,
     [commitOf (canonicalHash id (oneCell 1)) 9]]

/-- Already with a hash that never collides, rows nobody committed to come back as verified. -/
theorem forged_rows_reported_verified :
    ∃ o ∈ (plainCoordinator.dispatchAttempt (plainConfig .quorum 2 2) plainJob
        forgingNetwork).outcome,
      o.verified = true ∧ o.agreedHash ≠ some (canonicalHash id o.result) := by
  decide +kernel

/-! ## The quorum behind a verified outcome and behind a blame -/

variable {co : Coordinator} {cfg : GridConfig} {agreed : String}

theorem classified_ne_incorrect {job : Job} {net : Network} {c : Collection}
    (hg : co.gather cfg job net = .ok c) {f : NodeId × Verdict × String} (hf : f ∈ c.failed) :
    f.2.1 ≠ .incorrect := by
  obtain ⟨_, _, _, _, rfl⟩ := gather_eq_ok_iff.mp hg
  have hblameless := classifyFailure_blameless f.2.2
  rw [← (mem_failed.mp hf).2] at hblameless
  intro h
  rw [h] at hblameless
  cases hblameless

theorem loserVerdict_eq_incorrect_iff {f : InFlight} :
    co.loserVerdict cfg agreed f = .incorrect ↔
      co.nonVerifiable cfg = false ∧ f.hash ≠ agreed ∧ co.attributable f = true := by
  unfold Coordinator.loserVerdict
  split_ifs <;> simp_all

theorem winnerVerdict_ne_incorrect (co : Coordinator) (cfg : GridConfig) (delivered : Bool) :
    co.winnerVerdict cfg delivered ≠ .incorrect := by
  unfold Coordinator.winnerVerdict
  split_ifs <;> decide

/-- The Incorrect receipts of a concluded attempt are those of the commits that differ from the
    agreed hash and were made on the pinned inputs. -/
theorem forall_incorrect_receipt_iff {job : Job} {net : Network} {c : Collection}
    {verified : Bool} {i : Nat} {w : InFlight} (hg : co.gather cfg job net = .ok c)
    (hd : co.decision cfg c = .agreed agreed verified) (hi : winnerIdx c.inflight agreed = some i)
    (hw : c.inflight[i]? = some w) (P : String → Prop) :
    (∀ r ∈ (co.dispatchAttempt cfg job net).receipts, r.verdict = .incorrect → P r.resultHash) ↔
      ∀ g ∈ c.inflight, co.nonVerifiable cfg = false → g.hash ≠ agreed →
        co.attributable g = true → P g.hash := by
  rw [dispatchAttempt_of_agreed hg hd hi hw,
    conclude_receipts]
  constructor
  · intro h g hmem hnv hne hattr
    have hg' : g ∈ swapRemove c.inflight i := (mem_losers_iff hi hw hne).mpr hmem
    refine h (g.receipt (co.loserVerdict cfg agreed g)) ?_
      (loserVerdict_eq_incorrect_iff.mpr ⟨hnv, hne, hattr⟩)
    exact List.mem_append_left _ (List.mem_cons_of_mem _ (List.mem_map_of_mem hg'))
  · intro h r hr hinc
    rcases List.mem_append.mp hr with hr | hr
    · rcases List.mem_cons.mp hr with rfl | hr
      · exact absurd hinc (winnerVerdict_ne_incorrect co cfg _)
      · obtain ⟨g, hgl, rfl⟩ := List.mem_map.mp hr
        obtain ⟨hnv, hne, hattr⟩ := loserVerdict_eq_incorrect_iff.mp hinc
        exact h g (mem_of_mem_swapRemove hgl) hnv hne hattr
    · -- workers that never committed time out or carry a blameless failure
      split_ifs at hr
      · rcases List.mem_append.mp hr with hr | hr
        · obtain ⟨n, _, rfl⟩ := List.mem_map.mp hr
          cases hinc
        · obtain ⟨f, hf, rfl⟩ := List.mem_map.mp hr
          exact absurd hinc (classified_ne_incorrect hg hf)
      · cases hr

/-- `h` was committed by the configured quorum. -/
def Collection.Reached (c : Collection) (cfg : GridConfig) (h : String) : Prop :=
  Reaches c.hashes cfg.scheduler.quorum h

instance (c : Collection) (cfg : GridConfig) : DecidablePred (c.Reached cfg) :=
  fun h => inferInstanceAs (Decidable (Reaches c.hashes cfg.scheduler.quorum h))

/-- `h` was committed by a worker that can be held to it. -/
def Coordinator.Accountable (co : Coordinator) (c : Collection) (h : String) : Prop :=
  ∃ g ∈ c.inflight, co.attributable g = true ∧ g.hash = h

/-- The worker that is downloaded from delivers. -/
def Coordinator.Delivers (co : Coordinator) (cfg : GridConfig) (net : Network) (c : Collection)
    (agreed : String) : Prop :=
  ∃ w, IsWinner c.inflight agreed w ∧ ∃ rs, co.transfer cfg net c w = some rs

/-- When fast mode's choice of the hash `a` of the fastest commit does no harm: `a` reached the
    quorum; or several hashes did, so nothing is verified; or none did and every accountable
    commit is `a`; or another one did, but nothing is delivered and no accountable worker
    committed it. -/
def Coordinator.FastChoiceSound (co : Coordinator) (cfg : GridConfig) (net : Network)
    (c : Collection) (a : String) : Prop :=
  c.Reached cfg a ∨
  (∃ h h', h ≠ h' ∧ c.Reached cfg h ∧ c.Reached cfg h') ∨
  ((∀ h, ¬ c.Reached cfg h) ∧ ∀ b, co.Accountable c b → b = a) ∨
  (∃ h, c.Reached cfg h ∧ ¬ co.Delivers cfg net c a ∧ ∀ b, co.Accountable c b → b ≠ h)

/-- The propositional core: `R` are the hashes that reached the quorum, `B` the blamable ones. -/
theorem sound_choice_iff {α : Type} (R B : α → Prop) (D : Prop) (a : α) :
    (((∃ h, R h ∧ ∀ h', R h' → h' = h) → D → R a) ∧ ∀ b, B b → b ≠ a → ∃ h, h ≠ b ∧ R h) ↔
    R a ∨ (∃ h h', h ≠ h' ∧ R h ∧ R h') ∨ ((∀ h, ¬ R h) ∧ ∀ b, B b → b = a) ∨
      (∃ h, R h ∧ ¬ D ∧ ∀ b, B b → b ≠ h) := by
  constructor
  · rintro ⟨hver, hblame⟩
    by_cases ha : R a
    · exact .inl ha
    by_cases htwo : ∃ h h', h ≠ h' ∧ R h ∧ R h'
    · exact .inr (.inl htwo)
    by_cases hnone : ∀ h, ¬ R h
    · refine .inr (.inr (.inl ⟨hnone, fun b hb => ?_⟩))
      by_contra hne
      obtain ⟨h, _, hr⟩ := hblame b hb hne
      exact hnone h hr
    · -- exactly one hash reached the quorum, and it is not the chosen one
      push Not at hnone htwo
      obtain ⟨h, hr⟩ := hnone
      have huniq : ∀ h', R h' → h' = h := by
        intro h' hr'
        by_contra hne
        exact htwo h' h hne hr' hr
      refine .inr (.inr (.inr ⟨h, hr, fun hD => ha (hver ⟨h, hr, huniq⟩ hD), fun b hb => ?_⟩))
      rintro rfl
      have hne : b ≠ a := by
        rintro rfl
        exact ha hr
      obtain ⟨h', hne', hr'⟩ := hblame b hb hne
      exact hne' (huniq h' hr')
  · rintro (ha | ⟨h, h', hne, hr, hr'⟩ | ⟨hnone, hall⟩ | ⟨h, hr, hD, hall⟩)
    · exact ⟨fun _ _ => ha, fun b _ hne => ⟨a, hne.symm, ha⟩⟩
    · refine ⟨fun ⟨k, _, huniq⟩ => absurd ((huniq h hr).trans (huniq h' hr').symm) hne,
        fun b _ _ => ?_⟩
      by_cases hb : h = b
      · exact ⟨h', fun hb' => hne (hb.trans hb'.symm), hr'⟩
      · exact ⟨h, hb, hr⟩
    · exact ⟨fun ⟨k, hk, _⟩ => absurd hk (hnone k), fun b hb hne => absurd (hall b hb) hne⟩
    · exact ⟨fun _ hD' => absurd hD' hD, fun b hb _ => ⟨h, fun heq => hall b hb heq.symm, hr⟩⟩

section Quorum

variable {co : Coordinator} {cfg : GridConfig} {job : Job} {net : Network} {c : Collection}

variable {agreed : String} {verified : Bool}

theorem forall_verified_outcome_iff (hg : co.gather cfg job net = .ok c)
    (hd : co.decision cfg c = .agreed agreed verified)
    (P : String → Prop) :
    (∀ o ∈ (co.dispatchAttempt cfg job net).outcome, o.verified = true →
      ∃ h, o.agreedHash = some h ∧ P h) ↔
      (verified = true → co.Delivers cfg net c agreed → P agreed) := by
  constructor
  · rintro h hv ⟨w, hw, rs, hrs⟩
    obtain ⟨o, ho, _, hag, hver⟩ := dispatchAttempt_of_delivered hg hd hw hrs
    obtain ⟨k, hk, hp⟩ := h o ho (hver.trans hv)
    rw [hag, Option.some.injEq] at hk
    rw [hk]
    exact hp
  · intro h o ho hver
    obtain ⟨c', agreed', w, hg', hd', hw, hrs, hag⟩ := dispatchAttempt_done ho
    rw [hg, Except.ok.injEq] at hg'
    subst hg'
    rw [hd, Decision.agreed.injEq] at hd'
    obtain ⟨rfl, rfl⟩ := hd'
    exact ⟨agreed, hag, h hver ⟨w, hw, o.result, hrs⟩⟩

theorem pinned_agreed_iff (hq : 1 ≤ cfg.scheduler.quorum)
    (hdrift : (co.fpOutcome cfg c).drifted = 0) {h : String} :
    (co.fpOutcome cfg c).pinned.agreedHash = some h ↔
      c.Reached cfg h ∧ ∀ h', c.Reached cfg h' → h' = h := by
  rw [fpOutcome_pinned co cfg c hdrift]
  exact evaluateQuorum_agreedHash_iff hq

theorem pinned_reached_iff (hq : 1 ≤ cfg.scheduler.quorum)
    (hdrift : (co.fpOutcome cfg c).drifted = 0) :
    (co.fpOutcome cfg c).pinned.reached = true ↔
      ∃ h, c.Reached cfg h ∧ ∀ h', c.Reached cfg h' → h' = h := by
  unfold QuorumOutcome.reached
  rw [Option.isSome_iff_exists]
  exact exists_congr fun h => pinned_agreed_iff hq hdrift

section

variable (hcanary : co.canaryExpected = none)

include hcanary

/-- Outside fast mode, whatever is agreed on by a verifiable attempt reached the quorum. -/
theorem agreed_reached (hq : 1 ≤ cfg.scheduler.quorum)
    (hmode : cfg.scheduler.verifyMode = .quorum) (hnv : co.nonVerifiable cfg = false)
    (hd : co.decision cfg c = .agreed agreed verified) :
    c.Reached cfg agreed := by
  rw [decision_eq_agreed_iff hcanary, hnv, if_neg Bool.false_ne_true, hmode] at hd
  obtain ⟨hdrift, _, hag, _⟩ := hd
  exact ((pinned_agreed_iff hq hdrift).mp hag).1

/-- In fast mode the hash of the fastest commit is agreed, verified when some hash reached the
    quorum. -/
theorem decision_fast (hmode : cfg.scheduler.verifyMode = .fast)
    (hnv : co.nonVerifiable cfg = false) (hdrift : (co.fpOutcome cfg c).drifted = 0)
    {f : InFlight} (hf : fastest c.inflight = some f) :
    co.decision cfg c = .agreed f.hash (co.fpOutcome cfg c).pinned.reached := by
  rw [decision_eq_agreed_iff hcanary, hnv, if_neg Bool.false_ne_true, hmode]
  exact ⟨hdrift, rfl, f, hf, rfl⟩

/-- A verifiable attempt in fast mode that has a commit to return. -/
def Coordinator.FastAttempt (co : Coordinator) (cfg : GridConfig) (c : Collection)
    (f : InFlight) : Prop :=
  co.nonVerifiable cfg = false ∧ cfg.scheduler.verifyMode = .fast ∧
    (co.fpOutcome cfg c).drifted = 0 ∧ fastest c.inflight = some f

theorem agreed_reached_or_fast (hq : 1 ≤ cfg.scheduler.quorum)
    (hnv : co.nonVerifiable cfg = false) (hd : co.decision cfg c = .agreed agreed verified) :
    c.Reached cfg agreed ∨ ∃ f, co.FastAttempt cfg c f := by
  cases hmode : cfg.scheduler.verifyMode with
  | quorum => exact .inl (agreed_reached hcanary hq hmode hnv hd)
  | fast =>
    rw [decision_eq_agreed_iff hcanary, hnv, if_neg Bool.false_ne_true, hmode] at hd
    obtain ⟨hdrift, _, f, hf, _⟩ := hd
    exact .inr ⟨f, hnv, hmode, hdrift, hf⟩

theorem decision_not_verified (hnv : co.nonVerifiable cfg = true)
    (hd : co.decision cfg c = .agreed agreed verified) :
    verified = false := by
  rw [decision_eq_agreed_iff hcanary, if_pos hnv] at hd
  exact hd.2.1

theorem nonVerifiable_eq_false (hd : co.decision cfg c = .agreed agreed true) :
    co.nonVerifiable cfg = false := by
  by_contra hnv
  cases decision_not_verified hcanary (Bool.not_eq_false _ ▸ hnv) hd

end

/-- Without a canary, `verified` vouches for the agreed hash and Incorrect is given only against
    another hash of the quorum, in every attempt except fast ones whose choice is not sound. -/
theorem verified_and_blame_rest_on_quorum_iff (hg : co.gather cfg job net = .ok c)
    (hcanary : co.canaryExpected = none) (hq : 1 ≤ cfg.scheduler.quorum) :
    ((∀ o ∈ (co.dispatchAttempt cfg job net).outcome, o.verified = true →
        ∃ h, o.agreedHash = some h ∧ c.Reached cfg h) ∧
      (∀ r ∈ (co.dispatchAttempt cfg job net).receipts, r.verdict = .incorrect →
        ∃ h, h ≠ r.resultHash ∧ c.Reached cfg h)) ↔
    ∀ f, co.FastAttempt cfg c f → co.FastChoiceSound cfg net c f.hash := by
  by_cases hfast : ∃ f, co.FastAttempt cfg c f
  · obtain ⟨f, hf⟩ := hfast
    have hone : (∀ g, co.FastAttempt cfg c g → co.FastChoiceSound cfg net c g.hash) ↔
        co.FastChoiceSound cfg net c f.hash := by
      refine ⟨fun h => h f hf, fun h g hfg => ?_⟩
      have heq : g = f := Option.some.inj (hfg.2.2.2.symm.trans hf.2.2.2)
      rw [heq]
      exact h
    obtain ⟨hnv, hmode, hdrift, hfst⟩ := hf
    have hd := decision_fast hcanary hmode hnv hdrift hfst
    have hmem : f ∈ c.inflight := List.argmin_mem hfst
    obtain ⟨i, hi⟩ := winnerIdx_isSome hmem rfl
    obtain ⟨w, hw, _⟩ := winnerIdx_spec hi
    rw [hone, forall_verified_outcome_iff hg hd (c.Reached cfg),
      forall_incorrect_receipt_iff hg hd hi hw fun k => ∃ h, h ≠ k ∧ c.Reached cfg h,
      pinned_reached_iff hq hdrift]
    unfold Coordinator.FastChoiceSound
    rw [← sound_choice_iff (c.Reached cfg) (co.Accountable c) (co.Delivers cfg net c f.hash) f.hash]
    refine and_congr_right fun _ => ⟨?_, ?_⟩
    · rintro h b ⟨g, hgm, hattr, rfl⟩ hne
      exact h g hgm hnv hne hattr
    · intro h g hgm _ hne hattr
      exact h g.hash ⟨g, hgm, hattr, rfl⟩ hne
  · refine ⟨fun _ f hf => absurd ⟨f, hf⟩ hfast, fun _ => ⟨?_, ?_⟩⟩
    · intro o ho hver
      obtain ⟨c', agreed, w, hg', hd, _, _, hag⟩ := dispatchAttempt_done ho
      rw [hg, Except.ok.injEq] at hg'
      subst hg'
      have hnv := nonVerifiable_eq_false hcanary (hver ▸ hd)
      refine ⟨agreed, hag, ?_⟩
      exact (agreed_reached_or_fast hcanary hq hnv hd).resolve_right hfast
    · rcases judge_cases co cfg job net c with
        ⟨_, receipts, hj, _, hne, _⟩ | ⟨agreed, v, i, w, hd, hi, hw, _⟩
      · intro r hr hinc
        rw [dispatchAttempt_of_gather hg, hj] at hr
        exact absurd hinc (hne r hr)
      · rw [forall_incorrect_receipt_iff hg hd hi hw fun k => ∃ h, h ≠ k ∧ c.Reached cfg h]
        intro g _ hnv hne _
        exact ⟨agreed, hne.symm, (agreed_reached_or_fast hcanary hq hnv hd).resolve_right hfast⟩

end Quorum

/-- Two workers that commit the same hash, one after the other. -/
def agreeingNetwork : Network :=
  plainNetwork [.new (some ⟨"b3:a"⟩) "10.0.0.1:7070", .new (some ⟨"b3:b"⟩) "10.0.0.2:7070"]
    [⟨"b3:a"⟩, ⟨"b3:b"⟩]
    [commitOf "y" 5 :: inlineTransfer oneCellJson, [commitOf "y" 9]]

theorem agreeing_fast_attempt_rests_on_quorum :
    ∃ c, plainCoordinator.gather (plainConfig .fast 2 2) plainJob agreeingNetwork = .ok c ∧
      (∀ o ∈ (plainCoordinator.dispatchAttempt (plainConfig .fast 2 2) plainJob
          agreeingNetwork).outcome, o.verified = true →
        ∃ h, o.agreedHash = some h ∧ c.Reached (plainConfig .fast 2 2) h) ∧
      (∀ r ∈ (plainCoordinator.dispatchAttempt (plainConfig .fast 2 2) plainJob
          agreeingNetwork).receipts, r.verdict = .incorrect →
        ∃ h, h ≠ r.resultHash ∧ c.Reached (plainConfig .fast 2 2) h) := by
  obtain ⟨c, hc, hall⟩ : ∃ c ∈ (plainCoordinator.gather (plainConfig .fast 2 2) plainJob
      agreeingNetwork).toOption, ∀ g ∈ c.inflight, c.Reached (plainConfig .fast 2 2) g.hash := by
    decide
  have hg := gather_of_mem_toOption hc
  refine ⟨c, hg, (verified_and_blame_rest_on_quorum_iff hg rfl (by decide)).mpr ?_⟩
  intro f hf
  exact .inl (hall f (List.argmin_mem hf.2.2.2))

/-- The fastest of three workers stands alone against the other two. -/
def outvotedNetwork : Network :=
  plainNetwork [.new (some ⟨"b3:a"⟩) "10.0.0.1:7070", .new (some ⟨"b3:b"⟩) "10.0.0.2:7070",
      .new (some ⟨"b3:c"⟩) "10.0.0.3:7070"]
    [⟨"b3:a"⟩, ⟨"b3:b"⟩, ⟨"b3:c"⟩]
    [commitOf "x" 1 :: inlineTransfer oneCellJson, [commitOf "y" 5], [commitOf "y" 9]]

/-- Fast mode reports the lone hash as verified, and blames the two workers whose common hash is
    the only one that reached the quorum. -/
theorem fast_mode_verifies_outvoted_hash :
    ∃ c ∈ (plainCoordinator.gather (plainConfig .fast 3 2) plainJob outvotedNetwork).toOption,
      (∃ o ∈ (plainCoordinator.dispatchAttempt (plainConfig .fast 3 2) plainJob
          outvotedNetwork).outcome, o.verified = true ∧
        ∀ h ∈ o.agreedHash, ¬ c.Reached (plainConfig .fast 3 2) h) ∧
      (∃ r ∈ (plainCoordinator.dispatchAttempt (plainConfig .fast 3 2) plainJob
          outvotedNetwork).receipts, r.verdict = .incorrect ∧
        ∀ h ∈ c.hashes, c.Reached (plainConfig .fast 3 2) h → h = r.resultHash) := by
  decide

end Duckton.Node
