/-
  What an attempt does with its decision: whom it pays and whom it punishes.

  A finished attempt hands its agreed hash to the settlement rail whether or not the decision is
  verified, and books penalties and fines per answer although the nodes behind the answers need not
  be distinct. Each of the two expectations a reader has of this step (only a verified hash locks an
  escrow; nobody is punished whose answer was right, not attributable or an honest decline) holds
  exactly under the condition its theorem states.
-/
import Duckton.Node.Acceptance
import Duckton.Node.Verification

namespace Duckton.Node

open Duckton.Proto Duckton.Trust Duckton.Settlement
open Duckton.Ton (WalletAddress)

/-! ## Paying -/

/-- `settle_paid_job` got as far as calling `open_escrow_with_terms`. -/
def SettleReport.reachedRail : SettleReport → Bool
  | .notDue | .feeRecipientRefused => false
  | .openFailed _ | .notCovered _ _ | .settleFailed _ _ | .sent _ _ => true

/-- A paid job, economics on, a rail wired, and no misconfigured fee recipient. -/
def Payer.settles (p : Payer) (cfg : GridConfig) (paid : Bool) : Bool :=
  paid && cfg.economicsEnabled && p.settlement.isSome && p.feeRecipientAccepted

theorem release_reachedRail (p : Payer) (cfg : GridConfig) (req : SettleRequest) (rail : TonRail)
    (handle : EscrowHandle) : (p.release cfg req rail handle).reachedRail = true := by
  unfold Payer.release
  dsimp only
  split
  · rfl
  · split <;> rfl

/-- Nothing that `settle_paid_job` looks at before the rail depends on the outcome. -/
theorem settlePaidJob_reachedRail (p : Payer) (sha256 : Bytes → BitVec 256) (cfg : GridConfig)
    (paid : Bool) (req : SettleRequest) :
    (p.settlePaidJob sha256 cfg paid req).reachedRail = p.settles cfg paid := by
  unfold Payer.settlePaidJob Payer.settles
  cases hdue : paid && cfg.economicsEnabled with
  | false => rfl
  | true =>
    cases hrail : p.settlement with
    | none => rfl
    | some rail =>
      cases haccepted : p.feeRecipientAccepted with
      | false => rfl
      | true =>
        simp only [Bool.not_true, Bool.false_eq_true, if_false]
        split
        · rfl
        · exact release_reachedRail p cfg req rail _

section Settle

variable {co : Coordinator} {cfg : GridConfig} {job : Job} {net : Network} {c : Collection}

variable {agreed : String} {verified : Bool} {req : SettleRequest}

theorem conclude_settle {w : InFlight} {losers : List InFlight}
    (h : (co.conclude cfg job net c agreed verified w losers).settle = some req) :
    ∃ rs, co.transfer cfg net c w = some rs ∧ req.agreedHash = agreed := by
  unfold Coordinator.conclude at h
  cases ht : co.transfer cfg net c w with
  | none => simp [ht] at h
  | some rs =>
    simp only [ht, Option.some.injEq] at h
    exact ⟨rs, rfl, by rw [← h]⟩

/-- A settlement is asked for by finished attempts, and locks what they agreed on. -/
theorem dispatchAttempt_settle (h : (co.dispatchAttempt cfg job net).settle = some req) :
    ∃ c verified, co.gather cfg job net = .ok c ∧
      co.decision cfg c = .agreed req.agreedHash verified ∧
      co.Delivers cfg net c req.agreedHash := by
  cases hg : co.gather cfg job net with
  | error e =>
    unfold Coordinator.dispatchAttempt at h
    rw [hg] at h
    cases e <;> cases h
  | ok c =>
    rw [dispatchAttempt_of_gather hg] at h
    rcases judge_cases co cfg job net c with
      ⟨r, receipts, hj, _⟩ | ⟨a, v, i, w, hd, hi, hw, hj⟩
    · rw [hj] at h
      cases h
    · rw [hj] at h
      obtain ⟨rs, hrs, hhash⟩ := conclude_settle h
      rw [hhash]
      exact ⟨c, v, rfl, hd, w, ⟨i, hi, hw⟩, rs, hrs⟩

theorem settle_of_delivers (hg : co.gather cfg job net = .ok c)
    (hd : co.decision cfg c = .agreed agreed verified) (hdel : co.Delivers cfg net c agreed) :
    ∃ req o, (co.dispatchAttempt cfg job net).settle = some req ∧ req.agreedHash = agreed ∧
      (co.dispatchAttempt cfg job net).outcome = some o ∧ o.verified = verified := by
  obtain ⟨w, hw, rs, hrs⟩ := hdel
  obtain ⟨o, ho, _, _, hver⟩ := dispatchAttempt_of_delivered hg hd hw hrs
  obtain ⟨i, hi, hwi⟩ := hw
  have hsettle : ∃ req, (co.dispatchAttempt cfg job net).settle = some req ∧
      req.agreedHash = agreed := by
    rw [dispatchAttempt_of_agreed hg hd hi hwi]
    unfold Coordinator.conclude
    simp only [hrs]
    exact ⟨_, rfl, rfl⟩
  obtain ⟨req, hreq, hhash⟩ := hsettle
  exact ⟨req, o, hreq, hhash, ho, hver⟩

/-- The attempt goes by the fastest commit `f`: the query cannot be verified, or the mode is
    fast. -/
def Coordinator.TakesFastest (co : Coordinator) (cfg : GridConfig) (c : Collection)
    (f : InFlight) : Prop :=
  co.canaryExpected = none ∧ (co.fpOutcome cfg c).drifted = 0 ∧
    (co.nonVerifiable cfg = true ∨ cfg.scheduler.verifyMode = .fast) ∧
    fastest c.inflight = some f

/-- `h` and no other hash was committed by the quorum. -/
def Collection.OnlyReached (c : Collection) (cfg : GridConfig) (h : String) : Prop :=
  c.Reached cfg h ∧ ∀ h', c.Reached cfg h' → h' = h

theorem decision_of_takesFastest {f : InFlight} (h : co.TakesFastest cfg c f) :
    co.decision cfg c = .agreed f.hash
      (!co.nonVerifiable cfg && (co.fpOutcome cfg c).pinned.reached) := by
  obtain ⟨hcanary, hdrift, hmode, hf⟩ := h
  rw [decision_eq_agreed_iff hcanary]
  cases hnv : co.nonVerifiable cfg with
  | true => simp [hdrift, hf]
  | false =>
    have hfast : cfg.scheduler.verifyMode = .fast := hmode.resolve_left (by simp [hnv])
    simp [hdrift, hf, hfast]

/-- Whatever is agreed on without taking the fastest commit is vouched for by the canary or by the
    quorum. -/
theorem agreed_backed (hq : 1 ≤ cfg.scheduler.quorum)
    (hd : co.decision cfg c = .agreed agreed verified) :
    (verified = true ∧ (co.canaryExpected = some agreed ∨ c.Reached cfg agreed)) ∨
      ∃ f, co.TakesFastest cfg c f ∧ f.hash = agreed := by
  cases hcanary : co.canaryExpected with
  | some expected =>
    simp only [Coordinator.decision, hcanary, Decision.agreed.injEq] at hd
    exact .inl ⟨hd.2.symm, .inl (by rw [hd.1])⟩
  | none =>
    have hd' := (decision_eq_agreed_iff hcanary).mp hd
    cases hnv : co.nonVerifiable cfg with
    | true =>
      rw [if_pos hnv] at hd'
      obtain ⟨hdrift, _, f, hf, hhash⟩ := hd'
      exact .inr ⟨f, ⟨hcanary, hdrift, .inl hnv, hf⟩, hhash⟩
    | false =>
      rw [hnv, if_neg Bool.false_ne_true] at hd'
      cases hmode : cfg.scheduler.verifyMode with
      | quorum =>
        rw [hmode] at hd'
        exact .inl ⟨hd'.2.2.2, .inr (agreed_reached hcanary hq hmode hnv hd)⟩
      | fast =>
        rw [hmode] at hd'
        obtain ⟨hdrift, _, f, hf, hhash⟩ := hd'
        exact .inr ⟨f, ⟨hcanary, hdrift, .inr hmode, hf⟩, hhash⟩

/-- An escrow is opened for verified outcomes only, and locked with a hash that the canary or the
    quorum stands behind, exactly when the job is not settled at all or every fastest commit that is
    taken and delivered is on a verifiable query and is the one hash of the quorum. -/
theorem escrow_for_verified_only_iff (p : Payer) (sha256 : Bytes → BitVec 256) (co : Coordinator)
    (cfg : GridConfig) (job : Job) (net : Network) (hq : 1 ≤ cfg.scheduler.quorum) :
    (∀ req ∈ (co.dispatchAttempt cfg job net).settle,
      (p.settlePaidJob sha256 cfg job.paid req).reachedRail = true →
      ∃ c o, co.gather cfg job net = .ok c ∧
        (co.dispatchAttempt cfg job net).outcome = some o ∧ o.verified = true ∧
        (co.canaryExpected = some req.agreedHash ∨ c.Reached cfg req.agreedHash)) ↔
    (p.settles cfg job.paid = true → ∀ c f, co.gather cfg job net = .ok c →
      co.TakesFastest cfg c f → co.Delivers cfg net c f.hash →
      co.nonVerifiable cfg = false ∧ c.OnlyReached cfg f.hash) := by
  simp only [settlePaidJob_reachedRail]
  constructor
  · intro h hsettles c f hg hfast hdel
    obtain ⟨req, o, hreq, hhash, ho, hver⟩ :=
      settle_of_delivers hg (decision_of_takesFastest hfast) hdel
    obtain ⟨c', o', hg', ho', hver', hbacked⟩ := h req hreq hsettles
    rw [ho, Option.some.injEq] at ho'
    rw [hg, Except.ok.injEq] at hg'
    subst ho' hg'
    rw [hver'] at hver
    have hflags := (Bool.and_eq_true _ _).mp hver.symm
    obtain ⟨h', hunique⟩ := (pinned_reached_iff hq hfast.2.1).mp hflags.2
    have hreached : c.Reached cfg f.hash := by
      rw [← hhash]
      refine hbacked.resolve_left fun hc => ?_
      rw [hfast.1] at hc
      cases hc
    refine ⟨by simpa using hflags.1, hreached, fun k hk => ?_⟩
    rw [hunique.2 k hk, hunique.2 f.hash hreached]
  · intro h req hreq hsettles
    obtain ⟨c, v, hg, hd, hdel⟩ := dispatchAttempt_settle hreq
    obtain ⟨req', o, hreq', _, ho, hver⟩ := settle_of_delivers hg hd hdel
    refine ⟨c, o, hg, ho, ?_⟩
    rcases agreed_backed hq hd with ⟨hv, hbacked⟩ | ⟨f, hfast, hhash⟩
    · exact ⟨hver.trans hv, hbacked⟩
    · obtain ⟨hnv, honly⟩ := h hsettles c f hg hfast (by rw [hhash]; exact hdel)
      have hd' := decision_of_takesFastest hfast
      have hreached := (pinned_reached_iff hq hfast.2.1).mpr ⟨f.hash, honly⟩
      rw [hd, hnv, hreached, Decision.agreed.injEq] at hd'
      exact ⟨hver.trans hd'.2, .inr (by rw [hd'.1]; exact honly.1)⟩

end Settle

def paidJob : Job :=
  { plainJob with paid := true }

/-- Two replicas, both needed for the quorum, in fast mode. -/
def paidFastConfig : GridConfig :=
  { paidConfig with scheduler := ⟨2, 2, .fast, false⟩ }

/-- Two workers of one mind: the fast attempt is settled, and it is verified. -/
theorem agreeing_fast_attempt_settled_verified :
    (∃ req ∈ (plainCoordinator.dispatchAttempt paidFastConfig paidJob agreeingNetwork).settle,
      ((demoPayer eachBound).settlePaidJob Ton.foldDigest paidFastConfig true
        req).message.isSome = true) ∧
    ∀ req ∈ (plainCoordinator.dispatchAttempt paidFastConfig paidJob agreeingNetwork).settle,
      ((demoPayer eachBound).settlePaidJob Ton.foldDigest paidFastConfig paidJob.paid
        req).reachedRail = true →
      ∃ c o, plainCoordinator.gather paidFastConfig paidJob agreeingNetwork = .ok c ∧
        (plainCoordinator.dispatchAttempt paidFastConfig paidJob agreeingNetwork).outcome =
          some o ∧ o.verified = true ∧
        (plainCoordinator.canaryExpected = some req.agreedHash ∨
          c.Reached paidFastConfig req.agreedHash) := by
  refine ⟨by decide +kernel, ?_⟩
  refine (escrow_for_verified_only_iff (demoPayer eachBound) Ton.foldDigest plainCoordinator
    paidFastConfig paidJob agreeingNetwork (by decide)).mpr fun _ c f hg hfast _ => ⟨rfl, ?_⟩
  obtain ⟨c', hc', hall, hreached⟩ :
      ∃ c ∈ (plainCoordinator.gather paidFastConfig paidJob agreeingNetwork).toOption,
      (∀ g ∈ c.inflight, g.hash = "y") ∧ c.Reached paidFastConfig "y" := by
    decide
  have hcc : c' = c := Except.ok.inj ((gather_of_mem_toOption hc').symm.trans hg)
  subst hcc
  rw [hall f (List.argmin_mem hfast.2.2.2)]
  refine ⟨hreached, fun h' hr' => ?_⟩
  obtain ⟨g, hgm, rfl⟩ := List.mem_map.mp (mem_of_reaches (by decide) hr')
  exact hall g hgm

/-- Two workers with different results. -/
def disagreeingNetwork : Network :=
  plainNetwork [.new (some ⟨"b3:a"⟩) "10.0.0.1:7070", .new (some ⟨"b3:b"⟩) "10.0.0.2:7070"]
    [⟨"b3:a"⟩, ⟨"b3:b"⟩]
    [commitOf "x" 5 :: inlineTransfer oneCellJson, [commitOf "y" 9]]

/-- The fast attempt is not verified and no hash reached the quorum of two, yet an escrow is opened
    on the hash of the faster worker and settled. -/
theorem unverified_result_settled :
    ∃ req ∈ (plainCoordinator.dispatchAttempt paidFastConfig paidJob disagreeingNetwork).settle,
      ((demoPayer eachBound).settlePaidJob Ton.foldDigest paidFastConfig true
        req).message.isSome = true ∧
      (∃ o ∈ (plainCoordinator.dispatchAttempt paidFastConfig paidJob disagreeingNetwork).outcome,
        o.verified = false) ∧
      plainCoordinator.canaryExpected = none ∧
      ∃ c ∈ (plainCoordinator.gather paidFastConfig paidJob disagreeingNetwork).toOption,
        ¬ c.Reached paidFastConfig req.agreedHash := by
  decide +kernel

/-! ## Punishing -/

/-- `n` gave the attempt an answer to blame: a commit of another hash on the pinned inputs or on an
    unpinned job, silence, or a failure that is the provider's own. -/
def Coordinator.AtFault (co : Coordinator) (c : Collection) (agreed : String) (n : NodeId) : Prop :=
  (∃ f ∈ c.inflight, f.worker = n ∧ f.hash ≠ agreed ∧ co.attributable f = true) ∨ n ∈ c.silent ∨
    ∃ x ∈ c.failed, x.1 = n ∧ x.2.1.isProviderFault = true

/-- `n` gave it an answer not to blame: a commit of the agreed hash, a commit on a pinned job under
    a different or empty fingerprint, or a failure that is the job's or nobody's. -/
def Coordinator.Cleared (co : Coordinator) (c : Collection) (agreed : String) (n : NodeId) : Prop :=
  (∃ f ∈ c.inflight, f.worker = n ∧ (f.hash = agreed ∨ co.attributable f = false)) ∨
    ∃ x ∈ c.failed, x.1 = n ∧ x.2.1.isProviderFault = false

/-- Penalized in the trust store, or fined. -/
def AttemptReport.punished (report : AttemptReport) : List NodeId :=
  report.penalized ++ report.fined

/-- The attempt has a punishment to give: a penalty above zero, or a fine on a paid job that was
    delivered, with a stake registry wired. -/
def Coordinator.Punishes (co : Coordinator) (cfg : GridConfig) (job : Job) (net : Network)
    (c : Collection) (agreed : String) : Prop :=
  F64.zero.lt co.providerPenalty = true ∨
    (co.Delivers cfg net c agreed ∧ job.paid = true ∧ cfg.economicsEnabled = true ∧
      co.stakeOf.isSome = true)

section Punish

variable {co : Coordinator} {cfg : GridConfig} {job : Job} {net : Network} {c : Collection}
  {agreed : String} {n : NodeId}

/-- The workers of the receipts with a provider fault. -/
def faulted (receipts : List Receipt) : List NodeId :=
  (receipts.filter fun r => r.verdict.isProviderFault).map Receipt.worker

theorem winnerVerdict_isProviderFault (co : Coordinator) (cfg : GridConfig) (delivered : Bool) :
    (co.winnerVerdict cfg delivered).isProviderFault = false := by
  unfold Coordinator.winnerVerdict
  split_ifs <;> rfl

theorem loserVerdict_isProviderFault (f : InFlight) :
    (co.loserVerdict cfg agreed f).isProviderFault =
      decide (co.loserVerdict cfg agreed f = .incorrect) := by
  unfold Coordinator.loserVerdict
  split_ifs <;> rfl

/-- What a verified attempt blames: wrong attributable commits, silence and provider failures. -/
theorem mem_faulted_iff {i : Nat} {w : InFlight} (hnv : co.nonVerifiable cfg = false)
    (hi : winnerIdx c.inflight agreed = some i) (hw : c.inflight[i]? = some w) (delivered : Bool) :
    n ∈ faulted ((w.receipt (co.winnerVerdict cfg delivered) ::
        (swapRemove c.inflight i).map fun f => f.receipt (co.loserVerdict cfg agreed f)) ++
      co.shortfallReceipts c) ↔ co.AtFault c agreed n := by
  have hlosers : (∃ f ∈ swapRemove c.inflight i,
      (co.loserVerdict cfg agreed f).isProviderFault = true ∧ f.worker = n) ↔
      ∃ f ∈ c.inflight, f.worker = n ∧ f.hash ≠ agreed ∧ co.attributable f = true := by
    refine exists_congr fun f => ?_
    rw [loserVerdict_isProviderFault, decide_eq_true_iff, loserVerdict_eq_incorrect_iff]
    constructor
    · rintro ⟨hf, ⟨_, hne, hattr⟩, hworker⟩
      exact ⟨(mem_losers_iff hi hw hne).mp hf, hworker, hne, hattr⟩
    · rintro ⟨hf, hworker, hne, hattr⟩
      exact ⟨(mem_losers_iff hi hw hne).mpr hf, ⟨hnv, hne, hattr⟩, hworker⟩
  unfold faulted Coordinator.AtFault
  rw [← hlosers]
  simp only [Coordinator.shortfallReceipts, List.mem_map, List.mem_filter, List.mem_append,
    List.mem_cons, InFlight.receipt]
  constructor
  · rintro ⟨r, ⟨(rfl | ⟨f, hf, rfl⟩) | (⟨m, hm, rfl⟩ | ⟨x, hx, rfl⟩), hfault⟩, rfl⟩
    · rw [winnerVerdict_isProviderFault] at hfault
      cases hfault
    · exact .inl ⟨f, hf, hfault, rfl⟩
    · exact .inr (.inl hm)
    · exact .inr (.inr ⟨x, hx, rfl, hfault⟩)
  · rintro (⟨f, hf, hfault, rfl⟩ | hm | ⟨x, hx, rfl, hfault⟩)
    · exact ⟨_, ⟨.inl (.inr ⟨f, hf, rfl⟩), hfault⟩, rfl⟩
    · exact ⟨_, ⟨.inr (.inl ⟨n, hm, rfl⟩), rfl⟩, rfl⟩
    · exact ⟨_, ⟨.inr (.inr ⟨x, hx, rfl⟩), hfault⟩, rfl⟩

theorem conclude_penalized (verified : Bool) (w : InFlight) (losers : List InFlight) :
    (co.conclude cfg job net c agreed verified w losers).penalized =
      if F64.zero.lt co.providerPenalty then
        faulted (co.conclude cfg job net c agreed verified w losers).receipts
      else [] := by
  unfold Coordinator.conclude
  cases co.transfer cfg net c w <;> rfl

/-- The broken commitments of a verified attempt are its provider faults. -/
theorem conclude_commitmentFailers (w : InFlight) (losers : List InFlight) :
    (co.conclude cfg job net c agreed true w losers).commitmentFailers =
      faulted (co.conclude cfg job net c agreed true w losers).receipts := by
  have hcommitted : ∀ delivered : Bool,
      ((w.receipt (co.winnerVerdict cfg delivered) ::
        losers.map fun f => f.receipt (co.loserVerdict cfg agreed f)).filter
          fun r => decide (r.verdict = .incorrect)) =
      (w.receipt (co.winnerVerdict cfg delivered) ::
        losers.map fun f => f.receipt (co.loserVerdict cfg agreed f)).filter
          fun r => r.verdict.isProviderFault := by
    intro delivered
    refine List.filter_congr fun r hr => ?_
    rcases List.mem_cons.mp hr with rfl | hr
    · have hne := winnerVerdict_ne_incorrect co cfg delivered
      have hblameless := winnerVerdict_isProviderFault co cfg delivered
      simp [InFlight.receipt, hne, hblameless]
    · obtain ⟨f, _, rfl⟩ := List.mem_map.mp hr
      exact (loserVerdict_isProviderFault f).symm
  unfold faulted Coordinator.conclude
  cases co.transfer cfg net c w <;>
    simp only [if_true, hcommitted, List.filter_append]

theorem conclude_fined (w : InFlight) (losers : List InFlight) :
    (co.conclude cfg job net c agreed true w losers).fined =
      if (co.transfer cfg net c w).isSome && job.paid && cfg.economicsEnabled &&
          co.stakeOf.isSome then
        faulted (co.conclude cfg job net c agreed true w losers).receipts
      else [] := by
  rw [← conclude_commitmentFailers]
  unfold Coordinator.conclude
  cases co.transfer cfg net c w <;> simp

/-- Nobody is punished when the query cannot be verified. -/
theorem punished_nonVerifiable (hnv : co.nonVerifiable cfg = true) (w : InFlight)
    (losers : List InFlight) :
    (co.conclude cfg job net c agreed false w losers).punished = [] := by
  have hfaulted : faulted (co.conclude cfg job net c agreed false w losers).receipts = [] := by
    rw [conclude_receipts]
    simp [faulted, InFlight.receipt, Coordinator.winnerVerdict, Coordinator.loserVerdict, hnv,
      Verdict.isProviderFault]
  have hfined : (co.conclude cfg job net c agreed false w losers).fined = [] := by
    unfold Coordinator.conclude
    cases co.transfer cfg net c w <;> rfl
  unfold AttemptReport.punished
  rw [conclude_penalized, hfaulted, hfined]
  simp

/-- A verified attempt that has a punishment to give gives it to whoever is at fault. -/
theorem mem_punished_conclude {i : Nat} {w : InFlight} (hnv : co.nonVerifiable cfg = false)
    (hi : winnerIdx c.inflight agreed = some i) (hw : c.inflight[i]? = some w) :
    n ∈ (co.conclude cfg job net c agreed true w (swapRemove c.inflight i)).punished ↔
      co.Punishes cfg job net c agreed ∧ co.AtFault c agreed n := by
  have hfaulted : n ∈ faulted
      (co.conclude cfg job net c agreed true w (swapRemove c.inflight i)).receipts ↔
      co.AtFault c agreed n := by
    rw [conclude_receipts, if_pos rfl]
    exact mem_faulted_iff hnv hi hw _
  have hdelivers : co.Delivers cfg net c agreed ↔ (co.transfer cfg net c w).isSome = true := by
    rw [Option.isSome_iff_exists]
    refine ⟨fun ⟨w', hw', hrows⟩ => ?_, fun hrows => ⟨w, ⟨i, hi, hw⟩, hrows⟩⟩
    rwa [← hw'.unique ⟨i, hi, hw⟩]
  unfold AttemptReport.punished Coordinator.Punishes
  rw [conclude_penalized, conclude_fined, List.mem_append, hdelivers]
  split_ifs with hpenalty hfine <;> simp_all

/-- Exactly who an attempt in quorum mode punishes. -/
theorem mem_punished_iff (hcanary : co.canaryExpected = none)
    (hmode : cfg.scheduler.verifyMode = .quorum) (hq : 1 ≤ cfg.scheduler.quorum) :
    n ∈ (co.dispatchAttempt cfg job net).punished ↔ ∃ c agreed,
      co.gather cfg job net = .ok c ∧ co.decision cfg c = .agreed agreed true ∧
      co.Punishes cfg job net c agreed ∧ co.AtFault c agreed n := by
  constructor
  · intro hn
    cases hg : co.gather cfg job net with
    | error e =>
      unfold Coordinator.dispatchAttempt at hn
      rw [hg] at hn
      cases e <;> cases hn
    | ok c =>
      rw [dispatchAttempt_of_gather hg] at hn
      rcases judge_cases co cfg job net c with
        ⟨r, receipts, hj, _⟩ | ⟨a, v, i, w, hd, hi, hw, hj⟩
      · rw [hj] at hn
        cases hn
      · rw [hj] at hn
        cases hnv : co.nonVerifiable cfg with
        | true =>
          rw [decision_not_verified hcanary hnv hd, punished_nonVerifiable hnv] at hn
          cases hn
        | false =>
          have hv : v = true := by
            have hd' := (decision_eq_agreed_iff hcanary).mp hd
            rw [hnv, if_neg Bool.false_ne_true, hmode] at hd'
            exact hd'.2.2.2
          subst hv
          exact ⟨c, a, rfl, hd, (mem_punished_conclude hnv hi hw).mp hn⟩
  · rintro ⟨c, agreed, hg, hd, hpunishes, hfault⟩
    have hnv := nonVerifiable_eq_false hcanary hd
    have hreached := agreed_reached hcanary hq hmode hnv hd
    obtain ⟨f, hf, hhash⟩ := List.mem_map.mp (mem_of_reaches hq hreached)
    obtain ⟨i, hi⟩ := winnerIdx_isSome hf hhash
    obtain ⟨w, hw, _⟩ := winnerIdx_spec hi
    rw [dispatchAttempt_of_agreed hg hd hi hw]
    exact (mem_punished_conclude hnv hi hw).mpr ⟨hpunishes, hfault⟩

/-- In quorum mode without a canary: everybody punished is at fault in an attempt that reached the
    quorum, and nobody punished also gave an answer that is not to blame, exactly when no node of an
    attempt with a punishment to give has answers of both kinds. -/
theorem blame_is_sound_iff (co : Coordinator) (cfg : GridConfig) (job : Job) (net : Network)
    (hcanary : co.canaryExpected = none) (hmode : cfg.scheduler.verifyMode = .quorum)
    (hq : 1 ≤ cfg.scheduler.quorum) :
    (∀ n ∈ (co.dispatchAttempt cfg job net).punished,
      ∃ c agreed, co.gather cfg job net = .ok c ∧ co.decision cfg c = .agreed agreed true ∧
        c.Reached cfg agreed ∧ co.AtFault c agreed n ∧ ¬ co.Cleared c agreed n) ↔
    ∀ c agreed, co.gather cfg job net = .ok c → co.decision cfg c = .agreed agreed true →
      co.Punishes cfg job net c agreed → ∀ n, co.AtFault c agreed n → ¬ co.Cleared c agreed n := by
  constructor
  · intro h c agreed hg hd hpunishes n hfault
    obtain ⟨c', agreed', hg', hd', _, _, hclear⟩ := h n
      ((mem_punished_iff hcanary hmode hq).mpr ⟨c, agreed, hg, hd, hpunishes, hfault⟩)
    rw [hg, Except.ok.injEq] at hg'
    subst hg'
    rw [hd, Decision.agreed.injEq] at hd'
    rw [hd'.1]
    exact hclear
  · intro h n hn
    obtain ⟨c, agreed, hg, hd, hpunishes, hfault⟩ := (mem_punished_iff hcanary hmode hq).mp hn
    have hnv := nonVerifiable_eq_false hcanary hd
    exact ⟨c, agreed, hg, hd, agreed_reached hcanary hq hmode hnv hd, hfault,
      h c agreed hg hd hpunishes n hfault⟩

/-- A node that was dispatched to once has one answer. -/
theorem not_cleared_of_distinct (hg : co.gather cfg job net = .ok c) (hdistinct : c.selected.Nodup)
    (hfault : co.AtFault c agreed n) : ¬ co.Cleared c agreed n := by
  obtain ⟨_, _, _, _, rfl⟩ := gather_eq_ok_iff.mp hg
  have hone : ∀ x ∈ collected net (co.picked cfg job net),
      ∀ y ∈ collected net (co.picked cfg job net), x.worker = y.worker → x = y := by
    refine List.inj_on_of_nodup_map ?_
    rw [map_worker_collected]
    exact hdistinct
  rintro (⟨g, hg', rfl, hclear⟩ | ⟨y, hy, rfl, _⟩)
  · have hg' := mem_inflight.mp hg'
    rcases hfault with ⟨f, hf, hworker, hne, hattr⟩ | hsilent | ⟨x, hx, hworker, _⟩
    · cases hone _ (mem_inflight.mp hf) _ hg' hworker
      rcases hclear with hclear | hclear
      · exact hne hclear
      · rw [hattr] at hclear
        cases hclear
    · cases hone _ (mem_silent.mp hsilent) _ hg' rfl
    · cases hone _ (mem_failed.mp hx).1 _ hg' hworker
  · have hy' := (mem_failed.mp hy).1
    rcases hfault with ⟨f, hf, hworker, _⟩ | hsilent | ⟨x, hx, _, hprovider⟩
    · cases hone _ (mem_inflight.mp hf) _ hy' hworker
    · cases hone _ (mem_silent.mp hsilent) _ hy' rfl
    · rw [(mem_failed.mp hx).2, classifyFailure_blameless] at hprovider
      cases hprovider

end Punish

/-- A coordinator that penalizes. -/
def strictCoordinator : Coordinator :=
  { plainCoordinator with providerPenalty := F64.one }

/-- Two workers agree and one stands alone: only that one is punished, and rightly. -/
theorem lone_worker_blamed :
    (strictCoordinator.dispatchAttempt (plainConfig .quorum 3 2) plainJob
      outvotedNetwork).punished = [⟨"b3:a"⟩] ∧
    ∀ n ∈ (strictCoordinator.dispatchAttempt (plainConfig .quorum 3 2) plainJob
        outvotedNetwork).punished,
      ∃ c agreed, strictCoordinator.gather (plainConfig .quorum 3 2) plainJob outvotedNetwork =
          .ok c ∧
        strictCoordinator.decision (plainConfig .quorum 3 2) c = .agreed agreed true ∧
        c.Reached (plainConfig .quorum 3 2) agreed ∧ strictCoordinator.AtFault c agreed n ∧
        ¬ strictCoordinator.Cleared c agreed n := by
  refine ⟨by decide, (blame_is_sound_iff strictCoordinator (plainConfig .quorum 3 2) plainJob
    outvotedNetwork rfl rfl (by decide)).mpr ?_⟩
  intro c agreed hg _ _ n hfault
  obtain ⟨c', hc', hdistinct⟩ : ∃ c ∈ (strictCoordinator.gather (plainConfig .quorum 3 2) plainJob
      outvotedNetwork).toOption, c.selected.Nodup := by
    decide
  have hcc : c' = c := Except.ok.inj ((gather_of_mem_toOption hc').symm.trans hg)
  subst hcc
  exact not_cleared_of_distinct hg hdistinct hfault

/-- One peer answers at two addresses, and is silent at the second. -/
def twoFacedNetwork : Network :=
  plainNetwork [.new none "10.0.0.1:7070", .new none "10.0.0.2:7070",
      .new (some ⟨"b3:b"⟩) "10.0.0.3:7070"]
    [⟨"b3:a"⟩, ⟨"b3:a"⟩, ⟨"b3:b"⟩]
    [commitOf "y" 5 :: inlineTransfer oneCellJson, [], [commitOf "y" 9]]

/-- It is penalized although it committed the agreed hash and delivered the result. -/
theorem winner_penalized_for_second_address :
    ∃ n ∈ (strictCoordinator.dispatchAttempt (plainConfig .quorum 3 2) plainJob
        twoFacedNetwork).punished,
      ∃ o ∈ (strictCoordinator.dispatchAttempt (plainConfig .quorum 3 2) plainJob
        twoFacedNetwork).outcome, o.verified = true ∧ o.winner = some n ∧
      ∃ c ∈ (strictCoordinator.gather (plainConfig .quorum 3 2) plainJob
        twoFacedNetwork).toOption,
        ∃ f ∈ c.inflight, f.worker = n ∧ o.agreedHash = some f.hash := by
  decide

end Duckton.Node
