/-
  The cached on-chain policy and the jobs that use it (node/coordinator.rs, `sync_params_once`,
  the overlay in `dispatch_to_grid` and the terms in `settle_paid_job`).

  A background task replaces the cache whenever a read of the chain succeeds. A paid job looks at the
  cache three times: at dispatch, for the rates it runs under, and twice while it settles, for the
  version and for the fee recipient. Each look takes the lock anew, so a schedule says which
  syncs fall before the dispatch, between dispatch and settlement, and between the last two looks.
-/
import Duckton.Lib.Octets
import Duckton.Node.Acceptance
import Duckton.Settlement.Policy

namespace Duckton.Node

open Duckton.Proto Duckton.Settlement Duckton.Trust
open Duckton.Ton (WalletAddress proj_getD_eq_iff)
open Duckton.Ton.GlobalParams (GlobalParamsStorage deployedParams raiseFee step)

/-! ## The cache -/

/-- `SyncedParamsState`. -/
structure SyncedParams where
  version : UInt32
  policy : Option OnchainPolicy
  deriving DecidableEq, Repr

/-- Why a sync fails; the source wraps either into a settlement error. -/
inductive SyncError where
  | noSource
  | readFailed (e : SettleError)
  deriving DecidableEq, Repr

/-- What the wired source answers to `read_policy`, if one is wired. -/
abbrev SourceRead := Option (Except SettleError OnchainPolicy)

variable (g : SyncedParams)

def SyncedParams.syncParamsOnce : SourceRead → Except SyncError OnchainPolicy × SyncedParams
  | none => (.error .noSource, g)
  | some (.error e) => (.error (.readFailed e), g)
  | some (.ok policy) => (.ok policy, ⟨policy.version, some policy⟩)

/-- `with_params_version` on a new coordinator. -/
def SyncedParams.withParamsVersion (version : UInt32) : SyncedParams :=
  ⟨version, none⟩

def SyncedParams.currentFeeRecipient : Option WalletAddress :=
  g.policy.map OnchainPolicy.feeRecipient

/-- The cache after one sync. -/
def sync (read : SourceRead) : SyncedParams :=
  (g.syncParamsOnce read).2

/-- The policy of a read that succeeded. -/
def SourceRead.policy : SourceRead → Option OnchainPolicy
  | some (.ok policy) => some policy
  | _ => none

/-- The policy of the last read that succeeded. -/
def lastRead : List SourceRead → Option OnchainPolicy
  | [] => none
  | read :: reads => (lastRead reads).or read.policy

/-- Only the last successful read is left in the cache. -/
theorem final_sync (reads : List SourceRead) :
    Run.final sync g reads = ((lastRead reads).map fun p => ⟨p.version, some p⟩).getD g := by
  induction reads generalizing g with
  | nil => rfl
  | cons read reads ih =>
    show Run.final sync (sync g read) reads = _
    rw [ih, lastRead]
    cases lastRead reads with
    | some p => rfl
    | none =>
      cases read with
      | none => rfl
      | some r =>
        cases r with
        | error e | ok p => rfl

/-! ## What a sync caches -/

/-- A read that returns is cached as it is. Over all states the contract passes through
    meanwhile, the cached policy is that of its version just when no update between the calls for a
    field and for the version changed the field. -/
theorem cached_snapshot_iff (net : TonRpc) (s s' : GlobalParamsStorage) (policy : OnchainPolicy)
    (hread : net.readPolicy s = .ok (policy, s')) (g : SyncedParams) :
    g.syncParamsOnce (some ((net.readPolicy s).map Prod.fst)) =
        (.ok policy, ⟨policy.version, some policy⟩) ∧
      (Run.Always step (fun t => t.paramsVersion = policy.version → policy = policyOf t) s
        (net.upTo 7) ↔ net.Undisturbed s) := by
  refine ⟨?_, always_policyOf_iff hread⟩
  rw [hread]
  rfl

/-! ### An update during the reading -/

/-- A reading in which the update is handled right before the call number `k`. -/
def updateBefore (k : Nat) : TonRpc where
  before i := if i = k then [raiseFee] else []
  fault _ := none
  readsAddresses := true

theorem early_update_snapshot :
    ∃ policy s', (updateBefore 0).readPolicy deployedParams = .ok (policy, s') ∧
      policy.version = 2 ∧
      Run.Always step (fun t => t.paramsVersion = policy.version → policy = policyOf t)
        deployedParams ((updateBefore 0).upTo 7) := by
  have hread : (updateBefore 0).readPolicy deployedParams =
      .ok (policyOf (step deployedParams raiseFee), step deployedParams raiseFee) := rfl
  refine ⟨_, _, hread, by decide, ((cached_snapshot_iff (updateBefore 0) deployedParams _ _
    hread (.withParamsVersion 0)).2.mpr ?_)⟩
  exact ⟨nofun, nofun, nofun, nofun, nofun, nofun, nofun⟩

/-- The update falls between the first two calls: version 2 and its fee, with the recipient of
    version 1. -/
theorem torn_recipient :
    ∃ policy s', (updateBefore 1).readPolicy deployedParams = .ok (policy, s') ∧
      policy.version = 2 ∧ policy.platformFeeBps = 1500 ∧ policy.feeRecipient = ⟨0, 7⟩ ∧
      s'.paramsVersion = 2 ∧ s'.feeRecipient = ⟨0, 6⟩ ∧
      ¬ Run.Always step (fun t => t.paramsVersion = policy.version → policy = policyOf t)
        deployedParams ((updateBefore 1).upTo 7) := by
  have hread : (updateBefore 1).readPolicy deployedParams =
      .ok ({ policyOf (step deployedParams raiseFee) with feeRecipient := ⟨0, 7⟩ },
        step deployedParams raiseFee) := rfl
  refine ⟨_, _, hread, by decide, by decide, rfl, by decide,
    by decide, fun halways => ?_⟩
  have hlast := halways.last
  exact absurd (hlast (by decide)) (by decide)

/-! ## The overlay -/

/-- `to_bps`. Halves go up; `f64::round` takes them away from zero, which
    differs only below zero, where the clamp gives zero. -/
def toBps (f : ℚ) : Nat :=
  clampTo 65535 (round (Binary64.rnd (f * 10000)))

/-- Rates survive the detour over fractions. -/
theorem toBps_frac (bps : UInt16) : toBps (frac bps) = bps.toNat := by
  have hlt : bps.toNat < 65536 := bps.toNat_lt
  obtain hzero | hpos := Nat.eq_zero_or_pos bps.toNat
  · rw [toBps, frac, hzero]
    norm_num [clampTo]
  · have hone : (1 : ℚ) ≤ bps.toNat := by exact_mod_cast hpos
    have hnormal : (2 : ℚ) ^ (-1022 : ℤ) ≤ bps.toNat / ((10000 : ℕ) : ℚ) := by
      refine Binary64.minNormal_le.trans ?_
      linarith
    have hround := Binary64.round_rnd_div_mul (by norm_num) (by omega) hnormal
    push_cast at hround
    rw [toBps, frac, hround, clampTo, Int.toNat_natCast, Nat.min_eq_left (by omega)]

def GridConfig.overlay (cfg : GridConfig) (layer : PolicyLayer) : GridConfig :=
  { cfg with
    platformFeeBps := toBps layer.platformFeePct
    participationCommissionBps := toBps layer.participationCommissionFrac }

/-- The configuration a job is dispatched with. -/
def SyncedParams.dispatchConfig (cfg : GridConfig) (paid : Bool) : GridConfig :=
  if paid && cfg.economicsEnabled then
    match g.policy with
    | some policy => cfg.overlay policy.applyTo
    | none => cfg
  else cfg

/-! ## Settling -/

/-- `to_raw_string`. -/
def toRawString (w : WalletAddress) : String :=
  toString w.workchain.toInt ++ ":" ++ hexEncode (Octets.toLe 32 w.hash.toNat).reverse

structure JobRecord where
  jobId : String
  queryHash : String
  requesterWallet : String
  maxBid : Nat
  resultHash : String
  epoch : Nat
  prevRoot : BitVec 256
  paramsVersion : Nat
  inputFingerprint : String
  deriving DecidableEq, Repr

/-- What a record names besides the settled request. -/
structure JobNames where
  jobId : String
  queryHash : String
  requester : NodeId

/-- The last lines of `settle_paid_job`: a settled job is anchored. -/
def Payer.jobRecord (p : Payer) (anchored : Bool) (names : JobNames) (req : SettleRequest) :
    SettleReport → Option JobRecord
  | .sent handle _ =>
    if anchored then
      some { jobId := names.jobId
             queryHash := names.queryHash
             requesterWallet := toRawString (p.walletOf names.requester)
             maxBid := handle.maxBid
             resultHash := req.agreedHash
             epoch := 0
             prevRoot := 0
             paramsVersion := p.paramsVersion
             inputFingerprint := req.inputFingerprint }
    else none
  | _ => none

/-- The arguments of `open_escrow_with_terms` that a policy determines. -/
structure PolicyTerms where
  paramsVersion : Nat
  feeRecipient : Option WalletAddress
  platformFeeBps : Option Nat
  participationCommissionBps : Option Nat
  deriving DecidableEq, Repr

/-- The arguments that are one policy's. -/
def termsOf (p : OnchainPolicy) : PolicyTerms :=
  ⟨p.version.toNat, some p.feeRecipient, some p.platformFeeBps.toNat,
    some p.participationCommissionBps.toNat⟩

/-- What `settle_paid_job` passes to the rail, if it opens an escrow at all. -/
def Payer.openTerms (p : Payer) (cfg : GridConfig) (paid : Bool) : Option PolicyTerms :=
  if paid && cfg.economicsEnabled && p.settlement.isSome && p.feeRecipientAccepted then
    some ⟨p.paramsVersion, p.chainFeeRecipient, some cfg.platformFeeBps,
      some cfg.participationCommissionBps⟩
  else none

/-- The syncs around one paid job. -/
structure SyncSchedule where
  beforeDispatch : List SourceRead
  whileRunning : List SourceRead
  betweenReads : List SourceRead

/-- The cache at dispatch, on a coordinator that was given `version` to start with. -/
def SyncSchedule.atDispatch (sched : SyncSchedule) (version : UInt32) : SyncedParams :=
  Run.final sync (.withParamsVersion version) sched.beforeDispatch

/-- The payer as it settles: the version is read, then the fee recipient. -/
def SyncSchedule.payer (sched : SyncSchedule) (version : UInt32) (p : Payer) : Payer :=
  let g := Run.final sync (sched.atDispatch version) sched.whileRunning
  let g' := Run.final sync g sched.betweenReads
  { p with paramsVersion := g.version.toNat, chainFeeRecipient := g'.currentFeeRecipient }

/-- The policy in force when the fee recipient is read. -/
def SyncSchedule.inForce (sched : SyncSchedule) (policy : OnchainPolicy) : OnchainPolicy :=
  (lastRead (sched.whileRunning ++ sched.betweenReads)).getD policy

/-- An escrow is opened: the job is paid, a rail is wired, and a configured fee recipient is the
    one in force. -/
structure SyncSchedule.Opens (sched : SyncSchedule) (policy : OnchainPolicy) (p : Payer)
    (cfg : GridConfig) (paid : Bool) : Prop where
  paid : paid = true
  enabled : cfg.economicsEnabled = true
  rail : p.settlement.isSome = true
  recipient : ∀ parsed, p.localFeeRecipient = some parsed →
    parsed = some (sched.inForce policy).feeRecipient

section Terms

variable {p : Payer} {sha256 : Bytes → BitVec 256} {cfg : GridConfig} {paid : Bool}
  {req : SettleRequest} {sched : SyncSchedule} {version : UInt32} {policy : OnchainPolicy}

/-- The terms are what the rail is called with; without terms nothing is opened. -/
theorem settlePaidJob_openTerms (p : Payer) (sha256 : Bytes → BitVec 256) (cfg : GridConfig)
    (paid : Bool) (req : SettleRequest) :
    (∃ terms rail, p.openTerms cfg paid = some terms ∧ p.settlement = some rail ∧
      p.settlePaidJob sha256 cfg paid req =
        match rail.openEscrowWithTerms sha256
            (escrowAmount cfg req.metered req.agreeingNonWinners.length) (p.lockOf req.agreedHash)
            terms.paramsVersion (p.committed req.winner req.agreeingNonWinners)
            terms.feeRecipient terms.platformFeeBps terms.participationCommissionBps with
        | .error e => .openFailed e
        | .ok handle => p.release cfg req rail handle) ∨
    (p.openTerms cfg paid = none ∧ (p.settlePaidJob sha256 cfg paid req = .notDue ∨
      p.settlePaidJob sha256 cfg paid req = .feeRecipientRefused)) := by
  unfold Payer.openTerms Payer.settlePaidJob
  cases hdue : paid && cfg.economicsEnabled with
  | false => exact .inr ⟨rfl, .inl rfl⟩
  | true =>
    cases hrail : p.settlement with
    | none => exact .inr ⟨rfl, .inl rfl⟩
    | some rail =>
      cases haccepted : p.feeRecipientAccepted with
      | false => exact .inr ⟨rfl, .inr rfl⟩
      | true => exact .inl ⟨_, rail, rfl, rfl, rfl⟩

section

variable (h : (sched.atDispatch version).policy = some policy)

include h

theorem atDispatch_eq :
    sched.atDispatch version = ⟨policy.version, some policy⟩ := by
  unfold SyncSchedule.atDispatch at h ⊢
  rw [final_sync] at h ⊢
  cases hlast : lastRead sched.beforeDispatch with
  | none =>
    rw [hlast] at h
    cases h
  | some q =>
    rw [hlast] at h
    cases h
    rfl

theorem payer_paramsVersion :
    (sched.payer version p).paramsVersion =
      ((lastRead sched.whileRunning).getD policy).version.toNat := by
  show (Run.final sync (sched.atDispatch version) sched.whileRunning).version.toNat = _
  rw [atDispatch_eq h, final_sync]
  cases lastRead sched.whileRunning with
  | none | some q => rfl

theorem payer_chainFeeRecipient :
    (sched.payer version p).chainFeeRecipient = some (sched.inForce policy).feeRecipient := by
  show (Run.final sync (Run.final sync (sched.atDispatch version) sched.whileRunning)
    sched.betweenReads).currentFeeRecipient = _
  rw [← Run.final_append, atDispatch_eq h, final_sync, SyncSchedule.inForce]
  cases lastRead (sched.whileRunning ++ sched.betweenReads) with
  | none | some q => rfl

end

theorem dispatchConfig_economicsEnabled :
    (g.dispatchConfig cfg paid).economicsEnabled = cfg.economicsEnabled := by
  unfold SyncedParams.dispatchConfig
  split
  · split
    · rfl
    · rfl
  · rfl

/-- A paid job is dispatched under the rates of the cached policy. -/
theorem dispatchConfig_rates {g : SyncedParams} (h : g.policy = some policy)
    (hpaid : paid = true) (henabled : cfg.economicsEnabled = true) :
    (g.dispatchConfig cfg paid).platformFeeBps = policy.platformFeeBps.toNat ∧
      (g.dispatchConfig cfg paid).participationCommissionBps =
        policy.participationCommissionBps.toNat := by
  unfold SyncedParams.dispatchConfig
  rw [hpaid, henabled, h]
  exact ⟨toBps_frac policy.platformFeeBps, toBps_frac policy.participationCommissionBps⟩

theorem feeRecipientAccepted_iff {recipient : WalletAddress}
    (h : p.chainFeeRecipient = some recipient) :
    p.feeRecipientAccepted = true ↔
      ∀ parsed, p.localFeeRecipient = some parsed → parsed = some recipient := by
  unfold Payer.feeRecipientAccepted
  rw [h]
  cases p.localFeeRecipient with
  | none => exact ⟨nofun, fun _ => rfl⟩
  | some parsed =>
    rw [decide_eq_true_iff]
    exact ⟨fun heq _ hp => (Option.some.inj hp) ▸ heq, fun hall => hall parsed rfl⟩

/-- What is passed to the rail: the rates of the policy at dispatch, the version and the fee
    recipient of whatever was read last when they were looked up. -/
theorem openTerms_eq_some_iff (h : (sched.atDispatch version).policy = some policy)
    {terms : PolicyTerms} :
    (sched.payer version p).openTerms ((sched.atDispatch version).dispatchConfig cfg paid) paid =
        some terms ↔
      sched.Opens policy p cfg paid ∧
        ⟨((lastRead sched.whileRunning).getD policy).version.toNat,
          some (sched.inForce policy).feeRecipient, some policy.platformFeeBps.toNat,
          some policy.participationCommissionBps.toNat⟩ = terms := by
  have hrecipient := payer_chainFeeRecipient (p := p) h
  unfold Payer.openTerms
  rw [dispatchConfig_economicsEnabled, payer_paramsVersion h]
  constructor
  · intro hopen
    split at hopen
    · rename_i hcond
      simp only [Bool.and_eq_true] at hcond
      obtain ⟨⟨⟨hpaid, henabled⟩, hrail⟩, haccepted⟩ := hcond
      obtain ⟨hfee, hcomm⟩ := dispatchConfig_rates h hpaid henabled
      rw [hfee, hcomm, hrecipient, Option.some.injEq] at hopen
      exact ⟨⟨hpaid, henabled, hrail, (feeRecipientAccepted_iff hrecipient).mp haccepted⟩, hopen⟩
    · cases hopen
  · rintro ⟨hopens, rfl⟩
    obtain ⟨hfee, hcomm⟩ := dispatchConfig_rates h hopens.paid hopens.enabled
    have haccepted := (feeRecipientAccepted_iff hrecipient).mpr hopens.recipient
    have hrail : (sched.payer version p).settlement.isSome = true := hopens.rail
    rw [hfee, hcomm, hrecipient, haccepted, hrail, hopens.paid, hopens.enabled]
    rfl

theorem openTerms_isSome_of_jobRecord {anchored : Bool} {names : JobNames} {record : JobRecord}
    (h : p.jobRecord anchored names req (p.settlePaidJob sha256 cfg paid req) = some record) :
    (p.openTerms cfg paid).isSome = true ∧ record.paramsVersion = p.paramsVersion := by
  rcases settlePaidJob_openTerms p sha256 cfg paid req with
    ⟨terms, rail, hterms, -, -⟩ | ⟨-, hnone | hnone⟩
  · refine ⟨by rw [hterms]; rfl, ?_⟩
    unfold Payer.jobRecord at h
    split at h
    · split at h
      · cases h
        rfl
      · cases h
    · cases h
  all_goals
    rw [hnone] at h
    cases h

end Terms

/-- Around any syncs, for a job dispatched under a cached policy: what is passed to the rail and
    what is anchored all comes from that policy just when no escrow is opened, or the last read
    between dispatch and the look at the version has the same version, and the last one before the
    look at the fee recipient the same recipient. -/
theorem terms_of_one_policy_iff (p : Payer) (sha256 : Bytes → BitVec 256) (cfg : GridConfig)
    (paid anchored : Bool) (names : JobNames) (req : SettleRequest) (version : UInt32)
    (sched : SyncSchedule) (policy : OnchainPolicy)
    (hcached : (sched.atDispatch version).policy = some policy) :
    ((∀ terms, (sched.payer version p).openTerms
          ((sched.atDispatch version).dispatchConfig cfg paid) paid = some terms →
        terms = termsOf policy) ∧
      ∀ record, (sched.payer version p).jobRecord anchored names req
          ((sched.payer version p).settlePaidJob sha256
            ((sched.atDispatch version).dispatchConfig cfg paid) paid req) = some record →
        record.paramsVersion = policy.version.toNat) ↔
    ¬ sched.Opens policy p cfg paid ∨
      ((∀ q, lastRead sched.whileRunning = some q → q.version = policy.version) ∧
        ∀ q, lastRead (sched.whileRunning ++ sched.betweenReads) = some q →
          q.feeRecipient = policy.feeRecipient) := by
  rw [← proj_getD_eq_iff OnchainPolicy.version, ← proj_getD_eq_iff OnchainPolicy.feeRecipient]
  constructor
  · rintro ⟨hterms, -⟩
    by_cases hopens : sched.Opens policy p cfg paid
    · have heq := hterms _ ((openTerms_eq_some_iff hcached).mpr ⟨hopens, rfl⟩)
      obtain ⟨hversion, hrecipient, -, -⟩ := PolicyTerms.mk.inj heq
      exact .inr ⟨UInt32.toNat_inj.mp hversion, Option.some.inj hrecipient⟩
    · exact .inl hopens
  · intro hcond
    have hkept : sched.Opens policy p cfg paid →
        ((lastRead sched.whileRunning).getD policy).version = policy.version ∧
          (sched.inForce policy).feeRecipient = policy.feeRecipient :=
      fun hopens => hcond.resolve_left (not_not_intro hopens)
    refine ⟨fun terms hterms => ?_, fun record hrecord => ?_⟩
    · obtain ⟨hopens, rfl⟩ := (openTerms_eq_some_iff hcached).mp hterms
      obtain ⟨hversion, hrecipient⟩ := hkept hopens
      rw [hversion, hrecipient]
      rfl
    · obtain ⟨hsome, hversion⟩ := openTerms_isSome_of_jobRecord hrecord
      obtain ⟨terms, hterms⟩ := Option.isSome_iff_exists.mp hsome
      obtain ⟨hopens, -⟩ := (openTerms_eq_some_iff hcached).mp hterms
      rw [hversion, payer_paramsVersion hcached, (hkept hopens).1]

/-! ### Two policies around one job -/

def policyV1 : OnchainPolicy where
  version := 1
  platformFeeBps := 500
  feeRecipient := ⟨0, 7⟩
  participationCommissionBps := 1000
  slashFailedCommitmentBps := 1000
  attemptDeadlineMs := 60000
  progressIntervalMs := 2000
  progressStallMult := 5

/-- The admin has raised the platform fee to 15 %. -/
def policyV2 : OnchainPolicy :=
  { policyV1 with version := 2, platformFeeBps := 1500 }

/-- A sync fails while the job runs, the next one finds nothing new. -/
def quietSchedule : SyncSchedule :=
  ⟨[some (.ok policyV1)], [some (.error (.backend "timeout")), some (.ok policyV1)], []⟩

/-- The raised fee is synced while the job runs. -/
def overtakenSchedule : SyncSchedule :=
  ⟨[some (.ok policyV1)], [some (.ok policyV2)], []⟩

theorem dispatchConfig_paidConfig {g : SyncedParams} (h : g.policy = some policyV1) :
    g.dispatchConfig paidConfig true = paidConfig := by
  unfold SyncedParams.dispatchConfig
  rw [h]
  show { paidConfig with
    platformFeeBps := toBps (frac policyV1.platformFeeBps)
    participationCommissionBps := toBps (frac policyV1.participationCommissionBps) } = paidConfig
  rw [toBps_frac, toBps_frac]
  rfl

theorem quiet_terms_of_one_policy :
    (quietSchedule.atDispatch 0).policy = some policyV1 ∧
      ∀ terms, (quietSchedule.payer 0 (demoPayer eachBound)).openTerms
        ((quietSchedule.atDispatch 0).dispatchConfig paidConfig true) true = some terms →
        terms = termsOf policyV1 := by
  have hcached : (quietSchedule.atDispatch 0).policy = some policyV1 := rfl
  refine ⟨hcached, ((terms_of_one_policy_iff (demoPayer eachBound) Ton.foldDigest paidConfig true
    true ⟨"j", "q", ⟨"r"⟩⟩ demoRequest 0 quietSchedule policyV1 hcached).mpr (.inr ⟨?_, ?_⟩)).1⟩
  all_goals
    intro q hq
    cases hq
    rfl

/-- The job runs and is billed under version 1, but its escrow and its record say version 2. -/
theorem overtaken_job_names_other_version :
    (overtakenSchedule.atDispatch 0).policy = some policyV1 ∧
      (overtakenSchedule.payer 0 (demoPayer eachBound)).openTerms
        ((overtakenSchedule.atDispatch 0).dispatchConfig paidConfig true) true =
          some ⟨2, some ⟨0, 7⟩, some 500, some 1000⟩ ∧
      (termsOf policyV1).paramsVersion = 1 ∧ (termsOf policyV2).platformFeeBps = some 1500 ∧
      ((overtakenSchedule.payer 0 (demoPayer eachBound)).jobRecord true ⟨"j", "q", ⟨"r"⟩⟩ demoRequest
        ((overtakenSchedule.payer 0 (demoPayer eachBound)).settlePaidJob Ton.foldDigest
          ((overtakenSchedule.atDispatch 0).dispatchConfig paidConfig true) true
          demoRequest)).map JobRecord.paramsVersion = some 2 := by
  have hcached : (overtakenSchedule.atDispatch 0).policy = some policyV1 := rfl
  rw [dispatchConfig_paidConfig hcached]
  exact ⟨hcached, by decide, by decide, by decide, by decide +kernel⟩

end Duckton.Node
