/-
  The `[economics]` section of the configuration and its check (config/economics.rs).

  Fractions and weights are exact rationals; how a number is printed in a message is a parameter.
  The fields are those that the check or the derivation of the on-chain parameters reads.
  `Accepted` is what a configuration that passes the check has, as far as these parameters go.
-/
import Mathlib.Data.Rat.Floor
import Duckton.Lib.Fallible
import Duckton.Lib.Text

namespace Duckton.Config

open Fallible

/-! ## The section -/

inductive SettlementRail where
  | noop
  | channel
  | onchain
  | mock
  deriving DecidableEq, Repr

structure StakeEconomics where
  minStake : UInt64 := 0
  minStakeInternal : UInt64 := 100
  minStakeSensitive : UInt64 := 1000
  stakeCap : UInt64 := 100000
  unbondingSecs : UInt64 := 604800
  deriving DecidableEq, Repr

structure RankingEconomics where
  wQuality : ℚ := 6 / 10
  wStake : ℚ := 3 / 10
  wPrice : ℚ := 25 / 100
  wLatency : ℚ := 15 / 100
  wThroughput : ℚ := 15 / 100
  explorationRate : ℚ := 0
  capabilityWeight : ℚ := 1 / 10
  newcomerTrustCeiling : ℚ := 1
  stakeReliabilityFloor : ℚ := 1 / 2
  deriving DecidableEq, Repr

structure QualityEconomics where
  wSuccess : ℚ := 1 / 2
  wLatency : ℚ := 2 / 10
  wThroughput : ℚ := 2 / 10
  wCompletion : ℚ := 1 / 10
  deriving DecidableEq, Repr

structure ReputationEconomics where
  priorAlpha : ℚ := 1
  priorBeta : ℚ := 2
  confidenceZ : ℚ := 196 / 100
  deriving DecidableEq, Repr

structure SelectionEconomics where
  nPublic : UInt64 := 3
  nDefault : UInt64 := 5
  nMax : UInt64 := 10
  checksumMin : UInt64 := 3
  deriving DecidableEq, Repr

structure FeesEconomics where
  platformFeePct : ℚ := 15 / 100
  verificationSurchargePct : ℚ := 5 / 100
  participationCommissionFrac : ℚ := 5 / 100
  bonusAggressiveness : ℚ := 1 / 2
  lambdaQuality : ℚ := 1 / 2
  lambdaSpeed : ℚ := 1 / 2
  deriving DecidableEq, Repr

structure SlashingEconomics where
  slashWrongResultPct : ℚ := 15 / 100
  slashCheatPct : ℚ := 1
  slashDowntimePct : ℚ := 2 / 100
  slashEquivocationPct : ℚ := 1 / 2
  slashFailedCommitmentPct : ℚ := 1 / 10
  challengeWindowSecs : UInt64 := 86400
  slashToChallenger : ℚ := 4 / 10
  slashToRedundancy : ℚ := 3 / 10
  slashToBurn : ℚ := 2 / 10
  slashToTreasury : ℚ := 1 / 10
  deriving DecidableEq, Repr

structure RecordsEconomics where
  epochSecs : UInt64 := 60
  anchorQuorumPct : ℚ := 66 / 100
  deriving DecidableEq, Repr

structure PricingLimits where
  capMultiplier : UInt64 := 5
  meteringTolerance : ℚ := 15 / 10
  deriving DecidableEq, Repr

structure EconomicsConfig where
  enabled : Bool := false
  settlement : SettlementRail := .noop
  custody : String := "noncustodial"
  accountingUnit : String := "ton"
  feeRecipient : Option String := none
  stake : StakeEconomics := {}
  ranking : RankingEconomics := {}
  quality : QualityEconomics := {}
  reputation : ReputationEconomics := {}
  selection : SelectionEconomics := {}
  fees : FeesEconomics := {}
  slashing : SlashingEconomics := {}
  records : RecordsEconomics := {}
  pricing : PricingLimits := {}
  deriving DecidableEq, Repr

/-! ## The check -/

/-- `pct`: a fraction of the whole. -/
def pct (display : ℚ → String) (name : String) (x : ℚ) : Except String Unit :=
  let shown := display x
  ensure (0 ≤ x ∧ x ≤ 1) s!"economics.{name} must be in [0,1], got {shown}"

def SlashingEconomics.splitSum (s : SlashingEconomics) : ℚ :=
  s.slashToChallenger + s.slashToRedundancy + s.slashToBurn + s.slashToTreasury

/-- The shares that a slash is split into. -/
def SlashingEconomics.shares (s : SlashingEconomics) : List ℚ :=
  [s.slashToChallenger, s.slashToRedundancy, s.slashToBurn, s.slashToTreasury]

/-- Fees can be charged on these rails. -/
def SettlementRail.charges : SettlementRail → Bool
  | .channel | .onchain => true
  | .noop | .mock => false

def EconomicsConfig.hasFeeRecipient (e : EconomicsConfig) : Bool :=
  match e.feeRecipient with
  | some a => !(Text.trim a.toList).isEmpty
  | none => false

/-- The texts are those of `ConfigError::Invalid`. -/
def EconomicsConfig.validate (display : ℚ → String) (e : EconomicsConfig) :
    Except String Unit := do
  let custody := e.custody
  ensure (custody = "noncustodial")
    s!"economics.custody must be \"noncustodial\" (v1), got {custody}"
  let accountingUnit := e.accountingUnit
  ensure (accountingUnit = "ton")
    s!"economics.accounting_unit must be \"ton\" (v1), got {accountingUnit}"
  let unbonding := e.stake.unbondingSecs
  let window := e.slashing.challengeWindowSecs
  ensure (window ≤ unbonding)
    (s!"economics.stake.unbonding_secs ({unbonding}) must be >= " ++
      s!"economics.slashing.challenge_window_secs ({window})")
  ensure (e.stake.minStakeSensitive ≥ e.stake.minStakeInternal ∧
      e.stake.minStakeInternal ≥ e.stake.minStake)
    "economics.stake: require min_stake_sensitive >= min_stake_internal >= min_stake"
  ensure (e.stake.minStake ≤ e.stake.stakeCap) "economics.stake.stake_cap must be >= min_stake"
  let s := e.slashing
  let sum := display s.splitSum
  ensure (|s.splitSum - 1| ≤ 1 / 10 ^ 9)
    s!"economics.slashing slash_to_* must sum to 1.0, got {sum}"
  pct display "slashing.slash_wrong_result_pct" s.slashWrongResultPct
  pct display "slashing.slash_cheat_pct" s.slashCheatPct
  pct display "slashing.slash_downtime_pct" s.slashDowntimePct
  pct display "slashing.slash_equivocation_pct" s.slashEquivocationPct
  pct display "slashing.slash_failed_commitment_pct" s.slashFailedCommitmentPct
  pct display "slashing.slash_to_challenger" s.slashToChallenger
  pct display "slashing.slash_to_redundancy" s.slashToRedundancy
  pct display "slashing.slash_to_burn" s.slashToBurn
  pct display "slashing.slash_to_treasury" s.slashToTreasury
  pct display "fees.platform_fee_pct" e.fees.platformFeePct
  pct display "fees.verification_surcharge_pct" e.fees.verificationSurchargePct
  let commission := e.fees.participationCommissionFrac
  let shown := display commission
  ensure (0 ≤ commission ∧ commission ≤ 1 / 10)
    s!"economics.fees.participation_commission_frac must be in [0,0.1], got {shown}"
  pct display "fees.bonus_aggressiveness" e.fees.bonusAggressiveness
  ensure (|e.fees.lambdaQuality + e.fees.lambdaSpeed - 1| ≤ 1 / 10 ^ 9)
    "economics.fees: lambda_quality + lambda_speed must sum to 1.0"
  let r := e.ranking
  ensure (0 ≤ r.wQuality ∧ 0 ≤ r.wStake ∧ 0 ≤ r.wPrice ∧ 0 ≤ r.wLatency ∧ 0 ≤ r.wThroughput)
    "economics.ranking weights must be >= 0"
  ensure (0 ≤ r.capabilityWeight) "economics.ranking.capability_weight must be >= 0"
  pct display "ranking.exploration_rate" r.explorationRate
  pct display "ranking.newcomer_trust_ceiling" r.newcomerTrustCeiling
  pct display "ranking.stake_reliability_floor" r.stakeReliabilityFloor
  let q := e.quality
  ensure (0 ≤ q.wSuccess ∧ 0 ≤ q.wLatency ∧ 0 ≤ q.wThroughput ∧ 0 ≤ q.wCompletion)
    "economics.quality weights must be >= 0"
  let rep := e.reputation
  ensure (0 ≤ rep.priorAlpha ∧ 0 ≤ rep.priorBeta ∧ 0 ≤ rep.confidenceZ)
    "economics.reputation priors (prior_alpha, prior_beta, confidence_z) must be >= 0"
  let sel := e.selection
  ensure (1 ≤ sel.checksumMin) "economics.selection.checksum_min must be >= 1"
  ensure (sel.nMax ≥ sel.nDefault ∧ sel.nDefault ≥ sel.nPublic ∧ sel.nPublic ≥ sel.checksumMin)
    "economics.selection: require n_max >= n_default >= n_public >= checksum_min"
  ensure (1 ≤ e.pricing.capMultiplier) "economics.pricing.cap_multiplier must be >= 1"
  let tolerance := display e.pricing.meteringTolerance
  ensure (1 ≤ e.pricing.meteringTolerance)
    s!"economics.pricing.metering_tolerance must be >= 1.0, got {tolerance}"
  pct display "records.anchor_quorum_pct" e.records.anchorQuorumPct
  ensure (e.records.epochSecs ≠ 0) "economics.records.epoch_secs must be >= 1"
  -- only the channel and the on-chain rail charge fees
  ensure ((e.enabled && e.settlement.charges) = true → e.hasFeeRecipient = true)
    "economics.fee_recipient must be set when economics.enabled and settlement != noop"

/-- What the on-chain parameters rely on. -/
structure EconomicsConfig.Accepted (e : EconomicsConfig) : Prop where
  unbonding : e.slashing.challengeWindowSecs ≤ e.stake.unbondingSecs
  sensitive : e.stake.minStakeInternal ≤ e.stake.minStakeSensitive
  internal : e.stake.minStake ≤ e.stake.minStakeInternal
  cap : e.stake.minStake ≤ e.stake.stakeCap
  failedCommitment : 0 ≤ e.slashing.slashFailedCommitmentPct ∧
    e.slashing.slashFailedCommitmentPct ≤ 1
  challenger : 0 ≤ e.slashing.slashToChallenger ∧ e.slashing.slashToChallenger ≤ 1
  redundancy : 0 ≤ e.slashing.slashToRedundancy ∧ e.slashing.slashToRedundancy ≤ 1
  burn : 0 ≤ e.slashing.slashToBurn ∧ e.slashing.slashToBurn ≤ 1
  treasury : 0 ≤ e.slashing.slashToTreasury ∧ e.slashing.slashToTreasury ≤ 1
  commission : 0 ≤ e.fees.participationCommissionFrac ∧ e.fees.participationCommissionFrac ≤ 1 / 10
  checksumMin : 1 ≤ e.selection.checksumMin
  nMax : e.selection.nDefault ≤ e.selection.nMax
  nDefault : e.selection.nPublic ≤ e.selection.nDefault
  nPublic : e.selection.checksumMin ≤ e.selection.nPublic

theorem EconomicsConfig.accepted_of_validate {display : ℚ → String} {e : EconomicsConfig}
    (h : e.validate display = .ok ()) : e.Accepted := by
  unfold EconomicsConfig.validate pct at h
  simp only [ensure_bind_eq_ok, ensure_eq_ok] at h
  obtain ⟨-, -, hunbonding, ⟨hsensitive, hinternal⟩, hcap, -, -, -, -, -, hfailed, hchallenger,
    hredundancy, hburn, htreasury, -, -, hcommission, -, -, -, -, -, -, -, -, -, hchecksum,
    ⟨hmax, hdefault, hpublic⟩, -⟩ := h
  exact ⟨hunbonding, hsensitive, hinternal, hcap, hfailed, hchallenger, hredundancy, hburn,
    htreasury, hcommission, hchecksum, hmax, hdefault, hpublic⟩

end Duckton.Config
