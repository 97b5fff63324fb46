/-
  The check of economic parameters before they are sent (settlement/ton.rs, GlobalParams::validate)
  and the contract's own (global_params_types.tolk, validateEcoParams).

  The local check is meant to mirror the contract's, so that an update which passes it is not
  rejected on chain. Both make the same cross-field checks (`SharedBounds`); the contract also
  bounds nine rates by 10000, which the local check does not look at (`RatesWithinWhole`). So they
  agree on every set of parameters that one of the shared checks rejects, and otherwise just on
  those whose rates are in bounds.
-/
import Duckton.Settlement.DeployCells

namespace Duckton.Settlement

open Fallible Duckton.Ton Duckton.Ton.GlobalParams

/-! ## The two checks -/

def GlobalParams.validate (p : GlobalParams) : Except String Unit := do
  let split := p.splitChallengerBps.toNat + p.splitRedundancyBps.toNat + p.splitBurnBps.toNat +
    p.splitTreasuryBps.toNat
  ensure (split = 10000) s!"slash split bps must sum to 10000, got {split}"
  ensure (p.participationCommissionBps ≤ 1000)
    "participation_commission_bps must be <= 1000 (10%)"
  ensure (p.minStakeSensitive ≥ p.minStakeInternal ∧ p.minStakeInternal ≥ p.minStake)
    "require min_stake_sensitive >= min_stake_internal >= min_stake"
  ensure (p.minStake ≤ p.stakeCap) "stake_cap must be >= min_stake"
  ensure (p.challengeWindowSecs ≤ p.unbondingSecs)
    "unbonding_secs must be >= challenge_window_secs"
  ensure (1 ≤ p.checksumMin ∧ p.checksumMin ≤ p.nPublic ∧ p.nPublic ≤ p.nDefault ∧
      p.nDefault ≤ p.nMax)
    "require n_max >= n_default >= n_public >= checksum_min >= 1"
  ensure (1 ≤ p.quorum ∧ p.quorum ≤ p.nDefault) "require 1 <= quorum <= n_default"
  ensure (p.slashFailedCommitmentBps ≤ 10000) "slash_failed_commitment_bps must be <= 10000"
  ensure (1 ≤ p.progressIntervalMs) "progress_interval_ms must be >= 1"
  ensure (1 ≤ p.progressStallMult) "progress_stall_mult must be >= 1"

/-- The struct that a parameter cell is loaded as. -/
def ecoParamsOf (values : List (String × FieldValue)) : Option EcoParams :=
  match values.map Prod.snd with
  | [.nat platformFeeBps, .nat surchargeBps, .nat participationCommissionBps, .nat slashWrongBps,
      .nat slashCheatBps, .nat slashDowntimeBps, .nat slashEquivocationBps,
      .nat splitChallengerBps, .nat splitRedundancyBps, .nat splitBurnBps, .nat splitTreasuryBps,
      .nat minStake, .nat minStakeInternal, .nat minStakeSensitive, .nat stakeCap,
      .nat unbondingSecs, .nat challengeWindowSecs, .nat nPublic, .nat nDefault, .nat nMax,
      .nat quorum, .nat checksumMin, .nat wQualityBps, .nat wStakeBps, .nat wPriceBps,
      .nat slashFailedCommitmentBps, .nat attemptDeadlineMs, .nat progressIntervalMs,
      .nat progressStallMult] =>
    some
      { platformFeeBps := .ofNat platformFeeBps
        surchargeBps := .ofNat surchargeBps
        participationCommissionBps := .ofNat participationCommissionBps
        slashWrongBps := .ofNat slashWrongBps
        slashCheatBps := .ofNat slashCheatBps
        slashDowntimeBps := .ofNat slashDowntimeBps
        slashEquivocationBps := .ofNat slashEquivocationBps
        splitChallengerBps := .ofNat splitChallengerBps
        splitRedundancyBps := .ofNat splitRedundancyBps
        splitBurnBps := .ofNat splitBurnBps
        splitTreasuryBps := .ofNat splitTreasuryBps
        minStake
        minStakeInternal
        minStakeSensitive
        stakeCap
        unbondingSecs := .ofNat unbondingSecs
        challengeWindowSecs := .ofNat challengeWindowSecs
        nPublic := .ofNat nPublic
        nDefault := .ofNat nDefault
        nMax := .ofNat nMax
        quorum := .ofNat quorum
        checksumMin := .ofNat checksumMin
        wQualityBps := .ofNat wQualityBps
        wStakeBps := .ofNat wStakeBps
        wPriceBps := .ofNat wPriceBps
        slashFailedCommitmentBps := .ofNat slashFailedCommitmentBps
        attemptDeadlineMs := .ofNat attemptDeadlineMs
        progressIntervalMs := .ofNat progressIntervalMs
        progressStallMult := .ofNat progressStallMult }
  | _ => none

/-- The contract loads the cell and checks what it holds. -/
def contractAccepts (cell : Cell) : Bool :=
  match (Layout.ecoParams.fromCell cell).bind ecoParamsOf with
  | none => false
  | some params => (validateEcoParams params).toBool

/-! ## What each of them checks -/

/-- The checks that both make. -/
structure SharedBounds (p : EcoParams) : Prop where
  split : p.splitChallengerBps.toNat + p.splitRedundancyBps.toNat + p.splitBurnBps.toNat +
    p.splitTreasuryBps.toNat = 10000
  commission : p.participationCommissionBps.toNat ≤ 1000
  sensitive : p.minStakeInternal ≤ p.minStakeSensitive
  internal : p.minStake ≤ p.minStakeInternal
  cap : p.minStake ≤ p.stakeCap
  unbonding : p.challengeWindowSecs.toNat ≤ p.unbondingSecs.toNat
  checksumMin : 1 ≤ p.checksumMin.toNat
  nPublic : p.checksumMin.toNat ≤ p.nPublic.toNat
  nDefault : p.nPublic.toNat ≤ p.nDefault.toNat
  nMax : p.nDefault.toNat ≤ p.nMax.toNat
  quorum : 1 ≤ p.quorum.toNat ∧ p.quorum.toNat ≤ p.nDefault.toNat
  failedCommitment : p.slashFailedCommitmentBps.toNat ≤ 10000
  progressInterval : 1 ≤ p.progressIntervalMs.toNat
  progressStall : 1 ≤ p.progressStallMult.toNat

/-- The checks that only the contract makes: no rate is more than the whole. -/
structure RatesWithinWhole (p : EcoParams) : Prop where
  platformFee : p.platformFeeBps.toNat ≤ 10000
  surcharge : p.surchargeBps.toNat ≤ 10000
  slashWrong : p.slashWrongBps.toNat ≤ 10000
  slashCheat : p.slashCheatBps.toNat ≤ 10000
  slashDowntime : p.slashDowntimeBps.toNat ≤ 10000
  slashEquivocation : p.slashEquivocationBps.toNat ≤ 10000
  wQuality : p.wQualityBps.toNat ≤ 10000
  wStake : p.wStakeBps.toNat ≤ 10000
  wPrice : p.wPriceBps.toNat ≤ 10000

variable (p : GlobalParams)

theorem validate_eq_ok_iff : GlobalParams.validate p = .ok () ↔ SharedBounds p := by
  unfold GlobalParams.validate
  simp only [ensure_bind_eq_ok, ensure_eq_ok]
  constructor
  · rintro ⟨hsplit, hcommission, ⟨hsensitive, hinternal⟩, hcap, hunbonding,
      ⟨hchecksum, hpublic, hdefault, hmax⟩, hquorum, hfailed, hinterval, hstall⟩
    exact ⟨hsplit, hcommission, hsensitive, hinternal, hcap, hunbonding, hchecksum, hpublic,
      hdefault, hmax, hquorum, hfailed, hinterval, hstall⟩
  · intro h
    exact ⟨h.split, h.commission, ⟨h.sensitive, h.internal⟩, h.cap, h.unbonding,
      ⟨h.checksumMin, h.nPublic, h.nDefault, h.nMax⟩, h.quorum, h.failedCommitment,
      h.progressInterval, h.progressStall⟩

theorem validateEcoParams_eq_ok_iff (p : EcoParams) :
    validateEcoParams p = .ok () ↔ RatesWithinWhole p ∧ SharedBounds p := by
  unfold validateEcoParams
  simp only [require_bind_eq_ok, require_eq_ok]
  constructor
  · rintro ⟨hfee, hsurcharge, hwrong, hcheat, hdowntime, hequivocation, hquality, hstake, hprice,
      hfailed, hcommission, hinterval, hstall, hsplit, hsensitive, hinternal, hcap, hunbonding,
      hchecksum, hpublic, hdefault, hmax, hquorum⟩
    exact ⟨⟨hfee, hsurcharge, hwrong, hcheat, hdowntime, hequivocation, hquality, hstake, hprice⟩,
      hsplit, hcommission, hsensitive, hinternal, hcap, hunbonding, hchecksum, hpublic, hdefault,
      hmax, hquorum, hfailed, hinterval, hstall⟩
  · rintro ⟨hr, hs⟩
    exact ⟨hr.platformFee, hr.surcharge, hr.slashWrong, hr.slashCheat, hr.slashDowntime,
      hr.slashEquivocation, hr.wQuality, hr.wStake, hr.wPrice, hs.failedCommitment, hs.commission,
      hs.progressInterval, hs.progressStall, hs.split, hs.sensitive, hs.internal, hs.cap,
      hs.unbonding, hs.checksumMin, hs.nPublic, hs.nDefault, hs.nMax, hs.quorum⟩

theorem ecoParamsOf_values : ecoParamsOf (GlobalParams.values p) = some p := by
  simp only [ecoParamsOf, GlobalParams.values, GlobalParams.fields, List.map_cons, List.map_nil,
    EcoField.value, UInt16.ofNat_toNat, UInt32.ofNat_toNat, UInt8.ofNat_toNat]

/-- The contract checks the parameters that were encoded. -/
theorem contractAccepts_encoded (h : GlobalParams.Encodable p) :
    contractAccepts (ecoParamsEncoded p).2 = true ↔ validateEcoParams p = .ok () := by
  unfold contractAccepts
  rw [(ecoParams_decodes p h).2, Option.bind_some, ecoParamsOf_values]
  dsimp only
  cases validateEcoParams p with
  | error e =>
    refine iff_of_false Bool.false_ne_true ?_
    rintro ⟨⟩
  | ok u => exact iff_of_true rfl rfl

/-! ## When they agree -/

/-- The local check and the contract give the same answer just for the parameters that fail a check
    which both make, or whose rates are all within the whole. -/
theorem checks_agree_iff (p : GlobalParams) (h : GlobalParams.Encodable p) :
    (GlobalParams.validate p = .ok () ↔ contractAccepts (ecoParamsEncoded p).2 = true) ↔
      (SharedBounds p → RatesWithinWhole p) := by
  rw [contractAccepts_encoded p h, validate_eq_ok_iff, validateEcoParams_eq_ok_iff]
  constructor
  · exact fun hagree hshared => (hagree.mp hshared).1
  · exact fun hrates => ⟨fun hshared => ⟨hrates hshared, hshared⟩, And.right⟩

/-- The default parameters pass both checks. -/
theorem default_params_agree :
    GlobalParams.Encodable defaultParams ∧ RatesWithinWhole defaultParams ∧
      (GlobalParams.validate defaultParams = .ok () ↔
        contractAccepts (ecoParamsEncoded defaultParams).2 = true) := by
  have hrates : RatesWithinWhole defaultParams := by constructor <;> decide
  exact ⟨encodable_defaultParams, hrates,
    (checks_agree_iff defaultParams encodable_defaultParams).mpr fun _ => hrates⟩

/-- A surcharge of twice the base price passes the local check and not the contract's. -/
theorem surcharge_rejected_on_chain :
    GlobalParams.Encodable { defaultParams with surchargeBps := 20000 } ∧
      GlobalParams.validate { defaultParams with surchargeBps := 20000 } = .ok () ∧
      contractAccepts (ecoParamsEncoded { defaultParams with surchargeBps := 20000 }).2 = false := by
  have hencodable : GlobalParams.Encodable { defaultParams with surchargeBps := 20000 } :=
    ⟨by decide, by decide, by decide, by decide⟩
  refine ⟨hencodable, by decide, ?_⟩
  rw [← Bool.not_eq_true, contractAccepts_encoded _ hencodable]
  decide

end Duckton.Settlement
