/-
  On-chain parameters from the configuration (settlement/wiring.rs, from_config_parts).

  Fractions become basis points by rounding to the nearest, amounts become nanoton, and counts and
  times are cut to the width of their field. Everything that the configuration check guarantees
  carries over but one thing: the four shares of a slash sum to 1, and each of them is rounded on
  its own, so the rounded shares need not sum to 10000 (`fromConfigParts_valid_iff`).
-/
import Duckton.Config.Economics
import Duckton.Settlement.ParamsCheck

namespace Duckton.Settlement

open Duckton.Config

/-! ## The derivation -/

/-- `f64::round`: halves go away from zero. -/
def roundAway (x : ℚ) : ℤ :=
  if 0 ≤ x then ⌊x + 1 / 2⌋ else -⌊-x + 1 / 2⌋

/-- `(x * 10_000.0).round().clamp(0.0, 65_535.0) as u16` -/
def bps (x : ℚ) : UInt16 :=
  .ofNat (min 65535 (max 0 (roundAway (x * 10000)))).toNat

/-- `NANOTON_PER_TON` times a whole amount, in `u128`. -/
def nanoton (whole : UInt64) : Nat :=
  whole.toNat * 1000000000

/-- `min(u32::MAX as u64) as u32` -/
def cutU32 (x : UInt64) : UInt32 :=
  .ofNat (min x.toNat 0xffffffff)

/-- `min(u8::MAX as usize) as u8` -/
def cutU8 (x : UInt64) : UInt8 :=
  .ofNat (min x.toNat 0xff)

/-- What is read of the `[scheduler]` section. -/
structure SchedulerConfig where
  attemptDeadlineMs : UInt64 := 60000
  progressIntervalMs : UInt64 := 2000
  progressStallMultiplier : UInt32 := 5
  deriving DecidableEq, Repr

def fromConfigParts (econ : EconomicsConfig) (sched : SchedulerConfig) : GlobalParams where
  platformFeeBps := bps econ.fees.platformFeePct
  surchargeBps := bps econ.fees.verificationSurchargePct
  participationCommissionBps := bps econ.fees.participationCommissionFrac
  slashWrongBps := bps econ.slashing.slashWrongResultPct
  slashCheatBps := bps econ.slashing.slashCheatPct
  slashDowntimeBps := bps econ.slashing.slashDowntimePct
  slashEquivocationBps := bps econ.slashing.slashEquivocationPct
  splitChallengerBps := bps econ.slashing.slashToChallenger
  splitRedundancyBps := bps econ.slashing.slashToRedundancy
  splitBurnBps := bps econ.slashing.slashToBurn
  splitTreasuryBps := bps econ.slashing.slashToTreasury
  minStake := nanoton econ.stake.minStake
  minStakeInternal := nanoton econ.stake.minStakeInternal
  minStakeSensitive := nanoton econ.stake.minStakeSensitive
  stakeCap := nanoton econ.stake.stakeCap
  unbondingSecs := cutU32 econ.stake.unbondingSecs
  challengeWindowSecs := cutU32 econ.slashing.challengeWindowSecs
  nPublic := cutU8 econ.selection.nPublic
  nDefault := cutU8 econ.selection.nDefault
  nMax := cutU8 econ.selection.nMax
  -- there is no quorum in the section: the checksum minimum stands for it
  quorum := cutU8 econ.selection.checksumMin
  checksumMin := cutU8 econ.selection.checksumMin
  wQualityBps := bps econ.ranking.wQuality
  wStakeBps := bps econ.ranking.wStake
  wPriceBps := bps econ.ranking.wPrice
  slashFailedCommitmentBps := bps econ.slashing.slashFailedCommitmentPct
  attemptDeadlineMs := cutU32 sched.attemptDeadlineMs
  progressIntervalMs := cutU32 (max sched.progressIntervalMs 1)
  progressStallMult := .ofNat (min (max sched.progressStallMultiplier 1).toNat 0xff)

/-! ## What each conversion keeps -/

theorem toNat_cutU32 (x : UInt64) : (cutU32 x).toNat = min x.toNat 0xffffffff := by
  rw [cutU32, UInt32.toNat_ofNat_of_lt' (by show _ < 2 ^ 32; omega)]

theorem toNat_cutU8 (x : UInt64) : (cutU8 x).toNat = min x.toNat 0xff := by
  rw [cutU8, UInt8.toNat_ofNat_of_lt' (by show _ < 2 ^ 8; omega)]

variable {x y : UInt64} {econ : EconomicsConfig}

theorem cutU32_le (h : x ≤ y) : (cutU32 x).toNat ≤ (cutU32 y).toNat := by
  rw [toNat_cutU32, toNat_cutU32]
  exact min_le_min_right _ (UInt64.le_iff_toNat_le.mp h)

theorem cutU8_le (h : x ≤ y) : (cutU8 x).toNat ≤ (cutU8 y).toNat := by
  rw [toNat_cutU8, toNat_cutU8]
  exact min_le_min_right _ (UInt64.le_iff_toNat_le.mp h)

theorem nanoton_le (h : x ≤ y) : nanoton x ≤ nanoton y :=
  Nat.mul_le_mul_right _ (UInt64.le_iff_toNat_le.mp h)

theorem one_le_max_u64 (x : UInt64) : 1 ≤ (max x 1).toNat := by
  show 1 ≤ (if x ≤ 1 then 1 else x).toNat
  split
  · exact le_rfl
  · next h =>
    rw [UInt64.le_iff_toNat_le, Nat.not_le] at h
    exact h.le

theorem one_le_max_u32 (x : UInt32) : 1 ≤ (max x 1).toNat := by
  show 1 ≤ (if x ≤ 1 then 1 else x).toNat
  split
  · exact le_rfl
  · next h =>
    rw [UInt32.le_iff_toNat_le, Nat.not_le] at h
    exact h.le

/-- A fraction of the whole is rounded to the nearest basis point. -/
theorem toNat_bps {x : ℚ} (h : 0 ≤ x ∧ x ≤ 1) : ((bps x).toNat : ℤ) = ⌊x * 10000 + 1 / 2⌋ := by
  have hnonneg : 0 ≤ x * 10000 := by linarith
  have hlow : 0 ≤ ⌊x * 10000 + 1 / 2⌋ := Int.floor_nonneg.mpr (by linarith)
  have hhigh : ⌊x * 10000 + 1 / 2⌋ < 10001 := by
    rw [Int.floor_lt]
    linarith
  have hround : min 65535 (max 0 (roundAway (x * 10000))) = ⌊x * 10000 + 1 / 2⌋ := by
    rw [roundAway, if_pos hnonneg, max_eq_right hlow, min_eq_right (by omega)]
  rw [bps, hround, UInt16.toNat_ofNat_of_lt' (by show _ < 2 ^ 16; omega), Int.toNat_of_nonneg hlow]

/-- Rounding does not go past a whole number of basis points. -/
theorem bps_le {x : ℚ} {n : Nat} (h : 0 ≤ x ∧ x ≤ 1) (hn : x * 10000 ≤ n) : (bps x).toNat ≤ n := by
  have hfloor : ⌊x * 10000 + 1 / 2⌋ < (n : ℤ) + 1 := by
    rw [Int.floor_lt]
    push_cast
    linarith
  have hbps := toNat_bps h
  omega

/-! ## The shares of a slash -/

/-- The share is rounded up: at least half a basis point is over. -/
def RoundsUp (x : ℚ) : Prop :=
  1 / 2 ≤ Int.fract (x * 10000)

instance (x : ℚ) : Decidable (RoundsUp x) :=
  inferInstanceAs (Decidable (_ ≤ _))

theorem floor_add_half (y : ℚ) :
    ⌊y + 1 / 2⌋ = ⌊y⌋ + if 1 / 2 ≤ Int.fract y then 1 else 0 := by
  have hfract := Int.self_sub_floor y
  have hlt := Int.fract_lt_one y
  have hnonneg := Int.fract_nonneg y
  rw [Int.floor_eq_iff]
  split
  all_goals
    push_cast
    constructor <;> linarith

/-- As many shares are rounded up as basis points are missing when all are rounded down. -/
def SplitsEvenly (s : SlashingEconomics) : Prop :=
  (s.shares.map fun x => ⌊x * 10000⌋).sum + s.shares.countP (RoundsUp ·) = 10000

instance (s : SlashingEconomics) : Decidable (SplitsEvenly s) :=
  inferInstanceAs (Decidable (_ = _))

theorem split_sum_iff (h : econ.Accepted) :
    (bps econ.slashing.slashToChallenger).toNat + (bps econ.slashing.slashToRedundancy).toNat +
        (bps econ.slashing.slashToBurn).toNat + (bps econ.slashing.slashToTreasury).toNat = 10000 ↔
      SplitsEvenly econ.slashing := by
  have hone : ∀ x, 0 ≤ x ∧ x ≤ 1 →
      ((bps x).toNat : ℤ) = ⌊x * 10000⌋ + if RoundsUp x then 1 else 0 :=
    fun x hx => (toNat_bps hx).trans (floor_add_half _)
  have hchallenger := hone _ h.challenger
  have hredundancy := hone _ h.redundancy
  have hburn := hone _ h.burn
  have htreasury := hone _ h.treasury
  simp only [SplitsEvenly, SlashingEconomics.shares, List.map_cons, List.map_nil, List.sum_cons,
    List.sum_nil, List.countP_cons, List.countP_nil, decide_eq_true_eq]
  push_cast
  omega

/-- All that the parameters need besides the sum of the split comes from the configuration. -/
theorem sharedBounds_iff (h : econ.Accepted) (sched : SchedulerConfig) :
    SharedBounds (fromConfigParts econ sched) ↔
      (bps econ.slashing.slashToChallenger).toNat + (bps econ.slashing.slashToRedundancy).toNat +
        (bps econ.slashing.slashToBurn).toNat + (bps econ.slashing.slashToTreasury).toNat =
          10000 := by
  refine ⟨fun hbounds => hbounds.split, fun hsplit => ?_⟩
  have hchecksum : 1 ≤ (cutU8 econ.selection.checksumMin).toNat := by
    have hmin : 1 ≤ econ.selection.checksumMin.toNat := UInt64.le_iff_toNat_le.mp h.checksumMin
    rw [toNat_cutU8]
    omega
  exact
    { split := hsplit
      commission := bps_le ⟨h.commission.1, by linarith [h.commission.2]⟩ (by
        push_cast
        linarith [h.commission.2])
      sensitive := nanoton_le h.sensitive
      internal := nanoton_le h.internal
      cap := nanoton_le h.cap
      unbonding := cutU32_le h.unbonding
      checksumMin := hchecksum
      nPublic := cutU8_le h.nPublic
      nDefault := cutU8_le h.nDefault
      nMax := cutU8_le h.nMax
      quorum := ⟨hchecksum, (cutU8_le h.nPublic).trans (cutU8_le h.nDefault)⟩
      failedCommitment := bps_le h.failedCommitment (by
        push_cast
        linarith [h.failedCommitment.2])
      progressInterval := by
        show 1 ≤ (cutU32 _).toNat
        have hmax := one_le_max_u64 sched.progressIntervalMs
        rw [toNat_cutU32]
        omega
      progressStall := by
        show 1 ≤ (UInt8.ofNat _).toNat
        have hmax := one_le_max_u32 sched.progressStallMultiplier
        rw [UInt8.toNat_ofNat_of_lt' (by show _ < 2 ^ 8; omega)]
        omega }

/-- A configuration that passes its check gives parameters that pass theirs just if the rounded
    shares of a slash make up the whole. -/
theorem fromConfigParts_valid_iff (display : ℚ → String) (econ : EconomicsConfig)
    (sched : SchedulerConfig) (h : econ.validate display = .ok ()) :
    GlobalParams.validate (fromConfigParts econ sched) = .ok () ↔ SplitsEvenly econ.slashing := by
  have haccepted := EconomicsConfig.accepted_of_validate h
  rw [validate_eq_ok_iff, sharedBounds_iff haccepted, split_sum_iff haccepted]

/-- The shares of the default configuration are whole basis points. -/
theorem default_config_valid :
    EconomicsConfig.validate (fun _ => "") {} = .ok () ∧
      GlobalParams.validate (fromConfigParts {} {}) = .ok () := by
  have hvalid : EconomicsConfig.validate (fun _ => "") {} = .ok () := by decide +kernel
  exact ⟨hvalid, (fromConfigParts_valid_iff _ {} {} hvalid).mpr (by decide +kernel)⟩

/-- A slash in three parts, to five digits. -/
def inThirds : EconomicsConfig :=
  { slashing :=
      { slashToChallenger := 33333 / 100000
        slashToRedundancy := 33333 / 100000
        slashToBurn := 33334 / 100000
        slashToTreasury := 0 } }

/-- The thirds sum to 1, and their basis points to 9999. -/
theorem thirds_rejected :
    inThirds.slashing.splitSum = 1 ∧ inThirds.validate (fun _ => "") = .ok () ∧
      GlobalParams.validate (fromConfigParts inThirds {}) =
        .error "slash split bps must sum to 10000, got 9999" := by
  decide +kernel

end Duckton.Settlement
