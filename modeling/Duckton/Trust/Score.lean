/-
  Scores (trust/reputation.rs): the functions that turn the record of a worker into a number.

  The arithmetic of doubles is a parameter; comparisons are those of `F64`.
-/
import Duckton.Trust.InMemoryStore

namespace Duckton.Trust

open Duckton.Proto

/-- The operations on doubles of a score; `clampUnit` is `clamp(0.0, 1.0)`. -/
structure ScoreOps extends FloatOps where
  min : F64 → F64 → F64
  sqrt : F64 → F64
  clampUnit : F64 → F64

/-- `usize as f64` -/
def ScoreOps.ofUsize (ops : ScoreOps) (n : Nat) : F64 :=
  ops.ofU64 (UInt64.ofNat n)

/-- 2.0 -/
def two : F64 :=
  ⟨0x4000000000000000⟩

/-- 4.0 -/
def four : F64 :=
  ⟨0x4010000000000000⟩

/-- `x <= 0.0` -/
def nonPositive (x : F64) : Bool :=
  !x.isNaN && !F64.lt .zero x

/-- The pseudo-counts and the width of the interval, `economics.reputation`. -/
structure ReputationConfig where
  priorAlpha : F64
  priorBeta : F64
  confidenceZ : F64
  deriving DecidableEq, Repr

def confidenceReputation (ops : ScoreOps) (rep : ReputationConfig) (ratio : F64)
    (observations : Nat) : F64 :=
  let n := ops.ofUsize observations
  let alpha := ops.max rep.priorAlpha .zero
  let beta := ops.max rep.priorBeta .zero
  let z := rep.confidenceZ
  let successes := ops.add (ops.mul (ops.clampUnit ratio) n) alpha
  let trials := ops.add (ops.add n alpha) beta
  if nonPositive trials then .zero
  else
    let p := ops.div successes trials
    if nonPositive z then ops.clampUnit p
    else
      let z2 := ops.mul z z
      let denom := ops.add .one (ops.div z2 trials)
      let centre := ops.add p (ops.div z2 (ops.mul two trials))
      let spread := ops.div (ops.mul p (ops.sub .one p)) trials
      let widening := ops.div z2 (ops.mul (ops.mul four trials) trials)
      let margin := ops.mul z (ops.sqrt (ops.max (ops.add spread widening) .zero))
      ops.clampUnit (ops.div (ops.sub centre margin) denom)

namespace Answers

variable (ops : ScoreOps) (rep : ReputationConfig)

def confidentReputation (answers : Answers) (worker : NodeId) (now : UInt64) : Option F64 :=
  (answers.reputation worker now).map fun ratio =>
    confidenceReputation ops rep ratio (answers.observationCount worker)

def capabilityConfidence (answers : Answers) (worker : NodeId) : F64 :=
  match answers.provenCapability worker with
  | some cap => if 0 < cap.successes then confidenceReputation ops rep .one cap.successes else .zero
  | none => .zero

end Answers

structure ReputationWeights where
  alphaReputation : F64
  betaAge : F64
  gammaVoucher : F64
  deltaStake : F64
  deriving DecidableEq, Repr

structure TrustInputs where
  reputation : F64
  ageFactor : F64
  voucherTrust : F64
  stakeFactor : F64
  penalties : F64
  deriving DecidableEq, Repr

def softTrustScore (ops : ScoreOps) (weights : ReputationWeights) (inputs : TrustInputs) : F64 :=
  let reputation := ops.mul weights.alphaReputation inputs.reputation
  let age := ops.mul weights.betaAge inputs.ageFactor
  let voucher := ops.mul weights.gammaVoucher inputs.voucherTrust
  let stake := ops.mul weights.deltaStake inputs.stakeFactor
  ops.clampUnit
    (ops.sub (ops.add (ops.add (ops.add reputation age) voucher) stake) inputs.penalties)

def ageFactor (ops : ScoreOps) (observations saturateAt : Nat) : F64 :=
  if saturateAt = 0 then .one
  else ops.min (ops.div (ops.ofUsize observations) (ops.ofUsize saturateAt)) .one

def explorationBonus (ops : ScoreOps) (observations : Nat) (rate : F64) (saturation : Nat) : F64 :=
  if nonPositive rate || saturation == 0 then .zero
  else
    let seen := ops.min (ops.div (ops.ofUsize observations) (ops.ofUsize saturation)) .one
    ops.max (ops.mul rate (ops.sub .one seen)) .zero

end Duckton.Trust
