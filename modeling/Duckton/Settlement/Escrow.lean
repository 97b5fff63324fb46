/-
  Escrow sizing (settlement/types.rs). Amounts are `u128` nanoton and saturate.
-/
import Mathlib.Tactic.GCongr
import Mathlib.Tactic.Ring
import Duckton.Lib.Saturating

namespace Duckton.Settlement

/-- `BPS_DENOM`. -/
def bpsDenom : Nat :=
  10000

/-- `saturating_mul` and `saturating_add` on `u128`. -/
def satMul (a b : Nat) : Nat :=
  Saturating.mul 128 a b

def satAdd (a b : Nat) : Nat :=
  Saturating.add 128 a b

/-- Winner base, platform fee and one commission for each agreeing runner. -/
def requiredEscrowTotal (base agreeingNonWinners platformFeeBps participationCommissionBps : Nat) :
    Nat :=
  let fee := satMul base platformFeeBps / bpsDenom
  let commissionEach := satMul base participationCommissionBps / bpsDenom
  let commissions := satMul commissionEach agreeingNonWinners
  satAdd (satAdd base fee) commissions

/-- `SettleError::InsufficientEscrow`. -/
structure InsufficientEscrow where
  needed : Nat
  available : Nat
  runners : Nat
  platformFeeBps : Nat
  participationCommissionBps : Nat
  deriving DecidableEq, Repr

def ensureEscrowCovers (available base agreeingNonWinners : Nat)
    (platformFeeBps participationCommissionBps : Nat) : Except InsufficientEscrow Nat :=
  let needed := requiredEscrowTotal base agreeingNonWinners platformFeeBps
    participationCommissionBps
  if available < needed then
    .error ⟨needed, available, agreeingNonWinners, platformFeeBps, participationCommissionBps⟩
  else .ok needed

/-- A rate of the base, rounded down to whole nanoton. -/
def shareOf (base rateBps : Nat) : Nat :=
  satMul base rateBps / bpsDenom

/-! ## Sizing without saturation -/

variable {b base n fee commission : Nat}

theorem satMul_mono {a a' b' : Nat} (ha : a ≤ a') (hb : b ≤ b') :
    satMul a b ≤ satMul a' b' := by
  have hmul : a * b ≤ a' * b' := Nat.mul_le_mul ha hb
  unfold satMul Saturating.mul
  omega

theorem satAdd_mono {a a' b' : Nat} (ha : a ≤ a') (hb : b ≤ b') :
    satAdd a b ≤ satAdd a' b' := by
  unfold satAdd Saturating.add
  omega

theorem shareOf_mono {base' : Nat} (h : base ≤ base') (rate : Nat) :
    shareOf base rate ≤ shareOf base' rate :=
  Nat.div_le_div_right (satMul_mono h (Nat.le_refl rate))

theorem shareOf_le (base rate : Nat) : shareOf base rate ≤ base * rate / 10000 :=
  Nat.div_le_div_right (Saturating.mul_le 128 base rate)

theorem shareOf_eq {rate : Nat} (h : base * rate < 2 ^ 128) :
    shareOf base rate = base * rate / 10000 := by
  have hmul : satMul base rate = base * rate := Saturating.mul_eq h
  unfold shareOf
  rw [hmul]
  rfl

theorem requiredEscrowTotal_le (base n fee commission : Nat) :
    requiredEscrowTotal base n fee commission ≤
      base + shareOf base fee + shareOf base commission * n := by
  have hmul : satMul (shareOf base commission) n ≤ shareOf base commission * n :=
    Saturating.mul_le 128 _ _
  have hfee : satAdd base (shareOf base fee) ≤ base + shareOf base fee :=
    Saturating.add_le 128 _ _
  have htotal : requiredEscrowTotal base n fee commission ≤
      satAdd base (shareOf base fee) + satMul (shareOf base commission) n :=
    Saturating.add_le 128 _ _
  omega

/-- A total below the ceiling was not cut off. -/
theorem le_requiredEscrowTotal (h : requiredEscrowTotal base n fee commission < 2 ^ 128 - 1) :
    base + shareOf base fee + shareOf base commission * n ≤
      requiredEscrowTotal base n fee commission := by
  have hdef : requiredEscrowTotal base n fee commission =
      satAdd (satAdd base (shareOf base fee)) (satMul (shareOf base commission) n) := rfl
  rw [hdef] at h ⊢
  unfold satAdd satMul Saturating.add Saturating.mul at h ⊢
  generalize shareOf base commission * n = c at h ⊢
  omega

theorem ensureEscrowCovers_isOk_iff {available : Nat} :
    (∃ r, ensureEscrowCovers available base n fee commission = .ok r) ↔
      requiredEscrowTotal base n fee commission ≤ available := by
  unfold ensureEscrowCovers
  dsimp only
  split_ifs with h
  · exact ⟨fun ⟨_, habs⟩ => (nomatch habs), fun hle => absurd h (Nat.not_lt.mpr hle)⟩
  · exact ⟨fun _ => Nat.le_of_not_lt h, fun _ => ⟨_, rfl⟩⟩

/-- A smaller base needs no more. -/
theorem legs_mono {base' : Nat} (h : base ≤ base') (n fee commission : Nat) :
    base + shareOf base fee + shareOf base commission * n ≤
      base' + shareOf base' fee + shareOf base' commission * n := by
  have hfee := shareOf_mono h fee
  have hcomm := Nat.mul_le_mul_right n (shareOf_mono h commission)
  omega

/-- The base that spends an escrow over all legs fits it. -/
theorem legs_le_of_mul_le (h : base * (10000 + fee + n * commission) ≤ b * 10000) :
    base + shareOf base fee + shareOf base commission * n ≤ b := by
  have hfee : 10000 * shareOf base fee ≤ base * fee :=
    (Nat.mul_le_mul_left 10000 (shareOf_le base fee)).trans (Nat.mul_div_le _ _)
  have hcomm : 10000 * shareOf base commission ≤ base * commission :=
    (Nat.mul_le_mul_left 10000 (shareOf_le base commission)).trans (Nat.mul_div_le _ _)
  have hall : 10000 * (base + shareOf base fee + shareOf base commission * n) ≤ b * 10000 :=
    calc 10000 * (base + shareOf base fee + shareOf base commission * n)
        = base * 10000 + 10000 * shareOf base fee + 10000 * shareOf base commission * n := by ring
      _ ≤ base * 10000 + base * fee + base * commission * n := by gcongr
      _ = base * (10000 + fee + n * commission) := by ring
      _ ≤ b * 10000 := h
  omega

end Duckton.Settlement
