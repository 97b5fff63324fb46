/-
  The split of an escrow at a fixed price (node/coordinator.rs, settle_paid_job without metered
  terms).

  The winner's price is derived from the escrow `B` so that price, platform fee and the commissions
  of all `n` agreeing verifiers spend about all of it: `B` is divided by the sum of the three rates.
  Every division rounds down, so the legs never exceed `B`, and each of the `n + 2` roundings leaves
  less than one unit of its own behind (`fixed_split_bounds`).
-/
import Duckton.Node.MeteredEscrow

namespace Duckton.Node

open Duckton.Settlement

/-- No operation of the fixed price saturates. -/
structure FixedFits (b n feeBps commissionBps : Nat) : Prop where
  commissions : n * commissionBps < 2 ^ 128
  fee : bpsDenom + feeBps < 2 ^ 128
  denom : bpsDenom + feeBps + n * commissionBps < 2 ^ 128
  scaled : b * bpsDenom < 2 ^ 128

variable {b n feeBps commissionBps : Nat}

theorem FixedFits.settledBase_eq {cfg : GridConfig}
    (h : FixedFits b n cfg.platformFeeBps cfg.participationCommissionBps) :
    settledBase cfg none b n =
      b * 10000 / (10000 + cfg.platformFeeBps + n * cfg.participationCommissionBps) := by
  unfold settledBase satAdd satMul
  rw [Saturating.mul_eq h.commissions, Saturating.add_eq h.fee, Saturating.add_eq h.denom,
    Saturating.mul_eq h.scaled]
  rfl

theorem fixedFits_of_lt (hb : b < 2 ^ 100) (hn : n < 2 ^ 64)
    (hfee : feeBps < 2 ^ 16) (hcomm : commissionBps < 2 ^ 16) :
    FixedFits b n feeBps commissionBps := by
  have hcommissions : n * commissionBps < 2 ^ 64 * 2 ^ 16 := Nat.mul_lt_mul'' hn hcomm
  refine ⟨by omega, ?_, ?_, ?_⟩
  · show 10000 + feeBps < _
    omega
  · show 10000 + feeBps + n * commissionBps < _
    omega
  · show b * 10000 < _
    omega

theorem TotalFits.requiredEscrowTotal_eq {base : Nat}
    (h : TotalFits base n feeBps commissionBps) :
    requiredEscrowTotal base n feeBps commissionBps =
      base + base * feeBps / 10000 + base * commissionBps / 10000 * n := by
  unfold requiredEscrowTotal satAdd satMul
  dsimp only
  rw [Saturating.mul_eq h.fee, Saturating.mul_eq h.commission, Saturating.mul_eq h.commissions,
    Saturating.add_eq h.subtotal, Saturating.add_eq h.total]
  rfl

/-- Rounding a rate down costs less than one unit. -/
theorem lt_share (base rate : Nat) : base * rate < 10000 * (base * rate / 10000) + 10000 := by
  omega

/-- What the legs leave of the escrow. -/
theorem remainder_lt {base : Nat}
    (hbase : b * 10000 < (base + 1) * (10000 + feeBps + n * commissionBps)) :
    10000 * b < 10000 * (base + base * feeBps / 10000 + n * (base * commissionBps / 10000)) +
      (10000 + feeBps + n * commissionBps) + 10000 * (n + 1) := by
  have hcomm : n * (base * commissionBps) ≤ n * (10000 * (base * commissionBps / 10000) + 10000) :=
    Nat.mul_le_mul_left n (lt_share base commissionBps).le
  calc 10000 * b < (base + 1) * (10000 + feeBps + n * commissionBps) := by rwa [Nat.mul_comm]
    _ = 10000 * base + base * feeBps + n * (base * commissionBps) +
        (10000 + feeBps + n * commissionBps) := by ring
    _ ≤ 10000 * base + (10000 * (base * feeBps / 10000) + 10000) +
        n * (10000 * (base * commissionBps / 10000) + 10000) +
        (10000 + feeBps + n * commissionBps) := by omega
    _ = _ := by ring

/-- The price leaves room for the fee and for the commissions of all verifiers, whoever of them is
    paid, and all but the roundings is spent if all of them are. -/
theorem fixed_split_bounds (cfg : GridConfig) (hrates : cfg.RatesFit) (b n : Nat)
    (hb : b < 2 ^ 100) (hn : n < 2 ^ 64) :
    let fee := cfg.platformFeeBps
    let commission := cfg.participationCommissionBps
    let base := settledBase cfg none b n
    let total := base + base * fee / 10000 + n * (base * commission / 10000)
    FixedFits b n fee commission ∧ total ≤ b ∧
    (∀ m ≤ n, TotalFits base m fee commission ∧
      ensureEscrowCovers b base m fee commission =
        .ok (base + base * fee / 10000 + base * commission / 10000 * m)) ∧
    10000 * (b - total) < (10000 + fee + n * commission) + 10000 * (n + 1) := by
  intro fee commission base total
  have hfits : FixedFits b n fee commission :=
    fixedFits_of_lt hb hn hrates.fee hrates.commission
  have hbase : base = b * 10000 / (10000 + fee + n * commission) := hfits.settledBase_eq
  have hmul : base * (10000 + fee + n * commission) ≤ b * 10000 :=
    hbase ▸ Nat.div_mul_le_self _ _
  have hlegs := legs_le_of_mul_le hmul
  have hsmall : base < 2 ^ 112 := by omega
  have hshare : ∀ rate < 2 ^ 16, shareOf base rate = base * rate / 10000 := fun rate hrate =>
    shareOf_eq (calc base * rate < 2 ^ 112 * 2 ^ 16 := Nat.mul_lt_mul'' hsmall hrate
      _ = 2 ^ 128 := by decide)
  have htotal : total ≤ b := by
    rwa [hshare fee hrates.fee, hshare commission hrates.commission, Nat.mul_comm _ n] at hlegs
  refine ⟨hfits, htotal, fun m hm => ?_, ?_⟩
  · have hfewer : base + shareOf base fee + shareOf base commission * m ≤ b :=
      (legs_le_legs le_rfl hm fee commission).trans hlegs
    have hexact : TotalFits base m fee commission :=
      totalFits_of_legs_le hrates.fee hrates.commission (by omega)
    have hneeded := (requiredEscrowTotal_le base m fee commission).trans hfewer
    refine ⟨hexact, ?_⟩
    rw [← hexact.requiredEscrowTotal_eq]
    exact if_neg (Nat.not_lt.mpr hneeded)
  · have hdenom : 0 < 10000 + fee + n * commission := by omega
    have hquot : b * 10000 < (base + 1) * (10000 + fee + n * commission) := by
      rw [hbase, Nat.mul_comm (_ + 1)]
      exact Nat.lt_mul_div_succ _ hdenom
    have hleft := remainder_lt hquot
    omega

/-- One TON for a winner and three verifiers: all but one nanoton of it is spent. -/
theorem three_verifiers_split :
    settledBase paidConfig none tonNanoton 3 = 740740740 ∧
      (∀ m ≤ 3, ∃ needed, ensureEscrowCovers tonNanoton (settledBase paidConfig none tonNanoton 3) m
        paidConfig.platformFeeBps paidConfig.participationCommissionBps = .ok needed) := by
  obtain ⟨-, -, hcovered, -⟩ := fixed_split_bounds paidConfig ⟨by decide, by decide⟩ tonNanoton 3
    (by decide) (by decide)
  exact ⟨by decide, fun m hm => ⟨_, (hcovered m hm).2⟩⟩

end Duckton.Node
