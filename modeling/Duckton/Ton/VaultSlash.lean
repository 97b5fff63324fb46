/-
  What one slash takes and where it goes (StakeVault.tolk, StakeSlash and applySlashSplit).

  The bonded bucket is emptied before the cooldown bucket is touched, and the two together lose
  exactly the slashed amount. Three shares are paid out, each rounded down; the burn share is what
  none of them takes, so it gets the roundings and is less than three units above its exact value.
-/
import Duckton.Ton.VaultBurn
import Duckton.Ton.VaultStake

namespace Duckton.Ton.StakeVault

/-! ## The split -/

/-- The payouts leave at least the burn share, and less than three units more. -/
structure SplitBounds (sc : SlashConfig) (amount paid : Nat) : Prop where
  paid_le : paid ≤ amount
  burn_le : amount * sc.splitBurnBps / 10000 ≤ amount - paid
  lt_burn : 10000 * (amount - paid) < amount * sc.splitBurnBps + 3 * 10000

/-- The slashed amount by shares, before rounding. -/
theorem shares_eq {sc : SlashConfig} (h : sc.sum = bpsDenom) (amount : Nat) :
    amount * sc.splitChallengerBps + amount * sc.splitRedundancyBps + amount * sc.splitTreasuryBps +
      amount * sc.splitBurnBps = 10000 * amount := by
  have hsum : sc.splitChallengerBps + sc.splitRedundancyBps + sc.splitTreasuryBps +
      sc.splitBurnBps = 10000 := by
    rw [← show bpsDenom = 10000 from rfl, ← h]
    unfold SlashConfig.sum
    omega
  rw [← Nat.mul_add, ← Nat.mul_add, ← Nat.mul_add, hsum, Nat.mul_comm]

theorem slashPaid_bounds {sc : SlashConfig} (h : sc.sum = bpsDenom) (amount : Nat) :
    SplitBounds sc amount (slashPaid sc amount) := by
  have hshares := shares_eq h amount
  have hpaid : slashPaid sc amount = amount * sc.splitChallengerBps / 10000 +
      amount * sc.splitRedundancyBps / 10000 + amount * sc.splitTreasuryBps / 10000 := rfl
  generalize amount * sc.splitChallengerBps = challenger at *
  generalize amount * sc.splitRedundancyBps = redundancy at *
  generalize amount * sc.splitTreasuryBps = treasury at *
  generalize hburn : amount * sc.splitBurnBps = burn at *
  exact ⟨by omega, by rw [hburn]; omega, by rw [hburn]; omega⟩

/-! ## The payouts -/

/-- The coins that a payout carries. -/
def payoutValue : VaultAction → Nat
  | .send _ (.coins amount) _ _ (.stakePayout _) => amount
  | _ => 0

theorem sum_payoutIfPositive (recipient : Address) (amount queryId : Nat) :
    ((payoutIfPositive recipient amount queryId).map payoutValue).sum = amount := by
  unfold payoutIfPositive
  split_ifs with h
  · exact Nat.add_zero amount
  · exact (Nat.eq_zero_of_not_pos h).symm

theorem sum_slashPayouts (sc : SlashConfig) (amount : Nat) (challenger : Address) (queryId : Nat) :
    ((slashPayouts sc amount challenger queryId).map payoutValue).sum = slashPaid sc amount := by
  unfold slashPayouts slashPaid
  rw [List.map_append, List.map_append, List.sum_append, List.sum_append, sum_payoutIfPositive,
    sum_payoutIfPositive, sum_payoutIfPositive]

/-! ## The buckets -/

/-- The amount is taken out of the bonded bucket first. -/
structure BondedFirst (s s' : VaultStorage) (amount : Nat) : Prop where
  bonded : s'.staked ≤ s.staked
  cooldown : s'.unbondingAmount ≤ s.unbondingAmount
  first : s'.unbondingAmount < s.unbondingAmount → s'.staked = 0
  exact : s'.staked + s'.unbondingAmount + amount = s.staked + s.unbondingAmount

/-- A slash within the two buckets takes exactly its amount, bonded stake first, and splits it up to
    rounding; the slasher's own message is accepted wherever the receipts are backed, which they are
    in every run. -/
theorem slash_takes_and_splits (chain : Chain) (s : VaultStorage) (inMsg : InMessage)
    (queryId amount : Nat) (challenger : Address)
    (hamount : amount ≤ s.staked + s.unbondingAmount) (hsplit : s.config.slash.sum = bpsDenom) :
    SplitBounds s.config.slash amount (slashPaid s.config.slash amount) ∧
    (∀ s' actions, stakeSlash chain s inMsg queryId amount challenger = .ok (s', actions) →
      (actions.map payoutValue).sum = slashPaid s.config.slash amount ∧
        BondedFirst s s' amount) ∧
    (StakeInv s → inMsg.senderAddress = s.config.slasher → 0 < amount →
      ∃ r, stakeSlash chain s inMsg queryId amount challenger = .ok r) := by
  refine ⟨slashPaid_bounds hsplit amount, ?_, ?_⟩
  · intro s' actions h
    obtain ⟨-, -, -, -, hr⟩ := stakeSlash_eq_ok_iff.mp h
    cases hr
    refine ⟨?_, ?_⟩
    · rw [List.map_cons, List.sum_cons, sum_slashPayouts]
      exact Nat.zero_add _
    · exact ⟨Nat.sub_le _ _, Nat.sub_le _ _, fun h => by dsimp only at h ⊢; omega,
        by dsimp only; omega⟩
  · intro hinv hsender hpos
    have hsupply : amount ≤ s.totalSupply := hinv.backed ▸ hamount
    exact ⟨_, stakeSlash_eq_ok_iff.mpr ⟨hsender, ⟨hpos, hamount⟩, hsupply, hsplit, rfl⟩⟩

/-- Bonded are 5, in cooldown 6, and 7 are slashed: the bonded bucket is emptied, and of shares of 40,
    30, 20 and 10 percent the one of 20 percent gets 3. -/
def halfBonded : VaultStorage :=
  { (deployed (party 3) drainConfig 0 0).storage with
    staked := 5, unbondingAmount := 6, unbondingAt := 1, totalSupply := 11
    config := { drainConfig with slash := ⟨party 6, party 7, 4000, 3000, 2000, 1000⟩ } }

theorem seven_of_eleven_slashed :
    (∃ s' actions, stakeSlash drainChain halfBonded (.sent (party 4) 0 1) 0 7 (party 8) =
        .ok (s', actions) ∧ BondedFirst halfBonded s' 7) ∧
      SplitBounds halfBonded.config.slash 7 4 := by
  obtain ⟨hbounds, htaken, haccepted⟩ := slash_takes_and_splits drainChain halfBonded
    (.sent (party 4) 0 1) 0 7 (party 8) (by decide) (by decide)
  obtain ⟨⟨s', actions⟩, h⟩ := haccepted ⟨by decide, by decide⟩ (by decide) (by decide)
  exact ⟨⟨s', actions, h, (htaken s' actions h).2⟩, hbounds⟩

end Duckton.Ton.StakeVault
