/-
  When the stake vault can meet its liabilities.

  A vault owes the bonded stake, the stake in cooldown, and every credit of the pull ledger.
  The withdrawals keep only the bonded stake and the storage buffer back, and the receipt burn
  of a slash takes its 0.02 TON from whatever is there; all other transitions keep the balance
  at or above what is owed. `KeepsBacking` says exactly when a single event does, and a run
  stays solvent just when all of its events do.
-/
import Duckton.Lib.Run
import Duckton.Ton.StakeVault

namespace Duckton.Ton.StakeVault

open Tvm

/-- What the vault owes: both stake buckets and the whole pull ledger. -/
def liabilities (storage : VaultStorage) : Nat :=
  storage.staked + storage.unbondingAmount + storage.pending.total

def Solvent (v : Vault) : Prop :=
  liabilities v.storage ≤ v.balance

/-- What is left for later actions once the receipt burn was sent, or skipped for lack of funds. -/
def afterBurn (funds : Nat) : Nat :=
  if burnValue ≤ funds then funds - burnValue else funds

/-- The sum of the three payouts of a slash. -/
def slashPaid (sc : SlashConfig) (amount : Nat) : Nat :=
  mulDivFloor amount sc.splitChallengerBps bpsDenom +
    mulDivFloor amount sc.splitRedundancyBps bpsDenom +
    mulDivFloor amount sc.splitTreasuryBps bpsDenom

/-- The owner's withdrawal goes through. -/
structure WithdrawDue (v : Vault) (inMsg : InMessage) : Prop where
  sender : inMsg.senderAddress = v.storage.owner
  unbonding : 0 < v.storage.unbondingAmount
  ready : v.storage.unbondingAt + v.storage.config.unbondingPeriod ≤ inMsg.now
  supply : v.storage.unbondingAmount ≤ v.storage.totalSupply
  funds : v.storage.staked + minTonsForStorage ≤ afterBurn (v.balance + inMsg.valueCoins)

/-- A keeper's withdrawal goes through. -/
structure KeeperDue (v : Vault) (inMsg : InMessage) : Prop where
  unbonding : 0 < v.storage.unbondingAmount
  ready : v.storage.unbondingAt + v.storage.config.unbondingPeriod +
    v.storage.config.keeperGrace ≤ inMsg.now
  supply : v.storage.unbondingAmount ≤ v.storage.totalSupply
  funds : v.storage.staked + minTonsForStorage + keeperBounty v.storage ≤
    afterBurn (v.balance + inMsg.valueCoins)

/-- A slash of `amount` goes through. -/
structure SlashDue (v : Vault) (inMsg : InMessage) (amount : Nat) : Prop where
  sender : inMsg.senderAddress = v.storage.config.slasher
  slashable : 0 < amount ∧ amount ≤ v.storage.staked + v.storage.unbondingAmount
  supply : amount ≤ v.storage.totalSupply
  split : v.storage.config.slash.sum = bpsDenom
  funds : slashPaid v.storage.config.slash amount ≤ afterBurn (v.balance + inMsg.valueCoins)

/-- The vault's balance beyond what it owes. -/
def surplus (v : Vault) : Nat :=
  v.balance - liabilities v.storage

/-- The events that leave a solvent vault solvent. A withdrawal may find no more credits than the
    storage buffer it leaves behind; a slash must have its burn message paid by the attached
    value, the surplus, or the share of the slash that is not paid out. -/
def KeepsBacking (v : Vault) : Event → Prop
  | .receive inMsg (.stakeWithdraw _) =>
    WithdrawDue v inMsg → v.storage.pending.total ≤ minTonsForStorage
  | .receive inMsg (.stakeKeeperWithdraw _) =>
    KeeperDue v inMsg → v.storage.pending.total ≤ minTonsForStorage
  | .receive inMsg (.stakeSlash _ amount _ _) =>
    SlashDue v inMsg amount →
      v.balance + inMsg.valueCoins < burnValue ∨
      burnValue ≤ inMsg.valueCoins + surplus v +
        (amount - slashPaid v.storage.config.slash amount)
  | _ => True

/-! ## The action lists -/

section Actions

variable {p : Phase Address Body Nat} {inValue : Nat} {chain : Chain} {storage : VaultStorage}
  {amount queryId : Nat} {rest : List VaultAction} {recipient : Address}

/-- The phase after the burn message. -/
def burned (chain : Chain) (storage : VaultStorage) (amount queryId : Nat)
    (p : Phase Address Body Nat) : Phase Address Body Nat :=
  if burnValue ≤ p.remaining then
    p.pay (chain.calcReceiptWalletAddress storage.owner chain.self
      storage.config.receiptWalletCode) burnValue false (.receiptBurn queryId amount)
  else p

theorem run_burnReceipt :
    p.run inValue (burnReceipt chain storage amount queryId :: rest) =
      (burned chain storage amount queryId p).run inValue rest := by
  rw [burnReceipt, Phase.run_cons, Phase.step_ignored, Option.bind_some]
  rfl

@[simp] theorem burned_remaining :
    (burned chain storage amount queryId p).remaining = afterBurn p.remaining := by
  unfold burned afterBurn
  rw [apply_ite Phase.remaining, Phase.pay_remaining]

@[simp] theorem burned_reserved :
    (burned chain storage amount queryId p).reserved = p.reserved := by
  unfold burned
  rw [apply_ite Phase.reserved, Phase.pay_reserved, ite_self]

/-- The phase after a payout that is only sent if positive. -/
def paid (recipient : Address) (amount queryId : Nat) (p : Phase Address Body Nat) :
    Phase Address Body Nat :=
  if 0 < amount then p.pay recipient amount true (.stakePayout queryId) else p

@[simp] theorem paid_remaining :
    (paid recipient amount queryId p).remaining = p.remaining - amount := by
  unfold paid
  split
  · rfl
  · omega

@[simp] theorem paid_reserved : (paid recipient amount queryId p).reserved = p.reserved := by
  unfold paid
  split <;> rfl

theorem run_payoutIfPositive :
    p.run inValue (payoutIfPositive recipient amount queryId ++ rest) =
      if amount ≤ p.remaining then (paid recipient amount queryId p).run inValue rest
      else none := by
  unfold payoutIfPositive paid
  by_cases hpos : 0 < amount
  · rw [if_pos hpos, if_pos hpos, List.singleton_append, payout, Phase.run_cons, Phase.step_send]
    split <;> rfl
  · have hzero : amount = 0 := by omega
    rw [if_neg hpos, if_neg hpos, if_pos (by omega), List.nil_append]

/-- A keeper's withdrawal keeps exactly what it reserves: the bounty comes out of what is swept to
    the owner. -/
theorem run_keeper_actions (inValue funds keep bounty : Nat) (keeper owner : Address) :
    ((Phase.start funds).run inValue (burnReceipt chain storage amount queryId ::
      .reserveExact (keep + minTonsForStorage) ::
      (payoutIfPositive keeper bounty queryId ++
        [payoutRemainderNoReserve owner queryId]))).map Phase.balance =
      if keep + minTonsForStorage + bounty ≤ afterBurn funds then
        some (keep + minTonsForStorage)
      else none := by
  rw [run_burnReceipt, Phase.run_cons, Phase.step_reserve, burned_remaining,
    Phase.start_remaining]
  by_cases hkeep : keep + minTonsForStorage ≤ afterBurn funds
  · rw [if_pos hkeep, Option.bind_some, run_payoutIfPositive, Phase.reserve_remaining,
      burned_remaining, Phase.start_remaining]
    by_cases hbounty : bounty ≤ afterBurn funds - (keep + minTonsForStorage)
    · have htotal : keep + minTonsForStorage + bounty ≤ afterBurn funds := by omega
      rw [if_pos hbounty, if_pos htotal, payoutRemainderNoReserve, Phase.run_cons,
        Phase.step_sweep, Option.bind_some, Phase.run_nil, Option.map_some, Phase.balance,
        Phase.pay_remaining, Phase.pay_reserved, paid_reserved, Phase.reserve_reserved,
        burned_reserved, Phase.start_reserved]
      exact congrArg some (by omega)
    · have htotal : ¬ keep + minTonsForStorage + bounty ≤ afterBurn funds := by omega
      rw [if_neg hbounty, if_neg htotal]
      rfl
  · have htotal : ¬ keep + minTonsForStorage + bounty ≤ afterBurn funds := by omega
    rw [if_neg hkeep, if_neg htotal]
    rfl

/-- The owner's withdrawal is one without a bounty. -/
theorem run_withdraw_actions (inValue funds keep : Nat) :
    ((Phase.start funds).run inValue (burnReceipt chain storage amount queryId ::
      payoutLiquidRemainder recipient keep queryId)).map Phase.balance =
      if keep + minTonsForStorage ≤ afterBurn funds then some (keep + minTonsForStorage)
      else none :=
  run_keeper_actions inValue funds keep 0 recipient recipient

/-- A slash keeps what its burn message and its three payouts leave. -/
theorem run_slash_actions (inValue funds : Nat) (sc : SlashConfig) (challenger : Address) :
    ((Phase.start funds).run inValue (burnReceipt chain storage amount queryId ::
      slashPayouts sc amount challenger queryId)).map Phase.balance =
      if slashPaid sc amount ≤ afterBurn funds then some (afterBurn funds - slashPaid sc amount)
      else none := by
  have hsplit : slashPayouts sc amount challenger queryId =
      payoutIfPositive challenger (mulDivFloor amount sc.splitChallengerBps bpsDenom) queryId ++
      (payoutIfPositive sc.redundancyPool (mulDivFloor amount sc.splitRedundancyBps bpsDenom)
        queryId ++
      (payoutIfPositive sc.treasury (mulDivFloor amount sc.splitTreasuryBps bpsDenom)
        queryId ++ [])) := by
    rw [slashPayouts, List.append_assoc, List.append_nil]
  unfold slashPaid
  rw [run_burnReceipt, hsplit, run_payoutIfPositive, run_payoutIfPositive, run_payoutIfPositive,
    Phase.run_nil]
  simp only [paid_remaining, burned_remaining, Phase.start_remaining]
  split_ifs
  -- all three payouts fit, or one of them does not and the sum does not either
  · rw [Option.map_some, Phase.balance, paid_remaining, paid_remaining, paid_remaining,
      paid_reserved, paid_reserved, paid_reserved, burned_remaining, burned_reserved,
      Phase.start_remaining, Phase.start_reserved]
    exact congrArg some (by omega)
  all_goals first | rfl | omega

end Actions

/-! ## One event -/

/-- The unbonding stake has been paid out, and all but the stake and the storage buffer with it. -/
def Swept (v v' : Vault) : Prop :=
  v'.storage = { v.storage with unbondingAmount := 0, unbondingAt := 0
                                totalSupply := v.storage.totalSupply - v.storage.unbondingAmount } ∧
    v'.balance = v.storage.staked + minTonsForStorage

section Steps

variable {chain : Chain} {v : Vault} {inMsg : InMessage} {queryId : Nat}

theorem step_withdraw (h : WithdrawDue v inMsg) :
    Swept v (step chain v (.receive inMsg (.stakeWithdraw queryId))) := by
  have hc : stakeWithdraw chain v.storage inMsg queryId = .ok (_, _) :=
    stakeWithdraw_eq_ok_iff.mpr ⟨h.sender, h.unbonding, h.ready, h.supply, rfl⟩
  refine Account.receive_of_balance hc ?_
  rw [run_withdraw_actions, if_pos h.funds]

theorem step_withdraw_of_not (h : ¬ WithdrawDue v inMsg) :
    step chain v (.receive inMsg (.stakeWithdraw queryId)) = v := by
  refine Account.receive_of_failed fun r hr => ?_
  obtain ⟨hsender, hunb, hready, hsupply, rfl⟩ := stakeWithdraw_eq_ok_iff.mp hr
  rw [run_withdraw_actions, if_neg]
  exact fun hfunds => h ⟨hsender, hunb, hready, hsupply, hfunds⟩

theorem step_keeper (h : KeeperDue v inMsg) :
    Swept v (step chain v (.receive inMsg (.stakeKeeperWithdraw queryId))) := by
  have hc : stakeKeeperWithdraw chain v.storage inMsg queryId = .ok (_, _) :=
    stakeKeeperWithdraw_eq_ok_iff.mpr ⟨h.unbonding, h.ready, h.supply, rfl⟩
  refine Account.receive_of_balance hc ?_
  rw [run_keeper_actions, if_pos h.funds]

theorem step_keeper_of_not (h : ¬ KeeperDue v inMsg) :
    step chain v (.receive inMsg (.stakeKeeperWithdraw queryId)) = v := by
  refine Account.receive_of_failed fun r hr => ?_
  obtain ⟨hunb, hready, hsupply, rfl⟩ := stakeKeeperWithdraw_eq_ok_iff.mp hr
  rw [run_keeper_actions, if_neg]
  exact fun hfunds => h ⟨hunb, hready, hsupply, hfunds⟩

variable {amount reason : Nat} {challenger : Address}

theorem step_slash (h : SlashDue v inMsg amount) :
    (step chain v (.receive inMsg (.stakeSlash queryId amount reason challenger))).storage =
        { v.storage with
          staked := v.storage.staked - min amount v.storage.staked
          unbondingAmount := v.storage.unbondingAmount - (amount - min amount v.storage.staked)
          totalSupply := v.storage.totalSupply - amount } ∧
      (step chain v (.receive inMsg (.stakeSlash queryId amount reason challenger))).balance =
        afterBurn (v.balance + inMsg.valueCoins) - slashPaid v.storage.config.slash amount := by
  have hc : stakeSlash chain v.storage inMsg queryId amount challenger = .ok (_, _) :=
    stakeSlash_eq_ok_iff.mpr ⟨h.sender, h.slashable, h.supply, h.split, rfl⟩
  refine Account.receive_of_balance hc ?_
  rw [run_slash_actions, if_pos h.funds]

theorem step_slash_of_not (h : ¬ SlashDue v inMsg amount) :
    step chain v (.receive inMsg (.stakeSlash queryId amount reason challenger)) = v := by
  refine Account.receive_of_failed fun r hr => ?_
  obtain ⟨hsender, hslash, hsupply, hsplit, rfl⟩ := stakeSlash_eq_ok_iff.mp hr
  rw [run_slash_actions, if_neg]
  exact fun hfunds => h ⟨hsender, hslash, hsupply, hsplit, hfunds⟩

/-- The owner can withdraw what is due by sending what the burn message and the reserve take. -/
theorem exists_withdrawDue (hunbonding : 0 < v.storage.unbondingAmount)
    (hsupply : v.storage.unbondingAmount ≤ v.storage.totalSupply) {t : Nat} (ht : 0 < t)
    (hready : v.storage.unbondingAt + v.storage.config.unbondingPeriod ≤ t) :
    ∃ inMsg : InMessage, inMsg.now = t ∧ WithdrawDue v inMsg := by
  refine ⟨⟨v.storage.owner, v.storage.staked + minTonsForStorage + burnValue, t, ht⟩, rfl,
    rfl, hunbonding, hready, hsupply, ?_⟩
  rw [afterBurn, if_pos (by dsimp only; omega)]
  dsimp only
  omega

end Steps

/-! ## Solvency of one event -/

section Solvency

variable {chain : Chain} {v : Vault} {inMsg : InMessage} {queryId amount : Nat}

variable {recipient : Address} {msg : AllowedMessageToVault} {storage : VaultStorage}

theorem claim_keeps (hv : Solvent v) :
    Solvent (step chain v (.receive inMsg (.stakeClaim queryId recipient))) := by
  refine Account.receive_keeps (P := fun s b => liabilities s ≤ b) hv fun storage actions p hc hp => ?_
  obtain ⟨credit, hget, _, hr⟩ := stakeClaim_eq_ok_iff.mp hc
  cases hr
  have htotal := v.storage.pending.total_remove recipient
  rw [Ledger.owed_of_get hget] at htotal
  have hbalance := Phase.run_send_balance hp
  unfold Solvent liabilities at hv
  unfold liabilities
  dsimp only
  omega

/-- A neutral message leaves at least the balance it found: at most its own value leaves again. -/
theorem neutral_balance {actions : List VaultAction} {p : Phase Address Body Nat}
    (hmsg : msg.Neutral)
    (hc : onInternalMessage chain v.storage inMsg msg = .ok (storage, actions))
    (hp : Phase.run inMsg.valueCoins (Phase.start (v.balance + inMsg.valueCoins)) actions =
      some p) : v.balance ≤ p.balance := by
  rcases (onInternalMessage_neutral hmsg hc).2 with rfl | ⟨code, rfl⟩ | ⟨_, _, _, rfl⟩
  · cases hp
    exact Nat.le_add_right _ _
  · cases hp
    exact Nat.le_add_right _ _
  · rw [Phase.run_cons, Phase.step, SendValue.amount, Phase.start_remaining,
      if_pos (Nat.le_add_left _ _), Option.bind_some, Phase.run_nil, Option.some.injEq] at hp
    subst hp
    rw [Phase.balance, Phase.pay_remaining, Phase.pay_reserved, Phase.start_remaining,
      Phase.start_reserved]
    omega

/-- Deposits, requests to unbond and neutral messages leave the credits alone, and what the balance
    covers on top of the buckets stays covered. -/
theorem receive_covers {extra : Nat} (hmsg : msg.Neutral ∨ ∃ queryId amount,
      msg = .stakeDeposit queryId amount ∨ msg = .stakeRequestUnbond queryId amount)
    (h : v.storage.staked + v.storage.unbondingAmount + extra ≤ v.balance) :
    (step chain v (.receive inMsg msg)).storage.staked +
        (step chain v (.receive inMsg msg)).storage.unbondingAmount + extra ≤
        (step chain v (.receive inMsg msg)).balance ∧
      (step chain v (.receive inMsg msg)).storage.pending = v.storage.pending := by
  refine Account.receive_keeps (P := fun (s : VaultStorage) b =>
    s.staked + s.unbondingAmount + extra ≤ b ∧ s.pending = v.storage.pending) ⟨h, rfl⟩
    fun storage actions p hc hp => ?_
  rcases hmsg with hmsg | ⟨queryId, amount, rfl | rfl⟩
  · rw [(onInternalMessage_neutral hmsg hc).1]
    exact ⟨le_trans h (neutral_balance hmsg hc hp), rfl⟩
  · obtain ⟨_, hvalue, _, hr⟩ := stakeDeposit_eq_ok_iff.mp hc
    cases hr
    -- the mint takes the storage buffer, which came with the deposit
    have hbalance := Phase.run_send_balance hp
    refine ⟨?_, rfl⟩
    dsimp only
    omega
  · obtain ⟨_, _, hamount, hr⟩ := stakeRequestUnbond_eq_ok_iff.mp hc
    cases hr
    cases hp
    refine ⟨?_, rfl⟩
    rw [Phase.balance, Phase.start_remaining, Phase.start_reserved]
    dsimp only
    omega

theorem receive_keeps (hmsg : msg.Neutral ∨ ∃ queryId amount,
      msg = .stakeDeposit queryId amount ∨ msg = .stakeRequestUnbond queryId amount)
    (hv : Solvent v) : Solvent (step chain v (.receive inMsg msg)) := by
  obtain ⟨hcovers, hpending⟩ := receive_covers hmsg hv
  unfold Solvent liabilities
  rw [hpending]
  exact hcovers

/-- An event that does something only if it is due. -/
theorem iff_of_due {P due Q : Prop} (hdue : due → (P ↔ Q)) (hnot : ¬ due → P) :
    P ↔ (due → Q) := by
  by_cases h : due
  · rw [hdue h, forall_prop_of_true h]
  · exact iff_of_true (hnot h) fun hd => absurd hd h

/-- After either withdrawal the vault holds the bonded stake and the storage buffer, so the
    buffer is all that the pull ledger can be paid from. -/
theorem swept_keeps_iff {due : Prop} {v' : Vault} (hdue : due → Swept v v')
    (hnot : ¬ due → v' = v) (hv : Solvent v) :
    Solvent v' ↔ (due → v.storage.pending.total ≤ minTonsForStorage) := by
  refine iff_of_due (fun h => ?_) fun h => by rwa [hnot h]
  obtain ⟨hstorage, hbalance⟩ := hdue h
  unfold Solvent liabilities
  rw [hstorage, hbalance]
  dsimp only
  omega

theorem slashPaid_le {sc : SlashConfig} (h : sc.sum = bpsDenom) (amount : Nat) :
    slashPaid sc amount ≤ amount := by
  have hshares : amount * sc.splitChallengerBps + amount * sc.splitRedundancyBps +
      amount * sc.splitTreasuryBps ≤ amount * bpsDenom := by
    rw [← Nat.mul_add, ← Nat.mul_add]
    refine Nat.mul_le_mul_left amount ?_
    unfold SlashConfig.sum at h
    omega
  calc amount * sc.splitChallengerBps / bpsDenom + amount * sc.splitRedundancyBps / bpsDenom +
        amount * sc.splitTreasuryBps / bpsDenom
      ≤ (amount * sc.splitChallengerBps + amount * sc.splitRedundancyBps) / bpsDenom +
        amount * sc.splitTreasuryBps / bpsDenom :=
        Nat.add_le_add_right Nat.div_add_div_le_add_div _
    _ ≤ (amount * sc.splitChallengerBps + amount * sc.splitRedundancyBps +
        amount * sc.splitTreasuryBps) / bpsDenom := Nat.div_add_div_le_add_div
    _ ≤ amount * bpsDenom / bpsDenom := Nat.div_le_div_right hshares
    _ = amount := Nat.mul_div_cancel amount (by decide)

theorem slash_keeps_iff {reason : Nat} {challenger : Address} (hv : Solvent v) :
    Solvent (step chain v (.receive inMsg (.stakeSlash queryId amount reason challenger))) ↔
      (SlashDue v inMsg amount → v.balance + inMsg.valueCoins < burnValue ∨
        burnValue ≤ inMsg.valueCoins + surplus v +
          (amount - slashPaid v.storage.config.slash amount)) := by
  refine iff_of_due (fun h => ?_) fun h => ?_
  · obtain ⟨hstorage, hbalance⟩ := @step_slash chain v inMsg queryId amount reason challenger h
    have hpaid := slashPaid_le h.split amount
    have hslash := h.slashable
    have hfunds := h.funds
    unfold surplus
    unfold Solvent liabilities at hv ⊢
    rw [hstorage, hbalance]
    dsimp only
    generalize slashPaid v.storage.config.slash amount = paid at *
    unfold afterBurn at *
    split at hfunds <;> rename_i hburn
    · rw [if_pos hburn]
      omega
    · rw [if_neg hburn]
      omega
  · rwa [step_slash_of_not h]

/-- A bounced message owes at most what it brings back. -/
theorem liabilities_bounced {storage' : VaultStorage} {sender : Address} {value : Nat}
    {body : Body} (h : onBouncedMessage storage sender value body = .ok storage') :
    liabilities storage' ≤ liabilities storage + value := by
  unfold liabilities
  rcases onBouncedMessage_cases h with ⟨amount, _, rfl⟩ | ⟨pending, htotal, rfl⟩
  all_goals
    dsimp only
    omega

theorem bounce_keeps {index : Nat} (hv : Solvent v) :
    Solvent (step chain v (.bounce index)) := by
  refine step_bounce_keeps (P := fun s b => liabilities s ≤ b) hv ?_ ?_
  · exact fun value => le_trans hv (Nat.le_add_right _ _)
  · intro sender value body storage' hb
    exact le_trans (liabilities_bounced hb) (Nat.add_le_add_right hv _)

/-- The step lemma: an event leaves a solvent vault solvent exactly when it keeps the backing. -/
theorem step_solvent_iff (hv : Solvent v) (e : Event) :
    Solvent (step chain v e) ↔ KeepsBacking v e := by
  cases e with
  | deliver index => exact iff_of_true hv trivial
  | bounce index => exact iff_of_true (bounce_keeps hv) trivial
  | receive inMsg msg =>
    cases msg with
    | stakeWithdraw queryId => exact swept_keeps_iff step_withdraw step_withdraw_of_not hv
    | stakeKeeperWithdraw queryId => exact swept_keeps_iff step_keeper step_keeper_of_not hv
    | stakeSlash queryId amount reason challenger => exact slash_keeps_iff hv
    | stakeDeposit queryId amount =>
      exact iff_of_true (receive_keeps (.inr ⟨_, _, .inl rfl⟩) hv) trivial
    | stakeRequestUnbond queryId amount =>
      exact iff_of_true (receive_keeps (.inr ⟨_, _, .inr rfl⟩) hv) trivial
    | stakeClaim queryId recipient => exact iff_of_true (claim_keeps hv) trivial
    | _ => exact iff_of_true (receive_keeps (.inl trivial) hv) trivial

/-- In a solvent vault a credited recipient is paid exactly its credit, and the rest of what the
    vault owes stays covered. -/
theorem claim_paid {credit : Nat} (hv : Solvent v)
    (hget : v.storage.pending.get recipient = some credit) (hpos : 0 < credit) :
    ∃ v', v.transact inMsg.valueCoins
        (onInternalMessage chain v.storage inMsg (.stakeClaim queryId recipient)) = .ok v' ∧
      v'.outbound = v.outbound ++ [⟨recipient, credit, true, .stakePayout queryId⟩] ∧
      v'.balance + credit = v.balance + inMsg.valueCoins ∧ Solvent v' := by
  have hc : onInternalMessage chain v.storage inMsg (.stakeClaim queryId recipient) =
      .ok (_, _) := stakeClaim_eq_ok_iff.mpr ⟨credit, hget, hpos, rfl⟩
  have howed := v.storage.pending.owed_le_total recipient
  rw [Ledger.owed_of_get hget] at howed
  have hfunds : credit ≤ v.balance + inMsg.valueCoins := by
    unfold Solvent liabilities at hv
    omega
  have hrun : Phase.run inMsg.valueCoins (Phase.start (v.balance + inMsg.valueCoins))
      [payout recipient credit queryId] =
        some ((Phase.start (v.balance + inMsg.valueCoins)).pay recipient credit true
          (.stakePayout queryId)) := by
    rw [payout, Phase.run_cons, Phase.step_send, Phase.start_remaining, if_pos hfunds,
      Option.bind_some, Phase.run_nil]
  refine ⟨_, Account.transact_ok_iff.mpr ⟨_, _, _, hc, hrun, rfl⟩, rfl, ?_, ?_⟩
  · show v.balance + inMsg.valueCoins - credit + 0 + credit = v.balance + inMsg.valueCoins
    omega
  · have hkeeps : Solvent (step chain v (.receive inMsg (.stakeClaim queryId recipient))) :=
      claim_keeps hv
    rwa [step, Account.receive_of_ok hc hrun] at hkeeps

end Solvency

/-! ## Whole runs -/

/-- From a fresh deployment, every state of a run covers the stake and the pull ledger exactly
    when every event of the run keeps the backing; and in a covered state every credit can be
    claimed in full without touching the rest. -/
theorem always_solvent_iff (chain : Chain) (owner : Address) (config : VaultConfig)
    (code balance : Nat) (events : List Event) :
    (Run.Always (step chain) Solvent (deployed owner config code balance) events ↔
      Run.Guarded (step chain) KeepsBacking (deployed owner config code balance) events) ∧
    ∀ v : Vault, Solvent v → ∀ (inMsg : InMessage) (queryId : Nat) (recipient : Address)
      (credit : Nat), v.storage.pending.get recipient = some credit → 0 < credit →
      ∃ v', v.transact inMsg.valueCoins
          (onInternalMessage chain v.storage inMsg (.stakeClaim queryId recipient)) = .ok v' ∧
        v'.outbound = v.outbound ++ [⟨recipient, credit, true, .stakePayout queryId⟩] ∧
        v'.balance + credit = v.balance + inMsg.valueCoins ∧ Solvent v' := by
  refine ⟨Run.always_iff_guarded (fun v e hv => step_solvent_iff hv e) ?_ events, ?_⟩
  · show 0 + 0 + 0 ≤ balance
    omega
  · intro v hv inMsg queryId recipient credit hget hpos
    exact claim_paid hv hget hpos

/-! ## A run that ends insolvent

  The owner bonds 1 TON; half of it is slashed to a challenger whose wallet bounces the payout,
  so the vault owes that half to the pull ledger. The owner then unbonds and withdraws the other
  half: the withdrawal reserves the storage buffer only and carries the challenger's credit away
  with it. -/

/-- Parties of the run, told apart by their hash. -/
def party (n : Nat) : Address :=
  ⟨0, BitVec.ofNat 256 n⟩

def drainChain : Chain :=
  ⟨party 1, fun _ _ _ => party 2⟩

def drainConfig : VaultConfig where
  unbondingPeriod := 10
  challengeWindow := 10
  keeperGrace := 5
  keeperBountyBps := 0
  slasher := party 4
  upgradeAuthority := party 5
  receiptWalletCode := 0
  slash := ⟨party 6, party 7, 10000, 0, 0, 0⟩

def drainRun : List Event :=
  [.receive (.sent (party 3) 1050000000 1) (.stakeDeposit 0 1000000000),
   .receive (.sent (party 4) 20000000 2) (.stakeSlash 0 500000000 0 (party 8)),
   .bounce 2,
   .receive (.sent (party 3) 0 3) (.stakeRequestUnbond 0 500000000),
   .receive (.sent (party 3) 0 13) (.stakeWithdraw 0)]

/-- The last state holds 0.05 TON and owes 0.5 TON. -/
theorem withdrawal_drains_credit :
    (Run.final (step drainChain) (deployed (party 3) drainConfig 0 0) drainRun).balance =
        50000000 ∧
      (Run.final (step drainChain) (deployed (party 3) drainConfig 0 0) drainRun).storage.pending.owed
        (party 8) = 500000000 ∧
      ¬ Run.Always (step drainChain) Solvent (deployed (party 3) drainConfig 0 0) drainRun := by
  refine ⟨by decide, by decide, ?_⟩
  intro h
  have hlast : liabilities
      (Run.final (step drainChain) (deployed (party 3) drainConfig 0 0) drainRun).storage ≤
      (Run.final (step drainChain) (deployed (party 3) drainConfig 0 0) drainRun).balance := h.last
  revert hlast
  decide

end Duckton.Ton.StakeVault
