/-
  The burn share of a slash.

  A slash pays three shares out and leaves the rest in the vault: "left locked in the vault
  forever". No field of the vault records that rest, so a ghost total is carried along the run.
  `KeepsBurned` says exactly when one event leaves the ghost total covered. The withdrawals do not
  reserve it: whatever was burned beyond the storage buffer goes to the owner.
-/
import Duckton.Ton.VaultSolvency

namespace Duckton.Ton.StakeVault

open Tvm

/-! ## The ghost total -/

instance (v : Vault) (inMsg : InMessage) (amount : Nat) : Decidable (SlashDue v inMsg amount) :=
  decidable_of_iff
    (inMsg.senderAddress = v.storage.config.slasher ∧
      (0 < amount ∧ amount ≤ v.storage.staked + v.storage.unbondingAmount) ∧
      amount ≤ v.storage.totalSupply ∧ v.storage.config.slash.sum = bpsDenom ∧
      slashPaid v.storage.config.slash amount ≤ afterBurn (v.balance + inMsg.valueCoins))
    ⟨fun ⟨h₁, h₂, h₃, h₄, h₅⟩ => ⟨h₁, h₂, h₃, h₄, h₅⟩,
      fun ⟨h₁, h₂, h₃, h₄, h₅⟩ => ⟨h₁, h₂, h₃, h₄, h₅⟩⟩

/-- The share of a slash that nobody is paid. -/
def burnShare (sc : SlashConfig) (amount : Nat) : Nat :=
  amount - slashPaid sc amount

/-- What an event burns: something only if it is a slash that goes through. -/
def burnedBy (v : Vault) : Event → Nat
  | .receive inMsg (.stakeSlash _ amount _ _) =>
    if SlashDue v inMsg amount then burnShare v.storage.config.slash amount else 0
  | _ => 0

/-- A vault with the sum of all burn shares so far. -/
structure Tracked where
  vault : Vault
  burned : Nat

def trackedStep (chain : Chain) (t : Tracked) (e : Event) : Tracked where
  vault := step chain t.vault e
  burned := t.burned + burnedBy t.vault e

/-- The ghost total does not take part in the run. -/
theorem final_vault (chain : Chain) (t : Tracked) (events : List Event) :
    (Run.final (trackedStep chain) t events).vault = Run.final (step chain) t.vault events := by
  induction events generalizing t with
  | nil => rfl
  | cons e events ih => exact ih (trackedStep chain t e)

/-- The burned stake is still there, beside the stake of the two buckets. -/
def BurnKept (t : Tracked) : Prop :=
  t.vault.storage.staked + t.vault.storage.unbondingAmount + t.burned ≤ t.vault.balance

/-- The events that leave the burned stake covered. A withdrawal keeps the storage buffer only. A
    slash must find its burn message paid beyond what has to stay, and so must a claim its credit. -/
def KeepsBurned (t : Tracked) : Event → Prop
  | .receive inMsg (.stakeWithdraw _) => WithdrawDue t.vault inMsg → t.burned ≤ minTonsForStorage
  | .receive inMsg (.stakeKeeperWithdraw _) =>
    KeeperDue t.vault inMsg → t.burned ≤ minTonsForStorage
  | .receive inMsg (.stakeSlash _ amount _ _) =>
    SlashDue t.vault inMsg amount →
      t.vault.balance + inMsg.valueCoins < burnValue ∨
      t.vault.storage.staked + t.vault.storage.unbondingAmount + t.burned + burnValue ≤
        t.vault.balance + inMsg.valueCoins
  | .receive inMsg (.stakeClaim _ recipient) =>
    t.vault.storage.pending.owed recipient ≤ t.vault.balance + inMsg.valueCoins →
      t.vault.storage.staked + t.vault.storage.unbondingAmount + t.burned +
        t.vault.storage.pending.owed recipient ≤ t.vault.balance + inMsg.valueCoins
  | _ => True

/-! ## One event -/

section Steps

variable {chain : Chain} {t : Tracked} {inMsg : InMessage} {queryId amount : Nat}

/-- For an event that burns nothing, the buckets and the balance decide. -/
theorem burnKept_of_not_slash {e : Event} (hburn : burnedBy t.vault e = 0) :
    BurnKept (trackedStep chain t e) ↔
      (step chain t.vault e).storage.staked + (step chain t.vault e).storage.unbondingAmount +
        t.burned ≤ (step chain t.vault e).balance := by
  unfold BurnKept trackedStep
  rw [hburn]
  rfl

theorem receive_burnKept {msg : AllowedMessageToVault}
    (hburn : burnedBy t.vault (.receive inMsg msg) = 0) (hmsg : msg.Neutral ∨ ∃ queryId amount,
      msg = .stakeDeposit queryId amount ∨ msg = .stakeRequestUnbond queryId amount)
    (ht : BurnKept t) : BurnKept (trackedStep chain t (.receive inMsg msg)) :=
  (burnKept_of_not_slash hburn).mpr (receive_covers hmsg ht).1

/-- After either withdrawal the burned stake has the storage buffer to rest on, and no more. -/
theorem burnKept_swept_iff {e : Event} {due : Prop} (hburn : burnedBy t.vault e = 0)
    (hdue : due → Swept t.vault (step chain t.vault e))
    (hnot : ¬ due → step chain t.vault e = t.vault) (ht : BurnKept t) :
    BurnKept (trackedStep chain t e) ↔ (due → t.burned ≤ minTonsForStorage) := by
  rw [burnKept_of_not_slash hburn]
  refine iff_of_due (fun h => ?_) fun h => by rwa [hnot h]
  rw [(hdue h).1, (hdue h).2]
  dsimp only
  omega

/-- A slash moves its burn share from the buckets to the ghost total; only its burn message is
    paid from what has to stay. -/
theorem slash_burnKept_iff {reason : Nat} {challenger : Address} (ht : BurnKept t) :
    BurnKept (trackedStep chain t
        (.receive inMsg (.stakeSlash queryId amount reason challenger))) ↔
      KeepsBurned t (.receive inMsg (.stakeSlash queryId amount reason challenger)) := by
  refine iff_of_due (fun h => ?_) fun h => ?_
  · obtain ⟨hstorage, hbalance⟩ :=
      @step_slash chain t.vault inMsg queryId amount reason challenger h
    have hpaid := slashPaid_le h.split amount
    have hslash := h.slashable
    have hfunds := h.funds
    have hiff : BurnKept (trackedStep chain t
          (.receive inMsg (.stakeSlash queryId amount reason challenger))) ↔
        t.vault.storage.staked + t.vault.storage.unbondingAmount + t.burned ≤
          afterBurn (t.vault.balance + inMsg.valueCoins) := by
      unfold BurnKept trackedStep burnedBy burnShare
      dsimp only
      rw [hstorage, hbalance, if_pos h]
      dsimp only
      omega
    rw [hiff]
    unfold BurnKept at ht
    unfold afterBurn
    split
    · omega
    · omega
  · have hburn : burnedBy t.vault
        (.receive inMsg (.stakeSlash queryId amount reason challenger)) = 0 := if_neg h
    rwa [burnKept_of_not_slash hburn, step_slash_of_not h]

/-- A claim that goes through pays the credit out of the balance and leaves the buckets alone; any
    other changes nothing. -/
theorem step_claim_cases (chain : Chain) (v : Vault) (inMsg : InMessage) (queryId : Nat)
    (recipient : Address) :
    (step chain v (.receive inMsg (.stakeClaim queryId recipient)) = v ∧
      (v.storage.pending.owed recipient = 0 ∨
        v.balance + inMsg.valueCoins < v.storage.pending.owed recipient)) ∨
    ∃ pending, (step chain v (.receive inMsg (.stakeClaim queryId recipient))).storage =
        { v.storage with pending := pending } ∧
      (step chain v (.receive inMsg (.stakeClaim queryId recipient))).balance +
        v.storage.pending.owed recipient = v.balance + inMsg.valueCoins := by
  by_cases hpays : 0 < v.storage.pending.owed recipient ∧
      v.storage.pending.owed recipient ≤ v.balance + inMsg.valueCoins
  · obtain ⟨hpos, hfunds⟩ := hpays
    cases hget : v.storage.pending.get recipient with
    | none =>
      rw [Ledger.owed, hget] at hpos
      cases hpos
    | some credit =>
      rw [Ledger.owed_of_get hget] at hpos hfunds ⊢
      have hc : stakeClaim v.storage queryId recipient = .ok (_, _) :=
        stakeClaim_eq_ok_iff.mpr ⟨credit, hget, hpos, rfl⟩
      have hrun : (Phase.run inMsg.valueCoins (Phase.start (v.balance + inMsg.valueCoins))
          [payout recipient credit queryId]).map Phase.balance =
            some (v.balance + inMsg.valueCoins - credit) := by
        rw [payout, Phase.run_cons, Phase.step_send, Phase.start_remaining, if_pos hfunds]
        rfl
      obtain ⟨hstorage, hbalance⟩ := Account.receive_of_balance hc hrun
      refine .inr ⟨_, hstorage, ?_⟩
      have hbal : (step chain v (.receive inMsg (.stakeClaim queryId recipient))).balance =
        v.balance + inMsg.valueCoins - credit := hbalance
      omega
  · refine .inl ⟨?_, by omega⟩
    refine Account.receive_of_failed fun r hr => ?_
    obtain ⟨credit, hget, hpos, rfl⟩ := stakeClaim_eq_ok_iff.mp hr
    rw [Ledger.owed_of_get hget] at hpays
    rw [payout, Phase.run_cons, Phase.step_send, Phase.start_remaining,
      if_neg fun hfunds => hpays ⟨hpos, hfunds⟩]
    rfl

theorem claim_burnKept_iff {recipient : Address} (ht : BurnKept t) :
    BurnKept (trackedStep chain t (.receive inMsg (.stakeClaim queryId recipient))) ↔
      KeepsBurned t (.receive inMsg (.stakeClaim queryId recipient)) := by
  rw [burnKept_of_not_slash rfl]
  unfold BurnKept at ht
  show _ ↔ (t.vault.storage.pending.owed recipient ≤ t.vault.balance + inMsg.valueCoins →
    t.vault.storage.staked + t.vault.storage.unbondingAmount + t.burned +
      t.vault.storage.pending.owed recipient ≤ t.vault.balance + inMsg.valueCoins)
  rcases step_claim_cases chain t.vault inMsg queryId recipient with
    ⟨hsame, hnot⟩ | ⟨pending, hstorage, hbalance⟩
  · rw [hsame]
    omega
  · rw [hstorage]
    dsimp only
    omega

/-- A bounce puts nothing into the buckets. -/
theorem buckets_bounced {s s' : VaultStorage} {sender : Address} {value : Nat} {body : Body}
    (h : onBouncedMessage s sender value body = .ok s') :
    s'.staked + s'.unbondingAmount ≤ s.staked + s.unbondingAmount := by
  rcases onBouncedMessage_cases h with ⟨amount, _, rfl⟩ | ⟨pending, _, rfl⟩
  · dsimp only
    omega
  · exact le_refl _

theorem bounce_burnKept {index : Nat} (ht : BurnKept t) :
    BurnKept (trackedStep chain t (.bounce index)) := by
  rw [burnKept_of_not_slash rfl]
  refine step_bounce_keeps
    (P := fun (s : VaultStorage) b => s.staked + s.unbondingAmount + t.burned ≤ b) ht ?_ ?_
  · exact fun value => le_trans ht (Nat.le_add_right _ _)
  · intro sender value body storage' hb
    have hbuckets := buckets_bounced hb
    unfold BurnKept at ht
    omega

/-- The step lemma. -/
theorem step_burnKept_iff (ht : BurnKept t) (e : Event) :
    BurnKept (trackedStep chain t e) ↔ KeepsBurned t e := by
  cases e with
  | deliver index => exact iff_of_true ht trivial
  | bounce index => exact iff_of_true (bounce_burnKept ht) trivial
  | receive inMsg msg =>
    cases msg with
    | stakeWithdraw queryId => exact burnKept_swept_iff rfl step_withdraw step_withdraw_of_not ht
    | stakeKeeperWithdraw queryId => exact burnKept_swept_iff rfl step_keeper step_keeper_of_not ht
    | stakeSlash queryId amount reason challenger => exact slash_burnKept_iff ht
    | stakeClaim queryId recipient => exact claim_burnKept_iff ht
    | stakeDeposit queryId amount =>
      exact iff_of_true (receive_burnKept rfl (.inr ⟨_, _, .inl rfl⟩) ht) trivial
    | stakeRequestUnbond queryId amount =>
      exact iff_of_true (receive_burnKept rfl (.inr ⟨_, _, .inr rfl⟩) ht) trivial
    | _ => exact iff_of_true (receive_burnKept rfl (.inl trivial) ht) trivial

end Steps

/-! ## Whole runs -/

/-- From a fresh deployment, the burned stake stays in the vault in every state of a run exactly
    when every event of the run leaves it covered. The tracked run is the run of the vault. -/
theorem always_burnKept_iff (chain : Chain) (owner : Address) (config : VaultConfig)
    (code balance : Nat) (events : List Event) :
    (Run.final (trackedStep chain) ⟨deployed owner config code balance, 0⟩ events).vault =
        Run.final (step chain) (deployed owner config code balance) events ∧
      (Run.Always (trackedStep chain) BurnKept ⟨deployed owner config code balance, 0⟩ events ↔
        Run.Guarded (trackedStep chain) KeepsBurned ⟨deployed owner config code balance, 0⟩
          events) := by
  refine ⟨final_vault chain _ events, ?_⟩
  refine Run.always_iff_guarded (fun t e ht => step_burnKept_iff ht e) ?_ events
  show 0 + 0 + 0 ≤ balance
  omega

/-! ## A run that pays the burned stake out

  The owner bonds 1 TON, half of it is slashed, and all of that half is to be burned. The owner
  then unbonds and withdraws the other half. -/

def burnConfig : VaultConfig :=
  { drainConfig with slash := ⟨party 6, party 7, 0, 0, 10000, 0⟩ }

def unburnRun : List Event :=
  [.receive (.sent (party 3) 1050000000 1) (.stakeDeposit 0 1000000000),
   .receive (.sent (party 4) 20000000 2) (.stakeSlash 0 500000000 0 (party 8)),
   .receive (.sent (party 3) 70000000 3) (.stakeRequestUnbond 0 500000000),
   .receive (.sent (party 3) 0 13) (.stakeWithdraw 0)]

/-- The last message carries all of the bonded 1 TON to the owner; 0.05 TON is left of the 0.5 TON
    that were burned. -/
theorem withdrawal_unburns :
    (Run.final (step drainChain) (deployed (party 3) burnConfig 0 0) unburnRun).outbound.getLast? =
        some ⟨party 3, 1000000000, true, .stakePayout 0⟩ ∧
      (Run.final (step drainChain) (deployed (party 3) burnConfig 0 0) unburnRun).balance =
        50000000 ∧
      (Run.final (trackedStep drainChain) ⟨deployed (party 3) burnConfig 0 0, 0⟩ unburnRun).burned =
        500000000 ∧
      ¬ Run.Always (trackedStep drainChain) BurnKept ⟨deployed (party 3) burnConfig 0 0, 0⟩
        unburnRun := by
  refine ⟨by decide, by decide, by decide, ?_⟩
  intro h
  have hlast := h.last
  unfold BurnKept at hlast
  revert hlast
  decide

end Duckton.Ton.StakeVault
