/-
  The per-node stake contract (StakeVault.tolk, stake_types.tolk).

  Each handler of `onInternalMessage` is one function from the stored data and the inbound
  message to the new data and the queued actions; `onBouncedMessage` has no actions. A vault
  is such data in an account, with the messages it sent and that are still on their way: any
  of them may be accepted or, if it is bounceable, come back. Receipt-wallet addresses are
  hashes of the wallet's initial state and are left to a parameter.

  After an applied upgrade the account's code changes; the step function keeps to the code
  modelled here, so its runs are the runs under this code.
-/
import Duckton.Lib.Ledger
import Duckton.Tvm.Account
import Duckton.Ton.Common

namespace Duckton.Ton.StakeVault

open Tvm

/-! ## Storage and messages -/

structure SlashConfig where
  treasury : Address
  redundancyPool : Address
  splitChallengerBps : Nat
  splitRedundancyBps : Nat
  splitBurnBps : Nat
  splitTreasuryBps : Nat
  deriving DecidableEq, Repr

/-- `receiptWalletCode` is the hash of the wallet's code cell. -/
structure VaultConfig where
  unbondingPeriod : Nat
  challengeWindow : Nat
  keeperGrace : Nat
  keeperBountyBps : Nat
  slasher : Address
  upgradeAuthority : Address
  receiptWalletCode : Nat
  slash : SlashConfig
  deriving DecidableEq, Repr

structure VaultUpgradeState where
  codeVersion : UInt32
  pendingCodeHash : Nat
  pendingCodeAt : Nat
  deriving DecidableEq, Repr

structure VaultStorage where
  owner : Address
  staked : Nat
  unbondingAmount : Nat
  unbondingAt : Nat
  totalSupply : Nat
  config : VaultConfig
  upgrade : VaultUpgradeState
  pending : Ledger Address
  deriving DecidableEq

/-- The messages the vault accepts. A code cell is represented by its hash; `other` is a body
    that parses as none of them. -/
inductive AllowedMessageToVault where
  | stakeDeposit (queryId amount : Nat)
  | stakeRequestUnbond (queryId amount : Nat)
  | stakeWithdraw (queryId : Nat)
  | stakeKeeperWithdraw (queryId : Nat)
  | stakeSlash (queryId amount reason : Nat) (challenger : Address)
  | stakeClaim (queryId : Nat) (recipient : Address)
  | provideWalletAddress (queryId : Nat) (ownerAddress : Address) (includeAddress : Bool)
  | receiptTopUp (queryId : Nat)
  | stakeAnnounceUpgrade (queryId newCodeHash : Nat)
  | stakeApplyUpgrade (queryId newCode : Nat)
  | stakeCancelUpgrade (queryId : Nat)
  | other (isEmpty : Bool)
  deriving DecidableEq, Repr

/-- The bodies the vault sends. -/
inductive Body where
  | jettonInternalTransfer (queryId amount : Nat) (fromAddress responseAddress : Address)
  | receiptBurn (queryId amount : Nat)
  | stakePayout (queryId : Nat)
  | takeWalletAddress (queryId : Nat) (walletAddress : Address) (ownerAddress : Option Address)
  deriving DecidableEq, Repr

abbrev VaultAction := Action Address Body Nat

/-- `contract.getAddress()` and `calcReceiptWalletAddress`. -/
structure Chain where
  self : Address
  calcReceiptWalletAddress : (owner master : Address) → (walletCode : Nat) → Address

/-! ## Sends -/

/-- `value: ton("0.02")` of the receipt burn. -/
def burnValue : Nat :=
  20000000

variable (chain : Chain) (storage : VaultStorage) (inMsg : InMessage)

def mintReceipt (amount queryId : Nat) : VaultAction :=
  .send (chain.calcReceiptWalletAddress storage.owner chain.self storage.config.receiptWalletCode)
    (.coins minTonsForStorage) true false
    (.jettonInternalTransfer queryId amount chain.self chain.self)

def burnReceipt (amount queryId : Nat) : VaultAction :=
  .send (chain.calcReceiptWalletAddress storage.owner chain.self storage.config.receiptWalletCode)
    (.coins burnValue) false true (.receiptBurn queryId amount)

variable (recipient : Address)

/-- A fixed-value, bounceable payout. -/
def payout (amount queryId : Nat) : VaultAction :=
  .send recipient (.coins amount) true false (.stakePayout queryId)

def payoutRemainderNoReserve (queryId : Nat) : VaultAction :=
  .send recipient .allBalance true false (.stakePayout queryId)

def payoutLiquidRemainder (keepReserved queryId : Nat) : List VaultAction :=
  [.reserveExact (keepReserved + minTonsForStorage), payoutRemainderNoReserve recipient queryId]

/-- `if (amount > 0) { payout(recipient, amount, queryId) }`. -/
def payoutIfPositive (amount queryId : Nat) : List VaultAction :=
  if 0 < amount then [payout recipient amount queryId] else []

def SlashConfig.sum (sc : SlashConfig) : Nat :=
  sc.splitChallengerBps + sc.splitRedundancyBps + sc.splitBurnBps + sc.splitTreasuryBps

/-- The burn share is what none of the three payouts takes; it stays in the vault. -/
def applySlashSplit (sc : SlashConfig) (amount : Nat) (challenger : Address) (queryId : Nat) :
    Except Exit (List VaultAction) := do
  require (sc.sum = bpsDenom) .invalidSplit
  let challengerAmt := mulDivFloor amount sc.splitChallengerBps bpsDenom
  let redundancyAmt := mulDivFloor amount sc.splitRedundancyBps bpsDenom
  let treasuryAmt := mulDivFloor amount sc.splitTreasuryBps bpsDenom
  return payoutIfPositive challenger challengerAmt queryId ++
    payoutIfPositive sc.redundancyPool redundancyAmt queryId ++
    payoutIfPositive sc.treasury treasuryAmt queryId

/-! ## Handlers -/

def validateVaultConfig (cfg : VaultConfig) : Except Exit Unit := do
  require (cfg.keeperBountyBps ≤ bpsDenom) .badBountyBps
  require (cfg.challengeWindow ≤ cfg.unbondingPeriod) .paramsOutOfBounds
  require (cfg.slash.sum = bpsDenom) .invalidSplit

abbrev Handled := Except Exit (VaultStorage × List VaultAction)

def stakeDeposit (queryId amount : Nat) : Handled := do
  require (inMsg.senderAddress = storage.owner) .notOwner
  require (amount + minTonsForStorage ≤ inMsg.valueCoins) .notEnoughGas
  validateVaultConfig storage.config
  return ({ storage with staked := storage.staked + amount
                         totalSupply := storage.totalSupply + amount },
    [mintReceipt chain storage amount queryId])

def stakeRequestUnbond (amount : Nat) : Handled := do
  require (inMsg.senderAddress = storage.owner) .notOwner
  require (storage.unbondingAt = 0) .unbondInProgress
  require (0 < amount ∧ amount ≤ storage.staked) .nothingToUnbond
  let staked ← subCoins storage.staked amount
  return ({ storage with staked := staked, unbondingAmount := amount
                         unbondingAt := inMsg.now }, [])

def stakeWithdraw (queryId : Nat) : Handled := do
  require (inMsg.senderAddress = storage.owner) .notOwner
  require (0 < storage.unbondingAmount) .noUnbonding
  let readyAt := storage.unbondingAt + storage.config.unbondingPeriod
  require (readyAt ≤ inMsg.now) .cooldownNotElapsed
  let amount := storage.unbondingAmount
  let totalSupply ← subCoins storage.totalSupply amount
  return ({ storage with unbondingAmount := 0, unbondingAt := 0, totalSupply := totalSupply },
    burnReceipt chain storage amount queryId ::
      payoutLiquidRemainder storage.owner storage.staked queryId)

def stakeKeeperWithdraw (queryId : Nat) : Handled := do
  require (0 < storage.unbondingAmount) .noUnbonding
  let keeperAt := storage.unbondingAt + storage.config.unbondingPeriod +
    storage.config.keeperGrace
  require (keeperAt ≤ inMsg.now) .keeperTooEarly
  let amount := storage.unbondingAmount
  let totalSupply ← subCoins storage.totalSupply amount
  let bounty := mulDivFloor amount storage.config.keeperBountyBps bpsDenom
  return ({ storage with unbondingAmount := 0, unbondingAt := 0, totalSupply := totalSupply },
    burnReceipt chain storage amount queryId ::
      .reserveExact (storage.staked + minTonsForStorage) ::
      (payoutIfPositive inMsg.senderAddress bounty queryId ++
        [payoutRemainderNoReserve storage.owner queryId]))

def stakeSlash (queryId amount : Nat) (challenger : Address) : Handled := do
  require (inMsg.senderAddress = storage.config.slasher) .notSlasher
  let slashable := storage.staked + storage.unbondingAmount
  require (0 < amount ∧ amount ≤ slashable) .slashExceedsStake
  let fromStaked := min amount storage.staked
  let staked ← subCoins storage.staked fromStaked
  let unbondingAmount ← subCoins storage.unbondingAmount (amount - fromStaked)
  let totalSupply ← subCoins storage.totalSupply amount
  let payouts ← applySlashSplit storage.config.slash amount challenger queryId
  return ({ storage with staked := staked, unbondingAmount := unbondingAmount
                         totalSupply := totalSupply },
    burnReceipt chain storage amount queryId :: payouts)

def stakeClaim (queryId : Nat) (recipient : Address) : Handled :=
  match storage.pending.get recipient with
  | none => .error (.err .noUnbonding)
  | some amount => do
    require (0 < amount) .noUnbonding
    return ({ storage with pending := storage.pending.remove recipient },
      [payout recipient amount queryId])

def provideWalletAddress
    (queryId : Nat) (ownerAddress : Address) (includeAddress : Bool) : Handled :=
  let walletAddr := chain.calcReceiptWalletAddress ownerAddress chain.self
    storage.config.receiptWalletCode
  let ownerRef := if includeAddress then some ownerAddress else none
  .ok (storage, [.send inMsg.senderAddress .remainingMessageValue false true
    (.takeWalletAddress queryId walletAddr ownerRef)])

def stakeAnnounceUpgrade (newCodeHash : Nat) : Handled := do
  require (inMsg.senderAddress = storage.config.upgradeAuthority) .upgradeNotAuthority
  return ({ storage with upgrade := { storage.upgrade with
      pendingCodeHash := newCodeHash, pendingCodeAt := inMsg.now } }, [])

def stakeApplyUpgrade (newCode : Nat) : Handled := do
  require (inMsg.senderAddress = storage.config.upgradeAuthority) .upgradeNotAuthority
  require (storage.upgrade.pendingCodeHash ≠ 0) .noPendingUpgrade
  require (newCode = storage.upgrade.pendingCodeHash) .upgradeCodeMismatch
  let readyAt := storage.upgrade.pendingCodeAt + storage.config.unbondingPeriod
  require (readyAt ≤ inMsg.now) .upgradeTimelockActive
  let codeVersion ← increment storage.upgrade.codeVersion
  return ({ storage with upgrade := ⟨codeVersion, 0, 0⟩ }, [.setCode newCode])

def stakeCancelUpgrade : Handled := do
  require (inMsg.senderAddress = storage.config.upgradeAuthority) .upgradeNotAuthority
  require (storage.upgrade.pendingCodeHash ≠ 0) .noPendingUpgrade
  return ({ storage with upgrade := { storage.upgrade with
      pendingCodeHash := 0, pendingCodeAt := 0 } }, [])

def onInternalMessage : AllowedMessageToVault → Handled
  | .stakeDeposit queryId amount => stakeDeposit chain storage inMsg queryId amount
  | .stakeRequestUnbond _ amount => stakeRequestUnbond storage inMsg amount
  | .stakeWithdraw queryId => stakeWithdraw chain storage inMsg queryId
  | .stakeKeeperWithdraw queryId => stakeKeeperWithdraw chain storage inMsg queryId
  | .stakeSlash queryId amount _ challenger =>
    stakeSlash chain storage inMsg queryId amount challenger
  | .stakeClaim queryId recipient => stakeClaim storage queryId recipient
  | .provideWalletAddress queryId ownerAddress includeAddress =>
    provideWalletAddress chain storage inMsg queryId ownerAddress includeAddress
  | .receiptTopUp _ => .ok (storage, [])
  | .stakeAnnounceUpgrade _ newCodeHash => stakeAnnounceUpgrade storage inMsg newCodeHash
  | .stakeApplyUpgrade _ newCode => stakeApplyUpgrade storage inMsg newCode
  | .stakeCancelUpgrade _ => stakeCancelUpgrade storage inMsg
  | .other isEmpty => do
    require (isEmpty = true) .invalidOp
    return (storage, [])

/-- A bounced mint takes its amount back out of the two buckets; a bounced payout is credited to
    the address it came back from. Other bodies are not sent bounceable. -/
def onBouncedMessage (senderAddress : Address) (valueCoins : Nat) : Body → Except Exit VaultStorage
  | .jettonInternalTransfer _ amount _ _ => do
    let fromStaked := min amount storage.staked
    let staked ← subCoins storage.staked fromStaked
    let fromUnbonding := min (amount - fromStaked) storage.unbondingAmount
    let unbondingAmount ← subCoins storage.unbondingAmount fromUnbonding
    let totalSupply ← subCoins storage.totalSupply (fromStaked + fromUnbonding)
    return { storage with staked := staked, unbondingAmount := unbondingAmount
                          totalSupply := totalSupply }
  | .stakePayout _ =>
    .ok { storage with pending := storage.pending.credit senderAddress valueCoins }
  | _ => .ok storage

/-! ## The vault as an account -/

abbrev Vault := Account VaultStorage Address Body Nat

/-- What can happen to a vault: a message arrives, a message it sent is accepted, or a message it
    sent comes back. The index counts the messages on their way. -/
inductive Event where
  | receive (inMsg : InMessage) (msg : AllowedMessageToVault)
  | deliver (index : Nat)
  | bounce (index : Nat)

/-- A bounced message brings its value back. It is never bounced again, so the value stays even
    when the handler throws. -/
def Vault.bounced (v : Vault) (index : Nat) (m : Message Address Body) : Vault :=
  { v with
    storage := (onBouncedMessage v.storage m.dest m.value m.body).toOption.getD v.storage
    balance := v.balance + m.value
    outbound := v.outbound.eraseIdx index }

def step (v : Vault) : Event → Vault
  | .receive inMsg msg =>
    v.receive inMsg.valueCoins (onInternalMessage chain v.storage inMsg msg)
  | .deliver index => { v with outbound := v.outbound.eraseIdx index }
  | .bounce index =>
    match v.outbound[index]? with
    | some m => if m.bounce then v.bounced index m else v
    | none => v

def freshVaultUpgrade : VaultUpgradeState :=
  ⟨0, 0, 0⟩

/-- A deployed vault before its first deposit. -/
def deployed (owner : Address) (config : VaultConfig) (code balance : Nat) : Vault where
  storage := { owner := owner, staked := 0, unbondingAmount := 0, unbondingAt := 0
               totalSupply := 0, config := config, upgrade := freshVaultUpgrade
               pending := Ledger.empty }
  balance := balance
  code := code
  outbound := []

/-! ## What each handler accepts -/

variable {chain : Chain} {storage : VaultStorage} {inMsg : InMessage} {queryId amount : Nat}
  {challenger recipient : Address} {r : VaultStorage × List VaultAction}

/-- The config checks of the first deposit. -/
structure VaultConfig.Valid (cfg : VaultConfig) : Prop where
  bounty : cfg.keeperBountyBps ≤ bpsDenom
  window : cfg.challengeWindow ≤ cfg.unbondingPeriod
  split : cfg.slash.sum = bpsDenom

variable {cfg : VaultConfig} {storage' : VaultStorage}

theorem validateVaultConfig_eq_ok_iff :
    validateVaultConfig cfg = .ok () ↔ cfg.Valid := by
  unfold validateVaultConfig
  rw [require_bind_eq_ok, require_bind_eq_ok, require_eq_ok]
  exact ⟨fun ⟨hb, hw, hs⟩ => ⟨hb, hw, hs⟩, fun h => ⟨h.bounty, h.window, h.split⟩⟩

theorem validateVaultConfig_bind_eq_ok {β : Type} {f : Unit → Except Exit β} {b : β} :
    (validateVaultConfig cfg >>= f) = .ok b ↔ cfg.Valid ∧ f () = .ok b := by
  rw [bind_eq_ok, ← validateVaultConfig_eq_ok_iff]
  exact ⟨fun ⟨_, hb⟩ => hb, fun hb => ⟨(), hb⟩⟩

theorem stakeDeposit_eq_ok_iff :
    stakeDeposit chain storage inMsg queryId amount = .ok r ↔
      inMsg.senderAddress = storage.owner ∧ amount + minTonsForStorage ≤ inMsg.valueCoins ∧
      storage.config.Valid ∧
      ({ storage with staked := storage.staked + amount
                      totalSupply := storage.totalSupply + amount },
        [mintReceipt chain storage amount queryId]) = r := by
  unfold stakeDeposit
  simp only [require_bind_eq_ok, validateVaultConfig_bind_eq_ok, pure_eq_ok]

theorem stakeRequestUnbond_eq_ok_iff :
    stakeRequestUnbond storage inMsg amount = .ok r ↔
      inMsg.senderAddress = storage.owner ∧ storage.unbondingAt = 0 ∧
      (0 < amount ∧ amount ≤ storage.staked) ∧
      ({ storage with staked := storage.staked - amount, unbondingAmount := amount
                      unbondingAt := inMsg.now }, []) = r := by
  unfold stakeRequestUnbond
  simp only [require_bind_eq_ok, subCoins_bind_eq_ok, pure_eq_ok]
  -- the range check repeats the guard
  exact and_congr_right fun _ => and_congr_right fun _ => and_congr_right fun h =>
    ⟨fun hr => hr.2, fun hr => ⟨h.2, hr⟩⟩

theorem stakeWithdraw_eq_ok_iff :
    stakeWithdraw chain storage inMsg queryId = .ok r ↔
      inMsg.senderAddress = storage.owner ∧ 0 < storage.unbondingAmount ∧
      storage.unbondingAt + storage.config.unbondingPeriod ≤ inMsg.now ∧
      storage.unbondingAmount ≤ storage.totalSupply ∧
      ({ storage with unbondingAmount := 0, unbondingAt := 0
                      totalSupply := storage.totalSupply - storage.unbondingAmount },
        burnReceipt chain storage storage.unbondingAmount queryId ::
          payoutLiquidRemainder storage.owner storage.staked queryId) = r := by
  unfold stakeWithdraw
  simp only [require_bind_eq_ok, subCoins_bind_eq_ok, pure_eq_ok]

/-- `bounty` of the keeper path. -/
def keeperBounty (storage : VaultStorage) : Nat :=
  mulDivFloor storage.unbondingAmount storage.config.keeperBountyBps bpsDenom

theorem stakeKeeperWithdraw_eq_ok_iff :
    stakeKeeperWithdraw chain storage inMsg queryId = .ok r ↔
      0 < storage.unbondingAmount ∧
      storage.unbondingAt + storage.config.unbondingPeriod + storage.config.keeperGrace ≤
        inMsg.now ∧
      storage.unbondingAmount ≤ storage.totalSupply ∧
      ({ storage with unbondingAmount := 0, unbondingAt := 0
                      totalSupply := storage.totalSupply - storage.unbondingAmount },
        burnReceipt chain storage storage.unbondingAmount queryId ::
          .reserveExact (storage.staked + minTonsForStorage) ::
          (payoutIfPositive inMsg.senderAddress (keeperBounty storage) queryId ++
            [payoutRemainderNoReserve storage.owner queryId])) = r := by
  unfold stakeKeeperWithdraw
  simp only [require_bind_eq_ok, subCoins_bind_eq_ok, pure_eq_ok]
  rfl

/-- The three payouts of a slash, in the order they are sent. -/
def slashPayouts (sc : SlashConfig) (amount : Nat) (challenger : Address) (queryId : Nat) :
    List VaultAction :=
  payoutIfPositive challenger (mulDivFloor amount sc.splitChallengerBps bpsDenom) queryId ++
    payoutIfPositive sc.redundancyPool (mulDivFloor amount sc.splitRedundancyBps bpsDenom)
      queryId ++
    payoutIfPositive sc.treasury (mulDivFloor amount sc.splitTreasuryBps bpsDenom) queryId

theorem applySlashSplit_bind_eq_ok {β : Type} {sc : SlashConfig}
    {f : List VaultAction → Except Exit β} {b : β} :
    (applySlashSplit sc amount challenger queryId >>= f) = .ok b ↔
      sc.sum = bpsDenom ∧ f (slashPayouts sc amount challenger queryId) = .ok b := by
  unfold applySlashSplit
  rw [bind_assoc]
  exact require_bind_eq_ok

theorem stakeSlash_eq_ok_iff :
    stakeSlash chain storage inMsg queryId amount challenger = .ok r ↔
      inMsg.senderAddress = storage.config.slasher ∧
      (0 < amount ∧ amount ≤ storage.staked + storage.unbondingAmount) ∧
      amount ≤ storage.totalSupply ∧ storage.config.slash.sum = bpsDenom ∧
      ({ storage with
          staked := storage.staked - min amount storage.staked
          unbondingAmount := storage.unbondingAmount - (amount - min amount storage.staked)
          totalSupply := storage.totalSupply - amount },
        burnReceipt chain storage amount queryId ::
          slashPayouts storage.config.slash amount challenger queryId) = r := by
  unfold stakeSlash
  simp only [require_bind_eq_ok, subCoins_bind_eq_ok, applySlashSplit_bind_eq_ok, pure_eq_ok]
  -- the two bucket subtractions never go below zero once `amount` is slashable
  refine and_congr_right fun _ => and_congr_right fun h => ⟨fun hr => hr.2.2, fun hr => ?_⟩
  exact ⟨by omega, by omega, hr⟩

theorem stakeClaim_eq_ok_iff :
    stakeClaim storage queryId recipient = .ok r ↔
      ∃ credit, storage.pending.get recipient = some credit ∧ 0 < credit ∧
        ({ storage with pending := storage.pending.remove recipient },
          [payout recipient credit queryId]) = r := by
  unfold stakeClaim
  cases h : storage.pending.get recipient with
  | none => exact ⟨nofun, fun ⟨_, hc, _⟩ => (nomatch hc)⟩
  | some credit =>
    simp only [require_bind_eq_ok, pure_eq_ok, Option.some.injEq, exists_eq_left']

theorem stakeAnnounceUpgrade_eq_ok_iff {newCodeHash : Nat} :
    stakeAnnounceUpgrade storage inMsg newCodeHash = .ok r ↔
      inMsg.senderAddress = storage.config.upgradeAuthority ∧
      ({ storage with upgrade := { storage.upgrade with
          pendingCodeHash := newCodeHash, pendingCodeAt := inMsg.now } }, []) = r := by
  unfold stakeAnnounceUpgrade
  simp only [require_bind_eq_ok, pure_eq_ok]

theorem stakeApplyUpgrade_eq_ok_iff {newCode : Nat} :
    stakeApplyUpgrade storage inMsg newCode = .ok r ↔
      inMsg.senderAddress = storage.config.upgradeAuthority ∧
      storage.upgrade.pendingCodeHash ≠ 0 ∧ newCode = storage.upgrade.pendingCodeHash ∧
      storage.upgrade.pendingCodeAt + storage.config.unbondingPeriod ≤ inMsg.now ∧
      ∃ version, increment storage.upgrade.codeVersion = .ok version ∧
        ({ storage with upgrade := ⟨version, 0, 0⟩ }, [.setCode newCode]) = r := by
  unfold stakeApplyUpgrade
  simp only [bind_eq_ok, require_eq_ok, exists_const, pure_eq_ok]

theorem stakeCancelUpgrade_eq_ok_iff :
    stakeCancelUpgrade storage inMsg = .ok r ↔
      inMsg.senderAddress = storage.config.upgradeAuthority ∧
      storage.upgrade.pendingCodeHash ≠ 0 ∧
      ({ storage with upgrade := { storage.upgrade with
          pendingCodeHash := 0, pendingCodeAt := 0 } }, []) = r := by
  unfold stakeCancelUpgrade
  simp only [require_bind_eq_ok, pure_eq_ok]

/-- The messages that move no stake: top-ups, wallet lookups and the upgrade steps. -/
def AllowedMessageToVault.Neutral : AllowedMessageToVault → Prop
  | .provideWalletAddress .. | .receiptTopUp .. | .stakeAnnounceUpgrade ..
  | .stakeApplyUpgrade .. | .stakeCancelUpgrade .. | .other .. => True
  | _ => False

/-- A neutral message changes at most the upgrade state, and sends at most its own value back. -/
theorem onInternalMessage_neutral {msg : AllowedMessageToVault} {actions : List VaultAction}
    (hmsg : msg.Neutral) (h : onInternalMessage chain storage inMsg msg = .ok (storage', actions)) :
    storage' = { storage with upgrade := storage'.upgrade } ∧
      (actions = [] ∨ (∃ code, actions = [.setCode code]) ∨
        ∃ queryId walletAddress ownerAddress,
          actions = [.send inMsg.senderAddress .remainingMessageValue false true
            (.takeWalletAddress queryId walletAddress ownerAddress)]) := by
  cases msg with
  | provideWalletAddress queryId ownerAddress includeAddress =>
    cases h
    exact ⟨rfl, .inr (.inr ⟨_, _, _, rfl⟩)⟩
  | receiptTopUp queryId =>
    cases h
    exact ⟨rfl, .inl rfl⟩
  | stakeAnnounceUpgrade queryId newCodeHash =>
    obtain ⟨_, h⟩ := stakeAnnounceUpgrade_eq_ok_iff.mp h
    cases h
    exact ⟨rfl, .inl rfl⟩
  | stakeApplyUpgrade queryId newCode =>
    obtain ⟨_, _, _, _, _, _, h⟩ := stakeApplyUpgrade_eq_ok_iff.mp h
    cases h
    exact ⟨rfl, .inr (.inl ⟨_, rfl⟩)⟩
  | stakeCancelUpgrade queryId =>
    obtain ⟨_, _, h⟩ := stakeCancelUpgrade_eq_ok_iff.mp h
    cases h
    exact ⟨rfl, .inl rfl⟩
  | other isEmpty =>
    simp only [onInternalMessage, require_bind_eq_ok, pure_eq_ok] at h
    obtain ⟨_, h⟩ := h
    cases h
    exact ⟨rfl, .inl rfl⟩
  | _ => exact hmsg.elim

/-- What a bounced mint of `amount` takes out of the two buckets. -/
def reclaimed (s : VaultStorage) (amount : Nat) : Nat :=
  min amount s.staked + min (amount - min amount s.staked) s.unbondingAmount

/-- A bounce takes a mint back out of the buckets, or touches the pull ledger at most. -/
theorem onBouncedMessage_cases {sender : Address} {value : Nat} {body : Body}
    (h : onBouncedMessage storage sender value body = .ok storage') :
    (∃ amount, reclaimed storage amount ≤ storage.totalSupply ∧ storage' = { storage with
        staked := storage.staked - min amount storage.staked
        unbondingAmount := storage.unbondingAmount -
          min (amount - min amount storage.staked) storage.unbondingAmount
        totalSupply := storage.totalSupply - reclaimed storage amount }) ∨
      ∃ pending : Ledger Address, pending.total ≤ storage.pending.total + value ∧
        storage' = { storage with pending := pending } := by
  cases body with
  | jettonInternalTransfer queryId amount fromAddress responseAddress =>
    simp only [onBouncedMessage, subCoins_bind_eq_ok, pure_eq_ok] at h
    obtain ⟨_, _, hsupply, rfl⟩ := h
    exact .inl ⟨amount, hsupply, rfl⟩
  | stakePayout queryId =>
    cases h
    exact .inr ⟨_, (Ledger.total_credit _ _ _).le, rfl⟩
  | _ =>
    cases h
    exact .inr ⟨_, Nat.le_add_right _ _, rfl⟩

/-- A bounce runs the bounce handler at most, on top of the value that comes back. -/
theorem step_bounce_keeps {P : VaultStorage → Nat → Prop} {v : Vault} {index : Nat}
    (hsame : P v.storage v.balance) (hthrown : ∀ value, P v.storage (v.balance + value))
    (h : ∀ sender value body storage',
      onBouncedMessage v.storage sender value body = .ok storage' →
      P storage' (v.balance + value)) :
    P (step chain v (.bounce index)).storage (step chain v (.bounce index)).balance := by
  rw [step]
  split
  · rename_i m _
    split
    · show P ((onBouncedMessage v.storage m.dest m.value m.body).toOption.getD v.storage)
        (v.balance + m.value)
      cases hb : onBouncedMessage v.storage m.dest m.value m.body with
      | error e => exact hthrown m.value
      | ok storage' => exact h _ _ _ _ hb
    · exact hsame
  · exact hsame

end Duckton.Ton.StakeVault
