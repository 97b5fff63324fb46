/-
  Code upgrades of the three governed contracts.

  StakeVault, RecordAnchor and GlobalParams each take an announcement, an application and a
  cancellation from one authority, with a delay between the first two. Each of them is an instance
  of a timelocked system, so the rule for such systems gives what holds in every run of each.

  StakeVault and GlobalParams represent a code cell by its hash; RecordAnchor keeps the cell. The
  authority of GlobalParams is its admin, which the admin itself may replace: an announcement counts
  for the admin of its moment.
-/
import Duckton.Lib.Timelock
import Duckton.Ton.AnchorRuns
import Duckton.Ton.GlobalParams
import Duckton.Ton.VaultUpgrade

namespace Duckton.Ton

open Tvm Duckton.Proto Timelock

/-! ## StakeVault -/

namespace StakeVault

def AllowedMessageToVault.upgradeOp (now : Nat) : AllowedMessageToVault → Option (Op Nat Nat)
  | .stakeAnnounceUpgrade _ newCodeHash => some (.announce newCodeHash now)
  | .stakeApplyUpgrade _ newCode => some (.apply newCode now)
  | .stakeCancelUpgrade _ => some .cancel
  | _ => none

/-- The upgrade operation an event performs: that of a message the vault accepts. -/
def upgradeOp (chain : Chain) (v : Vault) : Event → Option (Op Nat Nat)
  | .receive inMsg msg =>
    match v.transact inMsg.valueCoins (onInternalMessage chain v.storage inMsg msg) with
    | .ok _ => msg.upgradeOp inMsg.now
    | .error _ => none
  | _ => none

def Event.sender : Event → Option Address
  | .receive inMsg _ => some inMsg.senderAddress
  | _ => none

def timelock (chain : Chain) : System Vault Event Nat Nat Address where
  step := step chain
  slot := fun v =>
    ⟨v.storage.upgrade.codeVersion.toNat, v.storage.upgrade.pendingCodeHash,
      v.storage.upgrade.pendingCodeAt, v.code⟩
  op := upgradeOp chain
  sender := Event.sender
  authority := fun v => v.storage.config.upgradeAuthority
  delay := fun v => v.storage.config.unbondingPeriod
  fingerprint := fun code => code
  nothing := 0

section

variable {chain : Chain} {v : Vault} {s s' : VaultStorage} {inMsg : InMessage}
  {msg : AllowedMessageToVault} {actions : List VaultAction}

theorem not_isUpgrade (hmsg : msg.upgradeOp inMsg.now = none) :
    ¬ (Event.receive inMsg msg).IsUpgrade := by
  cases msg <;> simp_all [AllowedMessageToVault.upgradeOp, Event.IsUpgrade]

theorem code_bounce (index : Nat) : (step chain v (.bounce index)).code = v.code := by
  rw [step]
  split
  · split <;> rfl
  · rfl

/-- What an accepted message does to the upgrade slot. -/
theorem move_accepted {p : Phase Address Body Nat}
    (h : onInternalMessage chain v.storage inMsg msg = .ok (s', actions))
    (hrun : (Phase.start (v.balance + inMsg.valueCoins)).run inMsg.valueCoins actions = some p) :
    Move (fun code => code) 0 v.storage.config.unbondingPeriod ((timelock chain).slot v)
      (msg.upgradeOp inMsg.now) ((timelock chain).slot (v.commit s' p)) := by
  cases hop : msg.upgradeOp inMsg.now with
  | none =>
    obtain ⟨hupgrade, hactions⟩ := internal_of_not_isUpgrade h (not_isUpgrade hop)
    have hcode : p.code = none := Phase.run_code hrun hactions
    have hslot : (timelock chain).slot (v.commit s' p) = (timelock chain).slot v := by
      simp [timelock, Account.commit, hcode, hupgrade]
    rw [hslot]
    exact .kept
  | some o =>
    cases msg with
    | stakeAnnounceUpgrade queryId newCodeHash =>
      obtain ⟨_, hr⟩ := stakeAnnounceUpgrade_eq_ok_iff.mp h
      cases hr
      cases hop
      cases hrun
      exact .announced newCodeHash inMsg.now
    | stakeApplyUpgrade queryId newCode =>
      obtain ⟨_, hpending, hcode, hready, version, hversion, hr⟩ :=
        stakeApplyUpgrade_eq_ok_iff.mp h
      cases hr
      cases hop
      cases hrun
      exact .applied_version hpending hcode hready (increment_eq_ok hversion)
    | stakeCancelUpgrade queryId =>
      obtain ⟨_, _, hr⟩ := stakeCancelUpgrade_eq_ok_iff.mp h
      cases hr
      cases hop
      cases hrun
      exact .cancelled
    | _ => cases hop

/-- The three messages are accepted from the upgrade authority only. -/
theorem gated_accepted {r : VaultStorage × List VaultAction}
    (h : onInternalMessage chain s inMsg msg = .ok r)
    (hop : (msg.upgradeOp inMsg.now).isSome) :
    inMsg.senderAddress = s.config.upgradeAuthority := by
  cases msg with
  | stakeAnnounceUpgrade queryId newCodeHash => exact (stakeAnnounceUpgrade_eq_ok_iff.mp h).1
  | stakeApplyUpgrade queryId newCode => exact (stakeApplyUpgrade_eq_ok_iff.mp h).1
  | stakeCancelUpgrade queryId => exact (stakeCancelUpgrade_eq_ok_iff.mp h).1
  | _ => cases hop

end

theorem timelock_sound (chain : Chain) : (timelock chain).Sound := by
  refine .of_step (fun v e => ?_) fun v e =>
    congrArg VaultConfig.unbondingPeriod (stakeMove_step chain v e).terms.2
  cases e with
  | receive inMsg msg =>
    cases htransact : v.transact inMsg.valueCoins
        (onInternalMessage chain v.storage inMsg msg) with
    | error err =>
      have hstep : step chain v (.receive inMsg msg) = v := by
        simp [step, Account.receive, htransact, Except.toOption]
      simp only [timelock, upgradeOp, htransact, hstep]
      exact Move.idle
    | ok v' =>
      have hstep : step chain v (.receive inMsg msg) = v' := by
        simp [step, Account.receive, htransact, Except.toOption]
      obtain ⟨storage, actions, p, hc, hp, rfl⟩ := Account.transact_ok_iff.mp htransact
      have hmove := move_accepted hc hp
      simp only [timelock, upgradeOp, htransact, hstep] at hmove ⊢
      exact ⟨hmove, fun hop => congrArg some (gated_accepted hc hop)⟩
  | deliver index => exact Move.idle
  | bounce index =>
    have hupgrade : (step chain v (.bounce index)).storage.upgrade = v.storage.upgrade :=
      step_upgrade_of_not fun h => h
    have hcode : (step chain v (.bounce index)).code = v.code := code_bounce index
    simp only [timelock, upgradeOp, hupgrade, hcode]
    exact Move.idle

end StakeVault

/-! ## RecordAnchor -/

namespace RecordAnchor

def AllowedMessageToAnchor.upgradeOp (now : Nat) :
    AllowedMessageToAnchor → Option (Op Cell (BitVec 256))
  | .anchorAnnounceUpgrade _ newCodeHash => some (.announce newCodeHash now)
  | .anchorUpgradeCode _ newCode => some (.apply newCode now)
  | .anchorCancelUpgrade _ => some .cancel
  | _ => none

def upgradeOp (sha256 : Bytes → BitVec 256) (r : AnchorRun) : Event → Option (Op Cell (BitVec 256))
  | .receive inMsg msg _ =>
    match r.anchor.transact inMsg.valueCoins (onInternalMessage sha256 r.storage inMsg msg) with
    | .ok _ => msg.upgradeOp inMsg.now
    | .error _ => none
  | _ => none

def Event.sender : Event → Option Address
  | .receive inMsg _ _ => some inMsg.senderAddress
  | _ => none

def timelock (sha256 : Bytes → BitVec 256) : System AnchorRun Event Cell (BitVec 256) Address where
  step := step sha256
  slot := fun r =>
    ⟨r.storage.codeVersion.toNat, r.storage.pendingCodeHash, r.storage.pendingCodeAt,
      r.anchor.code⟩
  op := upgradeOp sha256
  sender := Event.sender
  authority := fun r => r.storage.config.auth.upgradeAuthority
  delay := fun r => r.storage.upgradeDelay
  fingerprint := Cell.reprHash sha256
  nothing := 0

section

variable {sha256 : Bytes → BitVec 256} {r : AnchorRun} {s' : AnchorStorage} {inMsg : InMessage}
  {msg : AllowedMessageToAnchor} {actions : List AnchorAction}

theorem move_accepted {p : Phase Address AnchorBondRefund Cell}
    (h : Accepted sha256 r.storage inMsg msg s' actions)
    (hrun : (Phase.start (r.anchor.balance + inMsg.valueCoins)).run inMsg.valueCoins actions =
      some p) :
    Move (Cell.reprHash sha256) 0 r.storage.upgradeDelay ((timelock sha256).slot r)
      (msg.upgradeOp inMsg.now)
      ((timelock sha256).slot { r with anchor := r.anchor.commit s' p }) := by
  cases h with
  | announced queryId newCodeHash hauthority =>
    cases hrun
    exact .announced newCodeHash inMsg.now
  | upgraded queryId newCode version hauthority hpending hhash hready hversion =>
    cases hrun
    exact .applied_version hpending hhash hready hversion
  | cancelled =>
    cases hrun
    exact .cancelled
  | submitted | disputed | ignored =>
    cases hrun
    exact .kept
  | resolved queryId disputeId upheld dispute hfound hopen =>
    have hcode : p.code = none := Phase.run_code hrun (by simp [refundBond])
    simp only [timelock, AnchorRun.storage, Account.commit, hcode, Option.getD_none]
    exact .kept

theorem gated_accepted (h : Accepted sha256 r.storage inMsg msg s' actions)
    (hop : (msg.upgradeOp inMsg.now).isSome) :
    inMsg.senderAddress = r.storage.config.auth.upgradeAuthority := by
  cases h with
  | announced queryId newCodeHash hauthority => exact hauthority
  | upgraded queryId newCode version hauthority hpending hhash hready hversion => exact hauthority
  | cancelled queryId hauthority hpending => exact hauthority
  | _ => cases hop

theorem upgradeDelay_step (e : Event) :
    (step sha256 r e).storage.upgradeDelay = r.storage.upgradeDelay := by
  refine step_keeps (P := fun s => s.upgradeDelay = r.storage.upgradeDelay) e rfl ?_ ?_
  · intro inMsg msg s' actions h
    cases h <;> rfl
  · intro body
    rw [onBouncedMessage_frame]

/-- A returned refund leaves the upgrade slot alone. -/
theorem slot_bounce (index : Nat) :
    (timelock sha256).slot (step sha256 r (.bounce index)) = (timelock sha256).slot r := by
  cases hm : r.anchor.outbound[index]? with
  | none => simp [timelock, step, hm]
  | some m =>
    by_cases hbounce : m.bounce = true
    · have hstep : step sha256 r (.bounce index) = r.bounced index m := by
        simp [step, hm, hbounce]
      have hstorage : (r.bounced index m).storage = onBouncedMessage r.storage m.body := rfl
      simp only [timelock, hstep, hstorage]
      rw [onBouncedMessage_frame]
      rfl
    · simp [timelock, step, hm, hbounce]

end

theorem timelock_sound (sha256 : Bytes → BitVec 256) : (timelock sha256).Sound := by
  refine .of_step (fun r e => ?_) fun r e => upgradeDelay_step e
  cases e with
  | receive inMsg msg stays =>
    cases htransact : r.anchor.transact inMsg.valueCoins
        (onInternalMessage sha256 r.storage inMsg msg) with
    | error err =>
      simp only [timelock, upgradeOp, step, AnchorRun.receive, htransact]
      exact Move.idle
    | ok anchor =>
      obtain ⟨storage, actions, p, hc, hp, rfl⟩ := Account.transact_ok_iff.mp htransact
      have hmove := move_accepted (accepted_cases hc) hp
      simp only [timelock, upgradeOp, step, AnchorRun.receive, htransact] at hmove ⊢
      exact ⟨hmove, fun hop => congrArg some (gated_accepted (accepted_cases hc) hop)⟩
  | deliver index =>
    cases hm : r.anchor.outbound[index]? with
    | none | some m =>
      simp only [timelock, upgradeOp, step, hm]
      exact Move.idle
  | bounce index =>
    have hslot : (timelock sha256).slot (step sha256 r (.bounce index)) =
        (timelock sha256).slot r := slot_bounce index
    simp only [timelock, upgradeOp] at hslot ⊢
    rw [hslot]
    exact Move.idle

end RecordAnchor

/-! ## GlobalParams -/

namespace GlobalParams

/-- The contract with the code in force. -/
structure Contract where
  storage : GlobalParamsStorage
  code : Nat

/-- The code the last queued SETCODE installs. -/
def installed (code : Nat) : List Output → Nat
  | [] => code
  | .setCode newCode :: outputs => installed newCode outputs
  | _ :: outputs => installed code outputs

def Contract.step (c : Contract) (tx : Transaction) : Contract :=
  match onInternalMessage c.storage tx.inMsg tx.msg with
  | .ok (storage, outputs) => ⟨storage, installed c.code outputs⟩
  | .error _ => c

def AllowedMessageToGlobalParams.upgradeOp (now : Nat) :
    AllowedMessageToGlobalParams → Option (Op Nat Nat)
  | .announceCode _ newCodeHash => some (.announce newCodeHash now)
  | .upgradeCode _ newCode => some (.apply newCode now)
  | .cancelCode _ => some .cancel
  | _ => none

def upgradeOp (c : Contract) (tx : Transaction) : Option (Op Nat Nat) :=
  match onInternalMessage c.storage tx.inMsg tx.msg with
  | .ok _ => tx.msg.upgradeOp tx.inMsg.now
  | .error _ => none

def timelock : System Contract Transaction Nat Nat Address where
  step := Contract.step
  slot := fun c =>
    ⟨c.storage.codeVersion.toNat, c.storage.pendingCodeHash, c.storage.pendingCodeAt, c.code⟩
  op := upgradeOp
  sender := fun tx => some tx.inMsg.senderAddress
  authority := fun c => c.storage.admin
  delay := fun c => c.storage.upgradeDelay
  fingerprint := fun code => code
  nothing := 0

section

variable {s : GlobalParamsStorage} {inMsg : InMessage} {r : GlobalParamsStorage × List Output}
  {msg : AllowedMessageToGlobalParams}

/-- What an accepted message does to the upgrade slot, and from whom; the delay it leaves alone. -/
theorem move_accepted (code : Nat) (h : onInternalMessage s inMsg msg = .ok r) :
    (Move (fun code => code) 0 s.upgradeDelay (timelock.slot ⟨s, code⟩) (msg.upgradeOp inMsg.now)
        (timelock.slot ⟨r.1, installed code r.2⟩) ∧
      ((msg.upgradeOp inMsg.now).isSome → inMsg.senderAddress = s.admin)) ∧
      r.1.upgradeDelay = s.upgradeDelay := by
  cases msg with
  | updateParams queryId feeRecipient params =>
    obtain ⟨-, p, -, -, version, -, rfl⟩ := updateParams_eq_ok_iff.mp h
    exact ⟨Move.idle, rfl⟩
  | announceCode queryId newCodeHash =>
    obtain ⟨hadmin, hr⟩ := require_bind_eq_ok.mp h
    cases hr
    exact ⟨⟨.announced newCodeHash inMsg.now, fun _ => hadmin⟩, rfl⟩
  | upgradeCode queryId newCode =>
    obtain ⟨hadmin, hpending, hcode, hready, version, hversion, rfl⟩ := upgradeCode_eq_ok h
    exact ⟨⟨.applied_version hpending hcode hready hversion, fun _ => hadmin⟩, rfl⟩
  | cancelCode queryId =>
    obtain ⟨hadmin, h⟩ := require_bind_eq_ok.mp h
    obtain ⟨-, hr⟩ := require_bind_eq_ok.mp h
    cases hr
    exact ⟨⟨.cancelled, fun _ => hadmin⟩, rfl⟩
  | _ =>
    -- The admin, the blocklist and a plain transfer have nothing to do with the code.
    obtain ⟨-, hr⟩ := require_bind_eq_ok.mp h
    cases hr
    exact ⟨Move.idle, rfl⟩

end

theorem timelock_sound : timelock.Sound := by
  refine .of_step ?_ ?_
  · rintro ⟨s, code⟩ tx
    cases hc : onInternalMessage s tx.inMsg tx.msg with
    | error e =>
      simp only [timelock, upgradeOp, Contract.step, hc]
      exact Move.idle
    | ok r =>
      obtain ⟨⟨hmove, hadmin⟩, -⟩ := move_accepted code hc
      simp only [timelock, upgradeOp, Contract.step, hc] at hmove ⊢
      exact ⟨hmove, fun hop => congrArg some (hadmin hop)⟩
  · rintro ⟨s, code⟩ tx
    cases hc : onInternalMessage s tx.inMsg tx.msg with
    | error e => simp only [timelock, Contract.step, hc]
    | ok r =>
      simp only [timelock, Contract.step, hc]
      exact (move_accepted code hc).2

/-- A deployed contract before its first upgrade. -/
def deployed (admin feeRecipient : Address) (params : EcoParams)
    (blocklist : AList fun _ : BitVec 256 => BitVec 1) (paramsVersion : UInt32)
    (upgradeDelay code : Nat) : Contract where
  storage := { admin := admin, feeRecipient := feeRecipient, params := params
               blocklist := blocklist, paramsVersion := paramsVersion, codeVersion := 0
               upgradeDelay := upgradeDelay, pendingCodeHash := 0, pendingCodeAt := 0 }
  code := code

end GlobalParams

/-! ## All three -/

/-- In every run of each contract from its deployment: behind every applied upgrade stands, as the
    latest announcement, application or cancellation before it, the announcement of that very code
    by the authority of its moment, at least one delay earlier; the code version is the number of
    applied upgrades; and what does not come from the authority leaves the announced hash, its
    time, the code and the code version as they are. -/
theorem upgrades_timelocked :
    (∀ (chain : StakeVault.Chain) (owner : Address) (config : StakeVault.VaultConfig)
      (code balance : Nat) (events : List StakeVault.Event),
      (StakeVault.timelock chain).Governed (StakeVault.deployed owner config code balance)
        events) ∧
    (∀ (sha256 : Bytes → BitVec 256) (config : RecordAnchor.AnchorConfig) (upgradeDelay : Nat)
      (code : Cell) (balance : Nat) (events : List RecordAnchor.Event),
      (RecordAnchor.timelock sha256).Governed
        (RecordAnchor.deployed config upgradeDelay code balance) events) ∧
    (∀ (admin feeRecipient : Address) (params : GlobalParams.EcoParams)
      (blocklist : AList fun _ : BitVec 256 => BitVec 1) (paramsVersion : UInt32)
      (upgradeDelay code : Nat) (txs : List GlobalParams.Transaction),
      GlobalParams.timelock.Governed
        (GlobalParams.deployed admin feeRecipient params blocklist paramsVersion upgradeDelay code)
        txs) := by
  refine ⟨?_, ?_, ?_⟩
  · intro chain owner config code balance events
    exact (StakeVault.timelock_sound chain).governed rfl rfl events
  · intro sha256 config upgradeDelay code balance events
    exact (RecordAnchor.timelock_sound sha256).governed rfl rfl events
  · intro admin feeRecipient params blocklist paramsVersion upgradeDelay code txs
    exact GlobalParams.timelock_sound.governed rfl rfl txs

end Duckton.Ton
