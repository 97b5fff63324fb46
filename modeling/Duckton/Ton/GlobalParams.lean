/-
  The platform-wide parameters contract (GlobalParams.tolk, global_params_types.tolk).

  The admin replaces the fee recipient and the whole child cell of parameters in one message, and
  each accepted update adds one to the version. So a version names one set of parameters, and the
  set changes only with the version. Every getter reads the storage of one moment; nothing
  ties two getter calls together.

  The runs are runs under the code modelled here: an applied upgrade is taken to keep it.
-/
import Mathlib.Data.List.AList
import Duckton.Lib.Run
import Duckton.Ton.Common

namespace Duckton.Ton.GlobalParams

/-! ## Storage and messages -/

structure EcoParams where
  platformFeeBps : UInt16
  surchargeBps : UInt16
  participationCommissionBps : UInt16
  slashWrongBps : UInt16
  slashCheatBps : UInt16
  slashDowntimeBps : UInt16
  slashEquivocationBps : UInt16
  splitChallengerBps : UInt16
  splitRedundancyBps : UInt16
  splitBurnBps : UInt16
  splitTreasuryBps : UInt16
  minStake : Nat
  minStakeInternal : Nat
  minStakeSensitive : Nat
  stakeCap : Nat
  unbondingSecs : UInt32
  challengeWindowSecs : UInt32
  nPublic : UInt8
  nDefault : UInt8
  nMax : UInt8
  quorum : UInt8
  checksumMin : UInt8
  wQualityBps : UInt16
  wStakeBps : UInt16
  wPriceBps : UInt16
  slashFailedCommitmentBps : UInt16
  attemptDeadlineMs : UInt32
  progressIntervalMs : UInt32
  progressStallMult : UInt8
  deriving DecidableEq, Repr

structure GlobalParamsStorage where
  admin : Address
  feeRecipient : Address
  params : EcoParams
  blocklist : AList fun _ : BitVec 256 => BitVec 1
  paramsVersion : UInt32
  codeVersion : UInt32
  upgradeDelay : Nat
  pendingCodeHash : Nat
  pendingCodeAt : Nat
  deriving DecidableEq

/-- The messages the contract accepts. A code cell is represented by its hash, the parameter cell
    by what it parses to; `other` is a body that parses as none of them. -/
inductive AllowedMessageToGlobalParams where
  | updateParams (queryId : Nat) (feeRecipient : Address) (params : Option EcoParams)
  | updateAdmin (queryId : Nat) (newAdmin : Address)
  | setBlocklisted (queryId : Nat) (subject : BitVec 256) (blocked : Bool)
  | announceCode (queryId newCodeHash : Nat)
  | upgradeCode (queryId newCode : Nat)
  | cancelCode (queryId : Nat)
  | other (isEmpty : Bool)
  deriving DecidableEq, Repr

/-- What a handler leaves besides the storage: the two log messages and the postponed SETCODE. -/
inductive Output where
  | paramsUpdated (queryId : Nat) (version : UInt32) (platformFeeBps : UInt16) (minStake : Nat)
  | codeUpgraded (queryId : Nat) (codeVersion : UInt32) (codeHash : Nat)
  | setCode (code : Nat)
  deriving DecidableEq, Repr

abbrev Handled := Except Exit (GlobalParamsStorage × List Output)

/-! ## Handlers -/

def validateEcoParams (p : EcoParams) : Except Exit Unit := do
  require (p.platformFeeBps.toNat ≤ bpsDenom) .paramsOutOfBounds
  require (p.surchargeBps.toNat ≤ bpsDenom) .paramsOutOfBounds
  require (p.slashWrongBps.toNat ≤ bpsDenom) .paramsOutOfBounds
  require (p.slashCheatBps.toNat ≤ bpsDenom) .paramsOutOfBounds
  require (p.slashDowntimeBps.toNat ≤ bpsDenom) .paramsOutOfBounds
  require (p.slashEquivocationBps.toNat ≤ bpsDenom) .paramsOutOfBounds
  require (p.wQualityBps.toNat ≤ bpsDenom) .paramsOutOfBounds
  require (p.wStakeBps.toNat ≤ bpsDenom) .paramsOutOfBounds
  require (p.wPriceBps.toNat ≤ bpsDenom) .paramsOutOfBounds
  require (p.slashFailedCommitmentBps.toNat ≤ bpsDenom) .paramsOutOfBounds
  require (p.participationCommissionBps.toNat ≤ 1000) .paramsOutOfBounds
  require (1 ≤ p.progressIntervalMs.toNat) .paramsOutOfBounds
  require (1 ≤ p.progressStallMult.toNat) .paramsOutOfBounds
  let splitSum := p.splitChallengerBps.toNat + p.splitRedundancyBps.toNat +
    p.splitBurnBps.toNat + p.splitTreasuryBps.toNat
  require (splitSum = bpsDenom) .paramsOutOfBounds
  require (p.minStakeInternal ≤ p.minStakeSensitive) .paramsOutOfBounds
  require (p.minStake ≤ p.minStakeInternal) .paramsOutOfBounds
  require (p.minStake ≤ p.stakeCap) .paramsOutOfBounds
  require (p.challengeWindowSecs.toNat ≤ p.unbondingSecs.toNat) .paramsOutOfBounds
  require (1 ≤ p.checksumMin.toNat) .paramsOutOfBounds
  require (p.checksumMin.toNat ≤ p.nPublic.toNat) .paramsOutOfBounds
  require (p.nPublic.toNat ≤ p.nDefault.toNat) .paramsOutOfBounds
  require (p.nDefault.toNat ≤ p.nMax.toNat) .paramsOutOfBounds
  require (1 ≤ p.quorum.toNat ∧ p.quorum.toNat ≤ p.nDefault.toNat) .paramsOutOfBounds

variable (storage : GlobalParamsStorage) (inMsg : InMessage)

def updateParams (queryId : Nat)
    (feeRecipient : Address) (params : Option EcoParams) : Handled := do
  require (inMsg.senderAddress = storage.admin) .notAdmin
  let newParams ← parsed params
  let _ ← validateEcoParams newParams
  let paramsVersion ← increment storage.paramsVersion
  return ({ storage with
      feeRecipient := feeRecipient, params := newParams, paramsVersion := paramsVersion },
    [.paramsUpdated queryId paramsVersion newParams.platformFeeBps newParams.minStake])

def updateAdmin (newAdmin : Address) : Handled := do
  require (inMsg.senderAddress = storage.admin) .notAdmin
  return ({ storage with admin := newAdmin }, [])

def setBlocklisted (subject : BitVec 256) (blocked : Bool) : Handled := do
  require (inMsg.senderAddress = storage.admin) .notAdmin
  return ({ storage with
      blocklist := storage.blocklist.insert subject (if blocked then 1 else 0) }, [])

def announceCode (newCodeHash : Nat) : Handled := do
  require (inMsg.senderAddress = storage.admin) .notAdmin
  return ({ storage with pendingCodeHash := newCodeHash, pendingCodeAt := inMsg.now }, [])

def upgradeCode (queryId newCode : Nat) : Handled := do
  require (inMsg.senderAddress = storage.admin) .notAdmin
  require (storage.pendingCodeHash ≠ 0) .noPendingUpgrade
  require (newCode = storage.pendingCodeHash) .upgradeCodeMismatch
  let readyAt := storage.pendingCodeAt + storage.upgradeDelay
  require (readyAt ≤ inMsg.now) .upgradeTimelockActive
  let codeVersion ← increment storage.codeVersion
  return ({ storage with codeVersion := codeVersion, pendingCodeHash := 0, pendingCodeAt := 0 },
    [.setCode newCode, .codeUpgraded queryId codeVersion newCode])

def cancelCode : Handled := do
  require (inMsg.senderAddress = storage.admin) .notAdmin
  require (storage.pendingCodeHash ≠ 0) .noPendingUpgrade
  return ({ storage with pendingCodeHash := 0, pendingCodeAt := 0 }, [])

def onInternalMessage : AllowedMessageToGlobalParams → Handled
  | .updateParams queryId feeRecipient params =>
    updateParams storage inMsg queryId feeRecipient params
  | .updateAdmin _ newAdmin => updateAdmin storage inMsg newAdmin
  | .setBlocklisted _ subject blocked => setBlocklisted storage inMsg subject blocked
  | .announceCode _ newCodeHash => announceCode storage inMsg newCodeHash
  | .upgradeCode queryId newCode => upgradeCode storage inMsg queryId newCode
  | .cancelCode _ => cancelCode storage inMsg
  | .other isEmpty => do
    require (isEmpty = true) .invalidOp
    return (storage, [])

/-! ## Getters -/

variable (s : GlobalParamsStorage)

def getParamsVersion : Int :=
  s.paramsVersion.toNat

def getPlatformFeeBps : Int :=
  s.params.platformFeeBps.toNat

def getParticipationCommissionBps : Int :=
  s.params.participationCommissionBps.toNat

def getSlashFailedCommitmentBps : Int :=
  s.params.slashFailedCommitmentBps.toNat

def getAttemptDeadlineMs : Int :=
  s.params.attemptDeadlineMs.toNat

def getProgressIntervalMs : Int :=
  s.params.progressIntervalMs.toNat

def getProgressStallMult : Int :=
  s.params.progressStallMult.toNat

def getFeeRecipient : Address :=
  s.feeRecipient

/-! ## Runs -/

/-- A message and the block it is handled in. -/
structure Transaction where
  inMsg : InMessage
  msg : AllowedMessageToGlobalParams

/-- A rejected message leaves the storage as it was. -/
def step (tx : Transaction) : GlobalParamsStorage :=
  match onInternalMessage s tx.inMsg tx.msg with
  | .ok (s', _) => s'
  | .error _ => s

/-- What an update replaces. -/
structure ParamsSet where
  feeRecipient : Address
  params : EcoParams
  deriving DecidableEq, Repr

def GlobalParamsStorage.paramsSet : ParamsSet :=
  ⟨s.feeRecipient, s.params⟩

/-- The set that the transaction puts in force, if it is an update that goes through. -/
def updateOf (tx : Transaction) : Option ParamsSet :=
  match tx.msg with
  | .updateParams queryId feeRecipient params =>
    match updateParams s tx.inMsg queryId feeRecipient params with
    | .ok (s', _) => some s'.paramsSet
    | .error _ => none
  | _ => none

/-- The set of the last update that goes through. -/
def lastUpdate (s : GlobalParamsStorage) : List Transaction → Option ParamsSet
  | [] => none
  | tx :: txs => (lastUpdate (step s tx) txs).or (updateOf s tx)

section Runs

variable {s : GlobalParamsStorage} {tx : Transaction}

variable {inMsg : InMessage} {r : GlobalParamsStorage × List Output}

theorem updateParams_eq_ok_iff {queryId : Nat} {feeRecipient : Address}
    {params : Option EcoParams} :
    updateParams s inMsg queryId feeRecipient params = .ok r ↔
      inMsg.senderAddress = s.admin ∧ ∃ p, params = some p ∧ validateEcoParams p = .ok () ∧
        ∃ v, increment s.paramsVersion = .ok v ∧
          ({ s with feeRecipient := feeRecipient, params := p, paramsVersion := v },
            [.paramsUpdated queryId v p.platformFeeBps p.minStake]) = r := by
  unfold updateParams
  simp only [require_bind_eq_ok, parsed_bind_eq_ok]
  simp only [bind_eq_ok, pure_eq_ok]
  refine and_congr_right fun _ => exists_congr fun p => and_congr_right fun _ => ?_
  constructor
  · rintro ⟨_, hvalid, hrest⟩
    exact ⟨hvalid, hrest⟩
  · rintro ⟨hvalid, hrest⟩
    exact ⟨(), hvalid, hrest⟩

theorem upgradeCode_eq_ok {queryId newCode : Nat}
    (h : upgradeCode s inMsg queryId newCode = .ok r) :
    inMsg.senderAddress = s.admin ∧ s.pendingCodeHash ≠ 0 ∧ newCode = s.pendingCodeHash ∧
      s.pendingCodeAt + s.upgradeDelay ≤ inMsg.now ∧
      ∃ version, version.toNat = s.codeVersion.toNat + 1 ∧
        r = ({ s with codeVersion := version, pendingCodeHash := 0, pendingCodeAt := 0 },
          [.setCode newCode, .codeUpgraded queryId version newCode]) := by
  unfold upgradeCode at h
  simp only [require_bind_eq_ok] at h
  obtain ⟨hadmin, hpending, hcode, hready, h⟩ := h
  obtain ⟨version, hversion, h⟩ := bind_eq_ok.mp h
  exact ⟨hadmin, hpending, hcode, hready, version, increment_eq_ok hversion,
    (pure_eq_ok.mp h).symm⟩

/-- Everything the contract does to its parameters: an update is checked and counts, anything else
    keeps them. -/
theorem step_cases (s : GlobalParamsStorage) (tx : Transaction) :
    (∃ u, updateOf s tx = some u ∧ (step s tx).paramsSet = u ∧
      (step s tx).paramsVersion.toNat = s.paramsVersion.toNat + 1 ∧
      validateEcoParams u.params = .ok ()) ∨
    (updateOf s tx = none ∧ (step s tx).paramsSet = s.paramsSet ∧
      (step s tx).paramsVersion = s.paramsVersion) := by
  obtain ⟨inMsg, msg⟩ := tx
  cases hc : onInternalMessage s inMsg msg with
  | error e =>
    have hstep : step s ⟨inMsg, msg⟩ = s := by simp only [step, hc]
    rw [hstep]
    refine .inr ⟨?_, rfl, rfl⟩
    cases msg with
    | updateParams queryId feeRecipient params =>
      rw [onInternalMessage] at hc
      simp only [updateOf, hc]
    | _ => rfl
  | ok r =>
    have hstep : step s ⟨inMsg, msg⟩ = r.1 := by simp only [step, hc]
    rw [hstep]
    cases msg with
    | updateParams queryId feeRecipient params =>
      rw [onInternalMessage] at hc
      refine .inl ⟨r.1.paramsSet, by simp only [updateOf, hc], rfl, ?_⟩
      obtain ⟨-, p, -, hvalid, v, hv, rfl⟩ := updateParams_eq_ok_iff.mp hc
      exact ⟨increment_eq_ok hv, hvalid⟩
    | updateAdmin queryId newAdmin | setBlocklisted queryId subject blocked
    | announceCode queryId newCodeHash | other isEmpty =>
      obtain ⟨-, hr⟩ := require_bind_eq_ok.mp hc
      cases hr
      exact .inr ⟨rfl, rfl, rfl⟩
    | upgradeCode queryId newCode =>
      obtain ⟨-, -, -, -, version, -, rfl⟩ := upgradeCode_eq_ok hc
      exact .inr ⟨rfl, rfl, rfl⟩
    | cancelCode queryId =>
      obtain ⟨-, hc⟩ := require_bind_eq_ok.mp hc
      obtain ⟨-, hr⟩ := require_bind_eq_ok.mp hc
      cases hr
      exact .inr ⟨rfl, rfl, rfl⟩

/-- After a run the set of its last update is in force. -/
theorem final_paramsSet (s : GlobalParamsStorage) (txs : List Transaction) :
    (Run.final step s txs).paramsSet = (lastUpdate s txs).getD s.paramsSet := by
  induction txs generalizing s with
  | nil => rfl
  | cons tx txs ih =>
    show (Run.final step (step s tx) txs).paramsSet = _
    rw [ih, lastUpdate]
    cases lastUpdate (step s tx) txs with
    | some u => rfl
    | none =>
      rcases step_cases s tx with ⟨u, hu, hset, -⟩ | ⟨hnone, hset, -⟩
      · rw [hu, hset]
        rfl
      · rw [hnone, hset]
        rfl

/-- `t` is a later state than `s`: a smaller version is over, an equal one still means the same. -/
structure Before (s t : GlobalParamsStorage) : Prop where
  version : s.paramsVersion.toNat ≤ t.paramsVersion.toNat
  same : t.paramsVersion = s.paramsVersion → t.paramsSet = s.paramsSet

theorem Before.refl (s : GlobalParamsStorage) : Before s s :=
  ⟨Nat.le_refl _, fun _ => rfl⟩

theorem before_step (s : GlobalParamsStorage) (tx : Transaction) : Before s (step s tx) := by
  rcases step_cases s tx with ⟨u, -, -, hversion, -⟩ | ⟨-, hset, hversion⟩
  · refine ⟨by omega, fun heq => ?_⟩
    rw [heq] at hversion
    omega
  · exact ⟨by rw [hversion], fun _ => hset⟩

theorem Before.trans {t u : GlobalParamsStorage} (hst : Before s t) (htu : Before t u) :
    Before s u := by
  refine ⟨Nat.le_trans hst.version htu.version, fun heq => ?_⟩
  have hsv := hst.version
  have htv := htu.version
  have hmid : t.paramsVersion = s.paramsVersion := by
    apply UInt32.toNat_inj.mp
    rw [heq] at htv
    omega
  rw [htu.same (heq.trans hmid.symm), hst.same hmid]

/-- Every state of a run comes before its last one. -/
theorem always_before_final (s : GlobalParamsStorage) (txs : List Transaction) :
    Run.Always step (fun t => Before t (Run.final step s txs)) s txs :=
  Run.always_before Before.refl (fun s tx _ h => (before_step s tx).trans h) s txs

/-- Every state of a run comes after its first one. -/
theorem always_after_start (s : GlobalParamsStorage) (txs : List Transaction) :
    Run.Always step (Before s) s txs :=
  Run.always_of_invariant (fun t tx h => h.trans (before_step t tx)) (Before.refl s) txs

/-- A projection of the set is the same after a run just when the last update keeps it. -/
theorem final_proj_eq_iff {α : Type} (f : ParamsSet → α) (s : GlobalParamsStorage)
    (txs : List Transaction) :
    f (Run.final step s txs).paramsSet = f s.paramsSet ↔
      ∀ u, lastUpdate s txs = some u → f u = f s.paramsSet := by
  rw [final_paramsSet]
  exact proj_getD_eq_iff f _ _

end Runs

/-! ## Validity -/

/-- The number of updates that go through. -/
def acceptedUpdates (s : GlobalParamsStorage) : List Transaction → Nat
  | [] => 0
  | tx :: txs => (if (updateOf s tx).isSome then 1 else 0) + acceptedUpdates (step s tx) txs

section Validity

variable {s : GlobalParamsStorage} {tx : Transaction}

theorem step_of_error {e : Exit} (h : onInternalMessage s tx.inMsg tx.msg = .error e) :
    step s tx = s := by
  simp only [step, h]

/-- Every handler asks for the admin first; an empty body does nothing. -/
theorem step_of_not_admin (h : tx.inMsg.senderAddress ≠ s.admin) : step s tx = s := by
  cases hc : onInternalMessage s tx.inMsg tx.msg with
  | error e => exact step_of_error hc
  | ok r =>
    obtain ⟨inMsg, msg⟩ := tx
    cases msg with
    | other isEmpty =>
      obtain ⟨-, hr⟩ := require_bind_eq_ok.mp hc
      cases hr
      simp only [step, hc]
    | _ => exact absurd (require_bind_eq_ok.mp hc).1 h

theorem valid_step (hvalid : validateEcoParams s.params = .ok ()) :
    validateEcoParams (step s tx).params = .ok () := by
  rcases step_cases s tx with ⟨u, -, hset, -, hupdate⟩ | ⟨-, hset, -⟩
  · have hparams : (step s tx).params = u.params := congrArg ParamsSet.params hset
    rw [hparams]
    exact hupdate
  · have hparams : (step s tx).params = s.params := congrArg ParamsSet.params hset
    rw [hparams]
    exact hvalid

theorem final_paramsVersion (s : GlobalParamsStorage) (txs : List Transaction) :
    (Run.final step s txs).paramsVersion.toNat =
      s.paramsVersion.toNat + acceptedUpdates s txs := by
  induction txs generalizing s with
  | nil => rfl
  | cons tx txs ih =>
    show (Run.final step (step s tx) txs).paramsVersion.toNat = _
    rw [ih, acceptedUpdates]
    rcases step_cases s tx with ⟨u, hu, -, hversion, -⟩ | ⟨hnone, -, hversion⟩
    · rw [hu, hversion, Option.isSome_some, if_pos rfl]
      omega
    · rw [hnone, hversion]
      simp

theorem before_take {i j : Nat} (hij : i ≤ j) (s : GlobalParamsStorage) (txs : List Transaction) :
    Before (Run.final step s (txs.take i)) (Run.final step s (txs.take j)) := by
  have hsplit : txs.take j = txs.take i ++ (txs.take j).drop i := by
    have happend := List.take_append_drop i (txs.take j)
    rwa [List.take_take, Nat.min_eq_left hij, eq_comm] at happend
  rw [hsplit, Run.final_append]
  exact (always_after_start _ _).last

end Validity

/-- In every run from valid parameters, whoever sends the messages: the parameters stay valid, the
    version counts the accepted updates and belongs to one set of parameters, and a message that is
    rejected or not from the admin of its moment changes nothing. -/
theorem params_stay_valid (s : GlobalParamsStorage) (hvalid : validateEcoParams s.params = .ok ())
    (txs : List Transaction) :
    Run.Always step (fun t => validateEcoParams t.params = .ok ()) s txs ∧
    (Run.final step s txs).paramsVersion.toNat =
      s.paramsVersion.toNat + acceptedUpdates s txs ∧
    (∀ i j, (Run.final step s (txs.take i)).paramsVersion =
        (Run.final step s (txs.take j)).paramsVersion →
      (Run.final step s (txs.take i)).paramsSet = (Run.final step s (txs.take j)).paramsSet) ∧
    Run.Guarded step (fun t tx =>
      (tx.inMsg.senderAddress ≠ t.admin → step t tx = t) ∧
      ∀ e, onInternalMessage t tx.inMsg tx.msg = .error e → step t tx = t) s txs := by
  refine ⟨?_, final_paramsVersion s txs, ?_, ?_⟩
  · exact Run.always_of_invariant (P := fun t : GlobalParamsStorage => validateEcoParams t.params = .ok ())
      (fun t tx h => valid_step h) hvalid txs
  · intro i j hversion
    rcases Nat.le_total i j with hij | hji
    · exact ((before_take hij s txs).same hversion.symm).symm
    · exact (before_take hji s txs).same hversion
  · exact Run.guarded_of_forall (fun tx _ t => ⟨step_of_not_admin, fun e => step_of_error⟩) s

/-! ### An update -/

def demoParams : EcoParams where
  platformFeeBps := 500
  surchargeBps := 0
  participationCommissionBps := 1000
  slashWrongBps := 5000
  slashCheatBps := 10000
  slashDowntimeBps := 100
  slashEquivocationBps := 10000
  splitChallengerBps := 5000
  splitRedundancyBps := 2000
  splitBurnBps := 2000
  splitTreasuryBps := 1000
  minStake := 1000
  minStakeInternal := 2000
  minStakeSensitive := 3000
  stakeCap := 100000
  unbondingSecs := 86400
  challengeWindowSecs := 3600
  nPublic := 1
  nDefault := 3
  nMax := 7
  quorum := 2
  checksumMin := 1
  wQualityBps := 5000
  wStakeBps := 3000
  wPriceBps := 2000
  slashFailedCommitmentBps := 1000
  attemptDeadlineMs := 60000
  progressIntervalMs := 2000
  progressStallMult := 5

def deployedParams : GlobalParamsStorage where
  admin := ⟨0, 1⟩
  feeRecipient := ⟨0, 7⟩
  params := demoParams
  blocklist := ∅
  paramsVersion := 1
  codeVersion := 0
  upgradeDelay := 86400
  pendingCodeHash := 0
  pendingCodeAt := 0

/-- The admin names another fee recipient and raises the fee to 15 %. -/
def raiseFee : Transaction where
  inMsg := .sent ⟨0, 1⟩ 0 10
  msg := .updateParams 1 ⟨0, 6⟩ (some { demoParams with platformFeeBps := 1500 })

theorem raised_fee_valid :
    validateEcoParams deployedParams.params = .ok () ∧
      Run.Always step (fun t => validateEcoParams t.params = .ok ()) deployedParams [raiseFee] ∧
      (Run.final step deployedParams [raiseFee]).paramsVersion.toNat =
        1 + acceptedUpdates deployedParams [raiseFee] ∧
      acceptedUpdates deployedParams [raiseFee] = 1 := by
  have hvalid : validateEcoParams deployedParams.params = .ok () := rfl
  obtain ⟨halways, hversion, _⟩ := params_stay_valid deployedParams hvalid [raiseFee]
  exact ⟨hvalid, halways, hversion, by decide⟩

end Duckton.Ton.GlobalParams
