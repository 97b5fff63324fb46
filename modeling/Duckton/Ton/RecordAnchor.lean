/-
  The record-anchor and dispute contract (RecordAnchor.tolk, anchor_types.tolk).

  A keeper anchors one Merkle root for each epoch, anybody may dispute a record under a bond, and
  the verdict authority resolves disputes. Each handler is one function from the stored data and the
  inbound message to the new data and the queued actions. The proof of a dispute stays the chain of
  cells the message carries, so that the fold reads what the contract reads.

  Epochs, dispute ids and the code version are `uint32`; a counter that would leave the range throws
  when it is saved. Block times are natural numbers. An applied upgrade is taken to keep this code.
-/
import Mathlib.Data.List.AList
import Duckton.Tvm.Account
import Duckton.Ton.Cell

namespace Duckton.Ton.RecordAnchor

open Tvm Duckton.Proto

/-! ## Storage and messages -/

structure AnchorAuthorities where
  treasury : Address
  keeper : Address
  upgradeAuthority : Address
  deriving DecidableEq, Repr

structure AnchorConfig where
  minStakeWeight : Nat
  disputeBondMin : Nat
  verdictAuthority : Address
  auth : AnchorAuthorities
  deriving DecidableEq, Repr

/-- `status: uint2`: 0, 1 and 2. -/
inductive DisputeStatus where
  | opened
  | upheld
  | rejected
  deriving DecidableEq, Repr

structure DisputeInfo where
  challenger : Address
  epoch : UInt32
  leaf : BitVec 256
  bond : Nat
  status : DisputeStatus
  deriving DecidableEq, Repr

structure AnchorStorage where
  currentEpoch : UInt32
  lastRoot : BitVec 256
  nextDisputeId : UInt32
  disputes : AList fun _ : UInt32 => DisputeInfo
  roots : AList fun _ : UInt32 => BitVec 256
  config : AnchorConfig
  codeVersion : UInt32
  pendingCodeHash : BitVec 256
  pendingCodeAt : Nat
  upgradeDelay : Nat

/-- The messages the contract accepts; `other` is a body that parses as none of them. -/
inductive AllowedMessageToAnchor where
  | anchorSubmitRoot (queryId : Nat) (epoch : UInt32) (root prevRoot : BitVec 256)
    (stakeWeight : Nat)
  | anchorOpenDispute (queryId : Nat) (epoch : UInt32) (leaf : BitVec 256) (proof : Option Cell)
  | anchorResolveDispute (queryId : Nat) (disputeId : UInt32) (upheld : Bool)
  | anchorAnnounceUpgrade (queryId : Nat) (newCodeHash : BitVec 256)
  | anchorUpgradeCode (queryId : Nat) (newCode : Cell)
  | anchorCancelUpgrade (queryId : Nat)
  | other (isEmpty : Bool)

/-- The only body the contract sends. -/
structure AnchorBondRefund where
  disputeId : UInt32
  deriving DecidableEq, Repr

abbrev AnchorAction := Action Address AnchorBondRefund Cell

/-! ## The inclusion proof -/

/-- One sibling of the path. `dir = 0`: the sibling is the right node. -/
structure MerkleStep where
  dir : Nat
  sibling : BitVec 256
  next : Option Cell

/-- `Cell<MerkleStep>.load()`: the cell holds a step and nothing else. -/
def MerkleStep.load (c : Cell) : Option MerkleStep := do
  let (dir, s) ← c.toSlice.loadUint 1
  let (sibling, s) ← s.loadU256
  let (next, s) ← s.loadMaybeRef
  if s.bits.isEmpty && s.refs.isEmpty then some ⟨dir, sibling, next⟩ else none

/-- `MAX_MERKLE_PROOF_DEPTH`. -/
def maxMerkleProofDepth : Nat :=
  32

variable (sha256 : Bytes → BitVec 256)

def hashPair (left right : BitVec 256) : BitVec 256 :=
  ((Cell.empty.storeU256 left).storeU256 right).reprHash sha256

def hashLeaf (x : BitVec 256) : BitVec 256 :=
  (Cell.empty.storeU256 x).reprHash sha256

/-- The loop of `computeRootFromProof`, with as many steps as the depth limit still allows. -/
def foldProof (sha256 : Bytes → BitVec 256) : (steps : Nat) → (acc : BitVec 256) →
    (cur : Option Cell) → Except Exit (BitVec 256)
  | _, acc, none => .ok acc
  | 0, _, some _ => .error (.err .proofTooDeep)
  | steps + 1, acc, some cell => do
    let step ← parsed (MerkleStep.load cell)
    foldProof sha256 steps
      (if step.dir = 0 then hashPair sha256 acc step.sibling
        else hashPair sha256 step.sibling acc) step.next

def computeRootFromProof (leaf : BitVec 256) (proof : Option Cell) :
    Except Exit (BitVec 256) :=
  foldProof sha256 maxMerkleProofDepth (hashLeaf sha256 leaf) proof

/-! ## Handlers -/

/-- `MIN_DISPUTE_BOND_FLOOR = ton("0.01")`. -/
def minDisputeBondFloor : Nat :=
  10000000

def validateAnchorConfig (cfg : AnchorConfig) : Except Exit Unit :=
  require (minDisputeBondFloor ≤ cfg.disputeBondMin) .bondFloorTooLow

abbrev Handled := Except Exit (AnchorStorage × List AnchorAction)

variable (storage : AnchorStorage) (inMsg : InMessage)

def anchorSubmitRoot (epoch : UInt32)
    (root prevRoot : BitVec 256) (stakeWeight : Nat) : Handled := do
  require (inMsg.senderAddress = storage.config.auth.keeper) .notAnchorKeeper
  validateAnchorConfig storage.config
  require (root ≠ 0) .zeroRoot
  -- the sum is taken in the integers of the virtual machine, not in `uint32`
  require (epoch.toNat = storage.currentEpoch.toNat + 1) .epochRegression
  require (prevRoot = storage.lastRoot) .badPrevRoot
  require (storage.config.minStakeWeight ≤ stakeWeight) .insufficientAnchorStake
  return ({ storage with currentEpoch := epoch, lastRoot := root
                         roots := storage.roots.insert epoch root }, [])

def anchorOpenDispute (epoch : UInt32) (leaf : BitVec 256) (proof : Option Cell) : Handled := do
  require (storage.config.disputeBondMin ≤ inMsg.valueCoins) .disputeBondTooLow
  match storage.roots.lookup epoch with
  | none => .error (.err .unknownEpoch)
  | some anchoredRoot =>
    let recomputed ← computeRootFromProof sha256 leaf proof
    require (recomputed = anchoredRoot) .badInclusionProof
    let id := storage.nextDisputeId
    let nextDisputeId ← increment id
    return ({ storage with
        nextDisputeId := nextDisputeId
        disputes := storage.disputes.insert id
          { challenger := inMsg.senderAddress, epoch := epoch, leaf := leaf
            bond := inMsg.valueCoins, status := .opened } }, [])

/-- A fixed-value, bounceable send that names its dispute. -/
def refundBond (dest : Address) (amount : Nat) (disputeId : UInt32) : AnchorAction :=
  .send dest (.coins amount) true false ⟨disputeId⟩

/-- The status a verdict sets, and who gets the bond with it. -/
def verdict (upheld : Bool) : DisputeStatus :=
  if upheld then .upheld else .rejected

def bondRecipient (config : AnchorConfig) (dispute : DisputeInfo) (upheld : Bool) : Address :=
  if upheld then dispute.challenger else config.auth.treasury

def anchorResolveDispute (disputeId : UInt32) (upheld : Bool) : Handled := do
  require (inMsg.senderAddress = storage.config.verdictAuthority) .notVerdictAuthority
  match storage.disputes.lookup disputeId with
  | none => .error (.err .noSuchDispute)
  | some dispute =>
    require (dispute.status = .opened) .disputeNotOpen
    return ({ storage with
        disputes := storage.disputes.insert disputeId { dispute with status := verdict upheld } },
      [refundBond (bondRecipient storage.config dispute upheld) dispute.bond disputeId])

def anchorAnnounceUpgrade (newCodeHash : BitVec 256) : Handled := do
  require (inMsg.senderAddress = storage.config.auth.upgradeAuthority) .upgradeNotAuthority
  return ({ storage with pendingCodeHash := newCodeHash, pendingCodeAt := inMsg.now }, [])

def anchorUpgradeCode (newCode : Cell) : Handled := do
  require (inMsg.senderAddress = storage.config.auth.upgradeAuthority) .upgradeNotAuthority
  require (storage.pendingCodeHash ≠ 0) .noPendingUpgrade
  require (newCode.reprHash sha256 = storage.pendingCodeHash) .upgradeCodeMismatch
  let readyAt := storage.pendingCodeAt + storage.upgradeDelay
  require (readyAt ≤ inMsg.now) .upgradeTimelockActive
  let codeVersion ← increment storage.codeVersion
  return ({ storage with codeVersion := codeVersion, pendingCodeHash := 0, pendingCodeAt := 0 },
    [.setCode newCode])

def anchorCancelUpgrade : Handled := do
  require (inMsg.senderAddress = storage.config.auth.upgradeAuthority) .upgradeNotAuthority
  require (storage.pendingCodeHash ≠ 0) .noPendingUpgrade
  return ({ storage with pendingCodeHash := 0, pendingCodeAt := 0 }, [])

def onInternalMessage : AllowedMessageToAnchor → Handled
  | .anchorSubmitRoot _ epoch root prevRoot stakeWeight =>
    anchorSubmitRoot storage inMsg epoch root prevRoot stakeWeight
  | .anchorOpenDispute _ epoch leaf proof => anchorOpenDispute sha256 storage inMsg epoch leaf proof
  | .anchorResolveDispute _ disputeId upheld => anchorResolveDispute storage inMsg disputeId upheld
  | .anchorAnnounceUpgrade _ newCodeHash => anchorAnnounceUpgrade storage inMsg newCodeHash
  | .anchorUpgradeCode _ newCode => anchorUpgradeCode sha256 storage inMsg newCode
  | .anchorCancelUpgrade _ => anchorCancelUpgrade storage inMsg
  | .other isEmpty => do
    require (isEmpty = true) .invalidOp
    return (storage, [])

/-- A refund that comes back opens its dispute again. Nothing else is ever sent, so the body is
    always a refund. -/
def onBouncedMessage (body : AnchorBondRefund) : AnchorStorage :=
  match storage.disputes.lookup body.disputeId with
  | none => storage
  | some dispute =>
    { storage with
      disputes := storage.disputes.insert body.disputeId { dispute with status := .opened } }

/-- What the deployment script stores. -/
def deployedStorage (config : AnchorConfig) (upgradeDelay : Nat) : AnchorStorage where
  currentEpoch := 0
  lastRoot := 0
  nextDisputeId := 0
  disputes := ∅
  roots := ∅
  config := config
  codeVersion := 0
  pendingCodeHash := 0
  pendingCodeAt := 0
  upgradeDelay := upgradeDelay

/-! ## What each message does -/

/-- The effect of an accepted message, one case for each handler. -/
inductive Accepted (sha256 : Bytes → BitVec 256) (s : AnchorStorage) (inMsg : InMessage) :
    AllowedMessageToAnchor → AnchorStorage → List AnchorAction → Prop
  | submitted (queryId : Nat) (epoch : UInt32) (root : BitVec 256) (stakeWeight : Nat)
    (hkeeper : inMsg.senderAddress = s.config.auth.keeper) (hroot : root ≠ 0)
    (hepoch : epoch.toNat = s.currentEpoch.toNat + 1) :
    Accepted sha256 s inMsg (.anchorSubmitRoot queryId epoch root s.lastRoot stakeWeight)
      { s with currentEpoch := epoch, lastRoot := root, roots := s.roots.insert epoch root } []
  | disputed (queryId : Nat) (epoch : UInt32) (leaf : BitVec 256) (proof : Option Cell)
    (root : BitVec 256) (next : UInt32) (hroot : s.roots.lookup epoch = some root)
    (hproof : computeRootFromProof sha256 leaf proof = .ok root)
    (hnext : next.toNat = s.nextDisputeId.toNat + 1) :
    Accepted sha256 s inMsg (.anchorOpenDispute queryId epoch leaf proof)
      { s with nextDisputeId := next
               disputes := s.disputes.insert s.nextDisputeId
                 { challenger := inMsg.senderAddress, epoch := epoch, leaf := leaf
                   bond := inMsg.valueCoins, status := .opened } } []
  | resolved (queryId : Nat) (disputeId : UInt32) (upheld : Bool) (dispute : DisputeInfo)
    (hfound : s.disputes.lookup disputeId = some dispute) (hopen : dispute.status = .opened) :
    Accepted sha256 s inMsg (.anchorResolveDispute queryId disputeId upheld)
      { s with disputes := s.disputes.insert disputeId { dispute with status := verdict upheld } }
      [refundBond (bondRecipient s.config dispute upheld) dispute.bond disputeId]
  | announced (queryId : Nat) (newCodeHash : BitVec 256)
    (hauthority : inMsg.senderAddress = s.config.auth.upgradeAuthority) :
    Accepted sha256 s inMsg (.anchorAnnounceUpgrade queryId newCodeHash)
      { s with pendingCodeHash := newCodeHash, pendingCodeAt := inMsg.now } []
  | upgraded (queryId : Nat) (newCode : Cell) (version : UInt32)
    (hauthority : inMsg.senderAddress = s.config.auth.upgradeAuthority)
    (hpending : s.pendingCodeHash ≠ 0) (hhash : newCode.reprHash sha256 = s.pendingCodeHash)
    (hready : s.pendingCodeAt + s.upgradeDelay ≤ inMsg.now)
    (hversion : version.toNat = s.codeVersion.toNat + 1) :
    Accepted sha256 s inMsg (.anchorUpgradeCode queryId newCode)
      { s with codeVersion := version, pendingCodeHash := 0, pendingCodeAt := 0 }
      [.setCode newCode]
  | cancelled (queryId : Nat)
    (hauthority : inMsg.senderAddress = s.config.auth.upgradeAuthority)
    (hpending : s.pendingCodeHash ≠ 0) :
    Accepted sha256 s inMsg (.anchorCancelUpgrade queryId)
      { s with pendingCodeHash := 0, pendingCodeAt := 0 } []
  | ignored : Accepted sha256 s inMsg (.other true) s []

section Handlers

variable {sha256} {s s' : AnchorStorage} {inMsg : InMessage}
  {actions : List AnchorAction}

variable {queryId : Nat} {epoch : UInt32}

theorem accepted_submitRoot {root prevRoot : BitVec 256} {stakeWeight : Nat}
    (h : anchorSubmitRoot s inMsg epoch root prevRoot stakeWeight = .ok (s', actions)) :
    Accepted sha256 s inMsg (.anchorSubmitRoot queryId epoch root prevRoot stakeWeight) s'
      actions := by
  unfold anchorSubmitRoot validateAnchorConfig at h
  simp only [require_bind_eq_ok, pure_eq_ok, Prod.mk.injEq] at h
  obtain ⟨hkeeper, -, hroot, hepoch, rfl, -, rfl, rfl⟩ := h
  exact .submitted queryId epoch root stakeWeight hkeeper hroot hepoch

theorem accepted_openDispute {leaf : BitVec 256} {proof : Option Cell}
    (h : anchorOpenDispute sha256 s inMsg epoch leaf proof = .ok (s', actions)) :
    Accepted sha256 s inMsg (.anchorOpenDispute queryId epoch leaf proof) s' actions := by
  obtain ⟨-, h⟩ := require_bind_eq_ok.mp h
  cases hlookup : s.roots.lookup epoch with
  | none => simp [hlookup] at h
  | some root =>
    simp only [hlookup, bind_eq_ok, require_eq_ok, exists_const, pure_eq_ok, Prod.mk.injEq] at h
    obtain ⟨recomputed, hproof, rfl, next, hnext, rfl, rfl⟩ := h
    exact .disputed queryId epoch leaf proof recomputed next hlookup hproof (increment_eq_ok hnext)

theorem accepted_resolveDispute {disputeId : UInt32} {upheld : Bool}
    (h : anchorResolveDispute s inMsg disputeId upheld = .ok (s', actions)) :
    Accepted sha256 s inMsg (.anchorResolveDispute queryId disputeId upheld) s' actions := by
  obtain ⟨-, h⟩ := require_bind_eq_ok.mp h
  cases hlookup : s.disputes.lookup disputeId with
  | none => simp [hlookup] at h
  | some dispute =>
    simp only [hlookup, require_bind_eq_ok, pure_eq_ok, Prod.mk.injEq] at h
    obtain ⟨hopen, rfl, rfl⟩ := h
    exact .resolved queryId disputeId upheld dispute hlookup hopen

theorem accepted_upgradeCode {newCode : Cell}
    (h : anchorUpgradeCode sha256 s inMsg newCode = .ok (s', actions)) :
    Accepted sha256 s inMsg (.anchorUpgradeCode queryId newCode) s' actions := by
  unfold anchorUpgradeCode at h
  simp only [require_bind_eq_ok] at h
  obtain ⟨hauthority, hpending, hhash, hready, h⟩ := h
  obtain ⟨version, hversion, h⟩ := bind_eq_ok.mp h
  obtain ⟨rfl, rfl⟩ := h
  exact .upgraded queryId newCode version hauthority hpending hhash hready
    (increment_eq_ok hversion)

/-- Everything the contract does on a message it accepts. -/
theorem accepted_cases {msg : AllowedMessageToAnchor}
    (h : onInternalMessage sha256 s inMsg msg = .ok (s', actions)) :
    Accepted sha256 s inMsg msg s' actions := by
  cases msg with
  | anchorSubmitRoot queryId epoch root prevRoot stakeWeight => exact accepted_submitRoot h
  | anchorOpenDispute queryId epoch leaf proof => exact accepted_openDispute h
  | anchorResolveDispute queryId disputeId upheld => exact accepted_resolveDispute h
  | anchorUpgradeCode queryId newCode => exact accepted_upgradeCode h
  | anchorAnnounceUpgrade queryId newCodeHash =>
    simp only [onInternalMessage, anchorAnnounceUpgrade, require_bind_eq_ok, pure_eq_ok,
      Prod.mk.injEq] at h
    obtain ⟨hauthority, rfl, rfl⟩ := h
    exact .announced queryId newCodeHash hauthority
  | anchorCancelUpgrade queryId =>
    simp only [onInternalMessage, anchorCancelUpgrade, require_bind_eq_ok, pure_eq_ok,
      Prod.mk.injEq] at h
    obtain ⟨hauthority, hpending, rfl, rfl⟩ := h
    exact .cancelled queryId hauthority hpending
  | other isEmpty =>
    simp only [onInternalMessage, require_bind_eq_ok, pure_eq_ok, Prod.mk.injEq] at h
    obtain ⟨rfl, rfl, rfl⟩ := h
    exact .ignored

end Handlers

end Duckton.Ton.RecordAnchor
