/-
  Settling a paid job (node/coordinator.rs, `wallet_of` to `settle_paid_job`).

  The escrow is opened once the agreed hash is known and settled right away. The two sides of
  the candidate check are built here from different lists: the commitment from every agreeing
  node, the message from the payees.
-/
import Duckton.Node.Coordinator
import Duckton.Settlement.TonRail

namespace Duckton.Node

open Duckton.Proto Duckton.Settlement
open Duckton.Ton (WalletAddress Cell)

/-- The coordinator's payment wiring. `deriveWallet` is the address made of the BLAKE3 hash of the
    node id, `lockOf` the BLAKE3 hash of the agreed hash; `localFeeRecipient` is the configured
    address, which may not parse. -/
structure Payer where
  settlement : Option TonRail
  walletBinding : Option (NodeId → Option WalletAddress)
  walletResolver : Option (NodeId → WalletAddress)
  deriveWallet : NodeId → WalletAddress
  lockOf : String → BitVec 256
  paramsVersion : Nat
  chainFeeRecipient : Option WalletAddress
  localFeeRecipient : Option (Option WalletAddress)

variable (p : Payer) (cfg : GridConfig)

/-- An address for every node, bound or not. -/
def Payer.walletOf (node : NodeId) : WalletAddress :=
  match p.walletBinding.bind fun b => b node with
  | some w => w
  | none => match p.walletResolver with
    | some r => r node
    | none => p.deriveWallet node

/-- Where a node is paid; a free node has no payout wallet. -/
def Payer.payoutWalletOf (node : NodeId) : Option WalletAddress :=
  match p.walletBinding with
  | some b => b node
  | none => some (p.walletOf node)

/-- `escrow_bid_nanoton`. -/
def escrowBidNanoton : Nat :=
  max cfg.maxBid 1 * tonNanoton

/-- The escrow `B`: the worst case of metered terms, or the configured bid. -/
def escrowAmount (metered : Option MeteredSettle) (agreeing : Nat) : Nat :=
  match metered with
  | some m => requiredEscrowTotal (m.terms.capBase m.bytes) agreeing cfg.platformFeeBps
      cfg.participationCommissionBps
  | none => escrowBidNanoton cfg

/-- The winner's settled price. -/
def settledBase (metered : Option MeteredSettle) (b agreeing : Nat) : Nat :=
  match metered with
  | some m => min (m.terms.baseFor m.billedSeconds m.bytes) b
  | none =>
    let denom := satAdd (satAdd bpsDenom cfg.platformFeeBps)
      (satMul agreeing cfg.participationCommissionBps)
    satMul b bpsDenom / denom

/-- The set committed to at open: the winner and every agreeing non-winner. -/
def Payer.committed (winner : NodeId) (agreeing : List NodeId) : List WalletAddress :=
  (agreeing.map p.walletOf).foldl pushNew [p.walletOf winner]

/-- The commissions: one leg for each agreeing node with a payout wallet. -/
def Payer.participants (agreeing : List NodeId) (commissionEach : Nat) : List Payout :=
  (agreeing.filter fun n => (p.payoutWalletOf n).isSome).map fun n => ⟨p.walletOf n, commissionEach⟩

/-- A local fee recipient must parse and equal the chain's, where the chain's is known. -/
def Payer.feeRecipientAccepted : Bool :=
  match p.chainFeeRecipient, p.localFeeRecipient with
  | some chain, some parsed => parsed = some chain
  | _, _ => true

def Payer.outcome (req : SettleRequest) (b : Nat) : SettlementOutcome :=
  let base := settledBase cfg req.metered b req.agreeingNonWinners.length
  { resultHash := p.lockOf req.agreedHash
    base := base
    winner := ⟨p.walletOf req.winner, if (p.payoutWalletOf req.winner).isSome then base else 0⟩
    participants := p.participants req.agreeingNonWinners
      (shareOf base cfg.participationCommissionBps)
    platformFee := shareOf base cfg.platformFeeBps }

/-- How settling a job ends. `sent` carries the opened escrow and the body sent to it. -/
inductive SettleReport where
  | notDue
  | feeRecipientRefused
  | openFailed (e : SettleError)
  | notCovered (handle : EscrowHandle) (e : InsufficientEscrow)
  | settleFailed (handle : EscrowHandle) (e : SettleError)
  | sent (handle : EscrowHandle) (body : Cell)

/-- The escrow the report is about, once one is open. -/
def SettleReport.opened : SettleReport → Option EscrowHandle
  | .notCovered handle _ => some handle
  | .settleFailed handle _ => some handle
  | .sent handle _ => some handle
  | _ => none

/-- The escrow and the message sent to it. -/
def SettleReport.message : SettleReport → Option (EscrowHandle × Cell)
  | .sent handle body => some (handle, body)
  | _ => none

theorem SettleReport.exists_sent {r : SettleReport} (h : r.message.isSome) :
    ∃ handle body, r = .sent handle body := by
  cases r with
  | sent handle body => exact ⟨handle, body, rfl⟩
  | _ => cases h

/-- The second half of `settle_paid_job`: split the open escrow and settle it. -/
def Payer.release (req : SettleRequest) (rail : TonRail) (handle : EscrowHandle) : SettleReport :=
  let outcome := p.outcome cfg req handle.maxBid
  match ensureEscrowCovers handle.maxBid outcome.base outcome.participants.length
      cfg.platformFeeBps cfg.participationCommissionBps with
  | .error e => .notCovered handle e
  | .ok _ =>
    match rail.settle handle outcome with
    | .error e => .settleFailed handle e
    | .ok body => .sent handle body

def Payer.settlePaidJob (sha256 : Bytes → BitVec 256) (cfg : GridConfig) (paid : Bool)
    (req : SettleRequest) : SettleReport :=
  if !(paid && cfg.economicsEnabled) then .notDue
  else match p.settlement with
    | none => .notDue
    | some rail =>
      if !p.feeRecipientAccepted then .feeRecipientRefused
      else
        let maxBid := escrowAmount cfg req.metered req.agreeingNonWinners.length
        match rail.openEscrowWithTerms sha256 maxBid (p.lockOf req.agreedHash) p.paramsVersion
            (p.committed req.winner req.agreeingNonWinners) p.chainFeeRecipient
            (some cfg.platformFeeBps) (some cfg.participationCommissionBps) with
        | .error e => .openFailed e
        | .ok handle => p.release cfg req rail handle

/-! ## The split fits the escrow -/

/-- Rates are basis points in 16 bits. -/
structure GridConfig.RatesFit (cfg : GridConfig) : Prop where
  fee : cfg.platformFeeBps < 2 ^ 16
  commission : cfg.participationCommissionBps < 2 ^ 16

/-- A fixed price is at most what the escrow covers, a metered one at most what it was sized for. -/
theorem settled_legs_le {cfg : GridConfig} (hrates : cfg.RatesFit) (metered : Option MeteredSettle)
    {n : Nat} (hn : n ≤ 32) (hb : escrowAmount cfg metered n < 2 ^ 120) :
    settledBase cfg metered (escrowAmount cfg metered n) n +
        shareOf (settledBase cfg metered (escrowAmount cfg metered n) n) cfg.platformFeeBps +
        shareOf (settledBase cfg metered (escrowAmount cfg metered n) n)
          cfg.participationCommissionBps * n ≤ escrowAmount cfg metered n := by
  cases metered with
  | none =>
    refine legs_le_of_mul_le ?_
    have hfee := hrates.fee
    have hcomm : n * cfg.participationCommissionBps ≤ 32 * 2 ^ 16 :=
      Nat.mul_le_mul hn hrates.commission.le
    have hmul : satMul n cfg.participationCommissionBps = n * cfg.participationCommissionBps :=
      Saturating.mul_eq (by omega)
    have hdenom : satAdd (satAdd bpsDenom cfg.platformFeeBps)
        (satMul n cfg.participationCommissionBps) =
          10000 + cfg.platformFeeBps + n * cfg.participationCommissionBps := by
      unfold satAdd Saturating.add bpsDenom
      omega
    have hcut : satMul (escrowAmount cfg none n) bpsDenom ≤ escrowAmount cfg none n * 10000 :=
      Saturating.mul_le 128 _ _
    unfold settledBase
    rw [hdenom]
    exact (Nat.div_mul_le_self _ _).trans hcut
  | some m =>
    have hcap : settledBase cfg (some m) (escrowAmount cfg (some m) n) n ≤
        m.terms.capBase m.bytes :=
      (Nat.min_le_left _ _).trans (m.terms.baseFor_le_capBase m.billedSeconds m.bytes)
    have hlt : requiredEscrowTotal (m.terms.capBase m.bytes) n cfg.platformFeeBps
        cfg.participationCommissionBps < 2 ^ 128 - 1 := by
      have hb' : requiredEscrowTotal (m.terms.capBase m.bytes) n cfg.platformFeeBps
        cfg.participationCommissionBps < 2 ^ 120 := hb
      omega
    exact (legs_mono hcap n _ _).trans (le_requiredEscrowTotal hlt)

/-! ## What was opened, what was sent -/

theorem Payer.mem_committed {p : Payer} {winner : NodeId} {agreeing : List NodeId}
    {w : WalletAddress} :
    w ∈ p.committed winner agreeing ↔ w = p.walletOf winner ∨ ∃ n ∈ agreeing, p.walletOf n = w := by
  unfold Payer.committed
  rw [mem_foldl_pushNew, List.mem_singleton, List.mem_map]

/-- The escrow `handle` that the rail opened for a job. -/
structure Payer.Opened (p : Payer) (sha256 : Bytes → BitVec 256) (cfg : GridConfig)
    (req : SettleRequest) (rail : TonRail) (handle : EscrowHandle) : Prop where
  maxBid : handle.maxBid = escrowAmount cfg req.metered req.agreeingNonWinners.length
  amount : handle.storage.escrowAmount = handle.maxBid
  arbiter : handle.storage.arbiter = rail.arbiter.onchain
  unsettled : handle.storage.settled = false
  lock : handle.storage.terms.expectedHash = p.lockOf req.agreedHash
  committed : candidatesCommitment sha256 (p.committed req.winner req.agreeingNonWinners) =
    some handle.storage.terms.candidatesHash
  fee : handle.storage.terms.platformFeeBps = cfg.platformFeeBps
  commission : handle.storage.terms.participationCommissionBps = cfg.participationCommissionBps

section Reports

variable {p : Payer} {sha256 : Bytes → BitVec 256} {cfg : GridConfig} {paid : Bool}
  {req : SettleRequest} {rail : TonRail} {handle : EscrowHandle}

theorem release_opened : (p.release cfg req rail handle).opened = some handle := by
  unfold Payer.release
  dsimp only
  split
  · rfl
  · split <;> rfl

theorem settlePaidJob_of_opened (hrail : p.settlement = some rail)
    (h : (p.settlePaidJob sha256 cfg paid req).opened = some handle) :
    p.Opened sha256 cfg req rail handle ∧
      p.settlePaidJob sha256 cfg paid req = p.release cfg req rail handle := by
  unfold Payer.settlePaidJob at h ⊢
  have hdue : ¬ (!(paid && cfg.economicsEnabled)) = true := by
    intro hc
    rw [if_pos hc] at h
    cases h
  rw [if_neg hdue, hrail] at h ⊢
  dsimp only at h ⊢
  have hfee : ¬ (!p.feeRecipientAccepted) = true := by
    intro hc
    rw [if_pos hc] at h
    cases h
  rw [if_neg hfee] at h ⊢
  split at h
  · cases h
  rename_i opened hopen
  rw [release_opened, Option.some.injEq] at h
  subst h
  obtain ⟨requester, treasury, hash, hhash, rfl⟩ :=
    openEscrowWithTerms_eq_ok (List.ne_nil_of_mem (Payer.mem_committed.mpr (.inl rfl))) hopen
  exact ⟨⟨rfl, rfl, rfl, rfl, rfl, hhash, rfl, rfl⟩, rfl⟩

theorem release_eq_sent_iff {handle' : EscrowHandle} {body : Cell} :
    p.release cfg req rail handle = .sent handle' body ↔ handle = handle' ∧
      requiredEscrowTotal (p.outcome cfg req handle.maxBid).base
        (p.outcome cfg req handle.maxBid).participants.length cfg.platformFeeBps
        cfg.participationCommissionBps ≤ handle.maxBid ∧
      rail.settle handle (p.outcome cfg req handle.maxBid) = .ok body := by
  rw [← ensureEscrowCovers_isOk_iff]
  unfold Payer.release
  dsimp only
  split
  · rename_i e he
    rw [he]
    exact ⟨nofun, fun ⟨_, ⟨_, habs⟩, _⟩ => (nomatch habs)⟩
  · rename_i r hr
    rw [hr]
    split
    · rename_i e he
      rw [he]
      exact ⟨nofun, fun ⟨_, _, habs⟩ => (nomatch habs)⟩
    · rename_i c hc
      rw [hc, SettleReport.sent.injEq, Except.ok.injEq]
      exact ⟨fun h => ⟨h.1, ⟨r, rfl⟩, h.2⟩, fun h => ⟨h.1, h.2.2⟩⟩

end Reports

end Duckton.Node
