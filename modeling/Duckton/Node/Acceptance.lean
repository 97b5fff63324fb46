/-
  Whether the escrow contract accepts the settlement of a job.

  The coordinator commits to the winner and all agreeing nodes when it opens the escrow, and
  presents the winner and the paid nodes when it settles it. `committed_set_presented_iff` says when
  the contract finds the two sets equal, `settlement_accepted_iff` when it accepts the whole
  message of a job whose verifiers are all paid.
-/
import Duckton.Node.Attempt
import Duckton.Node.Settle

namespace Duckton.Node

open Duckton.Proto Duckton.Settlement Duckton.Ton Duckton.Trust
open Duckton.Ton.JobEscrow hiding candidatesCommitment

/-! ## The presented set -/

/-- The winner and every agreeing node with a payout wallet. -/
def Payer.payees (p : Payer) (winner : NodeId) (agreeing : List NodeId) : List WalletAddress :=
  ((agreeing.filter fun n => (p.payoutWalletOf n).isSome).map p.walletOf).foldl pushNew
    [p.walletOf winner]

variable {winner : NodeId} {agreeing : List NodeId}

variable {p : Payer} {w : WalletAddress}

theorem Payer.mem_payees :
    w ∈ p.payees winner agreeing ↔ w = p.walletOf winner ∨
      ∃ n ∈ agreeing, (p.payoutWalletOf n).isSome ∧ p.walletOf n = w := by
  unfold Payer.payees
  rw [mem_foldl_pushNew, List.mem_singleton, List.mem_map]
  refine or_congr_right (exists_congr fun n => ?_)
  rw [List.mem_filter, and_assoc]

theorem Payer.payees_subset_committed : p.payees winner agreeing ⊆ p.committed winner agreeing := by
  intro w h
  rcases mem_payees.mp h with hw | ⟨n, hn, _, hw⟩
  · exact mem_committed.mpr (.inl hw)
  · exact mem_committed.mpr (.inr ⟨n, hn, hw⟩)

theorem presented_outcome {rail : TonRail} (h : rail.candidates = []) (p : Payer)
    (cfg : GridConfig) (req : SettleRequest) (b : Nat) :
    rail.presented (p.outcome cfg req b) = p.payees req.winner req.agreeingNonWinners := by
  unfold TonRail.presented Payer.outcome Payer.participants Payer.payees
  rw [h, List.map_map]
  rfl

/-- Every walletless agreeing node shares its address with the winner or with a paid node. -/
def Payer.FreeNodesCovered (p : Payer) (winner : NodeId) (agreeing : List NodeId) : Prop :=
  ∀ n ∈ agreeing, p.payoutWalletOf n = none →
    p.walletOf n = p.walletOf winner ∨
      ∃ m ∈ agreeing, (p.payoutWalletOf m).isSome ∧ p.walletOf m = p.walletOf n

theorem Payer.freeNodesCovered_iff :
    p.FreeNodesCovered winner agreeing ↔
      ∀ w, w ∈ p.payees winner agreeing ↔ w ∈ p.committed winner agreeing := by
  constructor
  · intro h w
    refine ⟨@payees_subset_committed _ _ p w, fun hw => ?_⟩
    rcases mem_committed.mp hw with rfl | ⟨n, hn, rfl⟩
    · exact mem_payees.mpr (.inl rfl)
    · cases hpay : p.payoutWalletOf n with
      | none => exact mem_payees.mpr (h n hn hpay)
      | some w => exact mem_payees.mpr (.inr ⟨n, hn, by rw [hpay]; rfl, rfl⟩)
  · intro h n hn _
    exact mem_payees.mp ((h _).mpr (mem_committed.mpr (.inr ⟨n, hn, rfl⟩)))

/-! ## The message that is sent -/

theorem outcome_winner_amount_le (p : Payer) (cfg : GridConfig) (req : SettleRequest) (b : Nat) :
    (p.outcome cfg req b).winner.amount ≤ (p.outcome cfg req b).base := by
  unfold Payer.outcome
  split
  · exact Nat.le_refl _
  · exact Nat.zero_le _

/-- What the coverage guard says, for an escrow that fits into a coins field. -/
theorem legs_le_of_covered {cfg : GridConfig} {base n b : Nat} (hb : b < 2 ^ 120)
    (h : requiredEscrowTotal base n cfg.platformFeeBps cfg.participationCommissionBps ≤ b) :
    base + shareOf base cfg.platformFeeBps + shareOf base cfg.participationCommissionBps * n ≤ b := by
  have hlt : requiredEscrowTotal base n cfg.platformFeeBps cfg.participationCommissionBps <
      2 ^ 128 - 1 := by omega
  exact Nat.le_trans (le_requiredEscrowTotal hlt) h

section Sent

variable {p : Payer} {sha256 : Bytes → BitVec 256} {cfg : GridConfig} {paid : Bool}
  {req : SettleRequest} {rail : TonRail} {handle : EscrowHandle} {body : Cell}

/-- The message as the contract parses it. -/
def Payer.settleMessage (p : Payer) (cfg : GridConfig) (req : SettleRequest) (rail : TonRail)
    (b : Nat) (proot croot : Option Cell) : EscrowSettle :=
  let outcome := p.outcome cfg req b
  { queryId := rail.queryId % 2 ^ 64, resultHash := outcome.resultHash
    winner := outcome.winner.recipient.onchain, base := outcome.base
    winnerAmount := outcome.winner.amount, platformFee := outcome.platformFee
    participants := proot, candidates := croot }

/-- The candidates that are sent are those paid. -/
def Payer.Presents (p : Payer) (req : SettleRequest) (croot : Option Cell) : Prop :=
  buildDict addressKeyBits
    (candidatesDictEntries (p.payees req.winner req.agreeingNonWinners)) = some croot

theorem onInternalMessage_settle {storage : EscrowStorage} {msg : EscrowSettle}
    (hparse : AllowedMessageToEscrow.fromSlice body.toSlice = some (.escrowSettle msg))
    (inMsg : InMessage) : onInternalMessage sha256 storage inMsg body.toSlice =
      escrowSettle sha256 storage inMsg msg := by
  unfold onInternalMessage
  rw [hparse]
  rfl

theorem fromSlice_sent (hrail : p.settlement = some rail) (hplain : rail.candidates = [])
    (hsent : p.settlePaidJob sha256 cfg paid req = .sent handle body)
    (hcoins : escrowAmount cfg req.metered req.agreeingNonWinners.length < 2 ^ 120) :
    p.Opened sha256 cfg req rail handle ∧ ∃ proot croot,
      buildDict addressKeyBits
        (participantsDictEntries (p.outcome cfg req handle.maxBid).participants) = some proot ∧
      p.Presents req croot ∧
      AllowedMessageToEscrow.fromSlice body.toSlice =
        some (.escrowSettle (p.settleMessage cfg req rail handle.maxBid proot croot)) := by
  have hopened : (p.settlePaidJob sha256 cfg paid req).opened = some handle := by
    rw [hsent]
    rfl
  obtain ⟨hopen, hrelease⟩ := settlePaidJob_of_opened hrail hopened
  rw [hsent] at hrelease
  obtain ⟨_, hcovered, hsettle⟩ := release_eq_sent_iff.mp hrelease.symm
  obtain ⟨_, hbuild⟩ := settle_eq_ok_iff.mp hsettle
  rw [TonRail.settleBody, presented_outcome hplain] at hbuild
  rw [← hopen.maxBid] at hcoins
  have hlegs := legs_le_of_covered hcoins hcovered
  have hwinner := outcome_winner_amount_le p cfg req handle.maxBid
  have hfee : (p.outcome cfg req handle.maxBid).platformFee =
      shareOf (p.outcome cfg req handle.maxBid).base cfg.platformFeeBps := rfl
  obtain ⟨proot, croot, hproot, hcroot, hparse⟩ :=
    fromSlice_buildEscrowSettle hbuild (by omega) (by omega) (by omega)
  exact ⟨hopen, proot, croot, hproot, hcroot, hparse⟩

/-- No two of the sets compared have different dictionaries of the same hash. -/
def CollisionFree (sha256 : Bytes → BitVec 256) (a b : List WalletAddress) : Prop :=
  ∀ c c', candidatesCell a = some c → candidatesCell b = some c' →
    c.reprHash sha256 = c'.reprHash sha256 → c = c'

variable {croot : Option Cell} {w : WalletAddress}

/-- The commitments agree just when no walletless node is left out. -/
theorem commitment_eq_iff (hopen : p.Opened sha256 cfg req rail handle)
    (hcroot : p.Presents req croot)
    (hcf : CollisionFree sha256 (p.payees req.winner req.agreeingNonWinners)
      (p.committed req.winner req.agreeingNonWinners)) :
    JobEscrow.candidatesCommitment sha256 croot = handle.storage.terms.candidatesHash ↔
      p.FreeNodesCovered req.winner req.agreeingNonWinners := by
  have hpaid : candidatesCell (p.payees req.winner req.agreeingNonWinners) =
      some (Cell.empty.storeDictRoot croot) :=
    candidatesCell_eq_some_iff.mpr ⟨croot, hcroot, rfl⟩
  obtain ⟨c, hc, hhash⟩ := Option.map_eq_some_iff.mp hopen.committed
  obtain ⟨root, hroot, _⟩ := candidatesCell_eq_some_iff.mp hc
  have hapart := keyed_candidatesDictEntries_iff.mp (keyed_of_buildDict hroot)
  rw [Payer.freeNodesCovered_iff, ← candidatesCell_eq_iff hapart Payer.payees_subset_committed
    (List.Subset.refl _), hpaid, hc, ← hhash, Option.some.injEq]
  exact ⟨fun heq => hcf _ _ hpaid hc heq, fun heq => congrArg _ heq⟩

theorem requireCandidate_payee (hcroot : p.Presents req croot)
    (hw : w ∈ p.payees req.winner req.agreeingNonWinners) :
    requireCandidate croot w.onchain.toBits = .ok () := by
  rw [requireCandidate_eq_ok_iff (holds_of_buildDict hcroot), keys_candidatesDictEntries]
  exact mem_candidateKeys.mpr ⟨w, hw, rfl⟩

theorem participant_mem_payees {each : Nat}
    (hw : w ∈ (p.participants req.agreeingNonWinners each).map Payout.recipient) :
    w ∈ p.payees req.winner req.agreeingNonWinners := by
  unfold Payer.participants at hw
  rw [List.map_map, List.mem_map] at hw
  obtain ⟨n, hn, rfl⟩ := hw
  obtain ⟨hmem, hpay⟩ := List.mem_filter.mp hn
  exact Payer.mem_payees.mpr (.inr ⟨n, hmem, hpay, rfl⟩)

theorem sum_participants (p : Payer) (agreeing : List NodeId) (each : Nat) :
    ((p.participants agreeing each).map Payout.amount).sum =
      each * (p.participants agreeing each).length := by
  unfold Payer.participants
  rw [List.map_map, List.length_map]
  have hconst : (Payout.amount ∘ fun n => (⟨p.walletOf n, each⟩ : Payout)) = fun _ => each := by
    funext n
    rfl
  rw [hconst, List.map_const', List.sum_replicate_nat, Nat.mul_comm]

theorem sum_commissions (p : Payer) (cfg : GridConfig) (req : SettleRequest) (b : Nat) :
    ((p.outcome cfg req b).participants.map Payout.amount).sum =
      shareOf (p.outcome cfg req b).base cfg.participationCommissionBps *
        (p.outcome cfg req b).participants.length :=
  sum_participants p req.agreeingNonWinners _

/-- Once the sets agree, every payee of the message is a candidate. -/
theorem no_policyMismatch {proot : Option Cell} (hcoins : handle.maxBid < 2 ^ 120)
    (hcovered : requiredEscrowTotal (p.outcome cfg req handle.maxBid).base
      (p.outcome cfg req handle.maxBid).participants.length cfg.platformFeeBps
      cfg.participationCommissionBps ≤ handle.maxBid) (hproot : buildDict addressKeyBits
      (participantsDictEntries (p.outcome cfg req handle.maxBid).participants) = some proot)
    (hcroot : p.Presents req croot)
    (hcomm : JobEscrow.candidatesCommitment sha256 croot = handle.storage.terms.candidatesHash)
    (inMsg : InMessage) :
    escrowSettle sha256 handle.storage inMsg (p.settleMessage cfg req rail handle.maxBid proot croot) ≠
      .error (.err .settlePolicyMismatch) := by
  have hlegs := legs_le_of_covered hcoins hcovered
  have hsum := sum_commissions p cfg req handle.maxBid
  have hmerged := merged_foldl (show ((p.outcome cfg req handle.maxBid).participants.map
    Payout.amount).sum < 2 ^ 128 by omega)
  obtain ⟨legs, hperm, hentries⟩ := dictEntries_participants hproot
  refine escrowSettle_ne_policyMismatch hcomm
    (requireCandidate_payee hcroot (Payer.mem_payees.mpr (.inl rfl))) fun entries hread e he => ?_
  rw [show (p.settleMessage cfg req rail handle.maxBid proot croot).participants = proot from rfl,
    hentries, Option.some.injEq] at hread
  rw [← hread] at he
  obtain ⟨leg, hleg, rfl⟩ := List.mem_map.mp he
  obtain ⟨⟨w, x⟩, hwx, rfl⟩ := List.mem_map.mp (hperm.mem_iff.mp hleg)
  exact requireCandidate_payee hcroot (participant_mem_payees (hmerged.recipient_mem hwx))

end Sent

/-! ## The candidate check -/

/-- A settlement is found to present the committed candidate set, and is never refused for it, just
    when every walletless agreeing node shares its address with the winner or a paid node. -/
theorem committed_set_presented_iff (p : Payer) (sha256 : Bytes → BitVec 256) (cfg : GridConfig)
    (paid : Bool) (req : SettleRequest) (rail : TonRail) (handle : EscrowHandle) (body : Cell)
    (hrail : p.settlement = some rail) (hplain : rail.candidates = [])
    (hsent : p.settlePaidJob sha256 cfg paid req = .sent handle body)
    (hcoins : escrowAmount cfg req.metered req.agreeingNonWinners.length < 2 ^ 120)
    (hcf : CollisionFree sha256 (p.payees req.winner req.agreeingNonWinners)
      (p.committed req.winner req.agreeingNonWinners)) :
    ∃ msg, AllowedMessageToEscrow.fromSlice body.toSlice = some (.escrowSettle msg) ∧
      ((JobEscrow.candidatesCommitment sha256 msg.candidates =
            handle.storage.terms.candidatesHash ∧
          ∀ inMsg, onInternalMessage sha256 handle.storage inMsg body.toSlice ≠
            .error (.err .settlePolicyMismatch)) ↔
        p.FreeNodesCovered req.winner req.agreeingNonWinners) := by
  obtain ⟨hopen, proot, croot, hproot, hcroot, hparse⟩ :=
    fromSlice_sent hrail hplain hsent hcoins
  have hiff := commitment_eq_iff hopen hcroot hcf
  refine ⟨_, hparse, fun h => hiff.mp h.1, fun hfree => ⟨hiff.mpr hfree, fun inMsg => ?_⟩⟩
  have hrelease := (settlePaidJob_of_opened hrail (by rw [hsent]; rfl)).2
  rw [hsent] at hrelease
  have hcovered := (release_eq_sent_iff.mp hrelease.symm).2.1
  rw [← hopen.maxBid] at hcoins
  rw [onInternalMessage_settle hparse]
  exact no_policyMismatch hcoins hcovered hproot hcroot (hiff.mpr hfree) inMsg

/-! ### Concrete settlements -/

def demoRail : TonRail where
  arbiter := ⟨0, 9⟩
  requester := some ⟨0, 8⟩
  hasEscrowCode := true
  treasury := some ⟨0, 7⟩
  platformFeeBps := 0
  participationCommissionBps := 0
  candidates := []
  deadline := 1000
  queryId := 1
  deployError := none

def demoPayer (binding : NodeId → Option WalletAddress) : Payer where
  settlement := some demoRail
  walletBinding := some binding
  walletResolver := none
  deriveWallet n := ⟨0, foldDigest (utf8 n.id)⟩
  lockOf hash := foldDigest (utf8 hash)
  paramsVersion := 1
  chainFeeRecipient := none
  localFeeRecipient := none

/-- A bid of 1 TON, a fee of 5 % and a commission of 10 %. -/
def paidConfig : GridConfig :=
  { plainConfig .quorum 3 2 with
    economicsEnabled := true, maxBid := 1, platformFeeBps := 500,
    participationCommissionBps := 1000 }

/-- Node `a` wins, `b` and `c` agree. -/
def demoRequest : SettleRequest where
  winner := ⟨"a"⟩
  agreeingNonWinners := [⟨"b"⟩, ⟨"c"⟩]
  agreedHash := "r"
  inputFingerprint := ""
  metered := none

def fromArbiter : InMessage where
  senderAddress := demoRail.arbiter.onchain
  valueCoins := 0
  now := 1
  now_pos := Nat.one_pos

/-- Every node has a wallet of its own. -/
def eachBound (n : NodeId) : Option WalletAddress :=
  if n = ⟨"a"⟩ then some ⟨0, 1⟩ else if n = ⟨"b"⟩ then some ⟨0, 2⟩ else some ⟨0, 3⟩

/-- All but `c` have a wallet. -/
def cFree (n : NodeId) : Option WalletAddress :=
  if n = ⟨"c"⟩ then none else eachBound n

theorem bound_verifiers_presented :
    ∃ handle body msg,
      (demoPayer eachBound).settlePaidJob foldDigest paidConfig true demoRequest =
        .sent handle body ∧
      AllowedMessageToEscrow.fromSlice body.toSlice = some (.escrowSettle msg) ∧
      JobEscrow.candidatesCommitment foldDigest msg.candidates =
        handle.storage.terms.candidatesHash ∧
      ∀ inMsg, onInternalMessage foldDigest handle.storage inMsg body.toSlice ≠
        .error (.err .settlePolicyMismatch) := by
  have hsome : ((demoPayer eachBound).settlePaidJob foldDigest paidConfig true
      demoRequest).message.isSome := by decide +kernel
  obtain ⟨handle, body, hsent⟩ := SettleReport.exists_sent hsome
  have hsame : (demoPayer eachBound).payees ⟨"a"⟩ [⟨"b"⟩, ⟨"c"⟩] =
      (demoPayer eachBound).committed ⟨"a"⟩ [⟨"b"⟩, ⟨"c"⟩] := by decide
  have hcf : CollisionFree foldDigest ((demoPayer eachBound).payees ⟨"a"⟩ [⟨"b"⟩, ⟨"c"⟩])
      ((demoPayer eachBound).committed ⟨"a"⟩ [⟨"b"⟩, ⟨"c"⟩]) := by
    intro c c' hc hc' _
    rw [hsame, hc', Option.some.injEq] at hc
    exact hc.symm
  obtain ⟨msg, hparse, hiff⟩ := committed_set_presented_iff (demoPayer eachBound) foldDigest
    paidConfig true demoRequest demoRail handle body rfl rfl hsent (by decide) hcf
  refine ⟨handle, body, msg, hsent, hparse, hiff.mpr ?_⟩
  unfold Payer.FreeNodesCovered
  decide

theorem walletless_verifier_refused :
    ∃ sent ∈ ((demoPayer cFree).settlePaidJob foldDigest paidConfig true demoRequest).message,
      onInternalMessage foldDigest sent.1.storage fromArbiter sent.2.toSlice =
        .error (.err .settlePolicyMismatch) := by
  decide +kernel

/-! ## Acceptance of a fully paid job -/

theorem owed_map (p : Payer) (agreeing : List NodeId) (each : Nat) (w : WalletAddress) :
    owed (agreeing.map fun n => ⟨p.walletOf n, each⟩) w =
      (agreeing.map p.walletOf).count w * each := by
  induction agreeing with
  | nil => exact (Nat.zero_mul each).symm
  | cons n agreeing ih =>
    unfold owed at ih ⊢
    rw [List.map_cons, List.map_cons, List.count_cons]
    by_cases hw : p.walletOf n = w
    · rw [List.filter_cons_of_pos (by simpa using hw), List.map_cons, List.sum_cons, ih,
        if_pos (by simpa using hw)]
      ring
    · rw [List.filter_cons_of_neg (by simpa using hw), ih, if_neg (by simpa using hw), Nat.add_zero]

section Bound

variable {p : Payer} {sha256 : Bytes → BitVec 256} {cfg : GridConfig} {paid : Bool}
  {req : SettleRequest} {rail : TonRail} {handle : EscrowHandle}

variable {agreeing : List NodeId}

theorem participants_of_bound (h : ∀ n ∈ agreeing, (p.payoutWalletOf n).isSome) (each : Nat) :
    p.participants agreeing each = agreeing.map fun n => ⟨p.walletOf n, each⟩ := by
  unfold Payer.participants
  rw [List.filter_eq_self.mpr h]

theorem payees_of_bound (h : ∀ n ∈ agreeing, (p.payoutWalletOf n).isSome) :
    p.payees winner agreeing = p.committed winner agreeing := by
  unfold Payer.payees Payer.committed
  rw [List.filter_eq_self.mpr h]

variable (hbound : ∀ n ∈ req.agreeingNonWinners, (p.payoutWalletOf n).isSome)

include hbound

theorem outcome_participants (cfg : GridConfig) (b : Nat) :
    (p.outcome cfg req b).participants = req.agreeingNonWinners.map fun n =>
      ⟨p.walletOf n, shareOf (p.outcome cfg req b).base cfg.participationCommissionBps⟩ :=
  participants_of_bound hbound _

theorem length_outcome_participants (cfg : GridConfig) (b : Nat) :
    (p.outcome cfg req b).participants.length = req.agreeingNonWinners.length := by
  rw [outcome_participants hbound, List.length_map]

/-- A job whose escrow was opened is also settled: the split is covered and both dictionaries are
    built. -/
theorem sent_of_bound (hrail : p.settlement = some rail) (hplain : rail.candidates = [])
    (hopened : (p.settlePaidJob sha256 cfg paid req).opened = some handle)
    (hn : req.agreeingNonWinners.length ≤ 32) (hrates : cfg.RatesFit)
    (hcoins : escrowAmount cfg req.metered req.agreeingNonWinners.length < 2 ^ 120) :
    ∃ body, p.settlePaidJob sha256 cfg paid req = .sent handle body := by
  obtain ⟨hopen, hrelease⟩ := settlePaidJob_of_opened hrail hopened
  have hlegs := settled_legs_le hrates req.metered hn hcoins
  rw [← hopen.maxBid] at hlegs hcoins
  have hlen := length_outcome_participants hbound cfg handle.maxBid
  have hsum := sum_commissions p cfg req handle.maxBid
  rw [hlen] at hsum
  have hbase : (p.outcome cfg req handle.maxBid).base =
      settledBase cfg req.metered handle.maxBid req.agreeingNonWinners.length := rfl
  rw [← hbase] at hlegs
  obtain ⟨c, hc, _⟩ := Option.map_eq_some_iff.mp hopen.committed
  obtain ⟨root, hroot, _⟩ := candidatesCell_eq_some_iff.mp hc
  have hapart := keyed_candidatesDictEntries_iff.mp (keyed_of_buildDict hroot)
  have hpayees := hapart.mono Payer.payees_subset_committed
  have hrecipients : ApartOnChain
      ((p.outcome cfg req handle.maxBid).participants.map Payout.recipient) :=
    hpayees.mono fun _ => participant_mem_payees
  have hkeyed := keyed_participantsDictEntries (by omega) hrecipients
  obtain ⟨body, hbody⟩ := buildEscrowSettle_isSome hkeyed
    (keyed_candidatesDictEntries_iff.mpr hpayees) rail.queryId
    (p.outcome cfg req handle.maxBid).resultHash (p.outcome cfg req handle.maxBid).winner.recipient
    (p.outcome cfg req handle.maxBid).base (p.outcome cfg req handle.maxBid).winner.amount
    (p.outcome cfg req handle.maxBid).platformFee
  rw [← presented_outcome hplain p cfg req handle.maxBid] at hbody
  have hwinner := outcome_winner_amount_le p cfg req handle.maxBid
  have hfee : (p.outcome cfg req handle.maxBid).platformFee =
      shareOf (p.outcome cfg req handle.maxBid).base cfg.platformFeeBps := rfl
  refine ⟨body, ?_⟩
  rw [hrelease, release_eq_sent_iff, hlen]
  refine ⟨rfl, (requiredEscrowTotal_le _ _ _ _).trans hlegs, settle_eq_ok_iff.mpr ⟨?_, hbody⟩⟩
  unfold SettlementOutcome.legs
  omega

omit hbound

theorem merged_legs_eq_iff {each : Nat}
    (hlt : ((agreeing.map fun n => (⟨p.walletOf n, each⟩ : Payout)).map Payout.amount).sum <
      2 ^ 128) (expected : Nat) :
    (∀ leg ∈ mergedLegs (agreeing.map fun n => ⟨p.walletOf n, each⟩), leg.2 = expected) ↔
      ∀ n ∈ agreeing, each = 0 ∨
        (agreeing.map p.walletOf).count (p.walletOf n) * each = expected := by
  have hm := merged_foldl hlt
  constructor
  · intro h n hn
    by_cases hzero : each = 0
    · exact .inl hzero
    · right
      have hcount : 0 < (agreeing.map p.walletOf).count (p.walletOf n) :=
        List.count_pos_iff.mpr (List.mem_map_of_mem hn)
      have hpos : 0 < (agreeing.map p.walletOf).count (p.walletOf n) * each :=
        Nat.mul_pos hcount (Nat.pos_of_ne_zero hzero)
      have hmem := (hm.mem (p.walletOf n) _).mpr ⟨hpos, (owed_map p agreeing each _).symm⟩
      exact h _ (List.mem_map_of_mem hmem)
  · intro h leg hleg
    obtain ⟨⟨w, x⟩, hwx, rfl⟩ := List.mem_map.mp hleg
    obtain ⟨hpos, hx⟩ := (hm.mem w x).mp hwx
    have hw := hm.recipient_mem hwx
    rw [List.map_map] at hw
    obtain ⟨n, hn, rfl⟩ := List.mem_map.mp hw
    have howed := owed_map p agreeing each (p.walletOf n)
    have hxeq : x = (agreeing.map p.walletOf).count (p.walletOf n) * each := hx.trans howed
    rcases h n hn with hzero | heq
    · rw [hzero, Nat.mul_zero] at hxeq
      omega
    · exact hxeq.trans heq

/-- The fee is the exact share of the price, and what each verifier's wallet is paid altogether is
    one exact commission, unless there is nothing to pay. -/
def Payer.LegsExact (p : Payer) (cfg : GridConfig) (req : SettleRequest) (b : Nat) : Prop :=
  let base := settledBase cfg req.metered b req.agreeingNonWinners.length
  shareOf base cfg.platformFeeBps = base * cfg.platformFeeBps / 10000 ∧
    ∀ n ∈ req.agreeingNonWinners, shareOf base cfg.participationCommissionBps = 0 ∨
      (req.agreeingNonWinners.map p.walletOf).count (p.walletOf n) *
        shareOf base cfg.participationCommissionBps =
          base * cfg.participationCommissionBps / 10000

/-- Without saturation that leaves two cases: commissions that round down to nothing, or verifiers
    with wallets of their own. -/
theorem legsExact_iff_nodup (hrates : cfg.RatesFit) {b : Nat} (hb : b < 2 ^ 112)
    (hbase : settledBase cfg req.metered b req.agreeingNonWinners.length ≤ b) :
    p.LegsExact cfg req b ↔
      settledBase cfg req.metered b req.agreeingNonWinners.length *
          cfg.participationCommissionBps < 10000 ∨
        (req.agreeingNonWinners.map p.walletOf).Nodup := by
  unfold Payer.LegsExact
  dsimp only
  generalize settledBase cfg req.metered b req.agreeingNonWinners.length = base at hbase ⊢
  have hfee : base * cfg.platformFeeBps < 2 ^ 112 * 2 ^ 16 :=
    Nat.mul_lt_mul_of_lt_of_lt (by omega) hrates.fee
  have hcomm : base * cfg.participationCommissionBps < 2 ^ 112 * 2 ^ 16 :=
    Nat.mul_lt_mul_of_lt_of_lt (by omega) hrates.commission
  rw [shareOf_eq hfee, shareOf_eq hcomm, List.nodup_iff_count_eq_one]
  generalize base * cfg.participationCommissionBps = rate
  constructor
  · rintro ⟨_, h⟩
    by_cases hzero : rate < 10000
    · exact .inl hzero
    · refine .inr fun w hw => ?_
      obtain ⟨n, hn, rfl⟩ := List.mem_map.mp hw
      have hpos : 0 < rate / 10000 := Nat.div_pos (Nat.le_of_not_lt hzero) (by decide)
      rcases h n hn with habs | heq
      · omega
      · exact Nat.eq_of_mul_eq_mul_right hpos (heq.trans (Nat.one_mul _).symm)
  · intro h
    refine ⟨rfl, fun n hn => ?_⟩
    rcases h with hzero | hone
    · exact .inl (Nat.div_eq_of_lt hzero)
    · rw [hone _ (List.mem_map_of_mem hn), Nat.one_mul]
      exact .inr rfl

include hbound

variable {croot : Option Cell} {legs : List (Address × Nat)}

/-- The set committed to at open is the one presented. -/
theorem committed_of_bound (hopen : p.Opened sha256 cfg req rail handle)
    (hcroot : p.Presents req croot) :
    JobEscrow.candidatesCommitment sha256 croot = handle.storage.terms.candidatesHash := by
  have hhash := hopen.committed
  rw [← payees_of_bound hbound, candidatesCommitment_eq hcroot] at hhash
  exact Option.some.inj hhash

/-- The commissions as they are merged: no more of them than verifiers, each to a candidate. -/
theorem merged_commissions {each : Nat}
    (hlt : ((req.agreeingNonWinners.map fun n => (⟨p.walletOf n, each⟩ : Payout)).map
      Payout.amount).sum < 2 ^ 128)
    (hperm : legs.Perm (mergedLegs (req.agreeingNonWinners.map fun n => ⟨p.walletOf n, each⟩))) :
    legs.length ≤ req.agreeingNonWinners.length ∧ ∀ leg ∈ legs, leg.1.toBits ∈
      candidateKeys (p.payees req.winner req.agreeingNonWinners) := by
  constructor
  · have hlen := length_foldl_mergePayout_le (req.agreeingNonWinners.map fun n =>
      (⟨p.walletOf n, each⟩ : Payout))
    rw [List.length_map] at hlen
    rw [hperm.length_eq, mergedLegs, List.length_map]
    exact hlen
  · intro leg hleg
    obtain ⟨⟨w, x⟩, hwx, rfl⟩ := List.mem_map.mp (hperm.mem_iff.mp hleg)
    have hw := (merged_foldl hlt).recipient_mem hwx
    rw [← participants_of_bound hbound] at hw
    exact mem_candidateKeys.mpr ⟨w, participant_mem_payees hw, rfl⟩

/-- The handler's assertions hold but for the two exact amounts. -/
theorem settles_iff_legsExact (hopen : p.Opened sha256 cfg req rail handle)
    (hn : req.agreeingNonWinners.length ≤ 32) (hrates : cfg.RatesFit)
    (hrate : 0 < cfg.participationCommissionBps)
    (hcoins : escrowAmount cfg req.metered req.agreeingNonWinners.length < 2 ^ 120)
    (harbiter : (p.walletOf req.winner).onchain ≠ rail.arbiter.onchain) {proot : Option Cell}
    (hcroot : p.Presents req croot)
    (hperm : legs.Perm (mergedLegs (p.outcome cfg req handle.maxBid).participants)) :
    Settles sha256 handle.storage rail.arbiter.onchain
        (p.settleMessage cfg req rail handle.maxBid proot croot)
        (candidateKeys (p.payees req.winner req.agreeingNonWinners)) legs ↔
      p.LegsExact cfg req handle.maxBid := by
  have hlegs := settled_legs_le hrates req.metered hn hcoins
  rw [← hopen.maxBid] at hlegs hcoins
  have hmsg : p.settleMessage cfg req rail handle.maxBid proot croot =
      { queryId := rail.queryId % 2 ^ 64, resultHash := p.lockOf req.agreedHash
        winner := (p.walletOf req.winner).onchain
        base := settledBase cfg req.metered handle.maxBid req.agreeingNonWinners.length
        winnerAmount := (p.outcome cfg req handle.maxBid).winner.amount
        platformFee := shareOf
          (settledBase cfg req.metered handle.maxBid req.agreeingNonWinners.length)
          cfg.platformFeeBps
        participants := proot, candidates := croot } := rfl
  have hsum := sum_commissions p cfg req handle.maxBid
  rw [length_outcome_participants hbound, outcome_participants hbound] at hsum
  have hwinner : (p.outcome cfg req handle.maxBid).winner.amount ≤
      settledBase cfg req.metered handle.maxBid req.agreeingNonWinners.length :=
    outcome_winner_amount_le p cfg req handle.maxBid
  have hbase : (p.outcome cfg req handle.maxBid).base =
      settledBase cfg req.metered handle.maxBid req.agreeingNonWinners.length := rfl
  rw [outcome_participants hbound, hbase] at hperm
  rw [hbase] at hsum
  rw [hmsg]
  unfold Payer.LegsExact
  generalize settledBase cfg req.metered handle.maxBid req.agreeingNonWinners.length = base
    at hlegs hperm hsum hwinner ⊢
  have hlt : ((req.agreeingNonWinners.map fun n => (⟨p.walletOf n, shareOf base
      cfg.participationCommissionBps⟩ : Payout)).map Payout.amount).sum < 2 ^ 128 := by omega
  have hexact := merged_legs_eq_iff hlt (base * cfg.participationCommissionBps / 10000)
  obtain ⟨hfew, hpayee⟩ := merged_commissions hbound hlt hperm
  have htotal := sum_legs_le hlt hperm
  have hcovered : (p.outcome cfg req handle.maxBid).winner.amount +
      shareOf base cfg.platformFeeBps + (legs.map Prod.snd).sum ≤ handle.maxBid := by omega
  constructor
  · intro hs
    have hfee := hs.fee
    have hcomm := hs.commission
    rw [hopen.fee] at hfee
    rw [hopen.commission] at hcomm
    refine ⟨hfee, hexact.mp fun leg hleg => ?_⟩
    exact (hcomm leg (hperm.mem_iff.mpr hleg)).resolve_left (by omega)
  · rintro ⟨hfee, hcomm⟩
    exact
      { sender := hopen.arbiter.symm
        unsettled := hopen.unsettled
        hash := hopen.lock.symm
        committed := committed_of_bound hbound hopen hcroot
        notArbiter := by rw [hopen.arbiter]; exact harbiter
        winner := mem_candidateKeys.mpr ⟨_, Payer.mem_payees.mpr (.inl rfl), rfl⟩
        few := hfew.trans hn
        payee := hpayee
        commission := fun leg hleg => .inr (by
          rw [hopen.commission]
          exact hexact.mpr hcomm leg (hperm.mem_iff.mp hleg))
        quoted := hwinner
        covered := by
          rw [hopen.amount]
          exact hcovered
        fee := by
          rw [hopen.fee]
          exact hfee }

end Bound

/-- A job whose verifiers all have bound wallets is settled once its escrow is open, and the contract
    accepts the message just when the amounts are exact: for any real escrow, when no two verifiers
    share a wallet or the commission rounds down to nothing. -/
theorem settlement_accepted_iff (p : Payer) (sha256 : Bytes → BitVec 256) (cfg : GridConfig)
    (paid : Bool) (req : SettleRequest) (rail : TonRail) (handle : EscrowHandle)
    (hrail : p.settlement = some rail) (hplain : rail.candidates = [])
    (hopened : (p.settlePaidJob sha256 cfg paid req).opened = some handle)
    (hbound : ∀ n ∈ req.agreeingNonWinners, (p.payoutWalletOf n).isSome)
    (hn : req.agreeingNonWinners.length ≤ 32) (hrates : cfg.RatesFit)
    (hrate : 0 < cfg.participationCommissionBps)
    (hcoins : escrowAmount cfg req.metered req.agreeingNonWinners.length < 2 ^ 120)
    (harbiter : (p.walletOf req.winner).onchain ≠ rail.arbiter.onchain)
    (inMsg : InMessage) (hsender : inMsg.senderAddress = rail.arbiter.onchain) :
    ∃ body, p.settlePaidJob sha256 cfg paid req = .sent handle body ∧
      ((∃ r, onInternalMessage sha256 handle.storage inMsg body.toSlice = .ok r) ↔
        p.LegsExact cfg req handle.maxBid) ∧
      (handle.maxBid < 2 ^ 112 → (p.LegsExact cfg req handle.maxBid ↔
        settledBase cfg req.metered handle.maxBid req.agreeingNonWinners.length *
            cfg.participationCommissionBps < 10000 ∨
          (req.agreeingNonWinners.map p.walletOf).Nodup)) := by
  obtain ⟨body, hsent⟩ := sent_of_bound hbound hrail hplain hopened hn hrates hcoins
  obtain ⟨hopen, proot, croot, hproot, hcroot, hparse⟩ :=
    fromSlice_sent hrail hplain hsent hcoins
  obtain ⟨legs, hperm, hentries⟩ := dictEntries_participants hproot
  have hlegs := settled_legs_le hrates req.metered hn hcoins
  refine ⟨body, hsent, ?_, fun hb => legsExact_iff_nodup hrates hb ?_⟩
  · have hlt : ∀ leg ∈ legs, leg.2 < 2 ^ 120 := by
      have hsum : ((p.outcome cfg req handle.maxBid).participants.map Payout.amount).sum =
          shareOf (settledBase cfg req.metered handle.maxBid req.agreeingNonWinners.length)
            cfg.participationCommissionBps * req.agreeingNonWinners.length := by
        rw [sum_commissions, length_outcome_participants hbound]
        rfl
      rw [← hopen.maxBid] at hlegs hcoins
      have htotal := sum_legs_le (by omega) hperm
      intro leg hleg
      have hle := (List.singleton_sublist.mpr (List.mem_map_of_mem (f := Prod.snd) hleg)).sum_le_sum
        fun _ _ => Nat.zero_le _
      rw [List.sum_singleton] at hle
      omega
    unfold Payer.Presents at hcroot
    rw [onInternalMessage_settle hparse, escrowSettle_accepts_iff (holds_of_buildDict hcroot) hentries hlt,
      keys_candidatesDictEntries, hsender]
    exact settles_iff_legsExact hbound hopen hn hrates hrate hcoins harbiter hcroot hperm
  · rw [hopen.maxBid]
    omega

theorem distinct_wallets_accepted :
    ∃ handle body,
      (demoPayer eachBound).settlePaidJob foldDigest paidConfig true demoRequest =
        .sent handle body ∧
      ∃ r, onInternalMessage foldDigest handle.storage fromArbiter body.toSlice = .ok r := by
  have hsome : ((demoPayer eachBound).settlePaidJob foldDigest paidConfig true
      demoRequest).opened.isSome := by decide +kernel
  obtain ⟨handle, hopened⟩ := Option.isSome_iff_exists.mp hsome
  have hmaxBid := (settlePaidJob_of_opened rfl hopened).1.maxBid
  have hsmall : escrowAmount paidConfig none 2 < 2 ^ 112 := by decide
  have hrates : paidConfig.RatesFit := ⟨by decide, by decide⟩
  have hbound : ∀ n ∈ demoRequest.agreeingNonWinners,
      ((demoPayer eachBound).payoutWalletOf n).isSome := by decide
  have hnodup : (demoRequest.agreeingNonWinners.map (demoPayer eachBound).walletOf).Nodup := by
    decide
  obtain ⟨body, hsent, haccept, hexact⟩ := settlement_accepted_iff (demoPayer eachBound) foldDigest
    paidConfig true demoRequest demoRail handle rfl rfl hopened hbound (by decide) hrates
    (by decide) (by decide) (by decide) fromArbiter rfl
  have hlt : handle.maxBid < 2 ^ 112 := by
    rw [hmaxBid]
    exact hsmall
  exact ⟨handle, body, hsent, haccept.mpr ((hexact hlt).mpr (.inr hnodup))⟩

/-- The winner has a wallet of its own, `b` and `c` share one. -/
def bcShared (n : NodeId) : Option WalletAddress :=
  if n = ⟨"a"⟩ then some ⟨0, 1⟩ else some ⟨0, 2⟩

theorem shared_wallet_refused :
    ∃ sent ∈ ((demoPayer bcShared).settlePaidJob foldDigest paidConfig true demoRequest).message,
      onInternalMessage foldDigest sent.1.storage fromArbiter sent.2.toSlice =
        .error (.err .commissionMismatch) := by
  decide +kernel

end Duckton.Node
