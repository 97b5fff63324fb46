/-
  The escrow of a metered job (node/coordinator.rs: `dispatch_attempt`, step 3c, against
  `settle_paid_job`).

  Before anything is dispatched, the dearest of the selected bids is checked against the
  requester's ceiling as if all others were to be paid a commission. Which bid wins and who agrees
  is known only at the end, when the escrow is sized for the winner's own worst case. The bound
  carries over because every step from a bid to a total is monotone, the rounded divisions
  included, and because a total below the ceiling cannot have come from a saturated operation.
-/
import Duckton.Node.Acceptance

namespace Duckton.Node

open Duckton.Proto Duckton.Settlement

/-! ## The check before the dispatch -/

/-- The metered terms that a worker bid. -/
def meteredTerms (el : List Eligible) (worker : NodeId) : Option MeteredTerms :=
  (bidByNode el worker).bind MeteredTerms.fromBid

/-- The dearest of the selected bids. -/
def worstCapBase (el : List Eligible) (sel : List Scored) (bytes : Nat) : Nat :=
  (sel.filterMap fun s => (meteredTerms el s.worker).map fun t => t.capBase bytes).foldl max 0

def Job.inputBytes (job : Job) : Nat :=
  job.estimatedInputBytes.getD 0

variable {n : Nat} {t : MeteredTerms}

variable {el : List Eligible} {sel : List Scored} {worker : NodeId} {cfg : GridConfig} {job : Job}
  {req : SettleRequest}

theorem capBase_le_worst {s : Scored} (hs : s ∈ sel) (ht : meteredTerms el s.worker = some t)
    (bytes : Nat) :
    t.capBase bytes ≤ worstCapBase el sel bytes := by
  unfold worstCapBase
  rw [List.foldl_max, Nat.zero_max]
  exact List.le_max?_getD_of_mem (List.mem_filterMap.mpr ⟨s, hs, by rw [ht]; rfl⟩)

/-- Metered terms cost something. -/
theorem capBase_pos (ht : meteredTerms el worker = some t) (bytes : Nat) : 0 < t.capBase bytes := by
  obtain ⟨bid, -, hbid⟩ := Option.bind_eq_some_iff.mp ht
  unfold MeteredTerms.fromBid at hbid
  split_ifs at hbid with hrate
  cases hbid
  have hone : 1 * 1 ≤ bid.ratePerSecond * max bid.capSeconds 1 :=
    Nat.mul_le_mul (Nat.pos_of_ne_zero hrate) (Nat.le_max_right _ _)
  unfold MeteredTerms.capBase satAdd satMul Saturating.add Saturating.mul
  dsimp only
  omega

/-- What a passed check says, for a job that is paid. -/
theorem worst_covered (hpre : preflight cfg job el sel = .ok ())
    (hdue : (job.paid && cfg.economicsEnabled) = true) (hmax : 0 < cfg.maxBid)
    (hworst : 0 < worstCapBase el sel job.inputBytes) :
    requiredEscrowTotal (worstCapBase el sel job.inputBytes) (sel.length - 1) cfg.platformFeeBps
      cfg.participationCommissionBps ≤ cfg.maxBid * tonNanoton := by
  unfold preflight at hpre
  rw [hdue, Bool.true_and, if_pos (decide_eq_true hmax)] at hpre
  change (if 0 < worstCapBase el sel job.inputBytes then Except.map _ _ else _) = _ at hpre
  rw [if_pos hworst] at hpre
  obtain ⟨needed, hcovers, -⟩ := Fallible.map_eq_ok.mp hpre
  exact Nat.le_trans (ensureEscrowCovers_isOk_iff.mp ⟨needed, hcovers⟩) (Saturating.mul_le 128 _ _)

/-! ## Arithmetic that stays within 128 bits -/

/-- No operation of the price for `seconds` and `bytes` saturates. -/
structure MeteredTerms.Fits (t : MeteredTerms) (seconds bytes : Nat) : Prop where
  time : t.ratePerSecond * seconds < 2 ^ 128
  volume : t.ratePerGb * bytes < 2 ^ 128
  sum : t.ratePerSecond * seconds + t.ratePerGb * bytes / gibBytes < 2 ^ 128

/-- No operation of `required_escrow_total` saturates. -/
structure TotalFits (base n feeBps commissionBps : Nat) : Prop where
  fee : base * feeBps < 2 ^ 128
  commission : base * commissionBps < 2 ^ 128
  commissions : base * commissionBps / bpsDenom * n < 2 ^ 128
  subtotal : base + base * feeBps / bpsDenom < 2 ^ 128
  total : base + base * feeBps / bpsDenom + base * commissionBps / bpsDenom * n < 2 ^ 128

/-- Rates, seconds and bytes are values of 64 bits. -/
structure TypedBids (cfg : GridConfig) (job : Job) (el : List Eligible) : Prop where
  maxBid : cfg.maxBid < 2 ^ 64
  bytes : job.inputBytes < 2 ^ 64
  bids : ∀ e ∈ el, e.bid.ratePerSecond < 2 ^ 64 ∧ e.bid.ratePerGb < 2 ^ 64 ∧
    e.bid.capSeconds < 2 ^ 64

theorem TypedBids.terms (h : TypedBids cfg job el) (ht : meteredTerms el worker = some t) :
    t.ratePerSecond < 2 ^ 64 ∧ t.ratePerGb < 2 ^ 64 ∧ t.capSeconds < 2 ^ 64 := by
  obtain ⟨bid, hbid, hterms⟩ := Option.bind_eq_some_iff.mp ht
  obtain ⟨e, he, rfl⟩ := Option.map_eq_some_iff.mp hbid
  obtain ⟨hrate, hgb, hcap⟩ := h.bids e (List.mem_reverse.mp (List.mem_of_find?_eq_some he))
  unfold MeteredTerms.fromBid at hterms
  split_ifs at hterms
  cases hterms
  exact ⟨hrate, hgb, by dsimp only; omega⟩

theorem mul_lt_of_words {a b : Nat} (ha : a < 2 ^ 64) (hb : b < 2 ^ 64) : a * b < 2 ^ 128 :=
  calc a * b < 2 ^ 64 * 2 ^ 64 := Nat.mul_lt_mul'' ha hb
    _ = 2 ^ 128 := by decide

/-- Terms of 64 bits can only saturate in the sum, and a price below the ceiling did not. -/
theorem fits_of_price_lt (hrate : t.ratePerSecond < 2 ^ 64)
    (hgb : t.ratePerGb < 2 ^ 64) {seconds bytes : Nat} (hseconds : seconds < 2 ^ 64)
    (hbytes : bytes < 2 ^ 64)
    (h : satAdd (satMul t.ratePerSecond seconds) (t.bytesTerm bytes) < 2 ^ 128 - 1) :
    t.Fits seconds bytes := by
  have htime := mul_lt_of_words hrate hseconds
  have hbytes' := mul_lt_of_words hgb hbytes
  have hterm : t.bytesTerm bytes = t.ratePerGb * bytes / gibBytes := by
    unfold MeteredTerms.bytesTerm satMul
    rw [Saturating.mul_eq hbytes']
  have hmul : satMul t.ratePerSecond seconds = t.ratePerSecond * seconds :=
    Saturating.mul_eq htime
  refine ⟨htime, hbytes', ?_⟩
  unfold satAdd Saturating.add at h
  omega

/-- A total within a ceiling of 112 bits did not saturate anywhere. -/
theorem totalFits_of_legs_le {base feeBps commissionBps : Nat} (hfee : feeBps < 2 ^ 16)
    (hcomm : commissionBps < 2 ^ 16)
    (h : base + shareOf base feeBps + shareOf base commissionBps * n < 2 ^ 112) :
    TotalFits base n feeBps commissionBps := by
  have hbase : base < 2 ^ 112 := by omega
  have hrate : ∀ rate < 2 ^ 16, base * rate < 2 ^ 128 := fun rate hr =>
    calc base * rate < 2 ^ 112 * 2 ^ 16 := Nat.mul_lt_mul'' hbase hr
      _ = 2 ^ 128 := by decide
  have hshare : ∀ rate < 2 ^ 16, shareOf base rate = base * rate / bpsDenom := fun rate hr =>
    shareOf_eq (hrate rate hr)
  rw [hshare feeBps hfee, hshare commissionBps hcomm] at h
  have htotal := Nat.lt_trans h (by decide : 2 ^ 112 < 2 ^ 128)
  exact ⟨hrate _ hfee, hrate _ hcomm, Nat.lt_of_le_of_lt (Nat.le_add_left _ _) htotal,
    Nat.lt_of_le_of_lt (Nat.le_add_right _ _) htotal, htotal⟩

/-! ## Whichever worker wins -/

/-- A selected worker with metered terms wins, and some of the other selected ones agree. -/
structure MeteredWin (job : Job) (el : List Eligible) (sel : List Scored) (req : SettleRequest)
    (m : MeteredSettle) : Prop where
  selected : ∃ s ∈ sel, s.worker = req.winner
  terms : meteredTerms el req.winner = some m.terms
  bytes : m.bytes = job.inputBytes
  metered : req.metered = some m
  agreeing : req.agreeingNonWinners.Subperm ((sel.map Scored.worker).erase req.winner)

theorem MeteredWin.length_agreeing {m : MeteredSettle} (h : MeteredWin job el sel req m) :
    req.agreeingNonWinners.length ≤ sel.length - 1 := by
  obtain ⟨s, hs, hwinner⟩ := h.selected
  have hmem : req.winner ∈ sel.map Scored.worker := hwinner ▸ List.mem_map_of_mem hs
  have hlen := h.agreeing.length_le
  rwa [List.length_erase_of_mem hmem, List.length_map] at hlen

/-- Every operation on amounts, before the dispatch and when the job is settled, is exact. -/
structure ExactPhases (p : Payer) (cfg : GridConfig) (job : Job) (el : List Eligible)
    (sel : List Scored) (req : SettleRequest) (m : MeteredSettle) (b : Nat) : Prop where
  ceiling : cfg.maxBid * tonNanoton < 2 ^ 128
  capBases : ∀ s ∈ sel, ∀ t, meteredTerms el s.worker = some t → t.Fits t.capSeconds job.inputBytes
  worst : TotalFits (worstCapBase el sel job.inputBytes) (sel.length - 1) cfg.platformFeeBps
    cfg.participationCommissionBps
  escrow : TotalFits (m.terms.capBase m.bytes) req.agreeingNonWinners.length cfg.platformFeeBps
    cfg.participationCommissionBps
  price : m.terms.Fits (min m.billedSeconds m.terms.capSeconds) m.bytes
  split : TotalFits (p.outcome cfg req b).base (p.outcome cfg req b).participants.length
    cfg.platformFeeBps cfg.participationCommissionBps
  paid : (p.outcome cfg req b).winner.amount + (p.outcome cfg req b).platformFee +
    ((p.outcome cfg req b).participants.map Payout.amount).sum < 2 ^ 128

theorem length_participants_le (p : Payer) (cfg : GridConfig) (req : SettleRequest) (b : Nat) :
    (p.outcome cfg req b).participants.length ≤ req.agreeingNonWinners.length := by
  unfold Payer.outcome Payer.participants
  rw [List.length_map]
  exact List.length_filter_le _ _

theorem due_of_opened {p : Payer} {sha256 : Bytes → BitVec 256} {paid : Bool}
    {handle : EscrowHandle} (h : (p.settlePaidJob sha256 cfg paid req).opened = some handle) :
    (paid && cfg.economicsEnabled) = true := by
  unfold Payer.settlePaidJob at h
  cases hdue : paid && cfg.economicsEnabled with
  | true => rfl
  | false =>
    rw [hdue] at h
    cases h

/-- A smaller base and fewer verifiers need no more. -/
theorem legs_le_legs {base base' n' : Nat} (hbase : base ≤ base') (hn : n ≤ n')
    (feeBps commissionBps : Nat) :
    base + shareOf base feeBps + shareOf base commissionBps * n ≤
      base' + shareOf base' feeBps + shareOf base' commissionBps * n' :=
  Nat.le_trans (Nat.add_le_add_left (Nat.mul_le_mul_left _ hn) _) (legs_mono hbase n' _ _)

theorem ceiling_lt {maxBid : Nat} (h : maxBid < 2 ^ 64) : maxBid * tonNanoton < 2 ^ 94 :=
  calc maxBid * tonNanoton < 2 ^ 64 * 2 ^ 30 := Nat.mul_lt_mul'' h (by decide)
    _ = 2 ^ 94 := by decide

section Winner

variable {cfg : GridConfig} {job : Job} {el : List Eligible} {sel : List Scored}
  {req : SettleRequest} {m : MeteredSettle}

/-- The winner's terms are among those that were checked. -/
theorem MeteredWin.capBase_le (hwin : MeteredWin job el sel req m) :
    m.terms.capBase m.bytes ≤ worstCapBase el sel job.inputBytes := by
  obtain ⟨s, hs, hwinner⟩ := hwin.selected
  rw [hwin.bytes]
  exact capBase_le_worst hs (hwinner ▸ hwin.terms) _

theorem MeteredWin.worst_pos (hwin : MeteredWin job el sel req m) :
    0 < worstCapBase el sel job.inputBytes :=
  Nat.lt_of_lt_of_le (capBase_pos hwin.terms m.bytes) hwin.capBase_le

variable (htyped : TypedBids cfg job el) (hmax : 0 < cfg.maxBid)
  (hpre : preflight cfg job el sel = .ok ()) (hdue : (job.paid && cfg.economicsEnabled) = true)

include htyped hmax hpre hdue

/-- The worst case that was checked, leg by leg. -/
theorem worst_legs_le (hworst : 0 < worstCapBase el sel job.inputBytes) :
    worstCapBase el sel job.inputBytes +
      shareOf (worstCapBase el sel job.inputBytes) cfg.platformFeeBps +
      shareOf (worstCapBase el sel job.inputBytes) cfg.participationCommissionBps *
        (sel.length - 1) ≤ cfg.maxBid * tonNanoton := by
  have hcovered := worst_covered hpre hdue hmax hworst
  have hceiling := ceiling_lt htyped.maxBid
  exact Nat.le_trans (le_requiredEscrowTotal (by omega)) hcovered

/-- What the parties can get at most is within the escrow, and the escrow within the ceiling. -/
theorem MeteredWin.escrow_bounds (hwin : MeteredWin job el sel req m) :
    m.terms.capBase m.bytes + shareOf (m.terms.capBase m.bytes) cfg.platformFeeBps +
        shareOf (m.terms.capBase m.bytes) cfg.participationCommissionBps *
          req.agreeingNonWinners.length ≤
      escrowAmount cfg (some m) req.agreeingNonWinners.length ∧
    escrowAmount cfg (some m) req.agreeingNonWinners.length ≤ cfg.maxBid * tonNanoton := by
  have hworst := worst_legs_le htyped hmax hpre hdue hwin.worst_pos
  have hlegs := legs_le_legs hwin.capBase_le hwin.length_agreeing cfg.platformFeeBps
    cfg.participationCommissionBps
  have hceiling := ceiling_lt htyped.maxBid
  have hescrow : escrowAmount cfg (some m) req.agreeingNonWinners.length ≤ _ :=
    requiredEscrowTotal_le (m.terms.capBase m.bytes) req.agreeingNonWinners.length
      cfg.platformFeeBps cfg.participationCommissionBps
  have hbound := Nat.le_trans hescrow (Nat.le_trans hlegs hworst)
  exact ⟨le_requiredEscrowTotal (show escrowAmount cfg (some m) _ < _ by omega), hbound⟩

/-- The settled split within the escrow. -/
theorem MeteredWin.split_le (p : Payer) (hwin : MeteredWin job el sel req m) {b : Nat}
    (hb : b = escrowAmount cfg (some m) req.agreeingNonWinners.length) :
    (p.outcome cfg req b).base + shareOf (p.outcome cfg req b).base cfg.platformFeeBps +
      shareOf (p.outcome cfg req b).base cfg.participationCommissionBps *
        (p.outcome cfg req b).participants.length ≤ b := by
  have hbase : (p.outcome cfg req b).base ≤ m.terms.capBase m.bytes := by
    show settledBase cfg req.metered b _ ≤ _
    rw [hwin.metered]
    exact Nat.le_trans (Nat.min_le_left _ _) (m.terms.baseFor_le_capBase _ _)
  have hlegs := legs_le_legs hbase (length_participants_le p cfg req b) cfg.platformFeeBps
    cfg.participationCommissionBps
  exact Nat.le_trans hlegs (hb ▸ (hwin.escrow_bounds htyped hmax hpre hdue).1)

theorem exactPhases (p : Payer) (hrates : cfg.RatesFit) (hwin : MeteredWin job el sel req m)
    {b : Nat}
    (hb : b = escrowAmount cfg (some m) req.agreeingNonWinners.length)
    (hpaid : (p.outcome cfg req b).winner.amount + (p.outcome cfg req b).platformFee +
      ((p.outcome cfg req b).participants.map Payout.amount).sum ≤ b) :
    ExactPhases p cfg job el sel req m b := by
  have hceiling := ceiling_lt htyped.maxBid
  have hworst := worst_legs_le htyped hmax hpre hdue hwin.worst_pos
  obtain ⟨hescrow, hbound⟩ := hwin.escrow_bounds htyped hmax hpre hdue
  have hsplit := hwin.split_le htyped hmax hpre hdue p hb
  have hterms : ∀ s ∈ sel, ∀ t, meteredTerms el s.worker = some t →
      t.Fits t.capSeconds job.inputBytes := by
    intro s hs t ht
    obtain ⟨hrate, hgb, hcap⟩ := htyped.terms ht
    have hle : t.capBase job.inputBytes ≤ _ := capBase_le_worst hs ht job.inputBytes
    refine fits_of_price_lt hrate hgb hcap htyped.bytes ?_
    show t.capBase job.inputBytes < _
    omega
  refine ⟨by omega, hterms, ?_, ?_, ?_, ?_, by omega⟩
  · exact totalFits_of_legs_le hrates.fee hrates.commission (by omega)
  · exact totalFits_of_legs_le hrates.fee hrates.commission (by omega)
  · obtain ⟨hrate, hgb, hcap⟩ := htyped.terms hwin.terms
    have hle := m.terms.baseFor_le_capBase m.billedSeconds m.bytes
    refine fits_of_price_lt hrate hgb (Nat.lt_of_le_of_lt (Nat.min_le_right _ _) hcap)
      (hwin.bytes ▸ htyped.bytes) ?_
    show m.terms.baseFor m.billedSeconds m.bytes < _
    omega
  · exact totalFits_of_legs_le hrates.fee hrates.commission (by omega)

end Winner

/-- If the check before the dispatch passes, then whichever selected metered worker wins and
    whoever of the others agrees, the escrow that is opened stays within the configured ceiling,
    the check before the payout passes, all parties are paid out of the escrow, and no operation on
    amounts saturates or overflows. -/
theorem preflight_sound (p : Payer) (sha256 : Bytes → BitVec 256) (cfg : GridConfig)
    (hrates : cfg.RatesFit) (hmax : 0 < cfg.maxBid) (job : Job) (el : List Eligible)
    (htyped : TypedBids cfg job el) (sel : List Scored)
    (hpre : preflight cfg job el sel = .ok ()) (req : SettleRequest) (m : MeteredSettle)
    (hwin : MeteredWin job el sel req m) (rail : TonRail) (hrail : p.settlement = some rail)
    (handle : EscrowHandle)
    (hopened : (p.settlePaidJob sha256 cfg job.paid req).opened = some handle) :
    handle.maxBid ≤ cfg.maxBid * tonNanoton ∧
    (∃ needed, ensureEscrowCovers handle.maxBid (p.outcome cfg req handle.maxBid).base
      (p.outcome cfg req handle.maxBid).participants.length cfg.platformFeeBps
      cfg.participationCommissionBps = .ok needed) ∧
    (p.outcome cfg req handle.maxBid).winner.amount +
      (p.outcome cfg req handle.maxBid).platformFee +
      ((p.outcome cfg req handle.maxBid).participants.map Payout.amount).sum ≤ handle.maxBid ∧
    ExactPhases p cfg job el sel req m handle.maxBid := by
  have hdue := due_of_opened hopened
  have hb : handle.maxBid = escrowAmount cfg (some m) req.agreeingNonWinners.length :=
    hwin.metered ▸ (settlePaidJob_of_opened hrail hopened).1.maxBid
  have hsplit := hwin.split_le htyped hmax hpre hdue p hb
  have hwinner := outcome_winner_amount_le p cfg req handle.maxBid
  have hsum : ((p.outcome cfg req handle.maxBid).participants.map Payout.amount).sum =
      shareOf (p.outcome cfg req handle.maxBid).base cfg.participationCommissionBps *
        (p.outcome cfg req handle.maxBid).participants.length := sum_participants p _ _
  have hfee : (p.outcome cfg req handle.maxBid).platformFee =
      shareOf (p.outcome cfg req handle.maxBid).base cfg.platformFeeBps := rfl
  have hpaid : (p.outcome cfg req handle.maxBid).winner.amount +
      (p.outcome cfg req handle.maxBid).platformFee +
      ((p.outcome cfg req handle.maxBid).participants.map Payout.amount).sum ≤
        handle.maxBid := by
    omega
  refine ⟨hb ▸ (hwin.escrow_bounds htyped hmax hpre hdue).2, ?_, hpaid, ?_⟩
  · exact ensureEscrowCovers_isOk_iff.mpr (Nat.le_trans (requiredEscrowTotal_le _ _ _ _) hsplit)
  · exact exactPhases htyped hmax hpre hdue p hrates hwin hb hpaid

/-- A bid of 1000 nanoton a second. -/
def meteredBid (capSeconds : Nat) : Bid :=
  ⟨.accept, 10, 0, ⟨.l0, [], none⟩, 4096, none, 1000, 0, capSeconds⟩

def meteredEligible : List Eligible :=
  [⟨⟨"a"⟩, meteredBid 10, .zero⟩, ⟨⟨"b"⟩, meteredBid 60, .zero⟩, ⟨⟨"c"⟩, meteredBid 30, .zero⟩]

def meteredSelected : List Scored :=
  [⟨⟨"a"⟩, .zero, 10⟩, ⟨⟨"b"⟩, .zero, 10⟩, ⟨⟨"c"⟩, .zero, 10⟩]

/-- Node `a` is billed four seconds of the ten that it bid. -/
def meteredSettle : MeteredSettle :=
  ⟨⟨1000, 0, 10⟩, 4, 0⟩

def meteredRequest : SettleRequest :=
  { demoRequest with metered := some meteredSettle }

def meteredJob : Job :=
  { plainJob with paid := true }

theorem meteredRequest_wins :
    MeteredWin meteredJob meteredEligible meteredSelected meteredRequest meteredSettle where
  selected := ⟨⟨⟨"a"⟩, .zero, 10⟩, List.mem_cons_self, rfl⟩
  terms := by decide
  bytes := rfl
  metered := rfl
  agreeing := by
    have hothers : (meteredSelected.map Scored.worker).erase meteredRequest.winner =
        meteredRequest.agreeingNonWinners := by decide
    exact hothers.symm ▸ List.Subperm.refl _

theorem metered_winner_covered :
    ∃ handle, ((demoPayer eachBound).settlePaidJob Ton.foldDigest paidConfig meteredJob.paid
        meteredRequest).opened = some handle ∧
      handle.maxBid ≤ paidConfig.maxBid * tonNanoton ∧
      ExactPhases (demoPayer eachBound) paidConfig meteredJob meteredEligible meteredSelected
        meteredRequest meteredSettle handle.maxBid := by
  have hsome : ((demoPayer eachBound).settlePaidJob Ton.foldDigest paidConfig meteredJob.paid
      meteredRequest).opened.isSome := by decide +kernel
  obtain ⟨handle, hopened⟩ := Option.isSome_iff_exists.mp hsome
  have hsound := preflight_sound (demoPayer eachBound) Ton.foldDigest paidConfig
    ⟨by decide, by decide⟩ (by decide) meteredJob meteredEligible
    ⟨by decide, by decide, by decide⟩ meteredSelected (by decide) meteredRequest meteredSettle
    meteredRequest_wins demoRail rfl handle hopened
  exact ⟨handle, hopened, hsound.1, hsound.2.2.2⟩

end Duckton.Node
