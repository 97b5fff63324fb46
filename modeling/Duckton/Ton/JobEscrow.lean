/-
  The per-job escrow contract (JobEscrow.tolk, escrow_types.tolk).

  The two maps of a settle message stay what they are on chain, dictionary cells, so that the
  candidate commitment is a hash of the very cell the message carries. A body that does not
  parse throws; so does a payee key that is not a standard address, since the send it would
  be put into fails.
-/
import Duckton.Lib.Ledger
import Duckton.Tvm.Account
import Duckton.Ton.Hashmap

namespace Duckton.Ton.JobEscrow

open Tvm Duckton.Proto

/-! ## Storage and messages -/

structure EscrowTerms where
  treasury : Address
  expectedHash : BitVec 256
  candidatesHash : BitVec 256
  paramsVersion : Nat
  platformFeeBps : Nat
  participationCommissionBps : Nat
  deriving DecidableEq, Repr

structure EscrowStorage where
  requester : Address
  arbiter : Address
  escrowAmount : Nat
  deadline : Nat
  settled : Bool
  terms : EscrowTerms
  pending : Ledger Address
  deriving DecidableEq

/-- `map<address, coins>` and `map<address, uint1>` are given by their roots. -/
structure EscrowSettle where
  queryId : Nat
  resultHash : BitVec 256
  winner : Address
  base : Nat
  winnerAmount : Nat
  platformFee : Nat
  participants : Option Cell
  candidates : Option Cell

/-- `else` is any other body; the contract only asks whether it is empty. -/
inductive AllowedMessageToEscrow where
  | escrowSettle (msg : EscrowSettle)
  | escrowRefund (queryId : Nat)
  | escrowTopUp (queryId : Nat)
  | escrowClaim (queryId : Nat) (recipient : Address)
  | other (isEmpty : Bool)

structure EscrowPayout where
  queryId : Nat
  deriving DecidableEq, Repr

abbrev EscrowAction := Action Address EscrowPayout Nat

def opEscrowSettle : Nat := 0x45534302
def opEscrowRefund : Nat := 0x45534303
def opEscrowTopUp : Nat := 0x45534300
def opEscrowClaim : Nat := 0x45534304

/-! ## Parsing -/

def EscrowSettle.fromSlice (s : Slice) : Option EscrowSettle := do
  let (queryId, s) ← s.loadUint 64
  let (resultHash, s) ← s.loadU256
  let (winner, s) ← s.loadAddress
  let (base, s) ← s.loadCoins
  let (winnerAmount, s) ← s.loadCoins
  let (platformFee, s) ← s.loadCoins
  let (participants, s) ← s.loadDict
  let (candidates, _) ← s.loadDict
  some ⟨queryId, resultHash, winner, base, winnerAmount, platformFee, participants, candidates⟩

def AllowedMessageToEscrow.fromSlice (s : Slice) : Option AllowedMessageToEscrow :=
  match s.loadUint 32 with
  | none => some (.other (s.bits.isEmpty && s.refs.isEmpty))
  | some (op, s) =>
    if op = opEscrowSettle then (EscrowSettle.fromSlice s).map .escrowSettle
    else if op = opEscrowRefund then (s.loadUint 64).map fun r => .escrowRefund r.1
    else if op = opEscrowTopUp then (s.loadUint 64).map fun r => .escrowTopUp r.1
    else if op = opEscrowClaim then do
      let (queryId, s) ← s.loadUint 64
      let (recipient, _) ← s.loadAddress
      some (.escrowClaim queryId recipient)
    else some (.other false)

/-! ## Sends -/

/-- A fixed-value, bounceable payout. -/
def payout (recipient : Address) (amount queryId : Nat) : EscrowAction :=
  .send recipient (.coins amount) true false ⟨queryId⟩

/-- What is left after the payouts and the reserve. -/
def refundRemaining (recipient : Address) (queryId : Nat) : EscrowAction :=
  .send recipient .allBalance true false ⟨queryId⟩

def payoutIfPositive (recipient : Address) (amount queryId : Nat) : List EscrowAction :=
  if 0 < amount then [payout recipient amount queryId] else []

/-! ## Settlement checks -/

/-- The width of a `map<address, V>` key. -/
def addressKeyBits : Nat :=
  267

/-- `MAX_SETTLE_PARTICIPANTS`. -/
def maxSettleParticipants : Nat :=
  32

def candidatesCommitment (sha256 : Bytes → BitVec 256) (candidates : Option Cell) : BitVec 256 :=
  (Cell.empty.storeDictRoot candidates).reprHash sha256

/-- `candidates.exists(key)`, and the assertion on it. -/
def requireCandidate (candidates : Option Cell) (key : List Bool) : Except Exit Unit := do
  let found ← parsed (dictGet candidates addressKeyBits key)
  require (found.isSome = true) .settlePolicyMismatch

/-- The loop over the participants: at most 32, each a candidate, each paid the exact commission
    when a rate is bound. Gives the legs, the last sum of them is `participantsTotal`. -/
def checkParticipants (terms : EscrowTerms) (candidates : Option Cell) (expectedCommission : Nat) :
    (count : Nat) → List (List Bool × Slice) → Except Exit (List (Address × Nat))
  | _, [] => .ok []
  | count, (who, value) :: rest => do
    require (count + 1 ≤ maxSettleParticipants) .tooManyParticipants
    requireCandidate candidates who
    let (amt, _) ← parsed value.loadCoins
    require (terms.participationCommissionBps = 0 ∨ amt = expectedCommission) .commissionMismatch
    let legs ← checkParticipants terms candidates expectedCommission (count + 1) rest
    let (recipient, _) ← parsed (Slice.loadAddress ⟨who, []⟩)
    return (recipient, amt) :: legs

abbrev Handled := Except Exit (EscrowStorage × List EscrowAction)

variable (sha256 : Bytes → BitVec 256) (storage : EscrowStorage) (inMsg : InMessage)

def escrowSettle (msg : EscrowSettle) : Handled := do
  require (inMsg.senderAddress = storage.arbiter) .notArbiter
  require (storage.settled = false) .alreadySettled
  require (msg.resultHash = storage.terms.expectedHash) .hashMismatch
  require (candidatesCommitment sha256 msg.candidates = storage.terms.candidatesHash)
    .settlePolicyMismatch
  require (msg.winner ≠ storage.arbiter) .notOwnerSig
  requireCandidate msg.candidates msg.winner.toBits
  let expectedCommission := msg.base * storage.terms.participationCommissionBps / bpsDenom
  let entries ← parsed (dictEntries msg.participants addressKeyBits)
  let legs ← checkParticipants storage.terms msg.candidates expectedCommission 0 entries
  require (msg.winnerAmount ≤ msg.base) .payoutExceedsEscrow
  let total := msg.winnerAmount + msg.platformFee + (legs.map Prod.snd).sum
  require (total ≤ storage.escrowAmount) .payoutExceedsEscrow
  let expectedFee := msg.base * storage.terms.platformFeeBps / bpsDenom
  require (msg.platformFee = expectedFee) .feeMismatch
  return ({ storage with settled := true },
    .reserveExact minTonsForStorage ::
      (payoutIfPositive msg.winner msg.winnerAmount msg.queryId ++
        payoutIfPositive storage.terms.treasury msg.platformFee msg.queryId ++
        legs.flatMap (fun leg => payoutIfPositive leg.1 leg.2 msg.queryId) ++
        [refundRemaining storage.requester msg.queryId]))

def escrowRefund (queryId : Nat) : Handled := do
  require (storage.settled = false) .alreadySettled
  require (storage.deadline ≤ inMsg.now) .timeoutNotReached
  return ({ storage with settled := true },
    [.reserveExact minTonsForStorage, refundRemaining storage.requester queryId])

def escrowClaim (queryId : Nat) (recipient : Address) : Handled :=
  match storage.pending.get recipient with
  | none => .error (.err .payoutExceedsEscrow)
  | some amount => do
    require (0 < amount) .payoutExceedsEscrow
    return ({ storage with pending := storage.pending.remove recipient },
      [payout recipient amount queryId])

def onInternalMessage (body : Slice) : Handled := do
  match ← parsed (AllowedMessageToEscrow.fromSlice body) with
  | .escrowSettle msg => escrowSettle sha256 storage inMsg msg
  | .escrowRefund queryId => escrowRefund storage inMsg queryId
  | .escrowTopUp _ => return (storage, [])
  | .escrowClaim queryId recipient => escrowClaim storage queryId recipient
  | .other isEmpty => do
    require (isEmpty = true) .invalidOp
    return (storage, [])

/-- A bounced payout is credited to the address it came back from. -/
def onBouncedMessage (senderAddress : Address) (valueCoins : Nat) : EscrowStorage :=
  { storage with pending := storage.pending.credit senderAddress valueCoins }

/-! ## What a settlement has to satisfy -/

/-- A participant's entry as the contract reads it. -/
def legEntry (leg : Address × Nat) : List Bool × Slice :=
  (leg.1.toBits, (Cell.empty.storeCoins leg.2).toSlice)

variable {terms : EscrowTerms} {candidates : Option Cell} {es : List (List Bool × Cell)}
  {expected count : Nat} {entries : List (List Bool × Slice)} {legs : List (Address × Nat)}
  {sha256 : Bytes → BitVec 256} {storage : EscrowStorage} {inMsg : InMessage} {msg : EscrowSettle}
  {r : EscrowStorage × List EscrowAction} {queryId : Nat}

theorem requireCandidate_eq_ok_iff (h : Holds candidates addressKeyBits es) (a : Address) :
    requireCandidate candidates a.toBits = .ok () ↔ a.toBits ∈ es.map Prod.fst := by
  have hget := h.get a.toBits a.length_toBits
  unfold requireCandidate
  rw [parsed_bind_eq_ok]
  constructor
  · rintro ⟨found, hfound, hreq⟩
    rw [hget, Option.some.injEq] at hfound
    rw [require_eq_ok, ← hfound] at hreq
    exact valueAt_isSome_iff.mp hreq
  · intro hmem
    exact ⟨_, hget, require_eq_ok.mpr (valueAt_isSome_iff.mpr hmem)⟩

theorem loadCoins_leg {amount : Nat} (h : amount < 2 ^ 120) :
    (Cell.empty.storeCoins amount).toSlice.loadCoins = some (amount, ⟨[], []⟩) := by
  have hload := Slice.loadCoins_append h [] []
  rw [List.append_nil] at hload
  rw [Cell.storeCoins_eq]
  exact hload

theorem loadAddress_key (a : Address) : (⟨a.toBits, []⟩ : Slice).loadAddress = some (a, ⟨[], []⟩) := by
  have hload := Slice.loadAddress_append a [] []
  rwa [List.append_nil] at hload

/-- What the loop reads of an entry: the address of its key and the coins of its value. -/
def ReadsLeg (e : List Bool × Slice) (leg : Address × Nat) : Prop :=
  (∃ rest, e.2.loadCoins = some (leg.2, rest)) ∧
    ∃ rest, (⟨e.1, []⟩ : Slice).loadAddress = some (leg.1, rest)

theorem readsLeg_legEntry {leg leg' : Address × Nat} (hlt : leg.2 < 2 ^ 120) :
    ReadsLeg (legEntry leg) leg' ↔ leg = leg' := by
  simp [ReadsLeg, legEntry, loadCoins_leg hlt, loadAddress_key, Prod.ext_iff, and_comm]

/-- The loop accepts at most 32 entries, all of them under keys of candidates, and gives back their
    legs, all of the exact amount. -/
theorem checkParticipants_eq_ok_iff (hcount : count ≤ maxSettleParticipants) :
    checkParticipants terms candidates expected count entries = .ok legs ↔
      count + entries.length ≤ maxSettleParticipants ∧
        (∀ key ∈ entries.map Prod.fst, requireCandidate candidates key = .ok ()) ∧
        (∀ leg ∈ legs, terms.participationCommissionBps = 0 ∨ leg.2 = expected) ∧
        List.Forall₂ ReadsLeg entries legs := by
  induction entries generalizing count legs with
  | nil =>
    rw [checkParticipants, Except.ok.injEq, List.forall₂_nil_left_iff]
    exact ⟨fun h => ⟨hcount, nofun, h ▸ nofun, h.symm⟩, fun h => h.2.2.2.symm⟩
  | cons e entries ih =>
    obtain ⟨who, value⟩ := e
    simp only [checkParticipants, bind_eq_ok, require_eq_ok, parsed_eq_ok, exists_const, pure_eq_ok,
      Prod.exists, List.map_cons, List.forall_mem_cons, List.length_cons,
      List.forall₂_cons_left_iff]
    constructor
    · rintro ⟨hone, _, hcand, amt, _, hamt, hexact, tail, htail, recipient, _, haddr, rfl⟩
      obtain ⟨hlen, hcands, hexacts, hreads⟩ := (ih hone).mp htail
      exact ⟨by omega, ⟨hcand, hcands⟩, List.forall_mem_cons.mpr ⟨hexact, hexacts⟩,
        _, _, _, ⟨⟨_, hamt⟩, _, haddr⟩, hreads, rfl⟩
    · rintro ⟨hlen, ⟨hcand, hcands⟩, hexact, recipient, amt, tail, ⟨⟨_, hamt⟩, _, haddr⟩, hreads,
        rfl⟩
      obtain ⟨hexact, hexacts⟩ := List.forall_mem_cons.mp hexact
      have hone : count + 1 ≤ maxSettleParticipants := by omega
      exact ⟨hone, _, hcand, amt, _, hamt, hexact, tail,
        (ih hone).mpr ⟨by omega, hcands, hexacts, hreads⟩, recipient, _, haddr, rfl⟩

/-- The assertions of `EscrowSettle`, for a message whose candidates have the keys `payees` and whose
    participants are `legs`. -/
structure Settles (sha256 : Bytes → BitVec 256) (storage : EscrowStorage) (sender : Address)
    (msg : EscrowSettle) (payees : List (List Bool)) (legs : List (Address × Nat)) : Prop where
  sender : sender = storage.arbiter
  unsettled : storage.settled = false
  hash : msg.resultHash = storage.terms.expectedHash
  committed : candidatesCommitment sha256 msg.candidates = storage.terms.candidatesHash
  notArbiter : msg.winner ≠ storage.arbiter
  winner : msg.winner.toBits ∈ payees
  few : legs.length ≤ maxSettleParticipants
  payee : ∀ leg ∈ legs, leg.1.toBits ∈ payees
  commission : ∀ leg ∈ legs, storage.terms.participationCommissionBps = 0 ∨
    leg.2 = msg.base * storage.terms.participationCommissionBps / bpsDenom
  quoted : msg.winnerAmount ≤ msg.base
  covered : msg.winnerAmount + msg.platformFee + (legs.map Prod.snd).sum ≤ storage.escrowAmount
  fee : msg.platformFee = msg.base * storage.terms.platformFeeBps / bpsDenom

theorem escrowSettle_accepts_iff (h : Holds msg.candidates addressKeyBits es)
    (hlegs : dictEntries msg.participants addressKeyBits = some (legs.map legEntry))
    (hlt : ∀ leg ∈ legs, leg.2 < 2 ^ 120) :
    (∃ r, escrowSettle sha256 storage inMsg msg = .ok r) ↔
      Settles sha256 storage inMsg.senderAddress msg (es.map Prod.fst) legs := by
  have hreads : ∀ legs', List.Forall₂ ReadsLeg (legs.map legEntry) legs' ↔ legs = legs' := by
    intro legs'
    rw [List.forall₂_map_left_iff]
    constructor
    · intro hreads
      rw [← List.forall₂_eq_eq_eq]
      exact ((List.forall₂_and_left _ _).mpr ⟨hlt, hreads⟩).imp
        fun _ _ h => (readsLeg_legEntry h.1).mp h.2
    · rintro rfl
      exact List.forall₂_same.mpr fun leg hleg => (readsLeg_legEntry (hlt leg hleg)).mpr rfl
  have hkeys : (∀ key ∈ (legs.map legEntry).map Prod.fst,
      requireCandidate msg.candidates key = .ok ()) ↔ ∀ leg ∈ legs, leg.1.toBits ∈ es.map Prod.fst := by
    simp only [List.forall_mem_map, legEntry, requireCandidate_eq_ok_iff h]
  unfold escrowSettle
  simp only [bind_eq_ok, require_eq_ok, requireCandidate_eq_ok_iff h, exists_const, hlegs, parsed,
    Except.ok.injEq, exists_eq_left', checkParticipants_eq_ok_iff (Nat.zero_le _), hkeys, hreads,
    List.length_map, Nat.zero_add, pure_eq_ok]
  constructor
  · rintro ⟨r, hsender, hunset, hhash, hcomm, hnot, hwin, _, ⟨hfew, hpayee, hexact, rfl⟩,
      hquoted, hcov, hfee, _⟩
    exact ⟨hsender, hunset, hhash, hcomm, hnot, hwin, hfew, hpayee, hexact, hquoted, hcov, hfee⟩
  · intro hs
    exact ⟨_, hs.sender, hs.unsettled, hs.hash, hs.committed, hs.notArbiter, hs.winner, legs,
      ⟨hs.few, hs.payee, hs.commission, rfl⟩, hs.quoted, hs.covered, hs.fee, rfl⟩

/-! ## What an accepted settlement pays -/

theorem ReadsLeg.key {e : List Bool × Slice} {leg : Address × Nat} (h : ReadsLeg e leg)
    (hlen : e.1.length = addressKeyBits) : leg.1.toBits = e.1 := by
  obtain ⟨-, rest, hload⟩ := h
  have hbits : e.1 = leg.1.toBits ++ rest.bits := Slice.loadAddress_eq_some hload
  have hnil : rest.bits = [] := by
    have hsum := congrArg List.length hbits
    rw [List.length_append, leg.1.length_toBits, hlen, addressKeyBits] at hsum
    exact List.eq_nil_of_length_eq_zero (by omega)
  rw [hbits, hnil, List.append_nil]

theorem ReadsLeg.unique {e : List Bool × Slice} {leg leg' : Address × Nat} (h : ReadsLeg e leg)
    (h' : ReadsLeg e leg') : leg = leg' := by
  obtain ⟨⟨_, hamount⟩, _, haddress⟩ := h
  obtain ⟨⟨_, hamount'⟩, _, haddress'⟩ := h'
  rw [hamount, Option.some.injEq, Prod.mk.injEq] at hamount'
  rw [haddress, Option.some.injEq, Prod.mk.injEq] at haddress'
  exact Prod.ext haddress'.1 hamount'.1

theorem mem_iff_of_reads (h : List.Forall₂ ReadsLeg entries legs) (leg : Address × Nat) :
    leg ∈ legs ↔ ∃ e ∈ entries, ReadsLeg e leg := by
  induction h with
  | nil => simp
  | @cons e leg' _ _ hread _ ih =>
    have hfirst : leg = leg' ↔ ReadsLeg e leg :=
      ⟨fun heq => heq ▸ hread, fun hread' => hread'.unique hread⟩
    rw [List.mem_cons, hfirst, ih]
    simp only [List.mem_cons, exists_eq_or_imp]

/-- The message lists this leg among the participants. -/
def EscrowSettle.Lists (msg : EscrowSettle) (leg : Address × Nat) : Prop :=
  ∃ entries, dictEntries msg.participants addressKeyBits = some entries ∧
    ∃ e ∈ entries, ReadsLeg e leg

/-- The messages of fixed legs: none for a leg of nothing. -/
def legMessages (queryId : Nat) (legs : List (Address × Nat)) :
    List (Message Address EscrowPayout) :=
  (legs.filter fun leg => 0 < leg.2).map fun leg => ⟨leg.1, leg.2, true, ⟨queryId⟩⟩

theorem flatMap_payoutIfPositive (queryId : Nat) (legs : List (Address × Nat)) :
    legs.flatMap (fun leg => payoutIfPositive leg.1 leg.2 queryId) =
      (legMessages queryId legs).map Message.toAction := by
  induction legs with
  | nil => rfl
  | cons leg legs ih =>
    rw [List.flatMap_cons, ih]
    unfold legMessages payoutIfPositive
    by_cases hpos : 0 < leg.2
    · rw [if_pos hpos, List.filter_cons_of_pos (by simpa using hpos)]
      rfl
    · rw [if_neg hpos, List.filter_cons_of_neg (by simpa using hpos)]
      rfl

/-- The fixed legs of a settlement, in the order they are paid. -/
def fixedLegs (storage : EscrowStorage) (msg : EscrowSettle) (legs : List (Address × Nat)) :
    List (Address × Nat) :=
  (msg.winner, msg.winnerAmount) :: (storage.terms.treasury, msg.platformFee) :: legs

/-- The actions of a settlement. -/
def settleActions (storage : EscrowStorage) (msg : EscrowSettle) (legs : List (Address × Nat)) :
    List EscrowAction :=
  .reserveExact minTonsForStorage ::
    ((legMessages msg.queryId (fixedLegs storage msg legs)).map Message.toAction ++
      [refundRemaining storage.requester msg.queryId])

/-- A settlement is accepted only if it meets every assertion, and then pays just the legs the message
    lists, at most one for each participant. -/
theorem escrowSettle_eq_ok (h : escrowSettle sha256 storage inMsg msg = .ok r) :
    ∃ legs, r = ({ storage with settled := true }, settleActions storage msg legs) ∧
      (legs.map Prod.fst).Nodup ∧ (∀ leg, leg ∈ legs ↔ msg.Lists leg) ∧
      storage.settled = false ∧
      candidatesCommitment sha256 msg.candidates = storage.terms.candidatesHash ∧
      ∀ es, Holds msg.candidates addressKeyBits es →
        Settles sha256 storage inMsg.senderAddress msg (es.map Prod.fst) legs := by
  unfold escrowSettle at h
  simp only [require_bind_eq_ok] at h
  obtain ⟨hsender, hunsettled, hhash, hcommitted, hnot, h⟩ := h
  obtain ⟨_, hwinner, h⟩ := bind_eq_ok.mp h
  obtain ⟨entries, hentries, h⟩ := parsed_bind_eq_ok.mp h
  obtain ⟨legs, hlegs, h⟩ := bind_eq_ok.mp h
  simp only [require_bind_eq_ok, pure_eq_ok] at h
  obtain ⟨hquoted, hcovered, hfee, rfl⟩ := h
  obtain ⟨hfew, hcands, hexact, hreads⟩ :=
    (checkParticipants_eq_ok_iff (Nat.zero_le _)).mp hlegs
  have hkeys : legs.map (fun leg => leg.1.toBits) = entries.map Prod.fst := by
    rw [eq_comm, ← List.forall₂_eq_eq_eq, List.forall₂_map_left_iff, List.forall₂_map_right_iff]
    exact ((List.forall₂_and_left _ _).mpr ⟨(dictEntries_keyed hentries).length, hreads⟩).imp
      fun _ _ h => (h.2.key h.1).symm
  have hnodup : (legs.map Prod.fst).Nodup := by
    have hbits := (dictEntries_keyed hentries).nodup
    rw [← hkeys] at hbits
    refine List.Nodup.of_map Address.toBits ?_
    rwa [List.map_map]
  have hlisted (leg : Address × Nat) : leg ∈ legs ↔ msg.Lists leg := by
    rw [mem_iff_of_reads hreads, EscrowSettle.Lists, hentries]
    simp
  rw [← hkeys, List.forall_mem_map] at hcands
  refine ⟨legs, ?_, hnodup, hlisted, hunsettled, hcommitted, ?_⟩
  · unfold settleActions fixedLegs
    rw [← flatMap_payoutIfPositive, List.flatMap_cons, List.flatMap_cons]
    simp only [List.append_assoc]
  · intro es hset
    exact ⟨hsender, hunsettled, hhash, hcommitted, hnot,
      (requireCandidate_eq_ok_iff hset msg.winner).mp hwinner, hreads.length_eq ▸ by omega,
      fun leg hleg => (requireCandidate_eq_ok_iff hset leg.1).mp (hcands leg hleg),
      hexact, hquoted, hcovered, hfee⟩

theorem escrowRefund_eq_ok_iff :
    escrowRefund storage inMsg queryId = .ok r ↔
      storage.settled = false ∧ storage.deadline ≤ inMsg.now ∧
        ({ storage with settled := true },
          [.reserveExact minTonsForStorage, refundRemaining storage.requester queryId]) = r := by
  unfold escrowRefund
  simp only [require_bind_eq_ok, pure_eq_ok]

theorem escrowClaim_eq_ok_iff {recipient : Address} :
    escrowClaim storage queryId recipient = .ok r ↔
      ∃ credit, storage.pending.get recipient = some credit ∧ 0 < credit ∧
        ({ storage with pending := storage.pending.remove recipient },
          [payout recipient credit queryId]) = r := by
  unfold escrowClaim
  cases h : storage.pending.get recipient with
  | none => exact ⟨nofun, fun ⟨_, hc, _⟩ => (nomatch hc)⟩
  | some credit =>
    simp only [require_bind_eq_ok, pure_eq_ok, Option.some.injEq, exists_eq_left']

/-! ## No quarrel about the candidate set -/

theorem checkParticipants_ne_policyMismatch
    (h : ∀ e ∈ entries, requireCandidate candidates e.1 = .ok ()) :
    checkParticipants terms candidates expected count entries ≠
      .error (.err .settlePolicyMismatch) := by
  induction entries generalizing count with
  | nil => exact nofun
  | cons e entries ih =>
    obtain ⟨who, value⟩ := e
    have hwho : requireCandidate candidates who = .ok () := h (who, value) List.mem_cons_self
    have htail := @ih (count + 1) fun e he => h e (List.mem_cons_of_mem _ he)
    refine require_bind_ne_error (by decide) fun _ => ?_
    refine bind_ne_error (ne_error_of_ok hwho) fun _ _ => ?_
    refine bind_ne_error (parsed_ne_error (by decide)) fun _ _ => ?_
    refine require_bind_ne_error (by decide) fun _ => ?_
    refine bind_ne_error htail fun _ _ => ?_
    exact bind_ne_error (parsed_ne_error (by decide)) nofun

/-- With the committed candidates presented and all payees among them, no assertion on the candidate
    set fails. -/
theorem escrowSettle_ne_policyMismatch
    (hcomm : candidatesCommitment sha256 msg.candidates = storage.terms.candidatesHash)
    (hwin : requireCandidate msg.candidates msg.winner.toBits = .ok ())
    (hpart : ∀ entries, dictEntries msg.participants addressKeyBits = some entries →
      ∀ e ∈ entries, requireCandidate msg.candidates e.1 = .ok ()) :
    escrowSettle sha256 storage inMsg msg ≠ .error (.err .settlePolicyMismatch) := by
  refine require_bind_ne_error (by decide) fun _ => ?_
  refine require_bind_ne_error (by decide) fun _ => ?_
  refine require_bind_ne_error (by decide) fun _ => ?_
  refine bind_ne_error (ne_error_of_ok (a := ()) (require_eq_ok.mpr hcomm)) fun _ _ => ?_
  refine require_bind_ne_error (by decide) fun _ => ?_
  refine bind_ne_error (ne_error_of_ok hwin) fun _ _ => ?_
  refine bind_ne_error (parsed_ne_error (by decide)) fun entries hentries => ?_
  have hread := parsed_eq_ok.mp hentries
  refine bind_ne_error (checkParticipants_ne_policyMismatch (hpart entries hread)) fun _ _ => ?_
  refine require_bind_ne_error (by decide) fun _ => ?_
  refine require_bind_ne_error (by decide) fun _ => ?_
  exact require_bind_ne_error (by decide) nofun

end Duckton.Ton.JobEscrow
