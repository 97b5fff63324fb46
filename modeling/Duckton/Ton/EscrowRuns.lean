/-
  The escrow over whole runs.

  Messages reach the escrow from anybody at any time; what it sends is accepted by the payee or
  comes back. A ghost log records what happened, the latest entry last, and a ghost counter the
  coins that arrived after the settlement and stayed. A rejected message may leave its coins behind:
  it does if it is not bounceable, or if its action phase failed.

  `accepted_cases` lists what an accepted message can do; everything else is read off it. The
  result here is that the escrow pays once and only as committed. Where its coins are after that is
  the subject of `EscrowBalance`.
-/
import Duckton.Lib.History
import Duckton.Lib.Run
import Duckton.Settlement.TonRail

namespace Duckton.Ton.EscrowRuns

open Tvm Duckton.Proto JobEscrow

/-! ## Runs -/

abbrev Escrow := Account EscrowStorage Address EscrowPayout Nat

abbrev Sent := Message Address EscrowPayout

inductive Entry where
  | accepted (inMsg : InMessage) (body : Slice) (sent : List Sent)
  | rejected (inMsg : InMessage) (body : Slice)
  | delivered (m : Sent)
  | returned (m : Sent)

structure EscrowRun where
  escrow : Escrow
  log : List Entry
  toppedUp : Nat

/-- What can happen to an escrow. `stays`: the coins of a rejected message are not sent back. -/
inductive Event where
  | receive (inMsg : InMessage) (body : Slice) (stays : Bool)
  | deliver (index : Nat)
  | bounce (index : Nat)

/-- The counter runs from the settlement on. -/
def EscrowRun.topUp (r : EscrowRun) (value : Nat) : Nat :=
  if r.escrow.storage.settled then r.toppedUp + value else 0

variable (sha256 : Bytes → BitVec 256)

def EscrowRun.receive (r : EscrowRun) (inMsg : InMessage)
    (body : Slice) (stays : Bool) : EscrowRun :=
  match r.escrow.transact inMsg.valueCoins
      (onInternalMessage sha256 r.escrow.storage inMsg body) with
  | .ok escrow =>
    { escrow := escrow
      log := r.log ++ [.accepted inMsg body (escrow.outbound.drop r.escrow.outbound.length)]
      toppedUp := r.topUp inMsg.valueCoins }
  | .error _ =>
    let kept := if stays then inMsg.valueCoins else 0
    { escrow := { r.escrow with balance := r.escrow.balance + kept }
      log := r.log ++ [.rejected inMsg body]
      toppedUp := r.topUp kept }

def step (r : EscrowRun) : Event → EscrowRun
  | .receive inMsg body stays => r.receive sha256 inMsg body stays
  | .deliver index =>
    match r.escrow.outbound[index]? with
    | none => r
    | some m =>
      { r with
        escrow := { r.escrow with outbound := r.escrow.outbound.eraseIdx index }
        log := r.log ++ [.delivered m] }
  | .bounce index =>
    match r.escrow.outbound[index]? with
    | none => r
    | some m =>
      if m.bounce then
        { r with
          escrow := { r.escrow with
            storage := onBouncedMessage r.escrow.storage m.dest m.value
            balance := r.escrow.balance + m.value
            outbound := r.escrow.outbound.eraseIdx index }
          log := r.log ++ [.returned m] }
      else r

/-- The storage an escrow is opened with. -/
def openedStorage (requester arbiter : Address) (escrowAmount deadline : Nat)
    (terms : EscrowTerms) : EscrowStorage where
  requester := requester
  arbiter := arbiter
  escrowAmount := escrowAmount
  deadline := deadline
  settled := false
  terms := terms
  pending := Ledger.empty

/-- A funded escrow before its first message. -/
def opened (storage : EscrowStorage) (code balance : Nat) : EscrowRun where
  escrow := ⟨storage, balance, code, []⟩
  log := []
  toppedUp := 0

/-! ## What an accepted message does -/

/-- A message of the escrow. -/
def leg (recipient : Address) (amount queryId : Nat) : Sent :=
  ⟨recipient, amount, true, ⟨queryId⟩⟩

/-- The four things an accepted message can do: `e'` is the escrow it leaves, `sent` what it
    sends. -/
inductive Accepted (e : Escrow) (inMsg : InMessage) (body : Slice)
    (e' : Escrow) (sent : List Sent) : Prop
  | settled (msg : EscrowSettle) (legs : List (Address × Nat)) (rest : Nat)
    (hparse : AllowedMessageToEscrow.fromSlice body = some (.escrowSettle msg))
    (hunsettled : e.storage.settled = false)
    (hcommitted : candidatesCommitment sha256 msg.candidates = e.storage.terms.candidatesHash)
    (hsettles : ∀ es, Holds msg.candidates addressKeyBits es →
      Settles sha256 e.storage inMsg.senderAddress msg (es.map Prod.fst) legs)
    (hstorage : e'.storage = { e.storage with settled := true })
    (hbalance : e'.balance = minTonsForStorage)
    (hsent : sent = legMessages msg.queryId (fixedLegs e.storage msg legs) ++
      [leg e.storage.requester rest msg.queryId])
  | refunded (queryId rest : Nat)
    (hparse : AllowedMessageToEscrow.fromSlice body = some (.escrowRefund queryId))
    (hunsettled : e.storage.settled = false)
    (hstorage : e'.storage = { e.storage with settled := true })
    (hbalance : e'.balance = minTonsForStorage)
    (hsent : sent = [leg e.storage.requester rest queryId])
  | claimed (queryId : Nat) (recipient : Address) (credit : Nat)
    (hparse : AllowedMessageToEscrow.fromSlice body = some (.escrowClaim queryId recipient))
    (hget : e.storage.pending.get recipient = some credit)
    (hstorage : e'.storage = { e.storage with pending := e.storage.pending.remove recipient })
    (hbalance : e'.balance + credit = e.balance + inMsg.valueCoins)
    (hsent : sent = [leg recipient credit queryId])
  | kept (hparse : (∃ queryId, AllowedMessageToEscrow.fromSlice body = some (.escrowTopUp queryId)) ∨
      AllowedMessageToEscrow.fromSlice body = some (.other true))
    (hstorage : e'.storage = e.storage)
    (hbalance : e'.balance = e.balance + inMsg.valueCoins)
    (hsent : sent = [])

section Cases

variable {sha256} {e e' : Escrow} {inMsg : InMessage} {body : Slice}
  {inValue funds : Nat} {p : Phase Address EscrowPayout Nat}

/-- Reserve, pay, sweep: the buffer is all that is left. -/
theorem run_payouts (ms : List Sent) (requester : Address) (queryId : Nat)
    (h : (Phase.start funds).run inValue (.reserveExact minTonsForStorage ::
      (ms.map Message.toAction ++ [refundRemaining requester queryId])) = some p) :
    p.balance = minTonsForStorage ∧ ∃ rest, p.sent = ms ++ [leg requester rest queryId] := by
  rw [Phase.run_cons, Phase.step_reserve, Phase.start_remaining] at h
  by_cases hreserve : minTonsForStorage ≤ funds
  · rw [if_pos hreserve, Option.bind_some, Phase.run_sends] at h
    split at h
    · rw [refundRemaining, Phase.run_cons, Phase.step_sweep, Option.bind_some, Phase.run_nil,
        Option.some.injEq] at h
      subst h
      refine ⟨?_, _, rfl⟩
      show _ - _ + (0 + minTonsForStorage) = minTonsForStorage
      omega
    · cases h
  · rw [if_neg hreserve] at h
    cases h

theorem accepted_cases
    (h : e.transact inMsg.valueCoins (onInternalMessage sha256 e.storage inMsg body) = .ok e') :
    Accepted sha256 e inMsg body e' (e'.outbound.drop e.outbound.length) := by
  obtain ⟨storage, actions, p, hc, hp, rfl⟩ := Account.transact_ok_iff.mp h
  have hsent : (e.commit storage p).outbound.drop e.outbound.length = p.sent := List.drop_left
  rw [hsent]
  obtain ⟨msg, hparse, hc⟩ := parsed_bind_eq_ok.mp hc
  cases msg with
  | escrowSettle msg =>
    obtain ⟨legs, hr, -, -, hunsettled, hcommitted, hsettles⟩ := escrowSettle_eq_ok hc
    cases hr
    obtain ⟨hbalance, rest, hsent⟩ := run_payouts _ _ _ hp
    exact .settled msg legs rest hparse hunsettled hcommitted hsettles rfl hbalance hsent
  | escrowRefund queryId =>
    obtain ⟨hunsettled, _, hr⟩ := escrowRefund_eq_ok_iff.mp hc
    cases hr
    obtain ⟨hbalance, rest, hsent⟩ := run_payouts [] _ _ hp
    exact .refunded queryId rest hparse hunsettled rfl hbalance hsent
  | escrowTopUp queryId =>
    cases hc
    cases hp
    exact .kept (.inl ⟨queryId, hparse⟩) rfl rfl rfl
  | escrowClaim queryId recipient =>
    obtain ⟨credit, hget, _, hr⟩ := escrowClaim_eq_ok_iff.mp hc
    cases hr
    refine .claimed queryId recipient credit hparse hget rfl (Phase.run_send_balance hp) ?_
    rw [payout, Phase.run_cons, Phase.step_send] at hp
    split at hp
    · cases hp
      rfl
    · cases hp
  | other isEmpty =>
    obtain ⟨hempty, hr⟩ := require_bind_eq_ok.mp hc
    cases hr
    cases hp
    rw [hempty] at hparse
    exact .kept (.inr hparse) rfl rfl rfl

end Cases

/-! ## Paid once, as committed -/

/-- A settlement or a refund. -/
def paysOut (body : Slice) : Bool :=
  match AllowedMessageToEscrow.fromSlice body with
  | some (.escrowSettle _) | some (.escrowRefund _) => true
  | _ => false

def Entry.isPayout : Entry → Bool
  | .accepted _ body _ => paysOut body
  | _ => false

/-- What an accepted settlement of an escrow with the storage `s` looks like: `es` are the entries of
    the candidate set the requester committed to. -/
structure SettledAsCommitted (s : EscrowStorage) (es : List (List Bool × Cell))
    (sender : Address) (msg : EscrowSettle) (sent : List Sent) : Prop where
  arbiter : sender = s.arbiter
  hash : msg.resultHash = s.terms.expectedHash
  notArbiter : msg.winner ≠ s.arbiter
  legs : ∃ legs rest,
    sent = legMessages msg.queryId ((msg.winner, msg.winnerAmount) ::
        (s.terms.treasury, msg.base * s.terms.platformFeeBps / bpsDenom) :: legs) ++
      [leg s.requester rest msg.queryId] ∧
    msg.winner.toBits ∈ es.map Prod.fst ∧ (∀ l ∈ legs, l.1.toBits ∈ es.map Prod.fst) ∧
    msg.winnerAmount + msg.base * s.terms.platformFeeBps / bpsDenom + (legs.map Prod.snd).sum ≤
      s.escrowAmount

/-- Why an entry may stand where it stands: a settlement or a refund only if there was none before,
    a claim only for the payee of a message that came back, and nothing else sends anything. -/
def EntrySound (s : EscrowStorage) (es : List (List Bool × Cell)) (earlier : List Entry) :
    Entry → Prop
  | .accepted inMsg body sent =>
    match AllowedMessageToEscrow.fromSlice body with
    | some (.escrowSettle msg) =>
      (∀ e ∈ earlier, e.isPayout = false) ∧ SettledAsCommitted s es inMsg.senderAddress msg sent
    | some (.escrowRefund queryId) =>
      (∀ e ∈ earlier, e.isPayout = false) ∧ ∃ rest, sent = [leg s.requester rest queryId]
    | some (.escrowClaim queryId recipient) =>
      ∃ amount, sent = [leg recipient amount queryId] ∧
        ∃ m, .returned m ∈ earlier ∧ m.dest = recipient
    | _ => sent = []
  | _ => True

/-- No message of the run presents another dictionary under the requester's commitment. -/
def Binds (root : Option Cell) : Event → Prop
  | .receive _ body _ =>
    ∀ msg, AllowedMessageToEscrow.fromSlice body = some (.escrowSettle msg) →
      candidatesCommitment sha256 msg.candidates = candidatesCommitment sha256 root →
      msg.candidates = root
  | _ => True

/-- What no message changes. -/
structure SameTerms (s s' : EscrowStorage) : Prop where
  requester : s'.requester = s.requester
  arbiter : s'.arbiter = s.arbiter
  escrowAmount : s'.escrowAmount = s.escrowAmount
  deadline : s'.deadline = s.deadline
  terms : s'.terms = s.terms

theorem SameTerms.update {s s' : EscrowStorage} (h : SameTerms s s') (settled : Bool)
    (pending : Ledger Address) :
    SameTerms s { s' with settled := settled, pending := pending } :=
  ⟨h.requester, h.arbiter, h.escrowAmount, h.deadline, h.terms⟩

/-- The invariant: `s` is the storage the escrow was opened with. -/
structure PaysOnce (s : EscrowStorage) (es : List (List Bool × Cell)) (r : EscrowRun) : Prop where
  terms : SameTerms s r.escrow.storage
  unpaid : r.escrow.storage.settled = false → ∀ e ∈ r.log, e.isPayout = false
  keys : ∀ a n, r.escrow.storage.pending.get a = some n →
    ∃ m, Entry.returned m ∈ r.log ∧ m.dest = a
  origin : ∀ m, m ∈ r.escrow.outbound ∨ .delivered m ∈ r.log ∨ .returned m ∈ r.log →
    ∃ inMsg body sent, .accepted inMsg body sent ∈ r.log ∧ m ∈ sent
  sound : History.Justified (EntrySound s es) r.log

section PaysOnce

variable {sha256} {s : EscrowStorage} {es : List (List Bool × Cell)}
  {root : Option Cell} {r : EscrowRun} {inMsg : InMessage} {body : Slice}

variable {entry : Entry} {sent : List Sent}

/-- An entry that is no payout and brings no new message. -/
theorem PaysOnce.append (h : PaysOnce s es r) {escrow : Escrow} {toppedUp : Nat}
    (hterms : SameTerms s escrow.storage)
    (hunpaid : escrow.storage.settled = false → r.escrow.storage.settled = false ∧ entry.isPayout = false)
    (hkeys : ∀ a n, escrow.storage.pending.get a = some n →
      r.escrow.storage.pending.get a = some n ∨ ∃ m, entry = .returned m ∧ m.dest = a)
    (horigin : ∀ m, m ∈ escrow.outbound ∨ entry = .delivered m ∨ entry = .returned m →
      m ∈ r.escrow.outbound ∨ ∃ inMsg body sent, entry = .accepted inMsg body sent ∧ m ∈ sent)
    (hsound : EntrySound s es r.log entry) :
    PaysOnce s es ⟨escrow, r.log ++ [entry], toppedUp⟩ := by
  refine ⟨hterms, ?_, ?_, ?_, h.sound.concat hsound⟩
  · intro hsettled
    obtain ⟨hbefore, hentry⟩ := hunpaid hsettled
    exact List.forall_mem_append.mpr ⟨h.unpaid hbefore, List.forall_mem_singleton.mpr hentry⟩
  · intro a n hget
    rcases hkeys a n hget with hold | ⟨m, rfl, hdest⟩
    · obtain ⟨m, hm, hdest⟩ := h.keys a n hold
      exact ⟨m, List.mem_append_left _ hm, hdest⟩
    · exact ⟨m, List.mem_append_right _ (List.mem_singleton_self _), hdest⟩
  · intro m hm
    have hcase : (m ∈ r.escrow.outbound ∨ .delivered m ∈ r.log ∨ .returned m ∈ r.log) ∨
        ∃ inMsg body sent, entry = .accepted inMsg body sent ∧ m ∈ sent := by
      simp only [List.mem_append, List.mem_singleton] at hm
      rcases hm with hout | (hlog | hnew) | (hlog | hnew)
      · exact (horigin m (.inl hout)).imp_left .inl
      · exact .inl (.inr (.inl hlog))
      · exact (horigin m (.inr (.inl hnew.symm))).imp_left .inl
      · exact .inl (.inr (.inr hlog))
      · exact (horigin m (.inr (.inr hnew.symm))).imp_left .inl
    rcases hcase with hold | ⟨inMsg, body, sent, rfl, hmem⟩
    · obtain ⟨inMsg, body, sent, hentry, hmem⟩ := h.origin m hold
      exact ⟨inMsg, body, sent, List.mem_append_left _ hentry, hmem⟩
    · exact ⟨inMsg, body, sent, List.mem_append_right _ (List.mem_singleton_self _), hmem⟩

/-- The checks of the contract, in terms of what the escrow was opened with. -/
theorem settledAsCommitted {storage : EscrowStorage} {msg : EscrowSettle}
    {legs : List (Address × Nat)} {rest : Nat}
    (hterms : SameTerms s storage)
    (hsettles : Settles sha256 storage inMsg.senderAddress msg (es.map Prod.fst) legs) :
    SettledAsCommitted s es inMsg.senderAddress msg
      (legMessages msg.queryId (fixedLegs storage msg legs) ++
        [leg storage.requester rest msg.queryId]) := by
  have hfee := hsettles.fee
  have hcovered := hsettles.covered
  rw [hterms.terms] at hfee
  rw [hfee, hterms.escrowAmount] at hcovered
  refine ⟨hsettles.sender.trans hterms.arbiter, ?_, ?_, legs, rest, ?_, hsettles.winner,
    hsettles.payee, hcovered⟩
  · rw [hsettles.hash, hterms.terms]
  · rw [← hterms.arbiter]
    exact hsettles.notArbiter
  · rw [fixedLegs, hterms.terms, hterms.requester, hfee]

theorem entrySound_accepted (hset : Holds root addressKeyBits es)
    (hhash : s.terms.candidatesHash = candidatesCommitment sha256 root) (h : PaysOnce s es r)
    {stays : Bool} (hbinds : Binds sha256 root (.receive inMsg body stays)) {e' : Escrow}
    (hcase : Accepted sha256 r.escrow inMsg body e' sent) :
    EntrySound s es r.log (.accepted inMsg body sent) := by
  rw [EntrySound]
  cases hcase with
  | settled msg legs rest hparse hunsettled hcommitted hsettles hstorage hbalance hsent =>
    rw [hparse, hsent]
    refine ⟨h.unpaid hunsettled, settledAsCommitted h.terms (hsettles es ?_)⟩
    rw [hbinds msg hparse (by rw [hcommitted, h.terms.terms, hhash])]
    exact hset
  | refunded queryId rest hparse hunsettled hstorage hbalance hsent =>
    rw [hparse, hsent, h.terms.requester]
    exact ⟨h.unpaid hunsettled, rest, rfl⟩
  | claimed queryId recipient credit hparse hget hstorage hbalance hsent =>
    rw [hparse, hsent]
    exact ⟨credit, rfl, h.keys recipient credit hget⟩
  | kept hparse hstorage hbalance hsent =>
    rcases hparse with ⟨queryId, hparse⟩ | hparse
    all_goals rw [hparse, hsent]

/-- What an accepted message leaves in the storage. -/
theorem accepted_storage {e e' : Escrow} (hcase : Accepted sha256 e inMsg body e' sent) :
    e'.storage = { e.storage with
      settled := e.storage.settled || paysOut body, pending := e'.storage.pending } ∧
    ∀ a n, e'.storage.pending.get a = some n → e.storage.pending.get a = some n := by
  unfold paysOut
  cases hcase with
  | settled msg legs rest hparse hunsettled hcommitted hsettles hstorage hbalance hsent
  | refunded queryId rest hparse hunsettled hstorage hbalance hsent =>
    rw [hstorage, hparse, Bool.or_true]
    exact ⟨rfl, fun a n hget => hget⟩
  | claimed queryId recipient credit hparse hget hstorage hbalance hsent =>
    rw [hstorage, hparse, Bool.or_false]
    refine ⟨rfl, fun a n hget' => ?_⟩
    by_cases ha : a = recipient
    · rw [ha, Ledger.get_remove_self] at hget'
      cases hget'
    · rwa [Ledger.get_remove_of_ne _ ha] at hget'
  | kept hparse hstorage hbalance hsent =>
    rw [hstorage]
    rcases hparse with ⟨queryId, hparse⟩ | hparse
    all_goals
      rw [hparse, Bool.or_false]
      exact ⟨rfl, fun a n hget => hget⟩

theorem paysOnce_receive (hset : Holds root addressKeyBits es)
    (hhash : s.terms.candidatesHash = candidatesCommitment sha256 root) (h : PaysOnce s es r)
    {stays : Bool} (hbinds : Binds sha256 root (.receive inMsg body stays)) :
    PaysOnce s es (r.receive sha256 inMsg body stays) := by
  unfold EscrowRun.receive
  split
  · rename_i e' htransact
    have hcase := accepted_cases htransact
    obtain ⟨hstorage, hkeys⟩ := accepted_storage hcase
    have hout := Account.transact_outbound htransact
    refine h.append ?_ ?_ ?_ ?_ (entrySound_accepted hset hhash h hbinds hcase)
    · rw [hstorage]
      exact h.terms.update _ _
    · intro hunsettled
      rw [hstorage] at hunsettled
      exact Bool.or_eq_false_iff.mp hunsettled
    · exact fun a n hget => .inl (hkeys a n hget)
    · rintro m (hm | hm | hm)
      · rw [hout] at hm
        rcases List.mem_append.mp hm with hold | hnew
        · exact .inl hold
        · exact .inr ⟨_, _, _, rfl, hnew⟩
      · cases hm
      · cases hm
  · refine h.append h.terms (fun hunsettled => ⟨hunsettled, rfl⟩) (fun a n hget => .inl hget) ?_
      trivial
    rintro m (hm | hm | hm)
    · exact .inl hm
    · cases hm
    · cases hm

theorem paysOnce_deliver (h : PaysOnce s es r) (index : Nat) :
    PaysOnce s es (step sha256 r (.deliver index)) := by
  rw [step]
  split
  · exact h
  · rename_i m hm
    refine h.append h.terms (fun hunsettled => ⟨hunsettled, rfl⟩) (fun a n hget => .inl hget) ?_
      trivial
    rintro m' (hm' | hm' | hm')
    · exact .inl (List.mem_of_mem_eraseIdx hm')
    · cases hm'
      exact .inl (List.mem_of_getElem? hm)
    · cases hm'

theorem paysOnce_bounce (h : PaysOnce s es r) (index : Nat) :
    PaysOnce s es (step sha256 r (.bounce index)) := by
  rw [step]
  split
  · exact h
  · rename_i m hm
    split
    · refine h.append ?_ (fun hunsettled => ⟨hunsettled, rfl⟩) ?_ ?_ trivial
      · exact h.terms.update _ _
      · intro a n hget
        unfold onBouncedMessage Ledger.credit at hget
        by_cases ha : a = m.dest
        · exact .inr ⟨m, rfl, ha.symm⟩
        · rw [Ledger.get_set_of_ne _ _ ha] at hget
          exact .inl hget
      · rintro m' (hm' | hm' | hm')
        · exact .inl (List.mem_of_mem_eraseIdx hm')
        · cases hm'
        · cases hm'
          exact .inl (List.mem_of_getElem? hm)
    · exact h

/-- The step lemma. -/
theorem step_paysOnce (hset : Holds root addressKeyBits es)
    (hhash : s.terms.candidatesHash = candidatesCommitment sha256 root) (e : Event)
    (h : PaysOnce s es r) (hbinds : Binds sha256 root e) : PaysOnce s es (step sha256 r e) := by
  cases e with
  | receive inMsg body stays => exact paysOnce_receive hset hhash h hbinds
  | deliver index => exact paysOnce_deliver h index
  | bounce index => exact paysOnce_bounce h index

theorem paysOnce_opened (es : List (List Bool × Cell)) (requester arbiter : Address)
    (escrowAmount deadline : Nat) (terms : EscrowTerms) (code balance : Nat) :
    PaysOnce (openedStorage requester arbiter escrowAmount deadline terms) es
      (opened (openedStorage requester arbiter escrowAmount deadline terms) code balance) := by
  refine ⟨⟨rfl, rfl, rfl, rfl, rfl⟩, nofun, nofun, ?_, History.justified_nil⟩
  rintro m (hm | hm | hm)
  all_goals cases hm

/-- A payout is never preceded by another. -/
theorem EntrySound.first {earlier : List Entry} (h : EntrySound s es earlier entry)
    (hpays : entry.isPayout = true) :
    ∀ e ∈ earlier, e.isPayout = false := by
  cases entry with
  | accepted inMsg body sent =>
    change paysOut body = true at hpays
    rw [EntrySound] at h
    unfold paysOut at hpays
    split at hpays
    case h_1 hparse | h_2 hparse =>
      rw [hparse] at h
      exact h.1
    case h_3 => cases hpays
  | rejected inMsg body | delivered m | returned m => cases hpays

end PaysOnce

/-- Over every run of an escrow that binds the candidate set `es`: at most one settlement or refund
    is accepted; every accepted message is sound; whatever is on its way, was delivered or came back
    was sent by an accepted message; and a rejected message leaves the storage as it was. The run's
    messages are taken to present no second dictionary under the requester's commitment. -/
theorem pays_once_as_committed (requester arbiter : Address)
    (escrowAmount deadline : Nat) (terms : EscrowTerms) (code balance : Nat) (root : Option Cell)
    (es : List (List Bool × Cell)) (hset : Holds root addressKeyBits es)
    (hhash : terms.candidatesHash = candidatesCommitment sha256 root) (events : List Event)
    (hbinds : ∀ e ∈ events, Binds sha256 root e) (r : EscrowRun)
    (hr : r = Run.final (step sha256)
      (opened (openedStorage requester arbiter escrowAmount deadline terms) code balance) events) :
    r.log.countP Entry.isPayout ≤ 1 ∧
      History.Justified
        (EntrySound (openedStorage requester arbiter escrowAmount deadline terms) es) r.log ∧
      (∀ m, m ∈ r.escrow.outbound ∨ .delivered m ∈ r.log ∨ .returned m ∈ r.log →
        ∃ inMsg body sent, .accepted inMsg body sent ∈ r.log ∧ m ∈ sent) ∧
      ∀ inMsg body stays, (∀ e', r.escrow.transact inMsg.valueCoins
          (onInternalMessage sha256 r.escrow.storage inMsg body) ≠ .ok e') →
        (step sha256 r (.receive inMsg body stays)).escrow.storage = r.escrow.storage := by
  have hinv : PaysOnce (openedStorage requester arbiter escrowAmount deadline terms) es r := by
    rw [hr]
    refine (Run.always_of_guarded (G := fun _ e => Binds sha256 root e) ?_
      (paysOnce_opened es requester arbiter escrowAmount deadline terms code balance)
      (Run.guarded_of_forall (fun e he _ => hbinds e he) _)).last
    exact fun r e h hb => step_paysOnce hset hhash e h hb
  refine ⟨hinv.sound.countP_le_one fun _ _ h => h.first, hinv.sound, hinv.origin, ?_⟩
  intro inMsg body stays hrejected
  rw [step, EscrowRun.receive]
  split
  · rename_i e' htransact
    exact absurd htransact (hrejected e')
  · rfl

/-! ### A settlement whose winner cannot be paid at first

  The winner's payout comes back, is claimed by a stranger on the winner's behalf, and arrives. -/

def demoCandidates : List WalletAddress :=
  [⟨0, 1⟩, ⟨0, 2⟩]

def demoTerms : EscrowTerms where
  treasury := ⟨0, 7⟩
  expectedHash := 5
  candidatesHash := (Settlement.candidatesCommitment foldDigest demoCandidates).getD 0
  paramsVersion := 1
  platformFeeBps := 500
  participationCommissionBps := 1000

def demoStorage : EscrowStorage :=
  openedStorage ⟨0, 8⟩ ⟨0, 9⟩ 2000000000 1000 demoTerms

/-- 1 TON to the winner, 0.05 TON to the treasury, 0.1 TON to a verifier. -/
def demoSettle : Cell :=
  (Settlement.buildEscrowSettle 1 5 ⟨0, 1⟩ 1000000000 1000000000 50000000
    [⟨⟨0, 2⟩, 100000000⟩] demoCandidates).getD Cell.empty

def demoClaim : Cell :=
  ((Cell.empty.storeUint opEscrowClaim 32).storeUint 2 64).storeAddress ⟨0, 1⟩

def demoRun : List Event :=
  [.receive (.sent ⟨0, 9⟩ 0 10) demoSettle.toSlice false,
   .bounce 0,
   .receive (.sent ⟨0, 3⟩ 0 20) demoClaim.toSlice false,
   .deliver 3]

def demoFinal : EscrowRun :=
  Run.final (step foldDigest) (opened demoStorage 0 2100000000) demoRun

theorem demoRun_pays_once :
    demoFinal.log.countP Entry.isPayout = 1 ∧
      ∃ es, History.Justified (EntrySound demoStorage es) demoFinal.log := by
  refine ⟨by decide +kernel, ?_⟩
  have hsome : (Settlement.buildEscrowSettle 1 5 ⟨0, 1⟩ 1000000000 1000000000 50000000
      [⟨⟨0, 2⟩, 100000000⟩] demoCandidates).isSome := by decide +kernel
  obtain ⟨body, hbody⟩ := Option.isSome_iff_exists.mp hsome
  have hdemo : demoSettle = body := by rw [demoSettle, hbody, Option.getD_some]
  obtain ⟨proot, croot, -, hroot, hparse⟩ := Settlement.fromSlice_buildEscrowSettle hbody
    (by norm_num) (by norm_num) (by norm_num)
  have hhash : demoTerms.candidatesHash = candidatesCommitment foldDigest croot := by
    rw [demoTerms, Settlement.candidatesCommitment_eq hroot, Option.getD_some]
  have hbinds : ∀ e ∈ demoRun, Binds foldDigest croot e := by
    have hclaim : paysOut demoClaim.toSlice = false := by decide +kernel
    rw [demoRun, hdemo]
    intro e he
    simp only [List.mem_cons, List.not_mem_nil, or_false] at he
    rcases he with rfl | rfl | rfl | rfl
    · intro msg hmsg _
      rw [hparse] at hmsg
      cases hmsg
      rfl
    · trivial
    · intro msg hmsg _
      rw [paysOut, hmsg] at hclaim
      cases hclaim
    · trivial
  exact ⟨_, (pays_once_as_committed foldDigest ⟨0, 8⟩ ⟨0, 9⟩ 2000000000 1000 demoTerms 0
    2100000000 croot _ (holds_of_buildDict hroot) hhash demoRun hbinds demoFinal rfl).2.1⟩

end Duckton.Ton.EscrowRuns
