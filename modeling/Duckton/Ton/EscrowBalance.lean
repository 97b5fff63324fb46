/-
  Where the coins of an escrow are.

  From the settlement on a coin of the escrow is in the storage buffer, in the pull ledger, on its
  way to a payee, or delivered. A payout that comes back moves from "on its way" to the ledger, a
  claim moves it back; only a delivery takes it out of the circle. So per payee the sum of the three
  stays what the settlement or the refund assigned, however often payouts bounce and are claimed.

  Fees and rent are not modelled. Coins that messages bring after the settlement and leave behind
  are counted in `toppedUp`: those of a top-up, but also those attached to a claim.
-/
import Duckton.Ton.EscrowRuns

namespace Duckton.Ton.EscrowRuns

open Tvm Duckton.Proto JobEscrow

/-! ## Coins by payee -/

variable (a : Address)

/-- The coins of `m` that are for `a`. -/
def coinsFor (m : Sent) : Nat :=
  if m.dest = a then m.value else 0

def valueTo (ms : List Sent) : Nat :=
  (ms.map (coinsFor a)).sum

/-- What an entry assigns to `a`: only a settlement or a refund assigns anything. -/
def Entry.assigned : Entry → Nat
  | .accepted _ body sent => if paysOut body then valueTo a sent else 0
  | _ => 0

def Entry.received : Entry → Nat
  | .delivered m => coinsFor a m
  | _ => 0

def assigned (log : List Entry) : Nat :=
  (log.map (Entry.assigned a)).sum

def received (log : List Entry) : Nat :=
  (log.map (Entry.received a)).sum

@[simp] theorem valueTo_nil : valueTo a [] = 0 := rfl

@[simp] theorem valueTo_append (ms ms' : List Sent) :
    valueTo a (ms ++ ms') = valueTo a ms + valueTo a ms' := by
  simp [valueTo]

@[simp] theorem valueTo_leg (a recipient : Address) (amount queryId : Nat) :
    valueTo a [leg recipient amount queryId] = if recipient = a then amount else 0 := by
  simp [valueTo, coinsFor, leg]

variable (log : List Entry) (entry : Entry)

@[simp] theorem assigned_concat :
    assigned a (log ++ [entry]) = assigned a log + entry.assigned a := by
  simp [assigned]

@[simp] theorem received_concat :
    received a (log ++ [entry]) = received a log + entry.received a := by
  simp [received]

/-- A message that leaves the wire takes its coins with it. -/
theorem valueTo_eraseIdx {ms : List Sent} {index : Nat} {m : Sent} (a : Address)
    (h : ms[index]? = some m) : coinsFor a m + valueTo a (ms.eraseIdx index) = valueTo a ms := by
  obtain ⟨hlt, hm⟩ := List.getElem?_eq_some_iff.mp h
  have hlt' : index < (ms.map (coinsFor a)).length := by rwa [List.length_map]
  have hsum := List.CommMonoid.add_sum_eraseIdx hlt'
  rwa [List.getElem_map, hm, List.eraseIdx_map] at hsum

/-! ## The invariant -/

structure Conserved (r : EscrowRun) : Prop where
  fresh : r.escrow.storage.settled = false →
    r.escrow.storage.pending = Ledger.empty ∧ r.escrow.outbound = []
  bounces : ∀ m ∈ r.escrow.outbound, m.bounce = true
  balance : r.escrow.storage.settled = true →
    r.escrow.balance = minTonsForStorage + r.escrow.storage.pending.total + r.toppedUp
  payee : ∀ a, received a r.log + valueTo a r.escrow.outbound + r.escrow.storage.pending.owed a =
    assigned a r.log

section Conserved

variable {sha256 : Bytes → BitVec 256} {r : EscrowRun} {inMsg : InMessage} {body : Slice}

theorem Conserved.settled (h : Conserved r)
    (hused : r.escrow.storage.pending = Ledger.empty → r.escrow.outbound ≠ []) :
    r.escrow.storage.settled = true := by
  by_contra hsettled
  obtain ⟨hpending, hnone⟩ := h.fresh (Bool.eq_false_of_not_eq_true hsettled)
  exact hused hpending hnone

theorem topUp_of_settled (h : r.escrow.storage.settled = true) (value : Nat) :
    r.topUp value = r.toppedUp + value := by
  rw [EscrowRun.topUp, h, if_pos rfl]

variable {escrow : Escrow} {queryId : Nat} {recipient : Address}

section

variable (h : Conserved r)

include h

/-- Coins that stay and change nothing else. -/
theorem Conserved.keep (value : Nat) {entry : Entry}
    (hentry : ∀ a, entry.assigned a = 0 ∧ entry.received a = 0)
    (hstorage : escrow.storage = r.escrow.storage) (hout : escrow.outbound = r.escrow.outbound)
    (hbalance : escrow.balance = r.escrow.balance + value) :
    Conserved ⟨escrow, r.log ++ [entry], r.topUp value⟩ := by
  refine ⟨?_, ?_, ?_, ?_⟩
  · show escrow.storage.settled = false → escrow.storage.pending = _ ∧ escrow.outbound = _
    rw [hstorage, hout]
    exact h.fresh
  · show ∀ m ∈ escrow.outbound, _
    rw [hout]
    exact h.bounces
  · show escrow.storage.settled = true → escrow.balance = _ + escrow.storage.pending.total + _
    intro hsettled
    rw [hstorage] at hsettled ⊢
    have hbefore := h.balance hsettled
    show _ = _ + _ + r.topUp value
    rw [topUp_of_settled hsettled]
    omega
  · intro a
    have hbefore := h.payee a
    obtain ⟨hassigned, hreceived⟩ := hentry a
    show received a (r.log ++ [entry]) + valueTo a escrow.outbound + escrow.storage.pending.owed a =
      assigned a (r.log ++ [entry])
    rw [received_concat, assigned_concat, hassigned, hreceived, hout, hstorage]
    exact hbefore

/-- A settlement or a refund: everything above the buffer is assigned. -/
theorem Conserved.payOut (hunsettled : r.escrow.storage.settled = false)
    {sent : List Sent} (hpays : paysOut body = true)
    (hstorage : escrow.storage = { r.escrow.storage with settled := true })
    (hbalance : escrow.balance = minTonsForStorage)
    (hout : escrow.outbound = r.escrow.outbound ++ sent)
    (hbounces : ∀ m ∈ sent, m.bounce = true) :
    Conserved ⟨escrow, r.log ++ [.accepted inMsg body sent], r.topUp inMsg.valueCoins⟩ := by
  obtain ⟨hpending, hnone⟩ := h.fresh hunsettled
  rw [hnone, List.nil_append] at hout
  refine ⟨?_, ?_, ?_, ?_⟩
  · intro hsettled
    change escrow.storage.settled = false at hsettled
    rw [hstorage] at hsettled
    cases hsettled
  · show ∀ m ∈ escrow.outbound, _
    rw [hout]
    exact hbounces
  · intro _
    show escrow.balance = _ + escrow.storage.pending.total + r.topUp inMsg.valueCoins
    rw [hbalance, hstorage, EscrowRun.topUp, hunsettled, hpending]
    rfl
  · intro a
    have hbefore := h.payee a
    rw [hnone, hpending] at hbefore
    show received a (r.log ++ _) + valueTo a escrow.outbound + escrow.storage.pending.owed a =
      assigned a (r.log ++ _)
    rw [received_concat, assigned_concat, hout, hstorage, hpending, Entry.assigned, if_pos hpays,
      ← hbefore]
    show received a r.log + 0 + valueTo a sent + _ = received a r.log + 0 + _ + valueTo a sent
    omega

/-- A claim: a credit goes on its way. -/
theorem Conserved.claim {credit : Nat}
    (hget : r.escrow.storage.pending.get recipient = some credit) {sent : List Sent}
    (hpays : paysOut body = false)
    (hstorage : escrow.storage =
      { r.escrow.storage with pending := r.escrow.storage.pending.remove recipient })
    (hbalance : escrow.balance + credit = r.escrow.balance + inMsg.valueCoins)
    (hout : escrow.outbound = r.escrow.outbound ++ sent)
    (hsent : sent = [leg recipient credit queryId]) :
    Conserved ⟨escrow, r.log ++ [.accepted inMsg body sent], r.topUp inMsg.valueCoins⟩ := by
  have hsettled := h.settled fun hempty => by rw [hempty] at hget; cases hget
  have howed := Ledger.owed_of_get hget
  refine ⟨?_, ?_, ?_, ?_⟩
  · intro hfalse
    change escrow.storage.settled = false at hfalse
    rw [hstorage] at hfalse
    exact absurd (hsettled.symm.trans hfalse) (by decide)
  · show ∀ m ∈ escrow.outbound, _
    rw [hout, hsent]
    exact List.forall_mem_append.mpr ⟨h.bounces, List.forall_mem_singleton.mpr rfl⟩
  · intro _
    have hbefore := h.balance hsettled
    have htotal := r.escrow.storage.pending.total_remove recipient
    show escrow.balance = _ + escrow.storage.pending.total + r.topUp inMsg.valueCoins
    rw [hstorage, topUp_of_settled hsettled]
    dsimp only
    omega
  · intro a
    have hbefore := h.payee a
    show received a (r.log ++ _) + valueTo a escrow.outbound + escrow.storage.pending.owed a =
      assigned a (r.log ++ _)
    rw [received_concat, assigned_concat, hout, hsent, hstorage, valueTo_append, valueTo_leg,
      Ledger.owed_remove, Entry.assigned, hpays, ← hbefore]
    by_cases ha : recipient = a
    · subst ha
      rw [if_pos rfl, if_pos rfl, howed]
      show _ + 0 + (_ + _) + 0 = _ + 0
      omega
    · rw [if_neg ha, if_neg ha]
      rfl

theorem conserved_receive (stays : Bool) :
    Conserved (r.receive sha256 inMsg body stays) := by
  unfold EscrowRun.receive
  split
  · rename_i e' htransact
    have hout := Account.transact_outbound htransact
    have hcase := accepted_cases htransact
    generalize e'.outbound.drop r.escrow.outbound.length = sent at hout hcase ⊢
    cases hcase with
    | settled msg legs rest hparse hunsettled hcommitted hsettles hstorage hbalance hsent =>
      refine h.payOut hunsettled ?_ hstorage hbalance hout ?_
      · rw [paysOut, hparse]
      · rw [hsent]
        exact List.forall_mem_append.mpr
          ⟨List.forall_mem_map.mpr fun _ _ => rfl, List.forall_mem_singleton.mpr rfl⟩
    | refunded queryId rest hparse hunsettled hstorage hbalance hsent =>
      refine h.payOut hunsettled ?_ hstorage hbalance hout ?_
      · rw [paysOut, hparse]
      · rw [hsent]
        exact List.forall_mem_singleton.mpr rfl
    | claimed queryId recipient credit hparse hget hstorage hbalance hsent =>
      refine h.claim hget ?_ hstorage hbalance hout hsent
      rw [paysOut, hparse]
    | kept hparse hstorage hbalance hsent =>
      subst hsent
      rw [List.append_nil] at hout
      refine h.keep inMsg.valueCoins (fun a => ⟨?_, rfl⟩) hstorage hout hbalance
      rw [Entry.assigned, valueTo_nil, ite_self]
  · exact h.keep _ (fun a => ⟨rfl, rfl⟩) rfl rfl rfl

theorem conserved_deliver (index : Nat) :
    Conserved (step sha256 r (.deliver index)) := by
  rw [step]
  split
  · exact h
  · rename_i m hm
    have hsettled := h.settled fun _ hnone => by rw [hnone] at hm; cases hm
    refine ⟨?_, ?_, h.balance, ?_⟩
    · exact fun hfalse => absurd (hsettled.symm.trans hfalse) (by decide)
    · exact fun m' hm' => h.bounces m' (List.mem_of_mem_eraseIdx hm')
    · intro a
      have hbefore := h.payee a
      have hwire := valueTo_eraseIdx a hm
      rw [received_concat, assigned_concat]
      show received a r.log + coinsFor a m + valueTo a (r.escrow.outbound.eraseIdx index) +
        r.escrow.storage.pending.owed a = assigned a r.log + 0
      omega

/-- What a bounce does: the ledger owes the payee just what came back. -/
theorem step_bounce {index : Nat} {m : Sent}
    (hm : r.escrow.outbound[index]? = some m) :
    step sha256 r (.bounce index) =
      { r with
        escrow := { r.escrow with
          storage := { r.escrow.storage with
            pending := r.escrow.storage.pending.credit m.dest m.value }
          balance := r.escrow.balance + m.value
          outbound := r.escrow.outbound.eraseIdx index }
        log := r.log ++ [.returned m] } := by
  have hbounce := h.bounces m (List.mem_of_getElem? hm)
  rw [step, hm]
  dsimp only
  rw [if_pos hbounce]
  rfl

theorem conserved_bounce (index : Nat) :
    Conserved (step sha256 r (.bounce index)) := by
  cases hm : r.escrow.outbound[index]? with
  | none =>
    rw [step, hm]
    exact h
  | some m =>
    have hsettled := h.settled fun _ hnone => by rw [hnone] at hm; cases hm
    rw [step_bounce h hm]
    refine ⟨?_, ?_, ?_, ?_⟩
    · exact fun hfalse => absurd (hsettled.symm.trans hfalse) (by decide)
    · exact fun m' hm' => h.bounces m' (List.mem_of_mem_eraseIdx hm')
    · intro _
      have hbefore := h.balance hsettled
      dsimp only
      rw [Ledger.total_credit]
      omega
    · intro a
      have hbefore := h.payee a
      have hwire := valueTo_eraseIdx a hm
      rw [coinsFor] at hwire
      rw [received_concat, assigned_concat, Ledger.owed_credit]
      show received a r.log + 0 + valueTo a (r.escrow.outbound.eraseIdx index) + (_ + _) =
        assigned a r.log + 0
      omega

end

/-- The step lemma. -/
theorem step_conserved (e : Event) (h : Conserved r) : Conserved (step sha256 r e) := by
  cases e with
  | receive inMsg body stays => exact conserved_receive h stays
  | deliver index => exact conserved_deliver h index
  | bounce index => exact conserved_bounce h index

theorem conserved_opened (requester arbiter : Address) (escrowAmount deadline : Nat)
    (terms : EscrowTerms) (code balance : Nat) :
    Conserved (opened (openedStorage requester arbiter escrowAmount deadline terms) code balance) :=
  ⟨fun _ => ⟨rfl, rfl⟩, nofun, nofun, fun _ => rfl⟩

/-! ## Claims -/

/-- What a claim does to an escrow that owes the payee something. -/
theorem claim_pays (h : Conserved r) (hparse : AllowedMessageToEscrow.fromSlice body = some
    (.escrowClaim queryId recipient))
    (howed : 0 < r.escrow.storage.pending.owed recipient) (stays : Bool) :
    (step sha256 r (.receive inMsg body stays)).escrow.storage =
        { r.escrow.storage with pending := r.escrow.storage.pending.remove recipient } ∧
      (step sha256 r (.receive inMsg body stays)).escrow.outbound = r.escrow.outbound ++
        [leg recipient (r.escrow.storage.pending.owed recipient) queryId] := by
  obtain ⟨credit, hget⟩ : ∃ credit, r.escrow.storage.pending.get recipient = some credit := by
    cases hget : r.escrow.storage.pending.get recipient with
    | none =>
      rw [Ledger.owed, hget] at howed
      exact absurd howed (Nat.lt_irrefl 0)
    | some credit => exact ⟨credit, rfl⟩
  have hcredit := Ledger.owed_of_get hget
  rw [hcredit] at howed ⊢
  have hfunds : credit ≤ r.escrow.balance + inMsg.valueCoins := by
    have hbalance := h.balance (h.settled fun hempty => by rw [hempty] at hget; cases hget)
    have htotal := r.escrow.storage.pending.owed_le_total recipient
    omega
  have hc : onInternalMessage sha256 r.escrow.storage inMsg body =
      .ok ({ r.escrow.storage with pending := r.escrow.storage.pending.remove recipient },
        [payout recipient credit queryId]) :=
    parsed_bind_eq_ok.mpr ⟨_, hparse, escrowClaim_eq_ok_iff.mpr ⟨credit, hget, howed, rfl⟩⟩
  have hp : (Phase.start (r.escrow.balance + inMsg.valueCoins)).run inMsg.valueCoins
      [payout recipient credit queryId] = some ((Phase.start
        (r.escrow.balance + inMsg.valueCoins)).pay recipient credit true ⟨queryId⟩) := by
    rw [payout, Phase.run_cons, Phase.step_send, Phase.start_remaining, if_pos hfunds,
      Option.bind_some, Phase.run_nil]
  have htransact := Account.transact_ok_iff.mpr ⟨_, _, _, hc, hp, rfl⟩
  simp only [step, EscrowRun.receive, htransact]
  exact ⟨rfl, rfl⟩

/-- A claim of nothing is rejected. -/
theorem claim_nothing (hparse : AllowedMessageToEscrow.fromSlice body = some
    (.escrowClaim queryId recipient))
    (howed : r.escrow.storage.pending.owed recipient = 0) (stays : Bool) :
    (step sha256 r (.receive inMsg body stays)).escrow.storage = r.escrow.storage ∧
      (step sha256 r (.receive inMsg body stays)).escrow.outbound = r.escrow.outbound := by
  have hthrown : ∀ p, onInternalMessage sha256 r.escrow.storage inMsg body ≠ .ok p := by
    intro p hc
    obtain ⟨msg, hmsg, hc⟩ := parsed_bind_eq_ok.mp hc
    rw [hparse] at hmsg
    cases hmsg
    obtain ⟨credit, hget, hpos, -⟩ := escrowClaim_eq_ok_iff.mp hc
    have hcredit := Ledger.owed_of_get hget
    omega
  rw [step, EscrowRun.receive]
  split
  · rename_i e' htransact
    obtain ⟨storage, actions, p, hc, -, -⟩ := Account.transact_ok_iff.mp htransact
    exact absurd hc (hthrown _)
  · exact ⟨rfl, rfl⟩

end Conserved

/-- Over every run of an escrow, however its payouts bounce and are claimed: from the settlement on
    the balance is the storage buffer, the credits and what was topped up since; per payee what was
    delivered, what is on its way and what the ledger owes add up to what was assigned; a bounce
    credits just its coins to the address it was sent to; a claim sends just the credit and removes
    it; and an accepted message neither makes nor loses a coin. -/
theorem conserved_through_bounces (sha256 : Bytes → BitVec 256) (requester arbiter : Address)
    (escrowAmount deadline : Nat) (terms : EscrowTerms) (code balance : Nat) (events : List Event)
    (r : EscrowRun)
    (hr : r = Run.final (step sha256)
      (opened (openedStorage requester arbiter escrowAmount deadline terms) code balance) events) :
    (r.escrow.storage.settled = true →
      r.escrow.balance = minTonsForStorage + r.escrow.storage.pending.total + r.toppedUp) ∧
    (∀ a, received a r.log + valueTo a r.escrow.outbound + r.escrow.storage.pending.owed a =
      assigned a r.log) ∧
    (∀ index m, r.escrow.outbound[index]? = some m →
      step sha256 r (.bounce index) =
        { r with
          escrow := { r.escrow with
            storage := { r.escrow.storage with
              pending := r.escrow.storage.pending.credit m.dest m.value }
            balance := r.escrow.balance + m.value
            outbound := r.escrow.outbound.eraseIdx index }
          log := r.log ++ [.returned m] }) ∧
    (∀ inMsg body stays queryId recipient,
      AllowedMessageToEscrow.fromSlice body = some (.escrowClaim queryId recipient) →
      (step sha256 r (.receive inMsg body stays)).escrow.storage =
        (if 0 < r.escrow.storage.pending.owed recipient then
          { r.escrow.storage with pending := r.escrow.storage.pending.remove recipient }
        else r.escrow.storage) ∧
      (step sha256 r (.receive inMsg body stays)).escrow.outbound = r.escrow.outbound ++
        (if 0 < r.escrow.storage.pending.owed recipient then
          [leg recipient (r.escrow.storage.pending.owed recipient) queryId] else [])) ∧
    (∀ inMsg body e', r.escrow.transact inMsg.valueCoins
        (onInternalMessage sha256 r.escrow.storage inMsg body) = .ok e' →
      e'.balance + (e'.outbound.map Message.value).sum =
        r.escrow.balance + inMsg.valueCoins + (r.escrow.outbound.map Message.value).sum) := by
  have hinv : Conserved r := by
    rw [hr]
    exact (Run.always_of_invariant (fun _ e h => step_conserved e h)
      (conserved_opened requester arbiter escrowAmount deadline terms code balance) events).last
  refine ⟨hinv.balance, hinv.payee, fun index m hm => step_bounce hinv hm, ?_, ?_⟩
  · intro inMsg body stays queryId recipient hparse
    by_cases howed : 0 < r.escrow.storage.pending.owed recipient
    · rw [if_pos howed, if_pos howed]
      exact claim_pays hinv hparse howed stays
    · rw [if_neg howed, if_neg howed, List.append_nil]
      exact claim_nothing hparse (Nat.eq_zero_of_not_pos howed) stays
  · intro inMsg body e' htransact
    exact Account.transact_conserves htransact

/-- The winner's payout bounces and is claimed: the winner gets what was assigned, once. -/
theorem demoRun_conserved :
    demoFinal.escrow.storage.settled = true ∧
      demoFinal.escrow.balance = minTonsForStorage + demoFinal.escrow.storage.pending.total ∧
      received ⟨0, 1⟩ demoFinal.log = 1000000000 ∧ assigned ⟨0, 1⟩ demoFinal.log = 1000000000 := by
  have hconserved := conserved_through_bounces foldDigest ⟨0, 8⟩ ⟨0, 9⟩ 2000000000 1000 demoTerms 0
    2100000000 demoRun demoFinal rfl
  obtain ⟨hsettled, htopped, hreceived, hrest⟩ : demoFinal.escrow.storage.settled = true ∧
      demoFinal.toppedUp = 0 ∧ received ⟨0, 1⟩ demoFinal.log = 1000000000 ∧
      valueTo ⟨0, 1⟩ demoFinal.escrow.outbound +
        demoFinal.escrow.storage.pending.owed ⟨0, 1⟩ = 0 := by decide +kernel
  have hbalance := hconserved.1 hsettled
  have hpayee := hconserved.2.1 ⟨0, 1⟩
  rw [htopped, Nat.add_zero] at hbalance
  refine ⟨hsettled, hbalance, hreceived, ?_⟩
  omega

end Duckton.Ton.EscrowRuns
