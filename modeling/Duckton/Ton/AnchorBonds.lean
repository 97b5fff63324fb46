/-
  The dispute bonds the record anchor holds.

  All bonds lie in one balance. A resolved dispute has one refund, on its way or accepted, and an
  open one has none; a refund that comes back opens its dispute again. So the balance always covers
  the bonds of the open disputes, and no bond is paid twice.

  The invariant is about the stored disputes, the balance and the refunds that did not come back,
  and is kept by three moves: a dispute is opened, is resolved, is opened again.
-/
import Duckton.Ton.AnchorRuns

namespace Duckton.Ton.RecordAnchor

open Tvm Duckton.Proto

/-! ## Bonds and refunds -/

def openBond (d : DisputeInfo) : Nat :=
  if d.status = .opened then d.bond else 0

/-- The bonds of all disputes with status 0. -/
def openBonds (s : AnchorStorage) : Nat :=
  Tally.tally openBond s.disputes

/-- The refunds that were accepted or may still be. -/
def AnchorRun.refunds (r : AnchorRun) : List Sent :=
  r.anchor.outbound ++ r.delivered

/-- How many of the refunds are for the dispute. -/
def refundsOf (id : UInt32) (ms : List Sent) : Nat :=
  ms.countP fun m => m.body.disputeId = id

/-- The refund pays the bond of a resolved dispute to whom the verdict gives it. -/
def Settled (s : AnchorStorage) (m : Sent) : Prop :=
  ∃ d, s.disputes.lookup m.body.disputeId = some d ∧ m.value = d.bond ∧
    (d.status = .upheld ∧ m.dest = d.challenger ∨
      d.status = .rejected ∧ m.dest = s.config.auth.treasury)

structure Custody (s : AnchorStorage) (balance : Nat) (refunds : List Sent) : Prop where
  covered : openBonds s ≤ balance
  settled : ∀ m ∈ refunds, Settled s m
  once : ∀ id, refundsOf id refunds ≤ 1
  bounceable : ∀ m ∈ refunds, m.bounce = true

variable {ms : List Sent} (d : DisputeInfo) {s : AnchorStorage} {m : Sent}

@[simp] theorem openBond_opened : openBond { d with status := .opened } = d.bond := by
  simp [openBond]

@[simp] theorem openBond_verdict (upheld : Bool) :
    openBond { d with status := verdict upheld } = 0 := by
  cases upheld <;> simp [openBond, verdict]

theorem openBonds_insert (s : AnchorStorage) (id : UInt32) (d : DisputeInfo) (next : UInt32) :
    openBonds { s with nextDisputeId := next, disputes := s.disputes.insert id d } +
      Tally.weight openBond (s.disputes.lookup id) = openBonds s + openBond d :=
  Tally.tally_insert openBond id d s.disputes

theorem Settled.not_opened {d : DisputeInfo} (h : Settled s m)
    (hd : s.disputes.lookup m.body.disputeId = some d) : d.status ≠ .opened ∧ m.value = d.bond := by
  obtain ⟨d', hd', hvalue, hstatus⟩ := h
  rw [hd, Option.some.injEq] at hd'
  subst hd'
  refine ⟨?_, hvalue⟩
  rcases hstatus with ⟨hstatus, -⟩ | ⟨hstatus, -⟩ <;> simp [hstatus]

/-- A refund stays settled when another dispute is written. -/
theorem Settled.insert (h : Settled s m) {id : UInt32}
    (hid : m.body.disputeId ≠ id) (d : DisputeInfo) (next : UInt32) :
    Settled { s with nextDisputeId := next, disputes := s.disputes.insert id d } m := by
  obtain ⟨d', hd', hpaid⟩ := h
  refine ⟨d', ?_, hpaid⟩
  rw [Tally.lookup_insert_ite, if_neg hid]
  exact hd'

theorem refundsOf_cons (id : UInt32) (m : Sent) (ms : List Sent) :
    refundsOf id (m :: ms) = refundsOf id ms + if m.body.disputeId = id then 1 else 0 := by
  simp [refundsOf, List.countP_cons]

theorem refundsOf_eq_zero {id : UInt32} {ms : List Sent}
    (h : ∀ m ∈ ms, m.body.disputeId ≠ id) : refundsOf id ms = 0 := by
  simpa [refundsOf, List.countP_eq_zero] using h

theorem ne_of_refundsOf_le {m m' : Sent}
    (h : refundsOf m.body.disputeId (m :: ms) ≤ 1) (hm' : m' ∈ ms) :
    m'.body.disputeId ≠ m.body.disputeId := by
  intro heq
  have hpos : 0 < refundsOf m.body.disputeId ms := by
    apply List.countP_pos_iff.mpr
    exact ⟨m', hm', by simpa using heq⟩
  rw [refundsOf_cons, if_pos rfl] at h
  omega

/-! ## The moves -/

namespace Custody

variable {s : AnchorStorage} {balance : Nat} {refunds : List Sent}

theorem perm {refunds' : List Sent} (h : Custody s balance refunds)
    (hperm : refunds'.Perm refunds) : Custody s balance refunds' := by
  refine ⟨h.covered, fun m hm => h.settled m (hperm.mem_iff.mp hm), ?_,
    fun m hm => h.bounceable m (hperm.mem_iff.mp hm)⟩
  intro id
  rw [refundsOf, hperm.countP_eq]
  exact h.once id

theorem mono {balance' : Nat} (h : Custody s balance refunds) (hle : balance ≤ balance') :
    Custody s balance' refunds :=
  ⟨Nat.le_trans h.covered hle, h.settled, h.once, h.bounceable⟩

/-- A new dispute brings its bond. -/
theorem dispute (h : Custody s balance refunds) (hs : ChainInv s) (next : UInt32) (d : DisputeInfo)
    (hopen : d.status = .opened) :
    Custody { s with nextDisputeId := next, disputes := s.disputes.insert s.nextDisputeId d }
      (balance + d.bond) refunds := by
  refine ⟨?_, ?_, h.once, h.bounceable⟩
  · have htally := openBonds_insert s s.nextDisputeId d next
    have hbond : openBond d = d.bond := by simp [openBond, hopen]
    have hcovered := h.covered
    omega
  · intro m hm
    obtain ⟨d', hd', -⟩ := h.settled m hm
    have hlt := (hs.ids m.body.disputeId).mp (by rw [hd']; rfl)
    refine (h.settled m hm).insert ?_ d next
    intro heq
    rw [heq] at hlt
    omega

/-- A verdict pays the bond of its dispute, which was not paid before. -/
theorem resolve {d : DisputeInfo} {id : UInt32} (h : Custody s (balance + d.bond) refunds)
    (hd : s.disputes.lookup id = some d) (hopen : d.status = .opened) (upheld : Bool) :
    Custody { s with disputes := s.disputes.insert id { d with status := verdict upheld } } balance
      (⟨bondRecipient s.config d upheld, d.bond, true, ⟨id⟩⟩ :: refunds) := by
  have hnone : ∀ m ∈ refunds, m.body.disputeId ≠ id := by
    rintro m hm rfl
    exact ((h.settled m hm).not_opened hd).1 hopen
  refine ⟨?_, ?_, ?_, ?_⟩
  · have htally := openBonds_insert s id { d with status := verdict upheld } s.nextDisputeId
    have hbond : openBond d = d.bond := by simp [openBond, hopen]
    have hcovered := h.covered
    rw [hd, Tally.weight_some, openBond_verdict, hbond] at htally
    omega
  · intro m hm
    rcases List.mem_cons.mp hm with rfl | hm
    · refine ⟨{ d with status := verdict upheld }, by simp, rfl, ?_⟩
      cases upheld <;> simp [verdict, bondRecipient]
    · exact (h.settled m hm).insert (hnone m hm) _ s.nextDisputeId
  · intro id'
    rw [refundsOf_cons]
    by_cases hid : id = id'
    · subst hid
      simp [refundsOf_eq_zero hnone]
    · rw [if_neg hid]
      exact h.once id'
  · simpa using h.bounceable

/-- A refund that comes back brings the bond of a dispute that was resolved. -/
theorem returned (h : Custody s balance (m :: refunds)) :
    Custody (onBouncedMessage s m.body) (balance + m.value) refunds := by
  have hsettled := h.settled m List.mem_cons_self
  obtain ⟨d, hd, -⟩ := h.settled m List.mem_cons_self
  obtain ⟨hresolved, hvalue⟩ := hsettled.not_opened hd
  rw [onBouncedMessage_of_found hd]
  refine ⟨?_, ?_, ?_, fun m' hm' => h.bounceable m' (List.mem_cons_of_mem m hm')⟩
  · have htally := openBonds_insert s m.body.disputeId { d with status := .opened }
      s.nextDisputeId
    have hcovered := h.covered
    rw [openBond_opened] at htally
    omega
  · intro m' hm'
    have hne := ne_of_refundsOf_le (h.once m.body.disputeId) hm'
    exact (h.settled m' (List.mem_cons_of_mem m hm')).insert hne _ s.nextDisputeId
  · intro id
    have honce := h.once id
    rw [refundsOf_cons] at honce
    omega

/-- Other data than the disputes and the config do not matter. -/
theorem frame {s' : AnchorStorage} (h : Custody s balance refunds)
    (hdisputes : s'.disputes = s.disputes) (hconfig : s'.config = s.config) :
    Custody s' balance refunds := by
  refine ⟨?_, ?_, h.once, h.bounceable⟩
  · rw [openBonds, hdisputes]
    exact h.covered
  · intro m hm
    rw [Settled, hdisputes, hconfig]
    exact h.settled m hm

end Custody

/-! ## Runs -/

/-- What is on the wire at an index, and what is on it without that message. -/
theorem perm_eraseIdx {index : Nat} {m : Sent} (h : ms[index]? = some m) :
    ms.Perm (m :: ms.eraseIdx index) := by
  obtain ⟨hlt, rfl⟩ := List.getElem?_eq_some_iff.mp h
  exact (List.getElem_cons_eraseIdx_perm hlt).symm

/-- The invariant of a run. -/
def BondInv (r : AnchorRun) : Prop :=
  ChainInv r.storage ∧ Custody r.storage r.anchor.balance r.refunds

section Steps

variable {sha256 : Bytes → BitVec 256} {r : AnchorRun} {inMsg : InMessage}
  {msg : AllowedMessageToAnchor} {s' : AnchorStorage} {actions : List AnchorAction}
  {p : Phase Address AnchorBondRefund Cell}

/-- A refund leaves with just the bond. -/
theorem run_refundBond {funds inValue amount : Nat} {dest : Address} {id : UInt32}
    (h : (Phase.start funds).run inValue [refundBond dest amount id] = some p) :
    funds = p.balance + amount ∧ p.sent = [⟨dest, amount, true, ⟨id⟩⟩] := by
  have hbalance := Phase.run_send_balance h
  refine ⟨hbalance.symm, ?_⟩
  rw [refundBond, Phase.run_cons, Phase.step_send] at h
  split at h
  · cases h
    rfl
  · cases h

theorem custody_accepted (hr : BondInv r) (h : Accepted sha256 r.storage inMsg msg s' actions)
    (hrun : (Phase.start (r.anchor.balance + inMsg.valueCoins)).run inMsg.valueCoins actions =
      some p) :
    Custody s' p.balance (r.anchor.outbound ++ p.sent ++ r.delivered) := by
  have hmore := hr.2.mono (Nat.le_add_right r.anchor.balance inMsg.valueCoins)
  -- all but a verdict send nothing
  have hsilent : p.balance = r.anchor.balance + inMsg.valueCoins → p.sent = [] →
      Custody s' (r.anchor.balance + inMsg.valueCoins) r.refunds →
      Custody s' p.balance (r.anchor.outbound ++ p.sent ++ r.delivered) := by
    intro hbalance hsent hc
    rw [hbalance, hsent, List.append_nil]
    exact hc
  cases h with
  | resolved queryId disputeId upheld dispute hfound hopen =>
    obtain ⟨hbalance, hsent⟩ := run_refundBond hrun
    rw [hbalance] at hmore
    refine (hmore.resolve hfound hopen upheld).perm ?_
    rw [hsent, List.append_assoc]
    exact List.perm_middle
  | disputed queryId epoch leaf proof root next hroot hproof hnext =>
    cases hrun
    exact hsilent rfl rfl (hr.2.dispute hr.1 next
      ⟨inMsg.senderAddress, epoch, leaf, inMsg.valueCoins, .opened⟩ rfl)
  | submitted | announced | upgraded | cancelled =>
    cases hrun
    exact hsilent rfl rfl (hmore.frame rfl rfl)
  | ignored =>
    cases hrun
    exact hsilent rfl rfl hmore

/-- The step lemma. -/
theorem BondInv.step (hr : BondInv r) (e : Event) : BondInv (step sha256 r e) := by
  refine ⟨(hr.1.step e).1, ?_⟩
  have hstep := step_cases sha256 r e
  generalize RecordAnchor.step sha256 r e = r' at hstep ⊢
  cases hstep with
  | accepted inMsg msg stays storage actions p haccepted hrun =>
    exact custody_accepted hr haccepted hrun
  | kept e coins => exact hr.2.mono (Nat.le_add_right _ coins)
  | delivered index m hm =>
    refine hr.2.perm ?_
    show (r.anchor.outbound.eraseIdx index ++ (r.delivered ++ [m])).Perm _
    rw [← List.append_assoc]
    refine (List.perm_append_singleton m _).trans ?_
    exact ((perm_eraseIdx hm).append_right r.delivered).symm
  | bounced index m hm =>
    have hout : Custody r.storage r.anchor.balance
        (m :: (r.anchor.outbound.eraseIdx index ++ r.delivered)) :=
      hr.2.perm ((perm_eraseIdx hm).append_right r.delivered).symm
    exact hout.returned

end Steps

theorem bondInv_deployed (config : AnchorConfig) (upgradeDelay : Nat) (code : Cell)
    (balance : Nat) : BondInv (deployed config upgradeDelay code balance) := by
  refine ⟨chainInv_deployed config upgradeDelay code balance, Nat.zero_le _, ?_, ?_, ?_⟩
  · simp [AnchorRun.refunds, deployed]
  · simp [AnchorRun.refunds, deployed, refundsOf]
  · simp [AnchorRun.refunds, deployed]

/-- Over every run from the deployment: the balance covers the bonds of all open disputes; each
    dispute has at most one refund that was accepted or may still be, of just its bond, to the
    challenger of an upheld dispute or to the treasury; and a refund that comes back opens the
    dispute it was sent for and leaves the others alone, and then no refund of it is out. -/
theorem bond_custody (sha256 : Bytes → BitVec 256) (config : AnchorConfig) (upgradeDelay : Nat)
    (code : Cell) (balance : Nat) (events : List Event) :
    let r := Run.final (step sha256) (deployed config upgradeDelay code balance) events
    openBonds r.storage ≤ r.anchor.balance ∧
    (∀ id, refundsOf id r.refunds ≤ 1) ∧
    (∀ m ∈ r.refunds, Settled r.storage m) ∧
    ∀ index m, r.anchor.outbound[index]? = some m →
      let r' := step sha256 r (.bounce index)
      ∃ d, r.storage.disputes.lookup m.body.disputeId = some d ∧ d.status ≠ .opened ∧
        r'.storage = { r.storage with
          disputes := r.storage.disputes.insert m.body.disputeId { d with status := .opened } } ∧
        r'.anchor.balance = r.anchor.balance + d.bond ∧
        refundsOf m.body.disputeId r'.refunds = 0 := by
  intro r
  have hinv : BondInv r := (Run.always_of_invariant (fun _ e hr => hr.step e)
    (bondInv_deployed config upgradeDelay code balance) events).last
  obtain ⟨hchain, hcustody⟩ := hinv
  refine ⟨hcustody.covered, hcustody.once, hcustody.settled, ?_⟩
  intro index m hm
  have hperm : r.refunds.Perm (m :: (r.anchor.outbound.eraseIdx index ++ r.delivered)) :=
    (perm_eraseIdx hm).append_right r.delivered
  have hmem : m ∈ r.refunds := hperm.mem_iff.mpr List.mem_cons_self
  have hbounce : step sha256 r (.bounce index) = r.bounced index m := by
    simp [step, hm, hcustody.bounceable m hmem]
  obtain ⟨d, hd, -⟩ := hcustody.settled m hmem
  obtain ⟨hresolved, hvalue⟩ := (hcustody.settled m hmem).not_opened hd
  rw [hbounce]
  refine ⟨d, hd, hresolved, ?_, ?_, ?_⟩
  · exact onBouncedMessage_of_found hd
  · rw [← hvalue]
    rfl
  · apply refundsOf_eq_zero
    intro m' hm'
    exact ne_of_refundsOf_le ((hcustody.perm hperm.symm).once m.body.disputeId) hm'

end Duckton.Ton.RecordAnchor
