/-
  The record anchor over whole runs.

  Messages reach the contract from anybody at any time; a bond refund it sent is accepted or comes
  back. What was accepted is kept in a ghost list. A rejected message may leave its coins behind.

  `step_cases` lists what an event can do. The anchored chain is read off it: the epochs are those
  from 1 to the current one, no root is ever replaced, and every root and every dispute has one
  event of the run that it came with.
-/
import Duckton.Lib.Run
import Duckton.Lib.Tally
import Duckton.Ton.RecordAnchor

namespace Duckton.Ton.RecordAnchor

open Tvm Duckton.Proto

variable (sha256 : Bytes → BitVec 256)

/-! ## Runs -/

abbrev Anchor := Account AnchorStorage Address AnchorBondRefund Cell

abbrev Sent := Message Address AnchorBondRefund

structure AnchorRun where
  anchor : Anchor
  delivered : List Sent

/-- What can happen to the contract. `stays`: the coins of a rejected message are not sent back. -/
inductive Event where
  | receive (inMsg : InMessage) (msg : AllowedMessageToAnchor) (stays : Bool)
  | deliver (index : Nat)
  | bounce (index : Nat)

variable (r : AnchorRun)

def AnchorRun.storage : AnchorStorage :=
  r.anchor.storage

def AnchorRun.receive (inMsg : InMessage)
    (msg : AllowedMessageToAnchor) (stays : Bool) : AnchorRun :=
  match r.anchor.transact inMsg.valueCoins (onInternalMessage sha256 r.storage inMsg msg) with
  | .ok anchor => { r with anchor := anchor }
  | .error _ =>
    let kept := if stays then inMsg.valueCoins else 0
    { r with anchor := { r.anchor with balance := r.anchor.balance + kept } }

/-- The message `m` leaves the wire. -/
def AnchorRun.deliver (index : Nat) (m : Sent) : AnchorRun where
  anchor := { r.anchor with outbound := r.anchor.outbound.eraseIdx index }
  delivered := r.delivered ++ [m]

def AnchorRun.bounced (index : Nat) (m : Sent) : AnchorRun :=
  { r with
    anchor := { r.anchor with
      storage := onBouncedMessage r.storage m.body
      balance := r.anchor.balance + m.value
      outbound := r.anchor.outbound.eraseIdx index } }

def step : Event → AnchorRun
  | .receive inMsg msg stays => r.receive sha256 inMsg msg stays
  | .deliver index =>
    match r.anchor.outbound[index]? with
    | some m => r.deliver index m
    | none => r
  | .bounce index =>
    match r.anchor.outbound[index]? with
    | some m => if m.bounce then r.bounced index m else r
    | none => r

def deployed (config : AnchorConfig) (upgradeDelay : Nat) (code : Cell) (balance : Nat) :
    AnchorRun where
  anchor := ⟨deployedStorage config upgradeDelay, balance, code, []⟩
  delivered := []

/-! ## What an event does -/

inductive Step (sha256 : Bytes → BitVec 256) (r : AnchorRun) : Event → AnchorRun → Prop
  | accepted (inMsg : InMessage) (msg : AllowedMessageToAnchor) (stays : Bool)
    (storage : AnchorStorage) (actions : List AnchorAction) (p : Phase Address AnchorBondRefund Cell)
    (haccepted : Accepted sha256 r.storage inMsg msg storage actions)
    (hrun : (Phase.start (r.anchor.balance + inMsg.valueCoins)).run inMsg.valueCoins actions =
      some p) :
    Step sha256 r (.receive inMsg msg stays) { r with anchor := r.anchor.commit storage p }
  | kept (e : Event) (coins : Nat) :
    Step sha256 r e { r with anchor := { r.anchor with balance := r.anchor.balance + coins } }
  | delivered (index : Nat) (m : Sent) (hm : r.anchor.outbound[index]? = some m) :
    Step sha256 r (.deliver index) (r.deliver index m)
  | bounced (index : Nat) (m : Sent) (hm : r.anchor.outbound[index]? = some m) :
    Step sha256 r (.bounce index) (r.bounced index m)

theorem step_cases (e : Event) : Step sha256 r e (step sha256 r e) := by
  cases e with
  | receive inMsg msg stays =>
    cases htransact : r.anchor.transact inMsg.valueCoins
        (onInternalMessage sha256 r.storage inMsg msg) with
    | error e =>
      simp only [step, AnchorRun.receive, htransact]
      exact .kept _ _
    | ok anchor =>
      obtain ⟨storage, actions, p, hc, hp, rfl⟩ := Account.transact_ok_iff.mp htransact
      simp only [step, AnchorRun.receive, htransact]
      exact .accepted inMsg msg stays storage actions p (accepted_cases hc) hp
  | deliver index =>
    cases hm : r.anchor.outbound[index]? with
    | none =>
      simp only [step, hm]
      exact .kept _ 0
    | some m =>
      simp only [step, hm]
      exact .delivered index m hm
  | bounce index =>
    cases hm : r.anchor.outbound[index]? with
    | none =>
      simp only [step, hm]
      exact .kept _ 0
    | some m =>
      by_cases hbounce : m.bounce = true
      · simp only [step, hm, if_pos hbounce]
        exact .bounced index m hm
      · simp only [step, hm, if_neg hbounce]
        exact .kept _ 0

/-- The storage after an event: as before, as a message left it, or with a dispute opened again. -/
theorem storage_cases (e : Event) : (step sha256 r e).storage = r.storage ∨
    (∃ inMsg msg stays actions, e = .receive inMsg msg stays ∧
      Accepted sha256 r.storage inMsg msg (step sha256 r e).storage actions) ∨
    ∃ body, (step sha256 r e).storage = onBouncedMessage r.storage body := by
  have hstep := step_cases sha256 r e
  generalize step sha256 r e = r' at hstep ⊢
  cases hstep with
  | accepted inMsg msg stays storage actions p haccepted hrun =>
    exact .inr (.inl ⟨inMsg, msg, stays, actions, rfl, haccepted⟩)
  | kept e coins | delivered index m hm => exact .inl rfl
  | bounced index m hm => exact .inr (.inr ⟨m.body, rfl⟩)

/-- What the messages and a returned refund keep, every event keeps. -/
theorem step_keeps {sha256 : Bytes → BitVec 256} {P : AnchorStorage → Prop} {r : AnchorRun}
    (e : Event) (hP : P r.storage)
    (haccepted : ∀ inMsg msg s' actions, Accepted sha256 r.storage inMsg msg s' actions → P s')
    (hbounced : ∀ body, P (onBouncedMessage r.storage body)) : P (step sha256 r e).storage := by
  rcases storage_cases sha256 r e with hsame | ⟨inMsg, msg, stays, actions, -, hacc⟩ | ⟨body, hb⟩
  · rw [hsame]
    exact hP
  · exact haccepted inMsg msg _ actions hacc
  · rw [hb]
    exact hbounced body

/-! ## Entries that stay -/

section Lookup

variable {s : AnchorStorage}

theorem onBouncedMessage_lookup (s : AnchorStorage) (body : AnchorBondRefund) (id : UInt32) :
    (onBouncedMessage s body).disputes.lookup id =
      (s.disputes.lookup id).map fun d =>
        if id = body.disputeId then { d with status := .opened } else d := by
  unfold onBouncedMessage
  by_cases hid : id = body.disputeId
  · subst hid
    cases hlookup : s.disputes.lookup body.disputeId with
    | none => simp [hlookup]
    | some d => simp
  · cases s.disputes.lookup body.disputeId with
    | none => simp [hid]
    | some d => simp [hid, AList.lookup_insert_ne hid]

theorem onBouncedMessage_of_found {body : AnchorBondRefund} {d : DisputeInfo}
    (h : s.disputes.lookup body.disputeId = some d) :
    onBouncedMessage s body =
      { s with disputes := s.disputes.insert body.disputeId { d with status := .opened } } := by
  simp [onBouncedMessage, h]

/-- A returned refund touches nothing but the disputes. -/
theorem onBouncedMessage_frame (s : AnchorStorage) (body : AnchorBondRefund) :
    onBouncedMessage s body = { s with disputes := (onBouncedMessage s body).disputes } := by
  unfold onBouncedMessage
  cases s.disputes.lookup body.disputeId <;> rfl

end Lookup

/-! ## The chain of roots -/

/-- What holds of the stored maps in every state: the epochs are 1 to the current one, the last root
    is the current epoch's (zero before the first), and the dispute ids are those below the next. -/
structure ChainInv (s : AnchorStorage) : Prop where
  epochs : ∀ epoch, (s.roots.lookup epoch).isSome ↔
    1 ≤ epoch.toNat ∧ epoch.toNat ≤ s.currentEpoch.toNat
  nonzero : ∀ epoch root, s.roots.lookup epoch = some root → root ≠ 0
  last : (s.roots.lookup s.currentEpoch).getD 0 = s.lastRoot
  ids : ∀ id, (s.disputes.lookup id).isSome ↔ id.toNat < s.nextDisputeId.toNat

/-- Roots and disputes of `s` are still there in `s'`, a dispute with another status perhaps. -/
structure Extends (s s' : AnchorStorage) : Prop where
  roots : ∀ epoch root, s.roots.lookup epoch = some root → s'.roots.lookup epoch = some root
  disputes : ∀ id d, s.disputes.lookup id = some d →
    ∃ status, s'.disputes.lookup id = some { d with status := status }
  config : s'.config = s.config

variable {id : UInt32} {d : DisputeInfo} {epoch : UInt32} {root : BitVec 256}

section Chain

variable {sha256} {s s' : AnchorStorage} {inMsg : InMessage}
  {msg : AllowedMessageToAnchor} {actions : List AnchorAction}

theorem Extends.refl (s : AnchorStorage) : Extends s s :=
  ⟨fun _ _ h => h, fun _ d h => ⟨d.status, h⟩, rfl⟩

theorem Extends.trans {s₁ s₂ s₃ : AnchorStorage} (h : Extends s₁ s₂) (h' : Extends s₂ s₃) :
    Extends s₁ s₃ := by
  refine ⟨fun epoch root hr => h'.roots epoch root (h.roots epoch root hr), ?_,
    h'.config.trans h.config⟩
  intro id d hd
  obtain ⟨status, hd'⟩ := h.disputes id d hd
  obtain ⟨status', hd''⟩ := h'.disputes id _ hd'
  exact ⟨status', hd''⟩

/-- A new status for a dispute that is there leaves the ids as they are. -/
theorem ChainInv.setStatus (status : DisputeStatus)
    (hs : ChainInv s) (hd : s.disputes.lookup id = some d)
    (hs' : s' = { s with disputes := s.disputes.insert id { d with status := status } }) :
    ChainInv s' ∧ Extends s s' := by
  subst hs'
  refine ⟨⟨hs.epochs, hs.nonzero, hs.last, ?_⟩, fun _ _ h => h, ?_, rfl⟩
  · intro id'
    rw [Tally.lookup_insert_ite]
    by_cases hid : id' = id
    · subst hid
      have hlt := (hs.ids id').mp (by rw [hd]; rfl)
      simp [hlt]
    · rw [if_neg hid]
      exact hs.ids id'
  · intro id' d' hd'
    rw [Tally.lookup_insert_ite]
    by_cases hid : id' = id
    · subst hid
      rw [hd, Option.some.injEq] at hd'
      subst hd'
      exact ⟨status, if_pos rfl⟩
    · rw [if_neg hid]
      exact ⟨d'.status, hd'⟩

theorem ChainInv.submit (hs : ChainInv s) (hroot : root ≠ 0)
    (hepoch : epoch.toNat = s.currentEpoch.toNat + 1) :
    ChainInv { s with currentEpoch := epoch, lastRoot := root
                      roots := s.roots.insert epoch root } := by
  refine ⟨?_, ?_, by simp, hs.ids⟩
  · intro epoch'
    rw [Tally.lookup_insert_ite]
    by_cases heq : epoch' = epoch
    · subst heq
      simp
      omega
    · have hne : epoch'.toNat ≠ epoch.toNat := fun h => heq (UInt32.toNat.inj h)
      rw [if_neg heq, hs.epochs]
      dsimp only
      omega
  · intro epoch' root' h
    rw [Tally.lookup_insert_ite] at h
    split at h
    · cases h
      exact hroot
    · exact hs.nonzero epoch' root' h

theorem ChainInv.of_accepted (hs : ChainInv s) (h : Accepted sha256 s inMsg msg s' actions) :
    ChainInv s' ∧ Extends s s' := by
  cases h with
  | submitted queryId epoch root stakeWeight hkeeper hroot hepoch =>
    refine ⟨hs.submit hroot hepoch, ?_, fun _ d hd => ⟨d.status, hd⟩, rfl⟩
    intro epoch' root' hr
    -- the new epoch has no root yet
    have hle := (hs.epochs epoch').mp (by rw [hr]; rfl)
    have hne : epoch' ≠ epoch := by
      rintro rfl
      omega
    rw [Tally.lookup_insert_ite, if_neg hne]
    exact hr
  | disputed queryId epoch leaf proof root next hroot hproof hnext =>
    refine ⟨⟨hs.epochs, hs.nonzero, hs.last, ?_⟩, fun _ _ hr => hr, ?_, rfl⟩
    · intro id
      rw [Tally.lookup_insert_ite]
      by_cases hid : id = s.nextDisputeId
      · subst hid
        simp
        omega
      · have hne : id.toNat ≠ s.nextDisputeId.toNat := fun h => hid (UInt32.toNat.inj h)
        rw [if_neg hid, hs.ids]
        dsimp only
        omega
    · intro id d hd
      have hlt := (hs.ids id).mp (by rw [hd]; rfl)
      have hne : id ≠ s.nextDisputeId := by
        rintro rfl
        omega
      rw [Tally.lookup_insert_ite, if_neg hne]
      exact ⟨d.status, hd⟩
  | resolved queryId disputeId upheld dispute hfound hopen =>
    exact hs.setStatus (verdict upheld) hfound rfl
  | announced | upgraded | cancelled =>
    exact ⟨⟨hs.epochs, hs.nonzero, hs.last, hs.ids⟩, fun _ _ hr => hr,
      fun _ d hd => ⟨d.status, hd⟩, rfl⟩
  | ignored => exact ⟨hs, Extends.refl s⟩

theorem ChainInv.of_bounced (hs : ChainInv s) (body : AnchorBondRefund) :
    ChainInv (onBouncedMessage s body) ∧ Extends s (onBouncedMessage s body) := by
  cases hd : s.disputes.lookup body.disputeId with
  | none =>
    rw [onBouncedMessage, hd]
    exact ⟨hs, Extends.refl s⟩
  | some d => exact hs.setStatus .opened hd (onBouncedMessage_of_found hd)

/-- The step lemma. -/
theorem ChainInv.step {r : AnchorRun} (hr : ChainInv r.storage) (e : Event) :
    ChainInv (step sha256 r e).storage ∧ Extends r.storage (step sha256 r e).storage :=
  step_keeps (P := fun s => ChainInv s ∧ Extends r.storage s) e ⟨hr, Extends.refl _⟩
    (fun _ _ _ _ h => hr.of_accepted h) hr.of_bounced

end Chain

theorem always_chainInv {r : AnchorRun} (hr : ChainInv r.storage)
    (events : List Event) :
    Run.Always (step sha256) (fun r => ChainInv r.storage) r events :=
  Run.always_of_invariant (P := fun r : AnchorRun => ChainInv r.storage)
    (fun _ e hr => (hr.step e).1) hr events

/-- From a state of the chain to any later one. -/
theorem extends_final {r : AnchorRun} (hr : ChainInv r.storage)
    (events : List Event) : Extends r.storage (Run.final (step sha256) r events).storage := by
  induction events generalizing r with
  | nil => exact Extends.refl r.storage
  | cons e events ih => exact (hr.step e).2.trans (ih (hr.step e).1)

/-! ## Where roots and disputes come from -/

/-- The run has the submission of this root: it came from the keeper, for the epoch after the current
    one, and named the root before. -/
def SubmittedIn (events : List Event) (epoch : UInt32) (root : BitVec 256) : Prop :=
  ∃ before inMsg queryId stakeWeight stays after,
    let s := (Run.final (step sha256) r before).storage
    events = before ++ .receive inMsg (.anchorSubmitRoot queryId epoch root
      ((s.roots.lookup (epoch - 1)).getD 0) stakeWeight) stays :: after ∧
    inMsg.senderAddress = r.storage.config.auth.keeper ∧
    epoch.toNat = s.currentEpoch.toNat + 1

/-- The run has the opening of this dispute: it got the next free id, and the proof it brought folded
    its leaf to the root stored for its epoch. -/
def DisputedIn (events : List Event) (id : UInt32) (d : DisputeInfo) : Prop :=
  ∃ before inMsg queryId proof root stays after,
    let s := (Run.final (step sha256) r before).storage
    events = before ++ .receive inMsg (.anchorOpenDispute queryId d.epoch d.leaf proof) stays ::
      after ∧
    s.roots.lookup d.epoch = some root ∧ computeRootFromProof sha256 d.leaf proof = .ok root ∧
    s.nextDisputeId = id ∧ d.challenger = inMsg.senderAddress ∧ d.bond = inMsg.valueCoins

section Origins

variable {sha256} {s s' : AnchorStorage} {inMsg : InMessage}
  {msg : AllowedMessageToAnchor} {actions : List AnchorAction}

/-- A message that brings a root is its submission. -/
theorem submits_of_accepted
    (h : Accepted sha256 s inMsg msg s' actions) (hnew : s.roots.lookup epoch ≠ some root)
    (hroot : s'.roots.lookup epoch = some root) :
    inMsg.senderAddress = s.config.auth.keeper ∧ epoch.toNat = s.currentEpoch.toNat + 1 ∧
      ∃ queryId stakeWeight,
        msg = .anchorSubmitRoot queryId epoch root s.lastRoot stakeWeight := by
  cases h with
  | submitted queryId epoch' root' stakeWeight hkeeper hnonzero hepoch =>
    rw [Tally.lookup_insert_ite] at hroot
    split at hroot
    · rename_i heq
      cases heq
      cases hroot
      exact ⟨hkeeper, hepoch, queryId, stakeWeight, rfl⟩
    · exact absurd hroot hnew
  | _ => exact absurd hroot hnew

/-- A dispute that was not there before, whatever its status, was opened by the message. -/
theorem disputes_of_accepted (h : Accepted sha256 s inMsg msg s' actions)
    (hnew : ∀ status, s.disputes.lookup id ≠ some { d with status := status })
    (hd : s'.disputes.lookup id = some d) :
    ∃ queryId proof root, msg = .anchorOpenDispute queryId d.epoch d.leaf proof ∧
      s.roots.lookup d.epoch = some root ∧ computeRootFromProof sha256 d.leaf proof = .ok root ∧
      s.nextDisputeId = id ∧ d.challenger = inMsg.senderAddress ∧ d.bond = inMsg.valueCoins := by
  cases h with
  | disputed queryId epoch leaf proof root next hroot hproof hnext =>
    rw [Tally.lookup_insert_ite] at hd
    split at hd
    · rename_i heq
      cases hd
      exact ⟨queryId, proof, root, rfl, hroot, hproof, heq.symm, rfl, rfl⟩
    · exact absurd hd (hnew d.status)
  | resolved queryId disputeId upheld dispute hfound hopen =>
    rw [Tally.lookup_insert_ite] at hd
    split at hd
    · rename_i heq
      cases heq
      cases hd
      exact absurd hfound (hnew dispute.status)
    · exact absurd hd (hnew d.status)
  | _ => exact absurd hd (hnew d.status)

end Origins

/-- The epoch before one that comes right after `b`. -/
theorem epoch_pred {a b : UInt32} (h : a.toNat = b.toNat + 1) : a - 1 = b := by
  have hlt := a.toNat_lt
  have hsucc : a = b + 1 := by
    apply UInt32.toNat.inj
    rw [UInt32.toNat_add, h]
    exact (Nat.mod_eq_of_lt (h ▸ hlt)).symm
  rw [hsucc]
  exact UInt32.add_sub_cancel b 1

section Reached

variable (config : AnchorConfig) (upgradeDelay : Nat) (code : Cell)
  (balance : Nat)

theorem chainInv_deployed : ChainInv (deployed config upgradeDelay code balance).storage := by
  refine ⟨?_, ?_, rfl, ?_⟩
  · intro epoch
    simp [AnchorRun.storage, deployed, deployedStorage]
    omega
  · intro epoch root h
    simp [AnchorRun.storage, deployed, deployedStorage] at h
  · intro id
    simp [AnchorRun.storage, deployed, deployedStorage]

theorem submittedIn_of_lookup (events : List Event) (epoch : UInt32) (root : BitVec 256)
    (h : (Run.final (step sha256) (deployed config upgradeDelay code balance)
      events).storage.roots.lookup epoch = some root) :
    SubmittedIn sha256 (deployed config upgradeDelay code balance) events epoch root := by
  obtain ⟨before, e, after, hevents, hnew, horigin⟩ := Run.exists_origin
    (P := fun r : AnchorRun => r.storage.roots.lookup epoch = some root)
    (by simp [AnchorRun.storage, deployed, deployedStorage]) h
  have hstart := chainInv_deployed config upgradeDelay code balance
  have hinv := (always_chainInv sha256 hstart before).last
  have hconfig := (extends_final sha256 hstart before).config
  rcases storage_cases sha256 _ e with hsame | ⟨inMsg, msg, stays, actions, rfl, hacc⟩ | ⟨body, hb⟩
  · rw [hsame] at horigin
    exact absurd horigin hnew
  · obtain ⟨hkeeper, hepoch, queryId, stakeWeight, rfl⟩ := submits_of_accepted hacc hnew horigin
    refine ⟨before, inMsg, queryId, stakeWeight, stays, after, ?_, ?_, hepoch⟩
    · rw [epoch_pred hepoch, hinv.last]
      exact hevents
    · rw [hkeeper, hconfig]
  · rw [hb, onBouncedMessage_frame] at horigin
    exact absurd horigin hnew

theorem disputedIn_of_lookup (events : List Event) (id : UInt32) (d : DisputeInfo)
    (h : (Run.final (step sha256) (deployed config upgradeDelay code balance)
      events).storage.disputes.lookup id = some d) :
    DisputedIn sha256 (deployed config upgradeDelay code balance) events id d := by
  -- the dispute under some status, since a verdict or a returned refund changes it
  obtain ⟨before, e, after, hevents, hnew, horigin⟩ := Run.exists_origin
    (P := fun r : AnchorRun =>
      ∃ status, r.storage.disputes.lookup id = some { d with status := status })
    (by simp [AnchorRun.storage, deployed, deployedStorage]) ⟨d.status, h⟩
  obtain ⟨status, horigin⟩ := horigin
  have hnew' := not_exists.mp hnew
  rcases storage_cases sha256 _ e with hsame | ⟨inMsg, msg, stays, actions, rfl, hacc⟩ | ⟨body, hb⟩
  · rw [hsame] at horigin
    exact absurd horigin (hnew' status)
  · obtain ⟨queryId, proof, root, rfl, hroot, hproof, hid, hchallenger, hbond⟩ :=
      disputes_of_accepted (d := { d with status := status }) hacc hnew' horigin
    exact ⟨before, inMsg, queryId, proof, root, stays, after, hevents, hroot, hproof, hid,
      hchallenger, hbond⟩
  · rw [hb, onBouncedMessage_lookup] at horigin
    obtain ⟨d', hd', heq⟩ := Option.map_eq_some_iff.mp horigin
    refine absurd hd' ?_
    have hcore : d' = { d with status := d'.status } := by
      split at heq
      · cases d'
        simp_all
      · simp [heq]
    rw [hcore]
    exact hnew' d'.status

/-- The anchored chain over every run from the deployment. In every state the epochs with a root are
    exactly those from 1 to the current one, the roots are not zero, the last root is the current
    epoch's, and the disputes have the ids below the next. Roots never change and disputes only
    change their status. Each root was submitted by the keeper and named the root before it; each
    dispute was opened under its own id with a proof that folded to the root of its epoch. -/
theorem anchored_chain (events : List Event) :
    let r₀ := deployed config upgradeDelay code balance
    let r := Run.final (step sha256) r₀ events
    Run.Always (step sha256) (fun r => ChainInv r.storage) r₀ events ∧
    (∀ before after, events = before ++ after →
      Extends (Run.final (step sha256) r₀ before).storage r.storage) ∧
    (∀ epoch root, r.storage.roots.lookup epoch = some root →
      SubmittedIn sha256 r₀ events epoch root) ∧
    (∀ id d, r.storage.disputes.lookup id = some d → DisputedIn sha256 r₀ events id d) := by
  have hstart := chainInv_deployed config upgradeDelay code balance
  refine ⟨always_chainInv sha256 hstart events, ?_, ?_, ?_⟩
  · rintro before after rfl
    rw [Run.final_append]
    exact extends_final sha256 (always_chainInv sha256 hstart before).last after
  · exact submittedIn_of_lookup sha256 config upgradeDelay code balance events
  · exact disputedIn_of_lookup sha256 config upgradeDelay code balance events

end Reached

end Duckton.Ton.RecordAnchor
