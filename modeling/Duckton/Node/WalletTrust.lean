/-
  The trust a requester has in a worker (node/coordinator.rs `effective_trust`), with the history of
  the worker taken over the ids bound to one wallet (`wallet_siblings`, `wallet_reputation`).

  The siblings of an id are those bound under the same text. The main result says for which bindings
  two ids of one account are given the same reputation, observation count and penalties whatever
  the trust store holds: the penalties are those of the id alone, and texts that differ split the
  account.
-/
import Mathlib.Algebra.Order.BigOperators.Group.List
import Duckton.Config.Bindings
import Duckton.Trust.Score

namespace Duckton.Node

open Duckton.Proto
open Duckton.Config (BindingStore)
open Duckton.Trust

/-! ## The coordinator -/

/-- What `effective_trust` reads of the configuration. -/
structure TrustConfig where
  bootstrapTrust : F64
  weights : ReputationWeights
  economicsEnabled : Bool
  reputation : ReputationConfig
  explorationRate : F64
  explorationSaturation : Nat
  capabilityWeight : F64
  newcomerTrustCeiling : F64
  newcomerObsThreshold : Nat
  deriving DecidableEq, Repr

/-- The parts of a coordinator that `effective_trust` reads: the answers of its trust store and,
    where they are wired, the bindings and the stake registry. -/
structure TrustSources where
  ops : ScoreOps
  trustStore : Answers
  bindingStore : Option BindingStore
  stakeFactor : Option (NodeId → F64)

namespace TrustSources

variable (c : TrustSources) (cfg : TrustConfig) (now : UInt64)

def walletSiblings (worker : NodeId) : List NodeId :=
  match c.bindingStore with
  | none => []
  | some bs =>
    match bs.get worker.id with
    | .ok (some entry) =>
      match bs.list with
      | .ok all => (all.filter (·.wallet == entry.wallet)).map fun e => ⟨e.nodeId⟩
      | .error _ => []
    | _ => []

def confident (id : NodeId) : Option F64 :=
  c.trustStore.confidentReputation c.ops cfg.reputation id now

/-- The record of an id by itself. -/
def ownRecord (id : NodeId) : F64 × Nat :=
  ((c.confident cfg now id).getD cfg.bootstrapTrust, c.trustStore.observationCount id)

/-- One round of the loop of `wallet_reputation`, on the accumulators `weighted` and `total`. -/
def addSibling (acc : F64 × Nat) (sib : NodeId) : F64 × Nat :=
  let obs := c.trustStore.observationCount sib
  if obs = 0 then acc
  else
    match c.confident cfg now sib with
    | some r => (c.ops.add acc.1 (c.ops.mul r (c.ops.ofUsize obs)), acc.2 + obs)
    | none => acc

def walletReputation (worker : NodeId) : F64 × Nat :=
  let siblings := c.walletSiblings worker
  if siblings.length ≤ 1 then c.ownRecord cfg now worker
  else
    let (weighted, total) := siblings.foldl (c.addSibling cfg now) (.zero, 0)
    if total = 0 then (cfg.bootstrapTrust, 0)
    else (c.ops.div weighted (c.ops.ofUsize total), total)

/-- The inputs of the score and the observation count, as `effective_trust` takes them. -/
def trustInputs (worker : NodeId) (paid : Bool) : TrustInputs × Nat :=
  let (reputation, obs) := c.walletReputation cfg now worker
  ({ reputation
     ageFactor := ageFactor c.ops obs 20
     voucherTrust := c.ops.min (c.trustStore.voucherTrust worker) .one
     stakeFactor :=
       if paid && cfg.economicsEnabled then (c.stakeFactor.map (· worker)).getD .zero else .zero
     penalties := c.trustStore.penalty worker }, obs)

def effectiveTrust (worker : NodeId) (paid : Bool) : F64 :=
  let (inputs, obs) := c.trustInputs cfg now worker paid
  let bonus := explorationBonus c.ops obs cfg.explorationRate cfg.explorationSaturation
  let capTerm :=
    if F64.lt .zero cfg.capabilityWeight then
      c.ops.mul cfg.capabilityWeight
        (c.trustStore.capabilityConfidence c.ops cfg.reputation worker)
    else .zero
  let score := c.ops.clampUnit
    (c.ops.add (c.ops.add (softTrustScore c.ops cfg.weights inputs) bonus) capTerm)
  if F64.lt cfg.newcomerTrustCeiling .one && decide (obs < cfg.newcomerObsThreshold) then
    c.ops.min score cfg.newcomerTrustCeiling
  else score

/-! ## The record of a wallet

What the loop computes, said of the whole list of ids: the ids that were observed and have a
confident reputation each count with their observations. -/

/-- The reputation and the observations with which an id counts. -/
def share (id : NodeId) : Option (F64 × Nat) :=
  let obs := c.trustStore.observationCount id
  if obs = 0 then none else (c.confident cfg now id).map fun r => (r, obs)

def sharedObservations (shares : List (F64 × Nat)) : Nat :=
  (shares.map (·.2)).sum

def weightedSum (weighted : F64) (shares : List (F64 × Nat)) : F64 :=
  shares.foldl (fun sum s => c.ops.add sum (c.ops.mul s.1 (c.ops.ofUsize s.2))) weighted

/-- The mean of the shares by observations, and the observations of them all. -/
def sharedRecord (shares : List (F64 × Nat)) : F64 × Nat :=
  let total := sharedObservations shares
  if total = 0 then (cfg.bootstrapTrust, 0)
  else (c.ops.div (c.weightedSum .zero shares) (c.ops.ofUsize total), total)

/-- The record of a list of ids taken together; a lone id has its own. -/
def recordOf : List NodeId → F64 × Nat
  | [id] => c.ownRecord cfg now id
  | ids => c.sharedRecord cfg (ids.filterMap (c.share cfg now))

theorem foldl_addSibling (ids : List NodeId) (acc : F64 × Nat) :
    ids.foldl (c.addSibling cfg now) acc =
      (c.weightedSum acc.1 (ids.filterMap (c.share cfg now)),
        acc.2 + sharedObservations (ids.filterMap (c.share cfg now))) := by
  induction ids generalizing acc with
  | nil => rfl
  | cons id ids ih =>
    rw [List.foldl_cons, ih]
    unfold addSibling
    by_cases hobs : c.trustStore.observationCount id = 0
    · have hshare : c.share cfg now id = none := if_pos hobs
      simp only [if_pos hobs, List.filterMap_cons, hshare]
    · cases hconf : c.confident cfg now id with
      | none =>
        have hshare : c.share cfg now id = none := by simp [share, hconf]
        simp only [if_neg hobs, List.filterMap_cons, hshare]
      | some r =>
        have hshare : c.share cfg now id = some (r, c.trustStore.observationCount id) := by
          simp [share, hobs, hconf]
        simp only [if_neg hobs, List.filterMap_cons, hshare, sharedObservations, List.map_cons,
          List.sum_cons, Nat.add_assoc]
        rfl

variable {c} {bs : BindingStore}

variable {worker : NodeId} {wallet : String} {ids : List NodeId}

theorem walletSiblings_of_bound (hbs : c.bindingStore = some bs)
    (h : bs.walletOf worker.id = some wallet) :
    c.walletSiblings worker = bs.idsUnder wallet := by
  unfold BindingStore.walletOf at h
  unfold walletSiblings
  rw [hbs]
  cases hget : bs.get worker.id with
  | error e => simp [hget] at h
  | ok found =>
    simp only [hget, Option.map_eq_some_iff] at h
    obtain ⟨entry, rfl, rfl⟩ := h
    simp only [hget]
    rfl

/-- A bound id has the record of the ids bound under its text. -/
theorem walletReputation_of_bound (hbs : c.bindingStore = some bs)
    (h : bs.walletOf worker.id = some wallet) :
    c.walletReputation cfg now worker = c.recordOf cfg now (bs.idsUnder wallet) := by
  have hmem : worker ∈ bs.idsUnder wallet := BindingStore.mem_idsUnder h
  rw [walletReputation, walletSiblings_of_bound hbs h]
  simp only [foldl_addSibling, Nat.zero_add]
  -- the worker itself is listed, so a list of at most one id is the worker
  match hids : bs.idsUnder wallet with
  | [] => simp [hids] at hmem
  | [id] =>
    obtain rfl : worker = id := by simpa [hids] using hmem
    rfl
  | id :: id' :: ids => exact if_neg (by simp)

/-! ## Two ids of one account -/

variable (c)

/-- Two ids enter the score with the same reputation, observation count and penalties. -/
def SameHistory (x y : NodeId) (paid : Bool) : Prop :=
  (c.trustInputs cfg now x paid).1.reputation = (c.trustInputs cfg now y paid).1.reputation ∧
    (c.trustInputs cfg now x paid).2 = (c.trustInputs cfg now y paid).2 ∧
    (c.trustInputs cfg now x paid).1.penalties = (c.trustInputs cfg now y paid).1.penalties

variable {id : NodeId} {seen : List NodeId}

/-- The coordinator with another trust store. -/
def withTrust (answers : Answers) : TrustSources :=
  { c with trustStore := answers }

/-- A trust store that has seen one right answer of each of these ids. -/
def seenOnce (ids : List NodeId) : Answers where
  reputation id _ := if id ∈ ids then some .one else none
  observationCount id := if id ∈ ids then 1 else 0
  voucherTrust _ := .zero
  penalty _ := .zero
  provenCapability _ := none
  perfAggregate _ := none
  trackedWorkers := ids.length
  requesterObservationCount _ := 0
  requesterReputation _ _ := none

theorem sharedRecord_snd (shares : List (F64 × Nat)) :
    (c.sharedRecord cfg shares).2 = sharedObservations shares := by
  unfold sharedRecord
  dsimp only
  split
  · rename_i hzero
    exact hzero.symm
  · rfl

theorem share_seenOnce_of_mem (h : id ∈ seen) :
    ∃ r, (c.withTrust (seenOnce seen)).share cfg now id = some (r, 1) := by
  refine ⟨confidenceReputation c.ops cfg.reputation .one 1, ?_⟩
  simp [share, confident, Answers.confidentReputation, withTrust, seenOnce, h]

theorem share_seenOnce_of_not_mem (h : id ∉ seen) :
    (c.withTrust (seenOnce seen)).share cfg now id = none := by
  simp [share, withTrust, seenOnce, h]

/-- One id that was seen makes the count of its list positive. -/
theorem recordOf_seenOnce_pos (hid : id ∈ ids) (hseen : id ∈ seen) :
    0 < ((c.withTrust (seenOnce seen)).recordOf cfg now ids).2 := by
  obtain ⟨r, hshare⟩ := share_seenOnce_of_mem c cfg now hseen
  unfold recordOf
  split
  · obtain rfl := List.mem_singleton.mp hid
    show 0 < if id ∈ seen then 1 else 0
    rw [if_pos hseen]
    exact Nat.one_pos
  · rw [sharedRecord_snd]
    have hmem := List.mem_filterMap.mpr ⟨id, hid, hshare⟩
    exact List.single_le_sum (fun _ _ => Nat.zero_le _) _ (List.mem_map_of_mem (f := Prod.snd) hmem)

theorem recordOf_seenOnce_zero (h : ∀ id ∈ ids, id ∉ seen) :
    ((c.withTrust (seenOnce seen)).recordOf cfg now ids).2 = 0 := by
  unfold recordOf
  split
  · rename_i id
    exact if_neg (h id List.mem_cons_self)
  · have hnone : ids.filterMap ((c.withTrust (seenOnce seen)).share cfg now) = [] :=
      List.filterMap_eq_nil_iff.mpr fun id hid => share_seenOnce_of_not_mem c cfg now (h id hid)
    rw [sharedRecord_snd, hnone]
    rfl

/-- Among distinct ids it takes one text for two of them to have one record whatever the trust store
    holds. -/
theorem same_record_iff_same_text (hbs : c.bindingStore = some bs) (hdistinct : bs.DistinctIds)
    {x y : NodeId} {wx wy : String} (hx : bs.walletOf x.id = some wx)
    (hy : bs.walletOf y.id = some wy) :
    (∀ answers, (c.withTrust answers).walletReputation cfg now x =
        (c.withTrust answers).walletReputation cfg now y) ↔ wx = wy := by
  have hrecord (answers : Answers) {id : NodeId} {wallet : String}
      (h : bs.walletOf id.id = some wallet) :
      (c.withTrust answers).walletReputation cfg now id =
        (c.withTrust answers).recordOf cfg now (bs.idsUnder wallet) :=
    walletReputation_of_bound cfg now hbs h
  simp only [hrecord _ hx, hrecord _ hy]
  constructor
  · intro h
    by_contra htexts
    have hpos := recordOf_seenOnce_pos c cfg now (BindingStore.mem_idsUnder hx)
      (BindingStore.mem_idsUnder hx)
    have hzero : ((c.withTrust (seenOnce (bs.idsUnder wx))).recordOf cfg now
        (bs.idsUnder wy)).2 = 0 :=
      recordOf_seenOnce_zero c cfg now fun id hid hseen =>
        htexts (hdistinct.text_unique hseen hid)
    rw [h (seenOnce (bs.idsUnder wx)), hzero] at hpos
    exact Nat.lt_irrefl 0 hpos
  · rintro rfl answers
    rfl

/-- Two ids bound to one account have the same history for every content of the trust store only if
    they are one id. If no id is bound twice, their reputation and count are the same for every
    content just when they are bound under the same text. -/
theorem same_history_iff_same_id {bs : BindingStore} (hbs : c.bindingStore = some bs)
    {x y : NodeId} {a : Ton.WalletAddress} (hx : bs.accountOf x.id = some a)
    (hy : bs.accountOf y.id = some a) (paid : Bool) :
    ((∀ answers, (c.withTrust answers).SameHistory cfg now x y paid) ↔ x = y) ∧
    (bs.DistinctIds →
      ((∀ answers, (c.withTrust answers).walletReputation cfg now x =
          (c.withTrust answers).walletReputation cfg now y) ↔
        bs.walletOf x.id = bs.walletOf y.id)) := by
  refine ⟨⟨fun h => ?_, ?_⟩, fun hdistinct => ?_⟩
  · -- a penalty of `x` alone
    have hpenalty : (if x = x then F64.one else .zero) = if y = x then .one else .zero :=
      (h { seenOnce [] with penalty := fun id => if id = x then .one else .zero }).2.2
    by_contra hne
    rw [if_pos rfl, if_neg (Ne.symm hne)] at hpenalty
    exact absurd hpenalty (by decide)
  · rintro rfl answers
    exact ⟨rfl, rfl, rfl⟩
  · obtain ⟨wx, hwx, -⟩ := Option.bind_eq_some_iff.mp hx
    obtain ⟨wy, hwy, -⟩ := Option.bind_eq_some_iff.mp hy
    rw [same_record_iff_same_text c cfg now hbs hdistinct hwx hwy, hwx, hwy, Option.some_inj]

end TrustSources

/-! ## A rotation

A provider with one wrong answer and one penalty moves to a fresh id. -/

/-- One account, as the explorer prints it and raw. -/
def friendlyText : String :=
  "kQCP7UqEfNwpaaNGDP3MihPPBb-Yd5ZYc0EU-VbXcmjpg422"

def rawText : String :=
  "0:8fed4a847cdc2969a3460cfdcc8a13cf05bf98779658734114f956d77268e983"

/-- The old id is bound under the friendly text, the fresh one under `wallet`. -/
def rotated (wallet : String) : BindingStore :=
  .write [⟨"b3:old", friendlyText, "", 1⟩, ⟨"b3:new", wallet, "", 2⟩]

/-- Right on the zeros and ones of which the record of the old id is made. -/
def unitOps : ScoreOps where
  ofU64 n := if n = 0 then .zero else .one
  add x y := if x = .zero then y else x
  sub x y := if y = .zero then x else .zero
  mul x y := if y = .zero then .zero else x
  div x _ := x
  powf _ _ := .one
  max x y := if x = .zero then y else x
  min x y := if x = .zero then .zero else y
  sqrt x := x
  clampUnit x := x

def unitEnv : StoreEnv where
  blake3 input := input.take 8
  ops := unitOps.toFloatOps
  halfLifeSecs := .zero
  lim := .ofConfig 8 8

/-- The trust store of a requester that got a wrong answer from the old id and penalised it. -/
def afterWrongAnswer : Answers :=
  Inner.answers unitEnv (Run.final (Inner.step unitEnv) .empty
    [.record ⟨⟨"job", ⟨"b3:old"⟩, ⟨"b3:req"⟩, .incorrect, 100, 0, 0, 0⟩, 5⟩,
      .penalize ⟨"b3:old"⟩ .one])

def restingConfig : TrustConfig where
  bootstrapTrust := perfMinAlpha
  weights := ⟨.one, .zero, .zero, .zero⟩
  economicsEnabled := false
  reputation := ⟨.zero, .zero, .zero⟩
  explorationRate := .zero
  explorationSaturation := 20
  capabilityWeight := .zero
  newcomerTrustCeiling := .one
  newcomerObsThreshold := 0

/-- The coordinator of that requester. -/
def afterRotation (wallet : String) : TrustSources :=
  ⟨unitOps, afterWrongAnswer, some (rotated wallet), none⟩

def sharedAccount : Ton.WalletAddress :=
  ⟨0, 0x8fed4a847cdc2969a3460cfdcc8a13cf05bf98779658734114f956d77268e983⟩

set_option maxRecDepth 20000 in
theorem fromAnyStr_friendlyText : Settlement.fromAnyStr friendlyText = some sharedAccount := by
  decide

set_option maxRecDepth 20000 in
theorem fromAnyStr_rawText : Settlement.fromAnyStr rawText = some sharedAccount := by
  decide

theorem accountOf_rotated {wallet : String}
    (hold : (rotated wallet).walletOf "b3:old" = some friendlyText)
    (hnew : (rotated wallet).walletOf "b3:new" = some wallet)
    (h : Settlement.fromAnyStr wallet = some sharedAccount) :
    (rotated wallet).accountOf "b3:old" = some sharedAccount ∧
      (rotated wallet).accountOf "b3:new" = some sharedAccount := by
  unfold BindingStore.accountOf
  rw [hold, hnew, Option.bind_some, Option.bind_some]
  exact ⟨fromAnyStr_friendlyText, h⟩

theorem accountOf_rotated_rawText :
    (rotated rawText).accountOf "b3:old" = some sharedAccount ∧
      (rotated rawText).accountOf "b3:new" = some sharedAccount :=
  accountOf_rotated (by decide) (by decide) fromAnyStr_rawText

theorem accountOf_rotated_friendlyText :
    (rotated friendlyText).accountOf "b3:old" = some sharedAccount ∧
      (rotated friendlyText).accountOf "b3:new" = some sharedAccount :=
  accountOf_rotated (by decide) (by decide) fromAnyStr_friendlyText

theorem distinctIds_rotated {wallet : String} (h : wallet.isEmpty = false) :
    (rotated wallet).DistinctIds := by
  intro entries hread
  have hwritten : (rotated wallet).read = .ok
      [⟨"b3:old", friendlyText, "", 1⟩, ⟨"b3:new", wallet, "", 2⟩] := by
    refine BindingStore.read_write fun e he => ?_
    simp only [List.mem_cons, List.not_mem_nil, or_false] at he
    rcases he with rfl | rfl
    · decide
    · exact ⟨rfl, h⟩
  rw [hwritten] at hread
  cases hread
  show ["b3:old", "b3:new"].Nodup
  decide

/-- With the fresh id bound under the old text, the two have one record whatever the trust store
    holds, but not one history. -/
theorem same_text_rotation_decided :
    ¬ (∀ answers, ((afterRotation friendlyText).withTrust answers).SameHistory restingConfig 100
      ⟨"b3:old"⟩ ⟨"b3:new"⟩ false) ∧
    ∀ answers,
      ((afterRotation friendlyText).withTrust answers).walletReputation restingConfig 100
          ⟨"b3:old"⟩ =
        ((afterRotation friendlyText).withTrust answers).walletReputation restingConfig 100
          ⟨"b3:new"⟩ := by
  have hdecided := TrustSources.same_history_iff_same_id (afterRotation friendlyText)
    restingConfig 100 rfl accountOf_rotated_friendlyText.1 accountOf_rotated_friendlyText.2 false
  exact ⟨fun h => absurd (hdecided.1.mp h) (by decide),
    (hdecided.2 (distinctIds_rotated (by decide))).mpr (by decide)⟩

set_option maxRecDepth 8000 in
/-- The store of the raw text is what binding the two ids leaves. -/
theorem bind_bind_rotated :
    (BindingStore.bind ⟨none⟩ "b3:old" friendlyText "" 1).bind
      (·.bind "b3:new" rawText "" 2) = .ok (rotated rawText) := by
  rfl

/-- Bound under the raw text of the same account, the fresh id starts with the bootstrap value, no
    observation and no penalty; bound under the old text, it still sheds the penalty. -/
theorem rotation_sheds_history :
    (BindingStore.bind ⟨none⟩ "b3:old" friendlyText "" 1).bind
      (·.bind "b3:new" rawText "" 2) = .ok (rotated rawText) ∧
    (rotated rawText).accountOf "b3:old" = some sharedAccount ∧
    (rotated rawText).accountOf "b3:new" = some sharedAccount ∧
    (afterRotation rawText).walletReputation restingConfig 100 ⟨"b3:old"⟩ = (.zero, 1) ∧
    (afterRotation rawText).walletReputation restingConfig 100 ⟨"b3:new"⟩ = (perfMinAlpha, 0) ∧
    ¬ (afterRotation rawText).SameHistory restingConfig 100 ⟨"b3:old"⟩ ⟨"b3:new"⟩ false ∧
    (rotated friendlyText).accountOf "b3:old" = (rotated friendlyText).accountOf "b3:new" ∧
    ¬ (afterRotation friendlyText).SameHistory restingConfig 100 ⟨"b3:old"⟩ ⟨"b3:new"⟩ false := by
  refine ⟨bind_bind_rotated, accountOf_rotated_rawText.1, accountOf_rotated_rawText.2, by decide,
    by decide, ?_,
    accountOf_rotated_friendlyText.1.trans accountOf_rotated_friendlyText.2.symm, ?_⟩
  all_goals
    unfold TrustSources.SameHistory
    decide

end Duckton.Node
