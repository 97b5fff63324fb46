/-
  The TON settlement rail (settlement/ton.rs): dictionaries, the settle message, opening the
  per-job escrow with its terms, and settling it.

  `none` is a panic of the dictionary builder, which needs addresses that stay distinct when
  their workchain is cut to eight bits. What the rail deploys is given as the contract's
  storage; the network hop either confirms or fails.
-/
import Mathlib.Data.List.Induction
import Duckton.Settlement.Escrow
import Duckton.Ton.JobEscrow

namespace Duckton.Settlement

open Duckton.Proto Duckton.Ton
open Duckton.Ton.JobEscrow hiding candidatesCommitment Handled

/-! ## Types -/

structure Payout where
  recipient : WalletAddress
  amount : Nat
  deriving DecidableEq, Repr

structure SettlementOutcome where
  resultHash : BitVec 256
  base : Nat
  winner : Payout
  participants : List Payout
  platformFee : Nat
  deriving DecidableEq, Repr

/-- What is directed out of the escrow. -/
def SettlementOutcome.legs (o : SettlementOutcome) : Nat :=
  o.winner.amount + o.platformFee + (o.participants.map Payout.amount).sum

/-- The sum in `u128`, with its overflow check. -/
def SettlementOutcome.total (o : SettlementOutcome) : Option Nat :=
  if o.legs < 2 ^ 128 then some o.legs else none

/-! ## Dictionary entries -/

/-- `if !seen.contains(&w) { seen.push(w) }`. -/
def pushNew (seen : List WalletAddress) (w : WalletAddress) : List WalletAddress :=
  if w ∈ seen then seen else seen ++ [w]

/-- `address_key_bits`. -/
def addressKey (w : WalletAddress) : List Bool :=
  (Cell.empty.storeAddress w).bits

/-- The `uint1` value `1`. -/
def presentCell : Cell :=
  Cell.empty.storeUint 1 1

def candidatesDictEntries (candidates : List WalletAddress) : List (List Bool × Cell) :=
  (candidates.foldl pushNew []).map fun w => (addressKey w, presentCell)

/-- One step of the merge: equal wallets are added up, zero amounts are skipped. -/
def mergePayout (merged : List (WalletAddress × Nat)) (p : Payout) :
    List (WalletAddress × Nat) :=
  if p.amount = 0 then merged
  else if merged.any fun e => e.1 = p.recipient then
    merged.map fun e => if e.1 = p.recipient then (e.1, satAdd e.2 p.amount) else e
  else merged ++ [(p.recipient, p.amount)]

def participantsDictEntries (participants : List Payout) : List (List Bool × Cell) :=
  (participants.foldl mergePayout []).map fun e => (addressKey e.1, Cell.empty.storeCoins e.2)

/-- The cell that is hashed: nothing but the candidate dictionary. -/
def candidatesCell (candidates : List WalletAddress) : Option Cell :=
  Cell.empty.storeDict addressKeyBits (candidatesDictEntries candidates)

/-- The commitment bound into the terms at open. -/
def candidatesCommitment (sha256 : Bytes → BitVec 256) (candidates : List WalletAddress) :
    Option (BitVec 256) :=
  (candidatesCell candidates).map fun c => c.reprHash sha256

/-! ## Messages -/

def buildEscrowSettle (queryId : Nat) (resultHash : BitVec 256) (winner : WalletAddress)
    (base winnerAmount platformFee : Nat) (participants : List Payout)
    (candidates : List WalletAddress) : Option Cell := do
  let c := ((Cell.empty.storeUint opEscrowSettle 32).storeUint queryId 64).storeU256 resultHash
  let c := (((c.storeAddress winner).storeCoins base).storeCoins winnerAmount).storeCoins platformFee
  let c ← c.storeDict addressKeyBits (participantsDictEntries participants)
  c.storeDict addressKeyBits (candidatesDictEntries candidates)

/-! ## The rail -/

/-- `TonSettlement`. `candidates` is the explicit override of `with_candidates`. -/
structure TonRail where
  arbiter : WalletAddress
  requester : Option WalletAddress
  hasEscrowCode : Bool
  treasury : Option WalletAddress
  platformFeeBps : Nat
  participationCommissionBps : Nat
  candidates : List WalletAddress
  deadline : Nat
  queryId : Nat
  deployError : Option String

/-- `panicked` is not an error value of the source: it stops the task. -/
inductive SettleError where
  | backend (detail : String)
  | treasuryMismatch (bound expected : WalletAddress) (paramsVersion : Nat)
  | payoutExceedsEscrow (payout escrow : Nat)
  | panicked
  deriving DecidableEq, Repr

/-- The returned handle and the storage of the escrow it stands for. -/
structure EscrowHandle where
  maxBid : Nat
  storage : EscrowStorage

/-- The fee recipient: the chain's value wins and a local one must match it. Without either, the
    arbiter stands in as long as no fee is charged. -/
def TonRail.treasuryFor (rail : TonRail) (feeRecipient : Option WalletAddress)
    (feeBps paramsVersion : Nat) : Except SettleError WalletAddress :=
  match feeRecipient, rail.treasury with
  | some chain, some bound =>
    if bound ≠ chain then .error (.treasuryMismatch bound chain paramsVersion) else .ok chain
  | some chain, none => .ok chain
  | none, some t => .ok t
  | none, none =>
    if feeBps = 0 then .ok rail.arbiter
    else .error (.backend ("cannot open escrow: platform fee is non-zero but no fee recipient is " ++
      "known (no GlobalParams source wired AND no local treasury configured). Wire a params " ++
      "source or configure the treasury so the fee is not misdirected to the " ++
      "arbiter/coordinator wallet."))

def TonRail.openEscrowWithTerms (rail : TonRail) (sha256 : Bytes → BitVec 256) (maxBid : Nat)
    (expectedHash : BitVec 256) (paramsVersion : Nat) (candidates : List WalletAddress)
    (feeRecipient : Option WalletAddress) (platformFeeBps participationCommissionBps : Option Nat) :
    Except SettleError EscrowHandle :=
  let feeBps := platformFeeBps.getD rail.platformFeeBps
  let commBps := participationCommissionBps.getD rail.participationCommissionBps
  let cands := if candidates.isEmpty then rail.candidates else candidates
  if rail.hasEscrowCode = false then
    .error (.backend "open_escrow requires escrow code wiring")
  else match rail.requester with
    | none => .error (.backend "open_escrow requires a requester wallet")
    | some requester => match rail.treasuryFor feeRecipient feeBps paramsVersion with
      | .error e => .error e
      | .ok treasury => match candidatesCommitment sha256 cands with
        | none => .error .panicked
        | some candidatesHash => match rail.deployError with
          | some detail => .error (.backend detail)
          | none => .ok
            { maxBid := maxBid
              storage :=
                { requester := requester.onchain, arbiter := rail.arbiter.onchain
                  escrowAmount := maxBid, deadline := rail.deadline, settled := false
                  terms :=
                    { treasury := treasury.onchain, expectedHash := expectedHash
                      candidatesHash := candidatesHash, paramsVersion := paramsVersion
                      platformFeeBps := feeBps, participationCommissionBps := commBps }
                  pending := Ledger.empty } }

/-- The set presented at settle: the override, or the payees of the outcome. -/
def TonRail.presented (rail : TonRail) (outcome : SettlementOutcome) : List WalletAddress :=
  if rail.candidates.isEmpty then
    (outcome.participants.map Payout.recipient).foldl pushNew [outcome.winner.recipient]
  else rail.candidates

/-- The body of the settle message, unless a dictionary cannot be built. -/
def TonRail.settleBody (rail : TonRail) (outcome : SettlementOutcome) : Option Cell :=
  buildEscrowSettle rail.queryId outcome.resultHash outcome.winner.recipient outcome.base
    outcome.winner.amount outcome.platformFee outcome.participants (rail.presented outcome)

/-- `settle`, up to the message it sends to the escrow. -/
def TonRail.settle (rail : TonRail) (h : EscrowHandle) (outcome : SettlementOutcome) :
    Except SettleError Cell :=
  match outcome.total with
  | none => .error .panicked
  | some total =>
    if h.maxBid < total then .error (.payoutExceedsEscrow total h.maxBid)
    else match rail.settleBody outcome with
      | some body => .ok body
      | none => .error .panicked

variable {candidates ws : List WalletAddress} {w : WalletAddress}

variable {rail : TonRail} {handle : EscrowHandle} {seen : List WalletAddress}

variable (ps : List Payout) {xs ys : List WalletAddress} {sha256 : Bytes → BitVec 256}
    {root : Option Cell}

/-- What an opened escrow binds. -/
theorem openEscrowWithTerms_eq_ok {maxBid : Nat} {lock : BitVec 256}
    {version feeBps commBps : Nat} {feeRecipient : Option WalletAddress} (hne : candidates ≠ [])
    (h : rail.openEscrowWithTerms sha256 maxBid lock version candidates feeRecipient (some feeBps)
      (some commBps) = .ok handle) :
    ∃ requester treasury hash, candidatesCommitment sha256 candidates = some hash ∧
      handle = ⟨maxBid,
        { requester := requester, arbiter := rail.arbiter.onchain, escrowAmount := maxBid
          deadline := rail.deadline, settled := false
          terms := ⟨treasury, lock, hash, version, feeBps, commBps⟩, pending := Ledger.empty }⟩ := by
  have hempty : ¬ candidates.isEmpty = true := by simpa using hne
  unfold TonRail.openEscrowWithTerms at h
  dsimp only at h
  split_ifs at h
  split at h
  · cases h
  split at h
  · cases h
  split at h
  · cases h
  rename_i requester _ _ treasury _ _ hash hhash
  split at h
  · cases h
  · exact ⟨requester.onchain, treasury.onchain, hash, hhash, (Except.ok.inj h).symm⟩

theorem settle_eq_ok_iff {outcome : SettlementOutcome} {body : Cell} :
    rail.settle handle outcome = .ok body ↔
      (outcome.legs < 2 ^ 128 ∧ outcome.legs ≤ handle.maxBid) ∧
        rail.settleBody outcome = some body := by
  unfold TonRail.settle SettlementOutcome.total
  by_cases hfits : outcome.legs < 2 ^ 128
  · rw [if_pos hfits]
    dsimp only
    split_ifs with h
    · exact ⟨nofun, fun hok => absurd h (Nat.not_lt.mpr hok.1.2)⟩
    · cases rail.settleBody outcome with
      | none => exact ⟨nofun, fun hok => (nomatch hok.2)⟩
      | some c =>
        exact ⟨fun heq => ⟨⟨hfits, Nat.le_of_not_lt h⟩, congrArg some (Except.ok.inj heq)⟩,
          fun hok => congrArg Except.ok (Option.some.inj hok.2)⟩
  · rw [if_neg hfits]
    exact ⟨nofun, fun hok => absurd hok.1.1 hfits⟩

/-! ## Candidate sets -/

theorem mem_foldl_pushNew :
    w ∈ ws.foldl pushNew seen ↔ w ∈ seen ∨ w ∈ ws := by
  induction ws generalizing seen with
  | nil => simp
  | cons v ws ih =>
    have hstep : w ∈ pushNew seen v ↔ w ∈ seen ∨ w = v := by
      unfold pushNew
      split
      · rename_i hv
        exact ⟨Or.inl, fun h => h.elim id fun h => h ▸ hv⟩
      · rw [List.mem_append, List.mem_singleton]
    rw [List.foldl_cons, ih, hstep, List.mem_cons, or_assoc]

theorem nodup_foldl_pushNew (h : seen.Nodup) :
    (ws.foldl pushNew seen).Nodup := by
  induction ws generalizing seen with
  | nil => exact h
  | cons v ws ih =>
    refine ih ?_
    unfold pushNew
    split
    · exact h
    · rename_i hv
      exact List.Nodup.append h (List.nodup_singleton v) (List.disjoint_singleton.mpr hv)

theorem addressKey_eq (w : WalletAddress) : addressKey w = w.onchain.toBits := by
  unfold addressKey
  rw [Cell.storeAddress_eq]
  rfl

/-- The keys of the candidate dictionary. -/
def candidateKeys (candidates : List WalletAddress) : List (List Bool) :=
  (candidates.foldl pushNew []).map addressKey

theorem candidatesDictEntries_eq (candidates : List WalletAddress) :
    candidatesDictEntries candidates =
      (candidateKeys candidates).map fun k => (k, presentCell) := by
  unfold candidatesDictEntries candidateKeys
  rw [List.map_map]
  rfl

theorem keys_candidatesDictEntries (candidates : List WalletAddress) :
    (candidatesDictEntries candidates).map Prod.fst = candidateKeys candidates := by
  rw [candidatesDictEntries_eq, List.map_map]
  exact List.map_id _

theorem mem_candidateKeys {k : List Bool} :
    k ∈ candidateKeys candidates ↔ ∃ w ∈ candidates, w.onchain.toBits = k := by
  unfold candidateKeys
  rw [List.mem_map]
  refine exists_congr fun w => ?_
  rw [mem_foldl_pushNew, addressKey_eq]
  simp

/-- The addresses stay apart on chain. -/
def ApartOnChain (candidates : List WalletAddress) : Prop :=
  ∀ w ∈ candidates, ∀ w' ∈ candidates, w.onchain = w'.onchain → w = w'

theorem ApartOnChain.mono {a b : List WalletAddress} (h : ApartOnChain b) (hsub : a ⊆ b) :
    ApartOnChain a :=
  fun w hw w' hw' heq => h w (hsub hw) w' (hsub hw') heq

/-- Entries under the keys of distinct wallets that stay apart are what the builder takes. -/
theorem ApartOnChain.keyed {entries : List (List Bool × Cell)} (h : ApartOnChain candidates)
    (hws : ∀ w ∈ ws, w ∈ candidates) (hnodup : ws.Nodup)
    (hkeys : entries.map Prod.fst = ws.map addressKey) : Prefix.Keyed addressKeyBits entries := by
  constructor
  · intro e he
    obtain ⟨w, -, hw⟩ := List.mem_map.mp (hkeys ▸ List.mem_map_of_mem he)
    rw [← hw]
    exact w.onchain.length_toBits
  · rw [hkeys]
    refine List.Nodup.map_on (fun w hw w' hw' heq => ?_) hnodup
    rw [addressKey_eq, addressKey_eq, Address.toBits_inj] at heq
    exact h w (hws w hw) w' (hws w' hw') heq

/-- The dictionary builder wants just that. -/
theorem keyed_candidatesDictEntries_iff :
    Prefix.Keyed addressKeyBits (candidatesDictEntries candidates) ↔ ApartOnChain candidates := by
  constructor
  · intro h w hw w' hw' heq
    have hnodup := h.nodup
    rw [keys_candidatesDictEntries] at hnodup
    refine List.inj_on_of_nodup_map hnodup (mem_foldl_pushNew.mpr (.inr hw))
      (mem_foldl_pushNew.mpr (.inr hw')) ?_
    rw [addressKey_eq, addressKey_eq, heq]
  · intro h
    refine h.keyed (fun w hw => ?_) (nodup_foldl_pushNew List.nodup_nil)
      (keys_candidatesDictEntries candidates)
    exact (mem_foldl_pushNew.mp hw).resolve_left List.not_mem_nil

theorem candidatesCell_eq_some_iff {c : Cell} :
    candidatesCell candidates = some c ↔
      ∃ root, buildDict addressKeyBits (candidatesDictEntries candidates) = some root ∧
        Cell.empty.storeDictRoot root = c :=
  storeDict_eq_some_iff

/-- The commitment is the hash that the contract computes from the presented dictionary. -/
theorem candidatesCommitment_eq
    (h : buildDict addressKeyBits (candidatesDictEntries candidates) = some root) :
    candidatesCommitment sha256 candidates =
      some (JobEscrow.candidatesCommitment sha256 root) := by
  rw [candidatesCommitment, candidatesCell_eq_some_iff.mpr ⟨root, h, rfl⟩]
  rfl

theorem candidateKeys_eq_iff (h : ApartOnChain candidates)
    (hx : xs ⊆ candidates) (hy : ys ⊆ candidates) :
    (∀ k, k ∈ candidateKeys xs ↔ k ∈ candidateKeys ys) ↔ ∀ w, w ∈ xs ↔ w ∈ ys := by
  constructor
  · have hback : ∀ {as bs : List WalletAddress}, as ⊆ candidates → bs ⊆ candidates →
        (∀ k, k ∈ candidateKeys as → k ∈ candidateKeys bs) → as ⊆ bs := by
      intro as bs ha hb hkeys w hw
      obtain ⟨w', hw', heq⟩ := mem_candidateKeys.mp
        (hkeys _ (mem_candidateKeys.mpr ⟨w, hw, rfl⟩))
      rw [Address.toBits_inj] at heq
      rwa [h w (ha hw) w' (hb hw') heq.symm]
    intro hkeys w
    exact ⟨@hback xs ys hx hy (fun k => (hkeys k).mp) w, @hback ys xs hy hx (fun k => (hkeys k).mpr) w⟩
  · intro hsame k
    rw [mem_candidateKeys, mem_candidateKeys]
    exact exists_congr fun w => and_congr_left fun _ => hsame w

/-- The cell of a candidate set determines the set, as far as addresses are told apart on chain. -/
theorem candidatesCell_eq_iff (h : ApartOnChain candidates)
    (hx : xs ⊆ candidates) (hy : ys ⊆ candidates) :
    candidatesCell xs = candidatesCell ys ↔ ∀ w, w ∈ xs ↔ w ∈ ys := by
  have hkx := keyed_candidatesDictEntries_iff.mpr (h.mono hx)
  have hky := keyed_candidatesDictEntries_iff.mpr (h.mono hy)
  rw [candidatesDictEntries_eq] at hkx hky
  rw [← candidateKeys_eq_iff h hx hy, ← buildDict_const_eq_iff hkx hky,
    ← candidatesDictEntries_eq, ← candidatesDictEntries_eq]
  refine ⟨fun h => ?_, fun h => ?_⟩
  · exact Option.map_injective (fun _ _ => storeDictRoot_empty_inj.mp) h
  · exact congrArg (Option.map _) h

/-- The masterchain or the basechain. -/
def OnUsualChain (w : WalletAddress) : Prop :=
  w.workchain = 0 ∨ w.workchain = -1

/-- These two survive the cut to eight bits. -/
theorem OnUsualChain.onchain_inj {w' : WalletAddress} (h : OnUsualChain w) (h' : OnUsualChain w')
    (heq : w.onchain = w'.onchain) : w = w' := by
  obtain ⟨hwork, hhash⟩ := Address.mk.inj heq
  have hsame : w.workchain = w'.workchain := by
    rcases h with h | h <;> rcases h' with h' | h' <;> rw [h, h'] at hwork ⊢
    all_goals exact absurd hwork (by decide)
  cases w
  cases w'
  exact congr (congrArg WalletAddress.mk hsame) hhash

theorem apartOnChain_of_usual (h : ∀ w ∈ ws, OnUsualChain w) :
    ApartOnChain ws :=
  fun w hw w' hw' heq => (h w hw).onchain_inj (h w' hw') heq

/-- Addresses that stay apart on chain have a dictionary cell. -/
theorem candidatesCell_isSome (h : ApartOnChain candidates) :
    ∃ c, candidatesCell candidates = some c := by
  obtain ⟨root, hroot, -⟩ := buildDict_holds (keyed_candidatesDictEntries_iff.mpr h)
  exact ⟨_, candidatesCell_eq_some_iff.mpr ⟨root, hroot, rfl⟩⟩

/-- A commitment stands for the set of the candidates: their order and repetitions do not matter,
    and no other set has it as long as the two cells do not collide under the hash. -/
theorem candidatesCommitment_eq_iff (sha256 : Bytes → BitVec 256) (xs ys : List WalletAddress)
    (hx : ∀ w ∈ xs, OnUsualChain w) (hy : ∀ w ∈ ys, OnUsualChain w)
    (hfree : ∀ c d, candidatesCell xs = some c → candidatesCell ys = some d →
      c.reprHash sha256 = d.reprHash sha256 → c = d) :
    ∃ h h', candidatesCommitment sha256 xs = some h ∧ candidatesCommitment sha256 ys = some h' ∧
      (h = h' ↔ ∀ w, w ∈ xs ↔ w ∈ ys) := by
  have hall := apartOnChain_of_usual (List.forall_mem_append.mpr ⟨hx, hy⟩)
  have hleft := List.subset_append_left xs ys
  have hright := List.subset_append_right xs ys
  obtain ⟨c, hc⟩ := candidatesCell_isSome (hall.mono hleft)
  obtain ⟨d, hd⟩ := candidatesCell_isSome (hall.mono hright)
  refine ⟨c.reprHash sha256, d.reprHash sha256, ?_, ?_, ?_⟩
  · rw [candidatesCommitment, hc, Option.map_some]
  · rw [candidatesCommitment, hd, Option.map_some]
  · rw [← candidatesCell_eq_iff hall hleft hright, hc, hd, Option.some.injEq]
    exact ⟨hfree c d hc hd, fun h => congrArg _ h⟩

/-- Two orders of one set, one of them with a repetition. -/
theorem reordered_candidates_commit_alike :
    ∃ h h', candidatesCommitment foldDigest [⟨0, 1⟩, ⟨-1, 2⟩] = some h ∧
      candidatesCommitment foldDigest [⟨-1, 2⟩, ⟨0, 1⟩, ⟨-1, 2⟩] = some h' ∧
      (h = h' ↔ ∀ w, w ∈ [(⟨0, 1⟩ : WalletAddress), ⟨-1, 2⟩] ↔
        w ∈ [(⟨-1, 2⟩ : WalletAddress), ⟨0, 1⟩, ⟨-1, 2⟩]) := by
  have hx : ∀ w ∈ [(⟨0, 1⟩ : WalletAddress), ⟨-1, 2⟩], OnUsualChain w := by
    simp [OnUsualChain]
  have hy : ∀ w ∈ [(⟨-1, 2⟩ : WalletAddress), ⟨0, 1⟩, ⟨-1, 2⟩], OnUsualChain w := by
    simp [OnUsualChain]
  have hcells : candidatesCell [⟨0, 1⟩, ⟨-1, 2⟩] =
      candidatesCell [⟨-1, 2⟩, ⟨0, 1⟩, ⟨-1, 2⟩] := by
    rw [candidatesCell_eq_iff (apartOnChain_of_usual (List.forall_mem_append.mpr ⟨hx, hy⟩))
      (List.subset_append_left _ _) (List.subset_append_right _ _)]
    intro w
    simp only [List.mem_cons, List.not_mem_nil, or_false]
    tauto
  refine candidatesCommitment_eq_iff foldDigest _ _ hx hy ?_
  intro c d hc hd _
  exact Option.some.inj (hc.symm.trans (hcells.trans hd))

/-! ## Merged commissions -/

/-- All that is directed to `w`. -/
def owed (ps : List Payout) (w : WalletAddress) : Nat :=
  ((ps.filter fun p => p.recipient = w).map Payout.amount).sum

theorem owed_append_singleton (p : Payout) (w : WalletAddress) :
    owed (ps ++ [p]) w = owed ps w + if p.recipient = w then p.amount else 0 := by
  unfold owed
  by_cases h : p.recipient = w <;> simp [h]

theorem owed_le_sum (w : WalletAddress) : owed ps w ≤ (ps.map Payout.amount).sum :=
  (List.filter_sublist.map Payout.amount).sum_le_sum fun _ _ => Nat.zero_le _

/-- One entry for each wallet that is owed something, with what it is owed. -/
structure Merged (ps : List Payout) (merged : List (WalletAddress × Nat)) : Prop where
  nodup : (merged.map Prod.fst).Nodup
  mem : ∀ (w : WalletAddress) (x : Nat), (w, x) ∈ merged ↔ 0 < x ∧ x = owed ps w

theorem Merged.recipient_mem {ps : List Payout} {merged : List (WalletAddress × Nat)}
    (h : Merged ps merged) {x : Nat} (hmem : (w, x) ∈ merged) :
    w ∈ ps.map Payout.recipient := by
  obtain ⟨hpos, hx⟩ := (h.mem w x).mp hmem
  by_contra hnot
  have hnone : ps.filter (fun p => p.recipient = w) = [] := by
    rw [List.filter_eq_nil_iff]
    intro p hp hpw
    exact hnot (List.mem_map.mpr ⟨p, hp, of_decide_eq_true hpw⟩)
  have hzero : owed ps w = 0 := by
    unfold owed
    rw [hnone]
    rfl
  omega

theorem Merged.nil : Merged [] [] := by
  refine ⟨List.nodup_nil, fun w x => ?_⟩
  have hzero : owed [] w = 0 := rfl
  exact ⟨nofun, fun h => by omega⟩

section Merged

variable {ps : List Payout} {merged : List (WalletAddress × Nat)} {p : Payout}

theorem owed_concat_self (ps : List Payout) (p : Payout) :
    owed (ps ++ [p]) p.recipient = owed ps p.recipient + p.amount := by
  rw [owed_append_singleton, if_pos rfl]

theorem owed_concat_other (ps : List Payout) {w : WalletAddress} (hw : p.recipient ≠ w) :
    owed (ps ++ [p]) w = owed ps w := by
  rw [owed_append_singleton, if_neg hw, Nat.add_zero]

/-- A wallet has an entry just when it is owed something. -/
theorem Merged.any_iff (h : Merged ps merged) (w : WalletAddress) :
    (merged.any fun e => e.1 = w) = true ↔ 0 < owed ps w := by
  rw [List.any_eq_true]
  constructor
  · rintro ⟨⟨v, x⟩, hmem, hv⟩
    have hvx := (h.mem v x).mp hmem
    rw [decide_eq_true_iff] at hv
    rw [← hv, ← hvx.2]
    exact hvx.1
  · intro hpos
    exact ⟨_, (h.mem w _).mpr ⟨hpos, rfl⟩, by simp⟩

/-- A payout to a wallet that has an entry. -/
theorem Merged.add (h : Merged ps merged) (hpos : 0 < owed ps p.recipient)
    (hlt : owed (ps ++ [p]) p.recipient < 2 ^ 128) :
    Merged (ps ++ [p])
      (merged.map fun e => if e.1 = p.recipient then (e.1, satAdd e.2 p.amount) else e) := by
  have hself := owed_concat_self ps p
  have hadd : satAdd (owed ps p.recipient) p.amount = owed (ps ++ [p]) p.recipient := by
    rw [hself] at hlt ⊢
    exact Saturating.add_eq hlt
  constructor
  · rw [List.map_map]
    have hfst : (Prod.fst ∘ fun e : WalletAddress × Nat =>
        if e.1 = p.recipient then (e.1, satAdd e.2 p.amount) else e) = Prod.fst := by
      funext e
      show (if e.1 = p.recipient then (e.1, satAdd e.2 p.amount) else e).1 = e.1
      split <;> rfl
    rw [hfst]
    exact h.nodup
  · intro w x
    rw [List.mem_map]
    constructor
    · rintro ⟨⟨v, y⟩, hmem, heq⟩
      have hvy := (h.mem v y).mp hmem
      dsimp only at heq
      split_ifs at heq with hv
      · cases heq
        rw [hvy.2, hv, hadd]
        exact ⟨by omega, rfl⟩
      · cases heq
        rw [owed_concat_other ps (Ne.symm hv)]
        exact hvy
    · rintro ⟨hx, hxeq⟩
      by_cases hw : p.recipient = w
      · subst hw
        refine ⟨(p.recipient, owed ps p.recipient), (h.mem _ _).mpr ⟨hpos, rfl⟩, ?_⟩
        rw [if_pos rfl, hadd, hxeq]
      · refine ⟨(w, x), (h.mem w x).mpr ⟨hx, by rw [hxeq, owed_concat_other ps hw]⟩, ?_⟩
        exact if_neg (Ne.symm hw)

/-- The first payout to a wallet. -/
theorem Merged.push (h : Merged ps merged) (hnone : owed ps p.recipient = 0)
    (hamount : 0 < p.amount) : Merged (ps ++ [p]) (merged ++ [(p.recipient, p.amount)]) := by
  have hfresh : ∀ x, (p.recipient, x) ∉ merged := by
    intro x hmem
    have hx := (h.mem _ _).mp hmem
    omega
  constructor
  · rw [List.map_append, List.map_singleton]
    refine List.Nodup.append h.nodup (List.nodup_singleton _)
      (List.disjoint_singleton.mpr fun hin => ?_)
    obtain ⟨⟨v, y⟩, hmem, rfl⟩ := List.mem_map.mp hin
    exact hfresh y hmem
  · intro w x
    rw [List.mem_append, List.mem_singleton, Prod.mk.injEq]
    by_cases hw : p.recipient = w
    · subst hw
      rw [owed_concat_self, hnone, Nat.zero_add, or_iff_right (hfresh x)]
      exact ⟨fun ⟨_, hx⟩ => ⟨hx ▸ hamount, hx⟩, fun ⟨_, hx⟩ => ⟨rfl, hx⟩⟩
    · rw [owed_concat_other ps hw, h.mem]
      exact or_iff_left fun hc => hw hc.1.symm

/-- The merge adds a payout to its wallet's entry, which is there if something is owed already. -/
theorem Merged.step (h : Merged ps merged) (hlt : owed (ps ++ [p]) p.recipient < 2 ^ 128) :
    Merged (ps ++ [p]) (mergePayout merged p) := by
  unfold mergePayout
  by_cases hzero : p.amount = 0
  · rw [if_pos hzero]
    refine ⟨h.nodup, fun w x => ?_⟩
    rw [h.mem, owed_append_singleton, hzero, ite_self, Nat.add_zero]
  · rw [if_neg hzero]
    by_cases hpos : 0 < owed ps p.recipient
    · rw [if_pos ((h.any_iff _).mpr hpos)]
      exact h.add hpos hlt
    · rw [if_neg (fun hc => hpos ((h.any_iff _).mp hc))]
      exact h.push (Nat.eq_zero_of_not_pos hpos) (Nat.pos_of_ne_zero hzero)

end Merged

variable {ps : List Payout}

theorem merged_foldl (hlt : (ps.map Payout.amount).sum < 2 ^ 128) :
    Merged ps (ps.foldl mergePayout []) := by
  induction ps using List.reverseRecOn with
  | nil => exact Merged.nil
  | append_singleton ps p ih =>
    have hle := owed_le_sum (ps ++ [p]) p.recipient
    rw [List.foldl_append]
    refine Merged.step (ih ?_) (lt_of_le_of_lt hle hlt)
    rw [List.map_append, List.sum_append] at hlt
    exact Nat.lt_of_le_of_lt (Nat.le_add_right _ _) hlt

theorem length_mergePayout_le (merged : List (WalletAddress × Nat)) (p : Payout) :
    (mergePayout merged p).length ≤ merged.length + 1 := by
  unfold mergePayout
  split_ifs
  · omega
  · rw [List.length_map]
    omega
  · rw [List.length_append, List.length_singleton]

theorem length_foldl_mergePayout_le (ps : List Payout) :
    (ps.foldl mergePayout []).length ≤ ps.length := by
  induction ps using List.reverseRecOn with
  | nil => exact Nat.le_refl 0
  | append_singleton ps p ih =>
    have hstep := length_mergePayout_le (ps.foldl mergePayout []) p
    rw [List.foldl_append, List.length_append, List.length_singleton]
    exact Nat.le_trans hstep (Nat.add_le_add_right ih 1)

/-- Topping up the one entry of a wallet adds at most the amount. -/
theorem sum_topUp_le {merged : List (WalletAddress × Nat)} (h : (merged.map Prod.fst).Nodup)
    (w : WalletAddress) (amount : Nat) :
    ((merged.map fun e => if e.1 = w then (e.1, satAdd e.2 amount) else e).map Prod.snd).sum ≤
      (merged.map Prod.snd).sum + amount := by
  induction merged with
  | nil => exact Nat.zero_le _
  | cons e merged ih =>
    obtain ⟨hnot, htail⟩ := List.nodup_cons.mp h
    have hih := ih htail
    rw [List.map_cons, List.map_cons, List.sum_cons, List.map_cons, List.sum_cons]
    by_cases hw : e.1 = w
    · have hsame : merged.map (fun e => if e.1 = w then (e.1, satAdd e.2 amount) else e) =
          merged := by
        refine (List.map_congr_left fun f hf => if_neg fun hfw => hnot ?_).trans (List.map_id _)
        rw [hw, ← hfw]
        exact List.mem_map_of_mem hf
      have hadd : satAdd e.2 amount ≤ e.2 + amount := Saturating.add_le 128 _ _
      rw [hsame, if_pos hw]
      omega
    · rw [if_neg hw]
      omega

theorem sum_foldl_mergePayout_le (hlt : (ps.map Payout.amount).sum < 2 ^ 128) :
    ((ps.foldl mergePayout []).map Prod.snd).sum ≤ (ps.map Payout.amount).sum := by
  induction ps using List.reverseRecOn with
  | nil => exact Nat.le_refl 0
  | append_singleton ps p ih =>
    rw [List.map_append, List.sum_append] at hlt
    have hlt' : (ps.map Payout.amount).sum < 2 ^ 128 := by omega
    have htop := sum_topUp_le (merged_foldl hlt').nodup p.recipient p.amount
    have hih := ih hlt'
    rw [List.foldl_append, List.map_append, List.sum_append, List.map_singleton,
      List.sum_singleton]
    show ((mergePayout (ps.foldl mergePayout []) p).map Prod.snd).sum ≤ _
    generalize ps.foldl mergePayout [] = merged at htop hih ⊢
    unfold mergePayout
    split_ifs
    · omega
    · omega
    · rw [List.map_append, List.sum_append, List.map_singleton, List.sum_singleton]
      omega

/-- The participant dictionary is built whenever the wallets stay apart on chain. -/
theorem keyed_participantsDictEntries (hlt : (ps.map Payout.amount).sum < 2 ^ 128)
    (h : ApartOnChain (ps.map Payout.recipient)) :
    Prefix.Keyed addressKeyBits (participantsDictEntries ps) := by
  have hm := merged_foldl hlt
  have hkeys : (participantsDictEntries ps).map Prod.fst =
      ((ps.foldl mergePayout []).map Prod.fst).map addressKey := by
    unfold participantsDictEntries
    rw [List.map_map, List.map_map]
    rfl
  refine h.keyed (fun w hw => ?_) hm.nodup hkeys
  obtain ⟨⟨v, x⟩, hvx, rfl⟩ := List.mem_map.mp hw
  exact hm.recipient_mem hvx

/-! ## The message on chain -/

/-- The commission legs as accounts and amounts. -/
def mergedLegs (participants : List Payout) : List (Address × Nat) :=
  (participants.foldl mergePayout []).map fun e => (e.1.onchain, e.2)

variable {participants : List Payout} {candidates : List WalletAddress}

/-- The legs of the message never add up to more than the commissions they were merged from. -/
theorem sum_legs_le {legs : List (Address × Nat)}
    (hlt : (participants.map Payout.amount).sum < 2 ^ 128)
    (hperm : legs.Perm (mergedLegs participants)) :
    (legs.map Prod.snd).sum ≤ (participants.map Payout.amount).sum := by
  rw [(hperm.map Prod.snd).sum_eq, mergedLegs, List.map_map]
  exact sum_foldl_mergePayout_le hlt

/-- The contract visits the merged legs in the order of their keys. -/
theorem dictEntries_participants
    (h : buildDict addressKeyBits (participantsDictEntries participants) = some root) :
    ∃ legs : List (Address × Nat), legs.Perm (mergedLegs participants) ∧
      dictEntries root addressKeyBits = some (legs.map legEntry) := by
  obtain ⟨es, hperm, hes⟩ := (holds_of_buildDict h).entries
  have hentries : participantsDictEntries participants =
      (mergedLegs participants).map fun l => (l.1.toBits, Cell.empty.storeCoins l.2) := by
    unfold participantsDictEntries mergedLegs
    rw [List.map_map]
    refine List.map_congr_left fun e _ => ?_
    show (addressKey e.1, _) = (e.1.onchain.toBits, _)
    rw [addressKey_eq]
  rw [hentries] at hperm
  have hmap := congrFun (congrFun (List.eq_map_comp_perm
    fun l : Address × Nat => (l.1.toBits, Cell.empty.storeCoins l.2)) es) (mergedLegs participants)
  obtain ⟨legs, rfl, hlegs⟩ := hmap.mpr hperm
  refine ⟨legs, hlegs, ?_⟩
  rw [hes, List.map_map]
  rfl

theorem buildEscrowSettle_isSome
    (hp : Prefix.Keyed addressKeyBits (participantsDictEntries participants))
    (hc : Prefix.Keyed addressKeyBits (candidatesDictEntries candidates)) (queryId : Nat)
    (resultHash : BitVec 256) (winner : WalletAddress) (base winnerAmount platformFee : Nat) :
    ∃ body, buildEscrowSettle queryId resultHash winner base winnerAmount platformFee participants
      candidates = some body := by
  obtain ⟨proot, hproot, _⟩ := buildDict_holds hp
  obtain ⟨croot, hcroot, _⟩ := buildDict_holds hc
  unfold buildEscrowSettle Cell.storeDict
  rw [hproot, hcroot]
  exact ⟨_, rfl⟩

/-- The settle message parses to what was put into it; the query id keeps its low 64 bits. -/
theorem fromSlice_buildEscrowSettle {queryId : Nat} {resultHash : BitVec 256}
    {winner : WalletAddress} {base winnerAmount platformFee : Nat} {body : Cell}
    (h : buildEscrowSettle queryId resultHash winner base winnerAmount platformFee participants
      candidates = some body) (hbase : base < 2 ^ 120) (hwinner : winnerAmount < 2 ^ 120)
    (hfee : platformFee < 2 ^ 120) :
    ∃ proot croot, buildDict addressKeyBits (participantsDictEntries participants) = some proot ∧
      buildDict addressKeyBits (candidatesDictEntries candidates) = some croot ∧
      AllowedMessageToEscrow.fromSlice body.toSlice = some (.escrowSettle
        ⟨queryId % 2 ^ 64, resultHash, winner.onchain, base, winnerAmount, platformFee, proot,
          croot⟩) := by
  unfold buildEscrowSettle at h
  simp only [Option.bind_eq_bind, Option.bind_eq_some_iff, storeDict_eq_some_iff] at h
  obtain ⟨c, ⟨proot, hproot, rfl⟩, croot, hcroot, rfl⟩ := h
  refine ⟨proot, croot, hproot, hcroot, ?_⟩
  rw [storeDictRoot_eq, storeDictRoot_eq]
  simp only [Cell.storeCoins_eq, Cell.storeAddress_eq, Cell.storeU256, Cell.storeUint,
    Cell.storeBits, Cell.empty, Cell.toSlice, Cell.bits_mk, Cell.refs_mk, List.nil_append,
    List.append_assoc]
  have hop : opEscrowSettle < 2 ^ 32 := by decide
  unfold AllowedMessageToEscrow.fromSlice EscrowSettle.fromSlice
  simp only [Slice.loadUint_append hop, Slice.loadUint_ofNat, Slice.loadU256_append,
    Slice.loadAddress_append, Slice.loadCoins_append hbase, Slice.loadCoins_append hwinner,
    Slice.loadCoins_append hfee, if_true, Option.bind_eq_bind, Option.bind_some]
  have hp := Slice.loadDict_append proot [croot.isSome] croot.toList
  have hc := Slice.loadDict_append croot [] []
  rw [List.append_nil] at hc
  rw [List.singleton_append, hp]
  simp only [Option.bind_some, hc, Option.map_some]

end Duckton.Settlement
