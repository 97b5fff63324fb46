/-
  The stake-receipt wallet (StakeReceiptWallet.tolk), and the vault and its owner's wallet as two
  actors.

  The vault posts mints and burns to the wallet, a failed mint comes back; each direction is a
  first-in first-out queue. Which mints fail, which burn sends the action phase skips and which
  transactions of the vault revert is left to the events, so the results hold whatever the
  balances and the gas are. `receive_refines` says that a transaction of the vault's account is
  one of these events. Two ghost counters record failed mints and lost burns.

  The wallet rejects a burn of more than it holds, so its balance never drops below what `drain`
  gives for the queue; the covering invariant is stated with `drain`, the agreement of an
  undisturbed run with `drainExact`.
-/
import Duckton.Lib.Posting
import Duckton.Ton.Cell
import Duckton.Ton.VaultStake
import Mathlib.Data.List.Induction

namespace Duckton.Ton.ReceiptWallet

open Tvm
open StakeVault (VaultStorage VaultConfig AllowedMessageToVault Body VaultAction Chain StakeInv)

/-! ## The wallet contract -/

structure ReceiptWalletStorage where
  status : BitVec 4
  balance : Nat
  owner : Address
  master : Address
  deriving DecidableEq, Repr

/-- `jettonTransfer` is rejected whatever it carries; `other` is a body that parses as none of
    them. -/
inductive AllowedMessageToReceiptWallet where
  | jettonInternalTransfer (queryId amount : Nat) (fromAddress responseAddress : Address)
      (forwardTonAmount : Nat) (forwardPayload : Slice)
  | jettonTransfer
  | receiptBurn (queryId amount : Nat)
  | receiptTopUp (queryId : Nat)
  | other (isEmpty : Bool)

structure JettonTransferNotification where
  queryId : Nat
  amount : Nat
  sender : Address
  forwardPayload : Slice

abbrev WalletAction := Action Address JettonTransferNotification Nat

def onInternalMessage (storage : ReceiptWalletStorage) (senderAddress : Address) :
    AllowedMessageToReceiptWallet → Except Exit (ReceiptWalletStorage × List WalletAction)
  | .jettonInternalTransfer queryId amount _ _ forwardTonAmount forwardPayload => do
    require (senderAddress = storage.master) .notFromMaster
    let note : WalletAction := .send storage.owner (.coins forwardTonAmount) false false
      ⟨queryId, amount, storage.master, forwardPayload⟩
    return ({ storage with balance := storage.balance + amount },
      if 0 < forwardTonAmount then [note] else [])
  | .jettonTransfer => .error (.err .receiptLocked)
  | .receiptBurn _ amount => do
    require (senderAddress = storage.master) .notFromMaster
    require (amount ≤ storage.balance) .balanceNegative
    return ({ storage with balance := storage.balance - amount }, [])
  | .receiptTopUp _ => .ok (storage, [])
  | .other isEmpty => do
    require (isEmpty = true) .invalidOp
    return (storage, [])

/-- `RECEIPT_STATUS_LOCKED`. -/
def receiptStatusLocked : BitVec 4 :=
  1

section Wallet

variable {w w' : ReceiptWalletStorage} {sender : Address} {actions : List WalletAction}

theorem onInternalMessage_burn_iff {queryId amount : Nat} :
    onInternalMessage w sender (.receiptBurn queryId amount) = .ok (w', actions) ↔
      sender = w.master ∧ amount ≤ w.balance ∧
        ({ w with balance := w.balance - amount }, []) = (w', actions) := by
  simp only [onInternalMessage, require_bind_eq_ok, pure_eq_ok]

/-- Nobody but the master moves the receipt balance, and nobody the master. -/
theorem onInternalMessage_stranger {msg : AllowedMessageToReceiptWallet} (h : sender ≠ w.master)
    (hok : onInternalMessage w sender msg = .ok (w', actions)) : w' = w := by
  cases msg with
  | jettonInternalTransfer queryId amount fromAddress responseAddress forward payload =>
    simp only [onInternalMessage, require_bind_eq_ok] at hok
    exact absurd hok.1 h
  | jettonTransfer => cases hok
  | receiptBurn queryId amount => exact absurd (onInternalMessage_burn_iff.mp hok).1 h
  | receiptTopUp queryId =>
    cases hok
    rfl
  | other isEmpty =>
    simp only [onInternalMessage, require_bind_eq_ok, pure_eq_ok] at hok
    cases hok.2
    rfl

end Wallet

/-! ## The two actors -/

/-- What the vault posts to the wallet. -/
def isReceipt : Body → Bool
  | .jettonInternalTransfer .. | .receiptBurn .. => true
  | _ => false

/-- A vault body as the wallet parses it. A mint forwards nothing. -/
def toWalletMessage : Body → AllowedMessageToReceiptWallet
  | .jettonInternalTransfer queryId amount fromAddress responseAddress =>
    .jettonInternalTransfer queryId amount fromAddress responseAddress 0 ⟨[], []⟩
  | .receiptBurn queryId amount => .receiptBurn queryId amount
  | _ => .other false

/-- The receipt body an action sends. `dropped`: a send that ignores errors is skipped. -/
def receiptSend (dropped : Bool) : VaultAction → Option Body
  | .send _ _ _ ignoreErrors body =>
    if isReceipt body && !(ignoreErrors && dropped) then some body else none
  | _ => none

def receiptSends (dropped : Bool) (actions : List VaultAction) : List Body :=
  actions.filterMap (receiptSend dropped)

/-- The vault, the wallet of its owner, the messages on their way, and the two ghost counters. -/
structure System where
  vault : VaultStorage
  wallet : ReceiptWalletStorage
  toWallet : List Body
  toVault : List Body
  failedMints : Nat
  droppedBurns : Nat

inductive Event where
  /-- A message reaches the vault; its transaction may revert, its burn send may be skipped. -/
  | vaultReceives (inMsg : InMessage) (msg : AllowedMessageToVault) (commits dropped : Bool)
  /-- The next message of the vault reaches the wallet. It may fail there. -/
  | walletReceives (fails : Bool)
  /-- Somebody else calls the wallet. -/
  | walletCalled (sender : Address) (msg : AllowedMessageToReceiptWallet)
  /-- The next failed mint reaches the vault. -/
  | mintReturns
  /-- A payout of the vault comes back. -/
  | payoutReturns (sender : Address) (value queryId : Nat)

variable (chain : Chain) (s : System)

def System.vaultReceives (inMsg : InMessage)
    (msg : AllowedMessageToVault) (commits dropped : Bool) : System :=
  match StakeVault.onInternalMessage chain s.vault inMsg msg with
  | .error _ => s
  | .ok (storage, actions) =>
    if commits then
      { s with
        vault := storage
        toWallet := s.toWallet ++ receiptSends dropped actions
        droppedBurns := s.droppedBurns +
          ((receiptSends false actions).length - (receiptSends dropped actions).length) }
    else s

/-- A mint that fails comes back; a burn is not bounceable and is lost. -/
def System.walletFails (body : Body) (rest : List Body) : System :=
  match body with
  | .jettonInternalTransfer .. =>
    { s with toWallet := rest, toVault := s.toVault ++ [body], failedMints := s.failedMints + 1 }
  | _ => { s with toWallet := rest }

def System.walletReceives (fails : Bool) : System :=
  match s.toWallet with
  | [] => s
  | body :: rest =>
    match onInternalMessage s.wallet chain.self (toWalletMessage body) with
    | .error _ => s.walletFails body rest
    | .ok (wallet, _) =>
      if fails then
        match body with
        | .receiptBurn .. => { s with toWallet := rest, droppedBurns := s.droppedBurns + 1 }
        | _ => s.walletFails body rest
      else { s with wallet := wallet, toWallet := rest }

/-- The vault itself reaches the wallet through the queue only. -/
def System.walletCalled (sender : Address) (msg : AllowedMessageToReceiptWallet) : System :=
  if sender = chain.self then s
  else
    match onInternalMessage s.wallet sender msg with
    | .error _ => s
    | .ok (wallet, _) => { s with wallet := wallet }

/-- The bounce handler of the vault. -/
def System.vaultBounced (sender : Address) (value : Nat) (body : Body) : System :=
  match StakeVault.onBouncedMessage s.vault sender value body with
  | .error _ => s
  | .ok vault => { s with vault := vault }

def step : Event → System
  | .vaultReceives inMsg msg commits dropped => s.vaultReceives chain inMsg msg commits dropped
  | .walletReceives fails => s.walletReceives chain fails
  | .walletCalled sender msg => s.walletCalled chain sender msg
  | .mintReturns =>
    match s.toVault with
    | [] => s
    | body :: rest =>
      { s with toVault := rest }.vaultBounced
        (chain.calcReceiptWalletAddress s.vault.owner chain.self s.vault.config.receiptWalletCode)
        minTonsForStorage body
  | .payoutReturns sender value queryId => s.vaultBounced sender value (.stakePayout queryId)

/-- A deployed vault, and a wallet as the first mint deploys it. -/
def deployed (owner : Address) (config : VaultConfig) : System where
  vault := (StakeVault.deployed owner config 0 0).storage
  wallet := ⟨receiptStatusLocked, 0, owner, chain.self⟩
  toWallet := []
  toVault := []
  failedMints := 0
  droppedBurns := 0

/-! ## What the vault posts -/

/-- Nothing of this goes to the wallet. -/
def NoReceipts (actions : List VaultAction) : Prop :=
  ∀ a ∈ actions, ∀ dropped, receiptSend dropped a = none

/-- What an accepted message does to the supply, and what it queues for the wallet. -/
inductive SupplyMove (chain : Chain) (s s' : VaultStorage) : List VaultAction → Prop
  | minted (queryId amount : Nat) (hsupply : s'.totalSupply = s.totalSupply + amount) :
    SupplyMove chain s s' [StakeVault.mintReceipt chain s amount queryId]
  | burned (queryId amount : Nat) (hamount : amount ≤ s.totalSupply)
    (hsupply : s'.totalSupply = s.totalSupply - amount) {rest : List VaultAction}
    (hrest : NoReceipts rest) :
    SupplyMove chain s s' (StakeVault.burnReceipt chain s amount queryId :: rest)
  | kept (hsupply : s'.totalSupply = s.totalSupply) {actions : List VaultAction}
    (hactions : NoReceipts actions) : SupplyMove chain s s' actions

section Sends

variable {chain : Chain} {s s' : VaultStorage} {inMsg : InMessage} {dropped : Bool}
  {actions rest : List VaultAction}

theorem noReceipts_nil : NoReceipts [] :=
  nofun

theorem noReceipts_cons {a : VaultAction} (ha : ∀ dropped, receiptSend dropped a = none)
    (hrest : NoReceipts rest) : NoReceipts (a :: rest) :=
  List.forall_mem_cons.mpr ⟨ha, hrest⟩

theorem noReceipts_payout (recipient : Address) (amount queryId : Nat) (hrest : NoReceipts rest) :
    NoReceipts (StakeVault.payoutIfPositive recipient amount queryId ++ rest) := by
  unfold StakeVault.payoutIfPositive
  split
  · exact noReceipts_cons (fun _ => rfl) hrest
  · exact hrest

theorem receiptSends_eq_nil (h : NoReceipts actions) : receiptSends dropped actions = [] :=
  List.filterMap_eq_nil_iff.mpr fun a ha => h a ha dropped

theorem receiptSends_burn (storage : VaultStorage) (amount queryId : Nat)
    (hrest : NoReceipts rest) :
    receiptSends dropped (StakeVault.burnReceipt chain storage amount queryId :: rest) =
      if dropped then [] else [.receiptBurn queryId amount] := by
  have hnil : rest.filterMap (receiptSend dropped) = [] := receiptSends_eq_nil hrest
  cases dropped with
  | true => exact hnil
  | false => exact congrArg (Body.receiptBurn queryId amount :: ·) hnil

theorem supplyMove_internal {msg : AllowedMessageToVault}
    (h : StakeVault.onInternalMessage chain s inMsg msg = .ok (s', actions)) :
    SupplyMove chain s s' actions := by
  have hneutral : msg.Neutral → SupplyMove chain s s' actions := by
    intro hmsg
    obtain ⟨hs', hactions⟩ := StakeVault.onInternalMessage_neutral hmsg h
    refine .kept (by rw [hs']) ?_
    rcases hactions with rfl | ⟨code, rfl⟩ | ⟨_, _, _, rfl⟩
    · exact noReceipts_nil
    all_goals exact noReceipts_cons (fun _ => rfl) noReceipts_nil
  cases msg with
  | stakeDeposit queryId amount =>
    obtain ⟨_, _, _, hr⟩ := StakeVault.stakeDeposit_eq_ok_iff.mp h
    cases hr
    exact .minted queryId amount rfl
  | stakeRequestUnbond queryId amount =>
    obtain ⟨_, _, _, hr⟩ := StakeVault.stakeRequestUnbond_eq_ok_iff.mp h
    cases hr
    refine .kept ?_ noReceipts_nil
    rfl
  | stakeWithdraw queryId =>
    obtain ⟨_, _, _, hsupply, hr⟩ := StakeVault.stakeWithdraw_eq_ok_iff.mp h
    cases hr
    refine .burned queryId _ hsupply rfl ?_
    exact noReceipts_cons (fun _ => rfl) (noReceipts_cons (fun _ => rfl) noReceipts_nil)
  | stakeKeeperWithdraw queryId =>
    obtain ⟨_, _, hsupply, hr⟩ := StakeVault.stakeKeeperWithdraw_eq_ok_iff.mp h
    cases hr
    refine .burned queryId _ hsupply rfl ?_
    refine noReceipts_cons (fun _ => rfl) (noReceipts_payout _ _ _ ?_)
    exact noReceipts_cons (fun _ => rfl) noReceipts_nil
  | stakeSlash queryId amount reason challenger =>
    obtain ⟨_, _, hsupply, _, hr⟩ := StakeVault.stakeSlash_eq_ok_iff.mp h
    cases hr
    refine .burned queryId amount hsupply rfl ?_
    rw [StakeVault.slashPayouts, List.append_assoc]
    refine noReceipts_payout _ _ _ (noReceipts_payout _ _ _ ?_)
    rw [← List.append_nil (StakeVault.payoutIfPositive _ _ _)]
    exact noReceipts_payout _ _ _ noReceipts_nil
  | stakeClaim queryId recipient =>
    obtain ⟨_, _, _, hr⟩ := StakeVault.stakeClaim_eq_ok_iff.mp h
    cases hr
    refine .kept ?_ (noReceipts_cons (fun _ => rfl) noReceipts_nil)
    rfl
  | _ => exact hneutral trivial

end Sends

/-! ## The vault's account takes part

  A transaction of the account is a `vaultReceives`: it commits or not, and its burn send was
  skipped or not. -/

/-- The receipt bodies among sent messages. -/
def posted (sent : List (Message Address Body)) : List Body :=
  (sent.map Message.body).filter isReceipt

section Account

variable {chain : Chain} {p q : Phase Address Body Nat} {inValue : Nat}
  {actions : List VaultAction}

theorem posted_append (as bs : List (Message Address Body)) :
    posted (as ++ bs) = posted as ++ posted bs := by
  unfold posted
  rw [List.map_append, List.filter_append]

theorem step_posted {a : VaultAction} (ha : ∀ dropped, receiptSend dropped a = none)
    (h : p.step inValue a = some q) : posted q.sent = posted p.sent := by
  cases a with
  | send dest value bounce ignoreErrors body =>
    have hbody : isReceipt body = false := by
      have hnone := ha false
      rw [receiptSend, Bool.and_false, Bool.not_false, Bool.and_true] at hnone
      by_contra hreceipt
      rw [if_pos (Bool.eq_true_of_not_eq_false hreceipt)] at hnone
      cases hnone
    simp only [Phase.step] at h
    split at h
    · cases h
      rw [Phase.pay, posted_append]
      simp [posted, hbody]
    · split at h
      · cases h
        rfl
      · cases h
  | reserveExact amount =>
    rw [Phase.step_reserve] at h
    split at h
    · cases h
      rfl
    · cases h
  | setCode code =>
    cases h
    rfl

theorem run_posted (ha : NoReceipts actions) (h : p.run inValue actions = some q) :
    posted q.sent = posted p.sent := by
  induction actions generalizing p with
  | nil =>
    cases h
    rfl
  | cons a actions ih =>
    rw [Phase.run_cons, Option.bind_eq_some_iff] at h
    obtain ⟨r, hr, hrest⟩ := h
    rw [ih (fun b hb => ha b (List.mem_cons_of_mem a hb)) hrest,
      step_posted (ha a List.mem_cons_self) hr]

theorem posted_burned (storage : VaultStorage) (amount queryId : Nat) :
    posted (StakeVault.burned chain storage amount queryId p).sent =
      posted p.sent ++
        if p.remaining < StakeVault.burnValue then [] else [.receiptBurn queryId amount] := by
  unfold StakeVault.burned
  by_cases h : StakeVault.burnValue ≤ p.remaining
  · rw [if_pos h, if_neg (Nat.not_lt.mpr h), Phase.pay, posted_append]
    rfl
  · rw [if_neg h, if_pos (Nat.lt_of_not_le h), List.append_nil]

/-- What a committed transaction has posted is what its actions post, for some choice of skipping. -/
theorem exists_dropped {s s' : VaultStorage} {funds : Nat} (hmove : SupplyMove chain s s' actions)
    (h : (Phase.start funds).run inValue actions = some q) :
    ∃ dropped, posted q.sent = receiptSends dropped actions := by
  cases hmove with
  | minted queryId amount hsupply =>
    refine ⟨false, ?_⟩
    rw [StakeVault.mintReceipt, Phase.run_cons, Phase.step_send, Phase.start_remaining] at h
    by_cases hfunds : minTonsForStorage ≤ funds
    · rw [if_pos hfunds, Option.bind_some, Phase.run_nil, Option.some.injEq] at h
      subst h
      rfl
    · rw [if_neg hfunds] at h
      cases h
  | burned queryId amount hamount hsupply hrest =>
    refine ⟨decide (funds < StakeVault.burnValue), ?_⟩
    rw [StakeVault.run_burnReceipt] at h
    rw [run_posted hrest h, posted_burned, receiptSends_burn s amount queryId hrest]
    simp only [decide_eq_true_eq]
    rfl
  | kept hsupply hactions =>
    refine ⟨false, ?_⟩
    rw [run_posted hactions h, receiptSends_eq_nil hactions]
    rfl

theorem receive_refines (chain : Chain) (v : StakeVault.Vault) (s : System)
    (hvault : s.vault = v.storage) (inMsg : InMessage) (msg : AllowedMessageToVault) :
    ∃ commits dropped sent,
      (StakeVault.step chain v (.receive inMsg msg)).storage =
          (step chain s (.vaultReceives inMsg msg commits dropped)).vault ∧
        (StakeVault.step chain v (.receive inMsg msg)).outbound = v.outbound ++ sent ∧
        (step chain s (.vaultReceives inMsg msg commits dropped)).toWallet =
          s.toWallet ++ posted sent := by
  rcases v.receive_cases inMsg.valueCoins
      (StakeVault.onInternalMessage chain v.storage inMsg msg) with
    hsame | ⟨storage, actions, p, hc, hp, heq⟩
  · refine ⟨false, false, [], ?_⟩
    have hrejected : step chain s (.vaultReceives inMsg msg false false) = s := by
      rw [step, System.vaultReceives]
      split
      · rfl
      · rfl
    rw [StakeVault.step, hsame, hrejected, hvault, List.append_nil]
    exact ⟨rfl, rfl, (List.append_nil _).symm⟩
  · obtain ⟨dropped, hposted⟩ := exists_dropped (supplyMove_internal hc) hp
    refine ⟨true, dropped, p.sent, ?_⟩
    rw [StakeVault.step, heq, step, System.vaultReceives, hvault, hc, hposted]
    exact ⟨rfl, rfl, rfl⟩

/-- Whatever messages the vault's account gets, the two actors follow it: with an event for each,
    the vault holds the same and the wallet's queue is what the account posted. -/
theorem account_simulated (owner : Address) (config : VaultConfig) (code balance : Nat)
    (msgs : List (InMessage × AllowedMessageToVault)) :
    let v := Run.final (StakeVault.step chain) (StakeVault.deployed owner config code balance)
      (msgs.map fun m => .receive m.1 m.2)
    ∃ events, List.Forall₂ (fun m e => ∃ commits dropped,
        e = .vaultReceives m.1 m.2 commits dropped) msgs events ∧
      (Run.final (step chain) (deployed chain owner config) events).vault = v.storage ∧
      (Run.final (step chain) (deployed chain owner config) events).toWallet =
        posted v.outbound := by
  induction msgs using List.reverseRecOn with
  | nil => exact ⟨[], .nil, rfl, rfl⟩
  | append_singleton msgs m ih =>
    obtain ⟨events, hevents, hvault, hposted⟩ := ih
    obtain ⟨commits, dropped, sent, hstorage, hout, hqueue⟩ :=
      receive_refines chain _ _ hvault m.1 m.2
    refine ⟨events ++ [.vaultReceives m.1 m.2 commits dropped],
      List.rel_append hevents (.cons ⟨commits, dropped, rfl⟩ .nil), ?_⟩
    simp only [List.map_append, Run.final_append]
    refine ⟨hstorage.symm, hqueue.trans ?_⟩
    rw [hposted, ← posted_append]
    exact congrArg posted hout.symm

end Account

/-! ## Supply and receipts -/

/-- A body in the queue as the posting it is. -/
def posting : Body → Posting
  | .jettonInternalTransfer _ amount _ _ => .credit amount
  | .receiptBurn _ amount => .debit amount
  | _ => .credit 0

/-- The receipt balance once the queue is drained. -/
def System.due : Nat :=
  Posting.drain s.wallet.balance (s.toWallet.map posting)

def mintAmount : Body → Nat
  | .jettonInternalTransfer _ amount _ _ => amount
  | _ => 0

/-- What the failed mints on their way back will take from the supply, at most. -/
def System.returning : Nat :=
  (s.toVault.map mintAmount).sum

/-- No mint failed and no burn was lost. -/
def System.Undisturbed : Prop :=
  s.failedMints = 0 ∧ s.droppedBurns = 0

/-- The supply is covered by the receipts once everything on its way has arrived. -/
structure Covered (chain : Chain) (s : System) : Prop where
  stake : StakeInv s.vault
  master : s.wallet.master = chain.self
  receipts : ∀ body ∈ s.toWallet, isReceipt body
  mints : ∀ body ∈ s.toVault, ∃ queryId amount fromAddress responseAddress,
    body = .jettonInternalTransfer queryId amount fromAddress responseAddress
  supply : s.vault.totalSupply ≤ s.due + s.returning
  agrees : s.Undisturbed → s.toVault = [] ∧
    Posting.drainExact s.wallet.balance (s.toWallet.map posting) = some s.vault.totalSupply

section Steps

variable {chain : Chain} {s : System}

variable {vault : VaultStorage} {queryId amount : Nat}

section

variable (hs : Covered chain s)

include hs

/-- A message that the vault posts while it changes its supply accordingly. -/
theorem Covered.post {body : Body} (hstake : StakeInv vault) (hreceipt : isReceipt body)
    (hsupply : vault.totalSupply ≤ (posting body).apply s.due + s.returning)
    (hexact : (posting body).applyExact s.vault.totalSupply = some vault.totalSupply) :
    Covered chain { s with vault := vault, toWallet := s.toWallet ++ [body] } := by
  refine ⟨hstake, hs.master, ?_, hs.mints, ?_, ?_⟩
  · exact List.forall_mem_append.mpr ⟨hs.receipts, List.forall_mem_singleton.mpr hreceipt⟩
  · show vault.totalSupply ≤ Posting.drain _ ((s.toWallet ++ [body]).map posting) + s.returning
    rw [List.map_append, List.map_singleton, Posting.drain_concat]
    exact hsupply
  · intro hundisturbed
    obtain ⟨hempty, hagrees⟩ := hs.agrees hundisturbed
    refine ⟨hempty, ?_⟩
    show Posting.drainExact _ ((s.toWallet ++ [body]).map posting) = some vault.totalSupply
    rw [List.map_append, List.map_singleton, Posting.drainExact_concat, hagrees]
    exact hexact

variable {fromAddress responseAddress : Address} {rest : List Body}

/-- A mint and its supply are posted together. -/
theorem Covered.mint (hstake : StakeInv vault)
    (hsupply : vault.totalSupply = s.vault.totalSupply + amount) :
    Covered chain { s with
      vault := vault
      toWallet := s.toWallet ++
        [.jettonInternalTransfer queryId amount fromAddress responseAddress] } := by
  have hcovered := hs.supply
  refine hs.post hstake rfl ?_ (congrArg some hsupply.symm)
  show vault.totalSupply ≤ s.due + amount + s.returning
  omega

/-- A burn takes no more than the supply. -/
theorem Covered.burn (hstake : StakeInv vault) (hamount : amount ≤ s.vault.totalSupply)
    (hsupply : vault.totalSupply = s.vault.totalSupply - amount) :
    Covered chain { s with
      vault := vault, toWallet := s.toWallet ++ [.receiptBurn queryId amount] } := by
  have hcovered := hs.supply
  refine hs.post hstake rfl ?_ ((if_pos hamount).trans (congrArg some hsupply.symm))
  show vault.totalSupply ≤ s.due - amount + s.returning
  omega

/-- A supply that only shrinks while the run is disturbed stays covered. -/
theorem Covered.shrink {dropped : Nat} (hstake : StakeInv vault)
    (hsupply : vault.totalSupply ≤ s.vault.totalSupply)
    (hsame : dropped = 0 → vault.totalSupply = s.vault.totalSupply) :
    Covered chain { s with vault := vault, droppedBurns := s.droppedBurns + dropped } := by
  refine ⟨hstake, hs.master, hs.receipts, hs.mints, le_trans hsupply hs.supply, ?_⟩
  rintro ⟨hfailed, hdropped⟩
  have hzero : s.droppedBurns = 0 ∧ dropped = 0 := Nat.add_eq_zero_iff.mp hdropped
  rw [hsame hzero.2]
  exact hs.agrees ⟨hfailed, hzero.1⟩

theorem covered_vaultReceives (inMsg : InMessage) (msg : AllowedMessageToVault)
    (commits dropped : Bool) :
    Covered chain (s.vaultReceives chain inMsg msg commits dropped) := by
  unfold System.vaultReceives
  split
  · exact hs
  · rename_i storage actions hc
    have hstake := hs.stake.move (StakeVault.stakeMove_internal hc).1
    cases commits with
    | false => exact hs
    | true =>
      cases supplyMove_internal hc with
      | minted queryId amount hsupply =>
        exact hs.mint hstake hsupply
      | burned queryId amount hamount hsupply hrest =>
        rw [if_pos rfl, receiptSends_burn _ _ _ hrest, receiptSends_burn _ _ _ hrest]
        cases dropped with
        | false => exact hs.burn hstake hamount hsupply
        | true =>
          rw [if_pos rfl, List.append_nil]
          exact hs.shrink hstake (by omega) nofun
      | kept hsupply hactions =>
        rw [if_pos rfl, receiptSends_eq_nil hactions, receiptSends_eq_nil hactions, List.append_nil]
        exact hs.shrink hstake (le_of_eq hsupply) fun _ => hsupply

/-- The wallet takes the next message of its queue: `balance` is what it then holds. -/
theorem Covered.pop (dropped : Nat) {body : Body} {balance : Nat}
    (hqueue : s.toWallet = body :: rest)
    (hbalance : (posting body).apply s.wallet.balance ≤ balance)
    (hexact : s.Undisturbed → dropped = 0 →
      (posting body).applyExact s.wallet.balance = some balance) :
    Covered chain { s with
      wallet := { s.wallet with balance := balance }
      toWallet := rest
      droppedBurns := s.droppedBurns + dropped } := by
  have hcovered := hs.supply
  have hdue : s.due = Posting.drain ((posting body).apply s.wallet.balance) (rest.map posting) := by
    rw [System.due, hqueue]
    rfl
  refine ⟨hs.stake, hs.master, ?_, hs.mints, ?_, ?_⟩
  · exact (List.forall_mem_cons.mp (hqueue ▸ hs.receipts)).2
  · have hmono := Posting.drain_mono (rest.map posting) hbalance
    show s.vault.totalSupply ≤ Posting.drain balance (rest.map posting) + s.returning
    omega
  · rintro ⟨hfailed, hdropped⟩
    have hzero : s.droppedBurns = 0 ∧ dropped = 0 := Nat.add_eq_zero_iff.mp hdropped
    obtain ⟨hempty, hdrained⟩ := hs.agrees ⟨hfailed, hzero.1⟩
    rw [hqueue] at hdrained
    have hhead := hexact ⟨hfailed, hzero.1⟩ hzero.2
    refine ⟨hempty, ?_⟩
    show Posting.drainExact balance (rest.map posting) = some s.vault.totalSupply
    rw [← hdrained]
    show _ = ((posting body).applyExact s.wallet.balance).bind fun m =>
      Posting.drainExact m (rest.map posting)
    rw [hhead, Option.bind_some]

/-- A failed mint moves from one queue to the other. -/
theorem Covered.mintFails (hqueue : s.toWallet =
      .jettonInternalTransfer queryId amount fromAddress responseAddress :: rest) :
    Covered chain { s with
      toWallet := rest
      toVault := s.toVault ++ [.jettonInternalTransfer queryId amount fromAddress responseAddress]
      failedMints := s.failedMints + 1 } := by
  have hcovered := hs.supply
  have hdue : s.due = Posting.drain (s.wallet.balance + amount) (rest.map posting) := by
    rw [System.due, hqueue]
    rfl
  refine ⟨hs.stake, hs.master, ?_, ?_, ?_, ?_⟩
  · exact (List.forall_mem_cons.mp (hqueue ▸ hs.receipts)).2
  · exact List.forall_mem_append.mpr ⟨hs.mints, List.forall_mem_singleton.mpr ⟨_, _, _, _, rfl⟩⟩
  · have hlate := Posting.drain_add_le (rest.map posting) s.wallet.balance amount
    have hreturning : ((s.toVault ++
        [Body.jettonInternalTransfer queryId amount fromAddress responseAddress]).map
          mintAmount).sum = s.returning + amount := by
      rw [List.map_append, List.sum_append]
      rfl
    show s.vault.totalSupply ≤ Posting.drain s.wallet.balance (rest.map posting) +
      ((s.toVault ++ [_]).map mintAmount).sum
    omega
  · rintro ⟨hfailed, -⟩
    exact absurd hfailed (Nat.succ_ne_zero _)

theorem covered_walletReceives (fails : Bool) :
    Covered chain (s.walletReceives chain fails) := by
  unfold System.walletReceives
  split
  · exact hs
  · rename_i body rest hqueue
    have hreceipt := hs.receipts body (by rw [hqueue]; exact List.mem_cons_self)
    cases body with
    | jettonInternalTransfer queryId amount fromAddress responseAddress =>
      rw [toWalletMessage, ← hs.master, onInternalMessage, require, if_pos rfl]
      cases fails with
      | true => exact hs.mintFails hqueue
      | false => exact hs.pop 0 hqueue (le_refl _) fun _ _ => rfl
    | receiptBurn queryId amount =>
      rw [toWalletMessage, ← hs.master]
      cases hburn : onInternalMessage s.wallet s.wallet.master (.receiptBurn queryId amount) with
      | error e =>
        -- more than the wallet holds: not in an undisturbed run
        refine hs.pop 0 hqueue (Nat.sub_le _ _) fun hundisturbed _ => ?_
        obtain ⟨-, hdrained⟩ := hs.agrees hundisturbed
        rw [hqueue] at hdrained
        obtain ⟨m, hm, -⟩ := Option.bind_eq_some_iff.mp hdrained
        have hfits : amount ≤ s.wallet.balance := by
          by_contra hnot
          rw [posting, Posting.applyExact, if_neg hnot] at hm
          cases hm
        have hok : onInternalMessage s.wallet s.wallet.master (.receiptBurn queryId amount) =
            .ok (_, _) := onInternalMessage_burn_iff.mpr ⟨rfl, hfits, rfl⟩
        rw [hburn] at hok
        cases hok
      | ok r =>
        obtain ⟨wallet, actions⟩ := r
        obtain ⟨-, hfits, hr⟩ := onInternalMessage_burn_iff.mp hburn
        cases hr
        cases fails with
        | true => exact hs.pop 1 hqueue (Nat.sub_le _ _) fun _ hone => absurd hone one_ne_zero
        | false => exact hs.pop 0 hqueue (le_refl _) fun _ _ => if_pos hfits
    | stakePayout queryId | takeWalletAddress queryId walletAddress ownerAddress => cases hreceipt

theorem covered_walletCalled (sender : Address) (msg : AllowedMessageToReceiptWallet) :
    Covered chain (s.walletCalled chain sender msg) := by
  unfold System.walletCalled
  split
  · exact hs
  · rename_i hsender
    split
    · exact hs
    · rename_i wallet actions hok
      rw [← hs.master] at hsender
      rw [onInternalMessage_stranger hsender hok]
      exact hs

/-- What a failed mint still finds of its stake is taken back. -/
theorem covered_mintReturns : Covered chain (step chain s .mintReturns) := by
  rw [step]
  split
  · exact hs
  · rename_i body rest hqueue
    obtain ⟨queryId, amount, fromAddress, responseAddress, rfl⟩ :=
      hs.mints body (by rw [hqueue]; exact List.mem_cons_self)
    have hbacked := hs.stake.backed
    have hcovered := hs.supply
    have hreturning : s.returning = amount + (rest.map mintAmount).sum := by
      rw [System.returning, hqueue]
      rfl
    have hbounced := StakeVault.onBouncedMessage_mint hs.stake
      (chain.calcReceiptWalletAddress s.vault.owner chain.self s.vault.config.receiptWalletCode)
      minTonsForStorage queryId amount fromAddress responseAddress
    rw [System.vaultBounced, hbounced]
    refine ⟨hs.stake.move (StakeVault.stakeMove_bounced hbounced), hs.master, hs.receipts, ?_, ?_, ?_⟩
    · exact (List.forall_mem_cons.mp (hqueue ▸ hs.mints)).2
    · show s.vault.totalSupply - StakeVault.reclaimed s.vault amount ≤
        s.due + (rest.map mintAmount).sum
      unfold StakeVault.reclaimed
      omega
    · intro hundisturbed
      have hempty := (hs.agrees hundisturbed).1
      rw [hqueue] at hempty
      cases hempty

theorem covered_payoutReturns (sender : Address) (value queryId : Nat) :
    Covered chain (s.vaultBounced sender value (.stakePayout queryId)) :=
  ⟨⟨hs.stake.backed, hs.stake.idle⟩, hs.master, hs.receipts, hs.mints, hs.supply, hs.agrees⟩

end

/-- The step lemma. -/
theorem step_covered (e : Event) (hs : Covered chain s) : Covered chain (step chain s e) := by
  cases e with
  | vaultReceives inMsg msg commits dropped => exact covered_vaultReceives hs inMsg msg commits dropped
  | walletReceives fails => exact covered_walletReceives hs fails
  | walletCalled sender msg => exact covered_walletCalled hs sender msg
  | mintReturns => exact covered_mintReturns hs
  | payoutReturns sender value queryId => exact covered_payoutReturns hs sender value queryId

theorem covered_deployed (chain : Chain) (owner : Address) (config : VaultConfig) :
    Covered chain (deployed chain owner config) :=
  ⟨⟨rfl, fun _ => rfl⟩, rfl, nofun, nofun, le_refl _, fun _ => ⟨rfl, rfl⟩⟩

end Steps

/-- From a deployment on, whenever no message is on its way, every unit of the supply has its
    receipt; and supply and receipts are equal if no mint failed and no burn was lost. -/
theorem supply_le_receipts (chain : Chain) (owner : Address) (config : VaultConfig)
    (events : List Event) (s : System)
    (hs : s = Run.final (step chain) (deployed chain owner config) events)
    (hquiet : s.toWallet = [] ∧ s.toVault = []) :
    s.vault.totalSupply ≤ s.wallet.balance ∧
      (s.failedMints = 0 → s.droppedBurns = 0 → s.vault.totalSupply = s.wallet.balance) := by
  have hcovered : Covered chain s := by
    rw [hs]
    exact (Run.always_of_invariant (P := Covered chain) (fun s e h => step_covered e h)
      (covered_deployed chain owner config) events).last
  obtain ⟨hwallet, hvault⟩ := hquiet
  refine ⟨?_, ?_⟩
  · have hsupply := hcovered.supply
    rw [System.due, System.returning, hwallet, hvault] at hsupply
    exact hsupply
  · intro hfailed hdropped
    have hexact := (hcovered.agrees ⟨hfailed, hdropped⟩).2
    rw [hwallet] at hexact
    exact (Option.some.inj hexact).symm

/-- Two deposits, a mint that fails, a slash whose burn is skipped, and the mint's return. -/
def disturbedRun : List Event :=
  [.vaultReceives (.sent (StakeVault.party 3) 1050000000 1) (.stakeDeposit 0 1000000000)
     true false,
   .vaultReceives (.sent (StakeVault.party 3) 2050000000 2) (.stakeDeposit 0 2000000000)
     true false,
   .walletReceives true,
   .vaultReceives (.sent (StakeVault.party 4) 0 3)
     (.stakeSlash 0 500000000 0 (StakeVault.party 8)) true true,
   .walletReceives false,
   .mintReturns]

/-- 1.5 TON are left of the supply; the wallet holds 2 TON of receipts. -/
theorem disturbedRun_covered :
    (Run.final (step StakeVault.drainChain) (deployed StakeVault.drainChain (StakeVault.party 3)
        StakeVault.drainConfig) disturbedRun).vault.totalSupply ≤
      (Run.final (step StakeVault.drainChain) (deployed StakeVault.drainChain (StakeVault.party 3)
        StakeVault.drainConfig) disturbedRun).wallet.balance :=
  (supply_le_receipts StakeVault.drainChain (StakeVault.party 3) StakeVault.drainConfig
    disturbedRun _ rfl (by decide)).1

end Duckton.Ton.ReceiptWallet
