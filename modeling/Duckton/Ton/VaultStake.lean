/-
  The stake fields of the vault over whole runs: supply, backing and the cooldown.

  `StakeMove` lists what one event can do to them, whatever the event is; the supply invariant is
  read off it. The cooldown is another matter. A slash or a bounced mint can empty the cooldown
  bucket and leave its timestamp set: then no request to unbond is accepted any more, and no
  withdrawal either, whatever happens next.
-/
import Duckton.Ton.VaultSolvency

namespace Duckton.Ton.StakeVault

open Tvm

/-! ## What an event does to the stake -/

inductive StakeMove (s : VaultStorage) : VaultStorage → Prop
  | kept (upgrade : VaultUpgradeState) (pending : Ledger Address) :
    StakeMove s { s with upgrade := upgrade, pending := pending }
  | deposited (amount : Nat) :
    StakeMove s { s with staked := s.staked + amount, totalSupply := s.totalSupply + amount }
  | unbonded (amount now : Nat) (hidle : s.unbondingAt = 0) (hnow : 0 < now)
    (hamount : 0 < amount ∧ amount ≤ s.staked) :
    StakeMove s { s with staked := s.staked - amount, unbondingAmount := amount
                         unbondingAt := now }
  | withdrawn (hunbonding : 0 < s.unbondingAmount) (hsupply : s.unbondingAmount ≤ s.totalSupply) :
    StakeMove s { s with unbondingAmount := 0, unbondingAt := 0
                         totalSupply := s.totalSupply - s.unbondingAmount }
  | slashed (amount : Nat) (hamount : 0 < amount ∧ amount ≤ s.staked + s.unbondingAmount)
    (hsupply : amount ≤ s.totalSupply) :
    StakeMove s { s with
      staked := s.staked - min amount s.staked
      unbondingAmount := s.unbondingAmount - (amount - min amount s.staked)
      totalSupply := s.totalSupply - amount }
  | mintBounced (amount : Nat) (hsupply : reclaimed s amount ≤ s.totalSupply) :
    StakeMove s { s with
      staked := s.staked - min amount s.staked
      unbondingAmount := s.unbondingAmount -
        min (amount - min amount s.staked) s.unbondingAmount
      totalSupply := s.totalSupply - reclaimed s amount }

/-- The timestamp is set just while there is something in the cooldown bucket. -/
def CoolsDown (s : VaultStorage) : Prop :=
  s.unbondingAt ≠ 0 ↔ 0 < s.unbondingAmount

section Moves

variable {chain : Chain} {s s' : VaultStorage} {inMsg : InMessage}

theorem coolsDown_zero (hat : s.unbondingAt = 0) (hamount : s.unbondingAmount = 0) : CoolsDown s := by
  unfold CoolsDown
  omega

theorem stakeMove_refl (s : VaultStorage) : StakeMove s s :=
  .kept s.upgrade s.pending

/-- A handler makes one of the moves, and keeps timestamp and bucket in step unless it slashes. -/
theorem stakeMove_internal {msg : AllowedMessageToVault} {actions : List VaultAction}
    (h : onInternalMessage chain s inMsg msg = .ok (s', actions)) :
    StakeMove s s' ∧ ((∀ queryId amount reason challenger,
      msg ≠ .stakeSlash queryId amount reason challenger) → CoolsDown s → CoolsDown s') := by
  cases msg with
  | stakeDeposit queryId amount =>
    obtain ⟨_, _, _, hr⟩ := stakeDeposit_eq_ok_iff.mp h
    cases hr
    exact ⟨.deposited amount, fun _ hs => hs⟩
  | stakeRequestUnbond queryId amount =>
    obtain ⟨_, hidle, hamount, hr⟩ := stakeRequestUnbond_eq_ok_iff.mp h
    cases hr
    exact ⟨.unbonded amount inMsg.now hidle inMsg.now_pos hamount,
      fun _ _ => iff_of_true (Nat.ne_of_gt inMsg.now_pos) hamount.1⟩
  | stakeWithdraw queryId =>
    obtain ⟨_, hunbonding, _, hsupply, hr⟩ := stakeWithdraw_eq_ok_iff.mp h
    cases hr
    exact ⟨.withdrawn hunbonding hsupply, fun _ _ => coolsDown_zero rfl rfl⟩
  | stakeKeeperWithdraw queryId =>
    obtain ⟨hunbonding, _, hsupply, hr⟩ := stakeKeeperWithdraw_eq_ok_iff.mp h
    cases hr
    exact ⟨.withdrawn hunbonding hsupply, fun _ _ => coolsDown_zero rfl rfl⟩
  | stakeSlash queryId amount reason challenger =>
    obtain ⟨_, hamount, hsupply, _, hr⟩ := stakeSlash_eq_ok_iff.mp h
    cases hr
    exact ⟨.slashed amount hamount hsupply, fun hmsg => absurd rfl (hmsg _ _ _ _)⟩
  | stakeClaim queryId recipient =>
    obtain ⟨_, _, _, hr⟩ := stakeClaim_eq_ok_iff.mp h
    cases hr
    exact ⟨.kept _ _, fun _ hs => hs⟩
  | _ =>
    rw [(onInternalMessage_neutral (by trivial) h).1]
    exact ⟨.kept _ _, fun _ hs => hs⟩

theorem stakeMove_bounced {sender : Address} {value : Nat} {body : Body}
    (h : onBouncedMessage s sender value body = .ok s') : StakeMove s s' := by
  rcases onBouncedMessage_cases h with ⟨amount, hsupply, rfl⟩ | ⟨pending, _, rfl⟩
  · exact .mintBounced amount hsupply
  · exact .kept _ _

/-- The step lemma. -/
theorem stakeMove_step (chain : Chain) (v : Vault) (e : Event) :
    StakeMove v.storage (step chain v e).storage := by
  cases e with
  | receive inMsg msg =>
    exact Account.receive_keeps (P := fun s' _ => StakeMove v.storage s') (stakeMove_refl _)
      (fun _ _ _ hc _ => (stakeMove_internal hc).1)
  | deliver index => exact stakeMove_refl _
  | bounce index =>
    exact step_bounce_keeps (P := fun s' _ => StakeMove v.storage s') (stakeMove_refl _)
      (fun _ => stakeMove_refl _) (fun _ _ _ _ hb => stakeMove_bounced hb)

end Moves

/-! ## Supply and backing -/

/-- Every receipt is backed, and a bucket without a timestamp is empty. -/
structure StakeInv (s : VaultStorage) : Prop where
  backed : s.totalSupply = s.staked + s.unbondingAmount
  idle : s.unbondingAt = 0 → s.unbondingAmount = 0

theorem StakeInv.move {s s' : VaultStorage} (hs : StakeInv s) (h : StakeMove s s') :
    StakeInv s' := by
  have hbacked := hs.backed
  cases h with
  | kept upgrade pending => exact ⟨hs.backed, hs.idle⟩
  | deposited amount =>
    refine ⟨?_, hs.idle⟩
    dsimp only
    omega
  | unbonded amount now hidle hnow hamount =>
    have hempty := hs.idle hidle
    refine ⟨?_, ?_⟩
    · dsimp only
      omega
    · intro hzero
      dsimp only at hzero
      omega
  | withdrawn hunbonding hsupply =>
    refine ⟨?_, fun _ => rfl⟩
    dsimp only
    omega
  | slashed amount hamount hsupply =>
    refine ⟨?_, ?_⟩
    · dsimp only
      omega
    · intro hidle
      have hempty := hs.idle hidle
      dsimp only
      omega
  | mintBounced amount hsupply =>
    refine ⟨?_, ?_⟩
    · unfold reclaimed
      dsimp only
      omega
    · intro hidle
      have hempty := hs.idle hidle
      dsimp only
      omega

theorem always_stakeInv (chain : Chain) {v : Vault} (hv : StakeInv v.storage)
    (events : List Event) : Run.Always (step chain) (fun v => StakeInv v.storage) v events :=
  Run.always_of_invariant (P := fun v : Vault => StakeInv v.storage)
    (fun v e hs => hs.move (stakeMove_step chain v e)) hv events

/-- No handler stores a negative amount. -/
structure NoUnderflow (chain : Chain) (s : VaultStorage) : Prop where
  internal : ∀ (inMsg : InMessage) (msg : AllowedMessageToVault),
    onInternalMessage chain s inMsg msg ≠ .error .rangeCheck
  bounced : ∀ (sender : Address) (value : Nat) (body : Body),
    onBouncedMessage s sender value body ≠ .error .rangeCheck

section Underflow

variable {chain : Chain} {s : VaultStorage} {inMsg : InMessage} {queryId amount : Nat}

theorem subCoins_ne_error {a b : Nat} (h : b ≤ a) {e : Exit} : subCoins a b ≠ .error e := by
  rw [subCoins, if_pos h]
  exact nofun

theorem deposit_no_underflow :
    stakeDeposit chain s inMsg queryId amount ≠ .error .rangeCheck := by
  have hconfig : validateVaultConfig s.config ≠ .error .rangeCheck := by
    refine require_bind_ne_error (by decide) fun _ => ?_
    exact require_bind_ne_error (by decide) fun _ => require_ne_error (by decide)
  refine require_bind_ne_error (by decide) fun _ => ?_
  refine require_bind_ne_error (by decide) fun _ => ?_
  exact bind_ne_error hconfig fun _ _ => nofun

theorem unbond_no_underflow : stakeRequestUnbond s inMsg amount ≠ .error .rangeCheck := by
  refine require_bind_ne_error (by decide) fun _ => ?_
  refine require_bind_ne_error (by decide) fun _ => ?_
  refine require_bind_ne_error (by decide) fun hamount => ?_
  exact bind_ne_error (subCoins_ne_error hamount.2) fun _ _ => nofun

theorem StakeInv.unbonding_le (hs : StakeInv s) : s.unbondingAmount ≤ s.totalSupply := by
  have hbacked := hs.backed
  omega

theorem withdraw_no_underflow (hs : StakeInv s) :
    stakeWithdraw chain s inMsg queryId ≠ .error .rangeCheck := by
  refine require_bind_ne_error (by decide) fun _ => ?_
  refine require_bind_ne_error (by decide) fun _ => ?_
  refine require_bind_ne_error (by decide) fun _ => ?_
  exact bind_ne_error (subCoins_ne_error hs.unbonding_le) fun _ _ => nofun

theorem keeper_no_underflow (hs : StakeInv s) :
    stakeKeeperWithdraw chain s inMsg queryId ≠ .error .rangeCheck := by
  refine require_bind_ne_error (by decide) fun _ => ?_
  refine require_bind_ne_error (by decide) fun _ => ?_
  exact bind_ne_error (subCoins_ne_error hs.unbonding_le) fun _ _ => nofun

theorem slash_no_underflow (hs : StakeInv s) {challenger : Address} :
    stakeSlash chain s inMsg queryId amount challenger ≠ .error .rangeCheck := by
  have hbacked := hs.backed
  refine require_bind_ne_error (by decide) fun _ => ?_
  refine require_bind_ne_error (by decide) fun hamount => ?_
  refine bind_ne_error (subCoins_ne_error (Nat.min_le_right _ _)) fun _ _ => ?_
  refine bind_ne_error (subCoins_ne_error (by omega)) fun _ _ => ?_
  refine bind_ne_error (subCoins_ne_error (by omega)) fun _ _ => ?_
  refine bind_ne_error ?_ fun _ _ => nofun
  exact require_bind_ne_error (by decide) fun _ => nofun

theorem claim_no_underflow {recipient : Address} :
    stakeClaim s queryId recipient ≠ .error .rangeCheck := by
  unfold stakeClaim
  split
  · exact nofun
  · exact require_bind_ne_error (by decide) fun _ => nofun

theorem announce_no_underflow {hash : Nat} :
    stakeAnnounceUpgrade s inMsg hash ≠ .error .rangeCheck :=
  require_bind_ne_error (by decide) fun _ => nofun

theorem apply_no_underflow {code : Nat} : stakeApplyUpgrade s inMsg code ≠ .error .rangeCheck := by
  refine require_bind_ne_error (by decide) fun _ => ?_
  refine require_bind_ne_error (by decide) fun _ => ?_
  refine require_bind_ne_error (by decide) fun _ => ?_
  refine require_bind_ne_error (by decide) fun _ => ?_
  refine bind_ne_error ?_ fun _ _ => nofun
  unfold increment
  split <;> exact nofun

theorem cancel_no_underflow : stakeCancelUpgrade s inMsg ≠ .error .rangeCheck := by
  refine require_bind_ne_error (by decide) fun _ => ?_
  exact require_bind_ne_error (by decide) fun _ => nofun

/-- What is reclaimed of a bounced mint is never more than there is. -/
theorem bounced_no_underflow (hs : StakeInv s) (sender : Address) (value : Nat) (body : Body) :
    onBouncedMessage s sender value body ≠ .error .rangeCheck := by
  have hbacked := hs.backed
  cases body with
  | jettonInternalTransfer queryId amount fromAddress responseAddress =>
    refine bind_ne_error (subCoins_ne_error (Nat.min_le_right _ _)) fun _ _ => ?_
    refine bind_ne_error (subCoins_ne_error (Nat.min_le_right _ _)) fun _ _ => ?_
    exact bind_ne_error (subCoins_ne_error (by omega)) fun _ _ => nofun
  | stakePayout queryId => exact nofun
  | receiptBurn queryId amount | takeWalletAddress queryId walletAddress ownerAddress => exact nofun

theorem StakeInv.noUnderflow (chain : Chain) (hs : StakeInv s) : NoUnderflow chain s := by
  refine ⟨?_, bounced_no_underflow hs⟩
  intro inMsg msg
  cases msg with
  | stakeDeposit queryId amount => exact deposit_no_underflow
  | stakeRequestUnbond queryId amount => exact unbond_no_underflow
  | stakeWithdraw queryId => exact withdraw_no_underflow hs
  | stakeKeeperWithdraw queryId => exact keeper_no_underflow hs
  | stakeSlash queryId amount reason challenger => exact slash_no_underflow hs
  | stakeClaim queryId recipient => exact claim_no_underflow
  | provideWalletAddress queryId ownerAddress includeAddress | receiptTopUp queryId => exact nofun
  | stakeAnnounceUpgrade queryId newCodeHash => exact announce_no_underflow
  | stakeApplyUpgrade queryId newCode => exact apply_no_underflow
  | stakeCancelUpgrade queryId => exact cancel_no_underflow
  | other isEmpty => exact require_bind_ne_error (by decide) fun _ => nofun

end Underflow

/-- From an empty vault on, the supply is the two buckets together, and no subtraction goes below
    zero. -/
theorem supply_always_backed (chain : Chain) (v : Vault) (hstaked : v.storage.staked = 0)
    (hunbonding : v.storage.unbondingAmount = 0) (hsupply : v.storage.totalSupply = 0)
    (events : List Event) :
    Run.Always (step chain)
      (fun v => v.storage.totalSupply = v.storage.staked + v.storage.unbondingAmount ∧
        NoUnderflow chain v.storage) v events := by
  have hstart : StakeInv v.storage := ⟨by omega, fun _ => hunbonding⟩
  exact (always_stakeInv chain hstart events).mono fun v hs => ⟨hs.backed, hs.noUnderflow chain⟩

/-- The run of a slash, a bounced payout and a withdrawal, from a deployment. -/
theorem drainRun_backed :
    Run.Always (step drainChain)
      (fun v => v.storage.totalSupply = v.storage.staked + v.storage.unbondingAmount ∧
        NoUnderflow drainChain v.storage) (deployed (party 3) drainConfig 0 0) drainRun :=
  supply_always_backed drainChain (deployed (party 3) drainConfig 0 0) rfl rfl rfl drainRun

/-! ## The cooldown -/

/-- The amount of the mint that comes back, if the bounced message is one. -/
def Vault.bouncedMint (v : Vault) (index : Nat) : Option Nat :=
  match v.outbound[index]? with
  | some ⟨_, _, true, .jettonInternalTransfer _ amount _ _⟩ => some amount
  | _ => none

/-- The events that do not empty a running cooldown other than by a withdrawal. -/
def KeepsCooldown (v : Vault) : Event → Prop
  | .receive inMsg (.stakeSlash _ amount _ _) =>
    SlashDue v inMsg amount →
      ¬ (0 < v.storage.unbondingAmount ∧ amount = v.storage.staked + v.storage.unbondingAmount)
  | .bounce index =>
    ∀ amount, Vault.bouncedMint v index = some amount →
      ¬ (0 < v.storage.unbondingAmount ∧
        v.storage.staked + v.storage.unbondingAmount ≤ amount)
  | _ => True

section Cooldown

variable {chain : Chain} {v : Vault} {s s' : VaultStorage} {inMsg : InMessage}

variable {msg : AllowedMessageToVault} {amount index : Nat}

/-- Taking `a` out of the bucket keeps the two in step unless it empties a running cooldown. -/
theorem coolsDown_take_iff (hs : CoolsDown s) {staked supply a : Nat} :
    CoolsDown { s with staked := staked, unbondingAmount := s.unbondingAmount - a
                       totalSupply := supply } ↔
      ¬ (0 < s.unbondingAmount ∧ s.unbondingAmount ≤ a) := by
  unfold CoolsDown at hs ⊢
  dsimp only
  omega

theorem coolsDown_slash_iff {queryId reason : Nat} {challenger : Address}
    (hs : CoolsDown v.storage) :
    CoolsDown (step chain v
        (.receive inMsg (.stakeSlash queryId amount reason challenger))).storage ↔
      (SlashDue v inMsg amount → ¬ (0 < v.storage.unbondingAmount ∧
        amount = v.storage.staked + v.storage.unbondingAmount)) := by
  refine iff_of_due (fun h => ?_) fun h => ?_
  · have hslashable := h.slashable
    rw [(step_slash h).1, coolsDown_take_iff hs]
    omega
  · rwa [step_slash_of_not h]

theorem onBouncedMessage_mint (hinv : StakeInv s) (sender : Address) (value queryId amount : Nat)
    (fromAddress responseAddress : Address) :
    onBouncedMessage s sender value
        (.jettonInternalTransfer queryId amount fromAddress responseAddress) =
      .ok { s with
        staked := s.staked - min amount s.staked
        unbondingAmount := s.unbondingAmount -
          min (amount - min amount s.staked) s.unbondingAmount
        totalSupply := s.totalSupply - reclaimed s amount } := by
  have hbacked := hinv.backed
  simp only [onBouncedMessage, subCoins_bind_eq_ok, pure_eq_ok]
  exact ⟨Nat.min_le_right _ _, Nat.min_le_right _ _, by omega, rfl⟩

theorem step_bounce_of_mint (hinv : StakeInv v.storage)
    (h : Vault.bouncedMint v index = some amount) :
    (step chain v (.bounce index)).storage =
      { v.storage with
        staked := v.storage.staked - min amount v.storage.staked
        unbondingAmount := v.storage.unbondingAmount -
          min (amount - min amount v.storage.staked) v.storage.unbondingAmount
        totalSupply := v.storage.totalSupply - reclaimed v.storage amount } := by
  unfold Vault.bouncedMint at h
  split at h
  · rename_i dest value queryId amount' fromAddress responseAddress hm
    cases h
    rw [step, hm]
    dsimp only
    rw [if_pos rfl, Vault.bounced, onBouncedMessage_mint hinv]
    rfl
  · cases h

/-- A bounce that returns no mint touches the pull ledger at most. -/
theorem step_bounce_of_not_mint (chain : Chain) (h : Vault.bouncedMint v index = none) :
    ∃ pending, (step chain v (.bounce index)).storage = { v.storage with pending := pending } := by
  rw [step]
  split
  · rename_i m hm
    split_ifs with hbounce
    · obtain ⟨dest, value, bounce, body⟩ := m
      cases hbounce
      cases body with
      | jettonInternalTransfer queryId amount fromAddress responseAddress =>
        rw [Vault.bouncedMint, hm] at h
        cases h
      | stakePayout queryId => exact ⟨_, rfl⟩
      | receiptBurn queryId amount | takeWalletAddress queryId walletAddress ownerAddress =>
        exact ⟨_, rfl⟩
    · exact ⟨_, rfl⟩
  · exact ⟨_, rfl⟩

theorem coolsDown_bounce_iff (hinv : StakeInv v.storage) (hs : CoolsDown v.storage) :
    CoolsDown (step chain v (.bounce index)).storage ↔ KeepsCooldown v (.bounce index) := by
  cases hmint : Vault.bouncedMint v index with
  | none =>
    obtain ⟨pending, hstorage⟩ := step_bounce_of_not_mint chain hmint
    rw [hstorage]
    refine iff_of_true hs ?_
    intro amount hamount
    rw [hmint] at hamount
    cases hamount
  | some amount =>
    rw [step_bounce_of_mint hinv hmint, coolsDown_take_iff hs]
    constructor
    · intro hkeeps amount' hamount
      rw [hmint] at hamount
      cases hamount
      omega
    · intro hkeeps
      have hnot := hkeeps amount hmint
      omega

theorem step_coolsDown_iff (hinv : StakeInv v.storage) (hs : CoolsDown v.storage) (e : Event) :
    CoolsDown (step chain v e).storage ↔ KeepsCooldown v e := by
  cases e with
  | deliver index => exact iff_of_true hs trivial
  | bounce index => exact coolsDown_bounce_iff hinv hs
  | receive inMsg msg =>
    cases msg with
    | stakeSlash queryId amount reason challenger => exact coolsDown_slash_iff hs
    | _ =>
      refine iff_of_true (Account.receive_keeps (P := fun s _ => CoolsDown s) hs ?_) trivial
      exact fun _ _ _ hc _ => (stakeMove_internal hc).2 (fun _ _ _ _ => nofun) hs

end Cooldown

/-! ## Who can still unbond -/

/-- The request of `owner` to unbond all of its stake goes through at some time from `t` on. -/
def UnbondAccepted (v : Vault) (t : Nat) : Prop :=
  ∃ (inMsg : InMessage) (r : VaultStorage × List VaultAction),
    t ≤ inMsg.now ∧ stakeRequestUnbond v.storage inMsg v.storage.staked = .ok r

/-- Some run from here leads to a state in which the request goes through. -/
def CanUnbond (chain : Chain) (v : Vault) (t : Nat) : Prop :=
  ∃ events, UnbondAccepted (Run.final (step chain) v events) t

/-- The messages of a run that `owner` sends on its own, not before `t`. -/
def SentBy (owner : Address) (t : Nat) (events : List Event) : Prop :=
  ∀ e ∈ events, ∃ inMsg msg, e = .receive inMsg msg ∧ inMsg.senderAddress = owner ∧ t ≤ inMsg.now

/-- The timestamp is set and there is nothing to withdraw. -/
def Stuck (s : VaultStorage) : Prop :=
  s.unbondingAt ≠ 0 ∧ s.unbondingAmount = 0

section Unbond

variable {chain : Chain} {v : Vault}

theorem Stuck.move {s s' : VaultStorage} (hs : Stuck s) (h : StakeMove s s') : Stuck s' := by
  obtain ⟨hat, hempty⟩ := hs
  cases h with
  | kept upgrade pending | deposited amount => exact ⟨hat, hempty⟩
  | unbonded amount now hidle hnow hamount => exact absurd hidle hat
  | withdrawn hunbonding hsupply => omega
  | slashed amount hamount hsupply | mintBounced amount hsupply =>
    refine ⟨hat, ?_⟩
    dsimp only
    omega

/-- A stuck vault stays so. -/
theorem not_canUnbond_of_stuck (hs : Stuck v.storage) (t : Nat) : ¬ CanUnbond chain v t := by
  rintro ⟨events, inMsg, r, -, hr⟩
  have hstuck : Stuck (Run.final (step chain) v events).storage :=
    (Run.always_of_invariant (P := fun v : Vault => Stuck v.storage)
      (fun v e h => h.move (stakeMove_step chain v e)) hs events).last
  exact hstuck.1 (stakeRequestUnbond_eq_ok_iff.mp hr).2.1

theorem unbondAccepted_of_idle (hidle : v.storage.unbondingAt = 0) (hstaked : 0 < v.storage.staked)
    (t : Nat) : UnbondAccepted v t :=
  ⟨⟨v.storage.owner, 0, t + 1, Nat.succ_pos t⟩, _, Nat.le_succ t,
    stakeRequestUnbond_eq_ok_iff.mpr ⟨rfl, hidle, ⟨hstaked, le_refl _⟩, rfl⟩⟩

/-- Otherwise its owner needs nobody: it waits, withdraws what has cooled down, and asks again. -/
theorem exists_own_run (hinv : StakeInv v.storage) (hstaked : 0 < v.storage.staked)
    (h : v.storage.unbondingAt ≠ 0 → 0 < v.storage.unbondingAmount) (t : Nat) :
    ∃ events, SentBy v.storage.owner t events ∧
      UnbondAccepted (Run.final (step chain) v events) t := by
  by_cases hidle : v.storage.unbondingAt = 0
  · exact ⟨[], nofun, unbondAccepted_of_idle hidle hstaked t⟩
  · have hbacked := hinv.backed
    obtain ⟨inMsg, hnow, hdue⟩ := exists_withdrawDue (h hidle) (by omega)
      (Nat.succ_pos (t + (v.storage.unbondingAt + v.storage.config.unbondingPeriod))) (by omega)
    obtain ⟨hstorage, -⟩ := @step_withdraw chain v inMsg 0 hdue
    refine ⟨[.receive inMsg (.stakeWithdraw 0)], ?_, ?_⟩
    · intro e he
      rw [List.mem_singleton.mp he]
      exact ⟨_, _, rfl, hdue.sender, by omega⟩
    · apply unbondAccepted_of_idle
      · exact congrArg VaultStorage.unbondingAt hstorage
      · exact hstaked.trans_eq (congrArg VaultStorage.staked hstorage).symm

end Unbond

/-- From a deployment on, timestamp and bucket stay in step exactly when no event of the run empties
    a running cooldown. In a state with bonded stake, the owner can get to unbond it by messages of
    its own if they are in step; if they are not, no run at all leads there. -/
theorem cooldown_in_step_iff (chain : Chain) (owner : Address) (config : VaultConfig)
    (code balance : Nat) (events : List Event) :
    (Run.Always (step chain) (fun v => CoolsDown v.storage) (deployed owner config code balance)
        events ↔
      Run.Guarded (step chain) KeepsCooldown (deployed owner config code balance) events) ∧
    ∀ v, v = Run.final (step chain) (deployed owner config code balance) events →
      0 < v.storage.staked → ∀ t,
      (CoolsDown v.storage → ∃ own, SentBy v.storage.owner t own ∧
        UnbondAccepted (Run.final (step chain) v own) t) ∧
      (¬ CoolsDown v.storage → ¬ CanUnbond chain v t) := by
  have hstart : StakeInv (deployed owner config code balance).storage := ⟨rfl, fun _ => rfl⟩
  refine ⟨?_, ?_⟩
  · have hboth := Run.always_iff_guarded
      (P := fun v : Vault => StakeInv v.storage ∧ CoolsDown v.storage) (G := KeepsCooldown)
      (fun v e hv => by
        have hinv := hv.1.move (stakeMove_step chain v e)
        rw [← step_coolsDown_iff hv.1 hv.2 e]
        exact ⟨fun h => h.2, fun h => ⟨hinv, h⟩⟩)
      ⟨hstart, coolsDown_zero rfl rfl⟩ events
    rw [← hboth]
    constructor
    · intro hcools
      exact (always_stakeInv chain hstart events).and hcools
    · intro hall
      exact hall.mono fun v hv => hv.2
  · rintro v rfl hstaked t
    have hinv := (always_stakeInv chain hstart events).last
    refine ⟨fun hcools => exists_own_run hinv hstaked hcools.mp t, fun hcools => ?_⟩
    apply not_canUnbond_of_stuck
    have hidle := hinv.idle
    unfold CoolsDown at hcools
    unfold Stuck
    omega

/-- Bonded in full, half of it in cooldown. -/
def halfwayRun : List Event :=
  [.receive (.sent (party 3) 1050000000 1) (.stakeDeposit 0 1000000000),
   .receive (.sent (party 3) 0 2) (.stakeRequestUnbond 0 500000000)]

/-- The owner of the other half gets to unbond it, too. -/
theorem halfway_can_unbond :
    ∃ own, SentBy (party 3) 7 own ∧ UnbondAccepted (Run.final (step drainChain)
      (Run.final (step drainChain) (deployed (party 3) drainConfig 0 0) halfwayRun) own) 7 := by
  have hrun := (cooldown_in_step_iff drainChain (party 3) drainConfig 0 0 halfwayRun).2 _ rfl
    (by decide) 7
  refine hrun.1 ?_
  unfold CoolsDown
  decide

/-! ## A run that locks the owner out

  The owner unbonds all of its stake, the whole of it is slashed during the cooldown, and the owner
  bonds again. -/

def lockoutRun : List Event :=
  [.receive (.sent (party 3) 1050000000 1) (.stakeDeposit 0 1000000000),
   .receive (.sent (party 3) 0 2) (.stakeRequestUnbond 0 1000000000),
   .receive (.sent (party 4) 20000000 3) (.stakeSlash 0 1000000000 0 (party 8)),
   .receive (.sent (party 3) 1050000000 4) (.stakeDeposit 0 1000000000)]

/-- The vault holds 1 TON of bonded stake that can never be unbonded. -/
theorem slash_locks_out :
    (Run.final (step drainChain) (deployed (party 3) drainConfig 0 0) lockoutRun).storage.staked =
        1000000000 ∧
      ¬ CoolsDown
        (Run.final (step drainChain) (deployed (party 3) drainConfig 0 0) lockoutRun).storage ∧
      ¬ CanUnbond drainChain
        (Run.final (step drainChain) (deployed (party 3) drainConfig 0 0) lockoutRun) 0 := by
  refine ⟨by decide, ?_, ?_⟩
  · unfold CoolsDown
    decide
  · apply not_canUnbond_of_stuck
    unfold Stuck
    decide

end Duckton.Ton.StakeVault
