/-
  The exit window of an announced code upgrade.

  An announcement starts one clock, a request to unbond another, and both run for the same
  unbonding period. So the stake is free before the new code can be applied just if its own clock
  was started first: a staker who reacts to the announcement is always late, as long as the vault
  has a version number left for the new code.
-/
import Duckton.Ton.VaultStake

namespace Duckton.Ton.StakeVault

open Tvm

/-! ## What an event does to the upgrade state -/

inductive UpgradeMove (u : VaultUpgradeState) : Event → VaultUpgradeState → Prop
  | kept (e : Event) : UpgradeMove u e u
  | announced (inMsg : InMessage) (queryId newCodeHash : Nat) :
    UpgradeMove u (.receive inMsg (.stakeAnnounceUpgrade queryId newCodeHash))
      { u with pendingCodeHash := newCodeHash, pendingCodeAt := inMsg.now }
  | applied (inMsg : InMessage) (queryId newCode : Nat) (version : UInt32) :
    UpgradeMove u (.receive inMsg (.stakeApplyUpgrade queryId newCode)) ⟨version, 0, 0⟩
  | cancelled (inMsg : InMessage) (queryId : Nat) :
    UpgradeMove u (.receive inMsg (.stakeCancelUpgrade queryId))
      { u with pendingCodeHash := 0, pendingCodeAt := 0 }

/-- The three messages of the upgrade authority. -/
def Event.IsUpgrade : Event → Prop
  | .receive _ (.stakeAnnounceUpgrade ..) | .receive _ (.stakeApplyUpgrade ..)
  | .receive _ (.stakeCancelUpgrade ..) => True
  | _ => False

section Moves

variable {chain : Chain} {v : Vault} {s s' : VaultStorage} {inMsg : InMessage}
  {msg : AllowedMessageToVault} {actions : List VaultAction}

theorem payoutIfPositive_code {recipient : Address} {amount queryId : Nat} {a : VaultAction}
    (ha : a ∈ payoutIfPositive recipient amount queryId) (code : Nat) : a ≠ .setCode code := by
  unfold payoutIfPositive at ha
  split at ha
  · simp_all [payout]
  · cases ha

/-- Every other message leaves the upgrade state alone and queues no code. -/
theorem internal_of_not_isUpgrade (h : onInternalMessage chain s inMsg msg = .ok (s', actions))
    (hmsg : ¬ (Event.receive inMsg msg).IsUpgrade) :
    s'.upgrade = s.upgrade ∧ ∀ a ∈ actions, ∀ code, a ≠ .setCode code := by
  cases msg with
  | stakeDeposit queryId amount =>
    obtain ⟨_, _, _, hr⟩ := stakeDeposit_eq_ok_iff.mp h
    cases hr
    refine ⟨rfl, ?_⟩
    simp [mintReceipt]
  | stakeRequestUnbond queryId amount =>
    obtain ⟨_, _, _, hr⟩ := stakeRequestUnbond_eq_ok_iff.mp h
    cases hr
    refine ⟨rfl, ?_⟩
    simp
  | stakeWithdraw queryId =>
    obtain ⟨_, _, _, _, hr⟩ := stakeWithdraw_eq_ok_iff.mp h
    cases hr
    refine ⟨rfl, ?_⟩
    simp [burnReceipt, payoutLiquidRemainder, payoutRemainderNoReserve]
  | stakeKeeperWithdraw queryId =>
    obtain ⟨_, _, _, hr⟩ := stakeKeeperWithdraw_eq_ok_iff.mp h
    cases hr
    refine ⟨rfl, fun a ha code => ?_⟩
    simp only [List.mem_cons, List.mem_append, List.not_mem_nil, or_false] at ha
    rcases ha with rfl | rfl | ha | rfl
    · simp [burnReceipt]
    · simp
    · exact payoutIfPositive_code ha code
    · simp [payoutRemainderNoReserve]
  | stakeSlash queryId amount reason challenger =>
    obtain ⟨_, _, _, _, hr⟩ := stakeSlash_eq_ok_iff.mp h
    cases hr
    refine ⟨rfl, fun a ha code => ?_⟩
    simp only [slashPayouts, List.mem_cons, List.mem_append] at ha
    rcases ha with rfl | (ha | ha) | ha
    · simp [burnReceipt]
    all_goals exact payoutIfPositive_code ha code
  | stakeClaim queryId recipient =>
    obtain ⟨_, _, _, hr⟩ := stakeClaim_eq_ok_iff.mp h
    cases hr
    refine ⟨rfl, ?_⟩
    simp [payout]
  | provideWalletAddress queryId ownerAddress includeAddress | receiptTopUp queryId =>
    cases h
    refine ⟨rfl, ?_⟩
    simp
  | other isEmpty =>
    simp only [onInternalMessage, require_bind_eq_ok, pure_eq_ok] at h
    obtain ⟨_, hr⟩ := h
    cases hr
    refine ⟨rfl, ?_⟩
    simp
  | stakeAnnounceUpgrade queryId newCodeHash | stakeApplyUpgrade queryId newCode
  | stakeCancelUpgrade queryId =>
    exact absurd trivial hmsg

theorem upgradeMove_internal
    (h : onInternalMessage chain s inMsg msg = .ok (s', actions)) :
    UpgradeMove s.upgrade (.receive inMsg msg) s'.upgrade := by
  cases msg with
  | stakeAnnounceUpgrade queryId newCodeHash =>
    obtain ⟨_, hr⟩ := stakeAnnounceUpgrade_eq_ok_iff.mp h
    cases hr
    exact .announced ..
  | stakeApplyUpgrade queryId newCode =>
    obtain ⟨_, _, _, _, _, _, hr⟩ := stakeApplyUpgrade_eq_ok_iff.mp h
    cases hr
    exact .applied ..
  | stakeCancelUpgrade queryId =>
    obtain ⟨_, _, hr⟩ := stakeCancelUpgrade_eq_ok_iff.mp h
    cases hr
    exact .cancelled ..
  | _ =>
    rw [(internal_of_not_isUpgrade h not_false).1]
    exact .kept _

theorem upgrade_bounced {sender : Address} {value : Nat} {body : Body}
    (h : onBouncedMessage s sender value body = .ok s') : s'.upgrade = s.upgrade := by
  rcases onBouncedMessage_cases h with ⟨amount, _, rfl⟩ | ⟨pending, _, rfl⟩
  · rfl
  · rfl

/-- The step lemma. -/
theorem upgradeMove_step (chain : Chain) (v : Vault) (e : Event) :
    UpgradeMove v.storage.upgrade e (step chain v e).storage.upgrade := by
  cases e with
  | receive inMsg msg =>
    exact Account.receive_keeps
      (P := fun s' _ => UpgradeMove v.storage.upgrade (.receive inMsg msg) s'.upgrade) (.kept _)
      fun _ _ _ hc _ => upgradeMove_internal hc
  | deliver index => exact .kept _
  | bounce index =>
    refine step_bounce_keeps
      (P := fun (s' : VaultStorage) _ => UpgradeMove v.storage.upgrade (.bounce index) s'.upgrade)
      (.kept _) (fun _ => .kept _) ?_
    intro sender value body storage' hb
    rw [upgrade_bounced hb]
    exact .kept _

theorem step_upgrade_of_not {e : Event} (h : ¬ e.IsUpgrade) :
    (step chain v e).storage.upgrade = v.storage.upgrade := by
  have hmove := upgradeMove_step chain v e
  generalize (step chain v e).storage.upgrade = u at hmove
  cases hmove with
  | kept => rfl
  | announced | applied | cancelled => exact absurd trivial h

theorem final_upgrade_of_not {events : List Event} (h : ∀ e ∈ events, ¬ e.IsUpgrade) :
    (Run.final (step chain) v events).storage.upgrade = v.storage.upgrade := by
  induction events generalizing v with
  | nil => rfl
  | cons e events ih =>
    have hrest := ih (v := step chain v e) fun e' he' => h e' (List.mem_cons_of_mem e he')
    exact hrest.trans (step_upgrade_of_not (h e List.mem_cons_self))

/-- No version number is left: applying an upgrade throws. -/
abbrev VaultUpgradeState.LastVersion (u : VaultUpgradeState) : Prop :=
  u.codeVersion.toNat + 1 = 2 ^ 32

/-- A pending announcement has a time. -/
def UpgradeInv (u : VaultUpgradeState) : Prop :=
  u.pendingCodeHash ≠ 0 → 0 < u.pendingCodeAt

theorem UpgradeInv.move {u u' : VaultUpgradeState} {e : Event} (hu : UpgradeInv u)
    (h : UpgradeMove u e u') : UpgradeInv u' := by
  cases h with
  | kept => exact hu
  | announced inMsg queryId newCodeHash => exact fun _ => inMsg.now_pos
  | applied | cancelled => exact fun hpending => absurd rfl hpending

theorem always_upgradeInv (chain : Chain) {v : Vault} (hv : UpgradeInv v.storage.upgrade)
    (events : List Event) :
    Run.Always (step chain) (fun v => UpgradeInv v.storage.upgrade) v events :=
  Run.always_of_invariant (P := fun v : Vault => UpgradeInv v.storage.upgrade)
    (fun v e hu => hu.move (upgradeMove_step chain v e)) hv events

end Moves

/-! ## The two clocks -/

section Clocks

variable (chain : Chain) (v : Vault)

/-- A withdrawal of what is in cooldown commits at time `t`. -/
def WithdrawsAt (t : Nat) : Prop :=
  ∃ (inMsg : InMessage) (queryId : Nat) (v' : Vault), inMsg.now = t ∧
    v.transact inMsg.valueCoins
      (onInternalMessage chain v.storage inMsg (.stakeWithdraw queryId)) = .ok v'

/-- The announced code can be put in force at time `t`. -/
def AppliesAt (t : Nat) : Prop :=
  ∃ (inMsg : InMessage) (queryId newCode : Nat) (v' : Vault), inMsg.now = t ∧
    v.transact inMsg.valueCoins
      (onInternalMessage chain v.storage inMsg (.stakeApplyUpgrade queryId newCode)) = .ok v'

/-- The stake in cooldown can be withdrawn no later than the announced code can be applied. -/
def ExitsInTime : Prop :=
  ∃ t, WithdrawsAt chain v t ∧ ∀ t', AppliesAt chain v t' → t ≤ t'

variable {chain v}

theorem withdrawsAt_iff (hinv : StakeInv v.storage) (t : Nat) :
    WithdrawsAt chain v t ↔ 0 < t ∧ 0 < v.storage.unbondingAmount ∧
      v.storage.unbondingAt + v.storage.config.unbondingPeriod ≤ t := by
  constructor
  · rintro ⟨inMsg, queryId, v', rfl, htransact⟩
    obtain ⟨storage, actions, p, hc, -, -⟩ := Account.transact_ok_iff.mp htransact
    obtain ⟨-, hunbonding, hready, -, -⟩ := stakeWithdraw_eq_ok_iff.mp hc
    exact ⟨inMsg.now_pos, hunbonding, hready⟩
  · rintro ⟨ht, hunbonding, hready⟩
    have hbacked := hinv.backed
    obtain ⟨inMsg, hnow, hdue⟩ := exists_withdrawDue hunbonding (by omega) ht hready
    have hc : stakeWithdraw chain v.storage inMsg 0 = .ok (_, _) :=
      stakeWithdraw_eq_ok_iff.mpr ⟨hdue.sender, hunbonding, hdue.ready, hdue.supply, rfl⟩
    have hrun := @run_withdraw_actions chain v.storage v.storage.unbondingAmount 0 v.storage.owner
      inMsg.valueCoins (v.balance + inMsg.valueCoins) v.storage.staked
    rw [if_pos hdue.funds] at hrun
    obtain ⟨p, hp, -⟩ := Option.map_eq_some_iff.mp hrun
    exact ⟨inMsg, 0, _, hnow, Account.transact_ok_iff.mpr ⟨_, _, p, hc, hp, rfl⟩⟩

theorem appliesAt_iff (t : Nat) :
    AppliesAt chain v t ↔ 0 < t ∧ v.storage.upgrade.pendingCodeHash ≠ 0 ∧
      v.storage.upgrade.pendingCodeAt + v.storage.config.unbondingPeriod ≤ t ∧
      ¬ v.storage.upgrade.LastVersion := by
  constructor
  · rintro ⟨inMsg, queryId, newCode, v', rfl, htransact⟩
    obtain ⟨storage, actions, p, hc, -, -⟩ := Account.transact_ok_iff.mp htransact
    obtain ⟨-, hpending, -, hready, version, hversion, -⟩ := stakeApplyUpgrade_eq_ok_iff.mp hc
    exact ⟨inMsg.now_pos, hpending, hready, exists_increment_iff.mp ⟨version, hversion⟩⟩
  · rintro ⟨ht, hpending, hready, hlast⟩
    obtain ⟨version, hversion⟩ := exists_increment_iff.mpr hlast
    let inMsg : InMessage := ⟨v.storage.config.upgradeAuthority, 0, t, ht⟩
    have hc : stakeApplyUpgrade v.storage inMsg v.storage.upgrade.pendingCodeHash = .ok (_, _) :=
      stakeApplyUpgrade_eq_ok_iff.mpr ⟨rfl, hpending, rfl, hready, version, hversion, rfl⟩
    exact ⟨inMsg, 0, _, _, rfl, Account.transact_ok_iff.mpr ⟨_, _, _, hc, rfl, rfl⟩⟩

/-- The two clocks run equally long. -/
theorem exitsInTime_iff (hinv : StakeInv v.storage) (hupgrade : UpgradeInv v.storage.upgrade)
    (hunbonding : 0 < v.storage.unbondingAmount)
    (hpending : v.storage.upgrade.pendingCodeHash ≠ 0) :
    ExitsInTime chain v ↔ v.storage.unbondingAt ≤ v.storage.upgrade.pendingCodeAt ∨
      v.storage.upgrade.LastVersion := by
  have hat : v.storage.unbondingAt ≠ 0 := by
    intro hzero
    have hempty := hinv.idle hzero
    omega
  constructor
  · rintro ⟨t, hwithdraw, hfirst⟩
    obtain ⟨ht, -, hready⟩ := (withdrawsAt_iff hinv t).mp hwithdraw
    by_contra hlate
    obtain ⟨hlate, hlast⟩ := not_or.mp hlate
    -- at the very moment the upgrade becomes ready the cooldown is still running
    have happly : AppliesAt chain v
        (v.storage.upgrade.pendingCodeAt + v.storage.config.unbondingPeriod) :=
      (appliesAt_iff _).mpr ⟨Nat.add_pos_left (hupgrade hpending) _, hpending, le_refl _, hlast⟩
    have hle := hfirst _ happly
    omega
  · intro hearly
    refine ⟨v.storage.unbondingAt + v.storage.config.unbondingPeriod, ?_, ?_⟩
    · exact (withdrawsAt_iff hinv _).mpr ⟨by omega, hunbonding, le_refl _⟩
    · intro t' happly
      obtain ⟨-, -, hready, hlast⟩ := (appliesAt_iff t').mp happly
      have hfirst := hearly.resolve_right hlast
      omega

end Clocks

/-! ## Announcements and requests -/

section Events

variable {chain : Chain} {v : Vault} {inMsg : InMessage} {queryId : Nat}

/-- What an announcement leaves. -/
theorem step_announce {newCodeHash : Nat}
    (hsender : inMsg.senderAddress = v.storage.config.upgradeAuthority) :
    (step chain v (.receive inMsg (.stakeAnnounceUpgrade queryId newCodeHash))).storage =
      { v.storage with upgrade := { v.storage.upgrade with
          pendingCodeHash := newCodeHash, pendingCodeAt := inMsg.now } } := by
  have hc : stakeAnnounceUpgrade v.storage inMsg newCodeHash = .ok (_, _) :=
    stakeAnnounceUpgrade_eq_ok_iff.mpr ⟨hsender, rfl⟩
  exact (Account.receive_of_balance hc rfl).1

/-- What an accepted request leaves. -/
theorem step_unbond {amount : Nat} (hsender : inMsg.senderAddress = v.storage.owner)
    (hidle : v.storage.unbondingAt = 0) (hamount : 0 < amount ∧ amount ≤ v.storage.staked) :
    (step chain v (.receive inMsg (.stakeRequestUnbond queryId amount))).storage =
      { v.storage with staked := v.storage.staked - amount, unbondingAmount := amount
                       unbondingAt := inMsg.now } := by
  have hc : stakeRequestUnbond v.storage inMsg amount = .ok (_, _) :=
    stakeRequestUnbond_eq_ok_iff.mpr ⟨hsender, hidle, hamount, rfl⟩
  exact (Account.receive_of_balance hc rfl).1

/-- A request under a pending announcement gets out in time just if it is not the later one or the
    announced code can never be applied. -/
theorem exitsInTime_request_iff (hinv : StakeInv v.storage)
    (hupgrade : UpgradeInv v.storage.upgrade) (hpending : v.storage.upgrade.pendingCodeHash ≠ 0)
    (hsender : inMsg.senderAddress = v.storage.owner) (hidle : v.storage.unbondingAt = 0)
    (hstaked : 0 < v.storage.staked) :
    ExitsInTime chain
        (step chain v (.receive inMsg (.stakeRequestUnbond queryId v.storage.staked))) ↔
      inMsg.now ≤ v.storage.upgrade.pendingCodeAt ∨ v.storage.upgrade.LastVersion := by
  have hafter : (step chain v
      (.receive inMsg (.stakeRequestUnbond queryId v.storage.staked))).storage = _ :=
    step_unbond hsender hidle ⟨hstaked, le_refl _⟩
  have hinv' := hinv.move (stakeMove_step chain v
    (.receive inMsg (.stakeRequestUnbond queryId v.storage.staked)))
  have hupgrade' := hupgrade.move (upgradeMove_step chain v
    (.receive inMsg (.stakeRequestUnbond queryId v.storage.staked)))
  rw [exitsInTime_iff hinv' hupgrade' (by rw [hafter]; exact hstaked)
    (by rw [hafter]; exact hpending), hafter]

end Events

/-- Owner and config are set at deployment. -/
theorem StakeMove.terms {s s' : VaultStorage} (h : StakeMove s s') :
    s'.owner = s.owner ∧ s'.config = s.config := by
  cases h <;> exact ⟨rfl, rfl⟩

theorem final_terms (chain : Chain) (v : Vault) (events : List Event) :
    (Run.final (step chain) v events).storage.owner = v.storage.owner ∧
      (Run.final (step chain) v events).storage.config = v.storage.config :=
  (Run.always_of_invariant
    (P := fun w : Vault => w.storage.owner = v.storage.owner ∧ w.storage.config = v.storage.config)
    (fun w e hw => by
      have hterms := (stakeMove_step chain w e).terms
      exact ⟨hterms.1.trans hw.1, hterms.2.trans hw.2⟩)
    ⟨rfl, rfl⟩ events).last

/-- In every reachable vault with an announced upgrade and stake in cooldown, the stake gets out in
    time exactly if its cooldown did not start after the announcement or no version number is left
    for the new code. So if a reachable vault gets an announcement, then any events other than the
    authority's, and then the owner's request for all of its bonded stake, that stake gets out in
    time exactly if the request was not later than the announcement or no number is left. -/
theorem exit_window_iff (chain : Chain) (owner : Address) (config : VaultConfig)
    (code balance : Nat) (before : List Event) (v₀ : Vault)
    (hreached : v₀ = Run.final (step chain) (deployed owner config code balance) before) :
    (0 < v₀.storage.unbondingAmount → v₀.storage.upgrade.pendingCodeHash ≠ 0 →
      (ExitsInTime chain v₀ ↔ v₀.storage.unbondingAt ≤ v₀.storage.upgrade.pendingCodeAt ∨
        v₀.storage.upgrade.LastVersion)) ∧
    ∀ (announce request : InMessage) (announceId requestId newCodeHash : Nat)
      (between : List Event) (v : Vault),
      announce.senderAddress = config.upgradeAuthority → newCodeHash ≠ 0 →
      (∀ e ∈ between, ¬ e.IsUpgrade) →
      v = Run.final (step chain) v₀
        (.receive announce (.stakeAnnounceUpgrade announceId newCodeHash) :: between) →
      request.senderAddress = owner → v.storage.unbondingAt = 0 → 0 < v.storage.staked →
      (ExitsInTime chain
          (step chain v (.receive request (.stakeRequestUnbond requestId v.storage.staked))) ↔
        request.now ≤ announce.now ∨ v₀.storage.upgrade.LastVersion) := by
  have hstart : StakeInv (deployed owner config code balance).storage := ⟨rfl, fun _ => rfl⟩
  have hfresh : UpgradeInv (deployed owner config code balance).storage.upgrade :=
    fun hpending => absurd rfl hpending
  have hinv := (always_stakeInv chain hstart before).last
  have hupgrade := (always_upgradeInv chain hfresh before).last
  have hterms₀ := final_terms chain (deployed owner config code balance) before
  rw [← hreached] at hinv hupgrade hterms₀
  refine ⟨exitsInTime_iff hinv hupgrade, ?_⟩
  intro announce request announceId requestId newCodeHash between v hauthority hhash hbetween hv
    howner hidle hstaked
  have hinv' : StakeInv v.storage := hv ▸ (always_stakeInv chain hinv _).last
  have hupgrade' : UpgradeInv v.storage.upgrade := hv ▸ (always_upgradeInv chain hupgrade _).last
  have hterms : v.storage.owner = v₀.storage.owner ∧ _ := hv ▸ final_terms chain v₀ _
  have hsender : announce.senderAddress = v₀.storage.config.upgradeAuthority := by
    rw [hterms₀.2]
    exact hauthority
  have hrequest : request.senderAddress = v.storage.owner := by
    rw [hterms.1, hterms₀.1]
    exact howner
  -- nothing after the announcement touches the upgrade state
  have hpending : v.storage.upgrade = { v₀.storage.upgrade with
      pendingCodeHash := newCodeHash, pendingCodeAt := announce.now } := by
    rw [hv]
    exact (final_upgrade_of_not hbetween).trans (congrArg (·.upgrade) (step_announce hsender))
  rw [exitsInTime_request_iff hinv' hupgrade' (by rw [hpending]; exact hhash) hrequest hidle
    hstaked, hpending]

/-- The owner bonds, asks to unbond, and only then the upgrade is announced. -/
def earlyRun : List Event :=
  [.receive (.sent (party 3) 1050000000 1) (.stakeDeposit 0 1000000000),
   .receive (.sent (party 3) 0 2) (.stakeRequestUnbond 0 1000000000),
   .receive (.sent (party 5) 0 3) (.stakeAnnounceUpgrade 0 77)]

theorem early_exits_in_time :
    ExitsInTime drainChain
      (Run.final (step drainChain) (deployed (party 3) drainConfig 0 0) earlyRun) :=
  ((exit_window_iff drainChain (party 3) drainConfig 0 0 earlyRun _ rfl).1 (by decide)
    (by decide)).mpr (.inl (by decide))

/-- The owner bonds, the upgrade is announced, and the owner reacts one second later. -/
def lateRun : List Event :=
  [.receive (.sent (party 3) 1050000000 1) (.stakeDeposit 0 1000000000),
   .receive (.sent (party 5) 0 1000) (.stakeAnnounceUpgrade 0 77),
   .receive (.sent (party 3) 0 1001) (.stakeRequestUnbond 0 1000000000)]

/-- The new code can be applied at 1010, the stake withdrawn from 1011 on. -/
theorem late_exits_too_late :
    AppliesAt drainChain
        (Run.final (step drainChain) (deployed (party 3) drainConfig 0 0) lateRun) 1010 ∧
      ∀ t, WithdrawsAt drainChain
        (Run.final (step drainChain) (deployed (party 3) drainConfig 0 0) lateRun) t → 1011 ≤ t := by
  refine ⟨(appliesAt_iff 1010).mpr (by decide), ?_⟩
  intro t hwithdraw
  have hinv : StakeInv
      (Run.final (step drainChain) (deployed (party 3) drainConfig 0 0) lateRun).storage :=
    ⟨by decide, by decide⟩
  have hready := ((withdrawsAt_iff hinv t).mp hwithdraw).2.2
  exact hready

end Duckton.Ton.StakeVault
