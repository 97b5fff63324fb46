/-
  The on-chain policy (settlement/ton.rs, `OnchainPolicy` and `GlobalParamsClient`).

  `read_policy` makes eight separate get-method calls: the fee recipient first, then the version, then
  six scalars. The chain does not wait for them, so a `TonRpc` says which transactions the
  contract handles right before each call, and which calls fail on the way.

  `apply_to` turns basis points into binary64 fractions; the rounding is `Binary64.rnd`.
-/
import Duckton.Lib.Binary64
import Duckton.Settlement.TonRail
import Duckton.Ton.GlobalParams

namespace Duckton.Settlement

open Duckton.Ton Duckton.Ton.GlobalParams

/-! ## The policy -/

structure OnchainPolicy where
  version : UInt32
  platformFeeBps : UInt16
  feeRecipient : WalletAddress
  participationCommissionBps : UInt16
  slashFailedCommitmentBps : UInt16
  attemptDeadlineMs : UInt32
  progressIntervalMs : UInt32
  progressStallMult : UInt8
  deriving DecidableEq, Repr

/-- The part of the configuration that a policy overrides; fractions are binary64 numbers. -/
structure PolicyLayer where
  platformFeePct : ℚ
  participationCommissionFrac : ℚ
  slashFailedCommitmentPct : ℚ
  attemptDeadlineMs : Nat
  progressIntervalMs : Nat
  progressStallMultiplier : Nat

/-- `bps as f64 / 10_000.0`. -/
def frac (bps : UInt16) : ℚ :=
  Binary64.rnd (bps.toNat / 10000)

def OnchainPolicy.applyTo (p : OnchainPolicy) : PolicyLayer where
  platformFeePct := frac p.platformFeeBps
  participationCommissionFrac := frac p.participationCommissionBps
  slashFailedCommitmentPct := frac p.slashFailedCommitmentBps
  attemptDeadlineMs := p.attemptDeadlineMs.toNat
  progressIntervalMs := p.progressIntervalMs.toNat
  progressStallMultiplier := max p.progressStallMult.toNat 1

/-! ## Reading it -/

/-- The network during one `read_policy`: `before k` are the messages the contract handles right
    before the `k`-th call is answered, `fault k` is what the call fails with. -/
structure TonRpc where
  before : Nat → List Transaction
  fault : Nat → Option SettleError
  readsAddresses : Bool

/-- `load_address`: the eight bits of the workchain are signed. -/
def walletOfAddress (a : Address) : WalletAddress :=
  ⟨a.workchain.signExtend 32, a.hash⟩

/-- One call: the chain moves on, and the call fails or is answered from what it finds. -/
def TonRpc.call {α : Type} (net : TonRpc) (k : Nat) (answer : GlobalParamsStorage → α)
    (s : GlobalParamsStorage) : Except SettleError (α × GlobalParamsStorage) :=
  let s := Run.final step s (net.before k)
  match net.fault k with
  | some e => .error e
  | none => .ok (answer s, s)

def TonRpc.runGetInt (net : TonRpc) (k : Nat) (method : GlobalParamsStorage → Int)
    (s : GlobalParamsStorage) : Except SettleError (Int × GlobalParamsStorage) :=
  net.call k method s

def TonRpc.runGetAddress (net : TonRpc) (k : Nat) (method : GlobalParamsStorage → Address)
    (s : GlobalParamsStorage) : Except SettleError (Option WalletAddress × GlobalParamsStorage) :=
  net.call k (fun s => if net.readsAddresses then some (walletOfAddress (method s)) else none) s

/-- `v.clamp(0, max)` on an `i128`, as the bits that are kept of it. -/
def clampTo (max : Nat) (v : Int) : Nat :=
  min v.toNat max

def u32c (v : Int) : UInt32 :=
  UInt32.ofNat (clampTo (2 ^ 32 - 1) v)

def u16c (v : Int) : UInt16 :=
  UInt16.ofNat (clampTo (2 ^ 16 - 1) v)

def u8c (v : Int) : UInt8 :=
  UInt8.ofNat (clampTo (2 ^ 8 - 1) v)

/-- The policy, and the contract as the last call finds it. -/
def TonRpc.readPolicy (net : TonRpc) (s : GlobalParamsStorage) :
    Except SettleError (OnchainPolicy × GlobalParamsStorage) := do
  let (recipient, s) ← net.runGetAddress 0 getFeeRecipient s
  let feeRecipient ← recipient.elim
    (.error (.backend "GlobalParams.get_fee_recipient unreadable on this transport")) .ok
  let (version, s) ← net.runGetInt 1 getParamsVersion s
  let (platformFeeBps, s) ← net.runGetInt 2 getPlatformFeeBps s
  let (participationCommissionBps, s) ← net.runGetInt 3 getParticipationCommissionBps s
  let (slashFailedCommitmentBps, s) ← net.runGetInt 4 getSlashFailedCommitmentBps s
  let (attemptDeadlineMs, s) ← net.runGetInt 5 getAttemptDeadlineMs s
  let (progressIntervalMs, s) ← net.runGetInt 6 getProgressIntervalMs s
  let (progressStallMult, s) ← net.runGetInt 7 getProgressStallMult s
  return ({ version := u32c version
            platformFeeBps := u16c platformFeeBps
            feeRecipient := feeRecipient
            participationCommissionBps := u16c participationCommissionBps
            slashFailedCommitmentBps := u16c slashFailedCommitmentBps
            attemptDeadlineMs := u32c attemptDeadlineMs
            progressIntervalMs := u32c progressIntervalMs
            progressStallMult := u8c progressStallMult }, s)

/-! ## What is read -/

/-- The policy a state stands for. -/
def policyOf (s : GlobalParamsStorage) : OnchainPolicy where
  version := s.paramsVersion
  platformFeeBps := s.params.platformFeeBps
  feeRecipient := walletOfAddress s.feeRecipient
  participationCommissionBps := s.params.participationCommissionBps
  slashFailedCommitmentBps := s.params.slashFailedCommitmentBps
  attemptDeadlineMs := s.params.attemptDeadlineMs
  progressIntervalMs := s.params.progressIntervalMs
  progressStallMult := s.params.progressStallMult

/-- The contract when the `k`-th call is answered. -/
def TonRpc.stateAt (net : TonRpc) (s : GlobalParamsStorage) : Nat → GlobalParamsStorage
  | 0 => Run.final step s (net.before 0)
  | k + 1 => Run.final step (net.stateAt s k) (net.before (k + 1))

/-- The transactions up to the `k`-th call. -/
def TonRpc.upTo (net : TonRpc) : Nat → List Transaction
  | 0 => net.before 0
  | k + 1 => net.upTo k ++ net.before (k + 1)

/-- The transactions between the version call and the `k`-th call after it. -/
def TonRpc.sinceVersion (net : TonRpc) : Nat → List Transaction
  | 0 => []
  | k + 1 => net.sinceVersion k ++ net.before (k + 2)

section Reading

variable {net : TonRpc} {s s' : GlobalParamsStorage}

theorem u32c_toNat (v : UInt32) : u32c v.toNat = v := by
  have hlt := v.toNat_lt
  rw [u32c, clampTo, Int.toNat_natCast, Nat.min_eq_left (by omega), UInt32.ofNat_toNat]

theorem u16c_toNat (v : UInt16) : u16c v.toNat = v := by
  have hlt := v.toNat_lt
  rw [u16c, clampTo, Int.toNat_natCast, Nat.min_eq_left (by omega), UInt16.ofNat_toNat]

theorem u8c_toNat (v : UInt8) : u8c v.toNat = v := by
  have hlt := v.toNat_lt
  rw [u8c, clampTo, Int.toNat_natCast, Nat.min_eq_left (by omega), UInt8.ofNat_toNat]

theorem call_eq_ok_iff {α : Type} {k : Nat} {answer : GlobalParamsStorage → α} {v : α} :
    net.call k answer s = .ok (v, s') ↔
      net.fault k = none ∧ Run.final step s (net.before k) = s' ∧ answer s' = v := by
  unfold TonRpc.call
  cases net.fault k with
  | some e => exact ⟨nofun, fun h => (nomatch h.1)⟩
  | none =>
    constructor
    · intro h
      cases h
      exact ⟨rfl, rfl, rfl⟩
    · rintro ⟨-, rfl, rfl⟩
      rfl

theorem call_bind_eq_ok {α β : Type} {k : Nat} {answer : GlobalParamsStorage → α}
    {f : α × GlobalParamsStorage → Except SettleError β} {r : β}
    (h : (net.call k answer s >>= f) = .ok r) :
    f (answer (Run.final step s (net.before k)), Run.final step s (net.before k)) = .ok r := by
  obtain ⟨⟨v, s'⟩, hcall, h⟩ := bind_eq_ok.mp h
  obtain ⟨-, rfl, rfl⟩ := call_eq_ok_iff.mp hcall
  exact h

variable {policy : OnchainPolicy}

/-- What `read_policy` returns: each field as the contract had it at that field's call. -/
theorem readPolicy_eq_ok (h : net.readPolicy s = .ok (policy, s')) :
    policy =
      { version := (net.stateAt s 1).paramsVersion
        platformFeeBps := (net.stateAt s 2).params.platformFeeBps
        feeRecipient := walletOfAddress (net.stateAt s 0).feeRecipient
        participationCommissionBps := (net.stateAt s 3).params.participationCommissionBps
        slashFailedCommitmentBps := (net.stateAt s 4).params.slashFailedCommitmentBps
        attemptDeadlineMs := (net.stateAt s 5).params.attemptDeadlineMs
        progressIntervalMs := (net.stateAt s 6).params.progressIntervalMs
        progressStallMult := (net.stateAt s 7).params.progressStallMult } := by
  obtain ⟨feeRecipient, hrecipient, h⟩ := bind_eq_ok.mp (call_bind_eq_ok h)
  -- the version, then the six numbers
  replace h := call_bind_eq_ok h
  replace h := call_bind_eq_ok h
  replace h := call_bind_eq_ok h
  replace h := call_bind_eq_ok h
  replace h := call_bind_eq_ok h
  replace h := call_bind_eq_ok h
  replace h := call_bind_eq_ok h
  have haddr : feeRecipient = walletOfAddress (net.stateAt s 0).feeRecipient := by
    cases hreads : net.readsAddresses with
    | false =>
      rw [hreads] at hrecipient
      cases hrecipient
    | true =>
      rw [hreads] at hrecipient
      cases hrecipient
      rfl
  cases h
  rw [haddr]
  simp only [getParamsVersion, getPlatformFeeBps, getParticipationCommissionBps,
    getSlashFailedCommitmentBps, getAttemptDeadlineMs, getProgressIntervalMs, getProgressStallMult,
    u32c_toNat, u16c_toNat, u8c_toNat]
  rfl

theorem final_upTo (k : Nat) : Run.final step s (net.upTo k) = net.stateAt s k := by
  induction k with
  | zero => rfl
  | succ k ih => rw [TonRpc.upTo, Run.final_append, ih, TonRpc.stateAt]

theorem final_sinceVersion (k : Nat) :
    Run.final step (net.stateAt s 1) (net.sinceVersion k) = net.stateAt s (k + 1) := by
  induction k with
  | zero => rfl
  | succ k ih =>
    rw [TonRpc.sinceVersion, Run.final_append, ih]
    rfl

theorem upTo_eq (k : Nat) : net.upTo (k + 1) = net.upTo 1 ++ net.sinceVersion k := by
  induction k with
  | zero => rw [TonRpc.sinceVersion, List.append_nil]
  | succ k ih => rw [TonRpc.upTo, ih, TonRpc.sinceVersion, List.append_assoc]

theorem walletOfAddress_inj {a b : Address} : walletOfAddress a = walletOfAddress b ↔ a = b := by
  refine ⟨fun h => ?_, fun h => congrArg _ h⟩
  have hback : ∀ c, (walletOfAddress c).onchain = c := by
    rintro ⟨workchain, hash⟩
    rw [walletOfAddress, WalletAddress.onchain, Address.mk.injEq]
    refine ⟨?_, rfl⟩
    ext i hi
    rw [BitVec.getElem_setWidth, BitVec.getLsbD_signExtend, if_pos hi, decide_eq_true (by omega),
      Bool.true_and, BitVec.getLsbD_eq_getElem hi]
  rw [← hback a, h, hback b]

/-- Between the calls for a field and for the version, the last update that goes through (if any)
    brings the value the field had. -/
structure TonRpc.Undisturbed (net : TonRpc) (s : GlobalParamsStorage) : Prop where
  feeRecipient : ∀ u, lastUpdate (net.stateAt s 0) (net.before 1) = some u →
    u.feeRecipient = (net.stateAt s 0).feeRecipient
  platformFeeBps : ∀ u, lastUpdate (net.stateAt s 1) (net.sinceVersion 1) = some u →
    u.params.platformFeeBps = (net.stateAt s 1).params.platformFeeBps
  participationCommissionBps : ∀ u, lastUpdate (net.stateAt s 1) (net.sinceVersion 2) = some u →
    u.params.participationCommissionBps = (net.stateAt s 1).params.participationCommissionBps
  slashFailedCommitmentBps : ∀ u, lastUpdate (net.stateAt s 1) (net.sinceVersion 3) = some u →
    u.params.slashFailedCommitmentBps = (net.stateAt s 1).params.slashFailedCommitmentBps
  attemptDeadlineMs : ∀ u, lastUpdate (net.stateAt s 1) (net.sinceVersion 4) = some u →
    u.params.attemptDeadlineMs = (net.stateAt s 1).params.attemptDeadlineMs
  progressIntervalMs : ∀ u, lastUpdate (net.stateAt s 1) (net.sinceVersion 5) = some u →
    u.params.progressIntervalMs = (net.stateAt s 1).params.progressIntervalMs
  progressStallMult : ∀ u, lastUpdate (net.stateAt s 1) (net.sinceVersion 6) = some u →
    u.params.progressStallMult = (net.stateAt s 1).params.progressStallMult

theorem field_kept_iff {α : Type} (f : ParamsSet → α) (k : Nat) :
    f (net.stateAt s (k + 1)).paramsSet = f (net.stateAt s 1).paramsSet ↔
      ∀ u, lastUpdate (net.stateAt s 1) (net.sinceVersion k) = some u →
        f u = f (net.stateAt s 1).paramsSet := by
  rw [← final_sinceVersion]
  exact final_proj_eq_iff f _ _

/-- The policy read is the one of the state at the version call just when nothing disturbed it. -/
theorem readPolicy_eq_policyOf_iff (h : net.readPolicy s = .ok (policy, s')) :
    policy = policyOf (net.stateAt s 1) ↔ net.Undisturbed s := by
  have hrecipient : (net.stateAt s 1).feeRecipient = (net.stateAt s 0).feeRecipient ↔ _ :=
    final_proj_eq_iff ParamsSet.feeRecipient (net.stateAt s 0) (net.before 1)
  rw [readPolicy_eq_ok h, policyOf, OnchainPolicy.mk.injEq, walletOfAddress_inj]
  constructor
  · rintro ⟨-, hfee, haddr, hcomm, hslash, hdeadline, hinterval, hmult⟩
    exact ⟨hrecipient.mp haddr.symm, (field_kept_iff (fun u => u.params.platformFeeBps) 1).mp hfee,
      (field_kept_iff (fun u => u.params.participationCommissionBps) 2).mp hcomm,
      (field_kept_iff (fun u => u.params.slashFailedCommitmentBps) 3).mp hslash,
      (field_kept_iff (fun u => u.params.attemptDeadlineMs) 4).mp hdeadline,
      (field_kept_iff (fun u => u.params.progressIntervalMs) 5).mp hinterval,
      (field_kept_iff (fun u => u.params.progressStallMult) 6).mp hmult⟩
  · intro hu
    exact ⟨rfl, (field_kept_iff (fun u => u.params.platformFeeBps) 1).mpr hu.platformFeeBps,
      (hrecipient.mpr hu.feeRecipient).symm,
      (field_kept_iff (fun u => u.params.participationCommissionBps) 2).mpr
        hu.participationCommissionBps,
      (field_kept_iff (fun u => u.params.slashFailedCommitmentBps) 3).mpr
        hu.slashFailedCommitmentBps,
      (field_kept_iff (fun u => u.params.attemptDeadlineMs) 4).mpr hu.attemptDeadlineMs,
      (field_kept_iff (fun u => u.params.progressIntervalMs) 5).mpr hu.progressIntervalMs,
      (field_kept_iff (fun u => u.params.progressStallMult) 6).mpr hu.progressStallMult⟩

theorem policyOf_eq {t u : GlobalParamsStorage} (hversion : t.paramsVersion = u.paramsVersion)
    (hset : t.paramsSet = u.paramsSet) : policyOf t = policyOf u := by
  obtain ⟨hrecipient, hparams⟩ := ParamsSet.mk.inj hset
  rw [policyOf, policyOf, hversion, hrecipient, hparams]

/-- Over all the states of the reading: the policy is that of its version just when nothing
    disturbed it. A version names one set of parameters, so one state of the version decides. -/
theorem always_policyOf_iff (h : net.readPolicy s = .ok (policy, s')) :
    Run.Always step (fun t => t.paramsVersion = policy.version → policy = policyOf t) s
      (net.upTo 7) ↔ net.Undisturbed s := by
  have hversion : policy.version = (net.stateAt s 1).paramsVersion := by rw [readPolicy_eq_ok h]
  rw [← readPolicy_eq_policyOf_iff h, upTo_eq, Run.always_append, final_upTo]
  constructor
  · exact fun halways => halways.2.head hversion.symm
  · intro hpolicy
    refine ⟨?_, ?_⟩
    · have hbefore := always_before_final s (net.upTo 1)
      rw [final_upTo] at hbefore
      refine hbefore.mono fun t ht heq => ?_
      have hsame : (net.stateAt s 1).paramsVersion = t.paramsVersion := (heq.trans hversion).symm
      rw [hpolicy, policyOf_eq hsame (ht.same hsame)]
    · refine (always_after_start _ _).mono fun t ht heq => ?_
      have hsame : t.paramsVersion = (net.stateAt s 1).paramsVersion := heq.trans hversion
      rw [hpolicy, policyOf_eq hsame (ht.same hsame)]

end Reading

end Duckton.Settlement
