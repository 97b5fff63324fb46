/-
  Shared vocabulary of the settlement contracts (common.tolk): addresses, error codes,
  constants, and the two ways contract code throws.

  Coins are natural numbers of nanoton. The contracts store them as VarUInteger 16; the ceiling
  of 2^120 lies far above the total supply of Toncoin and is not modelled, but a subtraction
  that would go below zero throws (the field no longer serializes), as on chain.
-/
import Mathlib.Algebra.Group.Nat.Defs
import Duckton.Lib.Fallible

namespace Duckton.Ton

/-- A standard internal address as the chain stores it. -/
structure Address where
  workchain : BitVec 8
  hash : BitVec 256
  deriving DecidableEq, Repr

/-- The members of `ErrCode` that the modelled contracts throw. -/
inductive ErrCode where
  | notOwner
  | notEnoughGas
  | invalidOp
  | notSlasher
  | nothingToUnbond
  | unbondInProgress
  | cooldownNotElapsed
  | noUnbonding
  | keeperTooEarly
  | slashExceedsStake
  | invalidSplit
  | noPendingUpgrade
  | upgradeTimelockActive
  | upgradeCodeMismatch
  | paramsOutOfBounds
  | upgradeNotAuthority
  | badBountyBps
  | notArbiter
  | hashMismatch
  | alreadySettled
  | timeoutNotReached
  | payoutExceedsEscrow
  | settlePolicyMismatch
  | tooManyParticipants
  | notOwnerSig
  | feeMismatch
  | commissionMismatch
  | notFromMaster
  | receiptLocked
  | balanceNegative
  | notAdmin
  | badPrevRoot
  | epochRegression
  | insufficientAnchorStake
  | badInclusionProof
  | disputeBondTooLow
  | noSuchDispute
  | notVerdictAuthority
  | disputeNotOpen
  | unknownEpoch
  | proofTooDeep
  | notAnchorKeeper
  | zeroRoot
  | bondFloorTooLow
  deriving DecidableEq, Repr

/-- How the compute phase ends early: an `assert` of the contract, the virtual machine's own
    range check when a negative amount is stored as coins or a counter outgrows its width, or a
    cell that does not parse. -/
inductive Exit where
  | err (code : ErrCode)
  | rangeCheck
  | counterOverflow
  | malformed
  deriving DecidableEq, Repr

/-- `assert (c) throw e`. -/
def require (c : Prop) [Decidable c] (e : ErrCode) : Except Exit Unit :=
  if c then .ok () else .error (.err e)

/-- `a -= b` on a coins field that is saved afterwards. -/
def subCoins (a b : Nat) : Except Exit Nat :=
  if b ≤ a then .ok (a - b) else .error .rangeCheck

variable {c : Prop} {e : ErrCode} {x : Exit}

variable {β α : Type}

@[simp] theorem require_bind_eq_ok [Decidable c] {f : Unit → Except Exit β} {r : β} :
    (require c e >>= f) = .ok r ↔ c ∧ f () = .ok r :=
  Fallible.ensure_bind_eq_ok

@[simp] theorem subCoins_bind_eq_ok {a b : Nat} {f : Nat → Except Exit β} {r : β} :
    (subCoins a b >>= f) = .ok r ↔ b ≤ a ∧ f (a - b) = .ok r := by
  unfold subCoins
  split
  · rename_i hc
    exact ⟨fun h => ⟨hc, h⟩, fun h => h.2⟩
  · rename_i hc
    exact ⟨nofun, fun h => absurd h.1 hc⟩

/-- `v += 1` on a `uint32` that is saved afterwards. -/
def increment (v : UInt32) : Except Exit UInt32 :=
  if v.toNat + 1 < 2 ^ 32 then .ok (v + 1) else .error .counterOverflow

theorem increment_eq_ok {v w : UInt32} (h : increment v = .ok w) : w.toNat = v.toNat + 1 := by
  unfold increment at h
  split at h
  · cases h
    exact Nat.mod_eq_of_lt ‹_›
  · cases h

theorem exists_increment_iff {v : UInt32} : (∃ w, increment v = .ok w) ↔ v.toNat + 1 ≠ 2 ^ 32 := by
  have hlt := v.toNat_lt
  unfold increment
  constructor
  · rintro ⟨w, hw⟩
    split at hw
    · omega
    · cases hw
  · intro hne
    exact ⟨_, if_pos (by omega)⟩

/-- What a read of a cell gives, or the exception it throws. -/
def parsed {α : Type} : Option α → Except Exit α
  | some a => .ok a
  | none => .error .malformed

export Fallible (bind_eq_ok)

variable {o : Option α}

theorem parsed_eq_ok {a : α} : parsed o = .ok a ↔ o = some a := by
  cases o with
  | none => exact ⟨nofun, nofun⟩
  | some b => exact ⟨fun h => congrArg some (Except.ok.inj h), fun h => congrArg _ (Option.some.inj h)⟩

@[simp] theorem parsed_bind_eq_ok {f : α → Except Exit β} {r : β} :
    (parsed o >>= f) = .ok r ↔ ∃ a, o = some a ∧ f a = .ok r := by
  simp only [bind_eq_ok, parsed_eq_ok]

theorem require_eq_ok [Decidable c] {u : Unit} :
    require c e = .ok u ↔ c :=
  Fallible.ensure_eq_ok

/-- An exit that no part throws is not thrown by the whole. -/
theorem bind_ne_error {x : Except Exit α} {f : α → Except Exit β} {e : Exit} (hx : x ≠ .error e)
    (h : ∀ a, x = .ok a → f a ≠ .error e) : (x >>= f) ≠ .error e := by
  cases x with
  | error e' =>
    intro heq
    exact hx (congrArg Except.error (Except.error.inj heq))
  | ok a => exact h a rfl

theorem ne_error_of_ok {x : Except Exit α} {a : α} {e : Exit} (h : x = .ok a) :
    x ≠ .error e := by
  rw [h]
  exact nofun

theorem require_ne_error [Decidable c] (h : .err e ≠ x) :
    require c e ≠ .error x := by
  unfold require
  split
  · exact nofun
  · exact fun heq => h (Except.error.inj heq)

/-- An assertion with another code. -/
theorem require_bind_ne_error [Decidable c] {f : Unit → Except Exit β} (he : .err e ≠ x)
    (h : c → f () ≠ .error x) :
    (require c e >>= f) ≠ .error x :=
  bind_ne_error (require_ne_error he) fun _ hc => h (require_eq_ok.mp hc)

theorem parsed_ne_error (h : .malformed ≠ x) : parsed o ≠ .error x := by
  cases o with
  | none => exact fun heq => h (Except.error.inj heq)
  | some a => exact nofun

@[simp] theorem pure_eq_ok {a b : β} : (pure a : Except Exit β) = .ok b ↔ a = b :=
  ⟨fun h => Except.ok.inj h, fun h => congrArg Except.ok h⟩

/-- A value that may have been overwritten looks the same just when what overwrote it does. -/
theorem proj_getD_eq_iff (f : α → β) (o : Option α) (d : α) :
    f (o.getD d) = f d ↔ ∀ a, o = some a → f a = f d := by
  cases o with
  | none => exact ⟨nofun, fun _ => rfl⟩
  | some a => exact ⟨fun h _ ha => (Option.some.inj ha) ▸ h, fun h => h a rfl⟩

/-- `MIN_TONS_FOR_STORAGE = ton("0.05")`. -/
def minTonsForStorage : Nat :=
  50000000

/-- `BPS_DENOM`. -/
def bpsDenom : Nat :=
  10000

def mulDivFloor (a b c : Nat) : Nat :=
  a * b / c

/-- What the handlers read of an inbound message and its block. Block time is never zero: the
    contracts use zero for "not set". -/
structure InMessage where
  senderAddress : Address
  valueCoins : Nat
  now : Nat
  now_pos : 0 < now

/-- A message handled at time `now`, at the earliest at time 1. -/
def InMessage.sent (senderAddress : Address) (valueCoins now : Nat) : InMessage where
  senderAddress := senderAddress
  valueCoins := valueCoins
  now := max now 1
  now_pos := Nat.lt_of_lt_of_le Nat.one_pos (Nat.le_max_right now 1)

end Duckton.Ton
