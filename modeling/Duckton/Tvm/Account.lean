/-
  Accounts and the action phase of the TON virtual machine.

  A transaction credits the value of the inbound message, runs the contract code (which may
  throw) and then executes the actions the code queued, in order. If the code throws or an
  action fails, the whole transaction reverts. Gas, forward fees and storage rent are not
  modelled, so a fixed-value send takes exactly its value out of the balance.

  `Phase` is the state of the action phase: `remaining` is what later actions may still spend,
  `reserved` what RAWRESERVE has set aside; both end up in the account's balance.
-/
import Mathlib.Algebra.Order.BigOperators.Group.List
import Mathlib.Tactic.Linarith

namespace Tvm

variable {σ α β γ ε : Type}

/-- A message on its way: where to, how much, whether it comes back on failure, and its body. -/
structure Message (α β : Type) where
  dest : α
  value : Nat
  bounce : Bool
  body : β
  deriving DecidableEq, Repr

/-- The value part of a send: a fixed amount (PAY_FEES_SEPARATELY), the value the inbound
    message brought (CARRY_ALL_REMAINING_MESSAGE_VALUE), or what is left (CARRY_ALL_BALANCE). -/
inductive SendValue where
  | coins (amount : Nat)
  | remainingMessageValue
  | allBalance
  deriving DecidableEq, Repr

/-- An output action. `reserveExact` is RAWRESERVE in mode 0, `setCode` the postponed SETCODE. -/
inductive Action (α β γ : Type) where
  | send (dest : α) (value : SendValue) (bounce ignoreErrors : Bool) (body : β)
  | reserveExact (amount : Nat)
  | setCode (code : γ)
  deriving DecidableEq, Repr

structure Phase (α β γ : Type) where
  remaining : Nat
  reserved : Nat
  sent : List (Message α β)
  code : Option γ

/-- The coins a send takes, given the inbound value and what remains. -/
def SendValue.amount (inValue remaining : Nat) : SendValue → Nat
  | .coins amount => amount
  | .remainingMessageValue => inValue
  | .allBalance => remaining

variable (p : Phase α β γ)

/-- `coins` leave in a message. -/
def Phase.pay (dest : α) (coins : Nat) (bounce : Bool) (body : β) : Phase α β γ :=
  { p with remaining := p.remaining - coins, sent := p.sent ++ [⟨dest, coins, bounce, body⟩] }

/-- `amount` is set aside. -/
def Phase.reserve (amount : Nat) : Phase α β γ :=
  { p with remaining := p.remaining - amount, reserved := p.reserved + amount }

/-- One action. `none` is an action-phase failure; IGNORE_ERRORS skips a send that fails. -/
def Phase.step (inValue : Nat) (p : Phase α β γ) : Action α β γ → Option (Phase α β γ)
  | .send dest value bounce ignoreErrors body =>
    let coins := value.amount inValue p.remaining
    if coins ≤ p.remaining then some (p.pay dest coins bounce body)
    else if ignoreErrors then some p
    else none
  | .reserveExact amount => if amount ≤ p.remaining then some (p.reserve amount) else none
  | .setCode code => some { p with code := some code }

/-- The actions of one transaction, in the order they were queued. -/
def Phase.run (inValue : Nat) : Phase α β γ → List (Action α β γ) → Option (Phase α β γ)
  | p, [] => some p
  | p, a :: as => (p.step inValue a).bind fun q => Phase.run inValue q as

/-- What the account keeps once the phase is over. -/
def Phase.balance : Nat :=
  p.remaining + p.reserved

/-- The coins that left in messages. -/
def Phase.spent : Nat :=
  (p.sent.map Message.value).sum

def Phase.start (balance : Nat) : Phase α β γ :=
  ⟨balance, 0, [], none⟩

/-! ## Steps of the phase -/

variable (amount balance inValue : Nat) (dest : α) (coins : Nat) (bounce : Bool) (body : β)

@[simp] theorem Phase.run_nil (p : Phase α β γ) : p.run inValue [] = some p := rfl

@[simp] theorem Phase.run_cons (p : Phase α β γ) (a : Action α β γ) (as : List (Action α β γ)) :
    p.run inValue (a :: as) = (p.step inValue a).bind fun q => q.run inValue as := rfl

@[simp] theorem Phase.start_remaining : (start balance : Phase α β γ).remaining = balance := rfl

@[simp] theorem Phase.start_reserved : (start balance : Phase α β γ).reserved = 0 := rfl

@[simp] theorem Phase.pay_remaining :
    (p.pay dest coins bounce body).remaining = p.remaining - coins := rfl

@[simp] theorem Phase.pay_reserved : (p.pay dest coins bounce body).reserved = p.reserved := rfl

@[simp] theorem Phase.reserve_remaining : (p.reserve amount).remaining = p.remaining - amount := rfl

@[simp] theorem Phase.reserve_reserved : (p.reserve amount).reserved = p.reserved + amount := rfl

theorem Phase.pay_conserves {coins : Nat} (bounce : Bool) (body : β) (h : coins ≤ p.remaining) :
    (p.pay dest coins bounce body).balance + (p.pay dest coins bounce body).spent =
      p.balance + p.spent := by
  simp only [pay, balance, spent, List.map_append, List.sum_append, List.map_cons, List.map_nil,
    List.sum_singleton]
  omega

theorem Phase.reserve_balance {amount : Nat} (h : amount ≤ p.remaining) :
    (p.reserve amount).balance = p.balance := by
  unfold balance
  rw [reserve_remaining, reserve_reserved]
  omega

variable {p q : Phase α β γ} {inValue : Nat}

variable {a : Action α β γ} {as : List (Action α β γ)}

theorem Phase.step_conserves (h : p.step inValue a = some q) :
    q.balance + q.spent = p.balance + p.spent := by
  cases a with
  | send dest value bounce ignoreErrors body =>
    simp only [step] at h
    split at h
    · rename_i hc
      cases h
      exact p.pay_conserves dest bounce body hc
    · split at h
      · cases h; rfl
      · cases h
  | reserveExact amount =>
    simp only [step] at h
    split at h
    · rename_i hc
      cases h
      rw [p.reserve_balance hc]
      rfl
    · cases h
  | setCode code => cases h; rfl

/-- No coin is created or lost: what stays and what was sent add up to what was there. -/
theorem Phase.run_conserves (h : p.run inValue as = some q) :
    q.balance + q.spent = p.balance + p.spent := by
  induction as generalizing p with
  | nil => cases h; rfl
  | cons a as ih =>
    rw [run_cons, Option.bind_eq_some_iff] at h
    obtain ⟨r, hr, hrest⟩ := h
    rw [ih hrest, step_conserves hr]

theorem Phase.step_code (h : p.step inValue a = some q) (ha : ∀ code, a ≠ .setCode code) :
    q.code = p.code := by
  cases a with
  | send dest value bounce ignoreErrors body =>
    simp only [step] at h
    split at h
    · cases h; rfl
    · split at h
      · cases h; rfl
      · cases h
  | reserveExact amount =>
    simp only [step] at h
    split at h
    · cases h; rfl
    · cases h
  | setCode code => exact absurd rfl (ha code)

/-- Sends and reserves leave the code alone. -/
theorem Phase.run_code (h : p.run inValue as = some q) (has : ∀ a ∈ as, ∀ code, a ≠ .setCode code) :
    q.code = p.code := by
  induction as generalizing p with
  | nil => cases h; rfl
  | cons a as ih =>
    rw [run_cons, Option.bind_eq_some_iff] at h
    obtain ⟨r, hr, hrest⟩ := h
    rw [ih hrest fun b hb => has b (List.mem_cons_of_mem a hb),
      step_code hr (has a List.mem_cons_self)]

/-- Carrying all balance always works and leaves only what was reserved. -/
@[simp] theorem Phase.step_sweep (inValue : Nat) (p : Phase α β γ) (dest : α) (bounce ign : Bool)
    (body : β) :
    p.step inValue (.send dest .allBalance bounce ign body) =
      some (p.pay dest p.remaining bounce body) := by
  simp [step, SendValue.amount]

@[simp] theorem Phase.step_send (inValue coins : Nat) (p : Phase α β γ) (dest : α) (bounce : Bool)
    (body : β) :
    p.step inValue (.send dest (.coins coins) bounce false body) =
      if coins ≤ p.remaining then some (p.pay dest coins bounce body) else none := by
  simp [step, SendValue.amount]

/-- A send that IGNORE_ERRORS protects never fails. -/
@[simp] theorem Phase.step_ignored (inValue coins : Nat) (p : Phase α β γ) (dest : α)
    (bounce : Bool) (body : β) :
    p.step inValue (.send dest (.coins coins) bounce true body) =
      some (if coins ≤ p.remaining then p.pay dest coins bounce body else p) := by
  simp only [step, SendValue.amount, if_true]
  split <;> rfl

@[simp] theorem Phase.step_reserve (inValue amount : Nat) (p : Phase α β γ) :
    p.step inValue (.reserveExact amount) =
      if amount ≤ p.remaining then some (p.reserve amount) else none := rfl

/-- A single send of a fixed amount takes just that amount. -/
theorem Phase.run_send_balance {funds coins : Nat} {dest : α} {bounce : Bool} {body : β}
    (h : (start funds).run inValue [.send dest (.coins coins) bounce false body] = some p) :
    p.balance + coins = funds := by
  rw [run_cons, step_send, start_remaining] at h
  split at h
  · rw [Option.bind_some, run_nil, Option.some.injEq] at h
    subst h
    rw [balance, pay_remaining, pay_reserved, start_remaining, start_reserved]
    omega
  · cases h

/-- The action that sends a message of fixed value. -/
def Message.toAction (m : Message α β) : Action α β γ :=
  .send m.dest (.coins m.value) m.bounce false m.body

/-- Fixed sends leave one after another, all of them or none. -/
theorem Phase.run_sends (inValue : Nat) (p : Phase α β γ) (ms : List (Message α β))
    (rest : List (Action α β γ)) :
    p.run inValue (ms.map Message.toAction ++ rest) =
      if (ms.map Message.value).sum ≤ p.remaining then
        Phase.run inValue { p with
          remaining := p.remaining - (ms.map Message.value).sum, sent := p.sent ++ ms } rest
      else none := by
  induction ms generalizing p with
  | nil =>
    rw [List.map_nil, List.map_nil, List.sum_nil, if_pos (Nat.zero_le _), Nat.sub_zero,
      List.append_nil, List.nil_append]
  | cons m ms ih =>
    rw [List.map_cons, List.cons_append, run_cons, Message.toAction, step_send, List.map_cons,
      List.sum_cons]
    by_cases hfirst : m.value ≤ p.remaining
    · rw [if_pos hfirst, Option.bind_some, ih, pay_remaining]
      by_cases hrest : (ms.map Message.value).sum ≤ p.remaining - m.value
      · rw [if_pos hrest, if_pos (by omega), Nat.sub_sub]
        simp only [pay, List.append_assoc, List.singleton_append]
      · rw [if_neg hrest, if_neg (by omega)]
    · rw [if_neg hfirst, if_neg (by omega)]
      rfl

/-! ## Transactions -/

/-- An account: its data, its balance, its code, and the messages it sent that have neither been
    accepted nor come back yet. -/
structure Account (σ α β γ : Type) where
  storage : σ
  balance : Nat
  code : γ
  outbound : List (Message α β)

/-- Why a transaction reverted. -/
inductive Abort (ε : Type) where
  | thrown (error : ε)
  | actionFailed
  deriving DecidableEq, Repr

/-- The account a successful transaction leaves. -/
def Account.commit (acct : Account σ α β γ) (storage : σ) (p : Phase α β γ) :
    Account σ α β γ :=
  { storage := storage
    balance := p.balance
    code := p.code.getD acct.code
    outbound := acct.outbound ++ p.sent }

/-- Run one transaction: `compute` is what the code made of the inbound message, which brought
    `value` coins. -/
def Account.transact (acct : Account σ α β γ) (value : Nat)
    (compute : Except ε (σ × List (Action α β γ))) : Except (Abort ε) (Account σ α β γ) :=
  match compute with
  | .error e => .error (.thrown e)
  | .ok (storage, actions) =>
    match Phase.run value (Phase.start (acct.balance + value)) actions with
    | none => .error .actionFailed
    | some p => .ok (acct.commit storage p)

/-- A rejected transaction leaves the account as it was. -/
def Account.receive (acct : Account σ α β γ) (value : Nat)
    (compute : Except ε (σ × List (Action α β γ))) : Account σ α β γ :=
  (acct.transact value compute).toOption.getD acct

variable {acct acct' : Account σ α β γ} {value : Nat} {storage : σ}
  {compute : Except ε (σ × List (Action α β γ))} {actions : List (Action α β γ)}

theorem Account.receive_of_ok (hc : compute = .ok (storage, actions))
    (hp : Phase.run value (Phase.start (acct.balance + value)) actions = some p) :
    acct.receive value compute = acct.commit storage p := by
  simp [receive, transact, hc, hp, Except.toOption]

/-- What a transaction leaves, read off the balance its action phase ends with. -/
theorem Account.receive_of_balance {balance : Nat} (hc : compute = .ok (storage, actions))
    (hp : (Phase.run value (Phase.start (acct.balance + value)) actions).map Phase.balance =
      some balance) :
    (acct.receive value compute).storage = storage ∧
      (acct.receive value compute).balance = balance := by
  obtain ⟨p, hrun, hbal⟩ := Option.map_eq_some_iff.mp hp
  rw [receive_of_ok hc hrun]
  exact ⟨rfl, hbal⟩

/-- Nothing changes if the code throws or its actions fail. -/
theorem Account.receive_of_failed
    (h : ∀ r, compute = .ok r →
      (Phase.run value (Phase.start (acct.balance + value)) r.2).map Phase.balance = none) :
    acct.receive value compute = acct := by
  cases compute with
  | error e => rfl
  | ok r => simp [receive, transact, Option.map_eq_none_iff.mp (h r rfl), Except.toOption]

theorem Account.transact_ok_iff :
    acct.transact value compute = .ok acct' ↔
      ∃ storage actions p, compute = .ok (storage, actions) ∧
        Phase.run value (Phase.start (acct.balance + value)) actions = some p ∧
        acct' = acct.commit storage p := by
  unfold transact
  constructor
  · intro h
    split at h
    · cases h
    · rename_i storage actions
      split at h
      · cases h
      · rename_i p hp
        cases h
        exact ⟨storage, actions, p, rfl, hp, rfl⟩
  · rintro ⟨storage, actions, p, rfl, hp, rfl⟩
    simp only [hp]

/-- A transaction adds to the messages on their way. -/
theorem Account.transact_outbound (h : acct.transact value compute = .ok acct') :
    acct'.outbound = acct.outbound ++ acct'.outbound.drop acct.outbound.length := by
  obtain ⟨storage, actions, p, -, -, rfl⟩ := transact_ok_iff.mp h
  have hsent : (acct.commit storage p).outbound.drop acct.outbound.length = p.sent :=
    List.drop_left
  rw [hsent]
  rfl

/-- What stays and what is on its way add up to what was there and what came in. -/
theorem Account.transact_conserves (h : acct.transact value compute = .ok acct') :
    acct'.balance + (acct'.outbound.map Message.value).sum =
      acct.balance + value + (acct.outbound.map Message.value).sum := by
  obtain ⟨storage, actions, p, -, hp, rfl⟩ := transact_ok_iff.mp h
  have hphase : p.balance + p.spent = acct.balance + value := Phase.run_conserves hp
  show p.balance + ((acct.outbound ++ p.sent).map Message.value).sum = _
  rw [List.map_append, List.sum_append, ← Phase.spent]
  omega

/-- A step either changes nothing or commits a transaction that ran to its end. -/
theorem Account.receive_cases (acct : Account σ α β γ) (value : Nat)
    (compute : Except ε (σ × List (Action α β γ))) :
    acct.receive value compute = acct ∨
      ∃ storage actions p, compute = .ok (storage, actions) ∧
        Phase.run value (Phase.start (acct.balance + value)) actions = some p ∧
        acct.receive value compute = acct.commit storage p := by
  unfold receive
  cases h : acct.transact value compute with
  | error e => exact .inl rfl
  | ok acct' =>
    obtain ⟨storage, actions, p, hc, hp, rfl⟩ := transact_ok_iff.mp h
    exact .inr ⟨storage, actions, p, hc, hp, rfl⟩

/-- What the old data and balance have, and every transaction that runs to its end leaves, a
    step keeps. -/
theorem Account.receive_keeps {P : σ → Nat → Prop} (hP : P acct.storage acct.balance)
    (h : ∀ storage actions p, compute = .ok (storage, actions) →
      Phase.run value (Phase.start (acct.balance + value)) actions = some p →
      P storage p.balance) :
    P (acct.receive value compute).storage (acct.receive value compute).balance := by
  rcases acct.receive_cases value compute with hsame | ⟨storage, actions, p, hc, hp, heq⟩
  · rw [hsame]
    exact hP
  · rw [heq]
    exact h storage actions p hc hp

end Tvm
