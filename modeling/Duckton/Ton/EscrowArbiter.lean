/-
  What a malicious arbiter can pay out.

  The arbiter writes the whole settle message: the quoted price, the winner, the participants and
  their amounts. The escrow holds it to the candidate set the requester committed to, to the quoted
  price for the winner's leg, and to the bound rates. It is meant to bound what each candidate gets
  and to pay the arbiter nothing. It does so just for the messages that list no more: with a rate of
  zero the check on the participants' amounts is switched off, the winner may be listed as a
  participant as well, and so may the arbiter, if the requester committed to it.
-/
import Duckton.Ton.EscrowBalance

namespace Duckton.Ton.EscrowRuns

open Tvm Duckton.Proto JobEscrow

/-! ## Legs by payee -/

/-- What the legs hold for `a`. -/
def amountFor (a : Address) (legs : List (Address × Nat)) : Nat :=
  (legs.map fun leg => if leg.1 = a then leg.2 else 0).sum

variable (a : Address) (queryId : Nat)

@[simp] theorem amountFor_nil : amountFor a [] = 0 := rfl

variable {legs : List (Address × Nat)}

def commission (s : EscrowStorage) (msg : EscrowSettle) : Nat :=
  msg.base * s.terms.participationCommissionBps / bpsDenom

section Settled

variable {sha256 : Bytes → BitVec 256} {s : EscrowStorage} {sender : Address}
  {es : List (List Bool × Cell)} {msg : EscrowSettle}

end Settled

end Duckton.Ton.EscrowRuns
