/-
  Metered pricing terms of a bid and the billed time (node/coordinator.rs).

  The only float operation here, the median scaled by the configured tolerance and rounded up,
  is a parameter of `meteredBilledSeconds`.
-/
import Mathlib.Data.List.Sort
import Duckton.Proto.Messages
import Duckton.Settlement.Escrow

namespace Duckton.Node

open Duckton.Proto Duckton.Settlement

/-- `GIB_BYTES`. -/
def gibBytes : Nat :=
  1024 * 1024 * 1024

/-- `TON_NANOTON`. -/
def tonNanoton : Nat :=
  1000000000

structure MeteredTerms where
  ratePerSecond : Nat
  ratePerGb : Nat
  capSeconds : Nat
  deriving DecidableEq, Repr

/-- A bid without a rate carries no metered terms. -/
def MeteredTerms.fromBid (bid : Bid) : Option MeteredTerms :=
  if bid.ratePerSecond = 0 then none
  else some ⟨bid.ratePerSecond, bid.ratePerGb, max bid.capSeconds 1⟩

def MeteredTerms.bytesTerm (t : MeteredTerms) (bytes : Nat) : Nat :=
  satMul t.ratePerGb bytes / gibBytes

/-- The most the job can cost. -/
def MeteredTerms.capBase (t : MeteredTerms) (bytes : Nat) : Nat :=
  satAdd (satMul t.ratePerSecond t.capSeconds) (t.bytesTerm bytes)

def MeteredTerms.baseFor (t : MeteredTerms) (billedSeconds bytes : Nat) : Nat :=
  satAdd (satMul t.ratePerSecond (min billedSeconds t.capSeconds)) (t.bytesTerm bytes)

theorem MeteredTerms.baseFor_le_capBase (t : MeteredTerms) (billedSeconds bytes : Nat) :
    t.baseFor billedSeconds bytes ≤ t.capBase bytes :=
  satAdd_mono (satMul_mono (Nat.le_refl _) (Nat.min_le_right _ _)) (Nat.le_refl _)

structure MeteredSettle where
  terms : MeteredTerms
  billedSeconds : Nat
  bytes : Nat
  deriving DecidableEq, Repr

def bidPriceSignal (bid : Bid) : Nat :=
  if 0 < bid.ratePerSecond then bid.ratePerSecond else bid.price

/-- The median of what the source does not panic on: it adds the two middle latencies in 64 bits with
    an overflow check, which `checkedMedian` has. -/
def medianMs (latencies : List Nat) : Nat :=
  let v := latencies.insertionSort (· ≤ ·)
  let n := v.length
  if n = 0 then 0
  else if n % 2 = 1 then v.getD (n / 2) 0
  else (v.getD (n / 2 - 1) 0 + v.getD (n / 2) 0) / 2

/-- `ms.div_ceil(1000)`. -/
def ceilSecs (ms : Nat) : Nat :=
  (ms + 999) / 1000

def meteredBilledSeconds (tolerated : Nat → Nat) (winnerMs : Nat) (agreeingMs : List Nat) : Nat :=
  let winnerSecs := ceilSecs winnerMs
  let median := medianMs agreeingMs
  if median = 0 then winnerSecs
  else min winnerSecs (ceilSecs (tolerated median))

end Duckton.Node
