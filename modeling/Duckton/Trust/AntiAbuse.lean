/-
  Failure classification and job consensus (trust/antiabuse.rs, node/retry.rs).

  The fraction of providers that makes a consensus is a float; `need` is the count it comes to,
  `ceil(fraction * selected)`.
-/
import Mathlib.Data.List.Infix
import Duckton.Proto.Messages

namespace Duckton.Trust

open Duckton.Proto

/-- `to_ascii_lowercase` followed by `contains`. -/
def mentions (message needle : String) : Bool :=
  decide (needle.toList <:+: message.toList.map Char.toLower)

def resourceMarkers : List String :=
  ["out of memory", "could not allocate", "memory limit", "failed to allocate",
   "exceeds the memory limit", "resource exhaust", "too large", "disk quota", "no space left",
   "cap deadline exceeded"]

def infeasibleMarkers : List String :=
  ["syntax error", "parser error", "binder error", "catalog error", "does not exist", "no such",
   "not found", "referenced table", "referenced column", "type mismatch", "conversion error",
   "permission", "no files found"]

def classifyFailure (errMsg : String) : Verdict :=
  if resourceMarkers.any (mentions errMsg) then .resourceExceeded
  else if infeasibleMarkers.any (mentions errMsg) then .infeasible
  else .inconclusive

/-- An explicit failure is never blamed on the provider. -/
theorem classifyFailure_blameless (errMsg : String) :
    (classifyFailure errMsg).isProviderFault = false := by
  unfold classifyFailure
  split
  · rfl
  · split <;> rfl

def isJobConsensusFailure (need : Nat → Nat) (sameFailure selected : Nat) : Bool :=
  if selected < 2 then false else max (need selected) 2 ≤ sameFailure

end Duckton.Trust
