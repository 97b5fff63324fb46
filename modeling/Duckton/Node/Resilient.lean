/-
  The resilient re-dispatch loop (node/coordinator.rs, `run_resilient`).

  One pass runs a dispatch attempt and either ends the query or goes round again with what it
  learned: whom to exclude, the capacity that was not enough. Wall clock and retry budget are
  answers that come with each pass; backoff only delays. The texts of the errors are kept as
  the data they are made of.
-/
import Duckton.Node.Attempt

namespace Duckton.Node

open Duckton.Proto Duckton.Settlement

/-- `last_reason`. Attempts are counted from one. -/
inductive RetryReason where
  | noAttempt
  | stalled (attempt tried : Nat)
  | resourceExceeded (attempt : Nat) (detail : Option String)
  | inputDrift (attempt drifted committed : Nat)
  deriving DecidableEq, Repr

/-- What a final error adds to the last reason. -/
inductive StopCause where
  | asReported
  | noProgress
  | maxTotalDuration
  deriving DecidableEq, Repr

inductive CoordinatorError where
  | config (detail : String)
  | noCandidates
  | insufficientWorkers (available quorum : Nat)
  | quorumFailed (agreement quorum : Nat)
  | infeasible (reason : InfeasibleReason)
  | exceedsCapacity (reason : RetryReason) (cause : StopCause)
  | exhausted (attempts : Nat) (reason : RetryReason) (cause : StopCause)
  | retryBudgetExhausted (attempts : Nat)
  | insufficientEscrow (e : InsufficientEscrow)
  | localExecution (detail : String)
  deriving DecidableEq

/-- The scheduler's bounds on the loop; zero is unlimited. -/
structure RetryPolicy where
  maxRetries : Nat
  maxTotalDurationMs : Nat
  deriving DecidableEq, Repr

/-- One pass: the services and the network as the attempt finds them, and what clock and retry
    budget say after it. -/
structure Round where
  coordinator : Coordinator
  network : Network
  elapsedMs : Nat
  tokenGranted : Bool

/-- The variables of the loop. `excluded` is a set. -/
structure LoopState where
  excluded : List NodeId
  retries : Nat
  lastReason : RetryReason
  capacityFloor : Nat
  sawResourceExceeded : Bool
  deriving DecidableEq, Repr

def LoopState.initial : LoopState where
  excluded := []
  retries := 0
  lastReason := .noAttempt
  capacityFloor := 0
  sawResourceExceeded := false

/-- The job as an attempt sees it when the loop is in state `s`. -/
def Job.inState (job : Job) (s : LoopState) : Job :=
  { job with excluded := s.excluded, capacityFloor := s.capacityFloor }

inductive LoopStep where
  | finished (result : Except CoordinatorError QueryOutcome)
  | again (s : LoopState)

def exclude (excluded : List NodeId) (ids : List NodeId) : List NodeId :=
  ids.foldl (fun seen n => seen.insert n) excluded

variable {excluded ids : List NodeId}

theorem mem_exclude {n : NodeId} : n ∈ exclude excluded ids ↔ n ∈ excluded ∨ n ∈ ids := by
  induction ids generalizing excluded with
  | nil => simp [exclude]
  | cons a ids ih =>
    show n ∈ exclude (excluded.insert a) ids ↔ _
    rw [ih, List.mem_insert_iff, List.mem_cons]
    tauto

theorem length_le_length_exclude (excluded ids : List NodeId) :
    excluded.length ≤ (exclude excluded ids).length := by
  induction ids generalizing excluded with
  | nil => exact Nat.le_refl _
  | cons a ids ih => exact Nat.le_trans List.length_le_length_insert (ih _)

/-- The guard of the loop: the set has not grown exactly when everybody was in it. -/
theorem length_exclude_eq_iff :
    (exclude excluded ids).length = excluded.length ↔ ∀ n ∈ ids, n ∈ excluded := by
  induction ids generalizing excluded with
  | nil => simp [exclude]
  | cons a ids ih =>
    show (exclude (excluded.insert a) ids).length = _ ↔ _
    by_cases ha : a ∈ excluded
    · rw [List.insert_of_mem ha, ih]
      simp [ha]
    · have hle := length_le_length_exclude (excluded.insert a) ids
      rw [List.length_insert_of_not_mem ha] at hle
      refine iff_of_false (by omega) fun h => ha (h a List.mem_cons_self)

/-- The stop conditions every retry passes: the number of retries, the wall clock, the budget. -/
def RetryPolicy.retry (policy : RetryPolicy) (round : Round) (s : LoopState)
    (giveUp : StopCause → CoordinatorError) : LoopStep :=
  if policy.maxRetries ≠ 0 ∧ policy.maxRetries ≤ s.retries then
    .finished (.error (giveUp .asReported))
  else if policy.maxTotalDurationMs ≠ 0 ∧ policy.maxTotalDurationMs ≤ round.elapsedMs then
    .finished (.error (giveUp .maxTotalDuration))
  else if !round.tokenGranted then
    .finished (.error (.retryBudgetExhausted (s.retries + 1)))
  else .again { s with retries := s.retries + 1 }

/-- Nobody is left to ask: a capacity error once a consensus ran out of resources. -/
def LoopState.nobodyLeft (s : LoopState) (first : CoordinatorError) : LoopStep :=
  .finished (.error
    (if s.sawResourceExceeded then .exceedsCapacity s.lastReason .asReported
    else if s.retries = 0 then first
    else .exhausted (s.retries + 1) s.lastReason .asReported))

/-- The body of the loop after an attempt. -/
def RetryPolicy.after (policy : RetryPolicy) (round : Round) (s : LoopState) :
    Except InsufficientEscrow AttemptResult → LoopStep
  | .error e => .finished (.error (.insufficientEscrow e))
  | .ok (.done o) => .finished (.ok o)
  | .ok (.infeasible reason) => .finished (.error (.infeasible reason))
  | .ok (.quorumDisagreement agreement quorum) =>
    .finished (.error (.quorumFailed agreement quorum))
  | .ok .noCandidates => s.nobodyLeft .noCandidates
  | .ok (.insufficientWorkers available quorum) =>
    s.nobodyLeft (.insufficientWorkers available quorum)
  | .ok (.inconclusive tried) =>
    let reason := .stalled (s.retries + 1) tried.length
    let excluded := exclude s.excluded tried
    if excluded.length = s.excluded.length then
      .finished (.error (.exhausted (s.retries + 1) reason .noProgress))
    else policy.retry round { s with excluded := excluded, lastReason := reason }
      (.exhausted (s.retries + 1) reason)
  | .ok (.resourceExceeded oomed maxTriedCapacity detail) =>
    let reason := .resourceExceeded (s.retries + 1) detail
    let excluded := exclude s.excluded oomed
    let capacityFloor := max s.capacityFloor maxTriedCapacity
    if excluded.length = s.excluded.length ∧ capacityFloor = s.capacityFloor then
      .finished (.error (.exceedsCapacity reason .asReported))
    else policy.retry round
      { s with excluded := excluded, lastReason := reason, capacityFloor := capacityFloor
               sawResourceExceeded := true }
      (.exceedsCapacity reason)
  | .ok (.inputDrift drifted committed) =>
    let reason := .inputDrift (s.retries + 1) drifted committed
    policy.retry round { s with lastReason := reason } (.exhausted (s.retries + 1) reason)

/-- The attempts that were made, with the services each of them met, and how the loop ended; no end
    when the given rounds are used up. -/
structure GridRun where
  attempts : List (Coordinator × AttemptReport)
  result : Option (Except CoordinatorError QueryOutcome)

def runResilient (policy : RetryPolicy) (cfg : GridConfig) (job : Job) :
    List Round → LoopState → GridRun
  | [], _ => ⟨[], none⟩
  | round :: rounds, s =>
    let report := round.coordinator.dispatchAttempt cfg (job.inState s) round.network
    match policy.after round s report.result with
    | .finished result => ⟨[(round.coordinator, report)], some result⟩
    | .again s' =>
      let rest := runResilient policy cfg job rounds s'
      ⟨(round.coordinator, report) :: rest.attempts, rest.result⟩

/-! ## Leaving the node -/

/-- An attempt asks discovery unless its input source cannot be reached. -/
def Coordinator.asksDiscovery (co : Coordinator) : Bool :=
  match co.resolution with
  | .unavailable _ => false
  | _ => true

/-- Some attempt asked discovery. -/
def GridRun.asksDiscovery (run : GridRun) : Bool :=
  run.attempts.any fun a => a.1.asksDiscovery

/-- An attempt without its inputs contacts nobody and cannot be done. -/
theorem dispatchAttempt_of_unavailable {co : Coordinator} (h : co.asksDiscovery = false)
    (cfg : GridConfig) (job : Job) (net : Network) :
    ∃ reason, co.dispatchAttempt cfg job net =
      .early (.ok (.infeasible (.inputUnavailable reason))) [] := by
  unfold Coordinator.asksDiscovery at h
  split at h
  · rename_i reason hres
    refine ⟨reason, ?_⟩
    unfold Coordinator.dispatchAttempt Coordinator.gather
    rw [hres]
  · cases h

/-- Whether a query that reaches the grid leaves the node is settled by the first attempt. -/
theorem asksDiscovery_runResilient (policy : RetryPolicy) (cfg : GridConfig) (job : Job)
    (round : Round) (rounds : List Round) (s : LoopState) :
    (runResilient policy cfg job (round :: rounds) s).asksDiscovery =
      round.coordinator.asksDiscovery := by
  rw [runResilient]
  cases hask : round.coordinator.asksDiscovery with
  | true =>
    split
    all_goals simp [GridRun.asksDiscovery, hask]
  | false =>
    obtain ⟨reason, hreport⟩ :=
      dispatchAttempt_of_unavailable hask cfg (job.inState s) round.network
    rw [hreport]
    simp [AttemptReport.early, RetryPolicy.after, GridRun.asksDiscovery, hask]

end Duckton.Node
