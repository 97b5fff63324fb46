/-
  The local-vs-remote planner and the free local executor (node/planner.rs), and the source
  detection the coordinator applies before it hands the planner an estimate
  (node/estimator.rs, `has_data_source`).

  The local budget, a fraction of the node's memory, is computed in floating point when the
  executor is built; here it is whatever came out of that.
-/
import Duckton.Lib.Saturating
import Duckton.Lib.Text
import Duckton.Node.Governor

namespace Duckton.Node

/-! ## Decisions -/

inductive PreferMode where
  | preferLocal
  | preferRemote
  | auto
  deriving DecidableEq, Repr

inductive Route where
  | localPath
  | remotePath
  deriving DecidableEq, Repr

inductive PlanReason where
  | forcedLocal
  | forcedRemote
  | localDisabled
  | fitsLocal
  | tooLarge
  | overSizeThreshold
  | overLatencyBudget
  | locallySaturated
  | noEstimate
  deriving DecidableEq, Repr

structure PlanDecision where
  route : Route
  reason : PlanReason
  deriving DecidableEq, Repr

def PlanDecision.isLocal (d : PlanDecision) : Bool :=
  d.route = .localPath

/-- The parts of an estimate that routing reads. -/
structure WorkingSetEstimate where
  scannedUncompressedBytes : Nat
  peakWorkingSetBytes : Nat
  estimatedRuntimeMs : Nat
  deriving DecidableEq, Repr

structure PlanRequest where
  prefer : PreferMode
  estimate : Option WorkingSetEstimate
  headroomBytes : Nat
  localSlotAvailable : Bool
  deriving DecidableEq, Repr

/-- The planner's settings; `prefer` is the configured default of the preference. -/
structure PlannerConfig where
  enabled : Bool
  localExecutionEnabled : Bool
  prefer : PreferMode
  sizeThresholdBytes : Nat
  spillToleranceBytes : Nat
  maxLocalLatencyMs : Nat
  deriving DecidableEq, Repr

/-- `DefaultPlanner::decide`. The two switches come before the preference, everything that looks at
    the load or the estimate after it. -/
def PlannerConfig.decide (cfg : PlannerConfig) (req : PlanRequest) : PlanDecision :=
  if !cfg.enabled then ⟨.remotePath, .forcedRemote⟩
  else if !cfg.localExecutionEnabled then ⟨.remotePath, .localDisabled⟩
  else match req.prefer with
    | .preferLocal => ⟨.localPath, .forcedLocal⟩
    | .preferRemote => ⟨.remotePath, .forcedRemote⟩
    | .auto =>
      if !req.localSlotAvailable then ⟨.remotePath, .locallySaturated⟩
      else match req.estimate with
        | none => ⟨.remotePath, .noEstimate⟩
        | some est =>
          if cfg.sizeThresholdBytes < est.scannedUncompressedBytes then
            ⟨.remotePath, .overSizeThreshold⟩
          else if 0 < cfg.maxLocalLatencyMs ∧ cfg.maxLocalLatencyMs < est.estimatedRuntimeMs then
            ⟨.remotePath, .overLatencyBudget⟩
          else if Saturating.add 64 cfg.spillToleranceBytes req.headroomBytes <
              est.peakWorkingSetBytes then ⟨.remotePath, .tooLarge⟩
          else ⟨.localPath, .fitsLocal⟩

/-- Whether a local run that exhausted its resources is repeated on the grid. -/
def failoverToRemote (prefer : PreferMode) : Bool :=
  prefer ≠ .preferLocal

theorem decide_preferLocal {cfg : PlannerConfig} (henabled : cfg.enabled = true)
    (hlocal : cfg.localExecutionEnabled = true) {req : PlanRequest}
    (hprefer : req.prefer = .preferLocal) : (cfg.decide req).isLocal = true := by
  unfold PlannerConfig.decide
  rw [henabled, hlocal, hprefer]
  rfl

/-! ## The local executor -/

/-- `LocalExecutor` with the counters it holds. -/
structure LocalExecutor where
  localBudgetBytes : Nat
  maxJobs : Nat
  jobThreads : Nat
  minReservationBytes : Nat
  usedBytes : Nat
  heldSlots : Nat
  governor : Option CapacityGovernor
  budget_fits : localBudgetBytes < 2 ^ 64

/-- `LocalReservation`. -/
structure LocalReservation where
  reservedBytes : Nat
  governorLease : Option GovernorLease
  deriving DecidableEq, Repr

namespace LocalExecutor

variable (x : LocalExecutor)

def headroomBytes : Nat :=
  x.localBudgetBytes - x.usedBytes

def slotAvailable : Bool :=
  x.heldSlots < x.maxJobs

/-- What a job is accounted for: at least the floor of the executor. -/
def footprint (reserveBytes : Nat) : Nat :=
  max reserveBytes x.minReservationBytes

/-- The governor's part of a reservation; a standalone executor has none. -/
def claim (bytes : Nat) : Option (Option CapacityGovernor × Option GovernorLease) :=
  match x.governor with
  | none => some (none, none)
  | some g => (g.tryReserve .own bytes x.jobThreads).map fun r => (some r.1, some r.2)

/-- `reserve`: a local slot, the local budget, then the shared governor. -/
def reserve (reserveBytes : Nat) : Option (LocalExecutor × LocalReservation) :=
  if x.heldSlots < x.maxJobs then do
    let usedBytes ← addWithin 64 x.localBudgetBytes x.usedBytes (x.footprint reserveBytes)
    let (governor, lease) ← x.claim (x.footprint reserveBytes)
    some ({ x with heldSlots := x.heldSlots + 1, usedBytes, governor },
      ⟨x.footprint reserveBytes, lease⟩)
  else none

/-- Dropping a reservation. -/
def release (r : LocalReservation) : LocalExecutor :=
  { x with
    heldSlots := x.heldSlots - 1
    usedBytes := x.usedBytes - r.reservedBytes
    governor := match x.governor, r.governorLease with
      | some g, some lease => some (g.release lease)
      | g, _ => g }

/-- There is room for one more local job. -/
structure Admits (x : LocalExecutor) (reserveBytes : Nat) : Prop where
  slotFree : x.heldSlots < x.maxJobs
  budgetFits : x.usedBytes + x.footprint reserveBytes ≤ x.localBudgetBytes
  governorAdmits : ∀ g, x.governor = some g →
    g.Admits .own (x.footprint reserveBytes) x.jobThreads

variable {x : LocalExecutor} {reserveBytes : Nat}

theorem claim_isSome_iff {bytes : Nat} :
    (∃ r, x.claim bytes = some r) ↔
      ∀ g, x.governor = some g → g.Admits .own bytes x.jobThreads := by
  unfold claim
  cases x.governor with
  | none => exact ⟨nofun, fun _ => ⟨_, rfl⟩⟩
  | some g =>
    simp only [Option.map_eq_some_iff, Option.some.injEq]
    constructor
    · rintro ⟨_, r, hr, _⟩ g' rfl
      exact CapacityGovernor.tryReserve_isSome_iff.mp (Option.isSome_iff_exists.mpr ⟨r, hr⟩)
    · intro h
      obtain ⟨r, hr⟩ := Option.isSome_iff_exists.mp
        (CapacityGovernor.tryReserve_isSome_iff.mpr (h g rfl))
      exact ⟨_, r, hr, rfl⟩

theorem reserve_isSome_iff :
    (x.reserve reserveBytes).isSome ↔ x.Admits reserveBytes := by
  rw [Option.isSome_iff_exists]
  unfold reserve
  by_cases hslot : x.heldSlots < x.maxJobs
  · rw [if_pos hslot]
    simp only [Option.bind_eq_bind, Option.bind_eq_some_iff, addWithin_eq_some_iff x.budget_fits]
    constructor
    · rintro ⟨_, _, ⟨hfits, _⟩, claimed, hclaim, _⟩
      exact ⟨hslot, hfits, claim_isSome_iff.mp ⟨claimed, hclaim⟩⟩
    · intro h
      obtain ⟨claimed, hclaim⟩ := claim_isSome_iff.mpr h.governorAdmits
      exact ⟨_, _, ⟨h.budgetFits, rfl⟩, claimed, hclaim, rfl⟩
  · rw [if_neg hslot]
    exact ⟨fun ⟨_, habs⟩ => (nomatch habs), fun h => absurd h.slotFree hslot⟩

/-- A dropped reservation leaves no trace, in the executor or in the governor. -/
theorem release_reserve {x' : LocalExecutor} {r : LocalReservation}
    (h : x.reserve reserveBytes = some (x', r)) : x'.release r = x := by
  unfold reserve at h
  split_ifs at h
  simp only [Option.bind_eq_bind, Option.bind_eq_some_iff, addWithin_eq_some_iff x.budget_fits,
    Option.some.injEq, Prod.mk.injEq] at h
  obtain ⟨_, ⟨_, rfl⟩, claimed, hclaim, rfl, rfl⟩ := h
  unfold claim at hclaim
  unfold release
  cases hg : x.governor with
  | none =>
    rw [hg] at hclaim
    cases hclaim
    simp [← hg]
  | some g =>
    rw [hg] at hclaim
    obtain ⟨⟨g', lease⟩, hreserve, rfl⟩ := Option.map_eq_some_iff.mp hclaim
    simp [CapacityGovernor.release_tryReserve hreserve, ← hg]

end LocalExecutor

/-! ## Texts -/

/-- `str::contains` after `to_ascii_lowercase`. -/
def containsIgnoringCase (text needle : String) : Bool :=
  Text.contains needle.toList (Text.toAsciiLowercase text.toList)

/-- Whether an engine error reads like an exhausted memory budget. -/
def isResourceExhaustion (message : String) : Bool :=
  ["out of memory", "could not allocate", "memory limit", "failed to allocate",
    "exceeds the memory limit"].any (containsIgnoringCase message)

/-- `has_data_source`. -/
def hasDataSource (sql : String) : Bool :=
  [" from ", "\tfrom ", "\nfrom ", "(from ", ")from ", "\rfrom ", "\nfrom\t", " join ", "\njoin ",
    "\tjoin ", "(join ", "read_", "scan_", "parquet_", "_scan(", "glob(", "query_table(", "copy ",
    "attach ", "delta_", "iceberg_", ".parquet", ".csv", ".json", ".ndjson", "://"].any
      (containsIgnoringCase sql)

example : hasDataSource "SELECT 1 + 1" = false ∧ hasDataSource "SELECT * FROM t" = true := by
  decide

end Duckton.Node
