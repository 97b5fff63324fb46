/-
  Running a query (node/coordinator.rs, `run_query`, `run_query_planned`,
  `try_local_execution`): first on the node's own engine if the planner says so, otherwise on the
  grid.

  `pinned_local_stays_iff` says when a query that is pinned to this node does stay on it.
-/
import Duckton.Node.Planner
import Duckton.Node.Resilient

namespace Duckton.Node

open Duckton.Proto

/-! ## The local engine -/

structure ExecLease where
  memoryBytes : Nat
  threads : Nat
  maxSpillBytes : Nat
  deriving DecidableEq, Repr

inductive EngineError where
  | exec (detail : String)
  | rejected (detail : String)
  deriving DecidableEq, Repr

def EngineError.message : EngineError → String
  | .exec detail => "execution failed: " ++ detail
  | .rejected detail => "query rejected by lockdown policy: " ++ detail

/-- The configuration of one call after its overrides, as far as the paths below read it. -/
structure CallConfig where
  planner : PlannerConfig
  perJobThreads : Nat
  maxSpillBytes : Nat
  retry : RetryPolicy
  grid : GridConfig
  job : Job

/-- The querying node: its id, the local execution it was given, and its own engine. -/
structure Requester where
  localNodeId : NodeId
  executor : Option LocalExecutor
  planner : Option PlannerConfig
  execute : String → ExecLease → Except EngineError ResultSet

variable (r : Requester) (cfg : CallConfig) (sql : String) (estimate : Option WorkingSetEstimate)

/-- The budget and the spill tolerance, at least 64 MiB. -/
def CallConfig.lease (x : LocalExecutor) : ExecLease where
  memoryBytes := max (Saturating.add 64 x.localBudgetBytes cfg.planner.spillToleranceBytes)
    (64 * 1024 * 1024)
  threads := max cfg.perJobThreads 1
  maxSpillBytes := cfg.maxSpillBytes

/-- The node trusts its own machine. -/
def Requester.localOutcome (result : ResultSet) : QueryOutcome where
  result := result
  agreedHash := none
  agreement := 1
  quorum := 0
  verified := true
  winner := some r.localNodeId
  participants := [r.localNodeId]
  receipts := []
  executedLocally := true

/-- What a local run answers, `none` for going to the grid after all. -/
def Requester.answer (prefer : PreferMode) :
    Except EngineError ResultSet → Except CoordinatorError (Option QueryOutcome)
  | .ok result => .ok (some (r.localOutcome result))
  | .error e =>
    if isResourceExhaustion e.message && failoverToRemote prefer then .ok none
    else .error (.localExecution e.message)

/-- `try_local_execution`: the answer, and the executor once the reservation is dropped. -/
def Requester.tryLocalExecution :
    Except CoordinatorError (Option QueryOutcome) × Option LocalExecutor :=
  match r.executor, r.planner with
  | some x, some planner =>
    let prefer := cfg.planner.prefer
    if !(planner.decide ⟨prefer, estimate, x.headroomBytes, x.slotAvailable⟩).isLocal then
      (.ok none, some x)
    else match x.reserve ((estimate.map WorkingSetEstimate.peakWorkingSetBytes).getD 0) with
      | none => (.ok none, some x)
      | some (x', reservation) =>
        (r.answer prefer (r.execute sql (cfg.lease x)), some (x'.release reservation))
  | x, _ => (.ok none, x)

/-! ## Running a query -/

/-- What the caller gets, if the run ended, and the run on the grid, if there was one. -/
structure QueryRun where
  answer : Option (Except CoordinatorError QueryOutcome)
  grid : Option GridRun
  executor : Option LocalExecutor

/-- Acting on the local answer: only without one the query goes to the grid. -/
def QueryRun.of (grid : GridRun) :
    Except CoordinatorError (Option QueryOutcome) × Option LocalExecutor → QueryRun
  | (.error e, x) => ⟨some (.error e), none, x⟩
  | (.ok (some outcome), x) => ⟨some (.ok outcome), none, x⟩
  | (.ok none, x) => ⟨grid.result, some grid, x⟩

/-- `dispatch_to_grid`, with the estimates of the call. -/
def CallConfig.dispatchToGrid (inputBytes peakBytes : Option Nat) (rounds : List Round) : GridRun :=
  runResilient cfg.retry cfg.grid
    { cfg.job with estimatedInputBytes := inputBytes, estimatedPeakBytes := peakBytes }
    rounds .initial

/-- The shared course of both entry points. `applied` is the outcome of applying the overrides,
    `localEstimate` what the planner gets to see. -/
def Requester.run (applied : Except String CallConfig) (sql : String)
    (localEstimate : Option WorkingSetEstimate) (inputBytes peakBytes : Option Nat)
    (rounds : List Round) : QueryRun :=
  match applied with
  | .error detail => ⟨some (.error (.config detail)), none, r.executor⟩
  | .ok cfg =>
    .of (cfg.dispatchToGrid inputBytes peakBytes rounds)
      (r.tryLocalExecution cfg sql localEstimate)

def Requester.runQuery (applied : Except String CallConfig) (sql : String)
    (rounds : List Round) : QueryRun :=
  r.run applied sql none none none rounds

/-- The estimate that the planner sees: none for a query with a data source. -/
def localEstimate : Option WorkingSetEstimate :=
  if hasDataSource sql then none else estimate

def Requester.runQueryPlanned (applied : Except String CallConfig) (sql : String)
    (estimate : Option WorkingSetEstimate) (rounds : List Round) : QueryRun :=
  r.run applied sql (localEstimate sql estimate)
    (estimate.map WorkingSetEstimate.scannedUncompressedBytes)
    (estimate.map WorkingSetEstimate.peakWorkingSetBytes) rounds

/-- No reservation outlives the query. -/
theorem tryLocalExecution_executor : (r.tryLocalExecution cfg sql estimate).2 = r.executor := by
  unfold Requester.tryLocalExecution
  split
  · rename_i x planner hx hplanner
    dsimp only
    split_ifs
    · exact hx.symm
    · split
      · exact hx.symm
      · rename_i x' reservation hreserve
        rw [LocalExecutor.release_reserve hreserve]
        exact hx.symm
  · rfl

/-! ## Queries pinned to this node -/

/-- Local execution is set up and switched on, and the call prefers it. -/
structure Requester.PinnedLocal (r : Requester) (cfg : CallConfig) (x : LocalExecutor) : Prop where
  executor : r.executor = some x
  planner : ∃ planner, r.planner = some planner ∧ planner.enabled = true ∧
    planner.localExecutionEnabled = true
  prefer : cfg.planner.prefer = .preferLocal

/-- Nobody else is asked, and the caller gets the own engine's result or an error. -/
def QueryRun.StaysLocal (run : QueryRun) (r : Requester) (sql : String) : Prop :=
  (∀ grid, run.grid = some grid → grid.asksDiscovery = false) ∧
    ((∃ e, run.answer = some (.error e)) ∨
      ∃ lease result, r.execute sql lease = .ok result ∧
        run.answer = some (.ok (r.localOutcome result)))

/-- The bytes that are reserved for a query. -/
def reserveBytes : Nat :=
  (estimate.map WorkingSetEstimate.peakWorkingSetBytes).getD 0

section Pinned

variable {r : Requester} {cfg : CallConfig} {x : LocalExecutor}

/-- A pinned query is answered from the engine alone, without a fail-over. -/
theorem answer_of_preferLocal {exec : Except EngineError ResultSet} :
    (∃ e, r.answer .preferLocal exec = .error e) ∨
      ∃ result, exec = .ok result ∧
        r.answer .preferLocal exec = .ok (some (r.localOutcome result)) := by
  cases exec with
  | ok result => exact .inr ⟨result, rfl, rfl⟩
  | error e =>
    refine .inl ⟨.localExecution e.message, ?_⟩
    unfold Requester.answer failoverToRemote
    simp

theorem tryLocalExecution_of_pinned (hpin : r.PinnedLocal cfg x) (sql : String)
    (estimate : Option WorkingSetEstimate) :
    r.tryLocalExecution cfg sql estimate =
      (if (x.reserve (reserveBytes estimate)).isSome then
        r.answer .preferLocal (r.execute sql (cfg.lease x))
      else .ok none, r.executor) := by
  obtain ⟨planner, hplanner, henabled, hlocal⟩ := hpin.planner
  have hdecide : (planner.decide
      ⟨cfg.planner.prefer, estimate, x.headroomBytes, x.slotAvailable⟩).isLocal = true :=
    decide_preferLocal henabled hlocal hpin.prefer
  have hafter := tryLocalExecution_executor r cfg sql estimate
  have hanswer : (r.tryLocalExecution cfg sql estimate).1 =
      if (x.reserve (reserveBytes estimate)).isSome then
        r.answer .preferLocal (r.execute sql (cfg.lease x))
      else .ok none := by
    unfold Requester.tryLocalExecution reserveBytes
    rw [hpin.executor, hplanner]
    dsimp only
    rw [hdecide, hpin.prefer, Bool.not_true, if_neg (by decide)]
    cases x.reserve ((estimate.map WorkingSetEstimate.peakWorkingSetBytes).getD 0) with
    | none | some reserved => rfl
  exact Prod.ext hanswer hafter

variable {estimate : Option WorkingSetEstimate}

theorem run_of_admits (hpin : r.PinnedLocal cfg x) (sql : String)
    (hadmits : x.Admits (reserveBytes estimate)) (inputBytes peakBytes : Option Nat)
    (rounds : List Round) :
    (r.run (.ok cfg) sql estimate inputBytes peakBytes rounds).StaysLocal r sql := by
  unfold Requester.run
  dsimp only
  rw [tryLocalExecution_of_pinned hpin, if_pos (LocalExecutor.reserve_isSome_iff.mpr hadmits)]
  rcases @answer_of_preferLocal r (r.execute sql (cfg.lease x)) with ⟨e, he⟩ | ⟨result, hexec, hok⟩
  · rw [he]
    exact ⟨nofun, .inl ⟨e, rfl⟩⟩
  · rw [hok]
    exact ⟨nofun, .inr ⟨_, result, hexec, rfl⟩⟩

/-- Without a reservation the query goes to the grid. -/
theorem run_of_not_admits (hpin : r.PinnedLocal cfg x) (sql : String)
    (hfull : ¬ x.Admits (reserveBytes estimate)) (inputBytes peakBytes : Option Nat)
    (rounds : List Round) :
    r.run (.ok cfg) sql estimate inputBytes peakBytes rounds =
      ⟨(cfg.dispatchToGrid inputBytes peakBytes rounds).result,
        some (cfg.dispatchToGrid inputBytes peakBytes rounds), r.executor⟩ := by
  have hnone : ¬ (x.reserve (reserveBytes estimate)).isSome = true :=
    fun h => hfull (LocalExecutor.reserve_isSome_iff.mp h)
  unfold Requester.run
  dsimp only
  rw [tryLocalExecution_of_pinned hpin, if_neg hnone]
  rfl

/-- On the grid it stays only if the first attempt finds its inputs unavailable. -/
theorem stays_on_grid_iff (inputBytes peakBytes : Option Nat) (round : Round)
    (rounds : List Round) (after : Option LocalExecutor) :
    QueryRun.StaysLocal ⟨(cfg.dispatchToGrid inputBytes peakBytes (round :: rounds)).result,
        some (cfg.dispatchToGrid inputBytes peakBytes (round :: rounds)), after⟩ r sql ↔
      round.coordinator.asksDiscovery = false := by
  have hask : (cfg.dispatchToGrid inputBytes peakBytes (round :: rounds)).asksDiscovery =
      round.coordinator.asksDiscovery := asksDiscovery_runResilient _ _ _ _ _ _
  constructor
  · intro h
    rw [← hask]
    exact h.1 _ rfl
  · intro h
    refine ⟨fun grid hgrid => ?_, .inl ?_⟩
    · rw [← Option.some.inj hgrid, hask, h]
    · obtain ⟨reason, hreport⟩ := dispatchAttempt_of_unavailable h cfg.grid
        (Job.inState { cfg.job with
          estimatedInputBytes := inputBytes, estimatedPeakBytes := peakBytes } .initial)
        round.network
      refine ⟨.infeasible (.inputUnavailable reason), ?_⟩
      unfold CallConfig.dispatchToGrid
      rw [runResilient]
      rw [hreport]
      rfl

theorem run_stays_iff (hpin : r.PinnedLocal cfg x) (sql : String)
    (estimate : Option WorkingSetEstimate) (inputBytes peakBytes : Option Nat) (round : Round)
    (rounds : List Round) :
    (r.run (.ok cfg) sql estimate inputBytes peakBytes (round :: rounds)).StaysLocal r sql ↔
      x.Admits (reserveBytes estimate) ∨ round.coordinator.asksDiscovery = false := by
  by_cases hadmits : x.Admits (reserveBytes estimate)
  · exact ⟨fun _ => .inl hadmits,
      fun _ => run_of_admits hpin sql hadmits inputBytes peakBytes (round :: rounds)⟩
  · rw [run_of_not_admits hpin sql hadmits, stays_on_grid_iff]
    exact ⟨.inr, fun h => h.resolve_left hadmits⟩

end Pinned

/-- A query pinned to this node stays on it just when the local executor and the shared governor
    have room for it, or its inputs cannot be reached anyway. -/
theorem pinned_local_stays_iff (r : Requester) (cfg : CallConfig) (x : LocalExecutor)
    (hpin : r.PinnedLocal cfg x) (sql : String) (estimate : Option WorkingSetEstimate)
    (round : Round) (rounds : List Round) :
    ((r.runQuery (.ok cfg) sql (round :: rounds)).StaysLocal r sql ↔
        x.Admits 0 ∨ round.coordinator.asksDiscovery = false) ∧
      ((r.runQueryPlanned (.ok cfg) sql estimate (round :: rounds)).StaysLocal r sql ↔
        x.Admits (reserveBytes (localEstimate sql estimate)) ∨
          round.coordinator.asksDiscovery = false) :=
  ⟨run_stays_iff hpin sql none none none round rounds,
    run_stays_iff hpin sql (localEstimate sql estimate) _ _ round rounds⟩

/-! ### Concrete queries -/

/-- One local slot, of which `held` are taken; the governor has room for two jobs. -/
def smallExecutor (held : Nat) : LocalExecutor where
  localBudgetBytes := 600
  maxJobs := 1
  jobThreads := 1
  minReservationBytes := 100
  usedBytes := 100 * held
  heldSlots := held
  governor := some
    { memoryTotal := 1000, threadsTotal := 4, servedMemoryCeiling := 800, maxJobs := 2
      usedMemory := 100 * held, usedThreads := held, servedMemory := 0, heldSlots := held
      memory_fits := by decide, ceiling_fits := by decide, threads_fit := by decide }
  budget_fits := by decide

def plannerOn (prefer : PreferMode) : PlannerConfig :=
  ⟨true, true, prefer, 1000, 0, 0⟩

def demoRequester (held : Nat) : Requester where
  localNodeId := ⟨"b3:self"⟩
  executor := some (smallExecutor held)
  planner := some (plannerOn .auto)
  execute _ _ := .ok (oneCell 1)

def pinnedCall : CallConfig where
  planner := plannerOn .preferLocal
  perJobThreads := 1
  maxSpillBytes := 0
  retry := ⟨0, 0⟩
  grid := plainConfig .quorum 1 1
  job := plainJob

/-- A grid with one willing worker. -/
def oneWorkerRound : Round where
  coordinator := plainCoordinator
  network := plainNetwork [.new none "10.0.0.1:7070"] [⟨"b3:a"⟩]
    [commitOf "y" 5 :: inlineTransfer oneCellJson]
  elapsedMs := 0
  tokenGranted := true

theorem pinnedCall_pinned (held : Nat) :
    (demoRequester held).PinnedLocal pinnedCall (smallExecutor held) :=
  ⟨rfl, ⟨_, rfl, rfl, rfl⟩, rfl⟩

theorem smallExecutor_admits : (smallExecutor 0).Admits 0 := by
  refine ⟨by decide, by decide, fun g hg => ?_⟩
  rw [← Option.some.inj hg]
  exact ⟨by decide, by decide, nofun, by decide⟩

theorem idle_node_keeps_pinned_query :
    ((demoRequester 0).runQuery (.ok pinnedCall) "SELECT 1" [oneWorkerRound]).StaysLocal
      (demoRequester 0) "SELECT 1" :=
  (pinned_local_stays_iff (demoRequester 0) pinnedCall (smallExecutor 0) (pinnedCall_pinned 0)
    "SELECT 1" none oneWorkerRound []).1.mpr (.inl smallExecutor_admits)

/-- With the one local slot taken, the pinned query is dispatched to another node. -/
theorem busy_node_sends_pinned_query :
    pinnedCall.planner.prefer = .preferLocal ∧
      ∃ grid ∈ ((demoRequester 1).runQuery (.ok pinnedCall) "SELECT 1" [oneWorkerRound]).grid,
        grid.asksDiscovery = true ∧ ∃ a ∈ grid.attempts, a.2.dispatched = [⟨"b3:a"⟩] := by
  decide

end Duckton.Node
