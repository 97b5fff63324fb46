/-
  `Node::query` (node/node.rs) on a query that names the nodes it is for.

  The names restrict whom the coordinator offers the query to, and a connection is pinned to the
  id that was asked for, so every Dispatch goes to one of them (`dispatched_targets`), in every
  attempt. The node itself is not asked about: neither the planner nor the two local
  conveniences of `query` look at the list. `onTargets_iff` says for which nodes and calls the
  list is respected nevertheless.

  How full the local executor is changes between the attempts of a query; each look at it finds any
  load. Sizing data sources from local files is a parameter.
-/
import Duckton.Node.LocalPath
import Duckton.Node.Selection

namespace Duckton.Node

open Duckton.Proto Duckton.Settlement

/-! ## The node's own engine -/

/-- The counters of a local executor and its governor. -/
structure LocalLoad where
  usedBytes : Nat
  heldSlots : Nat
  governorMemory : Nat
  governorThreads : Nat
  governorServed : Nat
  governorSlots : Nat
  deriving DecidableEq, Repr

def LocalLoad.idle : LocalLoad := ⟨0, 0, 0, 0, 0, 0⟩

def LocalExecutor.under (x : LocalExecutor) (load : LocalLoad) : LocalExecutor :=
  { x with
    usedBytes := load.usedBytes
    heldSlots := load.heldSlots
    governor := x.governor.map fun g =>
      { g with
        usedMemory := load.governorMemory
        usedThreads := load.governorThreads
        servedMemory := load.governorServed
        heldSlots := load.governorSlots } }

/-- Whether `try_local_execution` runs the engine. -/
def Requester.executesLocally (r : Requester) (cfg : CallConfig)
    (estimate : Option WorkingSetEstimate) : Bool :=
  match r.executor, r.planner with
  | some x, some planner =>
    (planner.decide ⟨cfg.planner.prefer, estimate, x.headroomBytes, x.slotAvailable⟩).isLocal &&
      (x.reserve (reserveBytes estimate)).isSome
  | _, _ => false

variable {cfg : CallConfig} {estimate : Option WorkingSetEstimate}

/-- What the local attempt comes to before the engine is asked. -/
theorem tryLocalExecution_cases (r : Requester) (cfg : CallConfig) (sql : String)
    (estimate : Option WorkingSetEstimate) :
    r.executesLocally cfg estimate = false ∧ (r.tryLocalExecution cfg sql estimate).1 = .ok none ∨
      r.executesLocally cfg estimate = true ∧ ∃ lease, (r.tryLocalExecution cfg sql estimate).1 =
        r.answer cfg.planner.prefer (r.execute sql lease) := by
  unfold Requester.executesLocally Requester.tryLocalExecution
  cases r.executor with
  | none => exact .inl ⟨rfl, rfl⟩
  | some x =>
    cases r.planner with
    | none => exact .inl ⟨rfl, rfl⟩
    | some planner =>
      dsimp only
      cases (planner.decide ⟨cfg.planner.prefer, estimate, x.headroomBytes,
          x.slotAvailable⟩).isLocal with
      | false => exact .inl ⟨rfl, rfl⟩
      | true =>
        rw [← reserveBytes]
        cases x.reserve (reserveBytes estimate) with
        | none => exact .inl ⟨rfl, rfl⟩
        | some reserved => exact .inr ⟨rfl, _, rfl⟩

/-! ## The query -/

inductive NodeError where
  | config (detail : String)
  | walletRequired
  | query (e : CoordinatorError)
  deriving DecidableEq

/-- A node as `Node::with_config` assembles it. -/
structure QueryNode where
  localNodeId : NodeId
  executor : LocalExecutor
  planner : PlannerConfig
  execute : String → ExecLease → Except EngineError ResultSet
  hasGridTargets : Bool
  hasWallet : Bool

def QueryNode.requester (n : QueryNode) (load : LocalLoad) : Requester where
  localNodeId := n.localNodeId
  executor := some (n.executor.under load)
  planner := some n.planner
  execute := n.execute

/-- A call. `settings` is the configuration with the overrides but for these two, or what is wrong
    with it, which does not depend on the preference or the nodes; `paid` says that public data is
    paid for. -/
structure QueryCall where
  sql : String
  settings : Except String CallConfig
  prefer : Option PreferMode
  nodes : List NodeId
  paid : Bool

/-- What a call meets: the load of the local executor and the rounds on the grid, and both again
    should the query be run a second time. -/
structure Circumstances where
  load : LocalLoad
  rounds : List Round
  fallbackLoad : LocalLoad
  fallbackRounds : List Round

section

variable (n : QueryNode) (sizeDataSources : String → Option WorkingSetEstimate) (call : QueryCall)
  (cfg : CallConfig) (circ : Circumstances)

/-- The configuration with this preference, and the nodes for the scope of the request. -/
def QueryNode.callConfig (prefer : Option PreferMode) : CallConfig :=
  { cfg with
    planner := { n.planner with prefer := prefer.getD n.planner.prefer }
    job := { cfg.job with nodes := call.nodes } }

/-- `QueryOverrides::apply` -/
def QueryNode.apply (prefer : Option PreferMode) : Except String CallConfig :=
  call.settings.map fun cfg => n.callConfig call cfg prefer

/-- Nothing for a query without a data source. -/
def preflightEstimate (sql : String) : Option WorkingSetEstimate :=
  if !hasDataSource sql then some ⟨0, 0, 0⟩ else sizeDataSources sql

def GridRun.dispatched (run : GridRun) : List NodeId :=
  run.attempts.flatMap fun a => a.2.dispatched

/-- The nodes whose engines run the query because of a call of an entry point of the coordinator. -/
def Requester.executedOn (r : Requester) (applied : Except String CallConfig)
    (estimate : Option WorkingSetEstimate) (run : QueryRun) : List NodeId :=
  (match applied with
    | .ok cfg => if r.executesLocally cfg estimate then [r.localNodeId] else []
    | .error _ => []) ++
  match run.grid with
    | some grid => grid.dispatched
    | none => []

/-- What the caller gets, if the call ended, and where the query was executed. -/
structure NodeRun where
  answer : Option (Except NodeError QueryOutcome)
  executedOn : List NodeId

def nodeAnswer : Except CoordinatorError QueryOutcome → Except NodeError QueryOutcome
  | .ok outcome => .ok outcome
  | .error e => .error (.query e)

/-- The grid is unreachable or too small. -/
def CoordinatorError.isUnreachable : CoordinatorError → Bool
  | .noCandidates => true
  | .insufficientWorkers _ _ => true
  | _ => false

def QueryNode.query : NodeRun :=
  match n.apply call call.prefer with
  | .error detail => ⟨some (.error (.config detail)), []⟩
  | .ok cfg =>
    if call.paid && !n.hasWallet then ⟨some (.error .walletRequired), []⟩
    else
      let effectivePrefer := call.prefer.getD cfg.planner.prefer
      let localAllowed := cfg.planner.localExecutionEnabled
      let prefer := if localAllowed && effectivePrefer == .auto && !n.hasGridTargets then
          some .preferLocal
        else call.prefer
      let estimate := preflightEstimate sizeDataSources call.sql
      let r := n.requester circ.load
      let run := r.runQueryPlanned (n.apply call prefer) call.sql estimate circ.rounds
      let executedOn := r.executedOn (n.apply call prefer) (localEstimate call.sql estimate) run
      match run.answer with
      | none => ⟨none, executedOn⟩
      | some (.ok outcome) => ⟨some (.ok outcome), executedOn⟩
      | some (.error e) =>
        if e.isUnreachable && localAllowed && effectivePrefer == .auto then
          let r := n.requester circ.fallbackLoad
          let applied := n.apply call (some .preferLocal)
          let again := r.runQuery applied call.sql circ.fallbackRounds
          ⟨again.answer.map nodeAnswer, executedOn ++ r.executedOn applied none again⟩
        else ⟨some (.error (.query e)), executedOn⟩

/-- The first run of the query on the coordinator, with its executions. -/
def QueryNode.planned : QueryRun × List NodeId :=
  let prefer := if n.planner.localExecutionEnabled &&
      call.prefer.getD n.planner.prefer == .auto && !n.hasGridTargets then some .preferLocal
    else call.prefer
  let estimate := preflightEstimate sizeDataSources call.sql
  let r := n.requester circ.load
  let run := r.runQueryPlanned (.ok (n.callConfig call cfg prefer)) call.sql estimate circ.rounds
  (run, r.executedOn (.ok (n.callConfig call cfg prefer)) (localEstimate call.sql estimate) run)

/-- The run after a failed one, on the own engine if there is room. -/
def QueryNode.again : QueryRun × List NodeId :=
  let r := n.requester circ.fallbackLoad
  let applied := .ok (n.callConfig call cfg (some .preferLocal))
  let run := r.runQuery applied call.sql circ.fallbackRounds
  (run, r.executedOn applied none run)

end

/-- Every execution is on one of the nodes, and an answer comes from an execution. -/
structure NodeRun.OnTargets (run : NodeRun) (nodes : List NodeId) : Prop where
  executions : ∀ id ∈ run.executedOn, id ∈ nodes
  served : ∀ outcome, run.answer = some (.ok outcome) →
    ∃ id ∈ run.executedOn, outcome.winner = some id

/-! ## On the grid -/

section Grid

variable {co : Coordinator} {cfg : GridConfig} {job : Job} {net : Network}

/-- A Dispatch goes to a node that was asked for. -/
theorem dispatched_targets (hnodes : job.nodes ≠ []) {p : NodeId}
    (hp : p ∈ (co.dispatchAttempt cfg job net).dispatched) : p ∈ job.nodes := by
  obtain ⟨i, cand, conn, bid, hcand, hconn, hpeer, -⟩ := mem_dispatched hp
  obtain ⟨-, hpin⟩ := connect_eq_some_iff.mp hconn
  have hretains : co.retains cfg job cand = true :=
    (List.mem_filter.mp (List.mem_of_getElem? hcand)).2
  unfold Coordinator.retains CandidateFilter.admitsLabels CandidateFilter.admitsNode at hretains
  have hempty : job.nodes.isEmpty = false := List.isEmpty_eq_false_iff.mpr hnodes
  cases hknown : cand.nodeId with
  | none => simp [Job.filter, hknown, hempty] at hretains
  | some id =>
    rw [← hpeer, hpin id hknown]
    simp only [Job.filter, hknown, hempty, Bool.false_or, Bool.and_eq_true,
      List.contains_iff_mem] at hretains
    exact hretains.1.1.1.1.1

variable {o : QueryOutcome} {policy : RetryPolicy} {s : LoopState}

/-- The winner was dispatched to. -/
theorem winner_dispatched (h : (co.dispatchAttempt cfg job net).outcome = some o) :
    ∃ w ∈ (co.dispatchAttempt cfg job net).dispatched, o.winner = some w := by
  obtain ⟨c, agreed, w, hg, hd, ⟨i, hi, hw⟩, htransfer, -⟩ := dispatchAttempt_done h
  have hwinner : o.winner = some w.worker := by
    rw [dispatchAttempt_of_agreed hg hd hi hw,
      outcome_eq_some_iff] at h
    unfold Coordinator.conclude at h
    simp only [htransfer, Except.ok.injEq, AttemptResult.done.injEq] at h
    rw [← h]
  refine ⟨w.worker, ?_, hwinner⟩
  rw [dispatched_eq hg]
  obtain ⟨_, _, _, _, rfl⟩ := gather_eq_ok_iff.mp hg
  have hworker := List.mem_map_of_mem (f := InFlight.worker) (List.mem_of_getElem? hw)
  exact (inflight_workers_sublist _ _ _ _).subset hworker

variable {rounds : List Round} {round : Round}

/-- What holds of every attempt of a run on the grid. -/
theorem attempts_of_runResilient {a : Coordinator × AttemptReport}
    (ha : a ∈ (runResilient policy cfg job rounds s).attempts) :
    ∃ round ∈ rounds, ∃ s : LoopState,
      a.2 = round.coordinator.dispatchAttempt cfg (job.inState s) round.network := by
  induction rounds generalizing s with
  | nil => cases ha
  | cons round rounds ih =>
    rw [runResilient] at ha
    split at ha
    · rw [List.mem_singleton.mp ha]
      exact ⟨round, List.mem_cons_self, s, rfl⟩
    · rcases List.mem_cons.mp ha with rfl | hrest
      · exact ⟨round, List.mem_cons_self, s, rfl⟩
      · obtain ⟨round', hmem, hattempt⟩ := ih hrest
        exact ⟨round', List.mem_cons_of_mem _ hmem, hattempt⟩

theorem retry_ne_ok {giveUp : StopCause → CoordinatorError} :
    policy.retry round s giveUp ≠ .finished (.ok o) := by
  unfold RetryPolicy.retry
  split_ifs <;> exact nofun

/-- The loop ends well only with an attempt that is done. -/
theorem after_eq_ok {r : Except InsufficientEscrow AttemptResult}
    (h : policy.after round s r = .finished (.ok o)) : r = .ok (.done o) := by
  unfold RetryPolicy.after at h
  split at h
  case h_2 => cases h; rfl
  case h_7 | h_8 =>
    dsimp only at h
    split at h
    · cases h
    · exact absurd h retry_ne_ok
  case h_9 => exact absurd h retry_ne_ok
  all_goals cases h

/-- An answer from the grid is the outcome of one of the attempts. -/
theorem result_of_runResilient (h : (runResilient policy cfg job rounds s).result = some (.ok o)) :
    ∃ a ∈ (runResilient policy cfg job rounds s).attempts, a.2.outcome = some o := by
  induction rounds generalizing s with
  | nil => cases h
  | cons round rounds ih =>
    rw [runResilient] at h ⊢
    split at h
    · rename_i result hafter
      cases h
      refine ⟨_, List.mem_singleton_self _, ?_⟩
      exact outcome_eq_some_iff.mpr (after_eq_ok hafter)
    · rename_i s' hafter
      obtain ⟨a, ha, hout⟩ := ih h
      exact ⟨a, List.mem_cons_of_mem _ ha, hout⟩

end Grid

/-! ## One entry point -/

section Entry

variable {r : Requester} {cfg : CallConfig} {sql : String} {estimate : Option WorkingSetEstimate}
  {inputBytes peakBytes : Option Nat} {rounds : List Round}

theorem mem_executedOn {run : QueryRun} {id : NodeId} :
    id ∈ r.executedOn (.ok cfg) estimate run ↔
      (r.executesLocally cfg estimate = true ∧ id = r.localNodeId) ∨
        ∃ grid, run.grid = some grid ∧ id ∈ grid.dispatched := by
  unfold Requester.executedOn
  rw [List.mem_append]
  refine or_congr ?_ ?_
  · split <;> simp_all
  · cases run.grid <;> simp

/-- The query goes to the grid, or the own engine has the last word. -/
theorem run_cases (r : Requester) (cfg : CallConfig) (sql : String)
    (estimate : Option WorkingSetEstimate) (inputBytes peakBytes : Option Nat)
    (rounds : List Round) :
    let run := r.run (.ok cfg) sql estimate inputBytes peakBytes rounds
    let grid := cfg.dispatchToGrid inputBytes peakBytes rounds
    (run.grid = some grid ∧ run.answer = grid.result) ∨
      (run.grid = none ∧ r.executesLocally cfg estimate = true ∧
        ((∃ detail, run.answer = some (.error (.localExecution detail))) ∨
          ∃ result, run.answer = some (.ok (r.localOutcome result)))) := by
  intro run grid
  have hrun : run = .of grid ((r.tryLocalExecution cfg sql estimate).1,
      (r.tryLocalExecution cfg sql estimate).2) := rfl
  rw [hrun]
  rcases tryLocalExecution_cases r cfg sql estimate with ⟨-, hnone⟩ | ⟨hexec, lease, hlease⟩
  · rw [hnone]
    exact .inl ⟨rfl, rfl⟩
  · rw [hlease]
    cases r.execute sql lease with
    | ok result => exact .inr ⟨rfl, hexec, .inr ⟨result, rfl⟩⟩
    | error e =>
      unfold Requester.answer
      dsimp only
      split
      · exact .inl ⟨rfl, rfl⟩
      · exact .inr ⟨rfl, hexec, .inl ⟨e.message, rfl⟩⟩

/-- Whoever else executes the query was asked for. -/
theorem run_executedOn (hnodes : cfg.job.nodes ≠ []) {id : NodeId}
    (hid : id ∈ r.executedOn (.ok cfg) estimate
      (r.run (.ok cfg) sql estimate inputBytes peakBytes rounds)) :
    id ∈ cfg.job.nodes ∨ (r.executesLocally cfg estimate = true ∧ id = r.localNodeId) := by
  rcases mem_executedOn.mp hid with hlocal | ⟨grid, hgrid, hmem⟩
  · exact .inr hlocal
  · rcases run_cases r cfg sql estimate inputBytes peakBytes rounds with ⟨hrun, -⟩ | ⟨hrun, -⟩
    · rw [hrun, Option.some_inj] at hgrid
      rw [← hgrid, GridRun.dispatched, List.mem_flatMap] at hmem
      obtain ⟨a, ha, hmem⟩ := hmem
      obtain ⟨round, -, s, hround⟩ := attempts_of_runResilient ha
      rw [hround] at hmem
      have hlisted := dispatched_targets (by exact hnodes) hmem
      exact .inl hlisted
    · rw [hrun] at hgrid
      cases hgrid

/-- An answer comes from an engine that executed the query. -/
theorem run_served {o : QueryOutcome}
    (h : (r.run (.ok cfg) sql estimate inputBytes peakBytes rounds).answer = some (.ok o)) :
    ∃ id ∈ r.executedOn (.ok cfg) estimate
      (r.run (.ok cfg) sql estimate inputBytes peakBytes rounds), o.winner = some id := by
  rcases run_cases r cfg sql estimate inputBytes peakBytes rounds with
    ⟨hgrid, hanswer⟩ | ⟨-, hexec, ⟨detail, herror⟩ | ⟨result, hresult⟩⟩
  · rw [h] at hanswer
    obtain ⟨a, ha, houtcome⟩ := result_of_runResilient hanswer.symm
    obtain ⟨round, -, s, hround⟩ := attempts_of_runResilient ha
    rw [hround] at houtcome
    obtain ⟨w, hw, hwinner⟩ := winner_dispatched houtcome
    refine ⟨w, mem_executedOn.mpr (.inr ⟨_, hgrid, ?_⟩), hwinner⟩
    exact List.mem_flatMap.mpr ⟨a, ha, by rw [hround]; exact hw⟩
  · rw [h] at herror
    cases herror
  · rw [h] at hresult
    cases hresult
    exact ⟨r.localNodeId, mem_executedOn.mpr (.inl ⟨hexec, rfl⟩), rfl⟩

end Entry

/-! ## The node's own engine is not a target -/

/-- The call is not refused, may run locally, and finds room on an idle machine. -/
structure QueryNode.ReachesOwnEngine (n : QueryNode) (call : QueryCall) : Prop where
  valid : ∃ cfg, call.settings = .ok cfg
  wallet : call.paid = true → n.hasWallet = true
  enabled : n.planner.enabled = true
  localExecution : n.planner.localExecutionEnabled = true
  prefer : call.prefer.getD n.planner.prefer ≠ .preferRemote
  room : (n.executor.under .idle).Admits 0

section Own

variable {n : QueryNode} {call : QueryCall}

variable {load : LocalLoad} {cfg : CallConfig} {estimate : Option WorkingSetEstimate}

/-- Nothing is lost by an idle machine. -/
theorem admits_idle {x : LocalExecutor} {reserveBytes : Nat}
    (h : (x.under load).Admits reserveBytes) : (x.under .idle).Admits 0 := by
  have hfoot : x.footprint 0 ≤ x.footprint reserveBytes := by
    unfold LocalExecutor.footprint
    omega
  refine ⟨Nat.lt_of_le_of_lt (Nat.zero_le _) h.slotFree, ?_, fun g hg => ?_⟩
  · have hfits : load.usedBytes + x.footprint reserveBytes ≤ x.localBudgetBytes := h.budgetFits
    show 0 + x.footprint 0 ≤ x.localBudgetBytes
    omega
  · obtain ⟨g₀, hg₀, rfl⟩ := Option.map_eq_some_iff.mp hg
    have hadmits := h.governorAdmits _ (Option.map_eq_some_iff.mpr ⟨g₀, hg₀, rfl⟩)
    have hmemory : load.governorMemory + x.footprint reserveBytes ≤ g₀.memoryTotal :=
      hadmits.memoryFits
    have hthreads : load.governorThreads + x.jobThreads ≤ g₀.threadsTotal := hadmits.threadsFit
    refine ⟨Nat.lt_of_le_of_lt (Nat.zero_le _) hadmits.slotFree, ?_, nofun, ?_⟩
    · show 0 + x.footprint 0 ≤ g₀.memoryTotal
      omega
    · show 0 + x.jobThreads ≤ g₀.threadsTotal
      omega

theorem executesLocally_requester (h : (n.requester load).executesLocally cfg estimate = true) :
    n.planner.enabled = true ∧ n.planner.localExecutionEnabled = true ∧
      cfg.planner.prefer ≠ .preferRemote ∧ (n.executor.under .idle).Admits 0 := by
  unfold Requester.executesLocally QueryNode.requester at h
  rw [Bool.and_eq_true] at h
  obtain ⟨hlocal, hreserve⟩ := h
  have hroom := admits_idle (LocalExecutor.reserve_isSome_iff.mp hreserve)
  unfold PlannerConfig.decide at hlocal
  split at hlocal
  · cases hlocal
  · split at hlocal
    · cases hlocal
    · rename_i henabled hallowed
      refine ⟨by simpa using henabled, by simpa using hallowed, fun hremote => ?_, hroom⟩
      rw [hremote] at hlocal
      cases hlocal

theorem executesLocally_idle (henabled : n.planner.enabled = true)
    (hallowed : n.planner.localExecutionEnabled = true)
    (hprefer : cfg.planner.prefer = .preferLocal) (hestimate : reserveBytes estimate = 0)
    (hroom : (n.executor.under .idle).Admits 0) :
    (n.requester .idle).executesLocally cfg estimate = true := by
  unfold Requester.executesLocally QueryNode.requester
  dsimp only
  rw [decide_preferLocal henabled hallowed hprefer, hestimate,
    LocalExecutor.reserve_isSome_iff.mpr hroom]
  rfl

variable (sizeDataSources : String → Option WorkingSetEstimate)

variable {circ : Circumstances} {id : NodeId}

section

variable (hwallet : call.paid = true → n.hasWallet = true)

include hwallet

theorem walletGuard_eq_false :
    (call.paid && !n.hasWallet) = false := by
  cases hpaid : call.paid with
  | false => rfl
  | true => rw [hwallet hpaid]; rfl

variable (hvalid : call.settings = .ok cfg)

include hvalid

/-- The course of a call that is not refused. -/
theorem query_of_valid (circ : Circumstances) :
    n.query sizeDataSources call circ =
      let first := n.planned sizeDataSources call cfg circ
      match first.1.answer with
      | none => ⟨none, first.2⟩
      | some (.ok outcome) => ⟨some (.ok outcome), first.2⟩
      | some (.error e) =>
        if e.isUnreachable && n.planner.localExecutionEnabled &&
            call.prefer.getD n.planner.prefer == .auto then
          let second := n.again call cfg circ
          ⟨second.1.answer.map nodeAnswer, first.2 ++ second.2⟩
        else ⟨some (.error (.query e)), first.2⟩ := by
  have happly : ∀ prefer, n.apply call prefer = .ok (n.callConfig call cfg prefer) := by
    intro prefer
    rw [QueryNode.apply, hvalid]
    rfl
  have hprefer : call.prefer.getD (n.callConfig call cfg call.prefer).planner.prefer =
      call.prefer.getD n.planner.prefer := by
    cases call.prefer <;> rfl
  unfold QueryNode.query
  simp only [happly, walletGuard_eq_false hwallet, hprefer]
  rfl

/-- Each execution of the first run is on a target or on the own engine. -/
theorem planned_executions (hnodes : call.nodes ≠ [])
    (hid : id ∈ (n.planned sizeDataSources call cfg circ).2) :
    id ∈ call.nodes ∨ (n.ReachesOwnEngine call ∧ id = n.localNodeId) := by
  rcases run_executedOn hnodes hid with hlisted | ⟨hexec, hself⟩
  · exact .inl hlisted
  · obtain ⟨henabled, hallowed, hprefer, hroom⟩ := executesLocally_requester hexec
    refine .inr ⟨⟨⟨cfg, hvalid⟩, hwallet, henabled, hallowed, ?_, hroom⟩, hself⟩
    intro hremote
    refine hprefer ?_
    rw [hremote, show (PreferMode.preferRemote == .auto) = false from rfl, Bool.and_false,
      Bool.false_and, if_neg Bool.false_ne_true]
    exact hremote

theorem again_executions (hnodes : call.nodes ≠ [])
    (hauto : call.prefer.getD n.planner.prefer = .auto) (hid : id ∈ (n.again call cfg circ).2) :
    id ∈ call.nodes ∨ (n.ReachesOwnEngine call ∧ id = n.localNodeId) := by
  rcases run_executedOn hnodes hid with hlisted | ⟨hexec, hself⟩
  · exact .inl hlisted
  · obtain ⟨henabled, hallowed, -, hroom⟩ := executesLocally_requester hexec
    refine .inr ⟨⟨⟨cfg, hvalid⟩, hwallet, henabled, hallowed, ?_, hroom⟩, hself⟩
    rw [hauto]
    exact PreferMode.noConfusion

end

/-- A call is refused before anything is executed, or it takes its course. -/
theorem refused_or_valid (n : QueryNode) (call : QueryCall) (circ : Circumstances) :
    (∃ e, n.query sizeDataSources call circ = ⟨some (.error e), []⟩) ∨
      ∃ cfg, call.settings = .ok cfg ∧ (call.paid = true → n.hasWallet = true) := by
  cases hsettings : call.settings with
  | error detail =>
    refine .inl ⟨.config detail, ?_⟩
    unfold QueryNode.query QueryNode.apply
    rw [hsettings]
    rfl
  | ok cfg =>
    by_cases hwallet : call.paid = true → n.hasWallet = true
    · exact .inr ⟨cfg, rfl, hwallet⟩
    · refine .inl ⟨.walletRequired, ?_⟩
      unfold QueryNode.query QueryNode.apply
      rw [hsettings]
      simp [Except.map, hwallet]

theorem query_executions (hnodes : call.nodes ≠ [])
    (hid : id ∈ (n.query sizeDataSources call circ).executedOn) :
    id ∈ call.nodes ∨ (n.ReachesOwnEngine call ∧ id = n.localNodeId) := by
  rcases refused_or_valid sizeDataSources n call circ with ⟨e, hrefused⟩ | ⟨cfg, hvalid, hwallet⟩
  · rw [hrefused] at hid
    cases hid
  · rw [query_of_valid sizeDataSources hwallet hvalid] at hid
    have hfirst : id ∈ (n.planned sizeDataSources call cfg circ).2 → _ :=
      planned_executions sizeDataSources hwallet hvalid hnodes
    dsimp only at hid
    split at hid
    · exact hfirst hid
    · exact hfirst hid
    · split at hid
      · rename_i hfallback
        simp only [Bool.and_eq_true, beq_iff_eq] at hfallback
        rcases List.mem_append.mp hid with hmem | hmem
        · exact hfirst hmem
        · exact again_executions hwallet hvalid hnodes hfallback.2 hmem
      · exact hfirst hid

/-- An answer comes from an execution. -/
theorem query_served {o : QueryOutcome}
    (h : (n.query sizeDataSources call circ).answer = some (.ok o)) :
    ∃ id ∈ (n.query sizeDataSources call circ).executedOn, o.winner = some id := by
  rcases refused_or_valid sizeDataSources n call circ with ⟨e, hrefused⟩ | ⟨cfg, hvalid, hwallet⟩
  · rw [hrefused] at h
    cases h
  · rw [query_of_valid sizeDataSources hwallet hvalid] at h ⊢
    dsimp only at h ⊢
    split at h
    · cases h
    · rename_i outcome hanswer
      cases h
      exact run_served hanswer
    · split at h
      · rename_i hfallback
        rw [if_pos hfallback]
        obtain ⟨answer, hanswer, hok⟩ := Option.map_eq_some_iff.mp h
        cases answer with
        | error e => cases hok
        | ok outcome =>
          cases hok
          obtain ⟨id, hid, hwinner⟩ := run_served hanswer
          exact ⟨id, List.mem_append_right _ hid, hwinner⟩
      · cases h

/-- Nobody is there. -/
def emptyRound : Round where
  coordinator := plainCoordinator
  network := plainNetwork [] [] []
  elapsedMs := 0
  tokenGranted := true

theorem reserveBytes_preflight (sql : String) :
    reserveBytes (localEstimate sql (preflightEstimate sizeDataSources sql)) = 0 := by
  unfold localEstimate preflightEstimate
  cases hasDataSource sql <;> rfl

theorem planned_subset (hvalid : call.settings = .ok cfg)
    (hwallet : call.paid = true → n.hasWallet = true)
    (hid : id ∈ (n.planned sizeDataSources call cfg circ).2) :
    id ∈ (n.query sizeDataSources call circ).executedOn := by
  rw [query_of_valid sizeDataSources hwallet hvalid]
  dsimp only
  split
  · exact hid
  · exact hid
  · split
    · exact List.mem_append_left _ hid
    · exact hid

/-- On an idle machine and without anybody on the grid the own engine is used if it may be. -/
theorem own_engine_executes (h : n.ReachesOwnEngine call) :
    n.localNodeId ∈
      (n.query sizeDataSources call ⟨.idle, [emptyRound], .idle, []⟩).executedOn := by
  obtain ⟨cfg, hvalid⟩ := h.valid
  have hzero := reserveBytes_preflight sizeDataSources call.sql
  by_cases hfirst : n.localNodeId ∈
      (n.planned sizeDataSources call cfg ⟨.idle, [emptyRound], .idle, []⟩).2
  · exact planned_subset sizeDataSources hvalid h.wallet hfirst
  cases heffective : call.prefer.getD n.planner.prefer with
  | preferRemote => exact absurd heffective h.prefer
  | preferLocal =>
    refine absurd (mem_executedOn.mpr (.inl ⟨?_, rfl⟩)) hfirst
    refine executesLocally_idle h.enabled h.localExecution ?_ hzero h.room
    rw [heffective, show (PreferMode.preferLocal == .auto) = false from rfl, Bool.and_false,
      Bool.false_and, if_neg Bool.false_ne_true]
    exact heffective
  | auto =>
    -- the first run finds nobody, so the query is run again, on this node
    have hanswer : (n.planned sizeDataSources call cfg
        ⟨.idle, [emptyRound], .idle, []⟩).1.answer = some (.error .noCandidates) := by
      rcases run_cases (n.requester .idle) _ call.sql _ _ _ [emptyRound] with
        ⟨-, hgrid⟩ | ⟨-, hexec, -⟩
      · exact hgrid
      · exact absurd (mem_executedOn.mpr (.inl ⟨hexec, rfl⟩)) hfirst
    have hagain : n.localNodeId ∈ (n.again call cfg ⟨.idle, [emptyRound], .idle, []⟩).2 :=
      mem_executedOn.mpr (.inl
        ⟨executesLocally_idle h.enabled h.localExecution rfl rfl h.room, rfl⟩)
    rw [query_of_valid sizeDataSources h.wallet hvalid]
    dsimp only
    rw [hanswer]
    dsimp only
    rw [h.localExecution, heffective, if_pos (show (CoordinatorError.noCandidates.isUnreachable &&
      true && PreferMode.auto == .auto) = true from rfl)]
    exact List.mem_append_right _ hagain

end Own

/-- The list is respected in all circumstances if and only if the node is on it or cannot reach its
    own engine. -/
theorem onTargets_iff (n : QueryNode) (sizeDataSources : String → Option WorkingSetEstimate)
    (call : QueryCall) (hnodes : call.nodes ≠ []) :
    (∀ circ, (n.query sizeDataSources call circ).OnTargets call.nodes) ↔
      n.localNodeId ∈ call.nodes ∨ ¬n.ReachesOwnEngine call := by
  constructor
  · intro h
    by_cases hreach : n.ReachesOwnEngine call
    · exact .inl ((h _).executions _ (own_engine_executes sizeDataSources hreach))
    · exact .inr hreach
  · intro h circ
    refine ⟨fun id hid => ?_, fun o ho => query_served sizeDataSources ho⟩
    rcases query_executions sizeDataSources hnodes hid with hlisted | ⟨hreach, hself⟩
    · exact hlisted
    · rw [hself]
      exact h.resolve_right (not_not.mpr hreach)

/-! ### Concrete calls -/

/-- A node with a free local slot, which knows of a grid. -/
def demoNode (prefer : PreferMode) : QueryNode where
  localNodeId := ⟨"b3:self"⟩
  executor := smallExecutor 0
  planner := plannerOn prefer
  execute _ _ := .ok (oneCell 1)
  hasGridTargets := true
  hasWallet := false

/-- A query for `b3:a`. -/
def targetedCall : QueryCall where
  sql := "SELECT 1 FROM t"
  settings := .ok pinnedCall
  prefer := none
  nodes := [⟨"b3:a"⟩]
  paid := false

/-- A node that prefers the grid respects the list. -/
theorem remote_node_keeps_targets :
    targetedCall.nodes ≠ [] ∧
      ((demoNode .preferRemote).query (fun _ => none) targetedCall
        ⟨.idle, [emptyRound], .idle, []⟩).OnTargets targetedCall.nodes :=
  ⟨by decide, (onTargets_iff (demoNode .preferRemote) (fun _ => none) targetedCall
    (by decide)).mpr (.inr fun h => h.prefer rfl) ⟨.idle, [emptyRound], .idle, []⟩⟩

/-- `b3:a` is not there, and the node answers the query itself. -/
theorem unlisted_node_executes :
    ((demoNode .auto).query (fun _ => none) targetedCall
        ⟨.idle, [emptyRound], .idle, []⟩).executedOn = [⟨"b3:self"⟩] ∧
      (⟨"b3:self"⟩ : NodeId) ∉ targetedCall.nodes ∧
      ((demoNode .auto).query (fun _ => none) targetedCall
        ⟨.idle, [emptyRound], .idle, []⟩).answer =
          some (.ok (((demoNode .auto).requester .idle).localOutcome (oneCell 1))) := by
  decide

end Duckton.Node
