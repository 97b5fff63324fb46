/-
  Paid queries (node/node.rs `query`, config/economics.rs `resolve_payment`): who decides that a
  query is paid for, and who makes sure that it can be.

  The guard of `query` resolves the payment of public data, `dispatch_to_grid` that of the data
  class of the call, and a wallet is not a settlement rail: `with_wallet` attaches the one, a
  settlement stack the other. The main result says for which nodes and calls nobody else is asked to
  work on a query that the node cannot pay for.

  Discovery returns what it likes, but nothing on a node without grid targets; whether a stake
  registry is wired does not change between the attempts.
-/
import Duckton.Node.Bidding
import Duckton.Node.Consequences
import Duckton.Node.TargetedQuery

namespace Duckton.Node

open Duckton.Proto

/-! ## Free or paid -/

inductive PaymentMode where
  | free
  | paid
  deriving DecidableEq, Repr

def PaymentMode.isPaid : PaymentMode → Bool
  | .free => false
  | .paid => true

/-- What `resolve_payment` reads of the economics. -/
structure PaymentConfig where
  enabled : Bool
  defaultPayment : PaymentPref
  deriving DecidableEq, Repr

def PaymentConfig.resolvePayment (e : PaymentConfig) (dataClass : DataClass) : PaymentMode :=
  if !e.enabled then .free
  else match e.defaultPayment with
    | .free => .free
    | .paid => .paid
    | .auto => match dataClass with
      | .publicData => .free
      | .internal | .sensitive => .paid

/-- With the chain off every query is free. -/
theorem enabled_of_isPaid {e : PaymentConfig} {dataClass : DataClass}
    (h : (e.resolvePayment dataClass).isPaid = true) : e.enabled = true := by
  unfold PaymentConfig.resolvePayment at h
  cases he : e.enabled with
  | true => rfl
  | false =>
    rw [he] at h
    cases h

/-! ## Offers -/

/-- The peers that an attempt sends its Offer to: the retained candidates that can be reached. -/
def Coordinator.offeredTo (co : Coordinator) (cfg : GridConfig) (job : Job) (net : Network) :
    List NodeId :=
  if co.asksDiscovery then
    (co.candidates cfg job net).zipIdx.filterMap fun (c, i) =>
      (connect (net.dial i) c.nodeId).map Conn.peer
  else []

/-- The Offers of the attempts of `runResilient`. -/
def offersOf (policy : RetryPolicy) (cfg : GridConfig) (job : Job) :
    List Round → LoopState → List NodeId
  | [], _ => []
  | round :: rounds, s =>
    round.coordinator.offeredTo cfg (job.inState s) round.network ++
      match policy.after round s
          (round.coordinator.dispatchAttempt cfg (job.inState s) round.network).result with
      | .finished _ => []
      | .again s' => offersOf policy cfg job rounds s'

def CallConfig.offers (cfg : CallConfig) (inputBytes peakBytes : Option Nat)
    (rounds : List Round) : List NodeId :=
  offersOf cfg.retry cfg.grid
    { cfg.job with estimatedInputBytes := inputBytes, estimatedPeakBytes := peakBytes }
    rounds .initial

/-- The nodes that are sent an Offer or a Dispatch because of one run on the coordinator. -/
def QueryRun.asked (run : QueryRun) (offers : List NodeId) : List NodeId :=
  match run.grid with
  | none => []
  | some grid => offers ++ grid.dispatched

/-- The other nodes that a call sets to work once it is not refused: by the first run and by the one
    after an unreachable grid. -/
def QueryNode.askedInCourse (n : QueryNode)
    (sizeDataSources : String → Option WorkingSetEstimate) (call : QueryCall) (cfg : CallConfig)
    (circ : Circumstances) : List NodeId :=
  let first := (n.planned sizeDataSources call cfg circ).1
  let estimate := preflightEstimate sizeDataSources call.sql
  first.asked ((n.callConfig call cfg call.prefer).offers
      (estimate.map WorkingSetEstimate.scannedUncompressedBytes)
      (estimate.map WorkingSetEstimate.peakWorkingSetBytes) circ.rounds) ++
    match first.answer with
    | some (.error e) =>
      if e.isUnreachable && n.planner.localExecutionEnabled &&
          call.prefer.getD n.planner.prefer == .auto then
        (n.again call cfg circ).1.asked
          ((n.callConfig call cfg call.prefer).offers none none circ.fallbackRounds)
      else []
    | _ => []

def QueryNode.asked (n : QueryNode) (sizeDataSources : String → Option WorkingSetEstimate)
    (call : QueryCall) (circ : Circumstances) : List NodeId :=
  match call.settings with
  | .error _ => []
  | .ok cfg =>
    if call.paid && !n.hasWallet then [] else n.askedInCourse sizeDataSources call cfg circ

/-! ## Nodes that pay -/

/-- A node with what it pays with. `with_wallet` sets `hasWallet` and wires a stake registry,
    `with_settlement` sets `hasWallet` and wires a rail, and a settlement stack wires a rail whether
    or not it is one that makes a wallet. -/
structure PayingNode where
  node : QueryNode
  payer : Payer
  payments : PaymentConfig
  registryWired : Bool

/-- A call with the two overrides that the payment depends on. -/
structure PayingCall where
  call : QueryCall
  payment : Option PaymentPref
  dataClass : Option DataClass

namespace PayingNode

variable (n : PayingNode) (sizeDataSources : String → Option WorkingSetEstimate) (c : PayingCall)

/-- The configuration with the override of the call folded in. -/
def applied : PaymentConfig :=
  { n.payments with defaultPayment := c.payment.getD n.payments.defaultPayment }

/-- Whether data of this class is paid for. -/
def pays (dataClass : DataClass) : Bool :=
  ((n.applied c).resolvePayment dataClass).isPaid

/-- What `dispatch_to_grid` resolves for the data class of the call. -/
def jobPaid : Bool :=
  n.pays c (c.dataClass.getD .publicData)

def settings (cfg : CallConfig) : CallConfig :=
  { cfg with
    grid := { cfg.grid with economicsEnabled := n.payments.enabled }
    job := { cfg.job with paid := n.jobPaid c } }

/-- The call as `query` takes it; its guard asks about public data. -/
def resolved : QueryCall :=
  { c.call with
    settings := c.call.settings.map (n.settings c)
    paid := n.pays c .publicData }

def query (circ : Circumstances) : NodeRun :=
  n.node.query sizeDataSources (n.resolved c) circ

def asked (circ : Circumstances) : List NodeId :=
  n.node.asked sizeDataSources (n.resolved c) circ

/-- What a round can be on this node. -/
structure Allows (round : Round) : Prop where
  discovered : n.node.hasGridTargets = false → round.network.discovered = []
  registry : round.coordinator.stakeOf.isSome = n.registryWired

def AllowsAll (circ : Circumstances) : Prop :=
  ∀ round ∈ circ.rounds ++ circ.fallbackRounds, n.Allows round

/-- A wallet, a rail, and a settlement of every outcome that gets to the rail. -/
structure Covers (cfg : CallConfig) : Prop where
  wallet : n.node.hasWallet = true
  rail : n.payer.settlement.isSome = true
  settles : ∀ sha256 req,
    (n.payer.settlePaidJob sha256 (n.settings c cfg).grid (n.jobPaid c) req).reachedRail = true

/-- Nobody is asked to work on a paid query that is not covered, and a call that is refused for want
    of a wallet is refused before anybody is asked. -/
structure PaidWorkCovered (circ : Circumstances) : Prop where
  covered : ∀ cfg, c.call.settings = .ok cfg → n.jobPaid c = true →
    (n.asked sizeDataSources c circ ≠ [] ∨
      ∃ id ∈ (n.query sizeDataSources c circ).executedOn, id ≠ n.node.localNodeId) →
    n.Covers c cfg
  refused : (n.query sizeDataSources c circ).answer = some (.error .walletRequired) →
    n.asked sizeDataSources c circ = []

end PayingNode

/-! ## Nobody to ask -/

section Nobody

variable {cfg : GridConfig} {job : Job}

/-- No candidate of the round is kept, whatever earlier attempts did. -/
def Round.Deserted (round : Round) (cfg : GridConfig) : Prop :=
  ∀ job, round.coordinator.candidates cfg job round.network = []

variable {policy : RetryPolicy} {rounds : List Round} {round : Round}

theorem offersOf_of_deserted (h : ∀ round ∈ rounds, round.Deserted cfg) (s : LoopState) :
    offersOf policy cfg job rounds s = [] := by
  induction rounds generalizing s with
  | nil => rfl
  | cons round rounds ih =>
    have hnone : round.coordinator.offeredTo cfg (job.inState s) round.network = [] := by
      rw [Coordinator.offeredTo, h round List.mem_cons_self]
      exact ite_self _
    have hrest := ih fun round' hmem => h round' (List.mem_cons_of_mem _ hmem)
    rw [offersOf, hnone, List.nil_append]
    split
    · rfl
    · exact hrest _

theorem dispatched_of_deserted (h : ∀ round ∈ rounds, round.Deserted cfg) (s : LoopState) :
    (runResilient policy cfg job rounds s).dispatched = [] := by
  refine List.eq_nil_iff_forall_not_mem.mpr fun p hp => ?_
  obtain ⟨a, ha, hp⟩ := List.mem_flatMap.mp hp
  obtain ⟨round, hmem, s', hround⟩ := attempts_of_runResilient ha
  rw [hround] at hp
  obtain ⟨i, cand, -, -, hcand, -⟩ := mem_dispatched hp
  rw [h round hmem] at hcand
  cases hcand

/-- A stake gate that is on keeps nobody without a registry. -/
theorem deserted_of_no_registry (hgates : cfg.gatesOn = true)
    (hregistry : round.coordinator.stakeOf = none) : round.Deserted cfg := by
  intro job
  refine List.filter_eq_nil_iff.mpr fun cand _ hretains => ?_
  have hstake : ∀ id, round.coordinator.stake id = 0 := by
    intro id
    rw [Coordinator.stake, hregistry]
  unfold Coordinator.retains Coordinator.retainsKnown at hretains
  cases hid : cand.nodeId with
  | none => simp [hid, hgates] at hretains
  | some id =>
    simp only [hid, hstake, Bool.and_eq_true, Bool.or_eq_true, Bool.not_eq_true',
      decide_eq_true_eq, Nat.le_zero_eq, Nat.mul_eq_zero, Nat.lt_irrefl, or_false,
      tonNanoton] at hretains
    obtain ⟨-, ⟨-, hstaked⟩, hfloor⟩ := hretains
    rw [GridConfig.gatesOn, hstaked, Bool.false_or, decide_eq_true_eq] at hgates
    omega

theorem deserted_of_nobody (h : round.network.discovered = []) :
    round.Deserted cfg := by
  intro job
  rw [Coordinator.candidates, h]
  rfl

end Nobody

/-! ## The course of a call -/

section Course

variable {n : QueryNode} {sizeDataSources : String → Option WorkingSetEstimate} {call : QueryCall}
  {cfg : CallConfig} {circ : Circumstances}

variable {estimate : Option WorkingSetEstimate}

theorem run_asked_of_deserted {r : Requester} {cfg' : CallConfig} {sql : String}
    {inputBytes peakBytes : Option Nat} {rounds : List Round} (hgrid : cfg'.grid = cfg.grid)
    (h : ∀ round ∈ rounds, round.Deserted cfg.grid) :
    (r.run (.ok cfg) sql estimate inputBytes peakBytes rounds).asked
      (cfg'.offers inputBytes peakBytes rounds) = [] := by
  have hoffers : cfg'.offers inputBytes peakBytes rounds = [] :=
    offersOf_of_deserted (by rw [hgrid]; exact h) _
  unfold QueryRun.asked
  rcases run_cases r cfg sql estimate inputBytes peakBytes rounds with ⟨hrun, -⟩ | ⟨hrun, -⟩
  · rw [hrun, hoffers]
    exact dispatched_of_deserted h _
  · rw [hrun]

theorem QueryNode.asked_of_valid (hvalid : call.settings = .ok cfg)
    (hwallet : call.paid = true → n.hasWallet = true) :
    n.asked sizeDataSources call circ = n.askedInCourse sizeDataSources call cfg circ := by
  unfold QueryNode.asked
  rw [hvalid, walletGuard_eq_false hwallet]
  rfl

/-- The guard of `query` refuses before anybody is asked. -/
theorem QueryNode.asked_of_refused (hpaid : call.paid = true) (hwallet : n.hasWallet = false) :
    n.asked sizeDataSources call circ = [] := by
  unfold QueryNode.asked
  rw [hpaid, hwallet]
  split <;> rfl

theorem QueryNode.asked_of_deserted (hvalid : call.settings = .ok cfg)
    (h : ∀ round ∈ circ.rounds ++ circ.fallbackRounds, round.Deserted cfg.grid) :
    n.asked sizeDataSources call circ = [] := by
  have hfirst : ∀ round ∈ circ.rounds, round.Deserted cfg.grid :=
    fun round hmem => h round (List.mem_append_left _ hmem)
  have hsecond : ∀ round ∈ circ.fallbackRounds, round.Deserted cfg.grid :=
    fun round hmem => h round (List.mem_append_right _ hmem)
  unfold QueryNode.asked QueryNode.askedInCourse
  rw [hvalid]
  dsimp only
  split
  · rfl
  · rw [List.append_eq_nil_iff]
    refine ⟨run_asked_of_deserted rfl hfirst, ?_⟩
    split
    · split
      · exact run_asked_of_deserted rfl hsecond
      · rfl
    · rfl

theorem mem_asked_of_executedOn {r : Requester} {run : QueryRun} {id : NodeId}
    (hid : id ∈ r.executedOn (.ok cfg) estimate run) (hother : id ≠ r.localNodeId)
    (offers : List NodeId) : id ∈ run.asked offers := by
  rcases mem_executedOn.mp hid with ⟨-, hself⟩ | ⟨grid, hgrid, hmem⟩
  · exact absurd hself hother
  · unfold QueryRun.asked
    rw [hgrid]
    exact List.mem_append_right _ hmem

/-- Every other node that executes the query was asked to. -/
theorem QueryNode.asked_of_executed {id : NodeId}
    (hid : id ∈ (n.query sizeDataSources call circ).executedOn) (hother : id ≠ n.localNodeId) :
    id ∈ n.asked sizeDataSources call circ := by
  rcases refused_or_valid sizeDataSources n call circ with ⟨e, hrefused⟩ | ⟨cfg, hvalid, hwallet⟩
  · rw [hrefused] at hid
    cases hid
  · rw [query_of_valid sizeDataSources hwallet hvalid] at hid
    rw [asked_of_valid hvalid hwallet]
    have hfirst : id ∈ (n.planned sizeDataSources call cfg circ).2 →
        id ∈ n.askedInCourse sizeDataSources call cfg circ := fun h =>
      List.mem_append_left _ (mem_asked_of_executedOn h hother _)
    dsimp only at hid
    split at hid
    · exact hfirst hid
    · exact hfirst hid
    · rename_i e hanswer
      split at hid
      · rename_i hfallback
        rcases List.mem_append.mp hid with hmem | hmem
        · exact hfirst hmem
        · refine List.mem_append_right _ ?_
          rw [hanswer]
          dsimp only
          rw [if_pos hfallback]
          exact mem_asked_of_executedOn hmem hother _
      · exact hfirst hid

/-- A call that is answered by a demand for a wallet has asked nobody. -/
theorem QueryNode.asked_of_walletRequired
    (h : (n.query sizeDataSources call circ).answer = some (.error .walletRequired)) :
    n.asked sizeDataSources call circ = [] := by
  cases hvalid : call.settings with
  | error detail =>
    unfold QueryNode.asked
    rw [hvalid]
  | ok cfg =>
    by_cases hwallet : call.paid = true → n.hasWallet = true
    · rw [query_of_valid sizeDataSources hwallet hvalid] at h
      dsimp only at h
      split at h
      · cases h
      · cases h
      · split at h
        · obtain ⟨answer, -, hanswer⟩ := Option.map_eq_some_iff.mp h
          cases answer <;> cases hanswer
        · cases h
    · rw [Classical.not_imp, Bool.not_eq_true] at hwallet
      exact asked_of_refused hwallet.1 hwallet.2

end Course

/-! ## Somebody to ask -/

section Somebody

/-- The id of a candidate that is asked for, if anybody is. -/
def Job.someTarget (job : Job) : NodeId :=
  job.nodes.headD ⟨"b3:w"⟩

/-- A candidate with the labels that the job asks for. -/
def Job.wanted (job : Job) : Candidate where
  nodeId := some job.someTarget
  idProvenance := .pinned
  addr := "10.0.0.1:7070"
  advertisedNetworks := job.network.toList
  advertisedGroups := job.groups
  advertisedRegion := job.regions.head?

/-- A round that finds the wanted candidate, with enough stake where there is a registry. -/
def wantedRound (cfg : GridConfig) (job : Job) (registryWired : Bool) : Round where
  coordinator :=
    { plainCoordinator with
      stakeOf := if registryWired then some fun _ => cfg.sybilMinStake * tonNanoton + 1 else none }
  network := plainNetwork [job.wanted] [job.someTarget] []
  elapsedMs := 0
  tokenGranted := true

variable (job : Job) (cfg : GridConfig) (registryWired : Bool)

theorem admitsLabels_wanted : (job.filter cfg).admitsLabels job.wanted = true := by
  unfold CandidateFilter.admitsLabels CandidateFilter.admitsNode CandidateFilter.admitsNetwork
    CandidateFilter.admitsGroup CandidateFilter.admitsRegion Job.filter Job.wanted Job.someTarget
  simp only [Bool.and_eq_true]
  refine ⟨⟨⟨?_, ?_⟩, ?_⟩, ?_⟩
  · cases job.nodes <;> simp
  · cases job.network <;> simp
  · cases hgroups : job.groups <;> simp
  · cases job.regions <;> simp

/-- The stake gates are passed where there is a registry, and off where there is none. -/
theorem stakeGates_wanted (hgates : cfg.gatesOn = true → registryWired = true) (id : NodeId) :
    let stake := (wantedRound cfg job registryWired).coordinator.stake id
    ((!cfg.scheduler.requireStakedHosts || decide (0 < stake)) &&
      (decide (cfg.sybilMinStake = 0) || decide (cfg.sybilMinStake * tonNanoton ≤ stake))) =
        true := by
  intro stake
  cases registryWired with
  | true =>
    have hstake : stake = cfg.sybilMinStake * tonNanoton + 1 := rfl
    simp [hstake]
  | false =>
    have hoff : cfg.gatesOn = false := by
      cases hon : cfg.gatesOn with
      | false => rfl
      | true => exact (hgates hon).symm
    rw [GridConfig.gatesOn, Bool.or_eq_false_iff, decide_eq_false_iff_not] at hoff
    have hzero : cfg.sybilMinStake = 0 := by omega
    simp [hoff.1, hzero]

theorem retains_wanted
    (hexcluded : job.excluded = []) (hgates : cfg.gatesOn = true → registryWired = true) :
    (wantedRound cfg job registryWired).coordinator.retains cfg job job.wanted = true := by
  have hstake := stakeGates_wanted job cfg registryWired hgates job.someTarget
  have hcapacity : provenCapacityAdmits none (job.estimatedInputBytes.getD 0) = true := by
    unfold provenCapacityAdmits
    split <;> rfl
  rw [Bool.and_eq_true] at hstake
  unfold Coordinator.retains Coordinator.retainsKnown
  rw [admitsLabels_wanted]
  simp only [Job.wanted, IdProvenance.isVerified, hexcluded, Bool.and_eq_true]
  refine ⟨by simp, ⟨⟨⟨⟨?_, rfl⟩, hcapacity⟩, rfl⟩, hstake.1⟩, hstake.2⟩
  simp [Coordinator.isBlocked, wantedRound, plainCoordinator]

/-- The wanted candidate is offered the job by the first attempt. -/
theorem someTarget_offered (policy : RetryPolicy) (cfg : GridConfig) (job : Job)
    (registryWired : Bool) (hgates : cfg.gatesOn = true → registryWired = true)
    (rounds : List Round) :
    job.someTarget ∈
      offersOf policy cfg job (wantedRound cfg job registryWired :: rounds) .initial := by
  have hretains := retains_wanted (job.inState .initial) cfg registryWired rfl hgates
  refine List.mem_append_left _ ?_
  have hcandidates : (wantedRound cfg job registryWired).coordinator.candidates cfg
      (job.inState .initial) (wantedRound cfg job registryWired).network = [job.wanted] :=
    List.filter_cons_of_pos hretains
  have hdial : connect ((wantedRound cfg job registryWired).network.dial 0)
      (some job.someTarget) = some ⟨job.someTarget, []⟩ := if_pos rfl
  have hasks : (wantedRound cfg job registryWired).coordinator.asksDiscovery = true := rfl
  rw [Coordinator.offeredTo, hcandidates, if_pos hasks, List.mem_filterMap]
  exact ⟨(job.wanted, 0), List.mem_singleton_self _, congrArg (Option.map Conn.peer) hdial⟩

/-- A load under which the local executor takes nothing more. -/
def LocalExecutor.fullLoad (x : LocalExecutor) : LocalLoad :=
  { LocalLoad.idle with heldSlots := x.maxJobs }

theorem executesLocally_fullLoad (n : QueryNode) (cfg : CallConfig)
    (estimate : Option WorkingSetEstimate) :
    (n.requester n.executor.fullLoad).executesLocally cfg estimate = false := by
  have hnone : ((n.executor.under n.executor.fullLoad).reserve (reserveBytes estimate)).isSome =
      false := by
    rw [Bool.eq_false_iff, ne_eq, LocalExecutor.reserve_isSome_iff]
    exact fun h => Nat.lt_irrefl _ h.slotFree
  unfold Requester.executesLocally QueryNode.requester
  dsimp only
  rw [hnone, Bool.and_false]

theorem mem_run_asked {r : Requester} {cfg : CallConfig} {sql : String}
    {estimate : Option WorkingSetEstimate} {inputBytes peakBytes : Option Nat}
    {rounds : List Round} {offers : List NodeId} {id : NodeId}
    (hexec : r.executesLocally cfg estimate = false) (hid : id ∈ offers) :
    id ∈ (r.run (.ok cfg) sql estimate inputBytes peakBytes rounds).asked offers := by
  unfold QueryRun.asked
  rcases run_cases r cfg sql estimate inputBytes peakBytes rounds with ⟨hrun, -⟩ | ⟨-, habs, -⟩
  · rw [hrun]
    exact List.mem_append_left _ hid
  · rw [hexec] at habs
    cases habs

/-- The surroundings in which a busy node finds the wanted candidate. -/
def QueryNode.busy (n : QueryNode) (call : QueryCall) (cfg : CallConfig) (registryWired : Bool) :
    Circumstances where
  load := n.executor.fullLoad
  rounds := [wantedRound cfg.grid (n.callConfig call cfg call.prefer).job registryWired]
  fallbackLoad := .idle
  fallbackRounds := []

theorem QueryNode.asks_wanted (n : QueryNode)
    (sizeDataSources : String → Option WorkingSetEstimate) {call : QueryCall} {cfg : CallConfig}
    (hvalid : call.settings = .ok cfg) (hwallet : call.paid = true → n.hasWallet = true)
    {registryWired : Bool} (hgates : cfg.grid.gatesOn = true → registryWired = true) :
    n.asked sizeDataSources call (n.busy call cfg registryWired) ≠ [] := by
  have hoffered (inputBytes peakBytes : Option Nat) :
      (n.callConfig call cfg call.prefer).job.someTarget ∈
        (n.callConfig call cfg call.prefer).offers inputBytes peakBytes
          (n.busy call cfg registryWired).rounds :=
    someTarget_offered _ _ _ registryWired hgates _
  rw [asked_of_valid hvalid hwallet]
  exact List.append_ne_nil_of_left_ne_nil (List.ne_nil_of_mem
    (mem_run_asked (executesLocally_fullLoad n _ _) (hoffered _ _))) _

end Somebody

/-! ## When paid work is covered -/

namespace PayingNode

variable (n : PayingNode) (sizeDataSources : String → Option WorkingSetEstimate) (c : PayingCall)

/-- The node has a wallet and a rail, and its own fee recipient is not at odds with the chain. -/
def CanPay : Prop :=
  n.node.hasWallet = true ∧ n.payer.settlement.isSome = true ∧ n.payer.feeRecipientAccepted = true

/-- Discovery is not empty by construction, and a stake gate that is on has a registry. -/
def MeetsCandidates (cfg : CallConfig) : Prop :=
  n.node.hasGridTargets = true ∧ (cfg.grid.gatesOn = true → n.registryWired = true)

variable {n c} {cfg : CallConfig} {circ : Circumstances}

theorem covers_iff (hpaid : n.jobPaid c = true) : n.Covers c cfg ↔ n.CanPay := by
  have hreached (sha256 : Bytes → BitVec 256) (req : SettleRequest) :
      (n.payer.settlePaidJob sha256 (n.settings c cfg).grid (n.jobPaid c) req).reachedRail =
        (n.payer.settlement.isSome && n.payer.feeRecipientAccepted) := by
    have henabled : (n.applied c).enabled = true := enabled_of_isPaid hpaid
    have hon : (n.settings c cfg).grid.economicsEnabled = true := henabled
    rw [settlePaidJob_reachedRail, Payer.settles, hpaid, hon]
    rfl
  constructor
  · intro h
    have hsettles := h.settles (fun _ => 0) ⟨n.node.localNodeId, [], "", "", none⟩
    rw [hreached, Bool.and_eq_true] at hsettles
    exact ⟨h.wallet, hsettles⟩
  · rintro ⟨hwallet, hrail, hfee⟩
    refine ⟨hwallet, hrail, fun sha256 req => ?_⟩
    rw [hreached, hrail, hfee]
    rfl

theorem settings_of_resolved (hvalid : c.call.settings = .ok cfg) :
    (n.resolved c).settings = .ok (n.settings c cfg) := by
  show c.call.settings.map (n.settings c) = _
  rw [hvalid]
  rfl

/-- Whoever is asked was met. -/
theorem meetsCandidates_of_asked (hallows : n.AllowsAll circ) (hvalid : c.call.settings = .ok cfg)
    (hasked : n.asked sizeDataSources c circ ≠ []) : n.MeetsCandidates cfg := by
  have hsettings := settings_of_resolved (n := n) hvalid
  constructor
  · by_contra htargets
    refine hasked (QueryNode.asked_of_deserted hsettings fun round hmem => ?_)
    exact deserted_of_nobody ((hallows round hmem).discovered (by simpa using htargets))
  · intro hgates
    by_contra hregistry
    refine hasked (QueryNode.asked_of_deserted hsettings fun round hmem => ?_)
    have hstake := (hallows round hmem).registry
    rw [Bool.eq_false_iff.mpr hregistry, Option.isSome_eq_false_iff,
      Option.isNone_iff_eq_none] at hstake
    exact deserted_of_no_registry hgates hstake

/-- Whatever happens, nobody else is set to work on a paid query that the node cannot pay for, if
    and only if a query that is paid for and meets candidates comes from a node that can pay, or is
    stopped by the guard: public data would be paid for too, and there is no wallet. -/
theorem paid_work_covered_iff (n : PayingNode)
    (sizeDataSources : String → Option WorkingSetEstimate) (c : PayingCall) :
    (∀ circ, n.AllowsAll circ → n.PaidWorkCovered sizeDataSources c circ) ↔
      ∀ cfg, c.call.settings = .ok cfg → n.jobPaid c = true → n.MeetsCandidates cfg →
        n.CanPay ∨ (n.pays c .publicData = true ∧ n.node.hasWallet = false) := by
  constructor
  · intro h cfg hvalid hpaid ⟨htargets, hgates⟩
    by_cases hguard : n.pays c .publicData = true → n.node.hasWallet = true
    · let circ := n.node.busy (n.resolved c) (n.settings c cfg) n.registryWired
      have hallows : n.AllowsAll circ := by
        intro round hmem
        rw [List.mem_singleton.mp hmem]
        refine ⟨fun hnone => ?_, ?_⟩
        · rw [htargets] at hnone
          cases hnone
        · show (if n.registryWired then some _ else none).isSome = n.registryWired
          cases n.registryWired <;> rfl
      have hasked : n.asked sizeDataSources c circ ≠ [] :=
        QueryNode.asks_wanted n.node sizeDataSources (settings_of_resolved hvalid) hguard hgates
      exact .inl ((covers_iff hpaid).mp ((h circ hallows).covered cfg hvalid hpaid (.inl hasked)))
    · rw [Classical.not_imp, Bool.not_eq_true] at hguard
      exact .inr hguard
  · intro h circ hallows
    refine ⟨fun cfg hvalid hpaid hwork => ?_, QueryNode.asked_of_walletRequired⟩
    have hasked : n.asked sizeDataSources c circ ≠ [] := by
      rcases hwork with hasked | ⟨id, hid, hother⟩
      · exact hasked
      · exact List.ne_nil_of_mem (QueryNode.asked_of_executed hid hother)
    rcases h cfg hvalid hpaid (meetsCandidates_of_asked sizeDataSources hallows hvalid hasked) with
      hpay | ⟨hpublic, hwallet⟩
    · exact (covers_iff hpaid).mpr hpay
    · exact absurd (QueryNode.asked_of_refused hpublic hwallet) hasked

end PayingNode

/-! ### Unpaid work -/

/-- A node on a grid with the economics switched on and no rail. -/
def unfundedNode (hasWallet : Bool) : PayingNode where
  node := { demoNode .auto with hasWallet }
  payer := { demoPayer eachBound with settlement := none }
  payments := ⟨true, .auto⟩
  registryWired := false

/-- A query on sensitive data, for workers of level L2 and a trust of 0.8. -/
def sensitiveCall : PayingCall where
  call :=
    { targetedCall with
      nodes := []
      settings := .ok
        { pinnedCall with
          grid := { plainConfig .quorum 1 1 with minTrust := ⟨0x3fe999999999999a⟩ }
          job := { plainJob with minLevel := .l2 } } }
  payment := none
  dataClass := some .sensitive

/-- A query on public data that is to be paid for. -/
def paidPublicCall : PayingCall where
  call := { targetedCall with nodes := [] }
  payment := some .paid
  dataClass := none

/-- One worker that answers; the node has no verifier for its attestation. -/
def oneWorkerGrid : Circumstances :=
  ⟨.idle, [oneWorkerRound], .idle, []⟩

theorem unfundedNode_allows (hasWallet : Bool) :
    (unfundedNode hasWallet).AllowsAll oneWorkerGrid := by
  intro round hmem
  rw [List.mem_singleton.mp hmem]
  refine ⟨fun habs => ?_, rfl⟩
  cases habs

/-- A worker is asked to do sensitive work for a node without a wallet, and does public work for a
    node with a wallet and no rail; neither is refused, and neither can be paid. -/
theorem unpaid_work_dispatched :
    (unfundedNode false).AllowsAll oneWorkerGrid ∧
    (unfundedNode false).jobPaid sensitiveCall = true ∧
    (unfundedNode false).asked (fun _ => none) sensitiveCall oneWorkerGrid = [⟨"b3:a"⟩] ∧
    ¬ (unfundedNode false).PaidWorkCovered (fun _ => none) sensitiveCall oneWorkerGrid ∧
    (unfundedNode true).jobPaid paidPublicCall = true ∧
    ((unfundedNode true).query (fun _ => none) paidPublicCall oneWorkerGrid).executedOn =
      [⟨"b3:a"⟩] ∧
    ¬ (unfundedNode true).PaidWorkCovered (fun _ => none) paidPublicCall oneWorkerGrid := by
  have hsensitive : (unfundedNode false).asked (fun _ => none) sensitiveCall oneWorkerGrid =
      [⟨"b3:a"⟩] := by
    decide
  have hpublic : ((unfundedNode true).query (fun _ => none) paidPublicCall
      oneWorkerGrid).executedOn = [⟨"b3:a"⟩] := by
    decide
  refine ⟨unfundedNode_allows false, rfl, hsensitive, fun h => ?_, rfl, hpublic, fun h => ?_⟩
  · have hcovers := h.covered _ rfl rfl (.inl (by rw [hsensitive]; exact List.cons_ne_nil _ _))
    cases hcovers.wallet
  · have hcovers := h.covered _ rfl rfl
      (.inr ⟨_, by rw [hpublic]; exact List.mem_singleton_self _, by decide⟩)
    cases hcovers.rail

end Duckton.Node
