/-
  One dispatch attempt of the requester (node/coordinator.rs, `dispatch_attempt`).

  The attempt is modelled as a function of the configuration, the coordinator's wired services
  and the behaviour of the network: which candidates discovery returns, who authenticates on
  each dial, what every peer bids, which messages it sends on its dispatch stream and which
  streams it opens. Every peer is adversarial; the only thing a connection is trusted for is
  the identity it authenticated with. Scores and trust values are floats computed elsewhere and
  are parameters; how they are compared is not.

  The stages below are the numbered steps of the source: retain, offers, eligibility, scoring,
  pre-flight, collection, quorum decision, winner, transfer, verdicts, settlement.
-/
import Mathlib.Data.List.MinMax
import Duckton.Trust.AntiAbuse
import Duckton.Trust.Canonical
import Duckton.Node.Discovery
import Duckton.Node.Pricing
import Duckton.Node.ResultStream

namespace Duckton.Node

open Duckton.Proto Duckton.Trust Duckton.Settlement

/-! ## Configuration, services, network -/

inductive VerifyMode where
  | fast
  | quorum
  deriving DecidableEq, Repr

structure SchedulerConfig where
  replicas : Nat
  quorum : Nat
  verifyMode : VerifyMode
  requireStakedHosts : Bool
  deriving DecidableEq, Repr

structure AntiAbuseConfig where
  enabled : Bool
  faultAttribution : Bool
  nondeterminism : Bool
  autoBlockEnabled : Bool
  autoBlockTrustFloor : F64
  deriving DecidableEq, Repr

def AntiAbuseConfig.faultAttributionActive (a : AntiAbuseConfig) : Bool :=
  a.enabled && a.faultAttribution

def AntiAbuseConfig.nondeterminismActive (a : AntiAbuseConfig) : Bool :=
  a.enabled && a.nondeterminism

/-- The settings an attempt reads. The two rates are basis points after `to_bps`. -/
structure GridConfig where
  scheduler : SchedulerConfig
  antiabuse : AntiAbuseConfig
  sybilMinStake : Nat
  minTrust : F64
  regionTrustAttested : Bool
  isPrivate : Bool
  economicsEnabled : Bool
  maxBid : Nat
  platformFeeBps : Nat
  participationCommissionBps : Nat
  capabilityWeight : F64
  spillToleranceBytes : Nat
  maxResultBytes : Nat
  maxResultParts : Nat
  deriving DecidableEq, Repr

structure CapabilityProfile where
  maxInputBytes : Nat
  maxPeakMemoryBytes : Nat
  maxTempDirBytes : Nat
  successes : Nat
  deriving DecidableEq, Repr

/-- What the input resolver answered: no pin, a pinned fingerprint, inputs that cannot be pinned,
    or a source that cannot be reached. -/
inductive InputResolution where
  | unpinned
  | pinned (fingerprint : String)
  | notPinnable (reason : String)
  | unavailable (reason : String)
  deriving DecidableEq, Repr

/-- The wired services, each as the answers it gives during this attempt. -/
structure Coordinator where
  resolution : InputResolution
  blocklist : Option (List String)
  livenessExcluded : Option (NodeId → Bool)
  stakeOf : Option (NodeId → Nat)
  provenCapacity : NodeId → Option CapabilityProfile
  verifiedAttestationLevel : Attestation → AttestationLevel
  regionProofOk : NodeId → Bid → Bool
  effectiveTrust : NodeId → F64
  normalizePrice : (price pmin pmax : Nat) → F64
  selectionScore : NodeId → (trust priceScore : F64) → F64
  canaryExpected : Option String
  isNondeterministic : Bool
  consensusNeed : Nat → Nat
  toleratedMedian : Nat → Nat
  providerPenalty : F64
  codec : Codec

/-- The job and what earlier attempts learned about it. -/
structure Job where
  paid : Bool
  minLevel : AttestationLevel
  network : Option String
  groups : List String
  regions : List String
  nodes : List NodeId
  excluded : List NodeId
  estimatedInputBytes : Option Nat
  estimatedPeakBytes : Option Nat
  capacityFloor : Nat
  deriving DecidableEq, Repr

/-- An authenticated connection and the unidirectional streams its peer opens on it. -/
structure Conn where
  peer : NodeId
  uni : List UniStream
  deriving DecidableEq, Repr

/-- What the network does in this attempt. `dial i` and `bid i` answer the `i`-th retained
    candidate, `frames i` is what the `i`-th selected worker sends after its Dispatch. -/
structure Network where
  discovered : List Candidate
  dial : Nat → Option Conn
  bid : Nat → Option Bid
  frames : Nat → List Wire
  transferInTime : Bool

/-! ## 1. Candidates -/

/-- `PROVEN_GATE_MIN_SUCCESSES`. -/
def provenGateMinSuccesses : Nat :=
  4

/-- A candidate is dropped by size only on a confident history that the job clearly exceeds. -/
def provenCapacityAdmits (profile : Option CapabilityProfile) (scannedBytes : Nat) : Bool :=
  if scannedBytes = 0 then true
  else match profile with
    | some p =>
      if provenGateMinSuccesses ≤ p.successes then
        scannedBytes ≤ Saturating.add 64 p.maxInputBytes p.maxTempDirBytes
      else true
    | none => true

def advertisedCapacityAdmits (freeMemBytes : Nat) (profile : Option CapabilityProfile)
    (peakBytes spillTolerance : Nat) : Bool :=
  if peakBytes = 0 ∨ freeMemBytes = 0 then true
  else
    let capacity := Saturating.add 64 freeMemBytes spillTolerance
    let capacity := match profile with
      | some p => max capacity (Saturating.add 64 p.maxPeakMemoryBytes p.maxTempDirBytes)
      | none => capacity
    peakBytes ≤ capacity

def Job.filter (job : Job) (cfg : GridConfig) : CandidateFilter where
  network := job.network
  groups := job.groups
  regions := job.regions
  failClosedLabels := cfg.isPrivate
  nodes := job.nodes

variable (co : Coordinator) (cfg : GridConfig) (job : Job) (net : Network)

/-- On the deny-list when the candidates are retained, with anti-abuse enabled and a list wired. -/
def Coordinator.isBlocked (id : NodeId) : Bool :=
  cfg.antiabuse.enabled && match co.blocklist with
    | some bl => bl.contains id.id
    | none => false

/-- Convicted by the liveness view. -/
def Coordinator.isConvicted (id : NodeId) : Bool :=
  match co.livenessExcluded with
  | some isExcluded => isExcluded id
  | none => false

def Coordinator.stake (id : NodeId) : Nat :=
  match co.stakeOf with
  | some stakeOf => stakeOf id
  | none => 0

/-- A stake gate is on: only ids of verified provenance pass. -/
def GridConfig.gatesOn : Bool :=
  cfg.scheduler.requireStakedHosts || decide (0 < cfg.sybilMinStake)

/-- The checks on a candidate whose id is known. -/
def Coordinator.retainsKnown (id : NodeId) : Bool :=
  !co.isBlocked cfg id && !job.excluded.contains id &&
    provenCapacityAdmits (co.provenCapacity id) (job.estimatedInputBytes.getD 0) &&
    !co.isConvicted id &&
    (!cfg.scheduler.requireStakedHosts || decide (0 < co.stake id)) &&
    (decide (cfg.sybilMinStake = 0) || decide (cfg.sybilMinStake * tonNanoton ≤ co.stake id))

/-- The `retain` predicate. A candidate without an id cannot be tracked and is kept unless a
    stake gate is on. -/
def Coordinator.retains (c : Candidate) : Bool :=
  (job.filter cfg).admitsLabels c && !(cfg.gatesOn && !c.idProvenance.isVerified) &&
    match c.nodeId with
    | some id => co.retainsKnown cfg job id
    | none => !cfg.gatesOn

def Coordinator.candidates : List Candidate :=
  net.discovered.filter (co.retains cfg job)

/-! ## 2. Offers -/

/-- `transport.connect`: a known id pins the authenticated peer. -/
def connect (dialled : Option Conn) (expected : Option NodeId) : Option Conn :=
  match dialled, expected with
  | some conn, some exp => if conn.peer = exp then some conn else none
  | some conn, none => some conn
  | none, _ => none

/-- The bids that came back, in candidate order. -/
def offers (candidates : List Candidate) : List (Conn × Bid) :=
  candidates.zipIdx.filterMap fun (c, i) =>
    match connect (net.dial i) c.nodeId, net.bid i with
    | some conn, some bid => some (conn, bid)
    | _, _ => none

/-- `accepted`, with the connections that `conns` keeps. -/
def accepted (candidates : List Candidate) : List (Conn × Bid) :=
  (offers net candidates).filter fun a => a.2.decision = .accept

/-- `conns.get(worker)`: the map is keyed by node id, so a later connection replaces an earlier
    one of the same peer. -/
def connOf (acc : List (Conn × Bid)) (worker : NodeId) : Option Conn :=
  (acc.reverse.find? fun a => a.1.peer = worker).map Prod.fst

/-! ## 3. Eligibility and selection -/

structure Eligible where
  worker : NodeId
  bid : Bid
  trust : F64
  deriving DecidableEq, Repr

/-- Attestation gate, region proof, advertised memory and re-route floor. -/
def Coordinator.clearsGates (worker : NodeId) (bid : Bid) : Bool :=
  decide (job.minLevel.rank ≤ (co.verifiedAttestationLevel bid.attestation).rank) &&
    (!cfg.regionTrustAttested || job.regions.isEmpty || co.regionProofOk worker bid) &&
    advertisedCapacityAdmits bid.freeMemBytes (co.provenCapacity worker)
      (job.estimatedPeakBytes.getD 0) cfg.spillToleranceBytes &&
    decide (job.capacityFloor = 0 ∨ bid.freeMemBytes = 0 ∨ job.capacityFloor < bid.freeMemBytes)

def Coordinator.eligible (acc : List (Conn × Bid)) : List Eligible :=
  ((acc.filter fun a => co.clearsGates cfg job a.1.peer a.2).map fun a =>
    ⟨a.1.peer, a.2, co.effectiveTrust a.1.peer⟩).filter fun e => !(e.trust.lt cfg.minTrust)

/-- The auto-block side effect of the trust check. It comes after the deny-list was consulted, and
    `min_trust` alone decides who stays eligible. -/
def Coordinator.autoBlocked (acc : List (Conn × Bid)) : List NodeId :=
  if cfg.antiabuse.enabled && cfg.antiabuse.autoBlockEnabled &&
      F64.zero.lt cfg.antiabuse.autoBlockTrustFloor && co.blocklist.isSome then
    ((acc.filter fun a => co.clearsGates cfg job a.1.peer a.2).map fun a => a.1.peer).filter
      fun w => (co.effectiveTrust w).lt cfg.antiabuse.autoBlockTrustFloor
  else []

/-- `bid_by_node`: a later bid of the same worker replaces an earlier one. -/
def bidByNode (el : List Eligible) (worker : NodeId) : Option Bid :=
  (el.reverse.find? fun e => e.worker = worker).map Eligible.bid

structure Scored where
  worker : NodeId
  score : F64
  etaMs : Nat
  deriving DecidableEq, Repr

/-- The cheapest and the dearest price signal, starting from `(u64::MAX, 0)`. -/
def priceRange (el : List Eligible) : Nat × Nat :=
  el.foldl (fun r e => (min r.1 (bidPriceSignal e.bid), max r.2 (bidPriceSignal e.bid)))
    (2 ^ 64 - 1, 0)

def Coordinator.capHint (id : NodeId) : Nat :=
  if F64.zero.lt cfg.capabilityWeight then
    ((co.provenCapacity id).map CapabilityProfile.maxInputBytes).getD 0
  else 0

/-- Higher score first, then lower ETA, then larger proven capacity. -/
def Coordinator.rank (a b : Scored) : Ordering :=
  ((b.score.partialCmp a.score).getD .eq).then
    ((compare a.etaMs b.etaMs).then
      (compare (co.capHint cfg b.worker) (co.capHint cfg a.worker)))

def Coordinator.selected (el : List Eligible) : List Scored :=
  let (pmin, pmax) := priceRange el
  let scored := el.map fun e =>
    let priceScore := co.normalizePrice (bidPriceSignal e.bid) pmin pmax
    (⟨e.worker, co.selectionScore e.worker e.trust priceScore, e.bid.etaMs⟩ : Scored)
  (scored.insertionSort fun a b => co.rank cfg a b ≠ .gt).take cfg.scheduler.replicas

/-- The up-front coverage check of a metered paid job. -/
def preflight (el : List Eligible) (sel : List Scored) : Except InsufficientEscrow Unit :=
  if job.paid && cfg.economicsEnabled && decide (0 < cfg.maxBid) then
    let bytes := job.estimatedInputBytes.getD 0
    let capBases := sel.filterMap fun s =>
      ((bidByNode el s.worker).bind MeteredTerms.fromBid).map fun t => t.capBase bytes
    let worstCapBase := capBases.foldl max 0
    if 0 < worstCapBase then
      let maxEscrow := satMul cfg.maxBid tonNanoton
      (ensureEscrowCovers maxEscrow worstCapBase (sel.length - 1) cfg.platformFeeBps
        cfg.participationCommissionBps).map fun _ => ()
    else .ok ()
  else .ok ()

/-! ## 4. Dispatch and collection -/

/-- A worker that committed. `recv` is what it still sends on its dispatch stream. -/
structure InFlight where
  worker : NodeId
  recv : List Wire
  hash : String
  latencyMs : Nat
  inputFingerprint : String
  deriving DecidableEq, Repr

inductive Collected where
  | committed (f : InFlight)
  | failed (worker : NodeId) (detail : String)
  | silent (worker : NodeId)
  deriving DecidableEq, Repr

/-- Read until a commit. Progress is a heartbeat; anything unexpected, or the end of what can be
    read in time, is silence. -/
def collectOne (worker : NodeId) : List Wire → Collected
  | .progress :: rest => collectOne worker rest
  | .commit c :: rest =>
    .committed ⟨worker, rest, c.resultHash, c.latencyMs, c.inputFingerprint⟩
  | .ack false detail :: _ => .failed worker detail
  | _ => .silent worker

def collected (sel : List Scored) : List Collected :=
  sel.zipIdx.map fun (s, i) => collectOne s.worker (net.frames i)

/-- What the attempt knows once every selected worker answered or fell silent. -/
structure Collection where
  accepted : List (Conn × Bid)
  eligible : List Eligible
  selected : List NodeId
  inflight : List InFlight
  failed : List (NodeId × Verdict × String)
  silent : List NodeId

def Collection.of (acc : List (Conn × Bid)) (el : List Eligible) (sel : List Scored)
    (cs : List Collected) : Collection where
  accepted := acc
  eligible := el
  selected := sel.map Scored.worker
  inflight := cs.filterMap fun c => match c with
    | .committed f => some f
    | _ => none
  failed := cs.filterMap fun c => match c with
    | .failed worker detail => some (worker, classifyFailure detail, detail)
    | _ => none
  silent := cs.filterMap fun c => match c with
    | .silent worker => some worker
    | _ => none

/-- The providers a re-dispatch routes around. -/
def Collection.failedOrSilent (c : Collection) : List NodeId :=
  c.failed.map Prod.fst ++ c.silent

def Collection.oomed (c : Collection) : List NodeId :=
  (c.failed.filter fun f => f.2.1 = .resourceExceeded).map Prod.fst

/-- The largest free memory among the workers that ran out of it. -/
def Collection.maxTriedCapacity (c : Collection) : Nat :=
  (c.oomed.map fun n => ((bidByNode c.eligible n).map Bid.freeMemBytes).getD 0).foldl max 0

/-! ## Results -/

inductive InfeasibleReason where
  | inputUnavailable (reason : String)
  | consensus (detail : Option String)
  deriving DecidableEq, Repr

structure Receipt where
  worker : NodeId
  resultHash : String
  verdict : Verdict
  latencyMs : Nat
  inputFingerprint : String
  deriving DecidableEq, Repr

structure QueryOutcome where
  result : ResultSet
  agreedHash : Option String
  agreement : Nat
  quorum : Nat
  verified : Bool
  winner : Option NodeId
  participants : List NodeId
  receipts : List Receipt
  executedLocally : Bool
  deriving DecidableEq

inductive AttemptResult where
  | done (outcome : QueryOutcome)
  | inconclusive (tried : List NodeId)
  | infeasible (reason : InfeasibleReason)
  | resourceExceeded (oomed : List NodeId) (maxTriedCapacity : Nat) (detail : Option String)
  | quorumDisagreement (agreement quorum : Nat)
  | inputDrift (drifted committed : Nat)
  | noCandidates
  | insufficientWorkers (available quorum : Nat)
  deriving DecidableEq

/-- The arguments of `settle_paid_job` that the attempt computes. -/
structure SettleRequest where
  winner : NodeId
  agreeingNonWinners : List NodeId
  agreedHash : String
  inputFingerprint : String
  metered : Option MeteredSettle
  deriving DecidableEq

/-- Everything an attempt does: its result, whom it dispatched to, and its side effects on the
    deny-list, the trust store, the settlement rail and the stake registry. -/
structure AttemptReport where
  result : Except InsufficientEscrow AttemptResult
  dispatched : List NodeId
  autoBlocked : List NodeId
  receipts : List Receipt
  penalized : List NodeId
  commitmentFailers : List NodeId
  settle : Option SettleRequest
  fined : List NodeId

def AttemptReport.early (result : Except InsufficientEscrow AttemptResult)
    (autoBlocked : List NodeId) : AttemptReport :=
  ⟨result, [], autoBlocked, [], [], [], none, []⟩

/-- The report of an attempt that dispatched but has no winner. -/
def AttemptReport.stopped (dispatched autoBlocked : List NodeId) (result : AttemptResult)
    (receipts : List Receipt) : AttemptReport :=
  ⟨.ok result, dispatched, autoBlocked, receipts, [], [], none, []⟩

/-- What the requester gets back from an attempt that is done. -/
def AttemptReport.outcome (report : AttemptReport) : Option QueryOutcome :=
  match report.result with
  | .ok (.done o) => some o
  | _ => none

/-! ## 5. Quorum decision -/

variable (c : Collection)

def Coordinator.pinnedFingerprint : Option String :=
  match co.resolution with
  | .pinned fingerprint => some fingerprint
  | _ => none

def Coordinator.nonVerifiable : Bool :=
  (match co.resolution with
    | .notPinnable _ => true
    | _ => false) ||
  (cfg.antiabuse.nondeterminismActive && co.canaryExpected.isNone && co.isNondeterministic)

def Collection.commitKeys : List CommitKey :=
  c.inflight.map fun f => ⟨f.inputFingerprint, f.hash⟩

def Coordinator.fpOutcome : FingerprintQuorumOutcome :=
  evaluateQuorumOnCommits c.commitKeys co.pinnedFingerprint cfg.scheduler.quorum

/-- The first commit of least reported latency. -/
def fastest (fs : List InFlight) : Option InFlight :=
  fs.argmin InFlight.latencyMs

/-- The failure text shown for a consensus, before its wrapper words are stripped: an infeasible
    verdict first, else the first one. -/
def consensusFailureDetail (failed : List (NodeId × Verdict × String)) : Option String :=
  match failed.find? fun f => f.2.1 = .infeasible with
  | some f => some f.2.2
  | none => failed.head?.map fun f => f.2.2

/-- Either an agreed hash with its `verified` flag, or a result that ends the attempt, with or
    without receipts for the failure. -/
inductive Decision where
  | agreed (hash : String) (verified : Bool)
  | stop (result : AttemptResult) (failureReceipts : Bool)
  deriving DecidableEq

/-- Quorum mode, no canary, verifiable query. -/
def Coordinator.decideQuorum (outcome : QuorumOutcome) : Decision :=
  let infeasible := c.failed.countP fun f => f.2.1 = .infeasible
  let resourceExceeded := c.failed.countP fun f => f.2.1 = .resourceExceeded
  if outcome.split then
    .stop (.quorumDisagreement outcome.agreement outcome.quorum) true
  else match outcome.agreedHash with
    | some h => .agreed h true
    | none =>
      if cfg.antiabuse.faultAttributionActive &&
          isJobConsensusFailure co.consensusNeed infeasible c.selected.length then
        .stop (.infeasible (.consensus (consensusFailureDetail c.failed))) true
      else if cfg.antiabuse.faultAttributionActive &&
          isJobConsensusFailure co.consensusNeed resourceExceeded c.selected.length then
        .stop (.resourceExceeded c.oomed c.maxTriedCapacity (consensusFailureDetail c.failed))
          true
      else if cfg.scheduler.quorum ≤ c.inflight.length then
        .stop (.quorumDisagreement outcome.agreement outcome.quorum) true
      else .stop (.inconclusive c.failedOrSilent) false

/-- The fastest commit decides; `verified` says what is known of it. -/
def decideFastest (verified : Bool) : Decision :=
  match fastest c.inflight with
  | some f => .agreed f.hash verified
  | none => .stop (.inconclusive c.failedOrSilent) false

def Coordinator.decision : Decision :=
  let fp := co.fpOutcome cfg c
  match co.canaryExpected with
  | some expected => .agreed expected true
  | none =>
    if 0 < fp.drifted then .stop (.inputDrift fp.drifted c.inflight.length) true
    else if co.nonVerifiable cfg then decideFastest c false
    else match cfg.scheduler.verifyMode with
      | .quorum => co.decideQuorum cfg c fp.pinned
      | .fast => decideFastest c fp.pinned.reached

/-- The receipts of an attempt without a winner. -/
def failureReceipts (inflight : List InFlight) : List Receipt :=
  let verdict := if cfg.antiabuse.faultAttributionActive then Verdict.inconclusive else .malformed
  inflight.map fun f => ⟨f.worker, f.hash, verdict, f.latencyMs, f.inputFingerprint⟩

/-! ## 6. Winner and losers -/

/-- The position of the first commit of least latency among those of the agreed hash. -/
def winnerIdx (inflight : List InFlight) (agreed : String) : Option Nat :=
  ((inflight.zipIdx.filter fun p => p.1.hash = agreed).argmin fun p => p.1.latencyMs).map Prod.snd

/-- `swap_remove`: the last element takes the place of the removed one. -/
def swapRemove (l : List InFlight) (i : Nat) : List InFlight :=
  match l.getLast? with
  | none => []
  | some last => (l.set i last).dropLast

/-! ## 7. Transfer, verdicts, settlement -/

/-- Download the winner's result over the connection `conns` holds for it. Nothing compares the
    delivered rows with the committed hash. -/
def Coordinator.transfer (winner : InFlight) : Option ResultSet :=
  match connOf c.accepted winner.worker with
  | some conn =>
    if net.transferInTime then
      (recvResult co.codec conn.uni winner.recv cfg.maxResultBytes cfg.maxResultParts).toOption
    else none
  | none => none

/-- The commit was made on provably the pinned inputs, or on an unpinned job. -/
def Coordinator.attributable (f : InFlight) : Bool :=
  match co.pinnedFingerprint with
  | some p => f.inputFingerprint = p
  | none => true

def Coordinator.loserVerdict (agreed : String) (f : InFlight) : Verdict :=
  if co.nonVerifiable cfg then .inconclusive
  else if f.hash = agreed then .correct
  else if co.attributable f then .incorrect
  else .inconclusive

/-- The winner committed the agreed hash; without a delivered result it earns nothing. -/
def Coordinator.winnerVerdict (delivered : Bool) : Verdict :=
  if co.nonVerifiable cfg then .inconclusive
  else if delivered then .correct
  else .inconclusive

def InFlight.receipt (f : InFlight) (verdict : Verdict) : Receipt :=
  ⟨f.worker, f.hash, verdict, f.latencyMs, f.inputFingerprint⟩

/-- Receipts for the workers that accepted the job and never committed. -/
def Coordinator.shortfallReceipts : List Receipt :=
  let fingerprint := co.pinnedFingerprint.getD ""
  c.silent.map (fun n => ⟨n, "", .timeout, 0, fingerprint⟩) ++
    c.failed.map fun f => ⟨f.1, "", f.2.1, 0, fingerprint⟩

/-- The end of an attempt that has a winner. -/
def Coordinator.conclude (agreed : String) (verified : Bool) (winner : InFlight)
    (losers : List InFlight) : AttemptReport :=
  let outcome := (co.fpOutcome cfg c).pinned
  let result := co.transfer cfg net c winner
  let committed := winner.receipt (co.winnerVerdict cfg result.isSome) ::
    losers.map fun f => f.receipt (co.loserVerdict cfg agreed f)
  let shortfall := if verified then co.shortfallReceipts c else []
  let receipts := committed ++ shortfall
  let faulted := (receipts.filter fun r => r.verdict.isProviderFault).map Receipt.worker
  let penalized := if F64.zero.lt co.providerPenalty then faulted else []
  let commitmentFailers := if verified then
      ((committed.filter fun r => r.verdict = .incorrect) ++
        (shortfall.filter fun r => r.verdict.isProviderFault)).map Receipt.worker
    else []
  let agreeing := if co.nonVerifiable cfg then [] else losers.filter fun f => f.hash = agreed
  let metered := ((bidByNode c.eligible winner.worker).bind MeteredTerms.fromBid).map fun terms =>
    ⟨terms, meteredBilledSeconds co.toleratedMedian winner.latencyMs
      (winner.latencyMs :: agreeing.map InFlight.latencyMs), job.estimatedInputBytes.getD 0⟩
  match result with
  | none =>
    { result := .ok (.inconclusive c.failedOrSilent), dispatched := c.selected
      autoBlocked := co.autoBlocked cfg job c.accepted, receipts := receipts
      penalized := penalized, commitmentFailers := commitmentFailers, settle := none, fined := [] }
  | some rs =>
    { result := .ok (.done
        { result := rs, agreedHash := some agreed, agreement := outcome.agreement
          quorum := outcome.quorum, verified := verified, winner := some winner.worker
          participants := c.inflight.map InFlight.worker, receipts := receipts
          executedLocally := false })
      dispatched := c.selected
      autoBlocked := co.autoBlocked cfg job c.accepted
      receipts := receipts
      penalized := penalized
      commitmentFailers := commitmentFailers
      settle := some ⟨winner.worker, agreeing.map InFlight.worker, agreed,
        co.pinnedFingerprint.getD "", metered⟩
      fined := if verified && job.paid && cfg.economicsEnabled && co.stakeOf.isSome then
        commitmentFailers else [] }

/-- Steps 5 to 7 on what was collected. -/
def Coordinator.judge : AttemptReport :=
  let stopped := AttemptReport.stopped c.selected (co.autoBlocked cfg job c.accepted)
  match co.decision cfg c with
  | .stop result withReceipts =>
    stopped result (if withReceipts then failureReceipts cfg c.inflight else [])
  | .agreed agreed verified =>
    match winnerIdx c.inflight agreed with
    | none => stopped (.inconclusive c.failedOrSilent) (failureReceipts cfg c.inflight)
    | some i =>
      match c.inflight[i]? with
      | none => stopped (.inconclusive c.failedOrSilent) []
      | some winner => co.conclude cfg job net c agreed verified winner (swapRemove c.inflight i)

/-! ## The attempt -/

/-- Why an attempt ends before it dispatches. -/
inductive Early where
  | result (r : AttemptResult) (autoBlocked : List NodeId)
  | insufficientEscrow (e : InsufficientEscrow) (autoBlocked : List NodeId)

/-- Steps 0 to 4: everything up to the collected answers. -/
def Coordinator.gather : Except Early Collection :=
  match co.resolution with
  | .unavailable reason => .error (.result (.infeasible (.inputUnavailable reason)) [])
  | _ =>
    let candidates := co.candidates cfg job net
    if candidates.isEmpty then .error (.result .noCandidates [])
    else
      let acc := accepted net candidates
      let el := co.eligible cfg job acc
      let sel := co.selected cfg el
      let blocked := co.autoBlocked cfg job acc
      if sel.length < cfg.scheduler.quorum then
        .error (.result (.insufficientWorkers sel.length cfg.scheduler.quorum) blocked)
      else match preflight cfg job el sel with
        | .error e => .error (.insufficientEscrow e blocked)
        | .ok () => .ok (Collection.of acc el sel (collected net sel))

def Coordinator.dispatchAttempt : AttemptReport :=
  match co.gather cfg job net with
  | .error (.result r blocked) => .early (.ok r) blocked
  | .error (.insufficientEscrow e blocked) => .early (.error e) blocked
  | .ok c => co.judge cfg job net c

end Duckton.Node
