/-
  How a host answers an offer (node/worker.rs: `make_bid` and the gates before it; the rate limiter
  of node/antiabuse.rs).

  The gates stand in a row, and the first that objects decides the reason of the rejection. Only the
  free-job limiter keeps a state. What the host reads elsewhere at that moment (the wall clock, its
  free resources, the current deny-list) comes in an `OfferReading`; serde_json, ed25519 and the
  hash from a key to a node id are parameters in `Grid`.
-/
import Duckton.Trust.Token

namespace Duckton.Node

open Duckton.Proto Duckton.Trust

/-! ## Offers and configuration -/

structure JobId where
  id : String
  deriving DecidableEq, Repr

inductive DataClass where
  | publicData
  | internal
  | sensitive
  deriving DecidableEq, Repr

structure Offer where
  jobId : JobId
  requesterId : NodeId
  costHintRows : Option Nat
  costHintBytes : Option Nat
  dataClass : DataClass
  nonce : UInt64
  network : Option String
  groups : List String
  regions : List String
  groupProof : Option String
  deriving DecidableEq, Repr

inductive GroupEnforcement where
  | soft
  | token
  deriving DecidableEq, Repr

inductive PricingModel where
  | fixed
  | metered
  deriving DecidableEq, Repr

structure PricingEconomics where
  model : PricingModel
  unitPrice : Nat
  ratePerSecond : Nat
  ratePerGb : Nat
  capMultiplier : Nat
  deriving DecidableEq, Repr

inductive PaymentPref where
  | free
  | paid
  | auto
  deriving DecidableEq, Repr

structure WorkerParams where
  perJobMemoryBytes : Nat
  perJobThreads : Nat
  spillToleranceBytes : Nat
  maxSpillBytes : Nat
  enabled : Bool
  networks : List String
  groups : List String
  region : Option String
  groupEnforcement : GroupEnforcement
  groupIssuers : List (String × String)
  regionToken : Option String
  pricing : PricingEconomics
  privateMode : Bool
  roster : List String
  dataClasses : List DataClass
  deriving DecidableEq, Repr

/-- Sliding windows per requester. -/
structure RateLimiter where
  maxPerWindow : Nat
  windowSecs : Nat
  capacity : Nat
  deriving DecidableEq, Repr

/-- `AntiAbuseRuntime` with the parts of the configuration that the gates read. -/
structure AntiAbuse where
  enabled : Bool
  blocklistWired : Bool
  costGateEnabled : Bool
  maxCostHintRows : Nat
  freeRateLimitEnabled : Bool
  prioritizePaid : Bool
  economicsEnabled : Bool
  defaultPayment : PaymentPref
  rateLimiter : Option RateLimiter
  deriving DecidableEq, Repr

structure FreeResources where
  memoryBytes : Nat
  threads : Nat
  freeJobs : Nat
  deriving DecidableEq, Repr

/-- The libraries. -/
structure Grid where
  ed : Ed25519
  parseToken : String → Option CapabilityToken
  nodeIdFromPubkey : Key32 → NodeId

structure Worker where
  grid : Grid
  params : WorkerParams
  servingBlock : Option String
  antiabuse : Option AntiAbuse
  attestation : Attestation
  attestationFor : UInt64 → Attestation

/-- What a host reads while it decides on an offer. -/
structure OfferReading where
  nowTs : UInt64
  free : FreeResources
  blocked : List String
  deriving DecidableEq, Repr

/-! ## The free-job limiter -/

structure RateInner where
  hits : List (NodeId × List Nat)
  order : List NodeId
  deriving DecidableEq, Repr

namespace RateLimiter

def new (maxPerWindow windowSecs capacity : Nat) : RateLimiter :=
  ⟨maxPerWindow, max windowSecs 1, max capacity 1⟩

/-- The oldest identities go until there is room for one more. -/
def evict (l : RateLimiter) (hits : List (NodeId × List Nat)) : List NodeId → RateInner
  | [] => ⟨hits, []⟩
  | id :: order =>
    if l.capacity ≤ (id :: order).length then evict l (hits.filter (·.1 ≠ id)) order
    else ⟨hits, id :: order⟩

/-- The record of `id`, made if there is none. -/
def track (l : RateLimiter) (inner : RateInner) (id : NodeId) : RateInner :=
  if inner.hits.any (·.1 = id) then inner
  else
    let kept := l.evict inner.hits inner.order
    ⟨kept.hits ++ [(id, [])], kept.order ++ [id]⟩

/-- An attempt over the limit is not recorded. -/
def checkAndRecord (l : RateLimiter) (inner : RateInner) (id : NodeId) (nowSecs : Nat) :
    Bool × RateInner :=
  let tracked := l.track inner id
  let queue := ((tracked.hits.find? (·.1 = id)).map (·.2)).getD []
  let recent := queue.dropWhile fun hit => l.windowSecs ≤ nowSecs - hit
  let allowed := decide (recent.length < l.maxPerWindow)
  let recent := if allowed then recent ++ [nowSecs] else recent
  (allowed, { tracked with
    hits := tracked.hits.map fun entry => if entry.1 = id then (id, recent) else entry })

end RateLimiter

/-! ## The gates -/

namespace Worker

variable (w : Worker) (r : OfferReading) (offer : Offer)

def rejectBid (reason : String) : Bid :=
  { decision := .reject reason
    etaMs := 0
    price := 0
    attestation := w.attestation
    freeMemBytes := r.free.memoryBytes
    regionProof := none
    ratePerSecond := 0
    ratePerGb := 0
    capSeconds := 0 }

/-- The proof must verify for one of the host's groups, and its holder be the requester. -/
def tokenProvesGroup : Bool :=
  match offer.groupProof.bind w.grid.parseToken with
  | none => false
  | some token => w.params.groups.any fun group =>
    match ((w.params.groupIssuers.find? (·.1 = group)).map (·.2)).bind decode32 with
    | none => false
    | some issuer =>
      match verifyGroupMembership w.grid.ed token issuer group r.nowTs with
      | .ok holder => decide (w.grid.nodeIdFromPubkey holder = offer.requesterId)
      | .error _ => false

def membershipReject : Option String :=
  let p := w.params
  let inNetwork := match offer.network with
    | none => true
    | some net => if p.networks = [] then net == "default" else p.networks.contains net
  let shares := match p.groupEnforcement with
    | .soft => offer.groups.any p.groups.contains
    | .token => w.tokenProvesGroup r offer
  let inRegion := match p.region with
    | some region => offer.regions.contains region
    | none => false
  if !p.enabled then some "host is on standby (draining)"
  else if p.privateMode && p.groups.isEmpty then
    some ("private mode: host declares no membership.groups (an ungrouped host " ++
      "must not serve in a closed grid)")
  else if p.privateMode && !p.roster.contains offer.requesterId.id then
    some "private mode: requester is not on the host roster (identity.allowlist)"
  else if !inNetwork then some "host is not in the requested network"
  else if !p.groups.isEmpty && !shares then some "requester shares none of the host's groups"
  else if !offer.regions.isEmpty && !inRegion then some "host region not in the requested set"
  else none

/-- `cost_gate_reason`; an offer comes without an estimate of the peak memory. -/
def costGateReason (maxCostHintRows : Nat) : Option Nat → Option String
  | none => none
  | some rows =>
    if 0 < maxCostHintRows ∧ maxCostHintRows < rows then
      some (s!"over budget: estimated {rows} rows exceeds the worker's max_cost_hint_rows " ++
        s!"({maxCostHintRows})")
    else none

/-- `resolve_payment(..).is_free()` -/
def isFree (rt : AntiAbuse) (dataClass : DataClass) : Bool :=
  !rt.economicsEnabled || match rt.defaultPayment with
    | .free => true
    | .paid => false
    | .auto => decide (dataClass = .publicData)

/-- The free-job limit, which paid jobs may bypass. -/
def rateReject (rt : AntiAbuse) (inner : RateInner) (r : OfferReading) (offer : Offer) :
    Option String × RateInner :=
  if rt.freeRateLimitEnabled && (isFree rt offer.dataClass || !rt.prioritizePaid) then
    match rt.rateLimiter with
    | none => (none, inner)
    | some limiter =>
      match limiter.checkAndRecord inner offer.requesterId r.nowTs.toNat with
      | (true, inner) => (none, inner)
      | (false, inner) => (some "free-job rate limit exceeded", inner)
  else (none, inner)

def antiabuseReject (inner : RateInner) (r : OfferReading) (offer : Offer) :
    Option String × RateInner :=
  match w.antiabuse with
  | none => (none, inner)
  | some rt =>
    if !rt.enabled then (none, inner)
    else if rt.blocklistWired && r.blocked.contains offer.requesterId.id then
      (some "requester is blocklisted", inner)
    else
      match if rt.costGateEnabled then costGateReason rt.maxCostHintRows offer.costHintRows
        else none with
      | some reason => (some reason, inner)
      | none => rateReject rt inner r offer

/-! ## The bid -/

/-- `COLD_START_THROUGHPUT_BPS` -/
def coldStartThroughputBps : Nat :=
  16 * 1024 * 1024

def effectiveRatePerSecond (p : PricingEconomics) : Nat :=
  if 0 < p.ratePerSecond then p.ratePerSecond else min (p.unitPrice * 10 ^ 9) (2 ^ 128 - 1)

/-- The rates, and the seconds after which the host gives up. -/
def meteredBidTerms : Nat × Nat × Nat :=
  let p := w.params.pricing
  if p.model = .metered ∧ 0 < effectiveRatePerSecond p then
    let ratePerSecond := min (effectiveRatePerSecond p) (2 ^ 64 - 1)
    let bytes := (offer.costHintBytes <|>
      offer.costHintRows.map fun rows => min (rows * 256) (2 ^ 64 - 1)).getD 0
    let estimatedSeconds :=
      max ((bytes + coldStartThroughputBps - 1) / coldStartThroughputBps) 1
    let capSeconds := max (min (estimatedSeconds * max p.capMultiplier 1) (2 ^ 64 - 1)) 1
    (ratePerSecond, p.ratePerGb, capSeconds)
  else (0, 0, 0)

/-- There is room for one more job of the configured size. -/
def hasRoom (free : FreeResources) : Bool :=
  decide (0 < free.freeJobs ∧ w.params.perJobMemoryBytes ≤ free.memoryBytes ∧
    w.params.perJobThreads ≤ free.threads)

/-- What is left once no gate objects. -/
def admissionBid : Bid :=
  if !w.params.dataClasses.contains offer.dataClass then w.rejectBid r "data class not served"
  else
    let terms := w.meteredBidTerms offer
    { decision := if w.hasRoom r.free then .accept else .reject "at capacity"
      etaMs := 10 + offer.costHintRows.getD 0 / 1000
      price := 0
      attestation := w.attestationFor offer.nonce
      freeMemBytes := r.free.memoryBytes
      regionProof := w.params.regionToken
      ratePerSecond := terms.1
      ratePerGb := terms.2.1
      capSeconds := terms.2.2 }

def makeBid (inner : RateInner) (r : OfferReading) (offer : Offer) : Bid × RateInner :=
  match w.servingBlock with
  | some reason => (w.rejectBid r reason, inner)
  | none =>
    match w.membershipReject r offer with
    | some reason => (w.rejectBid r reason, inner)
    | none =>
      match w.antiabuseReject inner r offer with
      | (some reason, inner) => (w.rejectBid r reason, inner)
      | (none, inner) => (w.admissionBid r offer, inner)

end Worker

end Duckton.Node
