/-
  Candidates and the request-scoping filter (node/discovery.rs).
-/
import Duckton.Proto.Messages

namespace Duckton.Node

open Duckton.Proto

/-- How a candidate's node id was learned. -/
inductive IdProvenance where
  | pinned
  | advertised
  | tofu
  deriving DecidableEq, Repr

def IdProvenance.isVerified : IdProvenance → Bool
  | .pinned | .advertised => true
  | .tofu => false

/-- A discovered worker; `nodeId = none` means that the id is learned on connect. -/
structure Candidate where
  nodeId : Option NodeId
  idProvenance : IdProvenance
  addr : String
  advertisedNetworks : List String
  advertisedGroups : List String
  advertisedRegion : Option String
  deriving DecidableEq, Repr

/-- `Candidate::new`: an explicit id is operator-pinned, no id is trust-on-first-use. -/
def Candidate.new (nodeId : Option NodeId) (addr : String) : Candidate where
  nodeId := nodeId
  idProvenance := if nodeId.isSome then .pinned else .tofu
  addr := addr
  advertisedNetworks := []
  advertisedGroups := []
  advertisedRegion := none

structure CandidateFilter where
  network : Option String
  groups : List String
  regions : List String
  failClosedLabels : Bool
  nodes : List NodeId
  deriving DecidableEq, Repr

variable (f : CandidateFilter) (c : Candidate)

/-- The target-node selector: a candidate without a known id is never a target. -/
def CandidateFilter.admitsNode : Bool :=
  f.nodes.isEmpty || match c.nodeId with
    | some id => f.nodes.contains id
    | none => false

/-- An unknown network is kept in public mode and dropped in private mode. -/
def CandidateFilter.admitsNetwork : Bool :=
  match f.network with
  | none => true
  | some net =>
    if c.advertisedNetworks.isEmpty then !f.failClosedLabels
    else c.advertisedNetworks.contains net

def CandidateFilter.admitsGroup : Bool :=
  if c.advertisedGroups.isEmpty then !(f.failClosedLabels && !f.groups.isEmpty)
  else c.advertisedGroups.any fun g => f.groups.contains g

/-- Region is always fail-closed. -/
def CandidateFilter.admitsRegion : Bool :=
  f.regions.isEmpty || match c.advertisedRegion with
    | some r => f.regions.contains r
    | none => false

def CandidateFilter.admitsLabels : Bool :=
  f.admitsNode c && f.admitsNetwork c && f.admitsGroup c && f.admitsRegion c

end Duckton.Node
