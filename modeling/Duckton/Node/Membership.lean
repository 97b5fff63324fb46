/-
  The membership view (node/membership.rs) as the gossip handler feeds it
  (node/libp2p_discovery.rs, evaluate_ad).

  The table keeps one verified ad per node, the last one accepted. What it should keep is stated
  with a second table, `History`, that goes through the same steps and keeps every ad accepted for
  a node since it entered. Whether an ad is accepted depends on the ad and the time, never on the
  ads that are there: an older ad that has not expired yet takes the place of a newer one.
  `candidatesNewest_iff` says for which orders of arrival the candidates are nevertheless those of
  the newest ads.

  JSON decoding and the parsing of socket addresses are parameters. The order in which a hash map
  lists its values and the shuffle are any permutation. Capability profiles are left out: the
  candidates do not depend on them.
-/
import Duckton.Lib.FifoTable
import Duckton.Lib.Saturating
import Duckton.Node.Discovery
import Duckton.Trust.Capability

namespace Duckton.Node

open Duckton.Proto Duckton.Trust

/-! ## The table -/

/-- `MembershipTable::new` -/
structure MembershipConfig where
  capacity : Nat
  requiredPowBits : UInt32
  capabilityTtlSecs : UInt64
  capacity_pos : 1 ≤ capacity

def MembershipConfig.new (capacity : Nat) (requiredPowBits : UInt32)
    (capabilityTtlSecs : UInt64) : MembershipConfig :=
  ⟨max capacity 1, requiredPowBits, capabilityTtlSecs,
    FifoTable.one_le_max_one capacity⟩

/-- What the node's libraries compute. -/
structure GossipCodec where
  blake3 : Bytes → Bytes
  ed : Ed25519
  fromBytes : Bytes → Option CapabilityAd
  parseAddr : String → Option String

abbrev MembershipTable := FifoTable NodeId CapabilityAd

variable (codec : GossipCodec) (cfg : MembershipConfig)

namespace MembershipTable

def ingest (ad : CapabilityAd) (t : MembershipTable) : Bool × MembershipTable :=
  if !verifyCapabilityAd codec.blake3 codec.ed ad cfg.requiredPowBits then (false, t)
  else (true, t.put cfg.capacity ad.nodeId ad)

end MembershipTable

/-- `now.saturating_sub(ad.ts) <= ttl` -/
def fresh (ttlSecs : UInt64) (ad : CapabilityAd) (now : UInt64) : Bool :=
  decide (now.toNat - ad.ts.toNat ≤ ttlSecs.toNat)

/-! ## Gossip -/

inductive AdOutcome where
  | accepted
  | malformed
  | incompatibleVersion
  | expired
  | rejected
  deriving DecidableEq, Repr

/-- What `evaluate_ad` is called with besides the payload. -/
structure GossipLimits where
  ttlSecs : UInt64
  expectedMajor : UInt16

def futureSkewSecs : Nat := 60

variable (lim : GossipLimits)

def evaluateAd (data : Bytes) (now : UInt64) (t : MembershipTable) : AdOutcome × MembershipTable :=
  match codec.fromBytes data with
  | none => (.malformed, t)
  | some ad =>
    if ad.schemaVersion ≠ schemaVersion ∨ ad.protocolVersion.major ≠ lim.expectedMajor then
      (.incompatibleVersion, t)
    else if !fresh lim.ttlSecs ad now ∨
        Saturating.add 64 now.toNat futureSkewSecs < ad.ts.toNat then
      (.expired, t)
    else match t.ingest codec cfg ad with
      | (true, t) => (.accepted, t)
      | (false, t) => (.rejected, t)

/-! ## Candidates -/

/-- A candidate with its advertised level. -/
structure AdCandidate extends Candidate where
  advertisedLevel : AttestationLevel
  deriving DecidableEq, Repr

structure MemberFilter extends CandidateFilter where
  minAttestation : AttestationLevel

def candidateOf (ad : CapabilityAd) : Option AdCandidate :=
  (codec.parseAddr ad.addr).map fun addr =>
    { Candidate.new (some ad.nodeId) addr with
      idProvenance := .advertised
      advertisedLevel := ad.attestationLevel
      advertisedNetworks := ad.networks
      advertisedGroups := ad.groups
      advertisedRegion := ad.region }

namespace MembershipTable

/-- The stored ads. -/
def values (t : MembershipTable) : List CapabilityAd :=
  t.order.filterMap t.entries

def eligible (t : MembershipTable) (now : UInt64) (filter : MemberFilter) : List AdCandidate :=
  ((((t.values.filter fun ad => ad.enabled).filter fun ad =>
    fresh cfg.capabilityTtlSecs ad now).filter fun ad =>
      decide (filter.minAttestation.rank ≤ ad.attestationLevel.rank)).filterMap
        (candidateOf codec)).filter fun c => filter.admitsLabels c.toCandidate

/-- What `find_candidates` can return. -/
def Finds (t : MembershipTable) (now : UInt64)
    (want : Nat) (filter : MemberFilter) (found : List AdCandidate) : Prop :=
  ∃ shuffled : List AdCandidate, shuffled.Perm (t.eligible codec cfg now filter) ∧
    found = shuffled.take (min want cfg.capacity)

end MembershipTable

/-! ## Which ads are accepted -/

/-- The ad in a payload, if it is acceptable now. -/
def acceptable (data : Bytes) (now : UInt64) : Option CapabilityAd :=
  (codec.fromBytes data).filter fun ad =>
    decide (ad.schemaVersion = schemaVersion) &&
      decide (ad.protocolVersion.major = lim.expectedMajor) && fresh lim.ttlSecs ad now &&
      decide (ad.ts.toNat ≤ Saturating.add 64 now.toNat futureSkewSecs) &&
      verifyCapabilityAd codec.blake3 codec.ed ad cfg.requiredPowBits

section Evaluate

variable {codec : GossipCodec} {cfg : MembershipConfig} {lim : GossipLimits} {data : Bytes}
  {now : UInt64} {t : MembershipTable}

/-- An ad is accepted or not whatever the table holds. -/
theorem evaluateAd_spec :
    (∀ ad, acceptable codec cfg lim data now = some ad →
      evaluateAd codec cfg lim data now t = (.accepted, t.put cfg.capacity ad.nodeId ad)) ∧
    (acceptable codec cfg lim data now = none →
      (evaluateAd codec cfg lim data now t).1 ≠ .accepted ∧
        (evaluateAd codec cfg lim data now t).2 = t) := by
  unfold evaluateAd acceptable
  cases hdata : codec.fromBytes data with
  | none => simp
  | some ad =>
    simp only [Option.filter_some, MembershipTable.ingest]
    by_cases hschema : ad.schemaVersion = schemaVersion
    case neg => simp [hschema]
    by_cases hmajor : ad.protocolVersion.major = lim.expectedMajor
    case neg => simp [hmajor]
    cases hfresh : fresh lim.ttlSecs ad now
    case false => simp [hschema, hmajor]
    by_cases hskew : ad.ts.toNat ≤ Saturating.add 64 now.toNat futureSkewSecs
    case neg => simp [hschema, hmajor, hskew, Nat.lt_of_not_le hskew]
    cases hverify : verifyCapabilityAd codec.blake3 codec.ed ad cfg.requiredPowBits <;>
      simp [hschema, hmajor, hskew, Nat.not_lt_of_le hskew]

theorem acceptable_eq_some {ad : CapabilityAd}
    (h : acceptable codec cfg lim data now = some ad) :
    ad.ts.toNat ≤ now.toNat + futureSkewSecs ∧
      verifyCapabilityAd codec.blake3 codec.ed ad cfg.requiredPowBits = true := by
  obtain ⟨-, hacceptable⟩ := Option.filter_eq_some_iff.mp h
  simp only [Bool.and_eq_true, decide_eq_true_eq] at hacceptable
  obtain ⟨⟨-, hskew⟩, hverify⟩ := hacceptable
  exact ⟨hskew.trans (Saturating.add_le _ _ _), hverify⟩

end Evaluate

/-! ## What a query can be offered -/

/-- An ad that a query of some kind is offered at this time. -/
def offerable (ad : CapabilityAd) (now : UInt64) : Bool :=
  ad.enabled && fresh cfg.capabilityTtlSecs ad now && (codec.parseAddr ad.addr).isSome

section Offers

variable {codec : GossipCodec} {cfg : MembershipConfig} {t : MembershipTable} {now : UInt64}
  {ad : CapabilityAd}

theorem mem_values : ad ∈ t.values ↔ ∃ id, t.entries id = some ad := by
  unfold MembershipTable.values
  rw [List.mem_filterMap]
  constructor
  · rintro ⟨id, -, hid⟩
    exact ⟨id, hid⟩
  · rintro ⟨id, hid⟩
    exact ⟨id, (t.mem_order id).mpr (by rw [hid]; rfl), hid⟩

/-- A candidate is made of a stored ad that is offerable. -/
theorem origin_of_finds {want : Nat} {filter : MemberFilter} {found : List AdCandidate}
    (h : t.Finds codec cfg now want filter found) {c : AdCandidate} (hc : c ∈ found) :
    ∃ ad id, t.entries id = some ad ∧ candidateOf codec ad = some c ∧
      offerable codec cfg ad now = true := by
  obtain ⟨shuffled, hperm, rfl⟩ := h
  have hmem := hperm.mem_iff.mp (List.mem_of_mem_take hc)
  simp only [MembershipTable.eligible, List.mem_filter, List.mem_filterMap, mem_values] at hmem
  obtain ⟨⟨ad, ⟨⟨⟨⟨id, hid⟩, henabled⟩, hfresh⟩, -⟩, hcandidate⟩, -⟩ := hmem
  refine ⟨ad, id, hid, hcandidate, ?_⟩
  obtain ⟨addr, haddr, -⟩ := Option.map_eq_some_iff.mp hcandidate
  simp [offerable, henabled, hfresh, haddr]

end Offers

/-! ## The ads accepted for a node -/

/-- A payload and the time at which it is handed to `evaluate_ad`. -/
structure Gossip where
  data : Bytes
  now : UInt64

/-- The ads accepted for each node since it entered the table, in their order of arrival. -/
abbrev History := FifoTable NodeId (List CapabilityAd)

def History.of (h : History) (id : NodeId) : List CapabilityAd :=
  (h.entries id).getD []

structure Membership where
  table : MembershipTable
  history : History

def Membership.start : Membership := ⟨.empty, .empty⟩

/-- A payload goes to `evaluate_ad`; the history keeps what is accepted. -/
def Membership.step (s : Membership) (g : Gossip) : Membership where
  table := (evaluateAd codec cfg lim g.data g.now s.table).2
  history := match acceptable codec cfg lim g.data g.now with
    | none => s.history
    | some ad => s.history.put cfg.capacity ad.nodeId (s.history.of ad.nodeId ++ [ad])

/-- What is stored for a node is the newest ad accepted for it since it entered, and whatever is
    found at this time is made of a stored ad that is fresh. -/
structure CandidatesNewest (s : Membership) (now : UInt64) : Prop where
  stored : ∀ id ad, s.table.entries id = some ad →
    ad ∈ s.history.of id ∧ ∀ ad' ∈ s.history.of id, ad'.ts ≤ ad.ts
  found : ∀ want filter found, s.table.Finds codec cfg now want filter found → ∀ c ∈ found,
    ∃ ad, candidateOf codec ad = some c ∧ s.table.entries ad.nodeId = some ad ∧
      now.toNat ≤ ad.ts.toNat + cfg.capabilityTtlSecs.toNat ∧
      ad.ts.toNat ≤ now.toNat + futureSkewSecs ∧
      verifyCapabilityAd codec.blake3 codec.ed ad cfg.requiredPowBits = true

/-- If the payload is an ad that is accepted, then no newer ad has been accepted for its node since
    the node entered. -/
def NotOlder (s : Membership) (g : Gossip) : Prop :=
  ∀ ad, acceptable codec cfg lim g.data g.now = some ad →
    ∀ ad' ∈ s.history.of ad.nodeId, ad'.ts ≤ ad.ts

section Runs

variable {codec : GossipCodec} {cfg : MembershipConfig} {lim : GossipLimits}

variable {s : Membership} {ad : CapabilityAd}

theorem step_of_none {g : Gossip} (h : acceptable codec cfg lim g.data g.now = none) :
    s.step codec cfg lim g = s := by
  unfold Membership.step
  rw [h, (evaluateAd_spec.2 h).2]

theorem step_of_some {g : Gossip} (h : acceptable codec cfg lim g.data g.now = some ad) :
    s.step codec cfg lim g =
      ⟨s.table.put cfg.capacity ad.nodeId ad,
        s.history.put cfg.capacity ad.nodeId (s.history.of ad.nodeId ++ [ad])⟩ := by
  unfold Membership.step
  rw [h, evaluateAd_spec.1 ad h]

theorem order_final (codec : GossipCodec) (cfg : MembershipConfig) (lim : GossipLimits)
    (gs : List Gossip) :
    (Run.final (Membership.step codec cfg lim) .start gs).history.order =
      (Run.final (Membership.step codec cfg lim) .start gs).table.order := by
  refine (Run.always_of_invariant (P := fun s : Membership => s.history.order = s.table.order)
    (fun s g hs => ?_) rfl gs).last
  cases hg : acceptable codec cfg lim g.data g.now with
  | none => rwa [step_of_none hg]
  | some ad =>
    rw [step_of_some hg]
    rw [FifoTable.order_put cfg.capacity_pos, FifoTable.order_put cfg.capacity_pos, hs]

/-- A stored ad is the last one accepted for its node. -/
theorem stored_last {gs : List Gossip} {id : NodeId}
    (h : (Run.final (Membership.step codec cfg lim) .start gs).table.entries id = some ad) :
    ∃ before g after, gs = before ++ g :: after ∧
      acceptable codec cfg lim g.data g.now = some ad ∧ ad.nodeId = id ∧
      (Run.final (Membership.step codec cfg lim) .start gs).history.of id =
        (Run.final (Membership.step codec cfg lim) .start before).history.of id ++ [ad] := by
  induction gs using List.reverseRecOn with
  | nil => cases h
  | append_singleton gs g ih =>
    have horder := order_final codec cfg lim gs
    -- what was stored before is known from the run before
    have hearlier : (Run.final (Membership.step codec cfg lim) .start gs).table.entries id =
        some ad → ∃ before g' after, gs ++ [g] = before ++ g' :: after ∧
          acceptable codec cfg lim g'.data g'.now = some ad ∧ ad.nodeId = id ∧
          (Run.final (Membership.step codec cfg lim) .start gs).history.of id =
            (Run.final (Membership.step codec cfg lim) .start before).history.of id ++ [ad] := by
      intro hold
      obtain ⟨before, g', after, rfl, hg', hid, hof⟩ := ih hold
      exact ⟨before, g', after ++ [g], by simp, hg', hid, hof⟩
    rw [Run.final_append, Run.final_cons] at h ⊢
    cases hg : acceptable codec cfg lim g.data g.now with
    | none =>
      rw [step_of_none hg] at h ⊢
      exact hearlier h
    | some ad' =>
      rw [step_of_some hg] at h ⊢
      simp only [Run.final, List.foldl_nil, History.of, FifoTable.entries_put cfg.capacity_pos]
        at h hearlier horder ⊢
      by_cases hid : id = ad'.nodeId
      · subst hid
        rw [if_pos rfl, Option.some_inj] at h
        subst h
        exact ⟨gs, g, [], rfl, hg, rfl, by rw [if_pos rfl]; rfl⟩
      · rw [if_neg hid] at h ⊢
        rw [horder]
        by_cases hstays : id ∈ Window.enter cfg.capacity
            (List.foldl (Membership.step codec cfg lim) .start gs).table.order ad'.nodeId
        · rw [if_pos hstays] at h ⊢
          exact hearlier h
        · rw [if_neg hstays] at h
          cases h

/-- Along a run the table keeps, and the candidates come from, the newest ads if and only if no ad
    is accepted after a newer one of its node. -/
theorem candidatesNewest_iff (codec : GossipCodec) (cfg : MembershipConfig) (lim : GossipLimits)
    {gs : List Gossip} (hmono : gs.Pairwise fun g g' => g.now ≤ g'.now) :
    (∀ before after now, gs = before ++ after → (∀ g ∈ before, g.now ≤ now) →
      CandidatesNewest codec cfg (Run.final (Membership.step codec cfg lim) .start before) now) ↔
    Run.Guarded (Membership.step codec cfg lim) (NotOlder codec cfg lim) .start gs := by
  rw [Run.guarded_iff_split]
  constructor
  · rintro h before g after rfl ad hg ad' had'
    have hnow : ∀ g' ∈ before ++ [g], g'.now ≤ g.now := by
      intro g' hg'
      rcases List.mem_append.mp hg' with hbefore | hself
      · exact (List.pairwise_append.mp hmono).2.2 g' hbefore g List.mem_cons_self
      · rw [List.mem_singleton.mp hself]
        exact UInt64.le_refl _
    have hnewest := h (before ++ [g]) after g.now (by simp) hnow
    rw [Run.final_append, Run.final_cons, step_of_some hg] at hnewest
    -- the ad has just been stored
    refine (hnewest.stored ad.nodeId ad ?_).2 ad' ?_
    · exact (FifoTable.entries_put cfg.capacity_pos _ _ _ _).trans (if_pos rfl)
    · rw [Run.final, List.foldl_nil, History.of, FifoTable.entries_put cfg.capacity_pos, if_pos rfl]
      exact List.mem_append_left _ had'
  · rintro h before after now rfl hnow
    constructor
    · intro id ad hid
      obtain ⟨before', g, after', rfl, hg, rfl, hof⟩ := stored_last hid
      rw [hof]
      refine ⟨List.mem_append_right _ List.mem_cons_self, fun ad' had' => ?_⟩
      rcases List.mem_append.mp had' with hold | hself
      · exact h before' g (after' ++ after) (by simp) ad hg ad' hold
      · rw [List.mem_singleton.mp hself]
        exact UInt64.le_refl _
    · intro want filter found hfound c hc
      obtain ⟨ad, id, hid, hcandidate, hoffer⟩ := origin_of_finds hfound hc
      obtain ⟨before', g, after', rfl, hg, rfl, -⟩ := stored_last hid
      obtain ⟨hskew, hverify⟩ := acceptable_eq_some hg
      have hlater : g.now.toNat ≤ now.toNat :=
        hnow g (List.mem_append_right _ List.mem_cons_self)
      simp only [offerable, fresh, Bool.and_eq_true, decide_eq_true_eq] at hoffer
      exact ⟨ad, hcandidate, hid, by omega, by omega, hverify⟩

/-- Whatever is gossiped, the table holds under the id of its node what was gossiped and verifies,
    and a query gets no more candidates than it wants, each from such an ad that is still fresh. -/
theorem candidates_verified (gs : List Gossip) :
    let table := (Run.final (Membership.step codec cfg lim) .start gs).table
    (∀ id ad, table.entries id = some ad → ad.nodeId = id ∧
      verifyCapabilityAd codec.blake3 codec.ed ad cfg.requiredPowBits = true ∧
      ∃ g ∈ gs, acceptable codec cfg lim g.data g.now = some ad) ∧
    ∀ now want filter found, table.Finds codec cfg now want filter found →
      found.length ≤ want ∧ ∀ c ∈ found, ∃ ad, table.entries ad.nodeId = some ad ∧
        offerable codec cfg ad now = true ∧ candidateOf codec ad = some c := by
  refine ⟨fun id ad hid => ?_, fun now want filter found hfound => ⟨?_, fun c hc => ?_⟩⟩
  · obtain ⟨before, g, after, rfl, hg, hnode, -⟩ := stored_last hid
    exact ⟨hnode, (acceptable_eq_some hg).2, g, List.mem_append_right _ List.mem_cons_self, hg⟩
  · obtain ⟨shuffled, -, rfl⟩ := hfound
    exact (List.length_take_le _ _).trans (Nat.min_le_left _ _)
  · obtain ⟨ad, id, hid, hcandidate, hoffer⟩ := origin_of_finds hfound hc
    obtain ⟨-, -, -, -, -, rfl, -⟩ := stored_last hid
    exact ⟨ad, hid, hoffer, hcandidate⟩

end Runs

/-! ## A replayed ad -/

def demoDraft (ts : UInt8) : CapabilityDraft where
  addr := "10.0.0.1:4433"
  freeMemBytes := 0
  freeThreads := 1
  maxJobs := 1
  attestationLevel := .l0
  price := 0
  recentReceiptsRoot := none
  pow := ⟨0, 0⟩
  ts := ts.toUInt64
  enabled := true
  networks := []
  groups := []
  region := none

/-- An ad of one node. -/
def demoAd (ts : UInt8) : CapabilityAd :=
  signCapabilityAd (fun _ => []) plainEd25519 (demoDraft ts) memberKey

/-- A payload is the time stamp of the ad in it. -/
def demoCodec : GossipCodec where
  blake3 _ := []
  ed := plainEd25519
  fromBytes data := data.head?.map demoAd
  parseAddr addr := some addr

def demoConfig : MembershipConfig := .new 16 0 60

def demoLimits : GossipLimits := ⟨60, 1⟩

theorem acceptable_demo {ts : UInt8} {now : UInt64}
    (hfresh : fresh 60 (demoAd ts) now = true)
    (hpast : ts.toUInt64 ≤ now) :
    acceptable demoCodec demoConfig demoLimits [ts] now = some (demoAd ts) := by
  have hskew : (demoAd ts).ts.toNat ≤ Saturating.add 64 now.toNat futureSkewSecs := by
    have hle : (demoAd ts).ts.toNat ≤ now.toNat := hpast
    have hlt := now.toNat_lt
    unfold Saturating.add
    omega
  have hverify : verifyCapabilityAd (fun _ => []) plainEd25519 (demoAd ts) 0 = true :=
    verifyCapabilityAd_sign plainEd25519_correct (by simp [verifyPow])
  refine Option.filter_eq_some_iff.mpr ⟨rfl, ?_⟩
  simp only [Bool.and_eq_true, decide_eq_true_eq]
  exact ⟨⟨⟨⟨rfl, rfl⟩, hfresh⟩, hskew⟩, hverify⟩

/-- Two ads in the order of their times: the second one is offered. -/
theorem refreshed_ad_newest :
    CandidatesNewest demoCodec demoConfig
      (Run.final (Membership.step demoCodec demoConfig demoLimits) .start
        [⟨[90], 100⟩, ⟨[100], 100⟩]) 100 := by
  have hfirst : acceptable demoCodec demoConfig demoLimits [90] 100 = some (demoAd 90) :=
    acceptable_demo (by decide) (by decide)
  have hsecond : acceptable demoCodec demoConfig demoLimits [100] 100 = some (demoAd 100) :=
    acceptable_demo (by decide) (by decide)
  have hmono : [(⟨[90], 100⟩ : Gossip), ⟨[100], 100⟩].Pairwise fun g g' => g.now ≤ g'.now := by
    decide
  refine (candidatesNewest_iff demoCodec demoConfig demoLimits hmono).mpr ?_ _ [] 100 rfl
    (by decide)
  refine ⟨fun ad _ ad' had' => absurd had' List.not_mem_nil, ?_, trivial⟩
  intro ad had ad' had'
  obtain rfl := Option.some_inj.mp (hsecond.symm.trans had)
  rw [step_of_some (g := ⟨[90], 100⟩) hfirst] at had'
  have hmem : ad' ∈ [demoAd 90] := had'
  rw [List.mem_singleton.mp hmem]
  decide

/-- An ad of time 90 arrives after one of time 100, both at time 100: the older one is then stored,
    and a query is offered it. -/
theorem replayed_ad_replaces_newer :
    let s := Run.final (Membership.step demoCodec demoConfig demoLimits) .start
      [⟨[100], 100⟩, ⟨[90], 100⟩]
    ¬CandidatesNewest demoCodec demoConfig s 100 ∧ ∃ c, candidateOf demoCodec (demoAd 90) = some c ∧
      s.table.Finds demoCodec demoConfig 100 1 ⟨⟨none, [], [], false, []⟩, .l0⟩ [c] := by
  have hnew : acceptable demoCodec demoConfig demoLimits [100] 100 = some (demoAd 100) :=
    acceptable_demo (by decide) (by decide)
  have hold : acceptable demoCodec demoConfig demoLimits [90] 100 = some (demoAd 90) :=
    acceptable_demo (by decide) (by decide)
  rw [Run.final_cons, step_of_some (g := ⟨[100], 100⟩) hnew, Run.final_cons,
    step_of_some (g := ⟨[90], 100⟩) hold]
  refine ⟨fun h => ?_, _, rfl, _, .rfl, rfl⟩
  have hstored := h.stored (demoAd 90).nodeId (demoAd 90)
    ((FifoTable.entries_put demoConfig.capacity_pos _ _ _ _).trans (if_pos rfl))
  exact absurd (hstored.2 (demoAd 100) (by decide)) (by decide)

end Duckton.Node
