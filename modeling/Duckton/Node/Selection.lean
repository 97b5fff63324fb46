/-
  Who an attempt talks to.

  Discovery returns addresses, some with a node id and some without. A connection pins the id if
  one is known and learns it otherwise, so the checks before the dial see advertised ids and
  everything after it sees authenticated ones. Two consequences are settled here: how many
  distinct nodes stand behind a quorum, and which peers a Dispatch can reach although they are
  blocked, excluded or convicted.
-/
import Duckton.Node.Verification

namespace Duckton.Node

open Duckton.Proto Duckton.Trust

/-! ## The nodes behind a quorum -/

/-- The workers that committed `h`, one entry per commit. -/
def Collection.committers (c : Collection) (h : String) : List NodeId :=
  (c.inflight.filter fun f => f.hash = h).map InFlight.worker

/-- The same discovery, handshakes and bids, with other behaviour after the Dispatch. -/
def Network.answering (net : Network) (frames : Nat → List Wire) (inTime : Bool) : Network :=
  { net with frames := frames, transferInTime := inTime }

/-- A verified attempt has a quorum of pairwise distinct nodes. -/
def Coordinator.QuorumIsDistinct (co : Coordinator) (cfg : GridConfig) (job : Job)
    (net : Network) : Prop :=
  ∀ c, co.gather cfg job net = .ok c →
    ∀ o ∈ (co.dispatchAttempt cfg job net).outcome, o.verified = true →
      ∃ h, o.agreedHash = some h ∧ cfg.scheduler.quorum ≤ (c.committers h).dedup.length

theorem committers_length (c : Collection) (h : String) :
    (c.committers h).length = c.hashes.count h := by
  unfold Collection.committers Collection.hashes
  rw [List.length_map, ← List.countP_eq_length_filter, List.count, List.countP_map]
  refine List.countP_congr fun f _ => ?_
  simp

variable {co : Coordinator} {cfg : GridConfig} {votes : Finset Nat} {sel : List Scored}

theorem committers_sublist_selected {job : Job} {net : Network} {c : Collection}
    (hg : co.gather cfg job net = .ok c) (h : String) :
    (c.committers h).Sublist c.selected := by
  obtain ⟨_, _, _, _, rfl⟩ := gather_eq_ok_iff.mp hg
  exact (List.filter_sublist.map InFlight.worker).trans (inflight_workers_sublist _ _ _ _)

/-- Distinct selected workers make distinct votes, and a single vote needs nothing. -/
theorem quorumIsDistinct_of_nodup {job : Job} {net : Network} (hcanary : co.canaryExpected = none)
    (hq : 1 ≤ cfg.scheduler.quorum) (hmode : cfg.scheduler.verifyMode = .quorum)
    (h : co.nonVerifiable cfg = true ∨ cfg.scheduler.quorum = 1 ∨
      ∀ c, co.gather cfg job net = .ok c → c.selected.Nodup) :
    co.QuorumIsDistinct cfg job net := by
  intro c hg o ho hver
  obtain ⟨c', agreed, w, hg', hd, _, _, hag⟩ := dispatchAttempt_done ho
  rw [hg, Except.ok.injEq] at hg'
  subst hg'
  cases hnv : co.nonVerifiable cfg with
  | true =>
    have hfalse := decision_not_verified hcanary hnv hd
    rw [hver] at hfalse
    cases hfalse
  | false =>
    have hreached : cfg.scheduler.quorum ≤ c.hashes.count agreed :=
      agreed_reached hcanary hq hmode hnv hd
    rw [← committers_length] at hreached
    refine ⟨agreed, hag, ?_⟩
    rcases h with h | h | h
    · rw [hnv] at h
      cases h
    · have hpos : 0 < (c.committers agreed).length := by omega
      obtain ⟨n, hn⟩ := List.exists_mem_of_length_pos hpos
      have hmem : n ∈ (c.committers agreed).dedup := List.mem_dedup.mpr hn
      have := List.length_pos_of_mem hmem
      omega
    · have hnodup : (c.committers agreed).Nodup :=
        (h c hg).sublist (committers_sublist_selected hg agreed)
      rw [hnodup.dedup]
      exact hreached

/-! ### Colluding streams -/

/-- The Dispatches numbered in `votes` are answered with a commit of `h` and then `control`, the
    others not at all. -/
def colludingFrames (votes : Finset Nat) (h : String) (control : List Wire) (i : Nat) : List Wire :=
  if i ∈ votes then .commit ⟨h, 0, ""⟩ :: control else []

theorem inflight_colluding (acc : List (Conn × Bid)) (el : List Eligible) (net : Network)
    (sel : List Scored) (votes : Finset Nat) (h : String) (control : List Wire) :
    (Collection.of acc el sel
      (collected (net.answering (colludingFrames votes h control) true) sel)).inflight =
      (sel.zipIdx.filter fun p => p.2 ∈ votes).map
        fun p => ⟨p.1.worker, control, h, 0, ""⟩ := by
  unfold Collection.of collected Network.answering
  dsimp only
  generalize sel.zipIdx = l
  induction l with
  | nil => rfl
  | cons p rest ih =>
    rw [List.map_cons, List.filterMap_cons, ih]
    unfold colludingFrames
    by_cases hv : p.2 ∈ votes
    · rw [if_pos hv, List.filter_cons_of_pos (by simpa using hv), List.map_cons]
      rfl
    · rw [if_neg hv, List.filter_cons_of_neg (by simpa using hv)]
      rfl

theorem votes_length {n : Nat} (h : votes ⊆ Finset.range n) (sel : List Scored)
    (hn : sel.length = n) :
    (sel.zipIdx.filter fun p => p.2 ∈ votes).length = votes.card := by
  have hmap : ((sel.zipIdx.filter fun p => p.2 ∈ votes).map Prod.snd) =
      (List.range n).filter (· ∈ votes) := by
    rw [← hn, List.range_eq_range', ← List.zipIdx_map_snd 0 sel, List.filter_map]
    rfl
  have hset : ((List.range n).filter (· ∈ votes)).toFinset = votes := by
    ext i
    rw [List.mem_toFinset, List.mem_filter, List.mem_range, decide_eq_true_iff]
    exact ⟨fun hi => hi.2, fun hi => ⟨Finset.mem_range.mp (h hi), hi⟩⟩
  rw [← List.length_map Prod.snd, hmap,
    ← List.toFinset_card_of_nodup (List.nodup_range.filter _), hset]

/-- Two votes of one worker are counted twice. -/
theorem votes_not_nodup {i j : Nat} (hij : i ≠ j) (hi : i ∈ votes) (hj : j ∈ votes) {s t : Scored}
    (hs : sel[i]? = some s) (ht : sel[j]? = some t) (hst : s.worker = t.worker) :
    ¬ ((sel.zipIdx.filter fun p => p.2 ∈ votes).map fun p => p.1.worker).Nodup := by
  intro hnodup
  have hmem : ∀ {k u}, k ∈ votes → sel[k]? = some u →
      (u, k) ∈ sel.zipIdx.filter fun p => p.2 ∈ votes := by
    intro k u hk hu
    rw [List.mem_filter, List.mem_zipIdx_iff_getElem?, decide_eq_true_iff]
    exact ⟨hu, hk⟩
  have heq := List.inj_on_of_nodup_map hnodup (hmem hi hs) (hmem hj ht) hst
  exact hij (congrArg Prod.snd heq)

theorem exists_repeated (h : ¬ (sel.map Scored.worker).Nodup) :
    ∃ (i j : Nat) (s t : Scored), i ≠ j ∧ sel[i]? = some s ∧ sel[j]? = some t ∧
      s.worker = t.worker := by
  rw [List.nodup_iff_getElem?_ne_getElem?] at h
  push Not at h
  obtain ⟨i, j, hij, hj, heq⟩ := h
  rw [List.length_map] at hj
  have hi : i < sel.length := by omega
  rw [List.getElem?_map, List.getElem?_map, List.getElem?_eq_getElem hj,
    List.getElem?_eq_getElem hi] at heq
  exact ⟨i, j, sel[i], sel[j], by omega, List.getElem?_eq_getElem hi, List.getElem?_eq_getElem hj,
    Option.some.inj heq⟩

/-- Any two positions extend to a set of exactly `q` positions. -/
theorem exists_votes {n q i j : Nat} (hi : i < n) (hj : j < n) (hq : 2 ≤ q) (hn : q ≤ n) :
    ∃ votes : Finset Nat, i ∈ votes ∧ j ∈ votes ∧ votes ⊆ Finset.range n ∧ votes.card = q := by
  have hpair : ({i, j} : Finset Nat) ⊆ Finset.range n := by
    simp [Finset.insert_subset_iff, hi, hj]
  have hsmall : ({i, j} : Finset Nat).card ≤ q := le_trans Finset.card_le_two hq
  have hlarge : q ≤ (Finset.range n).card := by rwa [Finset.card_range]
  obtain ⟨votes, hsub, hrange, hcard⟩ := Finset.exists_subsuperset_card_eq hpair hsmall hlarge
  refine ⟨votes, hsub (Finset.mem_insert_self i {j}), ?_, hrange, hcard⟩
  exact hsub (Finset.mem_insert_of_mem (Finset.mem_singleton_self j))

theorem dedup_length_lt {l : List NodeId} (h : ¬ l.Nodup) : l.dedup.length < l.length := by
  refine lt_of_le_of_ne (List.dedup_sublist l).length_le fun heq => h ?_
  rw [← (List.dedup_sublist l).eq_of_length heq]
  exact List.nodup_dedup l

section Colluding

variable {co : Coordinator} {cfg : GridConfig} {job : Job} {net : Network} {c : Collection}

theorem drifted_eq_zero (h : ∀ f ∈ c.inflight, f.inputFingerprint = "") :
    (co.fpOutcome cfg c).drifted = 0 := by
  unfold Coordinator.fpOutcome evaluateQuorumOnCommits Collection.commitKeys
  rw [List.length_eq_zero_iff, List.filter_eq_nil_iff]
  intro k hk
  obtain ⟨f, hf, rfl⟩ := List.mem_map.mp hk
  unfold CommitKey.drifts
  rw [h f hf]
  cases co.pinnedFingerprint <;> simp

/-- A unanimous quorum is agreed on as verified. -/
theorem decision_unanimous (hcanary : co.canaryExpected = none) (hq : 1 ≤ cfg.scheduler.quorum)
    (hmode : cfg.scheduler.verifyMode = .quorum) (hnv : co.nonVerifiable cfg = false) {h : String}
    (hall : ∀ f ∈ c.inflight, f.hash = h ∧ f.inputFingerprint = "")
    (hlen : cfg.scheduler.quorum ≤ c.inflight.length) : co.decision cfg c = .agreed h true := by
  have hdrift : (co.fpOutcome cfg c).drifted = 0 := drifted_eq_zero fun f hf => (hall f hf).2
  have hhashes : c.hashes = List.replicate c.inflight.length h := by
    rw [List.eq_replicate_iff]
    refine ⟨List.length_map _, fun k hk => ?_⟩
    obtain ⟨f, hf, rfl⟩ := List.mem_map.mp hk
    exact (hall f hf).1
  have hreached : c.Reached cfg h := by
    unfold Collection.Reached Reaches
    rw [hhashes, List.count_replicate_self]
    exact hlen
  have huniq : ∀ h', c.Reached cfg h' → h' = h := by
    intro h' hr'
    have hmem := mem_of_reaches hq hr'
    rw [hhashes] at hmem
    exact List.eq_of_mem_replicate hmem
  rw [decision_eq_agreed_iff hcanary, hnv, if_neg Bool.false_ne_true, hmode]
  refine ⟨hdrift, ?_, (pinned_agreed_iff hq hdrift).mpr ⟨hreached, huniq⟩, rfl⟩
  rw [fpOutcome_pinned co cfg c hdrift, Bool.eq_false_iff, Ne, evaluateQuorum_split_iff hq]
  rintro ⟨k, k', hne, hk, hk'⟩
  exact hne ((huniq k hk).trans (huniq k' hk').symm)

/-- `control` delivers a result whatever streams the connection carries besides. -/
def Coordinator.DeliversResult (co : Coordinator) (cfg : GridConfig) (control : List Wire) : Prop :=
  ∀ uni, ∃ rs, recvResult co.codec uni control cfg.maxResultBytes cfg.maxResultParts = .ok rs

theorem transfer_colluding {acc : List (Conn × Bid)} {w : InFlight}
    (hdel : co.DeliversResult cfg w.recv) (hin : net.transferInTime = true)
    (hacc : c.accepted = acc) {a : Conn × Bid} (ha : a ∈ acc) (hpeer : a.1.peer = w.worker) :
    ∃ rs, co.transfer cfg net c w = some rs := by
  obtain ⟨conn, hconn⟩ := connOf_isSome ha
  obtain ⟨rs, hrs⟩ := hdel conn.uni
  refine ⟨rs, ?_⟩
  unfold Coordinator.transfer
  rw [hacc, ← hpeer, hconn]
  dsimp only
  rw [if_pos hin, hrs]
  rfl

/-- Two Dispatches to one worker, a quorum of at least two, and streams that collude: that worker
    is counted twice. -/
theorem exists_colluding (hcanary : co.canaryExpected = none)
    (hmode : cfg.scheduler.verifyMode = .quorum) (hnv : co.nonVerifiable cfg = false)
    (hq : 2 ≤ cfg.scheduler.quorum) {control : List Wire} (hdel : co.DeliversResult cfg control)
    (hg : co.gather cfg job net = .ok c) (hdup : ¬ c.selected.Nodup) :
    ∃ frames, ¬ co.QuorumIsDistinct cfg job (net.answering frames true) := by
  obtain ⟨hres, hcand, hlen, hpre, rfl⟩ := gather_eq_ok_iff.mp hg
  obtain ⟨i, j, s, t, hij, hs, ht, hst⟩ := exists_repeated hdup
  have hil : i < (co.picked cfg job net).length := (List.getElem?_eq_some_iff.mp hs).1
  have hjl : j < (co.picked cfg job net).length := (List.getElem?_eq_some_iff.mp ht).1
  obtain ⟨votes, hi, hj, hrange, hcard⟩ := exists_votes hil hjl hq hlen
  refine ⟨colludingFrames votes "h" control, fun hdistinct => ?_⟩
  let net' := net.answering (colludingFrames votes "h" control) true
  let acc := accepted net (co.candidates cfg job net)
  let c' := Collection.of acc (co.eligible cfg job acc) (co.picked cfg job net)
    (collected net' (co.picked cfg job net))
  have hg' : co.gather cfg job net' = .ok c' :=
    gather_eq_ok_iff.mpr ⟨hres, hcand, hlen, hpre, rfl⟩
  have hin : c'.inflight = ((co.picked cfg job net).zipIdx.filter fun p => p.2 ∈ votes).map
      fun p => ⟨p.1.worker, control, "h", 0, ""⟩ := inflight_colluding _ _ _ _ _ _ _
  have hinlen : c'.inflight.length = cfg.scheduler.quorum := by
    rw [hin, List.length_map, votes_length hrange _ rfl, hcard]
  -- every collected commit is one of the colluding ones
  have hall : ∀ f ∈ c'.inflight, f.hash = "h" ∧ f.inputFingerprint = "" ∧ f.recv = control ∧
      ∃ a ∈ acc, a.1.peer = f.worker := by
    intro f hf
    rw [hin] at hf
    obtain ⟨p, hp, rfl⟩ := List.mem_map.mp hf
    have hp1 : p.1 ∈ co.picked cfg job net := List.fst_mem_of_mem_zipIdx (List.mem_of_mem_filter hp)
    exact ⟨rfl, rfl, rfl, mem_picked hp1⟩
  have hd : co.decision cfg c' = .agreed "h" true :=
    decision_unanimous hcanary (by omega) hmode hnv
      (fun f hf => ⟨(hall f hf).1, (hall f hf).2.1⟩) hinlen.ge
  obtain ⟨f, hf⟩ := List.exists_mem_of_length_pos (show 0 < c'.inflight.length by omega)
  obtain ⟨w, hw⟩ := exists_isWinner hf (hall f hf).1
  have hwmem : w ∈ c'.inflight := by
    obtain ⟨k, _, hk⟩ := hw
    exact List.mem_of_getElem? hk
  obtain ⟨_, _, hrecv, a, ha, hpeer⟩ := hall w hwmem
  obtain ⟨rs, hrs⟩ : ∃ rs, co.transfer cfg net' c' w = some rs :=
    transfer_colluding (hrecv ▸ hdel) rfl rfl ha hpeer
  obtain ⟨o, ho, _, hag, hver⟩ := dispatchAttempt_of_delivered hg' hd hw hrs
  obtain ⟨h, hh, hcount⟩ := hdistinct c' hg' o ho hver
  rw [hag, Option.some.injEq] at hh
  subst hh
  -- but one of its votes is a repetition
  have hcommitters : c'.committers "h" = ((co.picked cfg job net).zipIdx.filter
      fun p => p.2 ∈ votes).map fun p => p.1.worker := by
    unfold Collection.committers
    rw [List.filter_eq_self.mpr fun f hf => by simpa using (hall f hf).1, hin, List.map_map]
    rfl
  have hlt := dedup_length_lt (votes_not_nodup hij hi hj hs ht hst)
  rw [← hcommitters] at hlt
  have hle : (c'.committers "h").length = cfg.scheduler.quorum := by
    rw [hcommitters, List.length_map, votes_length hrange _ rfl, hcard]
  omega

theorem gather_answering {frames : Nat → List Wire} {inTime : Bool}
    (hg : co.gather cfg job (net.answering frames inTime) = .ok c) :
    ∃ c', co.gather cfg job net = .ok c' ∧ c'.selected = c.selected := by
  obtain ⟨hres, hcand, hlen, hpre, rfl⟩ := gather_eq_ok_iff.mp hg
  exact ⟨_, gather_eq_ok_iff.mpr ⟨hres, hcand, hlen, hpre, rfl⟩, rfl⟩

/-- In quorum mode, whatever the workers answer, a verified outcome stands on a quorum of distinct
    nodes exactly when no node is dispatched to twice, one commit is enough, or nothing is
    verified anyway. -/
theorem quorum_of_distinct_nodes_iff (hcanary : co.canaryExpected = none)
    (hmode : cfg.scheduler.verifyMode = .quorum) (hq : 1 ≤ cfg.scheduler.quorum)
    {control : List Wire} (hdel : co.DeliversResult cfg control) :
    (∀ frames inTime, co.QuorumIsDistinct cfg job (net.answering frames inTime)) ↔
      co.nonVerifiable cfg = true ∨ cfg.scheduler.quorum = 1 ∨
        ∀ c, co.gather cfg job net = .ok c → c.selected.Nodup := by
  constructor
  · intro h
    by_contra hnot
    push Not at hnot
    obtain ⟨hnv, hq1, c, hg, hdup⟩ := hnot
    have hnv' : co.nonVerifiable cfg = false := Bool.eq_false_iff.mpr hnv
    have hq2 : 2 ≤ cfg.scheduler.quorum := by omega
    obtain ⟨frames, hbad⟩ := exists_colluding hcanary hmode hnv' hq2 hdel hg hdup
    exact hbad (h frames true)
  · intro h frames inTime
    refine quorumIsDistinct_of_nodup hcanary hq hmode ?_
    rcases h with h | h | h
    · exact .inl h
    · exact .inr (.inl h)
    · refine .inr (.inr fun c hg => ?_)
      obtain ⟨c', hg', hsel⟩ := gather_answering hg
      rw [← hsel]
      exact h c' hg'

end Colluding

theorem plain_delivers (mode : VerifyMode) (replicas quorum : Nat) :
    plainCoordinator.DeliversResult (plainConfig mode replicas quorum)
      (inlineTransfer oneCellJson) := by
  intro uni
  exact ⟨oneCell 2, rfl⟩

theorem two_nodes_make_a_quorum :
    1 ≤ (plainConfig .quorum 2 2).scheduler.quorum ∧
      ∀ frames inTime, plainCoordinator.QuorumIsDistinct (plainConfig .quorum 2 2) plainJob
        (agreeingNetwork.answering frames inTime) := by
  refine ⟨by decide, (quorum_of_distinct_nodes_iff rfl rfl (by decide)
    (plain_delivers .quorum 2 2)).mpr (.inr (.inr fun c hg => ?_))⟩
  have hall : ∀ c ∈ (plainCoordinator.gather (plainConfig .quorum 2 2) plainJob
      agreeingNetwork).toOption, c.selected.Nodup := by
    decide
  refine hall c ?_
  rw [hg]
  rfl

/-- Two addresses without a node id lead to one node, which answers on both. -/
def doubleNetwork : Network :=
  plainNetwork [.new none "10.0.0.1:7070", .new none "10.0.0.2:7070"] [⟨"b3:a"⟩, ⟨"b3:a"⟩]
    [commitOf "y" 5 :: inlineTransfer oneCellJson, [commitOf "y" 9]]

theorem one_node_makes_a_quorum :
    ∃ c ∈ (plainCoordinator.gather (plainConfig .quorum 2 2) plainJob doubleNetwork).toOption,
      ∃ o ∈ (plainCoordinator.dispatchAttempt (plainConfig .quorum 2 2) plainJob
          doubleNetwork).outcome, o.verified = true ∧
        ∀ h ∈ o.agreedHash, (c.committers h).dedup.length < 2 := by
  decide

/-! ## Blocked, excluded and convicted peers -/

section Flagged

variable {co : Coordinator} {cfg : GridConfig} {job : Job} {net : Network}

/-- On the deny-list, excluded by an earlier attempt, or convicted by the liveness view, when the
    candidates are retained. -/
def Coordinator.isFlagged (co : Coordinator) (cfg : GridConfig) (job : Job) (id : NodeId) : Bool :=
  co.isBlocked cfg id || job.excluded.contains id || co.isConvicted id

theorem retainsKnown_not_flagged {id : NodeId} (h : co.retainsKnown cfg job id = true) :
    co.isFlagged cfg job id = false := by
  unfold Coordinator.retainsKnown at h
  unfold Coordinator.isFlagged
  simp only [Bool.and_eq_true, Bool.not_eq_true'] at h
  obtain ⟨⟨⟨⟨⟨hblocked, hexcluded⟩, _⟩, hconvicted⟩, _⟩, _⟩ := h
  rw [hblocked, hexcluded, hconvicted]
  rfl

theorem dispatched_eq {c : Collection} (hg : co.gather cfg job net = .ok c) :
    (co.dispatchAttempt cfg job net).dispatched = c.selected := by
  rw [dispatchAttempt_of_gather hg]
  rcases judge_cases co cfg job net c with ⟨_, _, hj, _⟩ | ⟨a, v, i, w, _, _, _, hj⟩
  · rw [hj]
    rfl
  · rw [hj]
    unfold Coordinator.conclude
    cases co.transfer cfg net c w <;> rfl

/-- Whoever is dispatched to authenticated on the dial of some retained candidate, accepted, and is
    trusted enough. -/
theorem mem_dispatched {p : NodeId} (hp : p ∈ (co.dispatchAttempt cfg job net).dispatched) :
    ∃ (i : Nat) (cand : Candidate) (conn : Conn) (bid : Bid),
      (co.candidates cfg job net)[i]? = some cand ∧
      connect (net.dial i) cand.nodeId = some conn ∧ conn.peer = p ∧
      net.bid i = some bid ∧ bid.decision = .accept ∧
      (co.effectiveTrust p).lt cfg.minTrust = false := by
  cases hg : co.gather cfg job net with
  | error e =>
    unfold Coordinator.dispatchAttempt at hp
    rw [hg] at hp
    cases e <;> cases hp
  | ok c =>
    rw [dispatched_eq hg] at hp
    obtain ⟨_, _, _, _, rfl⟩ := gather_eq_ok_iff.mp hg
    obtain ⟨s, hs, rfl⟩ := List.mem_map.mp hp
    obtain ⟨a, ha, hpeer⟩ := mem_picked hs
    obtain ⟨i, cand, hcand, hconn, hbid, haccept⟩ := mem_accepted ha
    exact ⟨i, cand, a.1, a.2, hcand, hconn, hpeer, hbid, haccept, picked_trust hs⟩

/-- A Dispatch goes to a flagged peer only if that peer answered the dial of a candidate whose id
    was unknown, while no stake gate is on and no target nodes are named. A candidate of known id
    is filtered by it and pinned to it. Whom the attempt itself puts on the deny-list after that may
    still get its Dispatch: what a peer has to clear there is the floor `min_trust`. -/
theorem flagged_dispatch_is_tofu {p : NodeId}
    (hp : p ∈ (co.dispatchAttempt cfg job net).dispatched) :
    (co.effectiveTrust p).lt cfg.minTrust = false ∧
    (co.isFlagged cfg job p = true → cfg.gatesOn = false ∧ job.nodes = [] ∧
      ∃ (i : Nat) (cand : Candidate) (conn : Conn) (bid : Bid),
        (co.candidates cfg job net)[i]? = some cand ∧ cand.nodeId = none ∧
        net.dial i = some conn ∧ conn.peer = p ∧
        net.bid i = some bid ∧ bid.decision = .accept) := by
  obtain ⟨i, cand, conn, bid, hcand, hconn, hpeer, hbid, haccept, htrust⟩ := mem_dispatched hp
  refine ⟨htrust, fun hflag => ?_⟩
  obtain ⟨hdial, hpin⟩ := connect_eq_some_iff.mp hconn
  have hretains : co.retains cfg job cand = true :=
    (List.mem_filter.mp (List.mem_of_getElem? hcand)).2
  unfold Coordinator.retains at hretains
  rw [Bool.and_eq_true, Bool.and_eq_true] at hretains
  obtain ⟨⟨hlabels, _⟩, hid⟩ := hretains
  cases hknown : cand.nodeId with
  | some id =>
    rw [hknown] at hid
    have hclean := retainsKnown_not_flagged hid
    rw [← hpin id hknown, hpeer, hflag] at hclean
    cases hclean
  | none =>
    rw [hknown] at hid
    refine ⟨?_, ?_, i, cand, conn, bid, hcand, hknown, hdial, hpeer, hbid, haccept⟩
    · simpa using hid
    · unfold CandidateFilter.admitsLabels CandidateFilter.admitsNode at hlabels
      rw [hknown] at hlabels
      simp only [Bool.or_false, Bool.and_eq_true, List.isEmpty_iff] at hlabels
      exact hlabels.1.1.1

end Flagged

/-- Deny-lists and convicts `b3:a`. -/
def wary : Coordinator :=
  { plainCoordinator with
    blocklist := some ["b3:a"]
    livenessExcluded := some fun id => id.id == "b3:a" }

/-- A retry that excludes `b3:a`. -/
def retryJob : Job :=
  { plainJob with excluded := [⟨"b3:a"⟩] }

/-- One address without a node id, behind which `b3:a` answers. -/
def maskedNetwork : Network :=
  plainNetwork [.new none "10.0.0.1:7070"] [⟨"b3:a"⟩] [[]]

theorem masked_peer_is_tofu :
    (plainConfig .quorum 1 1).gatesOn = false ∧ retryJob.nodes = [] ∧
      ∃ (i : Nat) (cand : Candidate) (conn : Conn) (bid : Bid),
        (wary.candidates (plainConfig .quorum 1 1) retryJob maskedNetwork)[i]? = some cand ∧
        cand.nodeId = none ∧ maskedNetwork.dial i = some conn ∧ conn.peer = ⟨"b3:a"⟩ ∧
        maskedNetwork.bid i = some bid ∧ bid.decision = .accept :=
  (flagged_dispatch_is_tofu (by decide)).2 (by decide)

/-- Flagged in every way, and dispatched to. -/
theorem masked_peer_dispatched :
    ⟨"b3:a"⟩ ∈ (wary.dispatchAttempt (plainConfig .quorum 1 1) retryJob maskedNetwork).dispatched ∧
      wary.isBlocked (plainConfig .quorum 1 1) ⟨"b3:a"⟩ = true ∧
      ⟨"b3:a"⟩ ∈ retryJob.excluded ∧ wary.isConvicted ⟨"b3:a"⟩ = true := by
  decide

end Duckton.Node
