/-
  Does the re-dispatch loop come to an end?

  The scheduler's defaults bound nothing: unlimited retries, no wall clock, a bucket that refills.
  What is left is the loop's own progress. A retry after a stalled attempt has excluded a provider
  it had not excluded before; a retry after a resource consensus has done that or raised the
  capacity floor. Both can happen only so often when the identities are finitely many. A retry
  after input drift has done neither, so the loop ends exactly when the drift does.
-/
import Duckton.Lib.Loop
import Duckton.Node.Resilient

namespace Duckton.Node

open Duckton.Proto Duckton.Trust

/-! ## The loop, pass by pass -/

variable (policy : RetryPolicy) (cfg : GridConfig) (job : Job) (s : LoopState) (round : Round)

/-- One pass: an attempt and the body of the loop after it. -/
def RetryPolicy.pass : LoopStep :=
  policy.after round s
    (round.coordinator.dispatchAttempt cfg (job.inState s) round.network).result

def LoopStep.state : LoopStep → Option LoopState
  | .finished _ => none
  | .again s => some s

/-- The state the next pass starts in, if there is one. -/
def RetryPolicy.next : Option LoopState :=
  (policy.pass cfg job s round).state

/-- The state in which the loop makes pass `n`, counted from zero, if it gets there. -/
def RetryPolicy.stateAt (rounds : Nat → Round) (n : Nat) : Option LoopState :=
  Loop.after (policy.next cfg job) .initial (Loop.upTo rounds n)

/-- How the loop has ended, if the first `n` passes were enough. -/
def RetryPolicy.resultWithin
    (rounds : Nat → Round) (n : Nat) : Option (Except CoordinatorError QueryOutcome) :=
  (runResilient policy cfg job (Loop.upTo rounds n) .initial).result

section Passes

variable {policy : RetryPolicy} {cfg : GridConfig} {job : Job} {round : Round}
  {rounds : Nat → Round} {s s' : LoopState} {n : Nat}

theorem next_eq_some : policy.next cfg job s round = some s' ↔
    policy.pass cfg job s round = .again s' := by
  unfold RetryPolicy.next
  cases policy.pass cfg job s round <;> simp [LoopStep.state]

theorem next_eq_none : policy.next cfg job s round = none ↔
    ∃ r, policy.pass cfg job s round = .finished r := by
  unfold RetryPolicy.next
  cases policy.pass cfg job s round <;> simp [LoopStep.state]

variable {r : Except CoordinatorError QueryOutcome}

theorem result_of_finished (h : policy.pass cfg job s round = .finished r) (rest : List Round) :
    (runResilient policy cfg job (round :: rest) s).result = some r := by
  unfold RetryPolicy.pass at h
  simp only [runResilient, h]

theorem result_of_again (h : policy.pass cfg job s round = .again s') (rest : List Round) :
    (runResilient policy cfg job (round :: rest) s).result =
      (runResilient policy cfg job rest s').result := by
  unfold RetryPolicy.pass at h
  simp only [runResilient, h]

/-- Passes that all go round again hand their last state to the passes after them. -/
theorem result_append {before : List Round} (rest : List Round)
    (h : Loop.after (policy.next cfg job) s before = some s') :
    (runResilient policy cfg job (before ++ rest) s).result =
      (runResilient policy cfg job rest s').result := by
  induction before generalizing s with
  | nil =>
    rw [Loop.after_nil, Option.some.injEq] at h
    rw [h, List.nil_append]
  | cons round before ih =>
    rw [Loop.after_cons, Option.bind_eq_some_iff] at h
    obtain ⟨t, ht, hrest⟩ := h
    rw [List.cons_append, result_of_again (next_eq_some.mp ht)]
    exact ih hrest

theorem resultWithin_of_reached (h : policy.stateAt cfg job rounds n = some s) :
    policy.resultWithin cfg job rounds n = none := by
  have happend := result_append [] h
  rw [List.append_nil] at happend
  exact happend

/-- The pass that leaves the loop gives its result, however many inputs would have followed. -/
theorem resultWithin_of_finished {m : Nat} (h : policy.stateAt cfg job rounds n = some s)
    (hpass : policy.pass cfg job s (rounds n) = .finished r) (hlt : n < m) :
    policy.resultWithin cfg job rounds m = some r := by
  obtain ⟨rest, hrest⟩ := Loop.exists_upTo_eq rounds hlt
  unfold RetryPolicy.resultWithin
  rw [hrest, result_append _ h, result_of_finished hpass]

/-- The loop has ended within `n` passes exactly when it does not make pass `n`. -/
theorem resultWithin_eq_none_iff :
    policy.resultWithin cfg job rounds n = none ↔ policy.stateAt cfg job rounds n ≠ none := by
  cases h : policy.stateAt cfg job rounds n with
  | some s => simp [resultWithin_of_reached h]
  | none =>
    obtain ⟨m, hm, t, ht, hlast⟩ := Loop.exists_last h
    obtain ⟨r, hr⟩ := next_eq_none.mp hlast
    simp [resultWithin_of_finished ht hr hm]

end Passes

/-! ## What a pass learns -/

/-- The attempt's no-canary, pinned commits include one on other inputs: a dispatched worker
    reported a non-empty fingerprint that is not the pinned one. -/
def Round.Drifts (cfg : GridConfig) (job : Job) : Prop :=
  round.coordinator.canaryExpected = none ∧
    ∃ c pinned, round.coordinator.gather cfg job round.network = .ok c ∧
      round.coordinator.pinnedFingerprint = some pinned ∧
      ∃ f ∈ c.inflight, f.inputFingerprint ≠ "" ∧ f.inputFingerprint ≠ pinned

theorem drifted_pos_iff {co : Coordinator} {cfg : GridConfig} {c : Collection} :
    0 < (co.fpOutcome cfg c).drifted ↔ ∃ pinned, co.pinnedFingerprint = some pinned ∧
      ∃ f ∈ c.inflight, f.inputFingerprint ≠ "" ∧ f.inputFingerprint ≠ pinned := by
  unfold Coordinator.fpOutcome evaluateQuorumOnCommits Collection.commitKeys
  cases co.pinnedFingerprint with
  | none => simp [CommitKey.drifts]
  | some pinned => simp [CommitKey.drifts, List.length_pos_iff_exists_mem]

section Explains

variable {co : Coordinator} {cfg : GridConfig} {job : Job} {net : Network} {c : Collection}

theorem conclude_explains (agreed : String) (verified : Bool) (w : InFlight)
    (losers : List InFlight) :
    ∃ r, (co.conclude cfg job net c agreed verified w losers).result = .ok r ∧
      co.Explains cfg c r := by
  unfold Coordinator.conclude
  cases co.transfer cfg net c w with
  | none => exact ⟨_, rfl, rfl⟩
  | some rs => exact ⟨_, rfl, trivial⟩

theorem judge_explains (co : Coordinator) (cfg : GridConfig) (job : Job) (net : Network)
    (c : Collection) :
    ∃ r, (co.judge cfg job net c).result = .ok r ∧ co.Explains cfg c r := by
  rcases judge_cases co cfg job net c with ⟨r, receipts, hj, -, -, hr⟩ | ⟨a, v, i, w, -, -, -, hj⟩
  · exact ⟨r, by rw [hj]; rfl, hr⟩
  · rw [hj]
    exact conclude_explains a v w _

end Explains

variable {cfg : GridConfig} {round : Round} {s : LoopState} {policy : RetryPolicy}

/-- An attempt that could not dispatch ends the loop. -/
theorem pass_of_gather_error (policy : RetryPolicy) {job : Job} {e : Early}
    (hg : round.coordinator.gather cfg (job.inState s) round.network = .error e) :
    ∃ x, policy.pass cfg job s round = .finished (.error x) := by
  unfold RetryPolicy.pass Coordinator.dispatchAttempt
  rw [hg]
  unfold Coordinator.gather at hg
  split at hg
  · cases hg
    exact ⟨_, rfl⟩
  · dsimp only at hg
    split_ifs at hg
    · cases hg
      exact ⟨_, rfl⟩
    · cases hg
      exact ⟨_, rfl⟩
    · split at hg
      · cases hg
        exact ⟨_, rfl⟩
      · cases hg

variable {s' : LoopState}

theorem retry_again {giveUp : StopCause → CoordinatorError}
    (h : policy.retry round s giveUp = .again s') :
    s' = { s with retries := s.retries + 1 } := by
  unfold RetryPolicy.retry at h
  split_ifs at h
  rw [LoopStep.again.injEq] at h
  exact h.symm

/-- Everything a pass that goes round again has done: it excluded somebody new, or it excluded
    somebody new or raised the floor after a resource consensus, or its inputs drifted. -/
theorem pass_again {job : Job} {s' : LoopState} (h : policy.pass cfg job s round = .again s') :
    ∃ c, round.coordinator.gather cfg (job.inState s) round.network = .ok c ∧
      ((s'.excluded = exclude s.excluded c.failedOrSilent ∧
          s'.capacityFloor = s.capacityFloor ∧ ∃ n ∈ c.failedOrSilent, n ∉ s.excluded) ∨
       (s'.excluded = exclude s.excluded c.oomed ∧
          s'.capacityFloor = max s.capacityFloor c.maxTriedCapacity ∧
          ((∃ n ∈ c.oomed, n ∉ s.excluded) ∨ s.capacityFloor < c.maxTriedCapacity)) ∨
       (s'.excluded = s.excluded ∧ s'.capacityFloor = s.capacityFloor ∧
          round.Drifts cfg (job.inState s))) := by
  cases hg : round.coordinator.gather cfg (job.inState s) round.network with
  | error e =>
    obtain ⟨x, hx⟩ := pass_of_gather_error policy hg
    rw [hx] at h
    cases h
  | ok c =>
    refine ⟨c, rfl, ?_⟩
    obtain ⟨r, hr, hexplains⟩ :=
      judge_explains round.coordinator cfg (job.inState s) round.network c
    unfold RetryPolicy.pass at h
    rw [dispatchAttempt_of_gather hg, hr] at h
    cases r with
    | done o | infeasible reason | quorumDisagreement agreement quorum => cases h
    | noCandidates | insufficientWorkers available quorum => cases hexplains
    | inconclusive tried =>
      cases hexplains
      simp only [RetryPolicy.after, length_exclude_eq_iff] at h
      split_ifs at h with hguard
      rw [retry_again h]
      push Not at hguard
      exact .inl ⟨rfl, rfl, hguard⟩
    | resourceExceeded oomed maxTriedCapacity detail =>
      obtain ⟨rfl, rfl⟩ := hexplains
      simp only [RetryPolicy.after, length_exclude_eq_iff] at h
      split_ifs at h with hguard
      rw [retry_again h]
      refine .inr (.inl ⟨rfl, rfl, ?_⟩)
      by_contra hstuck
      push Not at hstuck
      exact hguard ⟨hstuck.1, Nat.max_eq_left hstuck.2⟩
    | inputDrift drifted committed =>
      obtain ⟨hcanary, hdrift⟩ := hexplains
      obtain ⟨pinned, hpinned, hcommit⟩ := drifted_pos_iff.mp hdrift
      rw [retry_again h]
      exact .inr (.inr ⟨rfl, rfl, hcanary, c, pinned, hg, hpinned, hcommit⟩)

/-! ## Finitely many identities -/

/-- Every peer that authenticates is one of `ids`. -/
def Round.PeersIn (round : Round) (ids : Finset NodeId) : Prop :=
  ∀ i conn, round.network.dial i = some conn → conn.peer ∈ ids

/-- Moreover it bids the free memory it always bids. -/
def Round.ProvidersIn (round : Round) (ids : Finset NodeId) (capacity : NodeId → Nat) : Prop :=
  round.PeersIn ids ∧ ∀ i conn bid, round.network.dial i = some conn →
    round.network.bid i = some bid → bid.freeMemBytes = capacity conn.peer

section Identities

variable {cfg : GridConfig} {job : Job} {round : Round} {ids : Finset NodeId}
  {capacity : NodeId → Nat} {c : Collection}

variable {n : NodeId} {p q : NodeId → Prop}

theorem Round.PeersIn.failedOrSilent (h : round.PeersIn ids)
    (hg : round.coordinator.gather cfg job round.network = .ok c) (hn : n ∈ c.failedOrSilent) :
    n ∈ ids := by
  obtain ⟨_, _, _, _, rfl⟩ := gather_eq_ok_iff.mp hg
  obtain ⟨s, hs, rfl⟩ := List.mem_map.mp (failedOrSilent_subset_selected hn)
  obtain ⟨a, ha, hworker⟩ := mem_picked hs
  obtain ⟨i, _, _, hconn, _⟩ := mem_accepted ha
  rw [← hworker]
  exact h i a.1 (connect_eq_some_iff.mp hconn).1

theorem oomed_subset_failedOrSilent (hn : n ∈ c.oomed) : n ∈ c.failedOrSilent := by
  obtain ⟨f, hf, rfl⟩ := List.mem_map.mp hn
  exact List.mem_append_left _ (List.mem_map_of_mem (List.mem_of_mem_filter hf))

theorem foldl_max_eq_or_mem (l : List Nat) (a : Nat) : l.foldl max a = a ∨ l.foldl max a ∈ l := by
  rw [List.foldl_max]
  cases h : l.max? with
  | none => exact .inl (Nat.max_self a)
  | some m =>
    rw [Option.getD_some]
    rcases max_choice a m with hmax | hmax
    · exact .inl hmax
    · exact .inr (hmax.symm ▸ List.max?_mem h)

/-- A capacity that was not enough is that of a worker that ran out of memory. -/
theorem Round.ProvidersIn.maxTriedCapacity (h : round.ProvidersIn ids capacity)
    (hg : round.coordinator.gather cfg job round.network = .ok c) (hpos : 0 < c.maxTriedCapacity) :
    ∃ n ∈ ids, c.maxTriedCapacity = capacity n := by
  have hmem := (foldl_max_eq_or_mem (c.oomed.map fun n =>
    ((bidByNode c.eligible n).map Bid.freeMemBytes).getD 0) 0).resolve_left (Nat.ne_of_gt hpos)
  obtain ⟨n, hn, hcap⟩ := List.mem_map.mp hmem
  refine ⟨n, h.1.failedOrSilent hg (oomed_subset_failedOrSilent hn), ?_⟩
  have hcap' : ((bidByNode c.eligible n).map Bid.freeMemBytes).getD 0 = c.maxTriedCapacity := hcap
  cases hbid : bidByNode c.eligible n with
  | none =>
    rw [hbid] at hcap'
    exact absurd hcap'.symm (Nat.ne_of_gt hpos)
  | some bid =>
    rw [hbid] at hcap'
    obtain ⟨_, _, _, _, rfl⟩ := gather_eq_ok_iff.mp hg
    obtain ⟨e, he, hworker, rfl⟩ := bidByNode_eq_some hbid
    obtain ⟨a, ha, hpeer, hbid'⟩ := mem_eligible he
    rw [← hcap', ← hworker, ← hpeer]
    show e.bid.freeMemBytes = _
    obtain ⟨i, _, _, hconn, hbidi, _⟩ := mem_accepted ha
    rw [← hbid']
    exact h.2 i a.1 a.2 (connect_eq_some_iff.mp hconn).1 hbidi

/-- What the loop can still use up: identities not yet excluded, and identities whose capacity
    is above the floor. -/
def LoopState.potential (s : LoopState) (ids : Finset NodeId) (capacity : NodeId → Nat) : Nat :=
  (ids.filter (· ∉ s.excluded)).card + (ids.filter (s.capacityFloor < capacity ·)).card

theorem card_filter_lt [DecidablePred p] [DecidablePred q] (hqp : ∀ n, q n → p n) (hid : n ∈ ids)
    (hp : p n) (hq : ¬ q n) :
    (ids.filter q).card < (ids.filter p).card := by
  have hsub : ids.filter q ⊆ ids.filter p := Finset.monotone_filter_right ids fun m _ => hqp m
  refine Finset.card_lt_card ((Finset.ssubset_iff_of_subset hsub).mpr ⟨n, ?_, ?_⟩)
  · exact Finset.mem_filter.mpr ⟨hid, hp⟩
  · simp [hq]

/-- Excluding more and raising the floor never adds potential, and each identity that drops out
    takes some away. -/
theorem potential_lt_of (hex : ∀ n ∈ s.excluded, n ∈ s'.excluded)
    (hfloor : s.capacityFloor ≤ s'.capacityFloor) (hid : n ∈ ids)
    (hout : (n ∉ s.excluded ∧ n ∈ s'.excluded) ∨
      (s.capacityFloor < capacity n ∧ capacity n ≤ s'.capacityFloor)) :
    s'.potential ids capacity < s.potential ids capacity := by
  have hexcluded : ∀ m, m ∉ s'.excluded → m ∉ s.excluded := fun m hm hmem => hm (hex m hmem)
  have habove : ∀ m, s'.capacityFloor < capacity m → s.capacityFloor < capacity m :=
    fun m hm => Nat.lt_of_le_of_lt hfloor hm
  rcases hout with ⟨hnew, hin⟩ | ⟨hlow, hhigh⟩
  · have hlt := card_filter_lt hexcluded hid hnew (not_not_intro hin)
    exact Nat.add_lt_add_of_lt_of_le hlt
      (Finset.card_le_card (Finset.monotone_filter_right ids fun m _ => habove m))
  · have hlt := card_filter_lt habove hid hlow (Nat.not_lt.mpr hhigh)
    exact Nat.add_lt_add_of_le_of_lt
      (Finset.card_le_card (Finset.monotone_filter_right ids fun m _ => hexcluded m)) hlt

/-- Without drift, a pass that goes round again has used something up. -/
theorem potential_lt (hids : round.ProvidersIn ids capacity)
    (hnext : policy.next cfg job s round = some s') (hdrift : ¬ round.Drifts cfg (job.inState s)) :
    s'.potential ids capacity < s.potential ids capacity := by
  obtain ⟨c, hg, hcases⟩ := pass_again (next_eq_some.mp hnext)
  rcases hcases with ⟨hex, hfloor, n, hn, hnew⟩ | ⟨hex, hfloor, hprogress⟩ | ⟨_, _, h⟩
  · refine potential_lt_of ?_ (Nat.le_of_eq hfloor.symm) (hids.1.failedOrSilent hg hn) (.inl ⟨hnew, ?_⟩)
    · exact fun m hm => hex ▸ mem_exclude.mpr (.inl hm)
    · exact hex ▸ mem_exclude.mpr (.inr hn)
  · have hmono : ∀ m ∈ s.excluded, m ∈ s'.excluded := fun m hm => hex ▸ mem_exclude.mpr (.inl hm)
    have hle : s.capacityFloor ≤ s'.capacityFloor := hfloor ▸ Nat.le_max_left _ _
    rcases hprogress with ⟨n, hn, hnew⟩ | hraised
    · have hid := hids.1.failedOrSilent hg (oomed_subset_failedOrSilent hn)
      exact potential_lt_of hmono hle hid (.inl ⟨hnew, hex ▸ mem_exclude.mpr (.inr hn)⟩)
    · obtain ⟨n, hid, hcap⟩ := hids.maxTriedCapacity hg (by omega)
      refine potential_lt_of hmono hle hid (.inr ⟨hcap ▸ hraised, ?_⟩)
      rw [hfloor, hcap]
      exact Nat.le_max_right _ _
  · exact absurd h hdrift

end Identities

/-! ## When the loop ends -/

/-- Whatever finitely many identities do and whatever bounds are configured, the loop ends exactly
    when, from some pass on, no pass it makes meets a drifting commit. -/
theorem loop_ends_iff_drift_stops (policy : RetryPolicy) (cfg : GridConfig) (job : Job)
    (rounds : Nat → Round) (ids : Finset NodeId) (capacity : NodeId → Nat)
    (hids : ∀ n, (rounds n).ProvidersIn ids capacity) :
    (∃ n, policy.resultWithin cfg job rounds n ≠ none) ↔
      ∃ k, ∀ n, k ≤ n → ∀ s, policy.stateAt cfg job rounds n = some s →
        ¬ (rounds n).Drifts cfg (job.inState s) := by
  have hleft : (∃ n, policy.resultWithin cfg job rounds n ≠ none) ↔
      ∃ n, policy.stateAt cfg job rounds n = none :=
    exists_congr fun n => not_iff_comm.mp resultWithin_eq_none_iff.symm
  rw [hleft]
  refine Loop.left_iff_idle_stops (fun s : LoopState => s.potential ids capacity)
    (fun s (round : Round) => round.Drifts cfg (job.inState s)) fun n s s' _ hdrift hnext => ?_
  exact potential_lt (hids n) hnext hdrift

/-- Two workers, of which one always reports another snapshot than the pinned one. -/
def flappingRound : Round where
  coordinator := { plainCoordinator with resolution := .pinned "v1" }
  network := plainNetwork
    [.new (some ⟨"b3:a"⟩) "10.0.0.1:7070", .new (some ⟨"b3:b"⟩) "10.0.0.2:7070"]
    [⟨"b3:a"⟩, ⟨"b3:b"⟩]
    [[.commit ⟨"x", 5, "v2"⟩], [.commit ⟨"y", 9, "v1"⟩]]
  elapsedMs := 0
  tokenGranted := true

/-- The same two workers on an unpinned job, both delivering. -/
def settledRound : Round where
  coordinator := plainCoordinator
  network := plainNetwork
    [.new (some ⟨"b3:a"⟩) "10.0.0.1:7070", .new (some ⟨"b3:b"⟩) "10.0.0.2:7070"]
    [⟨"b3:a"⟩, ⟨"b3:b"⟩]
    [commitOf "y" 5 :: inlineTransfer oneCellJson, [commitOf "y" 9]]
  elapsedMs := 0
  tokenGranted := true

theorem plain_peers_in {discovered : List Candidate} {frames : List (List Wire)} {a b : NodeId}
    {round : Round} (h : round.network = plainNetwork discovered [a, b] frames) :
    round.ProvidersIn {a, b} fun _ => 0 := by
  refine ⟨fun i conn hdial => ?_, fun i conn bid _ hbid => ?_⟩
  · rw [h] at hdial
    obtain ⟨p, hp, rfl⟩ := Option.map_eq_some_iff.mp hdial
    simpa using List.mem_of_getElem? hp
  · rw [h] at hbid
    rw [← Option.some.inj hbid]
    rfl

/-- A source that flaps once costs one pass. -/
theorem flapping_once_ends :
    ∃ n, (⟨0, 0⟩ : RetryPolicy).resultWithin (plainConfig .quorum 2 2) plainJob
      (fun n => if n = 0 then flappingRound else settledRound) n ≠ none := by
  refine (loop_ends_iff_drift_stops _ _ _ _ {⟨"b3:a"⟩, ⟨"b3:b"⟩} (fun _ => 0)
    fun n => ?_).mpr ⟨1, fun n hn s _ hdrift => ?_⟩
  · split_ifs <;> exact plain_peers_in rfl
  · rw [if_neg (by omega)] at hdrift
    obtain ⟨_, c, pinned, _, hpinned, _⟩ := hdrift
    cases hpinned

/-- A worker that keeps reporting another snapshot keeps the loop going: with unlimited retries, no
    wall clock and a token for every retry, no number of passes is enough. -/
theorem flapping_never_ends :
    flappingRound.ProvidersIn {⟨"b3:a"⟩, ⟨"b3:b"⟩} (fun _ => 0) ∧
    flappingRound.tokenGranted = true ∧
    ∀ n, (⟨0, 0⟩ : RetryPolicy).resultWithin (plainConfig .quorum 2 2) plainJob
      (fun _ => flappingRound) n = none := by
  refine ⟨plain_peers_in rfl, rfl, fun n => ?_⟩
  -- the loop excludes nobody and raises no floor, so every pass meets the same attempt
  have hreached : ∃ s, (⟨0, 0⟩ : RetryPolicy).stateAt (plainConfig .quorum 2 2) plainJob
      (fun _ => flappingRound) n = some s ∧ s.excluded = [] ∧ s.capacityFloor = 0 := by
    induction n with
    | zero => exact ⟨.initial, rfl, rfl, rfl⟩
    | succ n ih =>
      obtain ⟨s, hs, hex, hfloor⟩ := ih
      have hattempt : (flappingRound.coordinator.dispatchAttempt (plainConfig .quorum 2 2) plainJob
          flappingRound.network).result = .ok (.inputDrift 1 2) := by
        decide
      have hjob : plainJob.inState s = plainJob := by
        unfold Job.inState
        rw [hex, hfloor]
        rfl
      refine ⟨{ s with
        lastReason := .inputDrift (s.retries + 1) 1 2
        retries := s.retries + 1 }, ?_, hex, hfloor⟩
      unfold RetryPolicy.stateAt at hs ⊢
      rw [Loop.after_upTo_succ, hs, Option.bind_some, next_eq_some]
      unfold RetryPolicy.pass
      rw [hjob, hattempt]
      rfl
  obtain ⟨s, hs, _⟩ := hreached
  exact resultWithin_of_reached hs

end Duckton.Node
