/-
  Rerouting around a winner that does not deliver.

  The setting is a feasible job among providers that fail by omission only: whoever commits commits
  the right hash, and then delivers the right rows or nothing; explicit failures are neutral; and at
  least a quorum of honest providers can be reached that always commit and deliver. Then every
  attempt is done or inconclusive, and an inconclusive one is retried with whoever failed or fell
  silent excluded. A winner that committed and did not deliver is neither, so it is not excluded,
  and if nobody else failed either the loop gives up on the spot.
-/
import Duckton.Node.RunToEnd
import Duckton.Node.Verification

namespace Duckton.Node

open Duckton.Proto Duckton.Trust

/-! ## Faults by omission -/

/-- The answers of an attempt in which nobody does worse than not to answer. -/
structure OmitsOnly (co : Coordinator) (cfg : GridConfig) (net : Network) (c : Collection)
    (honest : Finset NodeId) (h : String) (rs : ResultSet) : Prop where
  commits : ∀ f ∈ c.inflight, f.hash = h
  pinned : ∀ f ∈ c.inflight, ∀ p ∈ co.pinnedFingerprint,
    f.inputFingerprint = "" ∨ f.inputFingerprint = p
  rows : ∀ f ∈ c.inflight, ∀ delivered ∈ co.transfer cfg net c f, delivered = rs
  neutral : ∀ f ∈ c.failed, f.2.1 = .inconclusive
  honestCommit : ∀ n ∈ c.failedOrSilent, n ∉ honest
  honestDeliver : ∀ f ∈ c.inflight, f.worker ∈ honest → co.transfer cfg net c f = some rs

/-- A pass of a feasible job: the inputs can be read, the bids are covered, the honest providers
    that are not excluded are among the eligible ones, and all answers are as above. -/
structure Round.Feasible (round : Round) (cfg : GridConfig) (job : Job) (honest : Finset NodeId)
    (h : String) (rs : ResultSet) : Prop where
  inputs : ∀ reason, round.coordinator.resolution ≠ .unavailable reason
  canary : ∀ e ∈ round.coordinator.canaryExpected, e = h
  funded : preflight cfg job
    (round.coordinator.eligible cfg job
      (accepted round.network (round.coordinator.candidates cfg job round.network)))
    (round.coordinator.picked cfg job round.network) = .ok ()
  reachable : ∀ p ∈ honest, p ∉ job.excluded →
    ∃ e ∈ round.coordinator.eligible cfg job
      (accepted round.network (round.coordinator.candidates cfg job round.network)), e.worker = p
  answers : ∀ c, round.coordinator.gather cfg job round.network = .ok c →
    OmitsOnly round.coordinator cfg round.network c honest h rs

/-- The commit the attempt downloads from delivers. -/
def Round.Delivers (round : Round) (cfg : GridConfig) (job : Job) : Prop :=
  ∃ c agreed verified, round.coordinator.gather cfg job round.network = .ok c ∧
    round.coordinator.decision cfg c = .agreed agreed verified ∧
    round.coordinator.Delivers cfg round.network c agreed

/-- `w` is the commit the attempt downloads from, and the transfer fails or times out. -/
def Round.LosesWinner (round : Round) (cfg : GridConfig) (job : Job) (w : InFlight) : Prop :=
  ∃ c agreed verified, round.coordinator.gather cfg job round.network = .ok c ∧
    round.coordinator.decision cfg c = .agreed agreed verified ∧ IsWinner c.inflight agreed w ∧
    round.coordinator.transfer cfg round.network c w = none

/-- `n` was dispatched to, and failed or fell silent. -/
def Round.Stalls (round : Round) (cfg : GridConfig) (job : Job) (n : NodeId) : Prop :=
  ∃ c, round.coordinator.gather cfg job round.network = .ok c ∧ n ∈ c.failedOrSilent

section Decision

variable {co : Coordinator} {cfg : GridConfig} {net : Network} {c : Collection}
  {honest : Finset NodeId} {h : String} {rs : ResultSet}

section

variable (ho : OmitsOnly co cfg net c honest h rs)

include ho

theorem OmitsOnly.drifted :
    (co.fpOutcome cfg c).drifted = 0 := by
  by_contra hne
  obtain ⟨p, hp, f, hf, hempty, hother⟩ := drifted_pos_iff.mp (Nat.pos_of_ne_zero hne)
  exact (ho.pinned f hf p hp).elim hempty hother

theorem OmitsOnly.eq_of_reached (hq : 1 ≤ cfg.scheduler.quorum) {h' : String}
    (hr : c.Reached cfg h') : h' = h := by
  obtain ⟨f, hf, rfl⟩ := List.mem_map.mp (mem_of_reaches hq hr)
  exact ho.commits f hf

theorem OmitsOnly.reached (hlen : cfg.scheduler.quorum ≤ c.inflight.length) : c.Reached cfg h := by
  have hall : ∀ b ∈ c.hashes, h = b := by
    intro b hb
    obtain ⟨f, hf, rfl⟩ := List.mem_map.mp hb
    exact (ho.commits f hf).symm
  have hcount : c.hashes.count h = c.hashes.length := List.count_eq_length.mpr hall
  have hlength : c.hashes.length = c.inflight.length := List.length_map _
  show cfg.scheduler.quorum ≤ c.hashes.count h
  rw [hcount, hlength]
  exact hlen

theorem OmitsOnly.no_consensus {v : Verdict} (hv : v ≠ .inconclusive) (need : Nat → Nat)
    (selected : Nat) :
    isJobConsensusFailure need (c.failed.countP fun f => f.2.1 = v) selected = false := by
  have hcount : (c.failed.countP fun f => decide (f.2.1 = v)) = 0 := by
    rw [List.countP_eq_zero]
    intro f hf hfv
    rw [decide_eq_true_iff] at hfv
    exact hv (hfv.symm.trans (ho.neutral f hf))
  unfold isJobConsensusFailure
  rw [hcount]
  simp

theorem OmitsOnly.decideFastest (v : Bool) :
    decideFastest c v = .agreed h v ∨
      Node.decideFastest c v = .stop (.inconclusive c.failedOrSilent) false := by
  unfold Node.decideFastest
  cases hf : fastest c.inflight with
  | none => exact .inr rfl
  | some f =>
    have hmem : f ∈ c.inflight := List.argmin_mem hf
    exact .inl (by rw [← ho.commits f hmem])

/-- Whatever the mode, the hash is `h` or the attempt is inconclusive. -/
theorem OmitsOnly.decision (hq : 1 ≤ cfg.scheduler.quorum)
    (hcanary : ∀ e ∈ co.canaryExpected, e = h) :
    (∃ v, co.decision cfg c = .agreed h v) ∨
      ∃ b, co.decision cfg c = .stop (.inconclusive c.failedOrSilent) b := by
  have hpinned := fpOutcome_pinned co cfg c ho.drifted
  unfold Coordinator.decision
  cases hc : co.canaryExpected with
  | some e => exact .inl ⟨true, by rw [hcanary e hc]⟩
  | none =>
    simp only [ho.drifted, Nat.lt_irrefl, if_false]
    split_ifs
    · exact (ho.decideFastest false).imp (⟨_, ·⟩) (⟨_, ·⟩)
    · cases cfg.scheduler.verifyMode with
      | fast => exact (ho.decideFastest _).imp (⟨_, ·⟩) (⟨_, ·⟩)
      | quorum =>
        unfold Coordinator.decideQuorum
        have hsplit : (co.fpOutcome cfg c).pinned.split = false := by
          rw [hpinned, Bool.eq_false_iff]
          intro hs
          obtain ⟨a, b, hne, ha, hb⟩ := (evaluateQuorum_split_iff hq).mp hs
          exact hne ((ho.eq_of_reached hq ha).trans (ho.eq_of_reached hq hb).symm)
        by_cases hlen : cfg.scheduler.quorum ≤ c.inflight.length
        · have hag : (co.fpOutcome cfg c).pinned.agreedHash = some h :=
            (pinned_agreed_iff hq ho.drifted).mpr ⟨ho.reached hlen, fun _ => ho.eq_of_reached hq⟩
          exact .inl ⟨true, by simp [hsplit, hag]⟩
        · have hag : (co.fpOutcome cfg c).pinned.agreedHash = none := by
            rw [Option.eq_none_iff_forall_ne_some]
            intro a ha
            have hr := ((pinned_agreed_iff hq ho.drifted).mp ha).1
            refine hlen (Nat.le_trans hr ?_)
            exact Nat.le_trans List.count_le_length (Nat.le_of_eq (List.length_map _))
          refine .inr ⟨false, ?_⟩
          simp [hsplit, hag, hlen, ho.no_consensus]

end

end Decision

/-! ## A pass of a feasible job -/

theorem Round.LosesWinner.not_delivers {round : Round} {cfg : GridConfig} {job : Job}
    {w : InFlight} (h : round.LosesWinner cfg job w) : ¬ round.Delivers cfg job := by
  obtain ⟨c, agreed, verified, hg, hd, hw, hnone⟩ := h
  rintro ⟨c', agreed', verified', hg', hd', w', hw', rows, hrows⟩
  rw [hg, Except.ok.injEq] at hg'
  rw [← hg', hd, Decision.agreed.injEq] at hd'
  rw [← hg', ← hd'.1] at hw'
  rw [← hg', ← hw.unique hw', hnone] at hrows
  cases hrows

section Pass

variable {round : Round} {cfg : GridConfig} {job : Job} {honest : Finset NodeId} {h : String}
  {rs : ResultSet} {c : Collection}

/-- Reachable honest providers in number get the job dispatched. -/
theorem Round.Feasible.gather (hf : round.Feasible cfg job honest h rs)
    (hq : 1 ≤ cfg.scheduler.quorum) (hreplicas : cfg.scheduler.quorum ≤ cfg.scheduler.replicas)
    (hcard : cfg.scheduler.quorum ≤ honest.card) (hfree : ∀ p ∈ honest, p ∉ job.excluded) :
    ∃ c, round.coordinator.gather cfg job round.network = .ok c := by
  have hcovered : honest.card ≤ (round.coordinator.eligible cfg job (accepted round.network
      (round.coordinator.candidates cfg job round.network))).length := by
    have hsub : honest ⊆ ((round.coordinator.eligible cfg job (accepted round.network
        (round.coordinator.candidates cfg job round.network))).map Eligible.worker).toFinset := by
      intro p hp
      obtain ⟨e, he, rfl⟩ := hf.reachable p hp (hfree p hp)
      exact List.mem_toFinset.mpr (List.mem_map_of_mem he)
    refine Nat.le_trans (Finset.card_le_card hsub) (Nat.le_trans (List.toFinset_card_le _) ?_)
    rw [List.length_map]
  refine ⟨_, gather_eq_ok_iff.mpr ⟨hf.inputs, ?_, ?_, hf.funded, rfl⟩⟩
  · intro hnone
    rw [hnone] at hcovered
    have hzero : honest.card ≤ 0 := hcovered
    omega
  · unfold Coordinator.picked Coordinator.selected
    rw [List.length_take, List.length_insertionSort, List.length_map]
    exact Nat.le_min.mpr ⟨hreplicas, Nat.le_trans hcard hcovered⟩

/-- An attempt that delivers is done with the right rows. -/
theorem Round.Feasible.done (hf : round.Feasible cfg job honest h rs)
    (hd : round.Delivers cfg job) :
    ∃ o, (round.coordinator.dispatchAttempt cfg job round.network).result = .ok (.done o) ∧
      o.result = rs := by
  obtain ⟨c, agreed, verified, hg, hdecision, w, hw, rows, hrows⟩ := hd
  obtain ⟨o, ho, hresult, _⟩ := dispatchAttempt_of_delivered hg hdecision hw hrows
  obtain ⟨i, _, hwi⟩ := hw
  refine ⟨o, outcome_eq_some_iff.mp ho, hresult.trans ?_⟩
  exact (hf.answers c hg).rows w (List.mem_of_getElem? hwi) rows hrows

/-- Any other attempt is inconclusive, and only whoever failed or fell silent has been tried. -/
theorem Round.Feasible.inconclusive (hf : round.Feasible cfg job honest h rs)
    (hq : 1 ≤ cfg.scheduler.quorum)
    (hg : round.coordinator.gather cfg job round.network = .ok c)
    (hnot : ¬ round.Delivers cfg job) :
    (round.coordinator.dispatchAttempt cfg job round.network).result =
      .ok (.inconclusive c.failedOrSilent) := by
  rw [dispatchAttempt_of_gather hg]
  unfold Coordinator.judge
  rcases (hf.answers c hg).decision hq hf.canary with ⟨v, hd⟩ | ⟨b, hd⟩
  · simp only [hd]
    split
    · rfl
    · rename_i i hi
      split
      · rfl
      · rename_i w hw
        unfold Coordinator.conclude
        cases ht : round.coordinator.transfer cfg round.network c w with
        | none => rfl
        | some rows => exact absurd ⟨c, h, v, hg, hd, w, ⟨i, hi, hw⟩, rows, ht⟩ hnot
  · simp only [hd]
    rfl

end Pass

/-! ## Runs of a feasible job -/

/-- Unlimited retries with a refilling budget, finitely many identities, and at least a quorum of
    honest providers; every pass the loop makes is one of a feasible job. -/
structure FeasibleRun (policy : RetryPolicy) (cfg : GridConfig) (job : Job) (rounds : Nat → Round)
    (ids honest : Finset NodeId) (h : String) (rs : ResultSet) : Prop where
  unlimited : policy.maxRetries = 0 ∧ policy.maxTotalDurationMs = 0
  budget : ∀ n, (rounds n).tokenGranted = true
  quorum : 1 ≤ cfg.scheduler.quorum ∧ cfg.scheduler.quorum ≤ cfg.scheduler.replicas
  enough : cfg.scheduler.quorum ≤ honest.card
  peers : ∀ n, (rounds n).PeersIn ids
  passes : ∀ n s, policy.stateAt cfg job rounds n = some s →
    (rounds n).Feasible cfg (job.inState s) honest h rs

section Runs

variable {policy : RetryPolicy} {cfg : GridConfig} {job : Job} {rounds : Nat → Round}
  {ids honest : Finset NodeId} {h : String} {rs : ResultSet} {n : Nat} {s : LoopState}

theorem stateAt_succ : policy.stateAt cfg job rounds (n + 1) =
    (policy.stateAt cfg job rounds n).bind fun t => policy.next cfg job t (rounds n) :=
  Loop.after_upTo_succ

section

variable (hr : FeasibleRun policy cfg job rounds ids honest h rs)

include hr

section

variable (hs : policy.stateAt cfg job rounds n = some s)

include hs

/-- Whoever always commits is never excluded. -/
theorem FeasibleRun.honest_not_excluded :
    ∀ p ∈ honest, p ∉ s.excluded := by
  induction n generalizing s with
  | zero =>
    have hinitial : LoopState.initial = s := Option.some.inj hs
    simp [← hinitial, LoopState.initial]
  | succ n ih =>
    rw [stateAt_succ, Option.bind_eq_some_iff] at hs
    obtain ⟨t, ht, hnext⟩ := hs
    obtain ⟨c, hg, hcases⟩ := pass_again (next_eq_some.mp hnext)
    have hcommit := ((hr.passes n t ht).answers c hg).honestCommit
    intro p hp hmem
    rcases hcases with ⟨hex, _⟩ | ⟨hex, _⟩ | ⟨hex, _⟩
    · rw [hex, mem_exclude] at hmem
      exact hmem.elim (ih ht p hp) fun hn => hcommit p hn hp
    · rw [hex, mem_exclude] at hmem
      exact hmem.elim (ih ht p hp) fun hn => hcommit p (oomed_subset_failedOrSilent hn) hp
    · rw [hex] at hmem
      exact ih ht p hp hmem

theorem FeasibleRun.gather :
    ∃ c, (rounds n).coordinator.gather cfg (job.inState s) (rounds n).network = .ok c :=
  (hr.passes n s hs).gather hr.quorum.1 hr.quorum.2 hr.enough (hr.honest_not_excluded hs)

theorem FeasibleRun.finishes (hd : (rounds n).Delivers cfg (job.inState s)) :
    ∃ o, policy.pass cfg job s (rounds n) = .finished (.ok o) ∧ o.result = rs := by
  obtain ⟨o, ho, hresult⟩ := (hr.passes n s hs).done hd
  refine ⟨o, ?_, hresult⟩
  unfold RetryPolicy.pass
  rw [ho]
  rfl

/-- Somebody new failed or fell silent: they are excluded, and the loop goes on. -/
theorem FeasibleRun.goes_on (hnot : ¬ (rounds n).Delivers cfg (job.inState s)) {p : NodeId}
    (hp : (rounds n).Stalls cfg (job.inState s) p) (hnew : p ∉ s.excluded) :
    ∃ s', policy.stateAt cfg job rounds (n + 1) = some s' ∧
      ∀ q, q ∈ s'.excluded ↔ q ∈ s.excluded ∨ (rounds n).Stalls cfg (job.inState s) q := by
  obtain ⟨c, hg, hpc⟩ := hp
  have hresult := (hr.passes n s hs).inconclusive hr.quorum.1 hg hnot
  have hguard : ¬ ∀ q ∈ c.failedOrSilent, q ∈ s.excluded := fun hall => hnew (hall p hpc)
  have hpass : policy.pass cfg job s (rounds n) = .again
      { s with
        excluded := exclude s.excluded c.failedOrSilent
        lastReason := .stalled (s.retries + 1) c.failedOrSilent.length
        retries := s.retries + 1 } := by
    unfold RetryPolicy.pass
    rw [hresult]
    simp only [RetryPolicy.after, length_exclude_eq_iff, if_neg hguard]
    simp [RetryPolicy.retry, hr.unlimited, hr.budget n]
  refine ⟨_, by rw [stateAt_succ, hs, Option.bind_some, next_eq_some.mpr hpass], fun q => ?_⟩
  show q ∈ exclude s.excluded c.failedOrSilent ↔ _
  rw [mem_exclude]
  refine or_congr_right ⟨fun hq => ⟨c, hg, hq⟩, ?_⟩
  rintro ⟨c', hg', hq⟩
  rw [hg, Except.ok.injEq] at hg'
  rw [hg']
  exact hq

/-- Nobody new failed: the loop gives up. -/
theorem FeasibleRun.gives_up (hnot : ¬ (rounds n).Delivers cfg (job.inState s))
    (hnone : ∀ p, (rounds n).Stalls cfg (job.inState s) p → p ∈ s.excluded) :
    ∃ tried, policy.pass cfg job s (rounds n) = .finished (.error
      (.exhausted (s.retries + 1) (.stalled (s.retries + 1) tried) .noProgress)) := by
  obtain ⟨c, hg⟩ := hr.gather hs
  have hall : ∀ p ∈ c.failedOrSilent, p ∈ s.excluded := fun p hp => hnone p ⟨c, hg, hp⟩
  refine ⟨c.failedOrSilent.length, ?_⟩
  unfold RetryPolicy.pass
  rw [(hr.passes n s hs).inconclusive hr.quorum.1 hg hnot]
  simp only [RetryPolicy.after, length_exclude_eq_iff, if_pos hall]

end

end

/-- No pass is made once there is a result. -/
theorem lt_of_resultWithin {r : Except CoordinatorError QueryOutcome} {m : Nat}
    (hm : policy.resultWithin cfg job rounds m = some r)
    (hs : policy.stateAt cfg job rounds n = some s) : n < m := by
  by_contra hle
  obtain ⟨t, ht⟩ := Loop.exists_before hs (Nat.le_of_not_lt hle)
  rw [resultWithin_of_reached ht] at hm
  cases hm

/-- As long as every attempt that does not deliver excludes somebody new, the identities run out
    and the job is delivered. -/
theorem FeasibleRun.delivers (hr : FeasibleRun policy cfg job rounds ids honest h rs)
    (hprogress : ∀ n s, policy.stateAt cfg job rounds n = some s →
      ¬ (rounds n).Delivers cfg (job.inState s) →
      ∃ p, (rounds n).Stalls cfg (job.inState s) p ∧ p ∉ s.excluded) :
    ∃ n o, policy.resultWithin cfg job rounds n = some (.ok o) ∧ o.result = rs := by
  have hleft : ∃ n, policy.stateAt cfg job rounds n = none := by
    refine Loop.exists_none_of_measure
      (fun s : LoopState => (ids.filter (· ∉ s.excluded)).card) (k := 0) fun n _ s s' hs hnext => ?_
    by_cases hd : (rounds n).Delivers cfg (job.inState s)
    · obtain ⟨o, hpass, _⟩ := hr.finishes hs hd
      rw [next_eq_some, hpass] at hnext
      cases hnext
    · obtain ⟨p, hp, hnew⟩ := hprogress n s hs hd
      obtain ⟨t, ht, hex⟩ := hr.goes_on hs hd hp hnew
      have hs' : policy.stateAt cfg job rounds n = some s := hs
      rw [stateAt_succ, hs', Option.bind_some, hnext, Option.some.injEq] at ht
      subst ht
      obtain ⟨c, hg, hpc⟩ := hp
      refine card_filter_lt (fun q hq hmem => hq ((hex q).mpr (.inl hmem)))
        ((hr.peers n).failedOrSilent hg hpc) hnew (not_not_intro ((hex p).mpr (.inr ?_)))
      exact ⟨c, hg, hpc⟩
  obtain ⟨n, hn⟩ := hleft
  obtain ⟨m, _, s, hs, hlast⟩ := Loop.exists_last hn
  by_cases hd : (rounds m).Delivers cfg (job.inState s)
  · obtain ⟨o, hpass, hresult⟩ := hr.finishes hs hd
    exact ⟨m + 1, o, resultWithin_of_finished hs hpass (Nat.lt_succ_self m), hresult⟩
  · obtain ⟨p, hp, hnew⟩ := hprogress m s hs hd
    obtain ⟨t, ht, _⟩ := hr.goes_on hs hd hp hnew
    have hs' : policy.stateAt cfg job rounds m = some s := hs
    rw [stateAt_succ, hs', Option.bind_some, hlast] at ht
    cases ht

/-- In a run of a feasible job, the job is delivered and every winner that is lost is excluded from
    the next attempt, exactly when in every attempt that does not deliver somebody who was not yet
    excluded failed or fell silent, and a lost winner is excluded already or is itself among those.
    A lost winner alone is not enough. -/
theorem lost_winner_rerouted_iff (hr : FeasibleRun policy cfg job rounds ids honest h rs) :
    ((∃ n o, policy.resultWithin cfg job rounds n = some (.ok o) ∧ o.result = rs) ∧
      ∀ n s w, policy.stateAt cfg job rounds n = some s →
        (rounds n).LosesWinner cfg (job.inState s) w →
        ∃ s', policy.stateAt cfg job rounds (n + 1) = some s' ∧ w.worker ∈ s'.excluded) ↔
    ∀ n s, policy.stateAt cfg job rounds n = some s →
      ¬ (rounds n).Delivers cfg (job.inState s) →
      (∃ p, (rounds n).Stalls cfg (job.inState s) p ∧ p ∉ s.excluded) ∧
        ∀ w, (rounds n).LosesWinner cfg (job.inState s) w →
          w.worker ∈ s.excluded ∨ (rounds n).Stalls cfg (job.inState s) w.worker := by
  constructor
  · rintro ⟨⟨m, o, hm, _⟩, hlost⟩ n s hs hnot
    have hnew : ∃ p, (rounds n).Stalls cfg (job.inState s) p ∧ p ∉ s.excluded := by
      by_contra hnone
      push Not at hnone
      obtain ⟨tried, hpass⟩ := hr.gives_up hs hnot hnone
      rw [resultWithin_of_finished hs hpass (lt_of_resultWithin hm hs)] at hm
      cases hm
    refine ⟨hnew, fun w hw => ?_⟩
    obtain ⟨p, hp, hpnew⟩ := hnew
    obtain ⟨s', hs', hex⟩ := hr.goes_on hs hnot hp hpnew
    obtain ⟨s'', hs'', hmem⟩ := hlost n s w hs hw
    rw [hs', Option.some.injEq] at hs''
    exact (hex w.worker).mp (hs'' ▸ hmem)
  · intro hprogress
    refine ⟨hr.delivers fun n s hs hnot => (hprogress n s hs hnot).1, fun n s w hs hw => ?_⟩
    obtain ⟨⟨p, hp, hnew⟩, hlost⟩ := hprogress n s hs hw.not_delivers
    obtain ⟨s', hs', hex⟩ := hr.goes_on hs hw.not_delivers hp hnew
    exact ⟨s', hs', (hex w.worker).mpr (hlost w hw)⟩

end Runs

/-! ## Two runs -/

/-- Workers that commit the hash of the same rows; those with a transfer also deliver them. -/
def plainRound (peers : List NodeId) (frames : List (List Wire)) : Round where
  coordinator := plainCoordinator
  network := plainNetwork (peers.map fun p => .new (some p) "10.0.0.1:7070") peers frames
  elapsedMs := 0
  tokenGranted := true

variable {peers : List NodeId} {frames : List (List Wire)}

theorem plainRound_peersIn {ids : Finset NodeId} (h : ∀ p ∈ peers, p ∈ ids) :
    (plainRound peers frames).PeersIn ids := by
  intro i conn hdial
  obtain ⟨p, hp, rfl⟩ := Option.map_eq_some_iff.mp hdial
  exact h p (List.mem_of_getElem? hp)

/-- A free job on such workers is feasible if their answers are, checked one by one. -/
theorem plainRound_feasible {cfg : GridConfig} {job : Job} {honest : Finset NodeId} {h : String}
    {rs : ResultSet} {net : Network} (hnet : (plainRound peers frames).network = net)
    (hpaid : job.paid = false) (hreachable : ∀ p ∈ honest, p ∉ job.excluded →
      ∃ e ∈ plainCoordinator.eligible cfg job
        (accepted net (plainCoordinator.candidates cfg job net)), e.worker = p)
    (hanswers : ∀ c ∈ (plainCoordinator.gather cfg job net).toOption,
      (∀ f ∈ c.inflight, f.hash = h ∧
        (∀ rows ∈ plainCoordinator.transfer cfg net c f, rows = rs) ∧
        (f.worker ∈ honest → plainCoordinator.transfer cfg net c f = some rs)) ∧
      (∀ f ∈ c.failed, f.2.1 = .inconclusive) ∧ ∀ n ∈ c.failedOrSilent, n ∉ honest) :
    (plainRound peers frames).Feasible cfg job honest h rs := by
  subst hnet
  refine ⟨fun reason => nofun, nofun, by simp [preflight, hpaid], hreachable, fun c hg => ?_⟩
  obtain ⟨hcommits, hfailed, hhonest⟩ := hanswers c (by
    show c ∈ ((plainRound peers frames).coordinator.gather cfg job _).toOption
    rw [hg]
    rfl)
  exact ⟨fun f hf => (hcommits f hf).1, fun f hf => nofun, fun f hf => (hcommits f hf).2.1,
    hfailed, hhonest, fun f hf => (hcommits f hf).2.2⟩

/-- The fastest of three workers commits and then sends nothing; the other two deliver. -/
def silentWinnerRound : Round :=
  plainRound [⟨"b3:a"⟩, ⟨"b3:b"⟩, ⟨"b3:c"⟩]
    [[commitOf "y" 1], commitOf "y" 5 :: inlineTransfer oneCellJson,
      commitOf "y" 9 :: inlineTransfer oneCellJson]

/-- What the coordinator makes of the round: the job is feasible in it, its winner does not deliver,
    and the loop gives up. -/
theorem silentWinner_round :
    silentWinnerRound.Feasible (plainConfig .quorum 3 2) plainJob {⟨"b3:b"⟩, ⟨"b3:c"⟩} "y"
      (oneCell 2) ∧
    (∃ w, silentWinnerRound.LosesWinner (plainConfig .quorum 3 2) plainJob w ∧
      w.worker = ⟨"b3:a"⟩) ∧
    (⟨0, 0⟩ : RetryPolicy).resultWithin (plainConfig .quorum 3 2) plainJob
      (fun _ => silentWinnerRound) 1 =
        some (.error (.exhausted 1 (.stalled 1 0) .noProgress)) := by
  refine ⟨plainRound_feasible rfl rfl (by decide) (by decide), ?_,
    by decide⟩
  obtain ⟨c, hc, hd, w, _, hi, hw, ht, hworker⟩ :
      ∃ c ∈ (silentWinnerRound.coordinator.gather (plainConfig .quorum 3 2) plainJob
        silentWinnerRound.network).toOption,
      silentWinnerRound.coordinator.decision (plainConfig .quorum 3 2) c = .agreed "y" true ∧
      ∃ w ∈ c.inflight, winnerIdx c.inflight "y" = some 0 ∧ c.inflight[0]? = some w ∧
        silentWinnerRound.coordinator.transfer (plainConfig .quorum 3 2)
          silentWinnerRound.network c w = none ∧ w.worker = ⟨"b3:a"⟩ := by
    decide
  exact ⟨w, ⟨c, "y", true, gather_of_mem_toOption hc, hd, ⟨0, hi, hw⟩, ht⟩, hworker⟩

theorem silentWinner_run : FeasibleRun ⟨0, 0⟩ (plainConfig .quorum 3 2) plainJob
    (fun _ => silentWinnerRound) {⟨"b3:a"⟩, ⟨"b3:b"⟩, ⟨"b3:c"⟩} {⟨"b3:b"⟩, ⟨"b3:c"⟩} "y"
    (oneCell 2) := by
  obtain ⟨hfeasible, _, hresult⟩ := silentWinner_round
  refine ⟨⟨rfl, rfl⟩, fun _ => rfl, by decide, by decide, fun _ => plainRound_peersIn (by decide),
    fun n s hs => ?_⟩
  cases n with
  | zero =>
    have hinitial : LoopState.initial = s := Option.some.inj hs
    subst hinitial
    exact hfeasible
  | succ n =>
    -- The loop was left in its first pass.
    have hlt := lt_of_resultWithin hresult hs
    omega

/-- One faulty winner sinks the job, although two other workers would have delivered it. -/
theorem silent_winner_exhausts :
    FeasibleRun ⟨0, 0⟩ (plainConfig .quorum 3 2) plainJob (fun _ => silentWinnerRound)
      {⟨"b3:a"⟩, ⟨"b3:b"⟩, ⟨"b3:c"⟩} {⟨"b3:b"⟩, ⟨"b3:c"⟩} "y" (oneCell 2) ∧
    (∃ w, silentWinnerRound.LosesWinner (plainConfig .quorum 3 2) plainJob w ∧
      w.worker = ⟨"b3:a"⟩) ∧
    (⟨0, 0⟩ : RetryPolicy).resultWithin (plainConfig .quorum 3 2) plainJob
      (fun _ => silentWinnerRound) 1 = some (.error (.exhausted 1 (.stalled 1 0) .noProgress)) :=
  ⟨silentWinner_run, silentWinner_round.2⟩

/-- The silent winner is reached under two addresses, and on the second one it does not even
    commit. -/
def twiceReachedRound : Round :=
  plainRound [⟨"b3:a"⟩, ⟨"b3:a"⟩, ⟨"b3:b"⟩, ⟨"b3:c"⟩]
    [[commitOf "y" 1], [], commitOf "y" 5 :: inlineTransfer oneCellJson,
      commitOf "y" 9 :: inlineTransfer oneCellJson]

/-- Without the silent winner. -/
def reroutedRound : Round :=
  plainRound [⟨"b3:b"⟩, ⟨"b3:c"⟩]
    [commitOf "y" 5 :: inlineTransfer oneCellJson, commitOf "y" 9 :: inlineTransfer oneCellJson]

def twiceReachedRounds (n : Nat) : Round :=
  if n = 0 then twiceReachedRound else reroutedRound

def afterTwiceReached : LoopState where
  excluded := [⟨"b3:a"⟩]
  retries := 1
  lastReason := .stalled 1 1
  capacityFloor := 0
  sawResourceExceeded := false

/-- What the coordinator makes of the two rounds: in the first one only the silent winner stalls,
    and the second one delivers. -/
theorem twiceReached_attempts :
    (twiceReachedRound.Feasible (plainConfig .quorum 4 2) plainJob {⟨"b3:b"⟩, ⟨"b3:c"⟩} "y"
        (oneCell 2) ∧
      twiceReachedRound.Stalls (plainConfig .quorum 4 2) plainJob ⟨"b3:a"⟩ ∧
      ∀ w, twiceReachedRound.LosesWinner (plainConfig .quorum 4 2) plainJob w →
        w.worker = ⟨"b3:a"⟩) ∧
    reroutedRound.Feasible (plainConfig .quorum 4 2) (plainJob.inState afterTwiceReached)
        {⟨"b3:b"⟩, ⟨"b3:c"⟩} "y" (oneCell 2) ∧
      reroutedRound.Delivers (plainConfig .quorum 4 2) (plainJob.inState afterTwiceReached) := by
  refine ⟨⟨plainRound_feasible rfl rfl (by decide) (by decide), ?_⟩,
    plainRound_feasible rfl rfl (by decide) (by decide), ?_⟩
  · obtain ⟨c, hc, hsilent, hlost⟩ :
        ∃ c ∈ (plainCoordinator.gather (plainConfig .quorum 4 2) plainJob
          twiceReachedRound.network).toOption, ⟨"b3:a"⟩ ∈ c.failedOrSilent ∧
        ∀ f ∈ c.inflight, plainCoordinator.transfer (plainConfig .quorum 4 2)
          twiceReachedRound.network c f = none → f.worker = ⟨"b3:a"⟩ := by
      decide
    have hg := gather_of_mem_toOption hc
    refine ⟨⟨c, hg, hsilent⟩, ?_⟩
    rintro w ⟨c', agreed, verified, hg', _, ⟨i, _, hw⟩, ht⟩
    have hcc : c = c' := Except.ok.inj (hg.symm.trans hg')
    subst hcc
    exact hlost w (List.mem_of_getElem? hw) ht
  · obtain ⟨c, hc, hd, w, _, hi, hw, ht⟩ :
        ∃ c ∈ (plainCoordinator.gather (plainConfig .quorum 4 2)
          (plainJob.inState afterTwiceReached) reroutedRound.network).toOption,
        plainCoordinator.decision (plainConfig .quorum 4 2) c = .agreed "y" true ∧
        ∃ w ∈ c.inflight, winnerIdx c.inflight "y" = some 0 ∧ c.inflight[0]? = some w ∧
          plainCoordinator.transfer (plainConfig .quorum 4 2) reroutedRound.network c w =
            some (oneCell 2) := by
      decide
    exact ⟨c, "y", true, gather_of_mem_toOption hc, hd, w, ⟨0, hi, hw⟩, _, ht⟩

theorem twiceReached_states {n : Nat} {s : LoopState}
    (hs : (⟨0, 0⟩ : RetryPolicy).stateAt (plainConfig .quorum 4 2) plainJob twiceReachedRounds n =
      some s) : (n = 0 ∧ s = .initial) ∨ (n = 1 ∧ s = afterTwiceReached) := by
  obtain ⟨hsecond, hleft⟩ :
      (⟨0, 0⟩ : RetryPolicy).stateAt (plainConfig .quorum 4 2) plainJob twiceReachedRounds 1 =
        some afterTwiceReached ∧
      (⟨0, 0⟩ : RetryPolicy).stateAt (plainConfig .quorum 4 2) plainJob twiceReachedRounds 2 =
        none := by
    decide
  rcases Nat.lt_trichotomy n 1 with h0 | rfl | h2
  · have hzero : n = 0 := by omega
    subst hzero
    exact .inl ⟨rfl, (Option.some.inj hs).symm⟩
  · rw [hsecond, Option.some.injEq] at hs
    exact .inr ⟨rfl, hs.symm⟩
  · have hnone := Loop.after_upTo_none hleft h2
    unfold RetryPolicy.stateAt at hs
    rw [hnone] at hs
    cases hs

theorem twiceReached_run : FeasibleRun ⟨0, 0⟩ (plainConfig .quorum 4 2) plainJob
    twiceReachedRounds {⟨"b3:a"⟩, ⟨"b3:b"⟩, ⟨"b3:c"⟩} {⟨"b3:b"⟩, ⟨"b3:c"⟩} "y" (oneCell 2) := by
  obtain ⟨⟨hfirst, _⟩, hsecond, _⟩ := twiceReached_attempts
  refine ⟨⟨rfl, rfl⟩, fun n => ?_, by decide, by decide, fun n => ?_, fun n s hs => ?_⟩
  · unfold twiceReachedRounds
    split_ifs <;> rfl
  · unfold twiceReachedRounds
    split_ifs <;> exact plainRound_peersIn (by decide)
  · rcases twiceReached_states hs with ⟨rfl, rfl⟩ | ⟨rfl, rfl⟩
    · exact hfirst
    · exact hsecond

/-- Only as a silent worker is the silent winner excluded, and then the job is delivered. -/
theorem twice_reached_winner_rerouted :
    (∃ n o, (⟨0, 0⟩ : RetryPolicy).resultWithin (plainConfig .quorum 4 2) plainJob
        twiceReachedRounds n = some (.ok o) ∧ o.result = oneCell 2) ∧
      ∀ n s w, (⟨0, 0⟩ : RetryPolicy).stateAt (plainConfig .quorum 4 2) plainJob
          twiceReachedRounds n = some s →
        (twiceReachedRounds n).LosesWinner (plainConfig .quorum 4 2) (plainJob.inState s) w →
        ∃ s', (⟨0, 0⟩ : RetryPolicy).stateAt (plainConfig .quorum 4 2) plainJob
          twiceReachedRounds (n + 1) = some s' ∧ w.worker ∈ s'.excluded := by
  refine (lost_winner_rerouted_iff twiceReached_run).mpr fun n s hs hnot => ?_
  obtain ⟨⟨_, hstalls, hlost⟩, _, hdelivers⟩ := twiceReached_attempts
  rcases twiceReached_states hs with ⟨rfl, rfl⟩ | ⟨rfl, rfl⟩
  · refine ⟨⟨⟨"b3:a"⟩, hstalls, List.not_mem_nil⟩, fun w hw => .inr ?_⟩
    rw [hlost w hw]
    exact hstalls
  · exact absurd hdelivers hnot

end Duckton.Node
