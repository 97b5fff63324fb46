/-
  The attempt taken apart, once.

  A dispatch attempt either ends before it dispatches, or stops without blaming anyone, or is
  concluded with a winner: the fastest of the commits that carry the agreed hash. The lemmas
  below say when each of these happens and what is then in the report, so that no later proof
  unfolds `dispatchAttempt` again.
-/
import Duckton.Node.Coordinator

namespace Duckton.Node

open Duckton.Proto Duckton.Trust

/-! ## Winners -/

/-- `w` is the commit an attempt with this agreed hash downloads from. -/
def IsWinner (inflight : List InFlight) (agreed : String) (w : InFlight) : Prop :=
  ∃ i, winnerIdx inflight agreed = some i ∧ inflight[i]? = some w

variable {inflight : List InFlight} {i : Nat} {g : InFlight} {v b : Bool} {h : String}

variable {agreed : String} {w : InFlight} {l : List InFlight} {c : Collection} {co : Coordinator}
  {cfg : GridConfig}

theorem winnerIdx_spec (h : winnerIdx inflight agreed = some i) :
    ∃ w, inflight[i]? = some w ∧ w.hash = agreed := by
  obtain ⟨p, hp, rfl⟩ := Option.map_eq_some_iff.mp h
  have hmem := List.argmin_mem hp
  rw [List.mem_filter, List.mem_zipIdx_iff_getElem?, decide_eq_true_iff] at hmem
  exact ⟨p.1, hmem.1, hmem.2⟩

variable {f : InFlight} {verified : Bool}

theorem winnerIdx_isSome (hf : f ∈ inflight) (hhash : f.hash = agreed) :
    ∃ i, winnerIdx inflight agreed = some i := by
  cases h : winnerIdx inflight agreed with
  | some i => exact ⟨i, rfl⟩
  | none =>
    unfold winnerIdx at h
    rw [Option.map_eq_none_iff, List.argmin_eq_none] at h
    obtain ⟨i, hi⟩ := List.mem_iff_getElem?.mp hf
    have hmem : (f, i) ∈ inflight.zipIdx.filter fun p => p.1.hash = agreed := by
      rw [List.mem_filter, List.mem_zipIdx_iff_getElem?, decide_eq_true_iff]
      exact ⟨hi, hhash⟩
    rw [h] at hmem
    cases hmem

theorem IsWinner.hash_eq (h : IsWinner inflight agreed w) : w.hash = agreed := by
  obtain ⟨i, hi, hw⟩ := h
  obtain ⟨w', hw', hhash⟩ := winnerIdx_spec hi
  rw [hw] at hw'
  cases hw'
  exact hhash

theorem IsWinner.unique {w' : InFlight} (h : IsWinner inflight agreed w)
    (h' : IsWinner inflight agreed w') : w = w' := by
  obtain ⟨i, hi, hw⟩ := h
  obtain ⟨j, hj, hw'⟩ := h'
  rw [hi, Option.some.injEq] at hj
  rw [hj, hw', Option.some.injEq] at hw
  exact hw.symm

theorem exists_isWinner (hf : f ∈ inflight) (hhash : f.hash = agreed) :
    ∃ w, IsWinner inflight agreed w := by
  obtain ⟨i, hi⟩ := winnerIdx_isSome hf hhash
  obtain ⟨w, hw, _⟩ := winnerIdx_spec hi
  exact ⟨w, i, hi, hw⟩

/-! ## Losers -/

theorem mem_of_mem_swapRemove (h : g ∈ swapRemove l i) : g ∈ l := by
  unfold swapRemove at h
  split at h
  · cases h
  · rename_i last hlast
    rcases List.mem_or_eq_of_mem_set (List.mem_of_mem_dropLast h) with hmem | rfl
    · exact hmem
    · exact List.mem_of_getLast? hlast

/-- Only the removed element can be missing. -/
theorem mem_swapRemove (hg : g ∈ l) (hw : l[i]? = some w) (hne : g ≠ w) : g ∈ swapRemove l i := by
  obtain ⟨j, hj⟩ := List.mem_iff_getElem?.mp hg
  have hjl : j < l.length := (List.getElem?_eq_some_iff.mp hj).1
  have hil : i < l.length := (List.getElem?_eq_some_iff.mp hw).1
  have hij : i ≠ j := by
    rintro rfl
    rw [hw] at hj
    exact hne (Option.some.inj hj).symm
  have hlast : l.getLast? = l[l.length - 1]? := List.getLast?_eq_getElem?
  have hlt : l.length - 1 < l.length := by omega
  rw [List.getElem?_eq_getElem hlt] at hlast
  unfold swapRemove
  rw [hlast]
  refine List.mem_iff_getElem?.mpr ?_
  by_cases hend : j = l.length - 1
  · -- the last element has moved into the gap
    refine ⟨i, ?_⟩
    rw [List.getElem?_dropLast, List.length_set, if_pos (by omega), List.getElem?_set_self hil]
    rw [hend, List.getElem?_eq_getElem hlt] at hj
    exact hj
  · refine ⟨j, ?_⟩
    rw [List.getElem?_dropLast, List.length_set, if_pos (by omega), List.getElem?_set_ne hij]
    exact hj

/-- With the agreed hash's winner taken out, the commits of any other hash are untouched. -/
theorem mem_losers_iff (hi : winnerIdx inflight agreed = some i) (hw : inflight[i]? = some w)
    (hne : g.hash ≠ agreed) : g ∈ swapRemove inflight i ↔ g ∈ inflight := by
  refine ⟨mem_of_mem_swapRemove, fun hg => mem_swapRemove hg hw ?_⟩
  rintro rfl
  have hwin : IsWinner inflight agreed g := ⟨i, hi, hw⟩
  exact hne hwin.hash_eq

/-! ## The decision -/

/-- The committed hashes, in the order the commits came back. -/
def Collection.hashes (c : Collection) : List String :=
  c.inflight.map InFlight.hash

theorem fpOutcome_pinned (co : Coordinator) (cfg : GridConfig) (c : Collection)
    (hdrift : (co.fpOutcome cfg c).drifted = 0) :
    (co.fpOutcome cfg c).pinned = evaluateQuorum c.hashes cfg.scheduler.quorum := by
  unfold Coordinator.fpOutcome evaluateQuorumOnCommits at hdrift ⊢
  rw [List.length_eq_zero_iff, List.filter_eq_nil_iff] at hdrift
  have hall : c.commitKeys.filter (fun k => !k.drifts co.pinnedFingerprint) = c.commitKeys := by
    rw [List.filter_eq_self]
    intro k hk
    rw [Bool.not_eq_true', Bool.eq_false_iff]
    exact hdrift k hk
  rw [hall]
  unfold Collection.commitKeys Collection.hashes
  rw [List.map_map]
  rfl

theorem decideFastest_eq_agreed_iff : decideFastest c verified = .agreed h v ↔
      v = verified ∧ ∃ f, fastest c.inflight = some f ∧ f.hash = h := by
  unfold decideFastest
  cases hf : fastest c.inflight with
  | none => simp
  | some f => simp [and_comm, eq_comm]

theorem decideQuorum_eq_agreed_iff {o : QuorumOutcome} :
    co.decideQuorum cfg c o = .agreed h v ↔
      o.split = false ∧ o.agreedHash = some h ∧ v = true := by
  unfold Coordinator.decideQuorum
  cases hs : o.split with
  | true => simp
  | false =>
    cases ha : o.agreedHash with
    | none =>
      simp only [Bool.false_eq_true, if_false]
      split_ifs <;> simp
    | some a => simp [eq_comm]

/-- The three ways to an agreed hash without a canary. -/
theorem decision_eq_agreed_iff (hcanary : co.canaryExpected = none) :
    co.decision cfg c = .agreed h v ↔ (co.fpOutcome cfg c).drifted = 0 ∧
      (if co.nonVerifiable cfg then
        v = false ∧ ∃ f, fastest c.inflight = some f ∧ f.hash = h
      else match cfg.scheduler.verifyMode with
        | .quorum => (co.fpOutcome cfg c).pinned.split = false ∧
            (co.fpOutcome cfg c).pinned.agreedHash = some h ∧ v = true
        | .fast => v = (co.fpOutcome cfg c).pinned.reached ∧
            ∃ f, fastest c.inflight = some f ∧ f.hash = h) := by
  unfold Coordinator.decision
  simp only [hcanary]
  rcases Nat.eq_zero_or_pos (co.fpOutcome cfg c).drifted with hd | hd
  · cases hnv : co.nonVerifiable cfg with
    | true => simp [hd, decideFastest_eq_agreed_iff]
    | false =>
      cases hm : cfg.scheduler.verifyMode with
      | fast => simp [hd, decideFastest_eq_agreed_iff]
      | quorum => simp [hd, decideQuorum_eq_agreed_iff]
  · rw [if_pos hd]
    have hne : (co.fpOutcome cfg c).drifted ≠ 0 := by omega
    simp [hne]

/-! ### Stopping -/

/-- What the result of an attempt says about the answers it collected. -/
def Coordinator.Explains (co : Coordinator) (cfg : GridConfig) (c : Collection) :
    AttemptResult → Prop
  | .inconclusive tried => tried = c.failedOrSilent
  | .resourceExceeded oomed maxTriedCapacity _ =>
    oomed = c.oomed ∧ maxTriedCapacity = c.maxTriedCapacity
  | .inputDrift _ _ => co.canaryExpected = none ∧ 0 < (co.fpOutcome cfg c).drifted
  | .noCandidates | .insufficientWorkers _ _ => False
  | .done _ | .infeasible _ | .quorumDisagreement _ _ => True

section Stop

variable {r : AttemptResult}

theorem decideFastest_stop (h : decideFastest c v = .stop r b) :
    co.Explains cfg c r ∧ ∀ o, r ≠ .done o := by
  unfold decideFastest at h
  cases hf : fastest c.inflight with
  | none =>
    simp only [hf, Decision.stop.injEq] at h
    rw [← h.1]
    exact ⟨rfl, nofun⟩
  | some f => simp [hf] at h

theorem decideQuorum_stop {q : QuorumOutcome} (h : co.decideQuorum cfg c q = .stop r b) :
    co.Explains cfg c r ∧ ∀ o, r ≠ .done o := by
  unfold Coordinator.decideQuorum at h
  cases hs : q.split with
  | true =>
    simp only [hs, if_true, Decision.stop.injEq] at h
    rw [← h.1]
    exact ⟨trivial, nofun⟩
  | false =>
    cases hq : q.agreedHash with
    | some a => simp [hs, hq] at h
    | none =>
      simp only [hs, hq, Bool.false_eq_true, if_false] at h
      split_ifs at h <;> rw [Decision.stop.injEq] at h <;> rw [← h.1] <;>
        simp [Coordinator.Explains]

theorem decision_stop (h : co.decision cfg c = .stop r b) :
    co.Explains cfg c r ∧ ∀ o, r ≠ .done o := by
  unfold Coordinator.decision at h
  cases hcanary : co.canaryExpected with
  | some expected => simp [hcanary] at h
  | none =>
    simp only [hcanary] at h
    split_ifs at h with hdrift
    · rw [Decision.stop.injEq] at h
      rw [← h.1]
      exact ⟨⟨hcanary, hdrift⟩, nofun⟩
    · exact decideFastest_stop h
    · cases hmode : cfg.scheduler.verifyMode with
      | quorum =>
        simp only [hmode] at h
        exact decideQuorum_stop h
      | fast =>
        simp only [hmode] at h
        exact decideFastest_stop h

end Stop

/-! ## The end of an attempt -/

variable {job : Job} {net : Network} {s : Scored} {rs : ResultSet}

section Judge

variable (co : Coordinator) (cfg : GridConfig) (job : Job) (net : Network) (c : Collection)

theorem failureReceipts_ne_incorrect {r : Receipt} (hr : r ∈ failureReceipts cfg inflight) :
    r.verdict ≠ .incorrect := by
  obtain ⟨f, _, rfl⟩ := List.mem_map.mp hr
  dsimp only
  split_ifs <;> decide

variable {o : QueryOutcome}

theorem outcome_eq_some_iff {report : AttemptReport} :
    report.outcome = some o ↔ report.result = .ok (.done o) := by
  unfold AttemptReport.outcome
  split
  · rename_i o' h
    rw [h, Option.some.injEq, Except.ok.injEq, AttemptResult.done.injEq]
  · rename_i h
    constructor
    · intro hn
      cases hn
    · intro hr
      exact absurd hr (h o)

/-- An attempt that dispatched either stops, blaming nobody, or is concluded with a winner. -/
theorem judge_cases :
    (∃ r receipts, co.judge cfg job net c =
        .stopped c.selected (co.autoBlocked cfg job c.accepted) r receipts ∧
      (∀ o, r ≠ .done o) ∧ (∀ x ∈ receipts, x.verdict ≠ .incorrect) ∧ co.Explains cfg c r) ∨
    (∃ agreed verified i w, co.decision cfg c = .agreed agreed verified ∧
      winnerIdx c.inflight agreed = some i ∧ c.inflight[i]? = some w ∧
      co.judge cfg job net c =
        co.conclude cfg job net c agreed verified w (swapRemove c.inflight i)) := by
  unfold Coordinator.judge
  cases hd : co.decision cfg c with
  | stop r withReceipts =>
    refine .inl ⟨r, _, rfl, (decision_stop hd).2, fun x hx => ?_, (decision_stop hd).1⟩
    split_ifs at hx
    · exact failureReceipts_ne_incorrect cfg hx
    · cases hx
  | agreed agreed verified =>
    cases hi : winnerIdx c.inflight agreed with
    | none =>
      refine .inl ⟨.inconclusive c.failedOrSilent, failureReceipts cfg c.inflight,
        by simp only [hi], nofun, fun x hx => failureReceipts_ne_incorrect cfg hx, rfl⟩
    | some i =>
      obtain ⟨w, hw, _⟩ := winnerIdx_spec hi
      exact .inr ⟨agreed, verified, i, w, rfl, hi, hw, by simp only [hi, hw]⟩

variable {co cfg job net c} {verified : Bool} {losers : List InFlight}

theorem conclude_of_delivered (h : co.transfer cfg net c w = some rs) :
    ∃ o, (co.conclude cfg job net c agreed verified w losers).outcome = some o ∧
      o.result = rs ∧ o.agreedHash = some agreed ∧ o.verified = verified := by
  unfold Coordinator.conclude AttemptReport.outcome
  simp only [h]
  exact ⟨_, rfl, rfl, rfl, rfl⟩

/-- A finished attempt carries the rows its winner streamed, the agreed hash and the flag of the
    decision. -/
theorem conclude_done (h : (co.conclude cfg job net c agreed verified w losers).outcome = some o) :
    co.transfer cfg net c w = some o.result ∧ o.agreedHash = some agreed ∧
      o.verified = verified := by
  cases ht : co.transfer cfg net c w with
  | none =>
    unfold Coordinator.conclude AttemptReport.outcome at h
    simp only [ht] at h
    cases h
  | some rs =>
    obtain ⟨o', ho', hrs, hag, hver⟩ := conclude_of_delivered ht
    rw [h] at ho'
    cases ho'
    exact ⟨by rw [hrs], hag, hver⟩

theorem conclude_receipts :
    (co.conclude cfg job net c agreed verified w losers).receipts =
      (w.receipt (co.winnerVerdict cfg (co.transfer cfg net c w).isSome) ::
        losers.map fun f => f.receipt (co.loserVerdict cfg agreed f)) ++
      (if verified then co.shortfallReceipts c else []) := by
  unfold Coordinator.conclude
  cases ht : co.transfer cfg net c w <;> rfl

end Judge

/-! ## The whole attempt -/

section Attempt

variable {co : Coordinator} {cfg : GridConfig} {job : Job} {net : Network}

/-- The workers a Dispatch goes to, as scored. -/
def Coordinator.picked (co : Coordinator) (cfg : GridConfig) (job : Job) (net : Network) :
    List Scored :=
  co.selected cfg (co.eligible cfg job (accepted net (co.candidates cfg job net)))

variable {c : Collection}

theorem gather_eq_ok_iff :
    co.gather cfg job net = .ok c ↔ (∀ r, co.resolution ≠ .unavailable r) ∧
      co.candidates cfg job net ≠ [] ∧
      cfg.scheduler.quorum ≤ (co.picked cfg job net).length ∧
      preflight cfg job (co.eligible cfg job (accepted net (co.candidates cfg job net)))
        (co.picked cfg job net) = .ok () ∧
      c = Collection.of (accepted net (co.candidates cfg job net))
        (co.eligible cfg job (accepted net (co.candidates cfg job net)))
        (co.picked cfg job net) (collected net (co.picked cfg job net)) := by
  unfold Coordinator.gather Coordinator.picked
  split
  · rename_i reason hr
    constructor
    · intro h
      cases h
    · rintro ⟨h, _⟩
      exact absurd hr (h reason)
  · rename_i hr
    have hav : ∀ r, co.resolution ≠ .unavailable r := fun r h => hr r h
    by_cases hc : co.candidates cfg job net = []
    · simp [hc]
    · rw [if_neg (by rw [List.isEmpty_iff]; exact hc)]
      by_cases hlen : (co.selected cfg (co.eligible cfg job
          (accepted net (co.candidates cfg job net)))).length < cfg.scheduler.quorum
      · rw [if_pos hlen]
        have hnot := Nat.not_le.mpr hlen
        simp [hnot]
      · rw [if_neg hlen]
        cases hp : preflight cfg job (co.eligible cfg job (accepted net (co.candidates cfg job net)))
            (co.selected cfg (co.eligible cfg job
              (accepted net (co.candidates cfg job net)))) with
        | error e => simp
        | ok u =>
          have hle := Nat.not_lt.mp hlen
          simp only [Except.ok.injEq, hav, hc, hle, ne_eq, not_false_eq_true, implies_true,
            true_and]
          exact eq_comm

theorem gather_error_ne_done {r : AttemptResult} {blocked : List NodeId}
    (h : co.gather cfg job net = .error (.result r blocked)) (o : QueryOutcome) : r ≠ .done o := by
  rintro rfl
  unfold Coordinator.gather at h
  split at h
  · simp at h
  · dsimp only at h
    split_ifs at h
    · simp at h
    · simp at h
    · split at h <;> simp at h

theorem gather_of_mem_toOption (h : c ∈ (co.gather cfg job net).toOption) :
    co.gather cfg job net = .ok c := by
  cases hg : co.gather cfg job net with
  | error e =>
    rw [hg] at h
    cases h
  | ok c' =>
    rw [hg] at h
    cases h
    rfl

theorem dispatchAttempt_of_gather (h : co.gather cfg job net = .ok c) :
    co.dispatchAttempt cfg job net = co.judge cfg job net c := by
  unfold Coordinator.dispatchAttempt
  rw [h]

theorem dispatchAttempt_of_agreed (hg : co.gather cfg job net = .ok c)
    (hd : co.decision cfg c = .agreed agreed verified)
    (hi : winnerIdx c.inflight agreed = some i) (hw : c.inflight[i]? = some w) :
    co.dispatchAttempt cfg job net =
      co.conclude cfg job net c agreed verified w (swapRemove c.inflight i) := by
  rw [dispatchAttempt_of_gather hg]
  simp only [Coordinator.judge, hd, hi, hw]

/-- A finished attempt has a winner, which committed the agreed hash, and it carries whatever
    that winner streamed. -/
theorem dispatchAttempt_done {o : QueryOutcome}
    (h : (co.dispatchAttempt cfg job net).outcome = some o) :
    ∃ c agreed w, co.gather cfg job net = .ok c ∧
      co.decision cfg c = .agreed agreed o.verified ∧ IsWinner c.inflight agreed w ∧
      co.transfer cfg net c w = some o.result ∧ o.agreedHash = some agreed := by
  cases hg : co.gather cfg job net with
  | error e =>
    rw [outcome_eq_some_iff] at h
    unfold Coordinator.dispatchAttempt at h
    rw [hg] at h
    cases e with
    | result r blocked => exact absurd (Except.ok.inj h) (gather_error_ne_done hg o)
    | insufficientEscrow e blocked => cases h
  | ok c =>
    rw [dispatchAttempt_of_gather hg] at h
    rcases judge_cases co cfg job net c with
      ⟨r, receipts, hj, hne, _⟩ | ⟨a, v, i, w, hd, hi, hw, hj⟩
    · rw [hj, outcome_eq_some_iff] at h
      exact absurd (Except.ok.inj h) (hne o)
    · rw [hj] at h
      obtain ⟨hrs, hag, hver⟩ := conclude_done h
      exact ⟨c, a, w, rfl, hver ▸ hd, ⟨i, hi, hw⟩, hrs, hag⟩

/-- Conversely, once a hash is agreed its winner only has to deliver. -/
theorem dispatchAttempt_of_delivered
    (hg : co.gather cfg job net = .ok c) (hd : co.decision cfg c = .agreed agreed verified)
    (hw : IsWinner c.inflight agreed w) (ht : co.transfer cfg net c w = some rs) :
    ∃ o, (co.dispatchAttempt cfg job net).outcome = some o ∧ o.result = rs ∧
      o.agreedHash = some agreed ∧ o.verified = verified := by
  obtain ⟨i, hi, hwi⟩ := hw
  rw [dispatchAttempt_of_agreed hg hd hi hwi]
  exact conclude_of_delivered ht

end Attempt

/-! ## Who is dispatched to -/

variable {co : Coordinator} {cfg : GridConfig} {el : List Eligible} {acc : List (Conn × Bid)}

theorem mem_selected (h : s ∈ co.selected cfg el) : ∃ e ∈ el, e.worker = s.worker := by
  have hscored := List.mem_of_mem_take h
  rw [List.mem_insertionSort] at hscored
  obtain ⟨e, he, rfl⟩ := List.mem_map.mp hscored
  exact ⟨e, he, rfl⟩

theorem mem_eligible {e : Eligible} (h : e ∈ co.eligible cfg job acc) :
    ∃ a ∈ acc, a.1.peer = e.worker ∧ a.2 = e.bid := by
  have hcleared := List.mem_of_mem_filter h
  obtain ⟨a, ha, rfl⟩ := List.mem_map.mp hcleared
  exact ⟨a, List.mem_of_mem_filter ha, rfl, rfl⟩

theorem bidByNode_eq_some {worker : NodeId} {bid : Bid} (h : bidByNode el worker = some bid) :
    ∃ e ∈ el, e.worker = worker ∧ e.bid = bid := by
  obtain ⟨e, he, hbid⟩ := Option.map_eq_some_iff.mp h
  have hworker := List.find?_some he
  rw [decide_eq_true_iff] at hworker
  exact ⟨e, List.mem_reverse.mp (List.mem_of_find?_eq_some he), hworker, hbid⟩

/-- Every picked worker is a peer that authenticated on a connection and accepted the offer. -/
theorem mem_picked (h : s ∈ co.picked cfg job net) :
    ∃ a ∈ accepted net (co.candidates cfg job net), a.1.peer = s.worker := by
  obtain ⟨e, he, hes⟩ := mem_selected h
  obtain ⟨a, ha, hae, _⟩ := mem_eligible he
  exact ⟨a, ha, hae.trans hes⟩

theorem picked_trust (h : s ∈ co.picked cfg job net) :
    (co.effectiveTrust s.worker).lt cfg.minTrust = false := by
  obtain ⟨e, he, hes⟩ := mem_selected h
  obtain ⟨hcleared, htrust⟩ := List.mem_filter.mp he
  obtain ⟨a, -, rfl⟩ := List.mem_map.mp hcleared
  rw [← hes]
  simpa using htrust

theorem connect_eq_some_iff {dialled : Option Conn} {expected : Option NodeId} {conn : Conn} :
    connect dialled expected = some conn ↔
      dialled = some conn ∧ ∀ id, expected = some id → conn.peer = id := by
  cases dialled with
  | none => simp [connect]
  | some d =>
    cases expected with
    | none => simp [connect]
    | some id =>
      unfold connect
      dsimp only
      split_ifs with h
      · constructor
        · rintro ⟨⟩
          exact ⟨rfl, fun id' hid => h.trans (Option.some.inj hid)⟩
        · exact fun hd => hd.1
      · constructor
        · rintro ⟨⟩
        · rintro ⟨⟨⟩, hpin⟩
          exact absurd (hpin id rfl) h

theorem mem_accepted {candidates : List Candidate} {a : Conn × Bid}
    (h : a ∈ accepted net candidates) :
    ∃ (i : Nat) (cand : Candidate), candidates[i]? = some cand ∧
      connect (net.dial i) cand.nodeId = some a.1 ∧ net.bid i = some a.2 ∧
      a.2.decision = .accept := by
  obtain ⟨hoffer, haccept⟩ := List.mem_filter.mp h
  obtain ⟨⟨cand, i⟩, hmem, hsome⟩ := List.mem_filterMap.mp hoffer
  refine ⟨i, cand, List.mem_zipIdx_iff_getElem?.mp hmem, ?_⟩
  dsimp only at hsome
  split at hsome
  · rename_i conn bid hconn hbid
    cases hsome
    exact ⟨hconn, hbid, of_decide_eq_true haccept⟩
  · cases hsome

theorem connOf_isSome {a : Conn × Bid} (h : a ∈ acc) :
    ∃ conn, connOf acc a.1.peer = some conn := by
  have hfind : (acc.reverse.find? fun b => b.1.peer = a.1.peer).isSome := by
    rw [List.find?_isSome]
    exact ⟨a, List.mem_reverse.mpr h, by simp⟩
  obtain ⟨b, hb⟩ := Option.isSome_iff_exists.mp hfind
  exact ⟨b.1, by unfold connOf; rw [hb]; rfl⟩

def Collected.worker : Collected → NodeId
  | .committed f => f.worker
  | .failed worker _ => worker
  | .silent worker => worker

/-- Whatever a worker sends is booked under its own id. -/
theorem worker_collectOne (worker : NodeId) (frames : List Wire) :
    (collectOne worker frames).worker = worker := by
  induction frames with
  | nil => rfl
  | cons m rest ih =>
    cases m with
    | progress => exact ih
    | ack ok detail => cases ok <;> rfl
    | commit c | bid b | manifest m | chunk c | part p | other => rfl

section Answers

variable {acc : List (Conn × Bid)} {el : List Eligible} {sel : List Scored} {cs : List Collected}

theorem mem_inflight : f ∈ (Collection.of acc el sel cs).inflight ↔ .committed f ∈ cs := by
  unfold Collection.of
  rw [List.mem_filterMap]
  constructor
  · rintro ⟨x, hx, hxf⟩
    cases x <;> cases hxf
    exact hx
  · exact fun hf => ⟨_, hf, rfl⟩

theorem mem_failed {x : NodeId × Verdict × String} :
    x ∈ (Collection.of acc el sel cs).failed ↔
      .failed x.1 x.2.2 ∈ cs ∧ x.2.1 = classifyFailure x.2.2 := by
  unfold Collection.of
  rw [List.mem_filterMap]
  constructor
  · rintro ⟨y, hy, hyx⟩
    cases y <;> cases hyx
    exact ⟨hy, rfl⟩
  · rintro ⟨hx, hverdict⟩
    refine ⟨_, hx, ?_⟩
    dsimp only
    rw [← hverdict]

theorem mem_silent {n : NodeId} :
    n ∈ (Collection.of acc el sel cs).silent ↔ .silent n ∈ cs := by
  unfold Collection.of
  rw [List.mem_filterMap]
  constructor
  · rintro ⟨x, hx, hxn⟩
    cases x <;> cases hxn
    exact hx
  · exact fun hn => ⟨_, hn, rfl⟩

end Answers

theorem map_worker_collected (net : Network) (sel : List Scored) :
    (collected net sel).map Collected.worker = sel.map Scored.worker := by
  have hslot : (Collected.worker ∘ fun p : Scored × Nat => collectOne p.1.worker (net.frames p.2)) =
      Scored.worker ∘ Prod.fst := by
    funext p
    exact worker_collectOne p.1.worker (net.frames p.2)
  unfold collected
  rw [List.map_map]
  show List.map (Collected.worker ∘ fun p : Scored × Nat => _) _ = _
  rw [hslot, ← List.map_map, List.zipIdx_map_fst]

/-- Who failed or fell silent was dispatched to. -/
theorem failedOrSilent_subset_selected {sel : List Scored} {n : NodeId}
    (h : n ∈ (Collection.of acc el sel (collected net sel)).failedOrSilent) :
    n ∈ sel.map Scored.worker := by
  rw [← map_worker_collected net sel]
  rcases List.mem_append.mp h with h | h
  · obtain ⟨f, hf, rfl⟩ := List.mem_map.mp h
    exact List.mem_map_of_mem (mem_failed.mp hf).1
  · exact List.mem_map_of_mem (mem_silent.mp h)

/-- Commits are collected in the order of selection, at most one per Dispatch. -/
theorem inflight_workers_sublist (acc : List (Conn × Bid)) (el : List Eligible) (net : Network)
    (sel : List Scored) :
    ((Collection.of acc el sel (collected net sel)).inflight.map InFlight.worker).Sublist
      (sel.map Scored.worker) := by
  have hfst : sel.map Scored.worker = sel.zipIdx.map fun p => p.1.worker := by
    conv_lhs => rw [← List.zipIdx_map_fst 0 sel, List.map_map]
    rfl
  rw [hfst]
  unfold Collection.of collected
  dsimp only
  generalize sel.zipIdx = l
  induction l with
  | nil => exact List.Sublist.refl _
  | cons p rest ih =>
    rw [List.map_cons, List.map_cons]
    cases hc : collectOne p.1.worker (net.frames p.2) with
    | committed f =>
      have hworker := worker_collectOne p.1.worker (net.frames p.2)
      rw [hc] at hworker
      rw [List.filterMap_cons, ← hworker]
      exact ih.cons_cons _
    | failed worker detail | silent worker =>
      rw [List.filterMap_cons]
      exact ih.cons _

/-! ## A small grid

Two or three workers behind plain connections, for concrete runs: every peer that answers accepts
the job and is trusted alike, no gate is on, and results travel uncompressed on the control
stream. -/

def acceptingBid : Bid where
  decision := .accept
  etaMs := 10
  price := 0
  attestation := ⟨.l0, [], none⟩
  freeMemBytes := 0
  regionProof := none
  ratePerSecond := 0
  ratePerGb := 0
  capSeconds := 0

/-- One column `n`, one row. -/
def oneCell (n : Int64) : ResultSet :=
  ⟨["n"], [[.int n]]⟩

/-- The JSON text of `oneCell 2`. -/
def oneCellJson : Bytes :=
  utf8 "\x7b\"columns\":[\"n\"],\"rows\":[[\x7b\"Int\":2\x7d]]\x7d"

/-- Decodes the one text the concrete runs send. -/
def plainCodec : Codec where
  decompress
    | .none, _, payload => some payload
    | _, _, _ => none
  fromBytes bytes := if bytes = oneCellJson then some (oneCell 2) else none

def plainCoordinator : Coordinator where
  resolution := .unpinned
  blocklist := none
  livenessExcluded := none
  stakeOf := none
  provenCapacity _ := none
  verifiedAttestationLevel _ := .l0
  regionProofOk _ _ := true
  effectiveTrust _ := F64.one
  normalizePrice _ _ _ := F64.one
  selectionScore _ _ _ := F64.one
  canaryExpected := none
  isNondeterministic := false
  consensusNeed n := n
  toleratedMedian m := m
  providerPenalty := F64.zero
  codec := plainCodec

def plainConfig (mode : VerifyMode) (replicas quorum : Nat) : GridConfig where
  scheduler := ⟨replicas, quorum, mode, false⟩
  antiabuse := ⟨true, true, true, false, F64.zero⟩
  sybilMinStake := 0
  minTrust := F64.zero
  regionTrustAttested := false
  isPrivate := false
  economicsEnabled := false
  maxBid := 0
  platformFeeBps := 0
  participationCommissionBps := 0
  capabilityWeight := F64.zero
  spillToleranceBytes := 0
  maxResultBytes := 1024
  maxResultParts := 1

def plainJob : Job where
  paid := false
  minLevel := .l0
  network := none
  groups := []
  regions := []
  nodes := []
  excluded := []
  estimatedInputBytes := none
  estimatedPeakBytes := none
  capacityFloor := 0

def plainNetwork (discovered : List Candidate) (peers : List NodeId) (frames : List (List Wire)) :
    Network where
  discovered := discovered
  dial i := peers[i]?.map fun p => ⟨p, []⟩
  bid _ := some acceptingBid
  frames i := frames[i]?.getD []
  transferInTime := true

def commitOf (hash : String) (latencyMs : Nat) : Wire :=
  .commit ⟨hash, latencyMs, ""⟩

def inlineTransfer (payload : Bytes) : List Wire :=
  [.manifest ⟨.none, payload.length, payload.length, 1⟩, .chunk ⟨0, true, payload⟩]

end Duckton.Node
