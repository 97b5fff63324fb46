/-
  The in-memory trust store as a whole (trust/reputation.rs): both tables with their eviction
  queues, every operation and every query of the trait.

  The worker table is the `HashMap` and the `VecDeque` of the source, kept in step by `with_worker`;
  the requester table is built the same way. A worker's record adds vouchers, penalty and the
  performance aggregate to the observations and the capability of `Reputation`. The main result says
  that no sequence of operations takes the containers out of step or over their limits.

  The arithmetic of doubles and BLAKE3 are parameters.
-/
import Duckton.Lib.EvictingMap
import Duckton.Trust.Reputation

namespace Duckton.Trust

open Duckton.Proto

/-! ## Measured performance -/

/-- The operations on doubles that the stores use. -/
structure FloatOps where
  ofU64 : UInt64 → F64
  add : F64 → F64 → F64
  sub : F64 → F64 → F64
  mul : F64 → F64 → F64
  div : F64 → F64 → F64
  powf : F64 → F64 → F64
  max : F64 → F64 → F64

/-- 0.5 -/
def oneHalf : F64 :=
  ⟨0x3fe0000000000000⟩

/-- 1000.0 -/
def thousand : F64 :=
  ⟨0x408f400000000000⟩

/-- 0.1 -/
def perfMinAlpha : F64 :=
  ⟨0x3fb999999999999a⟩

/-- `u64::saturating_sub` -/
def saturatingSub (x y : UInt64) : UInt64 :=
  if y ≤ x then x - y else 0

/-- `u64::saturating_add(1)` -/
def saturatingSucc (x : UInt64) : UInt64 :=
  if x = 0xffffffffffffffff then x else x + 1

structure PerfAggregate where
  ewmaLatencyMs : F64 := .zero
  ewmaBytes : F64 := .zero
  ewmaThroughputBps : F64 := .zero
  obsCount : UInt64 := 0
  lastTs : UInt64 := 0
  deriving DecidableEq, Repr

def ewmaFold (ops : FloatOps) (prev sample dtSecs halfLifeSecs : F64) : F64 :=
  let decay :=
    if F64.lt .zero halfLifeSecs then
      ops.powf oneHalf (ops.div (ops.max dtSecs .zero) halfLifeSecs)
    else .zero
  let alpha := ops.max (ops.sub .one decay) perfMinAlpha
  ops.add (ops.mul prev (ops.sub .one alpha)) (ops.mul sample alpha)

def perfFold (ops : FloatOps) (agg : PerfAggregate) (latencyMs bytes ts : UInt64)
    (halfLifeSecs : F64) : PerfAggregate :=
  let lat := ops.ofU64 latencyMs
  let workload := ops.ofU64 bytes
  -- a latency of 0 counts as 1 ms
  let tput := ops.div workload (ops.div (ops.ofU64 (max latencyMs 1)) thousand)
  let obsCount := saturatingSucc agg.obsCount
  let lastTs := max agg.lastTs ts
  if agg.obsCount = 0 then ⟨lat, workload, tput, obsCount, lastTs⟩
  else
    let dt := ops.ofU64 (saturatingSub ts agg.lastTs)
    ⟨ewmaFold ops agg.ewmaLatencyMs lat dt halfLifeSecs,
      ewmaFold ops agg.ewmaBytes workload dt halfLifeSecs,
      ewmaFold ops agg.ewmaThroughputBps tput dt halfLifeSecs, obsCount, lastTs⟩

/-! ## The store -/

structure MeasuredReceipt extends Receipt where
  latencyMs : UInt64
  deriving DecidableEq, Repr

structure WorkerRecord extends WorkerState where
  voucherTrust : F64 := .zero
  penalty : F64 := .zero
  perf : PerfAggregate := {}
  perfSeen : Finset UInt64 := ∅
  perfSeenOrder : List UInt64 := []
  deriving DecidableEq

/-- What a store is configured with, and the functions it is built on. -/
structure StoreEnv where
  blake3 : Bytes → Bytes
  ops : FloatOps
  halfLifeSecs : F64
  lim : StoreLimits

variable (env : StoreEnv)

def StoreEnv.fingerprint (r : MeasuredReceipt) : UInt64 :=
  receiptFingerprint env.blake3 r.toReceipt

namespace WorkerRecord

/-- The closure of `record`. -/
def addObservation (cap : Nat) (o : Observation) (w : WorkerRecord) : WorkerRecord :=
  { w with toWorkerState := w.toWorkerState.addObservation cap o }

/-- The closure of `observe_capability`. -/
def foldCapability (cap : Nat) (fp : UInt64) (r : MeasuredReceipt) (w : WorkerRecord) :
    WorkerRecord :=
  { w with toWorkerState := w.toWorkerState.foldCapability cap fp r.toReceipt }

/-- The closure of `observe_perf`. -/
def foldPerf (fp : UInt64) (r : MeasuredReceipt) (w : WorkerRecord) : WorkerRecord :=
  if fp ∈ w.perfSeen then w
  else
    let order := w.perfSeenOrder ++ [fp]
    let leaving := order.take (order.length - env.lim.maxObsPerWorker)
    { w with
      perfSeen := insert fp w.perfSeen \ leaving.toFinset
      perfSeenOrder := order.drop (order.length - env.lim.maxObsPerWorker)
      perf := perfFold env.ops w.perf r.latencyMs r.observedInputBytes r.ts env.halfLifeSecs }

/-- The closure of `add_vouch`. -/
def addVouch (ops : FloatOps) (weight : F64) (w : WorkerRecord) : WorkerRecord :=
  { w with voucherTrust := ops.add w.voucherTrust weight }

/-- The closure of `penalize`. -/
def penalize (ops : FloatOps) (amount : F64) (w : WorkerRecord) : WorkerRecord :=
  { w with penalty := ops.add w.penalty amount }

end WorkerRecord

/-- The two tables, each a map with its eviction queue. -/
structure Inner where
  workers : EvictingMap NodeId WorkerRecord
  requesters : EvictingMap NodeId (List Observation)

namespace Inner

def empty : Inner :=
  ⟨.empty, .empty⟩

def withWorker (worker : NodeId) (f : WorkerRecord → WorkerRecord) (s : Inner) : Inner :=
  { s with workers := s.workers.update env.lim.maxWorkers worker {} f }

def record (r : MeasuredReceipt) (s : Inner) : Inner :=
  if !r.verdict.affectsReputation then s
  else s.withWorker env r.workerId (WorkerRecord.addObservation env.lim.maxObsPerWorker
    ⟨r.ts, r.verdict.isCorrect, .one, env.fingerprint r⟩)

def observeCapability (r : MeasuredReceipt) (s : Inner) : Inner :=
  if !r.verdict.isCorrect then s
  else s.withWorker env r.workerId
    (WorkerRecord.foldCapability env.lim.maxObsPerWorker (env.fingerprint r) r)

def observePerf (r : MeasuredReceipt) (s : Inner) : Inner :=
  if !r.verdict.isCorrect then s
  else s.withWorker env r.workerId (WorkerRecord.foldPerf env (env.fingerprint r) r)

def addVouch (worker : NodeId) (weight : F64) (s : Inner) : Inner :=
  s.withWorker env worker (WorkerRecord.addVouch env.ops weight)

def penalize (worker : NodeId) (amount : F64) (s : Inner) : Inner :=
  s.withWorker env worker (WorkerRecord.penalize env.ops amount)

/-- What `record_requester` does to the requester's history. -/
def addHistory (cap : Nat) (o : Observation) (hist : List Observation) : List Observation :=
  let hist := hist ++ [o]
  hist.drop (hist.length - cap)

def recordRequester (requester : NodeId) (correct : Bool) (ts : UInt64) (s : Inner) : Inner :=
  { s with
    requesters := s.requesters.update env.lim.maxWorkers requester []
      (addHistory env.lim.maxObsPerWorker ⟨ts, correct, .one, 0⟩) }

end Inner

/-- The operations of the trait. -/
inductive StoreOp where
  | record (r : MeasuredReceipt)
  | observeCapability (r : MeasuredReceipt)
  | observePerf (r : MeasuredReceipt)
  | addVouch (worker : NodeId) (weight : F64)
  | penalize (worker : NodeId) (amount : F64)
  | recordRequester (requester : NodeId) (correct : Bool) (ts : UInt64)
  deriving DecidableEq, Repr

def Inner.step (s : Inner) : StoreOp → Inner
  | .record r => s.record env r
  | .observeCapability r => s.observeCapability env r
  | .observePerf r => s.observePerf env r
  | .addVouch worker weight => s.addVouch env worker weight
  | .penalize worker amount => s.penalize env worker amount
  | .recordRequester requester correct ts => s.recordRequester env requester correct ts

/-! ## Queries -/

/-- The answers of a store to every query of the trait. The two queries with a confidence interval
    are functions of these that no store overrides. -/
@[ext]
structure Answers where
  reputation : NodeId → UInt64 → Option F64
  observationCount : NodeId → Nat
  voucherTrust : NodeId → F64
  penalty : NodeId → F64
  provenCapability : NodeId → Option ProvenCapability
  perfAggregate : NodeId → Option PerfAggregate
  trackedWorkers : Nat
  requesterObservationCount : NodeId → Nat
  requesterReputation : NodeId → UInt64 → Option F64

def StoreEnv.decayWeight (ageSecs : F64) : F64 :=
  -- `half_life_secs <= 0.0`
  if !env.halfLifeSecs.isNaN && !F64.lt .zero env.halfLifeSecs then .one
  else env.ops.powf oneHalf (env.ops.div (env.ops.max ageSecs .zero) env.halfLifeSecs)

/-- The weighted sums `num` and `den` over the history. -/
def weightedSums (now : UInt64) (hist : List Observation) : F64 × F64 :=
  hist.foldl (fun (num, den) o =>
    let w := env.ops.mul o.weight (env.decayWeight (env.ops.ofU64 (saturatingSub now o.ts)))
    (if o.correct then env.ops.add num w else num, env.ops.add den w)) (.zero, .zero)

def successRate (now : UInt64) (hist : List Observation) : Option F64 :=
  if hist.isEmpty then none
  else
    let (num, den) := weightedSums env now hist
    if den.isZero then none else some (env.ops.div num den)

def ProvenCapability.observed (c : ProvenCapability) : Option ProvenCapability :=
  if c.successes = 0 then none else some c

def PerfAggregate.observed (p : PerfAggregate) : Option PerfAggregate :=
  if p.obsCount = 0 then none else some p

def Inner.answers (s : Inner) : Answers where
  reputation worker now :=
    (s.workers.map.lookup worker).bind fun w => successRate env now w.observations
  observationCount worker :=
    ((s.workers.map.lookup worker).map fun w => w.observations.length).getD 0
  voucherTrust worker := ((s.workers.map.lookup worker).map (·.voucherTrust)).getD .zero
  penalty worker := ((s.workers.map.lookup worker).map (·.penalty)).getD .zero
  provenCapability worker := (s.workers.map.lookup worker).bind fun w => w.capability.observed
  perfAggregate worker := (s.workers.map.lookup worker).bind fun w => w.perf.observed
  trackedWorkers := s.workers.map.keys.card
  requesterObservationCount requester :=
    ((s.requesters.map.lookup requester).map List.length).getD 0
  requesterReputation requester now :=
    (s.requesters.map.lookup requester).bind (successRate env now)

/-! ## What an operation changes -/

/-- The closures an operation hands to `with_worker`. -/
inductive WorkerChange where
  | observe (o : Observation)
  | capability (fp : UInt64) (r : MeasuredReceipt)
  | perf (fp : UInt64) (r : MeasuredReceipt)
  | vouch (weight : F64)
  | penalize (amount : F64)

def WorkerChange.run : WorkerChange → WorkerRecord → WorkerRecord
  | .observe o => WorkerRecord.addObservation env.lim.maxObsPerWorker o
  | .capability fp r => WorkerRecord.foldCapability env.lim.maxObsPerWorker fp r
  | .perf fp r => WorkerRecord.foldPerf env fp r
  | .vouch weight => WorkerRecord.addVouch env.ops weight
  | .penalize amount => WorkerRecord.penalize env.ops amount

/-- The worker an operation is about and what it does to the record; a receipt whose verdict is
    neutral does nothing. -/
def StoreOp.change : StoreOp → Option (NodeId × WorkerChange)
  | .record r =>
    if !r.verdict.affectsReputation then none
    else some (r.workerId, .observe ⟨r.ts, r.verdict.isCorrect, .one, env.fingerprint r⟩)
  | .observeCapability r =>
    if !r.verdict.isCorrect then none
    else some (r.workerId, .capability (env.fingerprint r) r)
  | .observePerf r =>
    if !r.verdict.isCorrect then none else some (r.workerId, .perf (env.fingerprint r) r)
  | .addVouch worker weight => some (worker, .vouch weight)
  | .penalize worker amount => some (worker, .penalize amount)
  | .recordRequester _ _ _ => none

section Step

variable {env : StoreEnv} {op : StoreOp}

/-- An operation makes its change of a worker, if it has one, or adds to a requester's history. -/
theorem Inner.step_eq (op : StoreOp) (s : Inner) :
    s.step env op =
        (op.change env).elim s (fun change => s.withWorker env change.1 (change.2.run env)) ∨
      ∃ requester correct ts, op = .recordRequester requester correct ts ∧
        s.step env op = s.recordRequester env requester correct ts := by
  cases op with
  | record r | observeCapability r | observePerf r =>
    rw [StoreOp.change]
    split
    · next hneutral => exact .inl (if_pos hneutral)
    · next hverdict => exact .inl (if_neg hverdict)
  | addVouch worker weight | penalize worker amount => exact .inl rfl
  | recordRequester requester correct ts => exact .inr ⟨requester, correct, ts, rfl, rfl⟩

end Step

/-! ## The containers stay in step -/

namespace WorkerRecord

/-- The sets hold what the queues hold, and the queues are within the limit. -/
structure InStep (cap : Nat) (w : WorkerRecord) : Prop where
  state : w.toWorkerState.Consistent
  perfSeen : w.perfSeen = w.perfSeenOrder.toFinset
  perfNodup : w.perfSeenOrder.Nodup
  window_le : ∀ use, (w.toWorkerState.window use).length ≤ cap
  perf_le : w.perfSeenOrder.length ≤ cap

variable {cap : Nat} {w : WorkerRecord}

theorem inStep_new (cap : Nat) : InStep cap {} where
  state := WorkerState.consistent_new
  perfSeen := rfl
  perfNodup := List.nodup_nil
  window_le use := by
    rw [WorkerState.window_new]
    exact Nat.zero_le cap
  perf_le := Nat.zero_le cap

theorem InStep.addObservation (h : w.InStep cap) (o : Observation) :
    (w.addObservation cap o).InStep cap := by
  obtain ⟨hwindow, hother, hstate⟩ := WorkerState.addObservation_spec h.state cap o
  refine ⟨hstate, h.perfSeen, h.perfNodup, ?_, h.perf_le⟩
  rintro (_ | _)
  · exact hwindow ▸ Window.length_enter_le (h.window_le _)
  · exact hother ▸ h.window_le _

theorem InStep.foldCapability (h : w.InStep cap) (fp : UInt64) (r : MeasuredReceipt) :
    (w.foldCapability cap fp r).InStep cap := by
  obtain ⟨hwindow, hother, hstate⟩ := WorkerState.foldCapability_spec h.state cap fp r.toReceipt
  refine ⟨hstate, h.perfSeen, h.perfNodup, ?_, h.perf_le⟩
  rintro (_ | _)
  · exact hother ▸ h.window_le _
  · exact hwindow ▸ Window.length_enter_le (h.window_le _)

theorem InStep.mem_perfSeen (h : w.InStep cap) {fp : UInt64} :
    fp ∈ w.perfSeen ↔ fp ∈ w.perfSeenOrder := by
  rw [h.perfSeen, List.mem_toFinset]

theorem InStep.perfSeenOrder_foldPerf (h : w.InStep cap) (env : StoreEnv) (fp : UInt64)
    (r : MeasuredReceipt) :
    (w.foldPerf env fp r).perfSeenOrder =
      Window.enter env.lim.maxObsPerWorker w.perfSeenOrder fp := by
  by_cases hseen : fp ∈ w.perfSeen
  · rw [foldPerf, if_pos hseen, Window.enter_of_mem (h.mem_perfSeen.mp hseen)]
  · rw [foldPerf, if_neg hseen, Window.enter_of_not_mem fun hmem => hseen (h.mem_perfSeen.mpr hmem)]
    dsimp only
    rw [List.length_append, List.length_singleton]

theorem InStep.foldPerf {env : StoreEnv} (h : w.InStep env.lim.maxObsPerWorker) (fp : UInt64)
    (r : MeasuredReceipt) : (w.foldPerf env fp r).InStep env.lim.maxObsPerWorker := by
  have horder := h.perfSeenOrder_foldPerf env fp r
  have hsame : (w.foldPerf env fp r).toWorkerState = w.toWorkerState := by
    unfold WorkerRecord.foldPerf
    split <;> rfl
  refine ⟨hsame ▸ h.state, ?_, ?_, hsame ▸ h.window_le, ?_⟩
  · rw [horder]
    by_cases hseen : fp ∈ w.perfSeen
    · rw [WorkerRecord.foldPerf, if_pos hseen, Window.enter_of_mem (h.mem_perfSeen.mp hseen),
        h.perfSeen]
    · have hfresh : fp ∉ w.perfSeenOrder := fun hmem => hseen (h.mem_perfSeen.mpr hmem)
      rw [WorkerRecord.foldPerf, if_neg hseen, Window.enter_of_not_mem hfresh,
        ← insert_sdiff_take h.perfNodup hfresh, ← h.perfSeen]
      dsimp only
      rw [List.length_append, List.length_singleton]
  · rw [horder]
    exact Window.nodup_enter _ h.perfNodup fp
  · rw [horder]
    exact Window.length_enter_le h.perf_le

theorem InStep.run {env : StoreEnv} (h : w.InStep env.lim.maxObsPerWorker) (c : WorkerChange) :
    (c.run env w).InStep env.lim.maxObsPerWorker := by
  cases c with
  | observe o => exact h.addObservation o
  | capability fp r => exact h.foldCapability fp r
  | perf fp r => exact h.foldPerf fp r
  | vouch weight | penalize amount => exact ⟨h.state, h.perfSeen, h.perfNodup, h.window_le, h.perf_le⟩

end WorkerRecord

namespace Inner

theorem length_addHistory_le (cap : Nat) (o : Observation) (hist : List Observation) :
    (addHistory cap o hist).length ≤ cap := by
  unfold addHistory
  rw [List.length_drop]
  omega

/-- Both tables are tracked, with records in step and histories within the limit. -/
def Tracked (s : Inner) : Prop :=
  s.workers.Tracked env.lim.maxWorkers (WorkerRecord.InStep env.lim.maxObsPerWorker) ∧
    s.requesters.Tracked env.lim.maxWorkers fun hist => hist.length ≤ env.lim.maxObsPerWorker

variable {env : StoreEnv} {s : Inner}

theorem Tracked.withWorker (h : s.Tracked env) (worker : NodeId) (c : WorkerChange) :
    (s.withWorker env worker (c.run env)).Tracked env :=
  ⟨h.1.update env.lim.workers_pos (WorkerRecord.inStep_new _) (fun _ hw => hw.run c) worker, h.2⟩

theorem Tracked.recordRequester (h : s.Tracked env) (requester : NodeId) (correct : Bool)
    (ts : UInt64) :
    (s.recordRequester env requester correct ts).Tracked env :=
  ⟨h.1, h.2.update env.lim.workers_pos (Nat.zero_le _)
    (fun hist _ => length_addHistory_le _ _ hist) requester⟩

theorem Tracked.step (h : s.Tracked env) (op : StoreOp) :
    (s.step env op).Tracked env := by
  obtain hstep | ⟨requester, correct, ts, -, hstep⟩ := step_eq op s
  · rw [hstep]
    cases op.change env with
    | some change => exact h.withWorker change.1 change.2
    | none => exact h
  · rw [hstep]
    exact h.recordRequester requester correct ts

theorem always_tracked (env : StoreEnv) (ops : List StoreOp) :
    Run.Always (step env) (Tracked env) empty ops :=
  Run.always_of_invariant (fun _ op h => h.step op)
    ⟨EvictingMap.tracked_empty, EvictingMap.tracked_empty⟩ ops

/-- After any operations the keys of each map are its queue, each once and within the limit; every
    worker's sets hold what its queues hold, `seen` the fingerprints of the observations, and no
    queue of a worker or a requester is over its limit. -/
theorem tables_stay_in_step (env : StoreEnv) (ops : List StoreOp) :
    (Run.final (step env) empty ops).workers.Bounded env.lim.maxWorkers (fun w =>
        w.seen = (w.observations.map Observation.fp).toFinset ∧
          w.capSeen = w.capSeenOrder.toFinset ∧ w.perfSeen = w.perfSeenOrder.toFinset ∧
          w.observations.length ≤ env.lim.maxObsPerWorker ∧
          w.capSeenOrder.length ≤ env.lim.maxObsPerWorker ∧
          w.perfSeenOrder.length ≤ env.lim.maxObsPerWorker) ∧
      (Run.final (step env) empty ops).requesters.Bounded env.lim.maxWorkers
        (fun hist => hist.length ≤ env.lim.maxObsPerWorker) := by
  obtain ⟨hworkers, hrequesters⟩ := (always_tracked env ops).last
  refine ⟨?_, hrequesters.bounded⟩
  have hbounded := hworkers.bounded
  refine ⟨hbounded.mem_iff, hbounded.nodup, hbounded.card_le, hbounded.length_le, ?_⟩
  intro worker w hw
  have hstep := hbounded.entry worker w hw
  have hobs := hstep.window_le .observation
  rw [WorkerState.window, List.length_map] at hobs
  exact ⟨hstep.state.seen, hstep.state.capSeen, hstep.perfSeen, hobs,
    hstep.window_le .success, hstep.perf_le⟩

end Inner

end Duckton.Trust
