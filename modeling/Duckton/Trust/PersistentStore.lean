/-
  The redb trust store (trust/persistent.rs) and what it shares with the in-memory one.

  Each record is kept as JSON text, the queue of workers as a table from insertion numbers to
  worker ids. A change reads the record back, runs its closure, trims the observations, writes the
  record and then evicts the workers with the lowest numbers. A text that cannot be read back (a
  double that is not finite is written as `null`) becomes a new record.

  The store has no requester table: `record_requester` and the requester queries are the trait's
  defaults, which do nothing and answer 0 and `None`. So the two stores part at the first call of
  `record_requester` (`requester_answers_differ`); as long as there is none they answer alike
  (`Mirrors.step`), provided the doubles come back as they were written and the insertion numbers
  last.

  Reading and writing doubles as JSON text is a parameter. Database operations succeed. The number
  of its insertion that a record carries is written and never read, and left out.
-/
import Duckton.Trust.InMemoryStore

namespace Duckton.Trust

open Duckton.Proto

/-! ## The database -/

/-- What a double is after it was written and read back, `none` if it cannot be read. -/
structure JsonFloats where
  reread : F64 → Option F64
  reread_zero : reread .zero = some .zero
  reread_one : reread .one = some .one

structure PersistWorker where
  obs : List Observation := []
  seen : List UInt64 := []
  voucherTrust : F64 := .zero
  penalty : F64 := .zero
  capability : ProvenCapability := {}
  capSeen : List UInt64 := []
  perf : PerfAggregate := {}
  perfSeen : List UInt64 := []
  deriving DecidableEq, Repr

namespace JsonFloats

variable (json : JsonFloats)

def rereadObs (o : Observation) : Option Observation := do
  let weight ← json.reread o.weight
  some { o with weight }

def rereadPerf (p : PerfAggregate) : Option PerfAggregate := do
  let ewmaLatencyMs ← json.reread p.ewmaLatencyMs
  let ewmaBytes ← json.reread p.ewmaBytes
  let ewmaThroughputBps ← json.reread p.ewmaThroughputBps
  some { p with ewmaLatencyMs, ewmaBytes, ewmaThroughputBps }

/-- `serde_json::from_slice(..).unwrap_or_default()` of what was written. -/
def readBack (w : PersistWorker) : PersistWorker :=
  Option.getD (do
    let obs ← w.obs.mapM json.rereadObs
    let voucherTrust ← json.reread w.voucherTrust
    let penalty ← json.reread w.penalty
    let perf ← json.rereadPerf w.perf
    some { w with obs, voucherTrust, penalty, perf }) {}

end JsonFloats

/-- The three tables; `order` is sorted by insertion number, and `nextSeq` is 0 where `META` has
    none. -/
structure RedbStore where
  workers : Finmap fun _ : NodeId => PersistWorker
  order : List (UInt64 × NodeId)
  nextSeq : UInt64

variable (env : StoreEnv) (json : JsonFloats) (db : RedbStore)

namespace RedbStore

def empty : RedbStore :=
  ⟨∅, [], 0⟩

/-- `order.insert` -/
def insertOrder (seq : UInt64) (worker : NodeId) : List (UInt64 × NodeId) → List (UInt64 × NodeId)
  | [] => [(seq, worker)]
  | (n, w) :: rest =>
    if seq < n then (seq, worker) :: (n, w) :: rest
    else if seq = n then (seq, worker) :: rest
    else (n, w) :: insertOrder seq worker rest

/-- Oldest observations leave, and their fingerprints with them. -/
def trimLoop (cap : Nat) : List Observation → List UInt64 → List Observation × List UInt64
  | [], seen => ([], seen)
  | removed :: obs, seen =>
    if cap < (removed :: obs).length then trimLoop cap obs (seen.filter (· ≠ removed.fp))
    else (removed :: obs, seen)

def trim (cap : Nat) (state : PersistWorker) : PersistWorker :=
  let trimmed := trimLoop cap state.obs state.seen
  { state with obs := trimmed.1, seen := trimmed.2 }

/-- The workers with the lowest insertion numbers leave while there are too many. -/
def evictOldest (cap : Nat) (workers : Finmap fun _ : NodeId => PersistWorker) :
    List (UInt64 × NodeId) → (Finmap fun _ : NodeId => PersistWorker) × List (UInt64 × NodeId)
  | [] => (workers, [])
  | (seq, victim) :: order =>
    if cap < workers.keys.card then evictOldest cap (workers.erase victim) order
    else (workers, (seq, victim) :: order)

/-- The part of `mutate` from the closure on. -/
def write (worker : NodeId) (state : PersistWorker) (db : RedbStore) : RedbStore :=
  let kept := evictOldest env.lim.maxWorkers
    (db.workers.insert worker (trim env.lim.maxObsPerWorker state)) db.order
  { db with workers := kept.1, order := kept.2 }

/-- A new worker takes the next insertion number. -/
def enqueue (worker : NodeId) (db : RedbStore) : RedbStore :=
  { db with
    nextSeq := db.nextSeq + 1
    order := insertOrder db.nextSeq worker db.order }

/-- `none` where the insertion numbers overflow, which panics. -/
def mutate (worker : NodeId)
    (f : PersistWorker → PersistWorker) (db : RedbStore) : Option RedbStore :=
  match db.workers.lookup worker with
  | some stored => some (db.write env worker (f (json.readBack stored)))
  | none =>
    if db.nextSeq = 0xffffffffffffffff then none
    else some ((db.enqueue worker).write env worker (f {}))

end RedbStore

/-! ## Operations and queries -/

namespace PersistWorker

/-- The closure of `record`. -/
def addObservation (o : Observation) (s : PersistWorker) : PersistWorker :=
  if o.fp ∈ s.seen then s else { s with seen := s.seen ++ [o.fp], obs := s.obs ++ [o] }

/-- `push` and `remove(0)` while there are too many. -/
def remember (cap : Nat) (fp : UInt64) (seen : List UInt64) : List UInt64 :=
  let seen := seen ++ [fp]
  seen.drop (seen.length - cap)

/-- The closure of `observe_capability`. -/
def foldCapability (cap : Nat) (fp : UInt64) (r : MeasuredReceipt) (s : PersistWorker) :
    PersistWorker :=
  if fp ∈ s.capSeen then s
  else
    { s with
      capSeen := remember cap fp s.capSeen
      capability := s.capability.fold r.toReceipt }

/-- The closure of `observe_perf`. -/
def foldPerf (fp : UInt64) (r : MeasuredReceipt) (s : PersistWorker) : PersistWorker :=
  if fp ∈ s.perfSeen then s
  else
    { s with
      perfSeen := remember env.lim.maxObsPerWorker fp s.perfSeen
      perf := perfFold env.ops s.perf r.latencyMs r.observedInputBytes r.ts env.halfLifeSecs }

/-- The closure of `add_vouch`. -/
def addVouch (ops : FloatOps) (weight : F64) (s : PersistWorker) : PersistWorker :=
  { s with voucherTrust := ops.add s.voucherTrust weight }

/-- The closure of `penalize`. -/
def penalize (ops : FloatOps) (amount : F64) (s : PersistWorker) : PersistWorker :=
  { s with penalty := ops.add s.penalty amount }

end PersistWorker

namespace RedbStore

def record (r : MeasuredReceipt) (db : RedbStore) : Option RedbStore :=
  if !r.verdict.affectsReputation then some db
  else db.mutate env json r.workerId
    (PersistWorker.addObservation ⟨r.ts, r.verdict.isCorrect, .one, env.fingerprint r⟩)

def observeCapability (r : MeasuredReceipt) (db : RedbStore) : Option RedbStore :=
  if !r.verdict.isCorrect then some db
  else db.mutate env json r.workerId
    (PersistWorker.foldCapability env.lim.maxObsPerWorker (env.fingerprint r) r)

def observePerf (r : MeasuredReceipt) (db : RedbStore) : Option RedbStore :=
  if !r.verdict.isCorrect then some db
  else db.mutate env json r.workerId (PersistWorker.foldPerf env (env.fingerprint r) r)

def addVouch (worker : NodeId) (weight : F64) (db : RedbStore) : Option RedbStore :=
  db.mutate env json worker (PersistWorker.addVouch env.ops weight)

def penalize (worker : NodeId) (amount : F64) (db : RedbStore) : Option RedbStore :=
  db.mutate env json worker (PersistWorker.penalize env.ops amount)

/-- The trait's default, which the store does not override. -/
def recordRequester (_requester : NodeId) (_correct : Bool) (_ts : UInt64) (db : RedbStore) :
    Option RedbStore :=
  some db

def apply : StoreOp → Option RedbStore
  | .record r => db.record env json r
  | .observeCapability r => db.observeCapability env json r
  | .observePerf r => db.observePerf env json r
  | .addVouch worker weight => db.addVouch env json worker weight
  | .penalize worker amount => db.penalize env json worker amount
  | .recordRequester requester correct ts => db.recordRequester requester correct ts

/-- A panic drops the transaction. -/
def step (op : StoreOp) : RedbStore :=
  (db.apply env json op).getD db

def readWorker (worker : NodeId) (db : RedbStore) : Option PersistWorker :=
  (db.workers.lookup worker).map json.readBack

def answers : Answers where
  reputation worker now := (db.readWorker json worker).bind fun s => successRate env now s.obs
  observationCount worker := ((db.readWorker json worker).map fun s => s.obs.length).getD 0
  voucherTrust worker := ((db.readWorker json worker).map (·.voucherTrust)).getD .zero
  penalty worker := ((db.readWorker json worker).map (·.penalty)).getD .zero
  provenCapability worker := (db.readWorker json worker).bind fun s => s.capability.observed
  perfAggregate worker := (db.readWorker json worker).bind fun s => s.perf.observed
  trackedWorkers := db.workers.keys.card
  -- the trait's defaults
  requesterObservationCount _ := 0
  requesterReputation _ _ := none

end RedbStore

/-! ## Records that come back as they were -/

/-- The double is read back as it was written. -/
def JsonFloats.Exact (x : F64) : Prop :=
  json.reread x = some x

/-- Every double of the record is read back as it was written. -/
structure WorkerRecord.Durable (json : JsonFloats) (w : WorkerRecord) : Prop where
  weights : ∀ o ∈ w.observations, o.weight = .one
  voucherTrust : json.Exact w.voucherTrust
  penalty : json.Exact w.penalty
  latency : json.Exact w.perf.ewmaLatencyMs
  bytes : json.Exact w.perf.ewmaBytes
  throughput : json.Exact w.perf.ewmaThroughputBps

theorem WorkerRecord.durable_new : WorkerRecord.Durable json {} where
  weights _ h := absurd h List.not_mem_nil
  voucherTrust := json.reread_zero
  penalty := json.reread_zero
  latency := json.reread_zero
  bytes := json.reread_zero
  throughput := json.reread_zero

/-- The record as the database keeps it: the queues only. -/
def persistOf (w : WorkerRecord) : PersistWorker :=
  { obs := w.observations
    seen := w.observations.map Observation.fp
    voucherTrust := w.voucherTrust
    penalty := w.penalty
    capability := w.capability
    capSeen := w.capSeenOrder
    perf := w.perf
    perfSeen := w.perfSeenOrder }

theorem JsonFloats.mapM_rereadObs {obs : List Observation}
    (h : ∀ o ∈ obs, o.weight = .one) : obs.mapM json.rereadObs = some obs := by
  induction obs with
  | nil => rfl
  | cons o obs ih =>
    have hone := h o List.mem_cons_self
    have ho : json.rereadObs o = some o := by
      unfold JsonFloats.rereadObs
      rw [hone, json.reread_one, ← hone]
      rfl
    rw [List.mapM_cons, ho, ih fun o' ho' => h o' (List.mem_cons_of_mem o ho')]
    rfl

theorem WorkerRecord.Durable.readBack {json : JsonFloats} {w : WorkerRecord} (h : w.Durable json) :
    json.readBack (persistOf w) = persistOf w := by
  have hperf : json.rereadPerf w.perf = some w.perf := by
    unfold JsonFloats.rereadPerf
    rw [h.latency, h.bytes, h.throughput]
    rfl
  unfold JsonFloats.readBack persistOf
  rw [json.mapM_rereadObs h.weights, h.voucherTrust, h.penalty, hperf]
  rfl

/-! ## The closures agree -/

def WorkerChange.runPersist : WorkerChange → PersistWorker → PersistWorker
  | .observe o => PersistWorker.addObservation o
  | .capability fp r => PersistWorker.foldCapability env.lim.maxObsPerWorker fp r
  | .perf fp r => PersistWorker.foldPerf env fp r
  | .vouch weight => PersistWorker.addVouch env.ops weight
  | .penalize amount => PersistWorker.penalize env.ops amount

namespace RedbStore

variable {cap : Nat} {w : WorkerRecord}

/-- The fingerprints stay those of the observations. -/
theorem trimLoop_eq (cap : Nat) {obs : List Observation}
    (hnodup : (obs.map Observation.fp).Nodup) :
    trimLoop cap obs (obs.map Observation.fp) =
      (obs.drop (obs.length - cap), (obs.drop (obs.length - cap)).map Observation.fp) := by
  induction obs with
  | nil =>
    rw [List.drop_nil]
    rfl
  | cons o obs ih =>
    rw [trimLoop]
    split
    · next hmany =>
      rw [List.map_cons, List.nodup_cons] at hnodup
      have hrest : (o.fp :: obs.map Observation.fp).filter (· ≠ o.fp) =
          obs.map Observation.fp := by
        rw [List.filter_cons_of_neg (by simp)]
        refine List.filter_eq_self.mpr fun fp hfp => decide_eq_true ?_
        rintro rfl
        exact hnodup.1 hfp
      have hlen : (o :: obs).length - cap = obs.length - cap + 1 := by
        rw [List.length_cons] at hmany ⊢
        omega
      rw [List.map_cons, hrest, ih hnodup.2, hlen, List.drop_succ_cons]
    · next hfew => rw [Nat.sub_eq_zero_of_le (Nat.not_lt.mp hfew), List.drop_zero]

/-- A record whose fingerprints are those of its observations keeps the newest of both. -/
theorem trim_eq (cap : Nat) {state : PersistWorker}
    (hseen : state.seen = state.obs.map Observation.fp) (hnodup : state.seen.Nodup) :
    trim cap state =
      { state with
        obs := state.obs.drop (state.obs.length - cap)
        seen := (state.obs.drop (state.obs.length - cap)).map Observation.fp } := by
  unfold trim
  rw [hseen] at hnodup ⊢
  rw [trimLoop_eq cap hnodup]

theorem trim_persistOf (h : w.InStep cap) : trim cap (persistOf w) = persistOf w := by
  have hlen := h.window_le .observation
  rw [WorkerState.window, List.length_map] at hlen
  rw [trim_eq cap rfl (h.state.nodup .observation)]
  unfold persistOf
  rw [Nat.sub_eq_zero_of_le hlen, List.drop_zero]

theorem trim_addObservation (h : w.InStep cap) (o : Observation) :
    trim cap ((persistOf w).addObservation o) = persistOf (w.addObservation cap o) := by
  unfold PersistWorker.addObservation WorkerRecord.addObservation WorkerState.addObservation
  by_cases hseen : o.fp ∈ w.seen
  · have hmem : o.fp ∈ (persistOf w).seen := h.state.mem_seen.mp hseen
    rw [if_pos hmem, if_pos hseen, trim_persistOf h]
  · have hmem : o.fp ∉ (persistOf w).seen := fun hin => hseen (h.state.mem_seen.mpr hin)
    rw [if_neg hmem, if_neg hseen, trim_eq cap]
    · rfl
    · show w.observations.map Observation.fp ++ [o].map Observation.fp = _
      rw [← List.map_append]
      rfl
    · exact List.Nodup.append (h.state.nodup .observation) (List.nodup_singleton o.fp)
        (List.disjoint_singleton.mpr hmem)

theorem foldCapability_persistOf (h : w.InStep cap) (fp : UInt64) (r : MeasuredReceipt) :
    (persistOf w).foldCapability cap fp r = persistOf (w.foldCapability cap fp r) := by
  unfold PersistWorker.foldCapability WorkerRecord.foldCapability WorkerState.foldCapability
  have hguard : fp ∈ (persistOf w).capSeen ↔ fp ∈ w.capSeen := h.state.mem_capSeen.symm
  simp only [hguard]
  split
  · rfl
  · rfl

theorem foldPerf_persistOf (h : w.InStep cap) (env : StoreEnv) (fp : UInt64)
    (r : MeasuredReceipt) :
    (persistOf w).foldPerf env fp r = persistOf (w.foldPerf env fp r) := by
  unfold PersistWorker.foldPerf WorkerRecord.foldPerf
  have hguard : fp ∈ (persistOf w).perfSeen ↔ fp ∈ w.perfSeen := h.mem_perfSeen.symm
  simp only [hguard]
  split
  · rfl
  · rfl

/-- A closure of the database, with the trimming after it, is that of the in-memory store. -/
theorem trim_runPersist {env : StoreEnv} (h : w.InStep env.lim.maxObsPerWorker)
    (c : WorkerChange) :
    trim env.lim.maxObsPerWorker (c.runPersist env (persistOf w)) = persistOf (c.run env w) := by
  have hrun := trim_persistOf (h.run c)
  cases c with
  | observe o => exact trim_addObservation h o
  | capability fp r => exact (congrArg (trim _) (foldCapability_persistOf h fp r)).trans hrun
  | perf fp r => exact (congrArg (trim _) (foldPerf_persistOf h env fp r)).trans hrun
  | vouch weight | penalize amount => exact hrun

/-! ## The tables agree -/

variable {order : List (UInt64 × NodeId)}

/-- A number above all others goes to the end. -/
theorem insertOrder_eq_append {seq : UInt64} (h : ∀ p ∈ order, p.1 < seq) (worker : NodeId) :
    insertOrder seq worker order = order ++ [(seq, worker)] := by
  induction order with
  | nil => rfl
  | cons p order ih =>
    have hp := h p List.mem_cons_self
    rw [insertOrder, if_neg (UInt64.lt_asymm hp), if_neg (UInt64.ne_of_lt hp).symm,
      List.cons_append, ih fun q hq => h q (List.mem_cons_of_mem p hq)]

/-- The workers with the queue of the insertion numbers. -/
def table : EvictingMap NodeId PersistWorker :=
  ⟨db.workers, db.order.map Prod.snd⟩

theorem evictOldest_eq (cap : Nat) (workers : Finmap fun _ : NodeId => PersistWorker)
    (order : List (UInt64 × NodeId)) (next : UInt64) :
    table ⟨(evictOldest cap workers order).1, (evictOldest cap workers order).2, next⟩ =
      EvictingMap.shrink cap workers (order.map Prod.snd) := by
  induction order generalizing workers with
  | nil => rfl
  | cons p order ih =>
    rw [evictOldest, List.map_cons, EvictingMap.shrink]
    split
    · exact ih _
    · rfl

theorem mem_of_mem_evictOldest {workers : Finmap fun _ : NodeId => PersistWorker}
    {p : UInt64 × NodeId} (h : p ∈ (evictOldest cap workers order).2) : p ∈ order := by
  induction order generalizing workers with
  | nil => exact h
  | cons q order ih =>
    rw [evictOldest] at h
    split at h
    · exact List.mem_cons_of_mem q (ih h)
    · exact h

/-- Every insertion number is below the next one. -/
def Numbered : Prop :=
  ∀ p ∈ db.order, p.1 < db.nextSeq

variable {env : StoreEnv} {db : RedbStore} {b : FifoTable NodeId PersistWorker} {worker : NodeId}

theorem Numbered.order_enqueue (h : db.Numbered) (worker : NodeId) :
    (db.enqueue worker).order = db.order ++ [(db.nextSeq, worker)] :=
  insertOrder_eq_append h worker

theorem Numbered.enqueue (h : db.Numbered) (hroom : db.nextSeq ≠ 0xffffffffffffffff)
    (worker : NodeId) : (db.enqueue worker).Numbered := by
  have hnext : db.nextSeq < (db.enqueue worker).nextSeq := UInt64.lt_add_one hroom
  intro p hp
  rw [h.order_enqueue] at hp
  obtain hold | hnew := List.mem_append.mp hp
  · exact UInt64.lt_trans (h p hold) hnext
  · rwa [List.mem_singleton.mp hnew]

theorem Numbered.write (h : db.Numbered) (state : PersistWorker) :
    (db.write env worker state).Numbered :=
  fun p hp => h p (mem_of_mem_evictOldest hp)

/-- Writing a record of a worker that has its place in the queue puts it into the table. -/
theorem table_write {queue : List NodeId} (state : PersistWorker)
    (hb : EvictingMap.Represents ⟨db.workers, queue⟩ b) (hlen : b.order.length ≤ env.lim.maxWorkers)
    (horder : db.order.map Prod.snd = if worker ∈ queue then queue else queue ++ [worker]) :
    (db.write env worker state).table.Represents
      (b.put env.lim.maxWorkers worker (trim env.lim.maxObsPerWorker state)) := by
  have htable : (db.write env worker state).table = EvictingMap.shrink env.lim.maxWorkers
      (db.workers.insert worker (trim env.lim.maxObsPerWorker state)) (db.order.map Prod.snd) :=
    evictOldest_eq _ _ _ db.nextSeq
  rw [htable, horder]
  exact hb.shrink env.lim.workers_pos hlen worker _

end RedbStore

/-- Both stores hold the records of one table, which come back as they were written, and there are
    no requesters. -/
structure Mirrors (env : StoreEnv) (json : JsonFloats) (db : RedbStore) (s : Inner)
    (a : FifoTable NodeId WorkerRecord) : Prop where
  workers : s.workers.Represents a
  table : db.table.Represents (a.mapEntries persistOf)
  length_le : a.order.length ≤ env.lim.maxWorkers
  inStep : ∀ k w, a.entries k = some w → w.InStep env.lim.maxObsPerWorker
  durable : ∀ k w, a.entries k = some w → w.Durable json
  numbered : db.Numbered
  requesters : s.requesters = .empty

/-- The doubles that the closure writes come back as they were written. -/
def PersistWorker.ExactAfter (stored : PersistWorker) : WorkerChange → Prop
  | .observe _ => True
  | .capability _ _ => True
  | .perf fp r =>
    fp ∉ stored.perfSeen →
      let perf := perfFold env.ops stored.perf r.latencyMs r.observedInputBytes r.ts
        env.halfLifeSecs
      json.Exact perf.ewmaLatencyMs ∧ json.Exact perf.ewmaBytes ∧
        json.Exact perf.ewmaThroughputBps
  | .vouch weight => json.Exact (env.ops.add stored.voucherTrust weight)
  | .penalize amount => json.Exact (env.ops.add stored.penalty amount)

/-- The operation is not `record_requester`; a worker that is new finds an insertion number, and the
    doubles that are written come back as they were. -/
def StoreOp.Kept (op : StoreOp) : Prop :=
  (∀ requester correct ts, op ≠ .recordRequester requester correct ts) ∧
    ∀ worker c, op.change env = some (worker, c) →
      (db.workers.lookup worker = none → db.nextSeq ≠ 0xffffffffffffffff) ∧
        ((db.readWorker json worker).getD {}).ExactAfter env json c

section Simulation

variable {env : StoreEnv} {json : JsonFloats} {db : RedbStore} {s : Inner}
  {a : FifoTable NodeId WorkerRecord}

variable {op : StoreOp} {c : WorkerChange}

/-- Receipts are recorded with weight one. -/
theorem StoreOp.weight_of_change {worker : NodeId} {o : Observation}
    (h : op.change env = some (worker, .observe o)) : o.weight = .one := by
  cases op with
  | record r =>
    rw [StoreOp.change, Option.ite_none_left_eq_some] at h
    obtain ⟨-, ⟨⟩⟩ := h
    rfl
  | observeCapability r | observePerf r =>
    rw [StoreOp.change, Option.ite_none_left_eq_some] at h
    obtain ⟨-, ⟨⟩⟩ := h
  | addVouch worker weight | penalize worker amount | recordRequester requester correct ts =>
    cases h

variable {w : WorkerRecord}

theorem WorkerRecord.Durable.addObservation (h : w.Durable json) (cap : Nat) {o : Observation}
    (ho : o.weight = .one) : (w.addObservation cap o).Durable json := by
  refine ⟨fun o' ho' => ?_, h.voucherTrust, h.penalty, h.latency, h.bytes, h.throughput⟩
  unfold WorkerRecord.addObservation WorkerState.addObservation at ho'
  split at ho'
  · exact h.weights o' ho'
  · obtain hold | hnew := List.mem_append.mp (List.mem_of_mem_drop ho')
    · exact h.weights o' hold
    · rw [List.mem_singleton.mp hnew, ho]

theorem WorkerRecord.Durable.foldCapability (h : w.Durable json) (cap : Nat) (fp : UInt64)
    (r : MeasuredReceipt) : (w.foldCapability cap fp r).Durable json := by
  refine ⟨fun o ho => ?_, h.voucherTrust, h.penalty, h.latency, h.bytes, h.throughput⟩
  unfold WorkerRecord.foldCapability WorkerState.foldCapability at ho
  split at ho <;> exact h.weights o ho

theorem WorkerRecord.Durable.foldPerf (h : w.Durable json) {cap : Nat} (hstep : w.InStep cap)
    {fp : UInt64} {r : MeasuredReceipt} (hexact : (persistOf w).ExactAfter env json (.perf fp r)) :
    (w.foldPerf env fp r).Durable json := by
  unfold WorkerRecord.foldPerf
  split
  · exact h
  · next hfresh =>
    obtain ⟨hlatency, hbytes, hthroughput⟩ :=
      hexact fun hmem => hfresh (hstep.mem_perfSeen.mpr hmem)
    exact ⟨h.weights, h.voucherTrust, h.penalty, hlatency, hbytes, hthroughput⟩

theorem WorkerRecord.Durable.run (h : w.Durable json) {cap : Nat} (hstep : w.InStep cap)
    (hone : ∀ o, c = .observe o → o.weight = .one) (hexact : (persistOf w).ExactAfter env json c) :
    (c.run env w).Durable json := by
  cases c with
  | observe o => exact h.addObservation _ (hone o rfl)
  | capability fp r => exact h.foldCapability _ fp r
  | perf fp r => exact h.foldPerf hstep hexact
  | vouch weight => exact ⟨h.weights, hexact, h.penalty, h.latency, h.bytes, h.throughput⟩
  | penalize amount =>
    exact ⟨h.weights, h.voucherTrust, hexact, h.latency, h.bytes, h.throughput⟩

theorem mirrors_empty (env : StoreEnv) (json : JsonFloats) :
    Mirrors env json .empty .empty .empty where
  workers := EvictingMap.represents_empty
  table := ⟨rfl, fun _ => rfl⟩
  length_le := Nat.zero_le _
  inStep k w h := by cases h
  durable k w h := by cases h
  numbered p hp := absurd hp List.not_mem_nil
  requesters := rfl

section

variable (h : Mirrors env json db s a)

include h

variable (worker : NodeId)

theorem Mirrors.lookup : db.workers.lookup worker = (a.entries worker).map persistOf :=
  h.table.lookup worker

/-- A worker's record is read back as it is in memory. -/
theorem Mirrors.readWorker : db.readWorker json worker = (a.entries worker).map persistOf := by
  rw [RedbStore.readWorker, h.lookup]
  cases hw : a.entries worker with
  | none => rfl
  | some w => exact congrArg some (h.durable worker w hw).readBack

theorem Mirrors.answers : db.answers env json = s.answers env := by
  have hcard : db.workers.keys.card = s.workers.map.keys.card := by
    rw [h.workers.card, h.workers.queue]
    exact h.table.card.trans (congrArg List.length h.table.queue)
  unfold RedbStore.answers Inner.answers
  simp only [h.readWorker, h.workers.lookup, hcard, h.requesters, Option.map_map, Option.bind_map]
  rfl

theorem Mirrors.mem_queue_iff : worker ∈ db.table.queue ↔ (a.entries worker).isSome = true := by
  rw [h.table.queue]
  exact a.mem_order worker

/-- The record is written for a worker that has its place in the queue of the database. -/
theorem Mirrors.write {worker : NodeId} (placed : RedbStore)
    (hworkers : placed.workers = db.workers) (horder : placed.order.map Prod.snd =
      if worker ∈ db.table.queue then db.table.queue else db.table.queue ++ [worker])
    (hnumbered : placed.Numbered)
    (hdurable : (c.run env ((a.entries worker).getD {})).Durable json) :
    Mirrors env json
      (placed.write env worker (c.runPersist env (persistOf ((a.entries worker).getD {}))))
      (s.withWorker env worker (c.run env))
      (a.put env.lim.maxWorkers worker (c.run env ((a.entries worker).getD {}))) := by
  have hpos := env.lim.workers_pos
  have hstep := EvictingMap.getD_entry (WorkerRecord.inStep_new _) h.inStep worker
  refine ⟨h.workers.update env.lim.maxWorkers worker {} (c.run env), ?_, ?_,
    EvictingMap.entry_put hpos
    (hstep.run c) h.inStep, EvictingMap.entry_put hpos hdurable h.durable,
    hnumbered.write _, h.requesters⟩
  · rw [FifoTable.mapEntries_put hpos, ← RedbStore.trim_runPersist hstep c]
    exact RedbStore.table_write _ (hworkers ▸ h.table) h.length_le horder
  · rw [FifoTable.order_put hpos]
    exact Window.length_enter_le h.length_le

/-- A change of one worker keeps the two stores alike. -/
theorem Mirrors.mutate {worker : NodeId} (hone : ∀ o, c = .observe o → o.weight = .one)
    (hnumber : db.workers.lookup worker = none → db.nextSeq ≠ 0xffffffffffffffff)
    (hexact : ((db.readWorker json worker).getD {}).ExactAfter env json c) :
    ∃ db' a', db.mutate env json worker (c.runPersist env) = some db' ∧
      Mirrors env json db' (s.withWorker env worker (c.run env)) a' := by
  have hdurable : (c.run env ((a.entries worker).getD {})).Durable json := by
    have hrecord := EvictingMap.getD_entry (WorkerRecord.durable_new json) h.durable worker
    have hstep := EvictingMap.getD_entry (WorkerRecord.inStep_new _) h.inStep worker
    rw [h.readWorker] at hexact
    exact hrecord.run hstep hone (Option.getD_map persistOf {} (a.entries worker) ▸ hexact)
  have hlookup := h.lookup worker
  cases hw : a.entries worker with
  | some w =>
    have hmem : worker ∈ db.table.queue := (h.mem_queue_iff worker).mpr (by rw [hw]; rfl)
    have hnext := h.write db rfl (if_pos hmem).symm h.numbered hdurable
    rw [hw] at hlookup hnext
    refine ⟨_, _, ?_, hnext⟩
    rw [RedbStore.mutate, hlookup]
    show some (db.write env worker (c.runPersist env (json.readBack (persistOf w)))) = _
    rw [(h.durable worker w hw).readBack]
    rfl
  | none =>
    have hout : worker ∉ db.table.queue := by
      rw [h.mem_queue_iff, hw]
      exact Bool.false_ne_true
    rw [hw] at hlookup
    have hroom := hnumber hlookup
    have horder : (db.enqueue worker).order.map Prod.snd = db.table.queue ++ [worker] := by
      rw [h.numbered.order_enqueue, List.map_append]
      rfl
    have hnext := h.write (db.enqueue worker) rfl (horder.trans (if_neg hout).symm)
      (h.numbered.enqueue hroom worker) hdurable
    rw [hw] at hnext
    refine ⟨_, _, ?_, hnext⟩
    rw [RedbStore.mutate, hlookup]
    exact if_neg hroom

end

theorem RedbStore.apply_eq (db : RedbStore) (op : StoreOp) :
    db.apply env json op = (op.change env).elim (some db) fun change =>
      db.mutate env json change.1 (change.2.runPersist env) := by
  cases op with
  | record r | observeCapability r | observePerf r =>
    rw [StoreOp.change]
    split
    · next hneutral => exact if_pos hneutral
    · next hverdict => exact if_neg hverdict
  | addVouch worker weight | penalize worker amount | recordRequester requester correct ts => rfl

theorem Mirrors.step (h : Mirrors env json db s a) (hop : op.Kept env json db) :
    ∃ a', Mirrors env json (db.step env json op) (s.step env op) a' := by
  obtain ⟨hrequester, hchange⟩ := hop
  obtain hstep | ⟨requester, correct, ts, hop, -⟩ := Inner.step_eq op s
  · rw [RedbStore.step, RedbStore.apply_eq, hstep]
    cases hc : op.change env with
    | some change =>
      obtain ⟨worker, c⟩ := change
      obtain ⟨hnumber, hexact⟩ := hchange worker c hc
      have hone : ∀ o, c = .observe o → o.weight = .one := by
        rintro o rfl
        exact StoreOp.weight_of_change hc
      obtain ⟨db', a', hmutate, hnext⟩ := h.mutate hone hnumber hexact
      rw [Option.elim_some, hmutate]
      exact ⟨a', hnext⟩
    | none => exact ⟨a, h⟩
  · exact absurd hop (hrequester requester correct ts)

end Simulation

/-! ## Both stores side by side -/

/-- The two stores take the same operations. -/
def storesStep (s : RedbStore × Inner) (op : StoreOp) : RedbStore × Inner :=
  (s.1.step env json op, s.2.step env op)

def SameAnswers (s : RedbStore × Inner) : Prop :=
  s.1.answers env json = s.2.answers env

/-- The in-memory store counts the requester's job and the database does not. -/
theorem requester_answers_differ (s : RedbStore × Inner)
    (requester : NodeId) (correct : Bool) (ts : UInt64) :
    ¬ SameAnswers env json (storesStep env json s (.recordRequester requester correct ts)) := by
  intro hsame
  have hcount := congrFun (congrArg Answers.requesterObservationCount hsame) requester
  have hpos := env.lim.obs_pos
  have hlookup := EvictingMap.lookup_update_self env.lim.maxWorkers requester []
    (Inner.addHistory env.lim.maxObsPerWorker ⟨ts, correct, .one, 0⟩) s.2.requesters
  simp only [storesStep, Inner.step, Inner.recordRequester, Inner.answers, hlookup,
    RedbStore.answers, Option.map_some, Option.getD_some, Inner.addHistory, List.length_drop,
    List.length_append, List.length_singleton] at hcount
  omega

/-- As long as the operations are such that the database keeps what they write, it answers every
    query as the in-memory store does, evictions included. -/
theorem stores_answer_alike (env : StoreEnv) (json : JsonFloats) (ops : List StoreOp)
    (h : Run.Guarded (storesStep env json) (fun s op => op.Kept env json s.1)
      (.empty, .empty) ops) :
    Run.Always (storesStep env json) (SameAnswers env json) (.empty, .empty) ops := by
  have hmirrors : Run.Always (storesStep env json)
      (fun s => ∃ a, Mirrors env json s.1 s.2 a) (.empty, .empty) ops :=
    Run.always_of_guarded (fun _ _ hs hop => hs.elim fun _ ha => ha.step hop)
      ⟨.empty, mirrors_empty env json⟩ h
  exact hmirrors.mono fun s hs => hs.elim fun _ ha => ha.answers

/-- A store for one worker with two observations; sums are right where the first operand is 0. -/
def smallEnv : StoreEnv where
  blake3 input := input.take 8
  ops :=
    { ofU64 := fun _ => .one
      add := fun x y => if x = .zero then y else x
      sub := fun x _ => x
      mul := fun x _ => x
      div := fun x _ => x
      powf := fun x _ => x
      max := fun x _ => x }
  halfLifeSecs := .one
  lim := .ofConfig 2 1

def exactJson : JsonFloats :=
  ⟨some, rfl, rfl⟩

/-- Two workers, of which the second evicts the first. -/
def twoWorkers : List StoreOp :=
  [.addVouch ⟨"b3:a"⟩ .one, .penalize ⟨"b3:b"⟩ .one]

theorem exactAfter_exactJson (stored : PersistWorker) (c : WorkerChange) :
    stored.ExactAfter env exactJson c := by
  cases c with
  | observe o | capability fp r => trivial
  | perf fp r => exact fun _ => ⟨rfl, rfl, rfl⟩
  | vouch weight | penalize amount => rfl

theorem twoWorkers_kept : Run.Guarded (storesStep smallEnv exactJson)
    (fun s op => op.Kept smallEnv exactJson s.1) (.empty, .empty) twoWorkers := by
  refine ⟨⟨?_, ?_⟩, ⟨?_, ?_⟩, trivial⟩
  · rintro _ _ _ ⟨⟩
  · rintro _ c ⟨⟩
    exact ⟨fun _ => by decide, exactAfter_exactJson _ _ _⟩
  · rintro _ _ _ ⟨⟩
  · rintro _ c ⟨⟩
    exact ⟨fun _ => by decide, exactAfter_exactJson _ _ _⟩

theorem two_workers_answered_alike :
    Run.Guarded (storesStep smallEnv exactJson) (fun s op => op.Kept smallEnv exactJson s.1)
        (.empty, .empty) twoWorkers ∧
      Run.Always (storesStep smallEnv exactJson) (SameAnswers smallEnv exactJson)
        (.empty, .empty) twoWorkers :=
  ⟨twoWorkers_kept, stores_answer_alike smallEnv exactJson twoWorkers twoWorkers_kept⟩

/-- After one job of a requester the in-memory store has its age at one and the database at none. -/
theorem requester_age_is_lost :
    let s := storesStep smallEnv exactJson (.empty, .empty) (.recordRequester ⟨"b3:req"⟩ true 100)
    (s.2.answers smallEnv).requesterObservationCount ⟨"b3:req"⟩ = 1 ∧
      (s.1.answers smallEnv exactJson).requesterObservationCount ⟨"b3:req"⟩ = 0 ∧
      ¬ Run.Always (storesStep smallEnv exactJson) (SameAnswers smallEnv exactJson)
        (.empty, .empty) [.recordRequester ⟨"b3:req"⟩ true 100] := by
  refine ⟨by decide, rfl, ?_⟩
  exact fun h => requester_answers_differ smallEnv exactJson _ _ _ _ h.2

end Duckton.Trust
