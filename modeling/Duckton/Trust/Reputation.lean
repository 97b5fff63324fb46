/-
  The bounded trust store (trust/reputation.rs): receipts become observations of a worker and
  successes of its proven capability, each receipt at most once as long as it is remembered.

  A receipt is identified by a fingerprint of job and requester. Each worker has two memories of
  fingerprints, one for `record` and one for `observe_capability`, and each keeps the newest
  `max_obs_per_worker`; the store keeps `max_workers` workers, the first to come the first to go.
  `step_spec` says what a call does to them.

  BLAKE3 is a parameter. Vouchers, penalties and the performance aggregate are not touched by the
  two calls and left out. The redb store follows the same rules.
-/
import Duckton.Lib.FifoTable
import Duckton.Lib.Octets
import Duckton.Proto.Messages
import Duckton.Trust.Canonical

namespace Duckton.Proto

namespace Verdict

def isCorrect : Verdict → Bool
  | .correct => true
  | _ => false

def affectsReputation (v : Verdict) : Bool :=
  v.isCorrect || v.isProviderFault

end Verdict

end Duckton.Proto

namespace Duckton.Trust

open Duckton.Proto

/-! ## The store -/

/-- What the store reads of a receipt. -/
structure Receipt where
  jobId : String
  workerId : NodeId
  requesterId : NodeId
  verdict : Verdict
  ts : UInt64
  observedInputBytes : UInt64
  observedResultRows : UInt64
  observedResultBytes : UInt64
  deriving DecidableEq, Repr

variable (blake3 : Bytes → Bytes)

def receiptFingerprint (r : Receipt) : UInt64 :=
  UInt64.ofNat (Octets.ofLe ((blake3 (utf8 "duckdb-p2p-receipt-fp-v1" ++ utf8 r.jobId ++ [0] ++
    utf8 r.requesterId.id)).take 8))

structure Observation where
  ts : UInt64
  correct : Bool
  weight : F64
  fp : UInt64
  deriving DecidableEq, Repr

structure ProvenCapability where
  maxInputBytes : UInt64 := 0
  maxResultRows : UInt64 := 0
  maxResultBytes : UInt64 := 0
  successes : Nat := 0
  lastTs : UInt64 := 0
  deriving DecidableEq, Repr

/-- Oldest entries first. -/
structure WorkerState where
  observations : List Observation := []
  seen : Finset UInt64 := ∅
  capability : ProvenCapability := {}
  capSeen : Finset UInt64 := ∅
  capSeenOrder : List UInt64 := []
  deriving DecidableEq

/-- Both limits are raised to at least one. -/
structure StoreLimits where
  maxObsPerWorker : Nat
  maxWorkers : Nat
  obs_pos : 1 ≤ maxObsPerWorker
  workers_pos : 1 ≤ maxWorkers

/-- `InMemoryTrustStore::new` -/
def StoreLimits.ofConfig (receiptCachePerWorker trustStoreCapacity : Nat) : StoreLimits :=
  ⟨max receiptCachePerWorker 1, max trustStoreCapacity 1,
    FifoTable.one_le_max_one receiptCachePerWorker, FifoTable.one_le_max_one trustStoreCapacity⟩

/-- The workers with their states. -/
abbrev TrustStore := FifoTable NodeId WorkerState

variable (lim : StoreLimits) (s : TrustStore)

namespace TrustStore

/-- The worker's state, a new one for a worker that is not there. -/
def stateOf (worker : NodeId) : WorkerState :=
  (s.entries worker).getD {}

/-- `with_worker`: a worker that is not there enters with a new state. -/
def withWorker (worker : NodeId) (f : WorkerState → WorkerState) (s : TrustStore) : TrustStore :=
  s.put lim.maxWorkers worker (f (s.stateOf worker))

end TrustStore

/-- The closure of `record`. -/
def WorkerState.addObservation (cap : Nat) (o : Observation) (state : WorkerState) : WorkerState :=
  if o.fp ∈ state.seen then state
  else
    let observations := state.observations ++ [o]
    let leaving := observations.take (observations.length - cap)
    { state with
      observations := observations.drop (observations.length - cap)
      seen := insert o.fp state.seen \ (leaving.map Observation.fp).toFinset }

/-- `u32::saturating_add(1)` -/
def successesAdd (n : Nat) : Nat :=
  min (n + 1) (2 ^ 32 - 1)

def ProvenCapability.fold (c : ProvenCapability) (r : Receipt) : ProvenCapability :=
  { maxInputBytes := max c.maxInputBytes r.observedInputBytes
    maxResultRows := max c.maxResultRows r.observedResultRows
    maxResultBytes := max c.maxResultBytes r.observedResultBytes
    successes := successesAdd c.successes
    lastTs := max c.lastTs r.ts }

/-- The closure of `observe_capability`. -/
def WorkerState.foldCapability (cap : Nat) (fp : UInt64) (r : Receipt) (state : WorkerState) :
    WorkerState :=
  if fp ∈ state.capSeen then state
  else
    let order := state.capSeenOrder ++ [fp]
    { state with
      capability := state.capability.fold r
      capSeen := insert fp state.capSeen \ (order.take (order.length - cap)).toFinset
      capSeenOrder := order.drop (order.length - cap) }

namespace TrustStore

def record (r : Receipt) (s : TrustStore) : TrustStore :=
  if !r.verdict.affectsReputation then s
  else s.withWorker lim r.workerId (WorkerState.addObservation lim.maxObsPerWorker
    ⟨r.ts, r.verdict.isCorrect, .one, receiptFingerprint blake3 r⟩)

def observeCapability (r : Receipt) (s : TrustStore) : TrustStore :=
  if !r.verdict.isCorrect then s
  else s.withWorker lim r.workerId
    (WorkerState.foldCapability lim.maxObsPerWorker (receiptFingerprint blake3 r) r)

end TrustStore

/-! ## Calls and what they count -/

/-- What a receipt can be counted as. -/
inductive ReceiptUse where
  | observation
  | success
  deriving DecidableEq, Repr

/-- A receipt as the store tells it from others. -/
structure ReceiptKey where
  use : ReceiptUse
  worker : NodeId
  fp : UInt64
  deriving DecidableEq, Repr

inductive Call where
  | record (r : Receipt)
  | observeCapability (r : Receipt)
  deriving DecidableEq, Repr

/-- What the call presents; a receipt whose verdict is neutral for the call presents nothing. -/
def Call.key : Call → Option ReceiptKey
  | .record r =>
    if r.verdict.affectsReputation then
      some ⟨.observation, r.workerId, receiptFingerprint blake3 r⟩
    else none
  | .observeCapability r =>
    if r.verdict.isCorrect then some ⟨.success, r.workerId, receiptFingerprint blake3 r⟩
    else none

namespace TrustStore

def step : Call → TrustStore
  | .record r => s.record blake3 lim r
  | .observeCapability r => s.observeCapability blake3 lim r

/-- The fingerprints that are not counted (again). -/
def memory (use : ReceiptUse) (worker : NodeId) : Finset UInt64 :=
  match s.entries worker with
  | none => ∅
  | some state => match use with
    | .observation => state.seen
    | .success => state.capSeen

/-- The receipt that the call adds as an observation or a success. -/
def contribution (c : Call) : List ReceiptKey :=
  match c.key blake3 with
  | none => []
  | some x => if x.fp ∈ s.memory x.use x.worker then [] else [x]

def contributions (blake3 : Bytes → Bytes) (lim : StoreLimits) : TrustStore → List Call →
    List ReceiptKey
  | _, [] => []
  | s, c :: cs => s.contribution blake3 c ++ contributions blake3 lim (s.step blake3 lim c) cs

end TrustStore

/-! ## The memories are windows -/

/-- The fingerprints in a memory, oldest first. -/
def WorkerState.window (state : WorkerState) : ReceiptUse → List UInt64
  | .observation => state.observations.map Observation.fp
  | .success => state.capSeenOrder

/-- The sets hold what the queues hold. -/
structure WorkerState.Consistent (state : WorkerState) : Prop where
  seen : state.seen = (state.window .observation).toFinset
  capSeen : state.capSeen = (state.window .success).toFinset
  nodup : ∀ use, (state.window use).Nodup

theorem WorkerState.window_new (use : ReceiptUse) : WorkerState.window {} use = [] := by
  cases use <;> rfl

theorem WorkerState.consistent_new : WorkerState.Consistent {} where
  seen := rfl
  capSeen := rfl
  nodup use := by cases use <;> exact List.nodup_nil

/-- Of a set in step with a queue the entries that leave are removed. -/
theorem toFinset_sdiff_take {l : List UInt64} (h : l.Nodup) (n : Nat) :
    l.toFinset \ (l.take n).toFinset = (l.drop n).toFinset := by
  ext x
  rw [Finset.mem_sdiff, List.mem_toFinset, List.mem_toFinset, List.mem_toFinset,
    FifoTable.mem_drop_iff h]

theorem insert_sdiff_take {l : List UInt64} {x : UInt64} (h : l.Nodup) (hx : x ∉ l) (n : Nat) :
    insert x l.toFinset \ ((l ++ [x]).take n).toFinset = ((l ++ [x]).drop n).toFinset := by
  have hnodup : (l ++ [x]).Nodup := List.Nodup.append h (List.nodup_singleton x)
    (List.disjoint_singleton.mpr hx)
  have hinsert : insert x l.toFinset = (l ++ [x]).toFinset := by
    ext y
    rw [Finset.mem_insert, List.mem_toFinset, List.mem_toFinset, List.mem_append,
      List.mem_singleton]
    exact or_comm
  rw [hinsert, toFinset_sdiff_take hnodup]

namespace WorkerState

variable {state : WorkerState}

theorem Consistent.mem_seen (h : state.Consistent) {fp : UInt64} :
    fp ∈ state.seen ↔ fp ∈ state.window .observation := by
  rw [h.seen, List.mem_toFinset]

theorem Consistent.mem_capSeen (h : state.Consistent) {fp : UInt64} :
    fp ∈ state.capSeen ↔ fp ∈ state.window .success := by
  rw [h.capSeen, List.mem_toFinset]

theorem addObservation_spec (h : state.Consistent) (cap : Nat) (o : Observation) :
    (state.addObservation cap o).window .observation =
        Window.enter cap (state.window .observation) o.fp ∧
      (state.addObservation cap o).window .success = state.window .success ∧
      (state.addObservation cap o).Consistent := by
  by_cases hseen : o.fp ∈ state.seen
  · rw [addObservation, if_pos hseen, Window.enter_of_mem (h.mem_seen.mp hseen)]
    exact ⟨rfl, rfl, h⟩
  · have hfresh : o.fp ∉ state.window .observation := fun hmem => hseen (h.mem_seen.mpr hmem)
    have hmap : (state.observations ++ [o]).map Observation.fp =
        state.window .observation ++ [o.fp] := List.map_append
    have hlen : (state.observations ++ [o]).length =
        (state.window .observation).length + 1 := by
      rw [← List.length_map Observation.fp, hmap, List.length_append, List.length_singleton]
    have hwindow : (state.addObservation cap o).window .observation =
        Window.enter cap (state.window .observation) o.fp := by
      rw [addObservation, if_neg hseen, Window.enter_of_not_mem hfresh, ← hlen, ← hmap]
      exact List.map_drop
    have hother : (state.addObservation cap o).window .success = state.window .success := by
      rw [addObservation, if_neg hseen]
      rfl
    refine ⟨hwindow, hother, ?_, ?_, ?_⟩
    · rw [hwindow, Window.enter_of_not_mem hfresh, ← insert_sdiff_take (h.nodup _) hfresh,
        addObservation, if_neg hseen, ← hlen, ← hmap, ← List.map_take, ← h.seen]
    · rw [hother, addObservation, if_neg hseen]
      exact h.capSeen
    · rintro (_ | _)
      · rw [hwindow]
        exact Window.nodup_enter _ (h.nodup _) _
      · rw [hother]
        exact h.nodup _

theorem foldCapability_spec (h : state.Consistent) (cap : Nat) (fp : UInt64) (r : Receipt) :
    (state.foldCapability cap fp r).window .success =
        Window.enter cap (state.window .success) fp ∧
      (state.foldCapability cap fp r).window .observation = state.window .observation ∧
      (state.foldCapability cap fp r).Consistent := by
  by_cases hseen : fp ∈ state.capSeen
  · rw [foldCapability, if_pos hseen, Window.enter_of_mem (h.mem_capSeen.mp hseen)]
    exact ⟨rfl, rfl, h⟩
  · have hfresh : fp ∉ state.window .success := fun hmem => hseen (h.mem_capSeen.mpr hmem)
    have hlen : (state.capSeenOrder ++ [fp]).length = (state.window .success).length + 1 :=
      List.length_append
    have hwindow : (state.foldCapability cap fp r).window .success =
        Window.enter cap (state.window .success) fp := by
      rw [foldCapability, if_neg hseen, Window.enter_of_not_mem hfresh, ← hlen]
      rfl
    have hother : (state.foldCapability cap fp r).window .observation =
        state.window .observation := by
      rw [foldCapability, if_neg hseen]
      rfl
    refine ⟨hwindow, hother, ?_, ?_, ?_⟩
    · rw [hother, foldCapability, if_neg hseen]
      exact h.seen
    · rw [hwindow, Window.enter_of_not_mem hfresh, ← insert_sdiff_take (h.nodup _) hfresh,
        foldCapability, if_neg hseen, ← hlen, ← h.capSeen]
      rfl
    · rintro (_ | _)
      · rw [hother]
        exact h.nodup _
      · rw [hwindow]
        exact Window.nodup_enter _ (h.nodup _) _

end WorkerState

namespace TrustStore

variable {s : TrustStore} {lim : StoreLimits} {worker : NodeId}

def window (s : TrustStore) (use : ReceiptUse) (worker : NodeId) : List UInt64 :=
  (s.stateOf worker).window use

def Consistent (s : TrustStore) : Prop :=
  ∀ worker, (s.stateOf worker).Consistent

theorem consistent_empty : Consistent .empty :=
  fun _ => WorkerState.consistent_new

theorem Consistent.mem_memory (h : s.Consistent) {use : ReceiptUse} {fp : UInt64} :
    fp ∈ s.memory use worker ↔ fp ∈ s.window use worker := by
  have hstate := h worker
  unfold memory window
  unfold stateOf at hstate ⊢
  cases hworker : s.entries worker with
  | none => cases use <;> simp [WorkerState.window]
  | some state =>
    rw [hworker, Option.getD_some] at hstate
    cases use with
    | observation => exact hstate.mem_seen
    | success => exact hstate.mem_capSeen

theorem stateOf_eq_new (hworker : worker ∉ s.order) : s.stateOf worker = {} := by
  rw [stateOf, Option.not_isSome_iff_eq_none.mp (mt (s.mem_order worker).mpr hworker)]
  rfl

/-- The worker's state is changed, and the workers that leave lose theirs. -/
theorem stateOf_withWorker (lim : StoreLimits) (s : TrustStore) (worker : NodeId)
    (f : WorkerState → WorkerState) (other : NodeId) :
    (s.withWorker lim worker f).stateOf other =
      if other = worker then f (s.stateOf worker)
      else if other ∈ Window.enter lim.maxWorkers s.order worker then s.stateOf other
      else {} := by
  rw [stateOf, withWorker, FifoTable.entries_put lim.workers_pos]
  by_cases hworker : other = worker
  · rw [if_pos hworker, if_pos hworker]
    rfl
  · rw [if_neg hworker, if_neg hworker]
    split <;> rfl

variable {f : WorkerState → WorkerState} {c : Call}

theorem Consistent.withWorker (h : s.Consistent) (hf : (f (s.stateOf worker)).Consistent) :
    (s.withWorker lim worker f).Consistent := by
  intro other
  rw [stateOf_withWorker]
  split
  · exact hf
  · split
    · exact h other
    · exact WorkerState.consistent_new

/-! ## A call -/

/-- What the call that presents `x` is for the memory of a worker in this use. -/
def opFor (lim : StoreLimits) (order : List NodeId) (use : ReceiptUse) (worker : NodeId)
    (x : ReceiptKey) : Window.Op UInt64 :=
  if worker = x.worker then
    if use = x.use then .push x.fp else .skip
  else if worker ∈ order ∧ worker ∉ Window.enter lim.maxWorkers order x.worker then .clear
  else .skip

variable {blake3 : Bytes → Bytes}

theorem step_of_key_none (hkey : c.key blake3 = none) : s.step blake3 lim c = s := by
  cases c with
  | record r | observeCapability r =>
    rw [Call.key, ite_eq_right_iff] at hkey
    exact if_pos (Bool.not_eq_true' _ ▸ Bool.eq_false_iff.mpr fun h => nomatch hkey h)

/-- A call that presents a receipt enters it in one window of its worker. -/
theorem step_of_key_some (lim : StoreLimits) (h : s.Consistent) {x : ReceiptKey}
    (hkey : c.key blake3 = some x) :
    ∃ f : WorkerState → WorkerState,
      s.step blake3 lim c = s.withWorker lim x.worker f ∧
      (f (s.stateOf x.worker)).Consistent ∧
      (∀ use, (f (s.stateOf x.worker)).window use =
        if use = x.use then Window.enter lim.maxObsPerWorker (s.window use x.worker) x.fp
        else s.window use x.worker) ∧
      (x.fp ∈ s.window x.use x.worker → f (s.stateOf x.worker) = s.stateOf x.worker) := by
  have hstate := h x.worker
  cases c with
  | record r =>
    rw [Call.key, Option.ite_none_right_eq_some] at hkey
    obtain ⟨hverdict, ⟨⟩⟩ := hkey
    obtain ⟨hwindow, hother, hconsistent⟩ := WorkerState.addObservation_spec hstate
      lim.maxObsPerWorker ⟨r.ts, r.verdict.isCorrect, .one, receiptFingerprint blake3 r⟩
    refine ⟨_, if_neg (by rw [hverdict]; decide), hconsistent, ?_,
      fun hmem => if_pos (hstate.mem_seen.mpr hmem)⟩
    rintro (_ | _)
    · exact hwindow
    · exact hother
  | observeCapability r =>
    rw [Call.key, Option.ite_none_right_eq_some] at hkey
    obtain ⟨hverdict, ⟨⟩⟩ := hkey
    obtain ⟨hwindow, hother, hconsistent⟩ := WorkerState.foldCapability_spec hstate
      lim.maxObsPerWorker (receiptFingerprint blake3 r) r
    refine ⟨_, if_neg (by rw [hverdict]; decide), hconsistent, ?_,
      fun hmem => if_pos (hstate.mem_capSeen.mpr hmem)⟩
    rintro (_ | _)
    · exact hother
    · exact hwindow

/-- One call: the table of workers is a window, and so is each memory. -/
theorem step_spec (lim : StoreLimits) (h : s.Consistent) {x : ReceiptKey}
    (hkey : c.key blake3 = some x) :
    (s.step blake3 lim c).order = Window.enter lim.maxWorkers s.order x.worker ∧
      (∀ use worker, (s.step blake3 lim c).window use worker =
        Window.step lim.maxObsPerWorker (s.window use worker)
          (opFor lim s.order use worker x)) ∧
      (s.step blake3 lim c).Consistent := by
  obtain ⟨f, hstep, hconsistent, hwindow, -⟩ := step_of_key_some lim h hkey
  rw [hstep]
  refine ⟨FifoTable.order_put lim.workers_pos _ _ _, ?_, h.withWorker hconsistent⟩
  intro use worker
  rw [window, stateOf_withWorker, opFor]
  by_cases hworker : worker = x.worker
  · rw [if_pos hworker, if_pos hworker, hwindow, hworker]
    split <;> rfl
  · rw [if_neg hworker, if_neg hworker]
    by_cases hstays : worker ∈ Window.enter lim.maxWorkers s.order x.worker
    · rw [if_pos hstays, if_neg fun hleaves => hleaves.2 hstays]
      rfl
    · rw [if_neg hstays]
      by_cases hmem : worker ∈ s.order
      · rw [if_pos ⟨hmem, hstays⟩, WorkerState.window_new]
        rfl
      · rw [if_neg fun hleaves => hmem hleaves.1, window, stateOf_eq_new hmem]
        rfl

/-- A call that counts nothing changes nothing. -/
theorem step_of_contribution_nil (h : s.Consistent) (hc : s.contribution blake3 c = []) :
    s.step blake3 lim c = s := by
  cases hkey : c.key blake3 with
  | none => exact step_of_key_none hkey
  | some x =>
    have hmem : x.fp ∈ s.window x.use x.worker := by
      rw [← h.mem_memory]
      by_contra hnot
      simp [contribution, hkey, hnot] at hc
    obtain ⟨f, hstep, -, -, hsame⟩ := step_of_key_some lim h hkey
    have hf := hsame hmem
    rw [hstep, withWorker, hf]
    refine FifoTable.put_self ?_
    by_contra hworker
    rw [window, stateOf_eq_new hworker, WorkerState.window_new] at hmem
    exact absurd hmem List.not_mem_nil

end TrustStore

end Duckton.Trust
