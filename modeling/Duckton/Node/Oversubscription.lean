/-
  Concurrent reservations of a node that serves others and runs its own queries
  (node/governor.rs: `try_reserve`; node/admission.rs: `try_admit`; node/planner.rs: `reserve`).

  The three pools are counters that tasks take from with compare-and-swap loops and semaphores.
  `tryAdmit` and `localReserve` list the accesses of one call in the order of the source, with what
  each of its early returns gives back; a permit is given back where its variable goes out of scope.
  Everything else is the general argument about such scripts.

  A semaphore counts permits that are free; here the counter is of those that are held.
-/
import Duckton.Lib.Reserve
import Duckton.Node.Governor

namespace Duckton.Node

open Reserve

/-! ## Counters -/

inductive Counter where
  | admissionSlots
  | admissionMemory
  | admissionThreads
  | localSlots
  | localBytes
  | governorSlots
  | governorMemory
  | servedMemory
  | governorThreads
  deriving DecidableEq, Repr

/-- The configuration of a governor with the admission controller and the local executor wired to
    it. -/
structure Budgets where
  memoryTotal : UInt64
  threadsTotal : UInt32
  servedMemoryCeiling : UInt64
  maxConcurrentJobs : UInt64
  admissionMemory : UInt64
  admissionThreads : UInt32
  admissionJobs : UInt32
  localBudgetBytes : UInt64
  localJobs : UInt64
  jobThreads : UInt32
  minReservationBytes : UInt64
  deriving DecidableEq, Repr

/-- Threads are counted in 32 bits, everything else in 64. -/
def Counter.width : Counter → Nat
  | .admissionThreads => 32
  | .governorThreads => 32
  | _ => 64

variable (b : Budgets)

def Budgets.limit : Counter → Nat
  | .admissionSlots => b.admissionJobs.toNat
  | .admissionMemory => b.admissionMemory.toNat
  | .admissionThreads => b.admissionThreads.toNat
  | .localSlots => b.localJobs.toNat
  | .localBytes => b.localBudgetBytes.toNat
  | .governorSlots => b.maxConcurrentJobs.toNat
  | .governorMemory => b.memoryTotal.toNat
  | .servedMemory => b.servedMemoryCeiling.toNat
  | .governorThreads => b.threadsTotal.toNat

theorem Budgets.limit_lt (k : Counter) : b.limit k < 2 ^ k.width := by
  cases k with
  | admissionSlots => exact Nat.lt_trans b.admissionJobs.toNat_lt (by decide)
  | admissionThreads => exact b.admissionThreads.toNat_lt
  | governorThreads => exact b.threadsTotal.toNat_lt
  | admissionMemory => exact b.admissionMemory.toNat_lt
  | localSlots => exact b.localJobs.toNat_lt
  | localBytes => exact b.localBudgetBytes.toNat_lt
  | governorSlots => exact b.maxConcurrentJobs.toNat_lt
  | governorMemory => exact b.memoryTotal.toNat_lt
  | servedMemory => exact b.servedMemoryCeiling.toNat_lt

def Budgets.pool : Pool Counter :=
  ⟨Counter.width, b.limit, b.limit_lt⟩

/-! ## Calls -/

/-- What a failing `try_reserve` or a dropped lease gives back of the memory. -/
def rollbackMemory (role : Role) (memory : Nat) : List (Item Counter) :=
  match role with
  | .own => [⟨.governorMemory, memory⟩]
  | .served => [⟨.governorMemory, memory⟩, ⟨.servedMemory, memory⟩]

/-- The ceiling that only served jobs are held to. -/
def servedAttempt (role : Role) (memory : Nat) (outer : List (Item Counter)) :
    List (Attempt Counter) :=
  match role with
  | .own => []
  | .served =>
    [⟨⟨.servedMemory, memory⟩, ⟨.governorMemory, memory⟩ :: ⟨.governorSlots, 1⟩ :: outer⟩]

/-- `CapacityGovernor::try_reserve`; `outer` is what its caller gives back when it fails. -/
def governorAttempts (role : Role) (memory threads : Nat) (outer : List (Item Counter)) :
    List (Attempt Counter) :=
  [⟨⟨.governorSlots, 1⟩, outer⟩,
    ⟨⟨.governorMemory, memory⟩, ⟨.governorSlots, 1⟩ :: outer⟩] ++
  servedAttempt role memory outer ++
  [⟨⟨.governorThreads, threads⟩, rollbackMemory role memory ++ ⟨.governorSlots, 1⟩ :: outer⟩]

/-- `drop` of a `GovernorLease`, and then of its permit. -/
def governorDrop (role : Role) (memory threads : Nat) : List (Item Counter) :=
  rollbackMemory role memory ++ [⟨.governorThreads, threads⟩, ⟨.governorSlots, 1⟩]

def tryAdmit (memory threads : Nat) : Script Counter :=
  let slot : Item Counter := ⟨.admissionSlots, 1⟩
  let mem : Item Counter := ⟨.admissionMemory, memory⟩
  let thr : Item Counter := ⟨.admissionThreads, threads⟩
  { attempts := [⟨slot, []⟩, ⟨mem, [slot]⟩, ⟨thr, [mem, slot]⟩] ++
      governorAttempts .served memory threads [mem, thr, slot]
    lease := [mem, thr, slot] ++ governorDrop .served memory threads }

/-- `LocalExecutor::reserve` for the floored number of bytes. -/
def localReserve (bytes jobThreads : Nat) : Script Counter :=
  let slot : Item Counter := ⟨.localSlots, 1⟩
  let mem : Item Counter := ⟨.localBytes, bytes⟩
  { attempts := [⟨slot, []⟩, ⟨mem, [slot]⟩] ++
      governorAttempts .own bytes jobThreads [mem, slot]
    lease := [mem, slot] ++ governorDrop .own bytes jobThreads }

/-- A call of either role. -/
inductive Request where
  | serve (memory : UInt64) (threads : UInt32)
  | run (bytes : UInt64)
  deriving DecidableEq, Repr

namespace Request

/-- The memory that a lease of the call holds: a local job holds at least the floor. -/
def memory : Request → Nat
  | .serve memory _ => memory.toNat
  | .run bytes => max bytes.toNat b.minReservationBytes.toNat

def threads : Request → Nat
  | .serve _ threads => threads.toNat
  | .run _ => b.jobThreads.toNat

def isServed : Request → Bool
  | .serve _ _ => true
  | .run _ => false

def script (r : Request) : Script Counter :=
  match r with
  | .serve _ _ => tryAdmit (r.memory b) (r.threads b)
  | .run _ => localReserve (r.memory b) (r.threads b)

end Request

theorem script_fair (r : Request) : (r.script b).Fair := by
  cases r with
  | serve memory threads =>
    refine ⟨⟨?_, ?_, ?_, ?_, ?_, ?_, ?_, trivial⟩, ?_⟩ <;> intro k <;> cases k <;>
      simp [amountOf, items, Request.script, tryAdmit, governorAttempts, servedAttempt,
        governorDrop, rollbackMemory]
  | run bytes =>
    refine ⟨⟨?_, ?_, ?_, ?_, ?_, trivial⟩, ?_⟩ <;> intro k <;> cases k <;>
      simp [amountOf, items, Request.script, localReserve, governorAttempts, servedAttempt,
        governorDrop, rollbackMemory]

/-! ## No oversubscription -/

/-- What a lease holds of each counter. -/
theorem amountOf_lease (r : Request) :
    amountOf .governorMemory (r.script b).lease = r.memory b ∧
    amountOf .governorThreads (r.script b).lease = r.threads b ∧
    amountOf .governorSlots (r.script b).lease = 1 ∧
    (r.isServed = true → amountOf .servedMemory (r.script b).lease = r.memory b ∧
      amountOf .admissionMemory (r.script b).lease = r.memory b ∧
      amountOf .admissionThreads (r.script b).lease = r.threads b ∧
      amountOf .admissionSlots (r.script b).lease = 1) ∧
    (r.isServed = false → amountOf .localBytes (r.script b).lease = r.memory b ∧
      amountOf .localSlots (r.script b).lease = 1) := by
  cases r with
  | serve memory threads =>
    simp [amountOf, Request.script, tryAdmit, governorDrop, rollbackMemory, Request.isServed]
  | run bytes =>
    simp [amountOf, Request.script, localReserve, governorDrop, rollbackMemory, Request.isServed]

/-- The demand of the calls of one kind. -/
def Request.among (served : Bool) (demand : Request → Nat) (r : Request) : Nat :=
  if r.isServed = served then demand r else 0

/-- What the live leases hold is within the budgets, and so is every counter; with nothing running
    and nothing held, the counters are zero. -/
structure WithinBudgets (s : State Request Counter) : Prop where
  memory : s.liveSum (Request.memory b) ≤ b.memoryTotal.toNat
  threads : s.liveSum (Request.threads b) ≤ b.threadsTotal.toNat
  jobs : s.liveSum (fun _ => 1) ≤ b.maxConcurrentJobs.toNat
  servedMemory : s.liveSum (Request.among true (Request.memory b)) ≤ b.servedMemoryCeiling.toNat
  admissionMemory : s.liveSum (Request.among true (Request.memory b)) ≤ b.admissionMemory.toNat
  admissionThreads : s.liveSum (Request.among true (Request.threads b)) ≤ b.admissionThreads.toNat
  admissionJobs : s.liveSum (Request.among true fun _ => 1) ≤ b.admissionJobs.toNat
  localMemory : s.liveSum (Request.among false (Request.memory b)) ≤ b.localBudgetBytes.toNat
  localJobs : s.liveSum (Request.among false fun _ => 1) ≤ b.localJobs.toNat
  counters : ∀ k, s.value k ≤ b.limit k
  atRest : (∀ task ∈ s.tasks, task.finished = true) → ∀ k, s.value k = 0

theorem among_le {served : Bool} {demand : Request → Nat} {r : Request} {n : Nat}
    (h : r.isServed = served → n = demand r) : Request.among served demand r ≤ n := by
  unfold Request.among
  split_ifs with hserved
  · rw [h hserved]
  · exact Nat.zero_le n

theorem withinBudgets_of_balanced {b : Budgets} {s : State Request Counter}
    (hs : Balanced b.pool (Request.script b) s) : WithinBudgets b s where
  memory := hs.liveSum_le (k := .governorMemory) fun r => (amountOf_lease b r).1.ge
  threads := hs.liveSum_le (k := .governorThreads) fun r => (amountOf_lease b r).2.1.ge
  jobs := hs.liveSum_le (k := .governorSlots) fun r => (amountOf_lease b r).2.2.1.ge
  servedMemory := hs.liveSum_le (k := .servedMemory) fun r =>
    among_le fun h => ((amountOf_lease b r).2.2.2.1 h).1
  admissionMemory := hs.liveSum_le (k := .admissionMemory) fun r =>
    among_le fun h => ((amountOf_lease b r).2.2.2.1 h).2.1
  admissionThreads := hs.liveSum_le (k := .admissionThreads) fun r =>
    among_le fun h => ((amountOf_lease b r).2.2.2.1 h).2.2.1
  admissionJobs := hs.liveSum_le (k := .admissionSlots) fun r =>
    among_le fun h => ((amountOf_lease b r).2.2.2.1 h).2.2.2
  localMemory := hs.liveSum_le (k := .localBytes) fun r =>
    among_le fun h => ((amountOf_lease b r).2.2.2.2 h).1
  localJobs := hs.liveSum_le (k := .localSlots) fun r =>
    among_le fun h => ((amountOf_lease b r).2.2.2.2 h).2
  counters := hs.limit
  atRest := hs.value_eq_zero

/-- In every interleaving of any number of calls and drops, the leases of both roles stay within the
    budgets at all times, and no access to a counter underflows or wraps. -/
theorem never_oversubscribed (b : Budgets) (es : List (Event Request)) :
    Run.Always (step b.pool (Request.script b)) (WithinBudgets b) start es ∧
    Run.Guarded (step b.pool (Request.script b)) (Exact b.pool) start es := by
  have hbalanced : Run.Always (step b.pool (Request.script b))
      (Balanced b.pool (Request.script b)) start es := always_balanced (script_fair b) es
  refine ⟨hbalanced.mono fun s hs => withinBudgets_of_balanced hs, ?_⟩
  exact Run.guarded_of_always (fun s e hs => hs.exact e) hbalanced

end Duckton.Node
