/-
  The process-wide capacity governor (node/governor.rs): one pool of memory, threads and job
  slots that a node's own queries and the jobs it serves both reserve from.

  A reservation is taken here in one step. In the source it is a semaphore permit followed by
  compare-and-swap loops, each of which looks at one counter; other jobs running in between
  change what each of them sees, which is why nothing below assumes that the counters are
  consistent with each other.
-/
import Mathlib.Algebra.Group.Nat.Defs
import Mathlib.Tactic.SplitIfs

namespace Duckton.Node

inductive Role where
  | own
  | served
  deriving DecidableEq, Repr

/-- `CapacityGovernor` with the counters it holds. Budgets are `u64` bytes and `u32` threads. -/
structure CapacityGovernor where
  memoryTotal : Nat
  threadsTotal : Nat
  servedMemoryCeiling : Nat
  maxJobs : Nat
  usedMemory : Nat
  usedThreads : Nat
  servedMemory : Nat
  heldSlots : Nat
  memory_fits : memoryTotal < 2 ^ 64
  ceiling_fits : servedMemoryCeiling < 2 ^ 64
  threads_fit : threadsTotal < 2 ^ 32
  deriving DecidableEq

/-- `GovernorLease`. -/
structure GovernorLease where
  role : Role
  memory : Nat
  threads : Nat
  deriving DecidableEq, Repr

/-- `checked_add` and the comparison with a limit. -/
def addWithin (width limit used amount : Nat) : Option Nat :=
  if used + amount < 2 ^ width ∧ used + amount ≤ limit then some (used + amount) else none

theorem addWithin_eq_some_iff {width limit used amount sum : Nat} (h : limit < 2 ^ width) :
    addWithin width limit used amount = some sum ↔ used + amount ≤ limit ∧ used + amount = sum := by
  unfold addWithin
  by_cases hle : used + amount ≤ limit
  · rw [if_pos ⟨by omega, hle⟩, Option.some.injEq]
    exact ⟨fun heq => ⟨hle, heq⟩, fun hc => hc.2⟩
  · rw [if_neg fun hc => hle hc.2]
    exact ⟨nofun, fun hc => absurd hc.1 hle⟩

namespace CapacityGovernor

/-- The served memory after a reservation, which only served jobs add to. -/
def servedAfter (g : CapacityGovernor) (role : Role) (memory : Nat) : Option Nat :=
  match role with
  | .served => addWithin 64 g.servedMemoryCeiling g.servedMemory memory
  | .own => some g.servedMemory

/-- `try_reserve`: a slot, memory within the total, served memory within its ceiling, threads. -/
def tryReserve (g : CapacityGovernor) (role : Role) (memory threads : Nat) :
    Option (CapacityGovernor × GovernorLease) :=
  if g.heldSlots < g.maxJobs then do
    let usedMemory ← addWithin 64 g.memoryTotal g.usedMemory memory
    let servedMemory ← g.servedAfter role memory
    let usedThreads ← addWithin 32 g.threadsTotal g.usedThreads threads
    some ({ g with heldSlots := g.heldSlots + 1, usedMemory, servedMemory, usedThreads },
      ⟨role, memory, threads⟩)
  else none

/-- Dropping a lease. -/
def release (g : CapacityGovernor) (lease : GovernorLease) : CapacityGovernor :=
  { g with
    heldSlots := g.heldSlots - 1
    usedMemory := g.usedMemory - lease.memory
    servedMemory := match lease.role with
      | .served => g.servedMemory - lease.memory
      | .own => g.servedMemory
    usedThreads := g.usedThreads - lease.threads }

/-- There is room for one more job. -/
structure Admits (g : CapacityGovernor) (role : Role) (memory threads : Nat) : Prop where
  slotFree : g.heldSlots < g.maxJobs
  memoryFits : g.usedMemory + memory ≤ g.memoryTotal
  servedFits : role = .served → g.servedMemory + memory ≤ g.servedMemoryCeiling
  threadsFit : g.usedThreads + threads ≤ g.threadsTotal

variable {g : CapacityGovernor} {role : Role} {memory : Nat}

theorem servedAfter_isSome_iff :
    (∃ n, g.servedAfter role memory = some n) ↔
      (role = .served → g.servedMemory + memory ≤ g.servedMemoryCeiling) := by
  cases role with
  | own => exact ⟨nofun, fun _ => ⟨_, rfl⟩⟩
  | served =>
    unfold servedAfter
    simp only [addWithin_eq_some_iff g.ceiling_fits]
    exact ⟨fun ⟨_, h, _⟩ _ => h, fun h => ⟨_, h trivial, rfl⟩⟩

theorem tryReserve_isSome_iff {threads : Nat} :
    (g.tryReserve role memory threads).isSome ↔ g.Admits role memory threads := by
  rw [Option.isSome_iff_exists]
  unfold tryReserve
  by_cases hslot : g.heldSlots < g.maxJobs
  · rw [if_pos hslot]
    simp only [Option.bind_eq_bind, Option.bind_eq_some_iff, addWithin_eq_some_iff g.memory_fits,
      addWithin_eq_some_iff g.threads_fit]
    constructor
    · rintro ⟨_, _, ⟨hmem, _⟩, served, hserved, _, ⟨hthreads, _⟩, _⟩
      exact ⟨hslot, hmem, servedAfter_isSome_iff.mp ⟨served, hserved⟩, hthreads⟩
    · intro h
      obtain ⟨served, hserved⟩ := servedAfter_isSome_iff.mpr h.servedFits
      exact ⟨_, _, ⟨h.memoryFits, rfl⟩, served, hserved, _, ⟨h.threadsFit, rfl⟩, rfl⟩
  · rw [if_neg hslot]
    exact ⟨fun ⟨_, habs⟩ => (nomatch habs), fun h => absurd h.slotFree hslot⟩

/-- A dropped lease leaves no trace. -/
theorem release_tryReserve {g' : CapacityGovernor} {threads : Nat}
    {lease : GovernorLease} (h : g.tryReserve role memory threads = some (g', lease)) :
    g'.release lease = g := by
  unfold tryReserve at h
  split_ifs at h
  simp only [Option.bind_eq_bind, Option.bind_eq_some_iff, addWithin_eq_some_iff g.memory_fits,
    addWithin_eq_some_iff g.threads_fit, Option.some.injEq, Prod.mk.injEq] at h
  obtain ⟨_, ⟨_, rfl⟩, served, hserved, _, ⟨_, rfl⟩, rfl, rfl⟩ := h
  unfold release
  cases role with
  | own =>
    cases hserved
    simp
  | served =>
    obtain ⟨_, rfl⟩ := (addWithin_eq_some_iff g.ceiling_fits).mp hserved
    simp

end CapacityGovernor

end Duckton.Node
