/-
  What becomes of a decision for the local path (node/planner.rs): the planner lets the working set
  exceed the headroom by the spill tolerance, the executor reserves the whole of it within the local
  budget.

  `decisions_realized_iff` compares the two on a node without other jobs, for every estimate: they
  agree when the tolerance is zero and the floor of a reservation is within the local budget.
-/
import Mathlib.Data.ZMod.Defs
import Duckton.Lib.Binary64
import Duckton.Node.Planner

namespace Duckton.Node

/-! ## A node without other jobs -/

/-- What a `LocalExecutor` is built from: `PlannerConfig` with the two settings that only the
    executor reads, and the other arguments of `build`. -/
structure LocalSetup extends PlannerConfig where
  ramFraction : ℚ
  maxConcurrentLocalJobs : Nat
  budgetMemoryBytes : Nat
  jobThreads : Nat
  minReservationBytes : Nat
  governor : Option CapacityGovernor

variable (n : LocalSetup)

/-- `((budget_memory_bytes as f64) * cfg.ram_fraction) as u64`; the cast saturates. -/
def LocalSetup.localBudget : Nat :=
  min ⌊Binary64.rnd (Binary64.rnd n.budgetMemoryBytes * n.ramFraction)⌋₊ (2 ^ 64 - 1)

theorem localBudget_lt : n.localBudget < 2 ^ 64 := by
  unfold LocalSetup.localBudget
  omega

/-- `LocalExecutor::build` -/
def LocalExecutor.build : LocalExecutor where
  localBudgetBytes := n.localBudget
  maxJobs := max n.maxConcurrentLocalJobs 1
  jobThreads := max n.jobThreads 1
  minReservationBytes := n.minReservationBytes
  usedBytes := 0
  heldSlots := 0
  governor := n.governor
  budget_fits := localBudget_lt n

/-- `CapacityGovernor::new`, after the ceiling of the served jobs has been computed. -/
def CapacityGovernor.new (memoryTotal servedMemoryCeiling : Fin (2 ^ 64))
    (threadsTotal : Fin (2 ^ 32)) (maxConcurrentJobs : Nat) : CapacityGovernor where
  memoryTotal := memoryTotal
  threadsTotal := threadsTotal
  servedMemoryCeiling := servedMemoryCeiling
  maxJobs := max maxConcurrentJobs 1
  usedMemory := 0
  usedThreads := 0
  servedMemory := 0
  heldSlots := 0
  memory_fits := memoryTotal.isLt
  ceiling_fits := servedMemoryCeiling.isLt
  threads_fit := threadsTotal.isLt

/-- A governor from which nothing is reserved and whose totals cover a local job. It is never built
    without a slot. -/
structure CapacityGovernor.RoomFor (g : CapacityGovernor) (n : LocalSetup) : Prop where
  slots : 0 < g.maxJobs
  memory : n.localBudget ≤ g.memoryTotal
  threads : max n.jobThreads 1 ≤ g.threadsTotal
  idle : g.usedMemory = 0 ∧ g.usedThreads = 0 ∧ g.servedMemory = 0 ∧ g.heldSlots = 0

/-- What the planner is asked about a query, with the executor as it is. -/
def LocalExecutor.request (x : LocalExecutor) (prefer : PreferMode) (est : WorkingSetEstimate) :
    PlanRequest :=
  ⟨prefer, some est, x.headroomBytes, x.slotAvailable⟩

/-- Every decision for the local path because the query fits is followed by a reservation. -/
def Realized (cfg : PlannerConfig) (x : LocalExecutor) : Prop :=
  ∀ prefer est, cfg.decide (x.request prefer est) = ⟨.localPath, .fitsLocal⟩ →
    (x.reserve est.peakWorkingSetBytes).isSome

/-! ## The two conditions -/

/-- What the planner asks of an estimate. -/
theorem decide_fitsLocal_iff {cfg : PlannerConfig} {prefer : PreferMode} {est : WorkingSetEstimate}
    {headroom : Nat} {slot : Bool} :
    cfg.decide ⟨prefer, some est, headroom, slot⟩ = ⟨.localPath, .fitsLocal⟩ ↔
      (cfg.enabled ∧ cfg.localExecutionEnabled ∧ prefer = .auto ∧ slot) ∧
        est.scannedUncompressedBytes ≤ cfg.sizeThresholdBytes ∧
        ¬ (0 < cfg.maxLocalLatencyMs ∧ cfg.maxLocalLatencyMs < est.estimatedRuntimeMs) ∧
        est.peakWorkingSetBytes ≤ Saturating.add 64 cfg.spillToleranceBytes headroom := by
  unfold PlannerConfig.decide
  cases cfg.enabled with
  | false => simp
  | true =>
    cases cfg.localExecutionEnabled with
    | false => simp
    | true =>
      cases prefer with
      | preferLocal | preferRemote => simp
      | auto =>
        cases slot with
        | false => simp
        | true =>
          simp only [Bool.not_true, Bool.false_eq_true, if_false, true_and]
          split_ifs with hsize hlatency hpeak
          · simp [hsize]
          · simp [hlatency]
          · simp [hpeak]
          · simp only [true_iff]
            exact ⟨Nat.le_of_not_lt hsize, hlatency, Nat.le_of_not_lt hpeak⟩

variable {n}

/-- On a node without other jobs the planner's slot is free and its headroom the whole budget. -/
theorem decide_build_iff {prefer : PreferMode} {est : WorkingSetEstimate} :
    n.decide ((LocalExecutor.build n).request prefer est) = ⟨.localPath, .fitsLocal⟩ ↔
      (n.enabled ∧ n.localExecutionEnabled ∧ prefer = .auto) ∧
        est.scannedUncompressedBytes ≤ n.sizeThresholdBytes ∧
        ¬ (0 < n.maxLocalLatencyMs ∧ n.maxLocalLatencyMs < est.estimatedRuntimeMs) ∧
        est.peakWorkingSetBytes ≤ Saturating.add 64 n.spillToleranceBytes n.localBudget := by
  have hslot : (LocalExecutor.build n).slotAvailable = true :=
    decide_eq_true (Nat.lt_of_lt_of_le Nat.zero_lt_one (Nat.le_max_right _ _))
  rw [LocalExecutor.request, decide_fitsLocal_iff, hslot, and_iff_left rfl]
  rfl

/-- What the executor asks of it. -/
theorem reserve_build_iff (hroom : ∀ g ∈ n.governor, g.RoomFor n) (bytes : Nat) :
    ((LocalExecutor.build n).reserve bytes).isSome ↔
      bytes ≤ n.localBudget ∧ n.minReservationBytes ≤ n.localBudget := by
  rw [LocalExecutor.reserve_isSome_iff, ← max_le_iff]
  constructor
  · intro h
    have hfits := h.budgetFits
    rwa [LocalExecutor.build, LocalExecutor.footprint, Nat.zero_add] at hfits
  · intro h
    refine ⟨Nat.lt_of_lt_of_le Nat.zero_lt_one (Nat.le_max_right _ _), ?_, ?_⟩
    · rw [LocalExecutor.build, LocalExecutor.footprint, Nat.zero_add]
      exact h
    · intro g hg
      have hg' := hroom g (Option.mem_def.mpr hg)
      obtain ⟨hmemory, hthreads, -, hslots⟩ := hg'.idle
      refine ⟨?_, ?_, ?_, ?_⟩
      · rw [hslots]
        exact hg'.slots
      · rw [hmemory, Nat.zero_add]
        exact h.trans hg'.memory
      · -- the ceiling is for served jobs only
        rintro ⟨⟩
      · rw [hthreads, Nat.zero_add]
        exact hg'.threads

/-! ## Agreement -/

/-- Planner and executor agree on every estimate if and only if nothing is ever run locally, or the
    floor is within the local budget and the planner grants no spill beyond it. -/
theorem decisions_realized_iff (n : LocalSetup) (hroom : ∀ g ∈ n.governor, g.RoomFor n) :
    Realized n.toPlannerConfig (.build n) ↔
      n.enabled = false ∨ n.localExecutionEnabled = false ∨
        (n.minReservationBytes ≤ n.localBudget ∧
          (n.spillToleranceBytes = 0 ∨ n.localBudget = 2 ^ 64 - 1)) := by
  unfold Realized
  simp only [decide_build_iff, reserve_build_iff hroom]
  have hlt := localBudget_lt n
  constructor
  · intro h
    by_cases hswitches : n.enabled ∧ n.localExecutionEnabled
    · -- the smallest query with a given working set
      have hreserved : ∀ peak ≤ Saturating.add 64 n.spillToleranceBytes n.localBudget,
          peak ≤ n.localBudget ∧ n.minReservationBytes ≤ n.localBudget := fun peak hpeak =>
        h .auto ⟨0, peak, 0⟩ ⟨⟨hswitches.1, hswitches.2, rfl⟩, Nat.zero_le _, by simp, hpeak⟩
      refine .inr (.inr ⟨(hreserved 0 (Nat.zero_le _)).2, ?_⟩)
      by_contra hspill
      have hpeak : n.localBudget + 1 ≤
          Saturating.add 64 n.spillToleranceBytes n.localBudget := by
        unfold Saturating.add
        omega
      exact absurd (hreserved _ hpeak).1 (Nat.not_succ_le_self _)
    · rw [Bool.eq_false_iff, Bool.eq_false_iff, ← or_assoc, ← not_and_or]
      exact .inl hswitches
  · rintro h prefer est ⟨⟨henabled, hlocal, -⟩, -, -, hpeak⟩
    rw [henabled, hlocal] at h
    obtain ⟨hfloor, hspill⟩ := (h.resolve_left (by decide)).resolve_left (by decide)
    refine ⟨hpeak.trans ?_, hfloor⟩
    unfold Saturating.add
    omega

/-! ## A query in the granted spill -/

/-- The defaults, on a node with eight gibibytes and four threads that are not in use. -/
def halfSetup (spillToleranceBytes : Nat) : LocalSetup where
  enabled := true
  localExecutionEnabled := true
  prefer := .auto
  sizeThresholdBytes := 256 * 2 ^ 20
  spillToleranceBytes := spillToleranceBytes
  maxLocalLatencyMs := 10000
  ramFraction := 1 / 2
  maxConcurrentLocalJobs := 4
  budgetMemoryBytes := 8 * 2 ^ 30
  jobThreads := 1
  minReservationBytes := 2 ^ 30
  governor := some (.new (8 * 2 ^ 30) (4 * 2 ^ 30) 4 4)

theorem localBudget_halfSetup (spillToleranceBytes : Nat) :
    (halfSetup spillToleranceBytes).localBudget = 4 * 2 ^ 30 := by
  have hhalf : ((8 * 2 ^ 30 : Nat) : ℚ) * (1 / 2) = (4 * 2 ^ 30 : Nat) := by norm_num
  rw [LocalSetup.localBudget, halfSetup, Binary64.rnd_natCast (by norm_num), hhalf,
    Binary64.rnd_natCast (by norm_num), Nat.floor_natCast]
  rfl

theorem halfSetup_room (spillToleranceBytes : Nat) :
    ∀ g ∈ (halfSetup spillToleranceBytes).governor, g.RoomFor (halfSetup spillToleranceBytes) := by
  rintro g ⟨⟩
  refine ⟨by decide, ?_, show max 1 1 ≤ 4 by decide, by decide⟩
  rw [localBudget_halfSetup]
  decide

/-- Without a spill tolerance every decision for the local path is realized. -/
theorem no_spill_realized : Realized (halfSetup 0).toPlannerConfig (.build (halfSetup 0)) := by
  refine (decisions_realized_iff _ (halfSetup_room 0)).mpr (.inr (.inr ⟨?_, .inl rfl⟩))
  rw [localBudget_halfSetup]
  decide

/-- With the default tolerance of 512 MiB a query that needs 256 MiB more than the local budget is
    sent to the local path, where no idle node reserves for it. -/
theorem granted_spill_not_reserved :
    ¬ Realized (halfSetup (512 * 2 ^ 20)).toPlannerConfig (.build (halfSetup (512 * 2 ^ 20))) := by
  intro h
  have hpeak : 4 * 2 ^ 30 + 256 * 2 ^ 20 ≤
      Saturating.add 64 (512 * 2 ^ 20) (halfSetup (512 * 2 ^ 20)).localBudget := by
    rw [localBudget_halfSetup]
    decide
  have hreserved := h .auto ⟨0, 4 * 2 ^ 30 + 256 * 2 ^ 20, 0⟩
    (decide_build_iff.mpr ⟨⟨rfl, rfl, rfl⟩, Nat.zero_le _, by decide, hpeak⟩)
  rw [reserve_build_iff (halfSetup_room _), localBudget_halfSetup] at hreserved
  exact absurd hreserved.1 (by decide)

end Duckton.Node
