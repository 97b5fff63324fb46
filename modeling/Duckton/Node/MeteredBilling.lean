/-
  Billed time from reported latencies (node/coordinator.rs, `median_ms` to `MeteredTerms`).

  The latencies are whatever the workers put into their commits. The source is built with overflow
  checks, so the sum of the two middle latencies may panic; the median times the tolerance is taken
  in binary64. `billed_safely_iff` says for which lists and tolerances the bill comes out and keeps
  to its bounds, whatever the winner's latency is.
-/
import Duckton.Lib.Binary64
import Duckton.Lib.Checked
import Duckton.Node.Pricing

namespace Duckton.Node

open Checked Duckton.Settlement

/-! ## The functions -/

/-- `median_ms`, with its overflow check. -/
def checkedMedian (latencies : List Nat) : Except Halt Nat :=
  let v := latencies.insertionSort (· ≤ ·)
  let n := v.length
  if n = 0 then .ok 0
  else if n % 2 = 1 then index v (n / 2)
  else do
    let low ← index v (n / 2 - 1)
    let high ← index v (n / 2)
    return (← add low high) / 2

/-- `(median as f64 * tolerance.max(1.0)).ceil() as u64`; the cast saturates. -/
def toleratedMs (tolerance : ℚ) (median : Nat) : Nat :=
  min ⌈Binary64.rnd (Binary64.rnd median * max tolerance 1)⌉₊ (2 ^ 64 - 1)

/-- `metered_billed_seconds` -/
def billedSeconds (winnerMs : Nat) (agreeingMs : List Nat) (tolerance : ℚ) : Except Halt Nat := do
  let winnerSecs := ceilSecs winnerMs
  let median ← checkedMedian agreeingMs
  if median = 0 then return winnerSecs
  else return min winnerSecs (ceilSecs (toleratedMs tolerance median))

/-! ## The median -/

/-- The two middle latencies of an even number of them add up in 64 bits. -/
def MiddleFits (latencies : List Nat) : Prop :=
  let v := latencies.insertionSort (· ≤ ·)
  v.length ≠ 0 → v.length % 2 = 0 →
    v.getD (v.length / 2 - 1) 0 + v.getD (v.length / 2) 0 < 2 ^ 64

instance (latencies : List Nat) : Decidable (MiddleFits latencies) :=
  inferInstanceAs (Decidable (_ → _ → _))

theorem index_eq_getD {v : List Nat} {i : Nat} (h : i < v.length) :
    index v i = .ok (v.getD i 0) := by
  rw [index_eq_ok, List.getD_eq_getElem?_getD, List.getElem?_eq_getElem h, Option.getD_some]

variable {latencies : List Nat} {winnerMs : Nat} {tolerance : ℚ}

/-- The sum of the two middle latencies is all that can overflow. -/
theorem checkedMedian_of_fits (h : MiddleFits latencies) :
    checkedMedian latencies = .ok (medianMs latencies) := by
  unfold checkedMedian medianMs
  unfold MiddleFits at h
  generalize latencies.insertionSort (· ≤ ·) = v at h ⊢
  by_cases hempty : v.length = 0
  · rw [if_pos hempty, if_pos hempty]
  · rw [if_neg hempty, if_neg hempty]
    by_cases hodd : v.length % 2 = 1
    · rw [if_pos hodd, if_pos hodd, index_eq_getD (by omega)]
    · have hsum := h hempty (by omega)
      rw [if_neg hodd, if_neg hodd, index_eq_getD (by omega), index_eq_getD (by omega)]
      show (add _ _ >>= fun sum => pure (sum / 2)) = _
      rw [add, if_pos hsum]
      rfl

theorem checkedMedian_of_not_fits (h : ¬ MiddleFits latencies) :
    checkedMedian latencies = .error .panic := by
  unfold checkedMedian
  unfold MiddleFits at h
  generalize latencies.insertionSort (· ≤ ·) = v at h ⊢
  rw [Classical.not_imp, Classical.not_imp] at h
  obtain ⟨hempty, heven, hsum⟩ := h
  rw [if_neg hempty, if_neg (by omega), index_eq_getD (by omega), index_eq_getD (by omega)]
  show (add _ _ >>= fun sum => pure (sum / 2)) = _
  rw [add, if_neg hsum]
  rfl

/-- Where the median fits, the bill is that of `meteredBilledSeconds`. -/
theorem billedSeconds_eq_ok_iff {billed : Nat} {agreeingMs : List Nat} :
    billedSeconds winnerMs agreeingMs tolerance = .ok billed ↔ MiddleFits agreeingMs ∧
      billed = meteredBilledSeconds (toleratedMs tolerance) winnerMs agreeingMs := by
  by_cases hfits : MiddleFits agreeingMs
  · have hbilled : billedSeconds winnerMs agreeingMs tolerance =
        .ok (meteredBilledSeconds (toleratedMs tolerance) winnerMs agreeingMs) := by
      unfold billedSeconds meteredBilledSeconds
      rw [checkedMedian_of_fits hfits, Fallible.ok_bind]
      dsimp only
      split_ifs <;> rfl
    rw [hbilled, Except.ok.injEq, eq_comm]
    exact (and_iff_right hfits).symm
  · unfold billedSeconds
    rw [checkedMedian_of_not_fits hfits]
    exact ⟨nofun, fun h => absurd h.1 hfits⟩

/-! ## Bounds -/

theorem meteredBilledSeconds_le (tolerated : Nat → Nat) (winnerMs : Nat) (agreeingMs : List Nat) :
    meteredBilledSeconds tolerated winnerMs agreeingMs ≤ ceilSecs winnerMs := by
  unfold meteredBilledSeconds
  dsimp only
  split_ifs
  · exact Nat.le_refl _
  · exact Nat.min_le_left _ _

theorem ceilSecs_le_iff {ms secs : Nat} : ceilSecs ms ≤ secs ↔ ms ≤ 1000 * secs := by
  unfold ceilSecs
  omega

theorem meteredBilledSeconds_mono {tolerated : Nat → Nat} {winnerMs' : Nat}
    (h : winnerMs ≤ winnerMs') (agreeingMs : List Nat) :
    meteredBilledSeconds tolerated winnerMs agreeingMs ≤
      meteredBilledSeconds tolerated winnerMs' agreeingMs := by
  have hsecs : ceilSecs winnerMs ≤ ceilSecs winnerMs' :=
    Nat.div_le_div_right (Nat.add_le_add_right h 999)
  unfold meteredBilledSeconds
  dsimp only
  split_ifs
  · exact hsecs
  · exact min_le_min hsecs (Nat.le_refl _)

theorem MeteredTerms.baseFor_mono (t : MeteredTerms) {secs secs' : Nat} (h : secs ≤ secs')
    (bytes : Nat) : t.baseFor secs bytes ≤ t.baseFor secs' bytes :=
  satAdd_mono (satMul_mono (Nat.le_refl _) (min_le_min h (Nat.le_refl _))) (Nat.le_refl _)

/-- In binary64 the product does not leave the second in which the exact one ends, or that second
    is beyond 64 bits. -/
def RoundsWithin (tolerance : ℚ) (median : Nat) : Prop :=
  Binary64.rnd (Binary64.rnd median * tolerance) ≤ (1000 * ⌈tolerance * median / 1000⌉₊ : Nat) ∨
    2 ^ 64 - 1 ≤ 1000 * ⌈tolerance * median / 1000⌉₊

theorem ceilSecs_toleratedMs_le_iff (h : 1 ≤ tolerance) (median : Nat) :
    ceilSecs (toleratedMs tolerance median) ≤ ⌈tolerance * median / 1000⌉₊ ↔
      RoundsWithin tolerance median := by
  rw [ceilSecs_le_iff, toleratedMs, max_eq_left h, min_le_iff, Nat.ceil_le]
  rfl

/-- It does not below `2^53` milliseconds. -/
theorem roundsWithin_of_lt (h : 1 ≤ tolerance) {median : Nat}
    (hmedian : tolerance * median < 2 ^ 53) : RoundsWithin tolerance median := by
  have hexact : (median : ℚ) ≤ tolerance * median := le_mul_of_one_le_left (Nat.cast_nonneg _) h
  have hround : Binary64.rnd median = median := by
    refine Binary64.rnd_natCast ?_
    exact_mod_cast hexact.trans_lt hmedian
  refine .inl ?_
  rw [hround, mul_comm]
  rcases Nat.eq_zero_or_pos median with rfl | hpos
  · simp
  · have hprod : 0 < tolerance * median := mul_pos (by linarith) (by exact_mod_cast hpos)
    have hsecond : tolerance * median ≤ (1000 * ⌈tolerance * median / 1000⌉₊ : ℤ) := by
      have hceil := Nat.le_ceil (tolerance * median / 1000)
      push_cast
      linarith
    exact_mod_cast Binary64.rnd_le_intCast hprod hmedian hsecond

/-! ## Safe bills -/

/-- For every latency of the winner the bill comes out, and it keeps to its bounds. -/
structure BilledSafely (agreeingMs : List Nat) (tolerance : ℚ) : Prop where
  total : ∀ winnerMs < 2 ^ 64, ∃ billed, billedSeconds winnerMs agreeingMs tolerance = .ok billed
  atMostWinner : ∀ winnerMs < 2 ^ 64, ∀ billed,
    billedSeconds winnerMs agreeingMs tolerance = .ok billed → billed ≤ ceilSecs winnerMs
  atMostTolerated : ∀ winnerMs < 2 ^ 64, ∀ billed,
    billedSeconds winnerMs agreeingMs tolerance = .ok billed → medianMs agreeingMs ≠ 0 →
      billed ≤ ⌈tolerance * medianMs agreeingMs / 1000⌉₊
  capped : ∀ winnerMs < 2 ^ 64, ∀ billed,
    billedSeconds winnerMs agreeingMs tolerance = .ok billed →
      ∀ (t : MeteredTerms) (bytes : Nat), t.baseFor billed bytes ≤ t.capBase bytes
  monotone : ∀ winnerMs' < 2 ^ 64, ∀ winnerMs ≤ winnerMs', ∀ billed billed',
    billedSeconds winnerMs agreeingMs tolerance = .ok billed →
    billedSeconds winnerMs' agreeingMs tolerance = .ok billed' →
      ∀ (t : MeteredTerms) (bytes : Nat), t.baseFor billed bytes ≤ t.baseFor billed' bytes

theorem billed_safely_iff (agreeingMs : List Nat) (tolerance : ℚ) (htol : 1 ≤ tolerance) :
    BilledSafely agreeingMs tolerance ↔ MiddleFits agreeingMs ∧
      (medianMs agreeingMs ≠ 0 → RoundsWithin tolerance (medianMs agreeingMs)) := by
  constructor
  · intro h
    -- the slowest winner there can be is billed as much as any
    obtain ⟨billed, hbilled⟩ := h.total (2 ^ 64 - 1) (by decide)
    obtain ⟨hfits, hvalue⟩ := billedSeconds_eq_ok_iff.mp hbilled
    refine ⟨hfits, fun hmedian => ?_⟩
    have hle := h.atMostTolerated (2 ^ 64 - 1) (by decide) billed hbilled hmedian
    rw [hvalue, meteredBilledSeconds, if_neg hmedian, min_le_iff] at hle
    rcases hle with hwinner | hcap
    · exact .inr (ceilSecs_le_iff.mp hwinner)
    · exact (ceilSecs_toleratedMs_le_iff htol _).mp hcap
  · rintro ⟨hfits, hround⟩
    refine ⟨?_, ?_, ?_, ?_, ?_⟩
    · exact fun winnerMs _ => ⟨_, billedSeconds_eq_ok_iff.mpr ⟨hfits, rfl⟩⟩
    · intro winnerMs _ billed hbilled
      rw [(billedSeconds_eq_ok_iff.mp hbilled).2]
      exact meteredBilledSeconds_le _ _ _
    · intro winnerMs _ billed hbilled hmedian
      rw [(billedSeconds_eq_ok_iff.mp hbilled).2, meteredBilledSeconds, if_neg hmedian]
      exact (Nat.min_le_right _ _).trans
        ((ceilSecs_toleratedMs_le_iff htol _).mpr (hround hmedian))
    · exact fun _ _ billed _ t bytes => t.baseFor_le_capBase billed bytes
    · intro winnerMs' _ winnerMs hle billed billed' hbilled hbilled' t bytes
      rw [(billedSeconds_eq_ok_iff.mp hbilled).2, (billedSeconds_eq_ok_iff.mp hbilled').2]
      exact t.baseFor_mono (meteredBilledSeconds_mono hle agreeingMs) bytes

/-- Three verifiers, one of them slow, and the default tolerance. -/
theorem three_verifiers_billed_safely : BilledSafely [8000, 2000, 2000] (3 / 2) := by
  refine (billed_safely_iff _ _ (by norm_num)).mpr ⟨by decide, fun _ => ?_⟩
  have hmedian : medianMs [8000, 2000, 2000] = 2000 := by decide
  rw [hmedian]
  exact roundsWithin_of_lt (by norm_num) (by norm_num)

/-- Two reports of 2^63 ms, and the coordinator panics. -/
theorem two_large_latencies_panic : ¬ BilledSafely [2 ^ 63, 2 ^ 63] (3 / 2) := by
  intro h
  obtain ⟨billed, hbilled⟩ := h.total 1000 (by decide)
  exact absurd (billedSeconds_eq_ok_iff.mp hbilled).1 (by decide)

end Duckton.Node
