/-
  How often a receipt counts (trust/reputation.rs), over sequences of `record` and
  `observe_capability` calls with replays in any order.

  Each memory of fingerprints is a window of `Lib/Window`: a receipt presented to it is a push, a
  call for another worker that makes this one leave the table clears it. A receipt therefore
  counts once exactly as long as it does not come back after its memory has moved on, which is
  `countsOnce_iff`. A success counted twice is not undone by anything: the counter only grows.
-/
import Duckton.Trust.Reputation

namespace Duckton.Trust

open Duckton.Proto

namespace TrustStore

variable {s : TrustStore} {lim : StoreLimits} {worker : NodeId} {blake3 : Bytes → Bytes}

/-! ## Runs -/

/-- The receipts that the calls present, with their repetitions. -/
def presented (blake3 : Bytes → Bytes) (calls : List Call) : List ReceiptKey :=
  calls.filterMap (Call.key blake3)

/-- The workers in the table after these receipts. -/
def tracked (lim : StoreLimits) (order : List NodeId) (xs : List ReceiptKey) : List NodeId :=
  Run.final (fun order x => Window.enter lim.maxWorkers order x.worker) order xs

/-- The fingerprints presented for one memory. -/
def presentedTo (use : ReceiptUse) (worker : NodeId) (xs : List ReceiptKey) : List UInt64 :=
  (xs.filter fun x => x.use = use ∧ x.worker = worker).map ReceiptKey.fp

/-- The operations on one memory. -/
def ops (lim : StoreLimits) (use : ReceiptUse) (worker : NodeId) : List NodeId →
    List ReceiptKey → List (Window.Op UInt64)
  | _, [] => []
  | order, x :: xs =>
    opFor lim order use worker x ::
      ops lim use worker (Window.enter lim.maxWorkers order x.worker) xs

theorem final_spec (blake3 : Bytes → Bytes) (lim : StoreLimits) (h : s.Consistent) (calls : List Call) :
    (Run.final (step blake3 lim) s calls).order = tracked lim s.order (presented blake3 calls) ∧
      (∀ use worker, (Run.final (step blake3 lim) s calls).window use worker =
        Run.final (Window.step lim.maxObsPerWorker) (s.window use worker)
          (ops lim use worker s.order (presented blake3 calls))) ∧
      (Run.final (step blake3 lim) s calls).Consistent := by
  induction calls generalizing s with
  | nil => exact ⟨rfl, fun _ _ => rfl, h⟩
  | cons c calls ih =>
    rw [Run.final_cons, presented, List.filterMap_cons]
    cases hkey : c.key blake3 with
    | none =>
      rw [step_of_key_none hkey]
      exact ih h
    | some x =>
      obtain ⟨horder, hwindow, hconsistent⟩ := step_spec lim h hkey
      have htail := ih hconsistent
      rw [horder] at htail
      simp only [hwindow] at htail
      exact htail

variable (use : ReceiptUse) {calls : List Call} {x : ReceiptKey} {xs : List ReceiptKey}

@[simp]
theorem presentedTo_append (worker : NodeId) (xs ys : List ReceiptKey) :
    presentedTo use worker (xs ++ ys) =
      presentedTo use worker xs ++ presentedTo use worker ys := by
  rw [presentedTo, List.filter_append, List.map_append]
  rfl

theorem presentedTo_contribution (h : s.Consistent) (use : ReceiptUse) (worker : NodeId)
    {c : Call} {x : ReceiptKey} (hkey : c.key blake3 = some x) :
    presentedTo use worker (s.contribution blake3 c) =
      Window.fresh (s.window use worker) (opFor lim s.order use worker x) := by
  obtain ⟨xuse, xworker, fp⟩ := x
  simp only [contribution, hkey, opFor, h.mem_memory]
  by_cases hworker : worker = xworker
  · subst hworker
    by_cases huse : use = xuse
    · subst huse
      rw [if_pos rfl, if_pos rfl, Window.fresh]
      split
      · rfl
      · simp [presentedTo]
    · rw [if_pos rfl, if_neg huse, Window.fresh]
      split
      · rfl
      · simp [presentedTo, Ne.symm huse]
  · rw [if_neg hworker]
    have hleft : presentedTo use worker
        (if fp ∈ s.window xuse xworker then [] else [⟨xuse, xworker, fp⟩]) = [] := by
      split
      · rfl
      · simp [presentedTo, Ne.symm hworker]
    rw [hleft]
    split <;> rfl

/-- What is counted of one use and worker is what its window counts. -/
theorem presentedTo_contributions (h : s.Consistent) (use : ReceiptUse) (worker : NodeId)
    (calls : List Call) :
    presentedTo use worker (contributions blake3 lim s calls) =
      Window.counted lim.maxObsPerWorker (s.window use worker)
        (ops lim use worker s.order (presented blake3 calls)) := by
  induction calls generalizing s with
  | nil => rfl
  | cons c calls ih =>
    rw [contributions, presentedTo_append, presented, List.filterMap_cons]
    cases hkey : c.key blake3 with
    | none =>
      rw [step_of_key_none hkey, contribution, hkey]
      exact ih h
    | some x =>
      obtain ⟨horder, hwindow, hconsistent⟩ := step_spec lim h hkey
      rw [ih hconsistent, presentedTo_contribution h use worker hkey, horder, hwindow]
      rfl

theorem nodup_iff_presentedTo : xs.Nodup ↔ ∀ use worker, (presentedTo use worker xs).Nodup := by
  constructor
  · intro h use worker
    refine List.Nodup.map_on ?_ (h.filter _)
    rintro ⟨_, _, fp⟩ hx ⟨_, _, fp'⟩ hy hfp
    obtain ⟨rfl, rfl⟩ := of_decide_eq_true (List.mem_filter.mp hx).2
    obtain ⟨rfl, rfl⟩ := of_decide_eq_true (List.mem_filter.mp hy).2
    rw [show fp = fp' from hfp]
  · intro h
    induction xs with
    | nil => exact List.nodup_nil
    | cons x xs ih =>
      have htail : ∀ use worker, (presentedTo use worker xs).Nodup := fun use worker =>
        (h use worker).sublist (((List.sublist_cons_self x xs).filter _).map _)
      refine List.nodup_cons.mpr ⟨fun hmem => ?_, ih htail⟩
      have hx := h x.use x.worker
      rw [presentedTo, List.filter_cons_of_pos (by simp), List.map_cons, List.nodup_cons] at hx
      exact hx.1 (List.mem_map_of_mem (List.mem_filter.mpr ⟨hmem, by simp⟩))

/-! ## The operations on a memory -/

section Ops

variable {use : ReceiptUse} {order : List NodeId}

variable {fp : UInt64} {xs : List ReceiptKey}

theorem opFor_eq_push : opFor lim order use worker x = .push fp ↔ x = ⟨use, worker, fp⟩ := by
  obtain ⟨xuse, xworker, xfp⟩ := x
  unfold opFor
  by_cases hworker : worker = xworker
  · by_cases huse : use = xuse
    · simp [hworker, huse]
    · simp [hworker, huse, Ne.symm huse]
  · rw [if_neg hworker]
    constructor
    · intro h
      split at h <;> cases h
    · rintro ⟨-, rfl, -⟩
      exact absurd rfl hworker

theorem tracked_append (order : List NodeId) (xs ys : List ReceiptKey) :
    tracked lim order (xs ++ ys) = tracked lim (tracked lim order xs) ys :=
  Run.final_append order xs ys

theorem ops_append (order : List NodeId) (xs ys : List ReceiptKey) :
    ops lim use worker order (xs ++ ys) =
      ops lim use worker order xs ++ ops lim use worker (tracked lim order xs) ys := by
  induction xs generalizing order with
  | nil => rfl
  | cons x xs ih => rw [List.cons_append, ops, ih]; rfl

theorem ops_append_cons (order : List NodeId) (xs ys : List ReceiptKey) (fp : UInt64) :
    ops lim use worker order (xs ++ ⟨use, worker, fp⟩ :: ys) =
      ops lim use worker order xs ++ .push fp ::
        ops lim use worker (tracked lim order (xs ++ [⟨use, worker, fp⟩])) ys := by
  rw [ops_append, ops, opFor_eq_push.mpr rfl, tracked_append]
  rfl

/-- An operation belongs to a receipt that is presented. -/
theorem ops_split {as rest : List (Window.Op UInt64)}
    (h : ops lim use worker order xs = as ++ .push fp :: rest) :
    ∃ before after, xs = before ++ ⟨use, worker, fp⟩ :: after ∧
      as = ops lim use worker order before ∧
      rest = ops lim use worker (tracked lim order (before ++ [⟨use, worker, fp⟩])) after := by
  induction xs generalizing order as with
  | nil => simp [ops] at h
  | cons x xs ih =>
    cases as with
    | nil =>
      obtain ⟨hop, hrest⟩ := List.cons.inj h
      obtain rfl := opFor_eq_push.mp hop
      exact ⟨[], xs, rfl, rfl, hrest.symm⟩
    | cons a as =>
      obtain ⟨rfl, htail⟩ := List.cons.inj h
      obtain ⟨before, after, rfl, rfl, hrest⟩ := ih htail
      exact ⟨x :: before, after, rfl, rfl, hrest⟩

theorem pushes_ops (order : List NodeId) (xs : List ReceiptKey) :
    Window.pushes (ops lim use worker order xs) = presentedTo use worker xs := by
  induction xs generalizing order with
  | nil => rfl
  | cons x xs ih =>
    have htail := ih (Window.enter lim.maxWorkers order x.worker)
    by_cases hx : x.use = use ∧ x.worker = worker
    · have hop : opFor lim order use worker x = .push x.fp :=
        opFor_eq_push.mpr (by rw [← hx.1, ← hx.2])
      rw [ops, hop, presentedTo, List.filter_cons_of_pos (by simpa using hx)]
      exact congrArg (x.fp :: ·) htail
    · have hitem : (opFor lim order use worker x).item = none := by
        cases hop : opFor lim order use worker x with
        | push fp => exact absurd (opFor_eq_push.mp hop ▸ ⟨rfl, rfl⟩) hx
        | clear | skip => rfl
      rw [ops, Window.pushes, List.filterMap_cons_none hitem, presentedTo,
        List.filter_cons_of_neg (by simpa using hx)]
      exact htail

theorem mem_presentedTo :
    fp ∈ presentedTo use worker xs ↔ ⟨use, worker, fp⟩ ∈ xs := by
  unfold presentedTo
  rw [List.mem_map]
  constructor
  · rintro ⟨⟨_, _, _⟩, hmem, rfl⟩
    obtain ⟨hxs, hx⟩ := List.mem_filter.mp hmem
    obtain ⟨rfl, rfl⟩ := of_decide_eq_true hx
    exact hxs
  · intro hmem
    exact ⟨_, List.mem_filter.mpr ⟨hmem, by simp⟩, rfl⟩

theorem push_mem_ops :
    .push fp ∈ ops lim use worker order xs ↔ ⟨use, worker, fp⟩ ∈ xs := by
  rw [← Window.mem_pushes_iff, pushes_ops, mem_presentedTo]

theorem opFor_ne_clear (hworker : worker ∈ order) : ¬.clear = opFor lim order use worker x ↔
      worker ∈ Window.enter lim.maxWorkers order x.worker := by
  unfold opFor
  by_cases hx : worker = x.worker
  · rw [if_pos hx, hx]
    refine iff_of_true ?_ (Window.mem_enter_self lim.workers_pos _ _)
    split <;> exact nofun
  · rw [if_neg hx]
    by_cases hstays : worker ∈ Window.enter lim.maxWorkers order x.worker
    · rw [if_neg fun hleaves => hleaves.2 hstays]
      exact iff_of_true nofun hstays
    · rw [if_pos ⟨hworker, hstays⟩]
      exact iff_of_false (fun h => h rfl) hstays

/-- The memory of a worker in the table is dropped when the worker leaves the table. -/
theorem clear_not_mem_ops (hworker : worker ∈ order) :
    .clear ∉ ops lim use worker order xs ↔
      ∀ before after, xs = before ++ after → worker ∈ tracked lim order before := by
  induction xs generalizing order with
  | nil =>
    refine iff_of_true List.not_mem_nil fun before after h => ?_
    rw [(List.append_eq_nil_iff.mp h.symm).1]
    exact hworker
  | cons x xs ih =>
    rw [ops, List.mem_cons, not_or, opFor_ne_clear hworker]
    constructor
    · rintro ⟨hstays, htail⟩ before after hsplit
      cases before with
      | nil => exact hworker
      | cons y before =>
        obtain ⟨rfl, rfl⟩ := List.cons.inj hsplit
        exact (ih hstays).mp htail before after rfl
    · intro h
      have hstays := h [x] xs rfl
      refine ⟨hstays, (ih hstays).mpr fun before after hsplit => ?_⟩
      exact h (x :: before) after (congrArg (x :: ·) hsplit)

theorem mem_tracked_last (order : List NodeId) (xs : List ReceiptKey) (fp : UInt64) :
    worker ∈ tracked lim order (xs ++ [⟨use, worker, fp⟩]) := by
  rw [tracked_append]
  exact Window.mem_enter_self lim.workers_pos _ _

end Ops

/-! ## Each receipt counts once -/

/-- Between a receipt's first presentation and each later one its worker stays in the table and
    fewer than `max_obs_per_worker` other receipts are presented to the same memory that were not
    presented to it before. -/
def WithinWindows (lim : StoreLimits) (xs : List ReceiptKey) : Prop :=
  ∀ before x between after, xs = before ++ x :: (between ++ x :: after) → x ∉ before →
    (∀ between₁ between₂, between = between₁ ++ between₂ →
      x.worker ∈ tracked lim [] (before ++ x :: between₁)) ∧
    (Window.newItems (presentedTo x.use x.worker before) x.fp
      (presentedTo x.use x.worker between)).length < lim.maxObsPerWorker

/-- No receipt is counted twice, and presenting it again changes nothing. -/
structure CountsOnce (blake3 : Bytes → Bytes) (lim : StoreLimits) (calls : List Call) : Prop where
  once : (contributions blake3 lim .empty calls).Nodup
  replay : ∀ before c after, calls = before ++ c :: after →
    (∃ x ∈ presented blake3 before, c.key blake3 = some x) →
    step blake3 lim (Run.final (step blake3 lim) .empty before) c =
      Run.final (step blake3 lim) .empty before

theorem withinWindows_iff : WithinWindows lim xs ↔
      ∀ use worker, (Window.counted lim.maxObsPerWorker [] (ops lim use worker [] xs)).Nodup := by
  simp only [Window.counted_nodup_iff lim.obs_pos]
  constructor
  · intro h use worker as fp bs cs hsplit hfirst
    obtain ⟨before, rest, rfl, rfl, hrest⟩ := ops_split hsplit
    obtain ⟨between, after, rfl, rfl, -⟩ := ops_split hrest.symm
    obtain ⟨hstays, hlen⟩ :=
      h before ⟨use, worker, fp⟩ between after rfl (mt push_mem_ops.mpr hfirst)
    rw [pushes_ops, pushes_ops, clear_not_mem_ops (mem_tracked_last [] before _)]
    refine ⟨fun between₁ between₂ hbetween => ?_, hlen⟩
    rw [← tracked_append, List.append_assoc]
    exact hstays between₁ between₂ hbetween
  · rintro h before ⟨use, worker, fp⟩ between after rfl hfirst
    have hops := h use worker (ops lim use worker [] before) fp
    rw [ops_append_cons, ops_append_cons] at hops
    obtain ⟨hclear, hlen⟩ := hops _ _ rfl (mt push_mem_ops.mp hfirst)
    rw [pushes_ops, pushes_ops] at hlen
    rw [clear_not_mem_ops (mem_tracked_last [] before _)] at hclear
    refine ⟨fun between₁ between₂ hbetween => ?_, hlen⟩
    have hstays := hclear between₁ between₂ hbetween
    rwa [← tracked_append, List.append_assoc] at hstays

theorem window_empty (worker : NodeId) : window .empty use worker = [] :=
  WorkerState.window_new use

theorem nodup_contributions_iff :
    (contributions blake3 lim .empty calls).Nodup ↔ WithinWindows lim (presented blake3 calls) := by
  rw [nodup_iff_presentedTo, withinWindows_iff]
  simp only [presentedTo_contributions consistent_empty, window_empty]
  rfl

/-- A receipt that was presented was counted. -/
theorem mem_contributions
    (h : x ∈ presented blake3 calls) : x ∈ contributions blake3 lim .empty calls := by
  rw [← mem_presentedTo, presentedTo_contributions consistent_empty, window_empty,
    Window.mem_counted_nil, pushes_ops, mem_presentedTo]
  exact h

theorem contributions_append (s : TrustStore) (as bs : List Call) :
    contributions blake3 lim s (as ++ bs) =
      contributions blake3 lim s as ++
        contributions blake3 lim (Run.final (step blake3 lim) s as) bs := by
  induction as generalizing s with
  | nil => rfl
  | cons c as ih => rw [List.cons_append, contributions, contributions, ih, List.append_assoc]; rfl

/-- Every receipt counts once if and only if none comes back after its memory has moved on. -/
theorem countsOnce_iff (blake3 : Bytes → Bytes) (lim : StoreLimits) (calls : List Call) :
    CountsOnce blake3 lim calls ↔ WithinWindows lim (presented blake3 calls) := by
  rw [← nodup_contributions_iff]
  refine ⟨fun h => h.once, fun h => ⟨h, ?_⟩⟩
  rintro before c after rfl ⟨x, hx, hkey⟩
  obtain ⟨-, -, hconsistent⟩ := final_spec blake3 lim consistent_empty before
  refine step_of_contribution_nil hconsistent ?_
  rw [contributions_append, contributions, List.nodup_append] at h
  have hnot : x ∉ contribution blake3 (Run.final (step blake3 lim) .empty before) c := fun hmem =>
    h.2.2 x (mem_contributions hx) x (List.mem_append_left _ hmem) rfl
  rw [contribution, hkey] at hnot ⊢
  by_cases hmem : x.fp ∈ (Run.final (step blake3 lim) .empty before).memory x.use x.worker
  · exact if_pos hmem
  · simp [hmem] at hnot

end TrustStore

/-! ## A small cache forgets -/

/-- A digest that tells job ids apart: what follows the label. -/
def jobDigest (preimage : Bytes) : Bytes :=
  preimage.drop 24

def correctReceipt (jobId : String) : Receipt :=
  ⟨jobId, ⟨"b3:w"⟩, ⟨"b3:r"⟩, .correct, 0, 0, 0, 0⟩

/-- With a cache of one receipt per worker the first job is counted again after the second. -/
theorem replayed_receipt_counts_again :
    ¬TrustStore.CountsOnce jobDigest (.ofConfig 1 16)
        [.observeCapability (correctReceipt "j1"), .observeCapability (correctReceipt "j2"),
          .observeCapability (correctReceipt "j1")] ∧
      ((Run.final (TrustStore.step jobDigest (.ofConfig 1 16)) .empty
        [.observeCapability (correctReceipt "j1"), .observeCapability (correctReceipt "j2"),
          .observeCapability (correctReceipt "j1")]).stateOf ⟨"b3:w"⟩).capability.successes = 3 :=
  ⟨fun h => absurd h.once (by decide), by decide⟩

end Duckton.Trust
