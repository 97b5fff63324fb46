/-
  A bounded memory of items: the newest `cap` of those that were not in it when they came.

  `enter` is first in, first out: an item that is present changes nothing, and one that is not is
  appended, for which the oldest leave. A run pushes items and may clear the memory. The pushes
  that find their item absent are `counted`. `counted_nodup_iff` says when no item is counted
  twice: between its first push and any later one the memory is not cleared, and fewer than `cap`
  items are pushed for the first time.
-/
import Mathlib.Data.List.Dedup
import Mathlib.Data.List.Induction
import Mathlib.Data.List.Perm.Basic
import Duckton.Lib.Run

namespace Window

variable {α : Type}

inductive Op (α : Type) where
  | push (x : α)
  | clear
  | skip
  deriving DecidableEq, Repr

def Op.item : Op α → Option α
  | .push x => some x
  | .clear => none
  | .skip => none

/-- The items that are pushed, in order. -/
def pushes (os : List (Op α)) : List α :=
  os.filterMap Op.item

theorem mem_pushes_iff {os : List (Op α)} {x : α} : x ∈ pushes os ↔ .push x ∈ os := by
  unfold pushes
  rw [List.mem_filterMap]
  constructor
  · rintro ⟨o, ho, hitem⟩
    cases o with
    | push y =>
      cases hitem
      exact ho
    | clear | skip => cases hitem
  · exact fun h => ⟨_, h, rfl⟩

variable [DecidableEq α]

def enter (cap : Nat) (w : List α) (x : α) : List α :=
  if x ∈ w then w else (w ++ [x]).drop (w.length + 1 - cap)

def step (cap : Nat) (w : List α) : Op α → List α
  | .push x => enter cap w x
  | .clear => []
  | .skip => w

/-- What one operation counts. -/
def fresh (w : List α) : Op α → List α
  | .push x => if x ∈ w then [] else [x]
  | .clear => []
  | .skip => []

def counted (cap : Nat) : List α → List (Op α) → List α
  | _, [] => []
  | w, o :: os => fresh w o ++ counted cap (step cap w o) os

/-- The distinct items of `ys` that are neither `x` nor in `xs`. -/
def newItems (xs : List α) (x : α) (ys : List α) : List α :=
  (ys.filter fun y => y ∉ xs ∧ y ≠ x).dedup

variable {o : Op α} {u v : List α} {y : α}

section Enter

variable {cap : Nat} {w : List α} {x : α}

theorem enter_of_mem (h : x ∈ w) : enter cap w x = w :=
  if_pos h

theorem enter_of_not_mem (h : x ∉ w) : enter cap w x = (w ++ [x]).drop (w.length + 1 - cap) :=
  if_neg h

theorem mem_of_mem_enter (h : y ∈ enter cap w x) : y ∈ w ∨ y = x := by
  by_cases hx : x ∈ w
  · rw [enter_of_mem hx] at h
    exact .inl h
  · rw [enter_of_not_mem hx] at h
    exact (List.mem_append.mp (List.mem_of_mem_drop h)).imp_right List.mem_singleton.mp

theorem length_enter_le (hw : w.length ≤ cap) : (enter cap w x).length ≤ cap := by
  by_cases hx : x ∈ w
  · rwa [enter_of_mem hx]
  · rw [enter_of_not_mem hx, List.length_drop, List.length_append, List.length_singleton]
    omega

theorem enter_eq_append (hcap : 1 ≤ cap) (h : x ∉ w) :
    enter cap w x = w.drop (w.length + 1 - cap) ++ [x] := by
  rw [enter_of_not_mem h, List.drop_append_of_le_length (by omega)]

theorem mem_enter_self (hcap : 1 ≤ cap) (w : List α) (x : α) : x ∈ enter cap w x := by
  by_cases hx : x ∈ w
  · rwa [enter_of_mem hx]
  · rw [enter_eq_append hcap hx]
    exact List.mem_append_right _ List.mem_cons_self

theorem nodup_enter (cap : Nat) (h : w.Nodup) (x : α) : (enter cap w x).Nodup := by
  by_cases hx : x ∈ w
  · rwa [enter_of_mem hx]
  · rw [enter_of_not_mem hx]
    refine List.Nodup.sublist (List.drop_sublist _ _) ?_
    exact List.Nodup.append h (List.nodup_singleton x) (List.disjoint_singleton.mpr hx)

/-- With room behind `x`, only items in front of it leave. -/
theorem enter_behind (hy : y ∉ u ++ x :: v) (hroom : v.length + 1 < cap) :
    ∃ u', enter cap (u ++ x :: v) y = u' ++ x :: (v ++ [y]) ∧ ∀ z ∈ u', z ∈ u := by
  refine ⟨u.drop ((u ++ x :: v).length + 1 - cap), ?_, fun z hz => List.mem_of_mem_drop hz⟩
  rw [enter_of_not_mem hy, List.append_assoc, List.cons_append, List.drop_append_of_le_length]
  rw [List.length_append, List.length_cons]
  omega

/-- The oldest item of a full memory leaves. -/
theorem enter_full {v : List α} {y : α} (hy : y ∉ x :: v) (hfull : v.length + 1 = cap) :
    enter cap (x :: v) y = v ++ [y] := by
  rw [enter_of_not_mem hy, List.length_cons, hfull, Nat.add_sub_cancel_left, List.cons_append,
    List.drop_succ_cons, List.drop_zero]

theorem mem_fresh : x ∈ fresh w o ↔ o = .push x ∧ x ∉ w := by
  cases o with
  | push y =>
    rw [fresh, Op.push.injEq]
    split
    · next hy =>
      refine ⟨nofun, ?_⟩
      rintro ⟨rfl, hx⟩
      exact absurd hy hx
    · next hy =>
      rw [List.mem_singleton]
      constructor
      · rintro rfl
        exact ⟨rfl, hy⟩
      · rintro ⟨rfl, -⟩
        rfl
  | clear | skip => exact ⟨nofun, fun h => (nomatch h.1)⟩

theorem nodup_fresh (w : List α) (o : Op α) : (fresh w o).Nodup := by
  cases o with
  | push x =>
    rw [fresh]
    split
    · exact List.nodup_nil
    · exact List.nodup_singleton x
  | clear | skip => exact List.nodup_nil

end Enter

/-! ## Runs -/

section Runs

variable {cap : Nat}

theorem counted_append (w : List α) (as bs : List (Op α)) :
    counted cap w (as ++ bs) =
      counted cap w as ++ counted cap (Run.final (step cap) w as) bs := by
  induction as generalizing w with
  | nil => rfl
  | cons o as ih =>
    rw [List.cons_append, counted, counted, ih, List.append_assoc]
    rfl

variable {w : List α} {x : α}

theorem mem_of_mem_step (h : x ∈ step cap w o) : x ∈ w ∨ x ∈ fresh w o := by
  cases o with
  | push y =>
    rcases mem_of_mem_enter h with hw | rfl
    · exact .inl hw
    · by_cases hx : x ∈ w
      · exact .inl hx
      · exact .inr (mem_fresh.mpr ⟨rfl, hx⟩)
  | clear => exact absurd h List.not_mem_nil
  | skip => exact .inl h

variable {os : List (Op α)}

/-- What is remembered was there or was counted. -/
theorem mem_of_mem_final (h : x ∈ Run.final (step cap) w os) :
    x ∈ w ∨ x ∈ counted cap w os := by
  induction os generalizing w with
  | nil => exact .inl h
  | cons o os ih =>
    rw [counted, List.mem_append]
    rcases ih h with hstep | hcounted
    · exact (mem_of_mem_step hstep).imp_right .inl
    · exact .inr (.inr hcounted)

theorem counted_of_mem_final (h : x ∈ Run.final (step cap) [] os) :
    x ∈ counted cap [] os :=
  (mem_of_mem_final h).resolve_left List.not_mem_nil

theorem mem_pushes_of_counted (h : x ∈ counted cap w os) : x ∈ pushes os := by
  induction os generalizing w with
  | nil => exact absurd h List.not_mem_nil
  | cons o os ih =>
    rw [counted, List.mem_append] at h
    rw [mem_pushes_iff]
    rcases h with hfresh | hrest
    · rw [(mem_fresh.mp hfresh).1]
      exact List.mem_cons_self
    · exact List.mem_cons_of_mem _ (mem_pushes_iff.mp (ih hrest))

/-- A push finds its item remembered or is counted. -/
theorem counted_of_mem_pushes (w : List α) (h : x ∈ pushes os) :
    x ∈ w ∨ x ∈ counted cap w os := by
  induction os generalizing w with
  | nil => exact absurd h List.not_mem_nil
  | cons o os ih =>
    rw [counted, List.mem_append]
    rcases List.mem_cons.mp (mem_pushes_iff.mp h) with ho | hlater
    · by_cases hw : x ∈ w
      · exact .inl hw
      · exact .inr (.inl (mem_fresh.mpr ⟨ho.symm, hw⟩))
    · rcases ih (step cap w o) (mem_pushes_iff.mpr hlater) with hstep | hcounted
      · exact (mem_of_mem_step hstep).imp_right .inl
      · exact .inr (.inr hcounted)

theorem mem_counted_nil : x ∈ counted cap [] os ↔ x ∈ pushes os :=
  ⟨mem_pushes_of_counted, fun h => (counted_of_mem_pushes [] h).resolve_left List.not_mem_nil⟩

theorem length_final_le (hw : w.length ≤ cap) (os : List (Op α)) :
    (Run.final (step cap) w os).length ≤ cap := by
  induction os generalizing w with
  | nil => exact hw
  | cons o os ih =>
    refine ih ?_
    cases o with
    | push x => exact length_enter_le hw
    | clear => exact Nat.zero_le _
    | skip => exact hw

end Runs

/-! ## How long an item is remembered -/

section Remembered

variable {cap : Nat} {x : α}

variable {os : List (Op α)}

/-- While fewer than `cap` items are counted after it, an item stays. -/
theorem remembered (hclear : .clear ∉ os)
    (hroom : v.length + (counted cap (u ++ x :: v) os).length < cap) :
    x ∈ Run.final (step cap) (u ++ x :: v) os := by
  induction os generalizing u v with
  | nil => exact List.mem_append_right _ List.mem_cons_self
  | cons o os ih =>
    have hrest : Op.clear ∉ os := fun h => hclear (List.mem_cons_of_mem _ h)
    cases o with
    | clear => exact absurd List.mem_cons_self hclear
    | skip => exact ih hrest hroom
    | push y =>
      show x ∈ Run.final (step cap) (enter cap (u ++ x :: v) y) os
      rw [counted, step] at hroom
      by_cases hy : y ∈ u ++ x :: v
      · rw [fresh, if_pos hy, enter_of_mem hy] at hroom
        rw [enter_of_mem hy]
        exact ih hrest hroom
      · rw [fresh, if_neg hy, List.length_append, List.length_singleton] at hroom
        obtain ⟨u', henter, -⟩ := enter_behind hy (show v.length + 1 < cap by omega)
        rw [henter] at hroom ⊢
        refine ih hrest ?_
        rw [List.length_append, List.length_singleton]
        omega

/-- Once `cap` items are counted after it, an item is gone until it is counted again. -/
theorem forgotten (hlen : (u ++ x :: v).length ≤ cap) (hu : x ∉ u) (hv : x ∉ v)
    (hnot : x ∉ counted cap (u ++ x :: v) os)
    (hfull : cap ≤ v.length + (counted cap (u ++ x :: v) os).length) :
    x ∉ Run.final (step cap) (u ++ x :: v) os := by
  induction os generalizing u v with
  | nil =>
    rw [counted, List.length_nil] at hfull
    rw [List.length_append, List.length_cons] at hlen
    omega
  | cons o os ih =>
    rw [counted] at hnot hfull
    rw [List.mem_append, not_or] at hnot
    cases o with
    | clear =>
      show x ∉ Run.final (step cap) [] os
      exact fun hmem => hnot.2 (counted_of_mem_final hmem)
    | skip => exact ih hlen hu hv hnot.2 hfull
    | push y =>
      show x ∉ Run.final (step cap) (enter cap (u ++ x :: v) y) os
      rw [step] at hnot hfull
      by_cases hy : y ∈ u ++ x :: v
      · rw [fresh, if_pos hy, enter_of_mem hy] at hfull
        rw [enter_of_mem hy] at hnot ⊢
        exact ih hlen hu hv hnot.2 hfull
      · have hxy : x ≠ y := by
          rintro rfl
          exact hy (List.mem_append_right _ List.mem_cons_self)
        rw [fresh, if_neg hy, List.length_append, List.length_singleton] at hfull
        have hv' : x ∉ v ++ [y] := by
          rw [List.mem_append, List.mem_singleton, not_or]
          exact ⟨hv, hxy⟩
        by_cases hroom : v.length + 1 < cap
        · obtain ⟨u', henter, hsub⟩ := enter_behind hy hroom
          have hlen' := length_enter_le hlen (x := y)
          rw [henter] at hnot hfull hlen' ⊢
          refine ih hlen' (fun h => hu (hsub x h)) hv' hnot.2 ?_
          rw [List.length_append, List.length_singleton]
          omega
        · -- the memory is full and `x` is its oldest item
          rw [List.length_append, List.length_cons] at hlen
          obtain rfl : u = [] := List.length_eq_zero_iff.mp (by omega)
          rw [List.nil_append] at hy hnot ⊢
          rw [enter_full hy (by omega)] at hnot ⊢
          exact fun hmem => (mem_of_mem_final hmem).elim hv' hnot.2

/-- A cleared memory holds what is counted later. -/
theorem not_mem_final_of_clear {w : List α} (hclear : .clear ∈ os) (hnot : x ∉ counted cap w os) :
    x ∉ Run.final (step cap) w os := by
  obtain ⟨before, after, rfl⟩ := List.append_of_mem hclear
  rw [counted_append, List.mem_append, not_or] at hnot
  rw [Run.final_append]
  have hafter : x ∉ counted cap [] after := hnot.2
  exact fun hmem => hafter (counted_of_mem_final hmem)

/-- From a memory of items of `xs` and `x`, a run that counts none of these again counts the new
    items. -/
theorem length_counted {xs w : List α} (hw : ∀ y ∈ w, y ∈ xs ∨ y = x)
    (hnodup : (counted cap w os).Nodup) (hnew : ∀ y ∈ counted cap w os, y ∉ xs ∧ y ≠ x) :
    (counted cap w os).length = (newItems xs x (pushes os)).length := by
  refine List.Perm.length_eq
    ((List.perm_ext_iff_of_nodup hnodup (List.nodup_dedup _)).mpr fun y => ?_)
  rw [List.mem_dedup, List.mem_filter, decide_eq_true_iff]
  constructor
  · exact fun hy => ⟨mem_pushes_of_counted hy, hnew y hy⟩
  · rintro ⟨hy, hxs, hx⟩
    exact (counted_of_mem_pushes w hy).resolve_left fun hmem => (hw y hmem).elim hxs hx

/-- An item that was counted once is remembered as long as nothing is cleared and fewer than `cap`
    new items follow. -/
theorem mem_final_iff (hcap : 1 ≤ cap) {as bs : List (Op α)} (hfirst : .push x ∉ as)
    (hnodup : (counted cap [] (as ++ .push x :: bs)).Nodup) :
    x ∈ Run.final (step cap) [] (as ++ .push x :: bs) ↔
      .clear ∉ bs ∧ (newItems (pushes as) x (pushes bs)).length < cap := by
  have hpushed : ∀ y ∈ Run.final (step cap) [] as, y ∈ pushes as := fun y hy =>
    mem_pushes_of_counted (counted_of_mem_final hy)
  have hxa : x ∉ Run.final (step cap) [] as := fun h => hfirst (mem_pushes_iff.mp (hpushed x h))
  obtain ⟨u, henter, hsub⟩ : ∃ u, enter cap (Run.final (step cap) [] as) x = u ++ [x] ∧
      ∀ y ∈ u, y ∈ Run.final (step cap) [] as :=
    ⟨_, enter_eq_append hcap hxa, fun y hy => List.mem_of_mem_drop hy⟩
  have hlen : (enter cap (Run.final (step cap) [] as) x).length ≤ cap :=
    length_enter_le (length_final_le (Nat.zero_le _) as)
  rw [henter] at hlen
  have hrun : Run.final (step cap) [] (as ++ .push x :: bs) =
      Run.final (step cap) (u ++ [x]) bs := by
    rw [Run.final_append, ← henter]
    rfl
  have hlog : counted cap [] (as ++ .push x :: bs) =
      counted cap [] as ++ x :: counted cap (u ++ [x]) bs := by
    rw [counted_append, counted, fresh, if_neg hxa, ← henter]
    rfl
  rw [hlog] at hnodup
  obtain ⟨-, hrest, hdisjoint⟩ := List.nodup_append.mp hnodup
  obtain ⟨hnot, hbs⟩ := List.nodup_cons.mp hrest
  have hnew : (counted cap (u ++ [x]) bs).length =
      (newItems (pushes as) x (pushes bs)).length := by
    refine length_counted (fun y hy => ?_) hbs fun y hy => ⟨fun hya => ?_, fun hyx => ?_⟩
    · exact (List.mem_append.mp hy).imp (fun h => hpushed y (hsub y h)) List.mem_singleton.mp
    · exact hdisjoint y (mem_counted_nil.mpr hya) y (List.mem_cons_of_mem _ hy) rfl
    · exact hnot (hyx ▸ hy)
  rw [hrun, ← hnew]
  constructor
  · refine fun hmem => ⟨fun hclear => not_mem_final_of_clear hclear hnot hmem, ?_⟩
    by_contra hfull
    exact forgotten hlen (fun h => hxa (hsub x h)) List.not_mem_nil hnot
      (by rw [List.length_nil]; omega) hmem
  · rintro ⟨hclear, hroom⟩
    exact remembered hclear (by rw [List.length_nil]; omega)

end Remembered

/-- No item is counted twice exactly if every item that comes again is still remembered: since it
    first came nothing was cleared, and fewer than `cap` items came that had not come before. -/
theorem counted_nodup_iff {cap : Nat} (hcap : 1 ≤ cap) {os : List (Op α)} :
    (counted cap [] os).Nodup ↔
      ∀ as x bs cs, os = as ++ .push x :: (bs ++ .push x :: cs) → .push x ∉ as →
        .clear ∉ bs ∧ (newItems (pushes as) x (pushes bs)).length < cap := by
  induction os using List.reverseRecOn with
  | nil =>
    refine ⟨fun _ as x bs cs h => ?_, fun _ => List.nodup_nil⟩
    exact absurd h.symm (List.append_ne_nil_of_right_ne_nil _ (List.cons_ne_nil _ _))
  | append_singleton os o ih =>
    have hlog : counted cap [] (os ++ [o]) =
        counted cap [] os ++ fresh (Run.final (step cap) [] os) o := by
      rw [counted_append]
      show _ ++ (fresh _ o ++ []) = _
      rw [List.append_nil]
    rw [hlog]
    constructor
    · intro hnodup as x bs cs hsplit hfirst
      obtain ⟨hos, -, hdisjoint⟩ := List.nodup_append.mp hnodup
      rcases List.eq_nil_or_concat cs with rfl | ⟨cs', o', rfl⟩
      · -- the item comes again at the end, where it must not be counted
        rw [← List.cons_append, ← List.append_assoc] at hsplit
        obtain ⟨rfl, ho⟩ := List.append_inj' hsplit rfl
        obtain rfl := List.singleton_inj.mp ho
        refine (mem_final_iff hcap hfirst hos).mp ?_
        by_contra hgone
        rw [fresh, if_neg hgone] at hdisjoint
        have hcounted : x ∈ counted cap [] (as ++ .push x :: bs) :=
          mem_counted_nil.mpr (mem_pushes_iff.mpr (List.mem_append_right _ List.mem_cons_self))
        exact hdisjoint x hcounted x (List.mem_singleton_self x) rfl
      · have hshort : os = as ++ .push x :: (bs ++ .push x :: cs') := by
          have hend : as ++ Op.push x :: (bs ++ Op.push x :: cs'.concat o') =
              (as ++ Op.push x :: (bs ++ Op.push x :: cs')) ++ [o'] := by
            simp
          exact (List.append_inj' (hsplit.trans hend) rfl).1
        exact ih.mp hos as x bs cs' hshort hfirst
    · intro hall
      have hos : (counted cap [] os).Nodup := by
        refine ih.mpr fun as x bs cs hsplit => hall as x bs (cs ++ [o]) ?_
        rw [hsplit]
        simp
      refine List.nodup_append.mpr ⟨hos, nodup_fresh _ o, ?_⟩
      rintro y hy z hz rfl
      -- the last operation counts an item that has come before
      obtain ⟨rfl, hgone⟩ := mem_fresh.mp hz
      obtain ⟨as, bs, hsplit, hfirst⟩ := List.eq_append_cons_of_mem
        (mem_pushes_iff.mp (mem_counted_nil.mp hy))
      have hlast := hall as y bs [] (by rw [hsplit]; simp) hfirst
      rw [hsplit] at hos hgone
      exact hgone ((mem_final_iff hcap hfirst hos).mpr hlast)

end Window
