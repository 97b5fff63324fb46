/-
  Tables of bounded size from which the key that entered first leaves first.

  A key keeps its place when its entry is replaced. The keys in their order of entry form a window
  (`order_put`), and an entry is there exactly as long as its key is in the window
  (`entries_put`).
-/
import Duckton.Lib.Window

@[ext]
structure FifoTable (κ σ : Type) where
  entries : κ → Option σ
  order : List κ
  nodup : order.Nodup
  mem_order : ∀ k, k ∈ order ↔ (entries k).isSome = true

namespace FifoTable

variable {κ σ : Type}

/-- A capacity raised to one has room for an entry. -/
theorem one_le_max_one (cap : Nat) : 1 ≤ max cap 1 :=
  Nat.le_max_right cap 1

/-- No entries. -/
def empty : FifoTable κ σ where
  entries _ := none
  order := []
  nodup := List.nodup_nil
  mem_order _ := iff_of_false List.not_mem_nil Bool.false_ne_true

variable [DecidableEq κ]

theorem mem_drop_iff {l : List κ} (h : l.Nodup) (n : Nat) (k : κ) :
    k ∈ l.drop n ↔ k ∈ l ∧ k ∉ l.take n := by
  have hsplit : k ∈ l ↔ k ∈ l.take n ∨ k ∈ l.drop n := by
    rw [← List.mem_append, List.take_append_drop]
  have hdisjoint : k ∈ l.take n → k ∉ l.drop n := by
    intro htake hdrop
    rw [← List.take_append_drop n l] at h
    exact (List.nodup_append.mp h).2.2 k htake k hdrop rfl
  tauto

/-- The oldest keys leave until there is room for one. -/
def evict (cap : Nat) (t : FifoTable κ σ) : FifoTable κ σ where
  entries k := if k ∈ t.order.take (t.order.length + 1 - cap) then none else t.entries k
  order := t.order.drop (t.order.length + 1 - cap)
  nodup := t.nodup.sublist (List.drop_sublist _ _)
  mem_order k := by
    rw [mem_drop_iff t.nodup, t.mem_order]
    split <;> simp_all

def insert (key : κ) (v : σ) (t : FifoTable κ σ) : FifoTable κ σ where
  entries k := if k = key then some v else t.entries k
  order := if key ∈ t.order then t.order else t.order ++ [key]
  nodup := by
    split
    · exact t.nodup
    · next h =>
      exact List.Nodup.append t.nodup (List.nodup_singleton key) (List.disjoint_singleton.mpr h)
  mem_order k := by
    have hk := t.mem_order k
    by_cases hkey : k = key
    · subst hkey
      split <;> simp_all
    · split <;> simp [hkey, hk]

/-- A key that is not there enters, for which the oldest leave. -/
def put (cap : Nat) (key : κ) (v : σ) (t : FifoTable κ σ) : FifoTable κ σ :=
  (if (t.entries key).isSome then t else t.evict cap).insert key v

variable {cap : Nat} {t : FifoTable κ σ} {key : κ} {v : σ}

theorem order_put (hcap : 1 ≤ cap) (t : FifoTable κ σ) (key : κ) (v : σ) :
    (t.put cap key v).order = Window.enter cap t.order key := by
  unfold put
  by_cases hkey : key ∈ t.order
  · rw [if_pos ((t.mem_order key).mp hkey), Window.enter_of_mem hkey]
    exact if_pos hkey
  · rw [if_neg (mt (t.mem_order key).mpr hkey), Window.enter_eq_append hcap hkey]
    exact if_neg fun h => hkey (List.mem_of_mem_drop h)

theorem entries_put (hcap : 1 ≤ cap) (t : FifoTable κ σ) (key : κ) (v : σ) (k : κ) :
    (t.put cap key v).entries k =
      if k = key then some v
      else if k ∈ Window.enter cap t.order key then t.entries k else none := by
  by_cases hk : k = key
  · rw [if_pos hk]
    exact if_pos hk
  rw [if_neg hk, put, insert]
  simp only [if_neg hk]
  by_cases hkey : key ∈ t.order
  · rw [if_pos ((t.mem_order key).mp hkey), Window.enter_of_mem hkey]
    split
    · rfl
    · next hout => exact Option.not_isSome_iff_eq_none.mp (mt (t.mem_order k).mpr hout)
  · rw [if_neg (mt (t.mem_order key).mpr hkey), Window.enter_eq_append hcap hkey]
    have hstays : k ∈ t.order.drop (t.order.length + 1 - cap) ++ [key] ↔
        k ∈ t.order ∧ k ∉ t.order.take (t.order.length + 1 - cap) := by
      rw [List.mem_append, List.mem_singleton, or_iff_left hk, mem_drop_iff t.nodup]
    simp only [hstays, evict]
    split
    · next hleaves => rw [if_neg fun h => h.2 hleaves]
    · next hleaves =>
      split
      · rfl
      · next hout =>
        refine Option.not_isSome_iff_eq_none.mp fun hsome => hout ⟨?_, hleaves⟩
        exact (t.mem_order k).mpr hsome

/-- Putting back what is there changes nothing. -/
theorem put_self {default : σ} (hkey : key ∈ t.order) :
    t.put cap key ((t.entries key).getD default) = t := by
  have hsome := (t.mem_order key).mp hkey
  rw [put, if_pos hsome]
  refine FifoTable.ext (funext fun k => ?_) (if_pos hkey)
  rw [insert]
  dsimp only
  split
  · next hk => rw [hk, Option.getD_of_ne_none (Option.isSome_iff_ne_none.mp hsome)]
  · rfl

section MapEntries

variable {τ : Type}

omit [DecidableEq κ] in
/-- The table with its entries in another form. -/
def mapEntries (f : σ → τ) (t : FifoTable κ σ) : FifoTable κ τ where
  entries k := (t.entries k).map f
  order := t.order
  nodup := t.nodup
  mem_order k := by rw [Option.isSome_map]; exact t.mem_order k

theorem mapEntries_put (hcap : 1 ≤ cap) (f : σ → τ) (t : FifoTable κ σ) (key : κ) (v : σ) :
    (t.put cap key v).mapEntries f = (t.mapEntries f).put cap key (f v) := by
  refine FifoTable.ext (funext fun k => ?_) ?_
  · show ((t.put cap key v).entries k).map f = _
    rw [entries_put hcap, entries_put hcap]
    rw [apply_ite (Option.map f), apply_ite (Option.map f)]
    rfl
  · rw [order_put hcap]
    exact order_put hcap t key v

end MapEntries

end FifoTable
