/-
  A map of bounded size with the queue of its keys in a second container.

  The two containers are kept in step by hand: a key that is not there enters both, and before that
  the oldest keys leave both until there is room. `Represents` says that they hold what a bounded
  table holds (`FifoTable`, whose order has no key twice and is exactly the keys with an entry), and
  `Represents.update` that an update is a `put` of that table.

  The other way to make room is to let the new key in first and to evict while the map is too large
  (`shrink`); it comes to the same (`Represents.shrink`).

  `Tracked` is the invariant of a store that only updates, and `Bounded` what it comes to without a
  table: the queue is the keys of the map, each once, no more than `cap`, and every entry is as the
  changes keep it.
-/
import Mathlib.Data.Finmap
import Duckton.Lib.FifoTable

structure EvictingMap (κ σ : Type) where
  map : Finmap fun _ : κ => σ
  queue : List κ

namespace EvictingMap

variable {κ σ : Type} [DecidableEq κ]

def empty : EvictingMap κ σ :=
  ⟨∅, []⟩

/-- The oldest keys leave as long as the queue has `cap` keys or more. -/
def makeRoom (cap : Nat) (map : Finmap fun _ : κ => σ) : List κ → EvictingMap κ σ
  | [] => ⟨map, []⟩
  | key :: queue =>
    if cap ≤ (key :: queue).length then makeRoom cap (map.erase key) queue
    else ⟨map, key :: queue⟩

/-- The entry of a key is changed; a key that is not there enters with the entry `new`. -/
def update (cap : Nat) (key : κ) (new : σ) (f : σ → σ) (t : EvictingMap κ σ) : EvictingMap κ σ :=
  match t.map.lookup key with
  | some v => { t with map := t.map.insert key (f v) }
  | none =>
    let room := makeRoom cap t.map t.queue
    ⟨room.map.insert key (f new), room.queue ++ [key]⟩

/-- The oldest keys leave as long as the map has more than `cap` keys. -/
def shrink (cap : Nat) (map : Finmap fun _ : κ => σ) : List κ → EvictingMap κ σ
  | [] => ⟨map, []⟩
  | key :: queue =>
    if cap < map.keys.card then shrink cap (map.erase key) queue else ⟨map, key :: queue⟩

/-! ## Bounded tables -/

/-- Both containers hold what the table holds. -/
structure Represents (t : EvictingMap κ σ) (a : FifoTable κ σ) : Prop where
  queue : t.queue = a.order
  lookup : ∀ k, t.map.lookup k = a.entries k

variable {cap : Nat} {t : EvictingMap κ σ} {a : FifoTable κ σ} {key : κ}

theorem represents_empty : Represents (empty : EvictingMap κ σ) .empty :=
  ⟨rfl, fun _ => rfl⟩

theorem Represents.mem_map_iff (h : t.Represents a) (k : κ) : k ∈ t.map ↔ k ∈ t.queue := by
  rw [h.queue, a.mem_order, ← h.lookup, Finmap.lookup_isSome]

theorem Represents.nodup (h : t.Represents a) : t.queue.Nodup :=
  h.queue ▸ a.nodup

theorem Represents.keys (h : t.Represents a) : t.map.keys = t.queue.toFinset := by
  ext k
  rw [Finmap.mem_keys, List.mem_toFinset, h.mem_map_iff]

/-- The map is as large as the queue is long. -/
theorem Represents.card (h : t.Represents a) : t.map.keys.card = t.queue.length := by
  rw [h.keys, List.toFinset_card_of_nodup h.nodup]

theorem makeRoom_spec (cap : Nat) (map : Finmap fun _ : κ => σ) (queue : List κ) :
    (makeRoom cap map queue).queue = queue.drop (queue.length + 1 - cap) ∧
      ∀ k, (makeRoom cap map queue).map.lookup k =
        if k ∈ queue.take (queue.length + 1 - cap) then none else map.lookup k := by
  induction queue generalizing map with
  | nil =>
    refine ⟨List.drop_nil.symm, fun k => ?_⟩
    rw [List.take_nil, if_neg List.not_mem_nil, makeRoom]
  | cons q queue ih =>
    rw [makeRoom]
    split
    · next hfull =>
      have hlen : (q :: queue).length + 1 - cap = queue.length + 1 - cap + 1 := by
        rw [List.length_cons] at hfull ⊢
        omega
      rw [(ih _).1, hlen, List.drop_succ_cons, List.take_succ_cons]
      refine ⟨rfl, fun k => ?_⟩
      rw [(ih _).2]
      simp only [List.mem_cons]
      by_cases hk : k = q
      · rw [hk, Finmap.lookup_erase, ite_self, if_pos (.inl rfl)]
      · rw [Finmap.lookup_erase_ne hk]
        simp only [hk, false_or]
    · next hroom =>
      have hlen : (q :: queue).length + 1 - cap = 0 := by omega
      rw [hlen, List.drop_zero, List.take_zero]
      exact ⟨rfl, fun k => (if_neg List.not_mem_nil).symm⟩

theorem lookup_insert_eq (map : Finmap fun _ : κ => σ) (key : κ) (v : σ) (k : κ) :
    (map.insert key v).lookup k = if k = key then some v else map.lookup k := by
  split
  · next hk => rw [hk, Finmap.lookup_insert]
  · next hk => rw [Finmap.lookup_insert_of_ne map hk]

theorem lookup_update_self (cap : Nat) (key : κ) (new : σ) (f : σ → σ) (t : EvictingMap κ σ) :
    (t.update cap key new f).map.lookup key = some (f ((t.map.lookup key).getD new)) := by
  unfold update
  cases t.map.lookup key <;> exact Finmap.lookup_insert _

/-- The containers with room made hold the table with room made. -/
theorem Represents.makeRoom (h : t.Represents a) (cap : Nat) :
    (makeRoom cap t.map t.queue).Represents (a.evict cap) where
  queue := by rw [(makeRoom_spec ..).1, h.queue, FifoTable.evict]
  lookup k := by rw [(makeRoom_spec ..).2, h.queue, h.lookup, FifoTable.evict]

theorem Represents.update (h : t.Represents a) (cap : Nat) (key : κ) (new : σ) (f : σ → σ) :
    (t.update cap key new f).Represents (a.put cap key (f ((a.entries key).getD new))) := by
  unfold EvictingMap.update FifoTable.put
  rw [h.lookup]
  cases hentry : a.entries key with
  | some v =>
    have hmem : key ∈ a.order := (a.mem_order key).mpr (by rw [hentry]; rfl)
    refine ⟨h.queue.trans (if_pos hmem).symm, fun k => ?_⟩
    refine (lookup_insert_eq t.map key (f v) k).trans ?_
    rw [h.lookup]
    rfl
  | none =>
    have hroom := h.makeRoom cap
    have hout : key ∉ (a.evict cap).order := by
      intro hmem
      have hkept := (a.mem_order key).mp (List.mem_of_mem_drop hmem)
      rw [hentry] at hkept
      cases hkept
    refine ⟨?_, fun k => ?_⟩
    · refine (congrArg (· ++ [key]) hroom.queue).trans ?_
      exact (if_neg hout).symm
    · refine (lookup_insert_eq _ key (f new) k).trans ?_
      rw [hroom.lookup]
      rfl

/-- With the map as large as the queue is long, room is made after the key came in as it is made
    before. -/
theorem shrink_eq {map : Finmap fun _ : κ => σ} {queue : List κ} (hnodup : queue.Nodup)
    (hkeys : map.keys = queue.toFinset) (cap : Nat) :
    shrink cap map queue = EvictingMap.makeRoom (cap + 1) map queue := by
  induction queue generalizing map with
  | nil => rfl
  | cons q queue ih =>
    have hcard : map.keys.card = (q :: queue).length := by
      rw [hkeys, List.toFinset_card_of_nodup hnodup]
    rw [shrink, EvictingMap.makeRoom, hcard]
    refine if_congr Iff.rfl (ih hnodup.of_cons ?_) rfl
    rw [Finmap.keys_erase, hkeys, List.toFinset_cons, Finset.erase_insert]
    exact fun hq => hnodup.notMem (List.mem_toFinset.mp hq)

/-- A key that comes in before room is made is put into the table. -/
theorem Represents.shrink (h : t.Represents a) (hcap : 1 ≤ cap) (hlen : a.order.length ≤ cap)
    (key : κ) (v : σ) :
    (shrink cap (t.map.insert key v)
      (if key ∈ t.queue then t.queue else t.queue ++ [key])).Represents (a.put cap key v) := by
  have hin : Represents ⟨t.map.insert key v,
      if key ∈ t.queue then t.queue else t.queue ++ [key]⟩ (a.insert key v) := by
    refine ⟨by rw [h.queue]; rfl, fun k => ?_⟩
    refine (lookup_insert_eq t.map key v k).trans ?_
    rw [h.lookup]
    rfl
  rw [shrink_eq hin.nodup hin.keys]
  have hroom := hin.makeRoom (cap + 1)
  have horder : ((a.insert key v).evict (cap + 1)).order = (a.put cap key v).order := by
    rw [FifoTable.order_put hcap, Window.enter]
    show (if key ∈ a.order then a.order else a.order ++ [key]).drop
      ((if key ∈ a.order then a.order else a.order ++ [key]).length + 1 - (cap + 1)) = _
    split
    · rw [Nat.add_sub_add_right, Nat.sub_eq_zero_of_le hlen, List.drop_zero]
    · rw [List.length_append, List.length_singleton, Nat.add_sub_add_right]
  refine ⟨hroom.queue.trans horder, fun k => ?_⟩
  rw [hroom.lookup]
  -- an entry is there exactly as long as its key is in the order
  by_cases hk : k ∈ (a.put cap key v).order
  · have hleft := hk
    rw [← horder, FifoTable.evict, FifoTable.mem_drop_iff (a.insert key v).nodup] at hleft
    rw [FifoTable.order_put hcap] at hk
    rw [FifoTable.entries_put hcap, if_pos hk]
    exact if_neg hleft.2
  · rw [Option.not_isSome_iff_eq_none.mp (mt ((a.put cap key v).mem_order k).mpr hk)]
    rw [← horder] at hk
    exact Option.not_isSome_iff_eq_none.mp (mt (FifoTable.mem_order _ k).mpr hk)

/-! ## What updates keep -/

/-- The containers hold what a table of at most `cap` keys holds, and every entry has `P`. -/
def Tracked (cap : Nat) (P : σ → Prop) (t : EvictingMap κ σ) : Prop :=
  ∃ a : FifoTable κ σ, t.Represents a ∧ a.order.length ≤ cap ∧ ∀ k v, a.entries k = some v → P v

structure Bounded (cap : Nat) (P : σ → Prop) (t : EvictingMap κ σ) : Prop where
  mem_iff : ∀ k, k ∈ t.map ↔ k ∈ t.queue
  nodup : t.queue.Nodup
  card_le : t.map.keys.card ≤ cap
  length_le : t.queue.length ≤ cap
  entry : ∀ k v, t.map.lookup k = some v → P v

variable {P : σ → Prop}

theorem tracked_empty : Tracked cap P (empty : EvictingMap κ σ) := by
  refine ⟨.empty, represents_empty, Nat.zero_le cap, ?_⟩
  intro k v h
  cases h

theorem Tracked.bounded (h : Tracked cap P t) : Bounded cap P t := by
  obtain ⟨a, ha, hlen, hP⟩ := h
  have hqueue : t.queue.length ≤ cap := by rwa [ha.queue]
  exact ⟨ha.mem_map_iff, ha.nodup, ha.card.trans_le hqueue, hqueue,
    fun k v hk => hP k v (ha.lookup k ▸ hk)⟩

/-- The entries of the table with one put. -/
theorem entry_put (hcap : 1 ≤ cap) {v : σ} (hv : P v) (hP : ∀ k w, a.entries k = some w → P w)
    (k : κ) (w : σ) (hw : (a.put cap key v).entries k = some w) : P w := by
  rw [FifoTable.entries_put hcap] at hw
  split at hw
  · exact Option.some.inj hw ▸ hv
  · split at hw
    · exact hP k w hw
    · cases hw

omit [DecidableEq κ] in
theorem getD_entry {new : σ} (hnew : P new) (hP : ∀ k w, a.entries k = some w → P w) (k : κ) :
    P ((a.entries k).getD new) := by
  cases hk : a.entries k with
  | none => exact hnew
  | some w => exact hP k w hk

/-- A change that keeps `P` keeps it everywhere. -/
theorem Tracked.update (h : Tracked cap P t) (hcap : 1 ≤ cap) {new : σ} {f : σ → σ} (hnew : P new)
    (hf : ∀ v, P v → P (f v)) (key : κ) : Tracked cap P (t.update cap key new f) := by
  obtain ⟨a, ha, hlen, hP⟩ := h
  refine ⟨_, ha.update cap key new f, ?_, entry_put hcap (hf _ (getD_entry hnew hP key)) hP⟩
  rw [FifoTable.order_put hcap]
  exact Window.length_enter_le hlen

end EvictingMap
