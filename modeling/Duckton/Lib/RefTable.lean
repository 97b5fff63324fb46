/-
  Trees written as tables: a row is a label with the numbers of the rows that are its children.

  `Unfolds` says which tree a row stands for. Rows may be shared, so the tree can be much larger
  than the table: it has one node for each walk down the references (`Unfolds.ncard_walks`). In a
  table whose references all point forward every row stands for exactly one tree. `Indexed` says
  that references are numbered by keys; the table of such a listing of a tree's subtrees, in which
  trees with equal keys share a row, stands for that tree (`Indexed.unfolds`).
-/
import Duckton.Lib.Rose

namespace RefTable

variable {α β κ : Type}

abbrev Table (α : Type) := List (α × List Nat)

variable {R : α → β → Prop} {xs : List α}

theorem exists_forall₂ (h : ∀ x ∈ xs, ∃ y, R x y) : ∃ ys, List.Forall₂ R xs ys := by
  induction xs with
  | nil => exact ⟨[], .nil⟩
  | cons x xs ih =>
    obtain ⟨y, hy⟩ := h x List.mem_cons_self
    obtain ⟨ys, hys⟩ := ih fun x' hx' => h x' (List.mem_cons_of_mem _ hx')
    exact ⟨y :: ys, .cons hy hys⟩

theorem forall₂_getElem? {ys : List β}
    (h : List.Forall₂ R xs ys) {k : Nat} {x : α} (hx : xs[k]? = some x) :
    ∃ y, ys[k]? = some y ∧ R x y := by
  induction h generalizing k with
  | nil => simp at hx
  | cons hxy _ ih =>
    cases k with
    | zero =>
      rw [List.getElem?_cons_zero, Option.some.injEq] at hx
      exact ⟨_, rfl, hx ▸ hxy⟩
    | succ k => exact ih hx

/-! ## Unfolding -/

mutual

def Unfolds (t : Table α) : Nat → Rose α → Prop
  | i, .node a cs => ∃ refs, t[i]? = some (a, refs) ∧ UnfoldsAll t refs cs

def UnfoldsAll (t : Table α) : List Nat → List (Rose α) → Prop
  | refs, [] => refs = []
  | refs, c :: cs => ∃ r rest, refs = r :: rest ∧ Unfolds t r c ∧ UnfoldsAll t rest cs

end

variable {t : Table α}

theorem unfoldsAll_iff {refs : List Nat} {cs : List (Rose α)} :
    UnfoldsAll t refs cs ↔ List.Forall₂ (Unfolds t) refs cs := by
  induction cs generalizing refs with
  | nil => rw [UnfoldsAll, List.forall₂_nil_right_iff]
  | cons c cs ih =>
    rw [UnfoldsAll, List.forall₂_cons_right_iff]
    constructor
    · rintro ⟨r, rest, rfl, hc, hcs⟩
      exact ⟨r, rest, hc, ih.mp hcs, rfl⟩
    · rintro ⟨r, rest, hc, hcs, rfl⟩
      exact ⟨r, rest, rfl, hc, ih.mpr hcs⟩

variable {i : Nat} {c : Rose α}

theorem unfolds_node {a : α} {cs : List (Rose α)} :
    Unfolds t i (.node a cs) ↔
      ∃ refs, t[i]? = some (a, refs) ∧ List.Forall₂ (Unfolds t) refs cs := by
  rw [Unfolds]
  simp only [unfoldsAll_iff]

theorem Unfolds.lt_length (h : Unfolds t i c) : i < t.length := by
  cases c with
  | node a cs =>
    obtain ⟨refs, hrow, _⟩ := unfolds_node.mp h
    exact (List.getElem?_eq_some_iff.mp hrow).1

theorem forall₂_unique {ys zs : List β}
    (hunique : ∀ y ∈ ys, ∀ x z, R x y → R x z → y = z) (h : List.Forall₂ R xs ys)
    (h' : List.Forall₂ R xs zs) : ys = zs := by
  induction h generalizing zs with
  | nil => rw [List.forall₂_nil_left_iff.mp h']
  | cons hxy _ ih =>
    obtain ⟨z, zs, hxz, hrest, rfl⟩ := List.forall₂_cons_left_iff.mp h'
    rw [hunique _ List.mem_cons_self _ z hxy hxz,
      ih (fun y hy => hunique y (List.mem_cons_of_mem _ hy)) hrest]

theorem Unfolds.unique {d : Rose α} (h : Unfolds t i c) (h' : Unfolds t i d) :
    c = d := by
  induction c using Rose.ind generalizing i d with
  | h a cs ih =>
    cases d with
    | node b ds =>
      obtain ⟨refs, hrow, hcs⟩ := unfolds_node.mp h
      obtain ⟨refs', hrow', hds⟩ := unfolds_node.mp h'
      obtain ⟨rfl, rfl⟩ := Prod.mk.inj (Option.some.inj (hrow.symm.trans hrow'))
      rw [forall₂_unique (R := Unfolds t) (fun c hc i d => ih c hc) hcs hds]

def ForwardAt (t : Table α) (i : Nat) : Prop :=
  ∀ a refs, t[i]? = some (a, refs) → ∀ r ∈ refs, i < r ∧ r < t.length

/-- Every reference points to a later row. -/
def Forward (t : Table α) : Prop :=
  ∀ i, ForwardAt t i

theorem Forward.exists_unfolds (ht : Forward t) (hi : i < t.length) :
    ∃ c, Unfolds t i c := by
  -- on how many rows are left
  induction hleft : t.length - i using Nat.strong_induction_on generalizing i with
  | _ left ih =>
    have hrow : t[i]? = some (t[i].1, t[i].2) := List.getElem?_eq_getElem hi
    have hchildren : ∀ r ∈ t[i].2, ∃ c, Unfolds t r c := by
      intro r hr
      obtain ⟨hlater, hlt⟩ := ht i _ _ hrow r hr
      exact ih (t.length - r) (by omega) hlt rfl
    obtain ⟨cs, hcs⟩ := exists_forall₂ hchildren
    exact ⟨.node t[i].1 cs, unfolds_node.mpr ⟨t[i].2, hrow, hcs⟩⟩

/-! ## Walks -/

/-- The row reached from row `i` by taking these references in turn. -/
def follow (t : Table α) : Nat → List Nat → Option Nat
  | i, [] => some i
  | i, k :: ks => t[i]?.bind fun row => row.2[k]?.bind fun r => follow t r ks

def Reaches (t : Table α) (i j : Nat) : Prop :=
  ∃ ks, follow t i ks = some j

/-- The walks down from a row. -/
def walks (t : Table α) (i : Nat) : Set (List Nat) :=
  {ks | (follow t i ks).isSome}

/-- Following references and descending in the tree go together. -/
theorem Unfolds.descend {j : Nat} (h : Unfolds t i c) {ks : List Nat}
    (hj : follow t i ks = some j) : ∃ d, c.descend ks = some d ∧ Unfolds t j d := by
  induction ks generalizing i c with
  | nil =>
    rw [follow, Option.some.injEq] at hj
    exact ⟨c, rfl, hj ▸ h⟩
  | cons k ks ih =>
    cases c with
    | node a cs =>
      obtain ⟨refs, hrow, hcs⟩ := unfolds_node.mp h
      rw [follow, hrow, Option.bind_some] at hj
      obtain ⟨r, hr, hj⟩ := Option.bind_eq_some_iff.mp hj
      obtain ⟨d, hd, hunfolds⟩ := forall₂_getElem? hcs hr
      rw [Rose.descend, Rose.children_node, hd, Option.bind_some]
      exact ih hunfolds hj

theorem Unfolds.follow {d : Rose α} (h : Unfolds t i c) {ks : List Nat}
    (hd : c.descend ks = some d) : ∃ j, follow t i ks = some j ∧ Unfolds t j d := by
  induction ks generalizing i c with
  | nil =>
    rw [Rose.descend, Option.some.injEq] at hd
    exact ⟨i, rfl, hd ▸ h⟩
  | cons k ks ih =>
    cases c with
    | node a cs =>
      obtain ⟨refs, hrow, hcs⟩ := unfolds_node.mp h
      obtain ⟨e, he, hd⟩ := Option.bind_eq_some_iff.mp hd
      obtain ⟨r, hr, hunfolds⟩ := forall₂_getElem? (List.Forall₂.flip hcs) he
      obtain ⟨j, hj, hfinal⟩ := ih hunfolds hd
      refine ⟨j, ?_, hfinal⟩
      rw [RefTable.follow, hrow, Option.bind_some, hr, Option.bind_some, hj]

/-- A tree has one node for each walk down from its row. -/
theorem Unfolds.ncard_walks (h : Unfolds t i c) :
    (walks t i).ncard = c.size := by
  have hwalks : walks t i = {ks | (c.descend ks).isSome} := by
    ext ks
    simp only [walks, Set.mem_ofPred_eq, Option.isSome_iff_exists]
    constructor
    · rintro ⟨j, hj⟩
      obtain ⟨d, hd, _⟩ := h.descend hj
      exact ⟨d, hd⟩
    · rintro ⟨d, hd⟩
      obtain ⟨j, hj, _⟩ := h.follow hd
      exact ⟨j, hj⟩
  rw [hwalks, Rose.ncard_descend]

/-! ## Tables of listed trees -/

section Listing

def tableOf (f : α → β) (rows : List (Rose α)) (refs : List (List Nat)) : Table β :=
  List.zipWith (fun n js => (f n.label, js)) rows refs

theorem getElem?_tableOf (f : α → β) {rows : List (Rose α)} {refs : List (List Nat)} {i : Nat}
    {b : β} {js : List Nat} :
    (tableOf f rows refs)[i]? = some (b, js) ↔
      ∃ n, rows[i]? = some n ∧ f n.label = b ∧ refs[i]? = some js := by
  rw [tableOf, List.getElem?_zipWith_eq_some]
  simp only [Prod.mk.injEq]
  constructor
  · rintro ⟨n, js', hn, hjs, rfl, rfl⟩
    exact ⟨n, hn, rfl, hjs⟩
  · rintro ⟨n, hn, rfl, hjs⟩
    exact ⟨n, js, hn, hjs, rfl, rfl⟩

variable [DecidableEq κ]

/-- A map from keys to their places, filled in order. -/
def numbering (keys : List κ) : κ → Option Nat :=
  keys.zipIdx.foldl (fun m e k => if k = e.1 then some e.2 else m k) fun _ => none

theorem numbering_concat (keys : List κ) (k k' : κ) :
    numbering (keys ++ [k]) k' = if k' = k then some keys.length else numbering keys k' := by
  unfold numbering
  rw [List.zipIdx_append, List.foldl_append]
  simp

theorem numbering_eq_some {keys : List κ} (h : keys.Nodup) {k : κ} {j : Nat} :
    numbering keys k = some j ↔ keys[j]? = some k := by
  induction keys using List.reverseRecOn with
  | nil => simp [numbering]
  | append_singleton keys last ih =>
    rw [List.nodup_append] at h
    obtain ⟨hkeys, _, hlast⟩ := h
    rw [numbering_concat, List.getElem?_append]
    by_cases hk : k = last
    · subst hk
      rw [if_pos rfl, Option.some.injEq]
      by_cases hj : j < keys.length
      · rw [if_pos hj]
        refine ⟨fun h => by omega, fun h => ?_⟩
        exact absurd rfl (hlast k (List.mem_of_getElem? h) k (List.mem_singleton_self k))
      · rw [if_neg hj, List.getElem?_singleton]
        split <;> simp <;> omega
    · rw [if_neg hk, ih hkeys]
      by_cases hj : j < keys.length
      · rw [if_pos hj]
      · rw [if_neg hj, List.getElem?_eq_none (Nat.le_of_not_lt hj), List.getElem?_singleton]
        split
        · simp [Ne.symm hk]
        · rfl

/-- `refs` gives for each listed tree the rows of its children's keys. -/
def Indexed (key : Rose α → κ) (rows : List (Rose α)) (refs : List (List Nat)) : Prop :=
  List.Forall₂ (fun n js =>
    List.Forall₂ (fun c j => numbering (rows.map key) (key c) = some j) n.children js) rows refs

variable {key : Rose α → κ} {rows : List (Rose α)} {refs : List (List Nat)}

section

variable (hrows : Rose.ChildrenFirst key rows.reverse)

include hrows

/-- Parents listed before their children: the row of a child comes later. -/
theorem child_row {i : Nat} {n c : Rose α} (hn : rows[i]? = some n) (hc : c ∈ n.children) :
    ∃ j m, numbering (rows.map key) (key c) = some j ∧ i < j ∧ rows[j]? = some m ∧
      key m = key c := by
  obtain ⟨hi, hget⟩ := List.getElem?_eq_some_iff.mp hn
  have hsplit : rows.reverse = (rows.drop (i + 1)).reverse ++ n :: (rows.take i).reverse := by
    have hwhole : rows = rows.take i ++ n :: rows.drop (i + 1) := by
      rw [← hget, List.cons_getElem_drop_succ, List.take_append_drop]
    have hreverse := congrArg List.reverse hwhole
    rw [List.reverse_append, List.reverse_cons, List.append_assoc] at hreverse
    exact hreverse
  obtain ⟨m, hm, hkey⟩ := List.mem_map.mp (hrows.before _ _ _ hsplit c hc)
  rw [List.mem_reverse] at hm
  obtain ⟨d, hd⟩ := List.mem_iff_getElem?.mp hm
  rw [List.getElem?_drop] at hd
  have hnodup : (rows.map key).Nodup := by
    have := hrows.nodup
    rwa [List.map_reverse, List.nodup_reverse] at this
  refine ⟨i + 1 + d, m, ?_, by omega, hd, hkey⟩
  rw [numbering_eq_some hnodup, List.getElem?_map, hd, Option.map_some, hkey]

theorem exists_indexed :
    ∃ refs, Indexed key rows refs := by
  have hchildren : ∀ n ∈ rows, ∃ js,
      List.Forall₂ (fun c j => numbering (rows.map key) (key c) = some j) n.children js := by
    intro n hn
    obtain ⟨i, hi⟩ := List.mem_iff_getElem?.mp hn
    have hlookup : ∀ c ∈ n.children, ∃ j, numbering (rows.map key) (key c) = some j := by
      intro c hc
      obtain ⟨j, _, hj, _⟩ := child_row hrows hi hc
      exact ⟨j, hj⟩
    exact exists_forall₂ hlookup
  exact exists_forall₂ hchildren

theorem Indexed.forward (h : Indexed key rows refs) (f : α → β) :
    Forward (tableOf f rows refs) := by
  intro i b js hrow r hr
  obtain ⟨n, hn, _, hjs⟩ := (getElem?_tableOf f).mp hrow
  obtain ⟨js', hjs', hchildren⟩ := forall₂_getElem? h hn
  obtain rfl := Option.some.inj (hjs.symm.trans hjs')
  obtain ⟨k, hk⟩ := List.mem_iff_getElem?.mp hr
  obtain ⟨c, hc, hlookup⟩ := forall₂_getElem? (List.Forall₂.flip hchildren) hk
  obtain ⟨j, m, hj, hlt, hm, _⟩ := child_row hrows hn (List.mem_of_getElem? hc)
  obtain rfl := Option.some.inj (hlookup.symm.trans hj)
  obtain ⟨hlen, _⟩ := List.getElem?_eq_some_iff.mp hm
  refine ⟨hlt, ?_⟩
  rw [tableOf, List.length_zipWith, ← List.Forall₂.length_eq h, Nat.min_self]
  exact hlen

/-- The table stands for the listed trees, relabelled, if the relabelling forgets what the key does
    not see. -/
theorem Indexed.unfolds (h : Indexed key rows refs) {f : α → β} {U : Rose α → Prop}
    (hU : ∀ n ∈ rows, U n ∧ ∀ c ∈ n.children, U c)
    (hkey : ∀ c d, U c → U d → key c = key d → c.map f = d.map f) {i : Nat} {n : Rose α}
    (hn : rows[i]? = some n) : Unfolds (tableOf f rows refs) i (n.map f) := by
  -- on how many rows are left
  induction hleft : rows.length - i using Nat.strong_induction_on generalizing i n with
  | _ left ih =>
    obtain ⟨js, hjs, hchildren⟩ := forall₂_getElem? h hn
    have hrow : (tableOf f rows refs)[i]? = some (f n.label, js) :=
      (getElem?_tableOf f).mpr ⟨n, hn, rfl, hjs⟩
    have hmem := List.mem_of_getElem? hn
    cases n with
    | node a cs =>
      rw [Rose.map_node, unfolds_node]
      refine ⟨js, hrow, ?_⟩
      rw [List.forall₂_map_right_iff]
      refine (List.forall₂_iff_get.mpr ⟨hchildren.length_eq.symm, ?_⟩)
      intro k hk hk'
      obtain ⟨j, m, hj, hlt, hm, heq⟩ := child_row hrows hn (List.get_mem cs ⟨k, hk'⟩)
      have hlookup := (List.forall₂_iff_get.mp hchildren).2 k hk' hk
      rw [Option.some.inj (hlookup.symm.trans hj)]
      have hjlen := (List.getElem?_eq_some_iff.mp hm).1
      rw [← hkey m _ (hU m (List.mem_of_getElem? hm)).1 ((hU _ hmem).2 _ (List.get_mem cs ⟨k, hk'⟩))
        heq]
      exact ih (rows.length - j) (by omega) hm rfl

end

end Listing

end RefTable
