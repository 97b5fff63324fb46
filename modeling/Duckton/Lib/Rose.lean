/-
  Rose trees: a label and an ordered list of children.

  Besides the usual measures there is the depth-first visit that keeps one tree of each key and
  lists children before their parents. `visit_root` says what it lists, provided that trees with
  equal keys are equally high: a tree then never shares its key with one of its descendants.
-/
import Mathlib.Data.Set.Card

inductive Rose (α : Type) where
  | node (label : α) (children : List (Rose α))
  deriving Repr

namespace Rose

variable {α β κ : Type}

def label : Rose α → α
  | node a _ => a

def children : Rose α → List (Rose α)
  | node _ cs => cs

@[simp] theorem label_node (a : α) (cs : List (Rose α)) : (node a cs).label = a := rfl

@[simp] theorem children_node (a : α) (cs : List (Rose α)) : (node a cs).children = cs := rfl

theorem ind {P : Rose α → Prop} (h : ∀ a cs, (∀ c ∈ cs, P c) → P (node a cs)) (t : Rose α) : P t :=
  @Rose.rec α P (fun cs => ∀ c ∈ cs, P c) h nofun
    (fun _ _ hc hcs d hd => (List.mem_cons.mp hd).elim (fun he => he ▸ hc) (hcs d)) t

/-! ## Measures -/

mutual

/-- The number of nodes. -/
def size : Rose α → Nat
  | node _ cs => sizes cs + 1

def sizes : List (Rose α) → Nat
  | [] => 0
  | c :: cs => size c + sizes cs

end

mutual

def height : Rose α → Nat
  | node _ cs => heights cs

/-- One more than the height of the highest. -/
def heights : List (Rose α) → Nat
  | [] => 0
  | c :: cs => max (height c + 1) (heights cs)

end

theorem height_lt_heights {cs : List (Rose α)} {c : Rose α} (h : c ∈ cs) :
    height c < heights cs := by
  induction cs with
  | nil => cases h
  | cons d cs ih =>
    rw [heights]
    rcases List.mem_cons.mp h with rfl | h
    · omega
    · have := ih h
      omega

/-! ## Subtrees -/

mutual

/-- A tree and the trees below it, in pre-order. -/
def subtrees : Rose α → List (Rose α)
  | node a cs => node a cs :: subtreesAll cs

def subtreesAll : List (Rose α) → List (Rose α)
  | [] => []
  | c :: cs => subtrees c ++ subtreesAll cs

end

variable {cs : List (Rose α)} {t u : Rose α}

theorem mem_subtreesAll :
    t ∈ subtreesAll cs ↔ ∃ c ∈ cs, t ∈ subtrees c := by
  induction cs with
  | nil => simp [subtreesAll]
  | cons c cs ih => simp [subtreesAll, ih]

theorem mem_subtrees_node {a : α} :
    t ∈ subtrees (node a cs) ↔ t = node a cs ∨ ∃ c ∈ cs, t ∈ subtrees c := by
  rw [subtrees, List.mem_cons, mem_subtreesAll]

theorem self_mem_subtrees (t : Rose α) : t ∈ subtrees t := by
  cases t with
  | node a cs => exact mem_subtrees_node.mpr (.inl rfl)

theorem child_mem_subtrees {c : Rose α} (h : u ∈ subtrees t) (hc : c ∈ u.children) :
    c ∈ subtrees t := by
  induction t using ind with
  | h a cs ih =>
    rw [mem_subtrees_node] at h ⊢
    rcases h with rfl | ⟨d, hd, hu⟩
    · exact .inr ⟨c, hc, self_mem_subtrees c⟩
    · exact .inr ⟨d, hd, ih d hd hu⟩

theorem subtrees_trans {v : Rose α} (hu : u ∈ subtrees t) (hv : v ∈ subtrees u) :
    v ∈ subtrees t := by
  induction t using ind with
  | h a cs ih =>
    rcases mem_subtrees_node.mp hu with rfl | ⟨c, hc, hu⟩
    · exact hv
    · exact mem_subtrees_node.mpr (.inr ⟨c, hc, ih c hc hu⟩)

theorem height_le_of_mem_subtrees (h : u ∈ subtrees t) : u.height ≤ t.height := by
  induction t using ind with
  | h a cs ih =>
    rcases mem_subtrees_node.mp h with rfl | ⟨c, hc, hu⟩
    · exact Nat.le_refl _
    · exact Nat.le_of_lt (Nat.lt_of_le_of_lt (ih c hc hu) (height_lt_heights hc))

/-! ## Relabelling -/

mutual

def map (f : α → β) : Rose α → Rose β
  | node a cs => node (f a) (mapAll f cs)

def mapAll (f : α → β) : List (Rose α) → List (Rose β)
  | [] => []
  | c :: cs => map f c :: mapAll f cs

end

theorem mapAll_eq (f : α → β) (cs : List (Rose α)) : mapAll f cs = cs.map (map f) := by
  induction cs with
  | nil => rfl
  | cons c cs ih => rw [mapAll, ih, List.map_cons]

theorem map_node (f : α → β) (a : α) (cs : List (Rose α)) :
    map f (node a cs) = node (f a) (cs.map (map f)) := by
  rw [map, mapAll_eq]

theorem heights_map {f : α → β} {cs : List (Rose α)}
    (h : ∀ c ∈ cs, height (map f c) = height c) : heights (cs.map (map f)) = heights cs := by
  induction cs with
  | nil => rfl
  | cons c cs ih =>
    rw [List.map_cons, heights, heights, h c List.mem_cons_self,
      ih fun d hd => h d (List.mem_cons_of_mem _ hd)]

theorem height_map (f : α → β) (t : Rose α) : height (map f t) = height t := by
  induction t using ind with
  | h a cs ih =>
    rw [map_node]
    exact heights_map ih

/-! ## Descending -/

/-- The subtree found by taking these children in turn. -/
def descend : Rose α → List Nat → Option (Rose α)
  | t, [] => some t
  | t, k :: ks => t.children[k]?.bind fun c => descend c ks

mutual

/-- All ways to descend. -/
def positions : Rose α → List (List Nat)
  | node _ cs => [] :: positionsFrom 0 cs

/-- The ways down through children numbered from `k` on. -/
def positionsFrom : Nat → List (Rose α) → List (List Nat)
  | _, [] => []
  | k, c :: cs => (positions c).map (k :: ·) ++ positionsFrom (k + 1) cs

end

variable {cs : List (Rose α)}

theorem length_positionsFrom (k : Nat) (h : ∀ c ∈ cs, (positions c).length = size c) :
    (positionsFrom k cs).length = sizes cs := by
  induction cs generalizing k with
  | nil => rfl
  | cons c cs ih =>
    rw [positionsFrom, List.length_append, List.length_map, sizes, h c List.mem_cons_self,
      ih (k + 1) fun d hd => h d (List.mem_cons_of_mem _ hd)]

theorem length_positions (t : Rose α) : (positions t).length = size t := by
  induction t using ind with
  | h a cs ih => rw [positions, size, List.length_cons, length_positionsFrom 0 ih]

theorem mem_positionsFrom {k : Nat} {ks : List Nat} :
    ks ∈ positionsFrom k cs ↔
      ∃ j rest c, ks = (k + j) :: rest ∧ cs[j]? = some c ∧ rest ∈ positions c := by
  induction cs generalizing k with
  | nil => simp [positionsFrom]
  | cons c cs ih =>
    rw [positionsFrom, List.mem_append, List.mem_map, ih]
    constructor
    · rintro (⟨rest, hrest, rfl⟩ | ⟨j, rest, d, rfl, hd, hrest⟩)
      · exact ⟨0, rest, c, rfl, rfl, hrest⟩
      · exact ⟨j + 1, rest, d, by rw [Nat.add_assoc, Nat.add_comm 1 j], hd, hrest⟩
    · rintro ⟨j, rest, d, rfl, hd, hrest⟩
      cases j with
      | zero =>
        rw [List.getElem?_cons_zero, Option.some.injEq] at hd
        exact .inl ⟨rest, hd ▸ hrest, rfl⟩
      | succ j => exact .inr ⟨j, rest, d, by rw [Nat.add_assoc, Nat.add_comm 1 j], hd, hrest⟩

theorem mem_positions {t : Rose α} {ks : List Nat} :
    ks ∈ positions t ↔ (t.descend ks).isSome := by
  induction ks generalizing t with
  | nil =>
    cases t
    simp [positions, descend]
  | cons k ks ih =>
    cases t with
    | node a cs =>
      rw [positions, List.mem_cons, mem_positionsFrom, descend, children_node]
      cases hk : cs[k]? with
      | none => simp [hk]
      | some c => simp [hk, ih]

theorem nodup_positionsFrom (k : Nat) (h : ∀ c ∈ cs, (positions c).Nodup) :
    (positionsFrom k cs).Nodup := by
  induction cs generalizing k with
  | nil => exact List.nodup_nil
  | cons c cs ih =>
    rw [positionsFrom, List.nodup_append]
    refine ⟨(h c List.mem_cons_self).map (List.cons_injective), ih (k + 1) fun d hd =>
      h d (List.mem_cons_of_mem _ hd), ?_⟩
    rintro ks hks ls hls rfl
    obtain ⟨rest, _, rfl⟩ := List.mem_map.mp hks
    obtain ⟨j, rest', d, heq, _⟩ := mem_positionsFrom.mp hls
    have := (List.cons.inj heq).1
    omega

theorem nodup_positions (t : Rose α) : (positions t).Nodup := by
  induction t using ind with
  | h a cs ih =>
    rw [positions, List.nodup_cons]
    refine ⟨?_, nodup_positionsFrom 0 ih⟩
    intro hmem
    obtain ⟨j, rest, c, heq, _⟩ := mem_positionsFrom.mp hmem
    cases heq

/-- A tree has one node for each way to descend. -/
theorem ncard_descend (t : Rose α) : {ks | (t.descend ks).isSome}.ncard = t.size := by
  have hset : {ks | (t.descend ks).isSome} = ((positions t).toFinset : Set (List Nat)) := by
    ext ks
    rw [List.coe_toFinset, Set.mem_ofPred_eq, Set.mem_ofPred_eq, mem_positions]
  rw [hset, Set.ncard_coe_finset, List.toFinset_card_of_nodup (nodup_positions t),
    length_positions]

/-! ## Listing one tree of each key -/

section Visit

variable (key : Rose α → κ)

/-- Each key once, and of every tree the children's keys before it. -/
structure ChildrenFirst (order : List (Rose α)) : Prop where
  nodup : (order.map key).Nodup
  before : ∀ early t late, order = early ++ t :: late → ∀ c ∈ t.children, key c ∈ early.map key

theorem childrenFirst_nil : ChildrenFirst key ([] : List (Rose α)) := by
  refine ⟨List.nodup_nil, ?_⟩
  intro early t late h
  simp at h

variable {key}

variable {t : Rose α} {U : Rose α → Prop} {s r : List (Rose α) × List κ} {height : Nat}

theorem ChildrenFirst.concat {order : List (Rose α)} (h : ChildrenFirst key order)
    (hnew : key t ∉ order.map key) (hchildren : ∀ c ∈ t.children, key c ∈ order.map key) :
    ChildrenFirst key (order ++ [t]) := by
  constructor
  · rw [List.map_append, List.nodup_append]
    refine ⟨h.nodup, List.nodup_singleton _, ?_⟩
    intro k hk k' hk'
    rw [List.map_singleton, List.mem_singleton] at hk'
    rintro rfl
    exact hnew (hk' ▸ hk)
  · intro early u late heq c hc
    rcases List.eq_nil_or_concat late with rfl | ⟨late, last, rfl⟩
    · obtain ⟨rfl, hu⟩ := List.append_inj' heq rfl
      rw [List.cons.injEq] at hu
      exact hchildren c (hu.1 ▸ hc)
    · have hsplit : order ++ [t] = (early ++ u :: late) ++ [last] := by
        rw [heq, List.concat_eq_append]
        simp
      exact h.before early u late (List.append_inj' hsplit rfl).1 c hc

/-- What a visit adds to a list: trees of `U` with new keys, every key marked. -/
structure Extends (U : Rose α → Prop) (key : Rose α → κ) (s r : List (Rose α) × List κ) : Prop where
  ordered : ChildrenFirst key r.1
  within : ∀ t ∈ r.1, U t
  kept : ∀ k ∈ s.1.map key, k ∈ r.1.map key
  fresh : ∀ k ∈ r.1.map key, k ∈ s.1.map key ∨ k ∉ s.2
  marked : ∀ k, k ∈ r.2 ↔ k ∈ s.2 ∨ k ∈ r.1.map key

theorem Extends.trans {q : List (Rose α) × List κ} (h : Extends U key s r)
    (h' : Extends U key r q) : Extends U key s q := by
  refine ⟨h'.ordered, h'.within, fun k hk => h'.kept k (h.kept k hk), ?_, ?_⟩
  · intro k hk
    rcases h'.fresh k hk with hr | hr
    · exact h.fresh k hr
    · exact .inr fun hs => hr ((h.marked k).mpr (.inl hs))
  · intro k
    rw [h'.marked, h.marked, or_assoc]
    refine or_congr_right ⟨?_, .inr⟩
    rintro (hr | hq)
    · exact h'.kept k hr
    · exact hq

/-- The marked keys belong to listed trees or to trees still being visited, all of them at least
    `height` high. -/
structure Visiting (U : Rose α → Prop) (key : Rose α → κ) (height : Nat)
    (s : List (Rose α) × List κ) : Prop where
  ordered : ChildrenFirst key s.1
  within : ∀ t ∈ s.1, U t
  listed : ∀ k ∈ s.1.map key, k ∈ s.2
  open_high : ∀ k ∈ s.2, k ∈ s.1.map key ∨ ∃ t, U t ∧ key t = k ∧ height ≤ t.height

theorem Extends.visiting (h : Extends U key s r) (hs : Visiting U key height s) :
    Visiting U key height r := by
  refine ⟨h.ordered, h.within, fun k hk => (h.marked k).mpr (.inr hk), ?_⟩
  intro k hk
  rcases (h.marked k).mp hk with hs' | hr
  · exact (hs.open_high k hs').imp_left (h.kept k)
  · exact .inl hr

theorem Visiting.extends_self (hs : Visiting U key height s) : Extends U key s s := by
  refine ⟨hs.ordered, hs.within, fun _ h => h, fun _ h => .inl h, ?_⟩
  intro k
  exact ⟨.inl, fun h => h.elim id (hs.listed k)⟩

variable {U : Rose α → Prop} {height : Nat} {s : List (Rose α) × List κ}

/-- Marking a tree before its children are visited. -/
theorem Visiting.mark (hs : Visiting U key height s) (ht : U t) (hheight : t.height < height) :
    Visiting U key t.height (s.1, key t :: s.2) := by
  refine ⟨hs.ordered, hs.within, fun k hk => List.mem_cons_of_mem _ (hs.listed k hk), ?_⟩
  intro k hk
  rcases List.mem_cons.mp hk with rfl | hk
  · exact .inr ⟨t, ht, rfl, Nat.le_refl _⟩
  · refine (hs.open_high k hk).imp_right ?_
    rintro ⟨u, hu, rfl, hle⟩
    exact ⟨u, hu, rfl, by omega⟩

/-- Listing a tree after its children. -/
theorem Extends.concat (hs : Visiting U key height s) (hnew : key t ∉ s.2) (ht : U t)
    (h : Extends U key (s.1, key t :: s.2) r) (hchildren : ∀ c ∈ t.children, key c ∈ r.1.map key) :
    Extends U key s (r.1 ++ [t], r.2) := by
  have hunlisted : key t ∉ r.1.map key := by
    intro hmem
    rcases h.fresh _ hmem with hs' | hs'
    · exact hnew (hs.listed _ hs')
    · exact hs' List.mem_cons_self
  refine ⟨h.ordered.concat hunlisted hchildren, ?_, ?_, ?_, ?_⟩
  · intro u hu
    rcases List.mem_append.mp hu with hu | hu
    · exact h.within u hu
    · rw [List.mem_singleton.mp hu]
      exact ht
  · intro k hk
    rw [List.map_append]
    exact List.mem_append_left _ (h.kept k hk)
  · intro k hk
    rw [List.map_append, List.mem_append, List.map_singleton, List.mem_singleton] at hk
    rcases hk with hk | rfl
    · exact (h.fresh k hk).imp_right fun hout hin => hout (List.mem_cons_of_mem _ hin)
    · exact .inr hnew
  · intro k
    rw [h.marked, List.map_append, List.mem_append, List.map_singleton, List.mem_singleton,
      List.mem_cons]
    grind

variable [DecidableEq κ]

mutual

/-- Post-order, passing over every tree whose key was met before. The key is marked before the
    children are visited. -/
def visit (key : Rose α → κ) : Rose α → List (Rose α) × List κ → List (Rose α) × List κ
  | node a cs, s =>
    if key (node a cs) ∈ s.2 then s
    else
      let r := visitAll key cs (s.1, key (node a cs) :: s.2)
      (r.1 ++ [node a cs], r.2)

def visitAll (key : Rose α → κ) : List (Rose α) → List (Rose α) × List κ → List (Rose α) × List κ
  | [], s => s
  | c :: cs, s => visitAll key cs (visit key c s)

end

/-- Trees visited one after the other. -/
theorem visitAll_extends (hs : Visiting U key height s)
    (hvisit : ∀ c ∈ cs, ∀ s, Visiting U key height s →
      Extends U key s (visit key c s) ∧ key c ∈ (visit key c s).1.map key) :
    Extends U key s (visitAll key cs s) ∧ ∀ c ∈ cs, key c ∈ (visitAll key cs s).1.map key := by
  induction cs generalizing s with
  | nil => exact ⟨hs.extends_self, nofun⟩
  | cons c cs ih =>
    obtain ⟨hfirst, hc⟩ := hvisit c List.mem_cons_self s hs
    obtain ⟨hrest, hcs⟩ := ih (hfirst.visiting hs) fun d hd => hvisit d (List.mem_cons_of_mem _ hd)
    exact ⟨hfirst.trans hrest, List.forall_mem_cons.mpr ⟨hrest.kept _ hc, hcs⟩⟩

theorem visit_extends (hclosed : ∀ t, U t → ∀ c ∈ t.children, U c)
    (hkey : ∀ t u, U t → U u → key t = key u → t.height = u.height) (ht : U t)
    (hheight : t.height < height) (hs : Visiting U key height s) :
    Extends U key s (visit key t s) ∧ key t ∈ (visit key t s).1.map key := by
  induction t using ind generalizing height s with
  | h a cs ih =>
    rw [visit]
    by_cases hseen : key (node a cs) ∈ s.2
    · -- a marked tree is listed: those still being visited are higher
      rw [if_pos hseen]
      refine ⟨hs.extends_self, (hs.open_high _ hseen).resolve_right ?_⟩
      rintro ⟨u, hu, heq, hle⟩
      have := hkey u _ hu ht heq
      omega
    · rw [if_neg hseen]
      obtain ⟨hall, hchildren⟩ := visitAll_extends (hs.mark ht hheight) fun c hc s hs =>
        ih c hc (hclosed _ ht c hc) (height_lt_heights hc) hs
      refine ⟨hall.concat hs hseen ht hchildren, ?_⟩
      simp

/-- The visit of a whole tree lists it last. -/
theorem visit_root (root : Rose α)
    (hkey : ∀ t ∈ root.subtrees, ∀ u ∈ root.subtrees, key t = key u → t.height = u.height) :
    ∃ early, (visit key root ([], [])).1 = early ++ [root] ∧
      ChildrenFirst key (early ++ [root]) ∧ ∀ t ∈ early ++ [root], t ∈ root.subtrees := by
  have hs : Visiting (· ∈ root.subtrees) key (root.height + 1) ([], []) :=
    ⟨childrenFirst_nil key, nofun,
      nofun, nofun⟩
  obtain ⟨hextends, _⟩ := visit_extends (fun t ht c hc => child_mem_subtrees ht hc)
    (fun t u ht hu => hkey t ht u hu) (self_mem_subtrees root) (Nat.lt_succ_self _) hs
  have hlast : ∃ early, (visit key root ([], [])).1 = early ++ [root] := by
    cases root with
    | node a cs =>
      exact ⟨_, rfl⟩
  obtain ⟨early, hearly⟩ := hlast
  have hordered := hextends.ordered
  have hwithin := hextends.within
  rw [hearly] at hordered hwithin
  exact ⟨early, hearly, hordered, hwithin⟩

end Visit

end Rose
