/-
  Binary hash trees over a list, with an odd node at the end of a level carried up unchanged.

  The tree is built level by level. The path of an entry has one sibling for each level at which the
  node above it has two children, so paths may be shorter than the tree is high. Climbing the path
  of an entry gives the root, and a path has no more steps than there are levels above the leaves.

  The same construction over syntax trees in place of hashes gives the tree itself. Its hash is the
  root, and with a digest that does not collide on what was hashed the root determines the list, and
  no path, of whatever length, leads to the root from anything but an entry.
-/
import Mathlib.Algebra.Group.Nat.Defs
import Mathlib.Data.List.Basic
import Mathlib.Data.List.Induction

namespace Merkle

/-! ## Levels -/

section Levels

variable {H : Type} (node : H → H → H)

/-- The next level: neighbours in pairs, a last odd one as it is. -/
def parents : List H → List H
  | [] => []
  | [a] => [a]
  | a :: b :: rest => node a b :: parents rest

theorem length_parents (level : List H) : (parents node level).length = (level.length + 1) / 2 := by
  fun_induction parents node level with
  | case1 | case2 a => simp
  | case3 a b rest ih =>
    simp only [List.length_cons, ih]
    omega

/-- All levels, from the given one to the one with a single node. -/
def levels (level : List H) : List (List H) :=
  if _h : 1 < level.length then level :: levels (parents node level) else [level]
termination_by level.length
decreasing_by
  rw [length_parents]
  omega

variable {level : List H}

theorem levels_of_lt (h : 1 < level.length) :
    levels node level = level :: levels node (parents node level) := by
  rw [levels, dif_pos h]

theorem levels_of_le (h : level.length ≤ 1) : levels node level = [level] := by
  rw [levels, dif_neg (by omega)]

theorem levels_ne_nil (level : List H) : levels node level ≠ [] := by
  rw [levels]
  split <;> simp

/-- The single node of the last level. -/
def root (level : List H) : Option H :=
  (levels node level).getLast?.bind List.head?

theorem root_of_lt (h : 1 < level.length) :
    root node level = root node (parents node level) := by
  have hne := levels_ne_nil node (parents node level)
  unfold root
  rw [levels_of_lt node h, List.getLast?_cons_of_ne_nil hne]

theorem root_of_le (h : level.length ≤ 1) : root node level = level.head? := by
  rw [root, levels_of_le node h]
  rfl

/-- Halving: a level of at most `2 ^ k` nodes has at most `k` levels above it. -/
theorem length_levels_le (k : Nat) (level : List H) (h : level.length ≤ 2 ^ k) :
    (levels node level).length ≤ k + 1 := by
  induction k generalizing level with
  | zero => simp [levels_of_le node h]
  | succ k ih =>
    by_cases hlt : 1 < level.length
    · rw [levels_of_lt node hlt, List.length_cons]
      have hrest := ih (parents node level) (by rw [length_parents]; omega)
      omega
    · rw [levels_of_le node (by omega)]
      exact Nat.le_add_left 1 (k + 1)

end Levels

/-! ## Paths -/

section Paths

variable {H : Type}

/-- The sibling of node `i`, with whether it stands on the left; none for a last odd node. -/
def stepAt (level : List H) (i : Nat) : List (Bool × H) :=
  if i % 2 = 0 then (level[i + 1]?).toList.map fun sibling => (false, sibling)
  else (level[i - 1]?).toList.map fun sibling => (true, sibling)

/-- The siblings of the nodes above entry `i`, level by level. -/
def path : List (List H) → Nat → List (Bool × H)
  | [], _ => []
  | level :: rest, i => stepAt level i ++ path rest (i / 2)

theorem length_stepAt_le (level : List H) (i : Nat) : (stepAt level i).length ≤ 1 := by
  unfold stepAt
  split
  · cases level[i + 1]? <;> simp
  · cases level[i - 1]? <;> simp

theorem length_path_le (ls : List (List H)) (i : Nat) : (path ls i).length ≤ ls.length := by
  induction ls generalizing i with
  | nil => exact Nat.le_refl 0
  | cons level rest ih =>
    have hstep := length_stepAt_le level i
    have hrest := ih (i / 2)
    simp only [path, List.length_append, List.length_cons]
    omega

variable (node : H → H → H)

/-- Fold a path over a node. -/
def climb (acc : H) : List (Bool × H) → H
  | [] => acc
  | (isLeft, sibling) :: rest => climb (if isLeft then node sibling acc else node acc sibling) rest

theorem climb_append (acc : H) (p q : List (Bool × H)) :
    climb node acc (p ++ q) = climb node (climb node acc p) q := by
  induction p generalizing acc with
  | nil => rfl
  | cons s p ih => exact ih _

theorem stepAt_cons_cons (a b : H) (rest : List H) (i : Nat) :
    stepAt (a :: b :: rest) (i + 2) = stepAt rest i := by
  unfold stepAt
  by_cases heven : i % 2 = 0
  · simp [heven]
  · have hpred : i + 2 - 1 = i - 1 + 2 := by omega
    rw [if_neg (by omega), if_neg heven, hpred]
    simp

/-- A node and its sibling make its parent. -/
theorem climb_stepAt (level : List H) : ∀ {i : Nat} {x : H}, level[i]? = some x →
    (parents node level)[i / 2]? = some (climb node x (stepAt level i)) := by
  fun_induction parents node level with
  | case1 => simp
  | case2 a =>
    intro i x hx
    cases i with
    | zero =>
      cases hx
      simp [stepAt, climb]
    | succ i => simp at hx
  | case3 a b rest ih =>
    intro i x hx
    rcases i with _ | _ | i
    · cases hx
      simp [stepAt, climb]
    · cases hx
      simp [stepAt, climb]
    · have hrest := ih (i := i) (x := x) (by simpa using hx)
      have hhalf : (i + 2) / 2 = i / 2 + 1 := by omega
      rw [hhalf, stepAt_cons_cons]
      simpa using hrest

/-- The path of an entry leads to the root. -/
theorem root_eq_climb (level : List H) {i : Nat} {x : H} (hx : level[i]? = some x) :
    root node level = some (climb node x (path (levels node level).dropLast i)) := by
  induction level using levels.induct node generalizing i x with
  | case1 level hlt ih =>
    have hne := levels_ne_nil node (parents node level)
    rw [root_of_lt node hlt, levels_of_lt node hlt, List.dropLast_cons_of_ne_nil hne, path,
      climb_append]
    exact ih (climb_stepAt node level hx)
  | case2 level hlt =>
    have hle : level.length ≤ 1 := by omega
    rw [root_of_le node hle, levels_of_le node hle]
    obtain ⟨hi, rfl⟩ := List.getElem?_eq_some_iff.mp hx
    have hzero : i = 0 := by omega
    subst hzero
    rw [List.head?_eq_getElem?, hx]
    rfl

end Paths

/-! ## Maps between trees -/

section Maps

variable {H K : Type} {node : H → H → H} {node' : K → K → K} {f : H → K}

theorem parents_map (hf : ∀ a b, f (node a b) = node' (f a) (f b)) (level : List H) :
    (parents node level).map f = parents node' (level.map f) := by
  fun_induction parents node level with
  | case1 | case2 a => rfl
  | case3 a b rest ih => simp [parents, hf, ih]

/-- The root of the images is the image of the root. -/
theorem root_map (hf : ∀ a b, f (node a b) = node' (f a) (f b)) (level : List H) :
    root node' (level.map f) = (root node level).map f := by
  induction level using levels.induct node with
  | case1 level hlt ih =>
    rw [root_of_lt node hlt, root_of_lt node' (by rwa [List.length_map]), ← parents_map hf, ih]
  | case2 level hlt =>
    rw [root_of_le node (by omega), root_of_le node' (by rw [List.length_map]; omega),
      List.head?_map]

end Maps

/-! ## The tree behind a root -/

inductive Tree (α : Type) where
  | leaf (a : α)
  | node (left right : Tree α)

namespace Tree

variable {α : Type}

/-- The entries, from left to right. -/
def leaves : Tree α → List α
  | leaf a => [a]
  | node left right => left.leaves ++ right.leaves

theorem flatMap_parents (ts : List (Tree α)) :
    (parents node ts).flatMap leaves = ts.flatMap leaves := by
  fun_induction parents node ts with
  | case1 | case2 t => rfl
  | case3 s t rest ih => simp [leaves, ih]

theorem leaves_root (ts : List (Tree α)) {t : Tree α} (h : root node ts = some t) :
    t.leaves = ts.flatMap leaves := by
  induction ts using levels.induct node with
  | case1 ts hlt ih =>
    rw [root_of_lt node hlt] at h
    rw [ih h, flatMap_parents]
  | case2 ts hlt =>
    rw [root_of_le node (by omega)] at h
    cases ts with
    | nil => cases h
    | cons s rest =>
      cases h
      have hrest : rest = [] := by simpa using hlt
      simp [hrest]

/-- The tree over a list of entries. -/
def ofList (as : List α) : Option (Tree α) :=
  root node (as.map leaf)

theorem leaves_ofList {as : List α} {t : Tree α} (h : ofList as = some t) : t.leaves = as := by
  rw [leaves_root _ h]
  simp [List.flatMap_map, leaves]

end Tree

/-! ## Digests -/

section Digests

variable {α B H : Type} (leafInput : α → B) (nodeInput : H → H → B) (digest : B → H)

namespace Tree

def hash : Tree α → H
  | leaf a => digest (leafInput a)
  | node left right => digest (nodeInput left.hash right.hash)

/-- Everything that is hashed. -/
def inputs : Tree α → List B
  | leaf a => [leafInput a]
  | node left right =>
    nodeInput (left.hash leafInput nodeInput digest) (right.hash leafInput nodeInput digest) ::
      (left.inputs ++ right.inputs)

end Tree

/-- Nothing in the one list collides with anything in the other. -/
def Separates (xs ys : List B) : Prop :=
  ∀ x ∈ xs, ∀ y ∈ ys, digest x = digest y → x = y

theorem Separates.mono {digest : B → H} {xs xs' ys ys' : List B} (h : Separates digest xs ys)
    (hx : xs' ⊆ xs) (hy : ys' ⊆ ys) : Separates digest xs' ys' :=
  fun x hxs y hys => h x (hx hxs) y (hy hys)

/-- The digest separates what is in the list. -/
def NoCollision (xs : List B) : Prop :=
  ∀ x ∈ xs, ∀ y ∈ xs, digest x = digest y → x = y

theorem NoCollision.mono {digest : B → H} {xs ys : List B} (h : NoCollision digest xs)
    (hsub : ys ⊆ xs) : NoCollision digest ys :=
  fun x hx y hy => h x (hsub hx) y (hsub hy)

theorem root_eq_hash (as : List α) :
    root (fun l r => digest (nodeInput l r)) (as.map fun a => digest (leafInput a)) =
      (Tree.ofList as).map (Tree.hash leafInput nodeInput digest) := by
  have hmap : root (fun l r => digest (nodeInput l r))
      ((as.map Tree.leaf).map (Tree.hash leafInput nodeInput digest)) =
      (root Tree.node (as.map Tree.leaf)).map (Tree.hash leafInput nodeInput digest) :=
    root_map (fun _ _ => rfl) (as.map Tree.leaf)
  rwa [List.map_map] at hmap

variable {leafInput nodeInput digest}

/-- Inputs that tell leaves from nodes, and each of them its parts. -/
structure Separated (leafInput : α → B) (nodeInput : H → H → B) : Prop where
  leaf_inj : ∀ a b, leafInput a = leafInput b → a = b
  node_inj : ∀ l r l' r', nodeInput l r = nodeInput l' r' → l = l' ∧ r = r'
  apart : ∀ a l r, leafInput a ≠ nodeInput l r

theorem Tree.inputs_left (l r : Tree α) : l.inputs leafInput nodeInput digest ⊆
    (node l r).inputs leafInput nodeInput digest :=
  fun _ hx => List.mem_cons_of_mem _ (List.mem_append_left _ hx)

theorem Tree.inputs_right (l r : Tree α) : r.inputs leafInput nodeInput digest ⊆
    (node l r).inputs leafInput nodeInput digest :=
  fun _ hx => List.mem_cons_of_mem _ (List.mem_append_right _ hx)

/-- Trees with one hash are one tree, as far as the digest does not collide on them. -/
theorem Tree.eq_of_hash_eq (hsep : Separated leafInput nodeInput) {s t : Tree α}
    (hno : Separates digest (s.inputs leafInput nodeInput digest)
      (t.inputs leafInput nodeInput digest))
    (h : s.hash leafInput nodeInput digest = t.hash leafInput nodeInput digest) : s = t := by
  induction s generalizing t with
  | leaf a =>
    cases t with
    | leaf b =>
      have hin := hno (leafInput a) (by simp [inputs]) (leafInput b) (by simp [inputs]) h
      rw [hsep.leaf_inj a b hin]
    | node l r =>
      have hin := hno (leafInput a) (by simp [inputs]) _ List.mem_cons_self h
      exact absurd hin (hsep.apart a _ _)
  | node l r ihl ihr =>
    cases t with
    | leaf b =>
      have hin := hno _ List.mem_cons_self (leafInput b) (by simp [inputs]) h
      exact absurd hin.symm (hsep.apart b _ _)
    | node l' r' =>
      have hin := hno _ List.mem_cons_self _ List.mem_cons_self h
      obtain ⟨hl, hr⟩ := hsep.node_inj _ _ _ _ hin
      rw [ihl (hno.mono (inputs_left l r) (inputs_left l' r')) hl,
        ihr (hno.mono (inputs_right l r) (inputs_right l' r')) hr]

/-! ## Forged paths -/

variable (nodeInput digest)

/-- What is hashed at one step of a path. -/
def stepInput (acc : H) (step : Bool × H) : B :=
  if step.1 then nodeInput step.2 acc else nodeInput acc step.2

/-- Everything that is hashed while a path is folded. -/
def climbInputs (acc : H) : List (Bool × H) → List B
  | [] => []
  | step :: rest =>
    stepInput nodeInput acc step :: climbInputs (digest (stepInput nodeInput acc step)) rest

variable {nodeInput digest}

theorem digest_stepInput (acc : H) (step : Bool × H) :
    digest (stepInput nodeInput acc step) = climb (fun l r => digest (nodeInput l r)) acc [step] := by
  obtain ⟨isLeft, sibling⟩ := step
  cases isLeft <;> rfl

theorem climbInputs_append (acc : H) (p q : List (Bool × H)) :
    climbInputs nodeInput digest acc (p ++ q) = climbInputs nodeInput digest acc p ++
      climbInputs nodeInput digest (climb (fun l r => digest (nodeInput l r)) acc p) q := by
  induction p generalizing acc with
  | nil => rfl
  | cons step p ih =>
    simp only [List.cons_append, climbInputs, ih, digest_stepInput]
    rw [← climb_append, List.singleton_append]

/-- Whatever path leads from a leaf to the root of a tree, the leaf is one of the tree's, as far as
    the digest does not collide on what is hashed for the tree and along the path. The induction
    takes the path from its upper end, so that the last node hashed is compared with the root. -/
theorem Tree.mem_leaves_of_climb (hsep : Separated leafInput nodeInput) {a : α} {t : Tree α}
    (path : List (Bool × H))
    (hno : Separates digest (t.inputs leafInput nodeInput digest)
      (leafInput a :: climbInputs nodeInput digest (digest (leafInput a)) path))
    (hroot : climb (fun l r => digest (nodeInput l r)) (digest (leafInput a)) path =
      t.hash leafInput nodeInput digest) : a ∈ t.leaves := by
  induction path using List.reverseRecOn generalizing t with
  | nil =>
    cases t with
    | leaf b =>
      have hin := hno (leafInput b) (by simp [inputs]) (leafInput a) List.mem_cons_self hroot.symm
      rw [hsep.leaf_inj b a hin]
      exact List.mem_singleton_self a
    | node l r =>
      have hin := hno _ List.mem_cons_self (leafInput a) List.mem_cons_self hroot.symm
      exact absurd hin.symm (hsep.apart a _ _)
  | append_singleton path step ih =>
    rw [climb_append, ← digest_stepInput] at hroot
    rw [climbInputs_append, ← List.cons_append] at hno
    have hlast : stepInput nodeInput
        (climb (fun l r => digest (nodeInput l r)) (digest (leafInput a)) path) step ∈
        leafInput a :: climbInputs nodeInput digest (digest (leafInput a)) path ++
          climbInputs nodeInput digest
            (climb (fun l r => digest (nodeInput l r)) (digest (leafInput a)) path) [step] := by
      simp [climbInputs]
    cases t with
    | leaf b =>
      have hin := hno (leafInput b) (by simp [inputs]) _ hlast hroot.symm
      unfold stepInput at hin
      split at hin
      all_goals exact absurd hin (hsep.apart b _ _)
    | node l r =>
      have hin := hno _ List.mem_cons_self _ hlast hroot.symm
      unfold stepInput at hin
      split at hin
      · obtain ⟨_, hr⟩ := hsep.node_inj _ _ _ _ hin
        exact List.mem_append_right _ (ih (hno.mono (inputs_right l r) (by simp)) hr.symm)
      · obtain ⟨hl, _⟩ := hsep.node_inj _ _ _ _ hin
        exact List.mem_append_left _ (ih (hno.mono (inputs_left l r) (by simp)) hl.symm)

end Digests

end Merkle
