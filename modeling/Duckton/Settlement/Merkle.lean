/-
  The per-epoch Merkle tree of the settlement crate (settlement/merkle.rs) and its proofs on chain.

  The off-chain code hashes byte strings that it writes down as cell representations; the contract
  builds the cells and takes their representation hash. The first section shows that the two
  agree, the second that the chain of proof cells folds as the list of siblings does. With that a
  proof built off chain is accepted on chain, within the contract's depth limit.
-/
import Duckton.Lib.Merkle
import Duckton.Ton.RecordAnchor

namespace Duckton.Settlement

open Duckton.Proto Duckton.Ton

/-! ## merkle.rs -/

/-- `[u8; 32]`, by the number the bytes encode. -/
abbrev Hash32 := BitVec 256

def pairCellDescriptor : Bytes :=
  [0x00, 0x80]

def leafCellDescriptor : Bytes :=
  [0x00, 0x40]

/-- What `hash_leaf` and `hash_node` feed the digest. -/
def leafInput (value : Hash32) : Bytes :=
  leafCellDescriptor ++ Cell.hashBytes value

def nodeInput (left right : Hash32) : Bytes :=
  pairCellDescriptor ++ Cell.hashBytes left ++ Cell.hashBytes right

variable (sha256 : Bytes → BitVec 256)

def hashLeaf (value : Hash32) : Hash32 :=
  sha256 (leafInput value)

def hashNode (left right : Hash32) : Hash32 :=
  sha256 (nodeInput left right)

/-- All levels over the hashed leaves; none for an empty epoch. -/
def levels (values : List Hash32) : Option (List (List Hash32)) :=
  if values.isEmpty then none
  else some (Merkle.levels (hashNode sha256) (values.map (hashLeaf sha256)))

def tryMerkleRoot (values : List Hash32) : Option Hash32 := do
  let all ← levels sha256 values
  let last ← all.getLast?
  last.head?

structure InclusionProof where
  leaf : Hash32
  siblings : List (Bool × Hash32)
  deriving DecidableEq, Repr

def buildProof (values : List Hash32) (index : Nat) :
    Option InclusionProof := do
  let leaf ← values[index]?
  let all ← levels sha256 values
  return ⟨leaf, Merkle.path all.dropLast index⟩

def verifyInclusion (root : Hash32) (proof : InclusionProof) : Bool :=
  Merkle.climb (hashNode sha256) (hashLeaf sha256 proof.leaf) proof.siblings == root

/-- `build_merkle_proof_cell` (settlement/ton.rs): the first sibling is the outermost cell. -/
def buildMerkleProofCell (proof : InclusionProof) : Option Cell :=
  proof.siblings.foldr (fun step next =>
    some (((Cell.empty.storeUint (if step.1 then 1 else 0) 1).storeU256 step.2).storeMaybeRef next))
    none

/-! ## The two hashes agree -/

section Agreement

theorem bits_storeU256 (c : Cell) (x : BitVec 256) :
    c.storeU256 x = .mk (c.bits ++ Bits.ofNat 256 x.toNat) c.refs := rfl

/-- The representation of a cell with whole bytes and no references. -/
theorem reprHash_bytes {bits : List Bool} {n : Nat} (h : bits.length = n * 8) :
    (Cell.mk bits []).reprHash sha256 =
      sha256 (UInt8.ofNat 0 :: UInt8.ofNat (2 * n) :: Cell.packBits n bits) := by
  have hdiv : bits.length / 8 = n := by omega
  have hbytes : (bits.length + 7) / 8 = n := by omega
  have hmod : bits.length % 8 = 0 := by omega
  rw [Cell.reprHash]
  simp [Cell.descriptor, Cell.augmentedData, Cell.augmented, Cell.reprHashes, hdiv, hbytes, hmod]

theorem hashLeaf_eq (x : Hash32) : RecordAnchor.hashLeaf sha256 x = hashLeaf sha256 x := by
  unfold RecordAnchor.hashLeaf
  rw [bits_storeU256, Cell.empty, Cell.bits_mk, Cell.refs_mk, List.nil_append,
    reprHash_bytes sha256 (n := 32) (by rw [Bits.length_ofNat])]
  simp [hashLeaf, leafInput, leafCellDescriptor, Cell.hashBytes]

theorem hashPair_eq (l r : Hash32) : RecordAnchor.hashPair sha256 l r = hashNode sha256 l r := by
  unfold RecordAnchor.hashPair
  rw [bits_storeU256, bits_storeU256, Cell.empty, Cell.bits_mk, Cell.bits_mk, Cell.refs_mk,
    Cell.refs_mk, List.nil_append, reprHash_bytes sha256 (n := 64) (by simp)]
  rw [show 64 = 32 + 32 from rfl, Cell.packBits_append 32 _ (by rw [Bits.length_ofNat])]
  simp [hashNode, nodeInput, pairCellDescriptor, Cell.hashBytes]

end Agreement

/-! ## Proof cells -/

section ProofCells

/-- The cell of one step. -/
def stepCell (step : Bool × Hash32) (next : Option Cell) : Cell :=
  ((Cell.empty.storeUint (if step.1 then 1 else 0) 1).storeU256 step.2).storeMaybeRef next

theorem storeMaybeRef_eq (c : Cell) (next : Option Cell) :
    c.storeMaybeRef next = .mk (c.bits ++ [next.isSome]) (c.refs ++ next.toList) := by
  cases next <;>
    simp [Cell.storeMaybeRef, Cell.storeUint, Cell.storeBits, Cell.storeRef, Bits.ofNat]

theorem loadMaybeRef_append (next : Option Cell) (bits : List Bool) (refs : List Cell) :
    (⟨next.isSome :: bits, next.toList ++ refs⟩ : Slice).loadMaybeRef =
      some (next, ⟨bits, refs⟩) := by
  cases next <;> rfl

/-- A step is read back as it was stored. -/
theorem load_stepCell (step : Bool × Hash32) (next : Option Cell) :
    RecordAnchor.MerkleStep.load (stepCell step next) =
      some ⟨if step.1 then 1 else 0, step.2, next⟩ := by
  have hcell : (stepCell step next).toSlice =
      ⟨Bits.ofNat 1 (if step.1 then 1 else 0) ++ (Bits.ofNat 256 step.2.toNat ++ [next.isSome]),
        next.toList ++ []⟩ := by
    rw [stepCell, storeMaybeRef_eq, bits_storeU256]
    simp [Cell.toSlice, Cell.storeUint, Cell.storeBits, Cell.empty]
  have hdir : (if step.1 then 1 else 0) < 2 ^ 1 := by
    split <;> decide
  unfold RecordAnchor.MerkleStep.load
  rw [hcell]
  simp only [Slice.loadUint_append hdir, Slice.loadU256_append, loadMaybeRef_append,
    Option.bind_eq_bind, Option.bind_some]
  rfl

theorem foldProof_stepCell (steps : Nat) (acc : Hash32) (step : Bool × Hash32)
    (next : Option Cell) :
    RecordAnchor.foldProof sha256 (steps + 1) acc (some (stepCell step next)) =
      RecordAnchor.foldProof sha256 steps
        (if step.1 then hashNode sha256 step.2 acc else hashNode sha256 acc step.2) next := by
  have hbind : ∀ (a : RecordAnchor.MerkleStep) (f : RecordAnchor.MerkleStep → Except Exit Hash32),
      (parsed (some a) >>= f) = f a := fun _ _ => rfl
  rw [RecordAnchor.foldProof, load_stepCell, hbind]
  cases step.1 <;> simp [hashPair_eq]

/-- The contract's loop climbs the path, if it is not too long. -/
theorem foldProof_cells (siblings : List (Bool × Hash32)) : ∀ (steps : Nat) (acc : Hash32),
    siblings.length ≤ steps →
    RecordAnchor.foldProof sha256 steps acc
        (siblings.foldr (fun step next => some (stepCell step next)) none) =
      .ok (Merkle.climb (hashNode sha256) acc siblings) := by
  induction siblings with
  | nil =>
    intro steps acc _
    cases steps <;> rfl
  | cons step siblings ih =>
    intro steps acc hlen
    cases steps with
    | zero => simp at hlen
    | succ steps =>
      rw [List.foldr_cons, foldProof_stepCell, Merkle.climb]
      exact ih steps _ (by simpa using hlen)

/-- Whatever cells it is given, the loop climbs some path. -/
theorem exists_siblings {steps : Nat} {acc root : Hash32} {cur : Option Cell}
    (h : RecordAnchor.foldProof sha256 steps acc cur = .ok root) :
    ∃ siblings, Merkle.climb (hashNode sha256) acc siblings = root := by
  fun_induction RecordAnchor.foldProof sha256 steps acc cur with
  | case1 => exact ⟨[], Except.ok.inj h⟩
  | case2 => cases h
  | case3 steps acc cell ih =>
    obtain ⟨step, -, hrest⟩ := parsed_bind_eq_ok.mp h
    obtain ⟨siblings, rfl⟩ := ih step hrest
    refine ⟨(decide (step.dir ≠ 0), step.sibling) :: siblings, ?_⟩
    by_cases hdir : step.dir = 0 <;> simp [Merkle.climb, hdir, hashPair_eq]

theorem computeRootFromProof_cell {proof : InclusionProof}
    (hlen : proof.siblings.length ≤ RecordAnchor.maxMerkleProofDepth) :
    RecordAnchor.computeRootFromProof sha256 proof.leaf (buildMerkleProofCell proof) =
      .ok (Merkle.climb (hashNode sha256) (hashLeaf sha256 proof.leaf) proof.siblings) := by
  unfold RecordAnchor.computeRootFromProof
  rw [hashLeaf_eq]
  exact foldProof_cells sha256 proof.siblings _ _ hlen

end ProofCells

/-! ## Proofs and roots -/

section Proofs

variable {values : List Hash32} {index : Nat}

theorem tryMerkleRoot_eq (values : List Hash32) :
    tryMerkleRoot sha256 values =
      Merkle.root (hashNode sha256) (values.map (hashLeaf sha256)) := by
  cases values with
  | nil => simp [tryMerkleRoot, levels, Merkle.root_of_le]
  | cons v vs =>
    rfl

theorem buildProof_eq {leaf : Hash32}
    (h : values[index]? = some leaf) :
    buildProof sha256 values index = some ⟨leaf, Merkle.path
      (Merkle.levels (hashNode sha256) (values.map (hashLeaf sha256))).dropLast index⟩ := by
  have hne : values ≠ [] := by
    rintro rfl
    simp at h
  simp [buildProof, h, levels, hne]

/-- The siblings of an entry climb to the root of its list, and a list of at most `2 ^ 32` leaves has
    proofs of at most 32 siblings. -/
theorem buildProof_spec {proof : InclusionProof}
    (h : buildProof sha256 values index = some proof) :
    values[index]? = some proof.leaf ∧
      tryMerkleRoot sha256 values =
        some (Merkle.climb (hashNode sha256) (hashLeaf sha256 proof.leaf) proof.siblings) ∧
      (values.length ≤ 2 ^ 32 → proof.siblings.length ≤ RecordAnchor.maxMerkleProofDepth) := by
  cases hleaf : values[index]? with
  | none => simp [buildProof, hleaf] at h
  | some leaf =>
    rw [buildProof_eq sha256 hleaf] at h
    cases h
    refine ⟨rfl, ?_, fun hlen => ?_⟩
    · rw [tryMerkleRoot_eq]
      exact Merkle.root_eq_climb _ _ (by simp [hleaf])
    · have hpath := Merkle.length_path_le
        (Merkle.levels (hashNode sha256) (values.map (hashLeaf sha256))).dropLast index
      have hlevels := Merkle.length_levels_le (hashNode sha256) 32 (values.map (hashLeaf sha256))
        (by rwa [List.length_map])
      rw [List.length_dropLast] at hpath
      exact Nat.le_trans hpath (Nat.sub_le_of_le_add hlevels)

/-- Every proof built off chain verifies off chain, and its cells fold to the same root in the
    contract, within the depth limit. -/
theorem proof_accepted_onchain (values : List Hash32) (index : Nat) (leaf : Hash32)
    (hleaf : values[index]? = some leaf) (hlen : values.length ≤ 2 ^ 32) :
    ∃ root proof, tryMerkleRoot sha256 values = some root ∧
      buildProof sha256 values index = some proof ∧ proof.leaf = leaf ∧
      verifyInclusion sha256 root proof = true ∧
      RecordAnchor.computeRootFromProof sha256 proof.leaf (buildMerkleProofCell proof) =
        .ok root := by
  have hproof := buildProof_eq sha256 hleaf
  obtain ⟨-, hroot, hdepth⟩ := buildProof_spec sha256 hproof
  refine ⟨_, _, hroot, hproof, rfl, ?_, ?_⟩
  · simp [verifyInclusion]
  · exact computeRootFromProof_cell sha256 (hdepth hlen)

end Proofs

/-- The last of three leaves is carried up past the first pair: its proof has a single sibling. -/
theorem promoted_leaf_accepted :
    ∃ root proof, tryMerkleRoot foldDigest [1, 2, 3] = some root ∧
      buildProof foldDigest [1, 2, 3] 2 = some proof ∧ proof.leaf = 3 ∧
      verifyInclusion foldDigest root proof = true ∧
      RecordAnchor.computeRootFromProof foldDigest proof.leaf (buildMerkleProofCell proof) =
        .ok root :=
  proof_accepted_onchain foldDigest [1, 2, 3] 2 3 rfl (by norm_num)

/-! ## What a root determines -/

section Binding

/-- Everything that is hashed for the tree over the values. -/
def treeInputs (values : List Hash32) : List Bytes :=
  ((Merkle.Tree.ofList values).map (Merkle.Tree.inputs leafInput nodeInput sha256)).getD []

theorem separated_inputs : Merkle.Separated leafInput nodeInput := by
  refine ⟨?_, ?_, ?_⟩
  · intro a b h
    exact Cell.hashBytes_inj (List.append_cancel_left h)
  · intro l r l' r' h
    unfold nodeInput at h
    rw [List.append_assoc, List.append_assoc] at h
    obtain ⟨hl, hr⟩ := List.append_inj (List.append_cancel_left h) (by simp)
    exact ⟨Cell.hashBytes_inj hl, Cell.hashBytes_inj hr⟩
  · intro a l r h
    have hlen := congrArg List.length h
    simp [leafInput, nodeInput, leafCellDescriptor, pairCellDescriptor] at hlen

theorem tryMerkleRoot_eq_hash (values : List Hash32) : tryMerkleRoot sha256 values =
    (Merkle.Tree.ofList values).map (Merkle.Tree.hash leafInput nodeInput sha256) := by
  rw [tryMerkleRoot_eq]
  exact Merkle.root_eq_hash leafInput nodeInput sha256 values

/-- With a digest that does not collide on what was hashed, one root is the root of one list. -/
theorem values_eq_of_root {values values' : List Hash32} {root : Hash32}
    (hno : Merkle.NoCollision sha256 (treeInputs sha256 values ++ treeInputs sha256 values'))
    (h : tryMerkleRoot sha256 values = some root) (h' : tryMerkleRoot sha256 values' = some root) :
    values = values' := by
  rw [tryMerkleRoot_eq_hash] at h h'
  obtain ⟨t, ht, hroot⟩ := Option.map_eq_some_iff.mp h
  obtain ⟨t', ht', hroot'⟩ := Option.map_eq_some_iff.mp h'
  have htree : t = t' := by
    apply Merkle.Tree.eq_of_hash_eq separated_inputs ?_ (hroot.trans hroot'.symm)
    intro x hx y hy
    apply hno
    · exact List.mem_append_left _ (by simpa [treeInputs, ht] using hx)
    · exact List.mem_append_right _ (by simpa [treeInputs, ht'] using hy)
  rw [← Merkle.Tree.leaves_ofList ht, ← Merkle.Tree.leaves_ofList ht', htree]

/-- Everything that is hashed while a proof is checked. -/
def proofInputs (proof : InclusionProof) : List Bytes :=
  leafInput proof.leaf ::
    Merkle.climbInputs nodeInput sha256 (hashLeaf sha256 proof.leaf) proof.siblings

/-- Only a leaf of the list has a proof against its root, however the proof was made. -/
theorem leaf_mem_of_verifyInclusion {values : List Hash32} {root : Hash32} {proof : InclusionProof}
    (hno : Merkle.NoCollision sha256 (treeInputs sha256 values ++ proofInputs sha256 proof))
    (hroot : tryMerkleRoot sha256 values = some root)
    (hverify : verifyInclusion sha256 root proof = true) : proof.leaf ∈ values := by
  rw [tryMerkleRoot_eq_hash] at hroot
  obtain ⟨t, ht, hhash⟩ := Option.map_eq_some_iff.mp hroot
  rw [← Merkle.Tree.leaves_ofList ht]
  apply Merkle.Tree.mem_leaves_of_climb separated_inputs proof.siblings
  · intro x hx y hy
    apply hno
    · exact List.mem_append_left _ (by simpa [treeInputs, ht] using hx)
    · exact List.mem_append_right _ hy
  · rw [hhash]
    exact beq_iff_eq.mp hverify

theorem exists_tryMerkleRoot {values : List Hash32} (hne : values ≠ []) :
    ∃ root, tryMerkleRoot sha256 values = some root := by
  cases values with
  | nil => exact absurd rfl hne
  | cons v vs =>
    have hfirst : (v :: vs)[0]? = some v := rfl
    exact ⟨_, (buildProof_spec sha256 (buildProof_eq sha256 hfirst)).2.1⟩

/-- The root commits to its list: an accepted proof, of whatever length and origin, is about one of
    the leaves, and different lists have different roots. The digest is only asked to separate what
    is hashed for the two things compared. -/
theorem root_commits (values : List Hash32) :
    (values ≠ [] → ∃ root, tryMerkleRoot sha256 values = some root ∧
      ∀ proof, Merkle.NoCollision sha256 (treeInputs sha256 values ++ proofInputs sha256 proof) →
        verifyInclusion sha256 root proof = true → proof.leaf ∈ values) ∧
    ∀ values', Merkle.NoCollision sha256 (treeInputs sha256 values ++ treeInputs sha256 values') →
      tryMerkleRoot sha256 values = tryMerkleRoot sha256 values' → values = values' := by
  constructor
  · intro hne
    obtain ⟨root, hroot⟩ := exists_tryMerkleRoot sha256 hne
    exact ⟨root, hroot, fun proof hno hverify => leaf_mem_of_verifyInclusion sha256 hno hroot hverify⟩
  · intro values' hno hroots
    by_cases hne : values = []
    · by_cases hne' : values' = []
      · rw [hne, hne']
      · obtain ⟨root, hroot⟩ := exists_tryMerkleRoot sha256 hne'
        rw [← hroots, hne] at hroot
        cases hroot
    · obtain ⟨root, hroot⟩ := exists_tryMerkleRoot sha256 hne
      exact values_eq_of_root sha256 hno hroot (hroots ▸ hroot)

end Binding

theorem ofList_pair {α : Type} (a b : α) :
    Merkle.Tree.ofList [a, b] = some (.node (.leaf a) (.leaf b)) := by
  unfold Merkle.Tree.ofList
  rw [Merkle.root_of_lt _ (by simp), Merkle.root_of_le _ (by simp [Merkle.parents])]
  rfl

theorem ofList_singleton {α : Type} (a : α) : Merkle.Tree.ofList [a] = some (.leaf a) :=
  Merkle.root_of_le _ (by simp)

/-- The digest tells apart what is hashed for two leaves. -/
theorem pair_noCollision : Merkle.NoCollision foldDigest
    [nodeInput (hashLeaf foldDigest 1) (hashLeaf foldDigest 2), leafInput 1, leafInput 2] := by
  unfold Merkle.NoCollision
  decide +kernel

/-- The second of two leaves is proved, and the root of both is not that of the first alone. -/
theorem second_leaf_committed :
    (∃ root, tryMerkleRoot foldDigest [1, 2] = some root ∧
      verifyInclusion foldDigest root ⟨2, [(true, hashLeaf foldDigest 1)]⟩ = true ∧
      (2 : Hash32) ∈ [(1 : Hash32), 2]) ∧
    tryMerkleRoot foldDigest [1, 2] ≠ tryMerkleRoot foldDigest [1] := by
  obtain ⟨hincluded, hinjective⟩ := root_commits foldDigest [1, 2]
  have hpair : treeInputs foldDigest [1, 2] =
      [nodeInput (hashLeaf foldDigest 1) (hashLeaf foldDigest 2), leafInput 1, leafInput 2] := by
    simp [treeInputs, ofList_pair, Merkle.Tree.inputs, Merkle.Tree.hash, hashLeaf]
  have hsingle : treeInputs foldDigest [1] = [leafInput 1] := by
    simp [treeInputs, ofList_singleton, Merkle.Tree.inputs]
  constructor
  · obtain ⟨root, hroot, hsound⟩ := hincluded (by decide)
    have hverify : verifyInclusion foldDigest root ⟨2, [(true, hashLeaf foldDigest 1)]⟩ = true := by
      rw [tryMerkleRoot_eq_hash, ofList_pair, Option.map_some, Option.some.injEq] at hroot
      rw [← hroot]
      simp [verifyInclusion, Merkle.climb, Merkle.Tree.hash, hashLeaf, hashNode]
    refine ⟨root, hroot, hverify, hsound _ ?_ hverify⟩
    rw [hpair]
    exact pair_noCollision.mono (by simp [proofInputs, Merkle.climbInputs, Merkle.stepInput])
  · intro heq
    have hsame := hinjective [1] (by
      rw [hpair, hsingle]
      exact pair_noCollision.mono (by simp)) heq
    exact absurd (congrArg List.length hsame) (by decide)

end Duckton.Settlement
