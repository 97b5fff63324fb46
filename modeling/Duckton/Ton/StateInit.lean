/-
  Contract addresses (settlement/cell.rs): the hash of a StateInit cell that holds code and data.

  `from_state_init` hashes the cell. `from_code_hash_state_init` only has the code's hash and
  depth, and puts the hashed bytes together by hand. `address_from_code_hash` says that both give
  the same address.

  Depths are `u16` and the source is built with overflow checks: `none` is the panic that a tree of
  2^16 levels or more ends in.
-/
import Duckton.Ton.CellBuilder

namespace Duckton.Ton

open Duckton.Proto

variable (sha256 : Bytes → BitVec 256)

namespace PackedCell

/-! ## Depths and hashes, with the panic -/

mutual

/-- `depth`. -/
def depth : PackedCell → Option Nat
  | .node _ cs => do
    match (← depths cs).max? with
    | none => some 0
    | some m => if m + 1 < 2 ^ 16 then some (m + 1) else none

def depths : List PackedCell → Option (List Nat)
  | [] => some []
  | c :: cs => do return (← depth c) :: (← depths cs)

end

/-- `u16::to_be_bytes`. -/
def beBytes (depth : Nat) : Bytes :=
  Cell.packBits 2 (Bits.ofNat 16 depth)

mutual

/-- `repr_hash`, which asks each reference for its depth. -/
def checkedHash (sha256 : Bytes → BitVec 256) : PackedCell → Option (BitVec 256)
  | .node p cs => do
    let ds ← depths cs
    let hs ← checkedHashes sha256 cs
    return sha256 ([(descriptor (.node p cs)).1, (descriptor (.node p cs)).2] ++ p.augmentedData ++
      ds.flatMap beBytes ++ hs.flatMap Cell.hashBytes)

def checkedHashes (sha256 : Bytes → BitVec 256) : List PackedCell → Option (List (BitVec 256))
  | [] => some []
  | c :: cs => do return (← checkedHash sha256 c) :: (← checkedHashes sha256 cs)

end

theorem heights_eq (cs : List PackedCell) :
    Rose.heights cs = match (cs.map Rose.height).max? with
      | none => 0
      | some m => m + 1 := by
  induction cs with
  | nil => rfl
  | cons c cs ih =>
    rw [Rose.heights, ih, List.map_cons, List.max?_cons]
    cases (cs.map Rose.height).max? with
    | none => exact Nat.max_zero _
    | some m => exact Nat.succ_max_succ _ _

theorem depths_of_forall {cs : List PackedCell}
    (h : ∀ c ∈ cs, depth c = some c.height) : depths cs = some (cs.map Rose.height) := by
  induction cs with
  | nil => rfl
  | cons c cs ih =>
    rw [depths, h c List.mem_cons_self, ih fun d hd => h d (List.mem_cons_of_mem _ hd)]
    rfl

theorem depth_of_lt {c : PackedCell} (h : c.height < 2 ^ 16) : depth c = some c.height := by
  induction c using Rose.ind with
  | h p cs ih =>
    have hlt : Rose.heights cs < 2 ^ 16 := h
    have hdepths : depths cs = some (cs.map Rose.height) :=
      depths_of_forall fun c hc => ih c hc ((Rose.height_lt_heights hc).trans hlt)
    have hheight : Rose.height (.node p cs) = Rose.heights cs := rfl
    rw [depth, hdepths, hheight]
    rw [heights_eq] at hlt ⊢
    simp only [Option.bind_eq_bind, Option.bind_some]
    cases hmax : (cs.map Rose.height).max? with
    | none => rfl
    | some m =>
      rw [hmax] at hlt
      exact if_pos hlt

theorem checkedHashes_of_forall {sha256 : Bytes → BitVec 256} {cs : List PackedCell}
    (h : ∀ c ∈ cs, checkedHash sha256 c = some (reprHash sha256 c)) :
    checkedHashes sha256 cs = some (cs.map (reprHash sha256)) := by
  induction cs with
  | nil => rfl
  | cons c cs ih =>
    rw [checkedHashes, h c List.mem_cons_self, ih fun d hd => h d (List.mem_cons_of_mem _ hd)]
    rfl

theorem reprHashes_eq (cs : List PackedCell) :
    reprHashes sha256 cs = (cs.map (reprHash sha256)).flatMap Cell.hashBytes := by
  induction cs with
  | nil => rfl
  | cons c cs ih => rw [reprHashes, ih, List.map_cons, List.flatMap_cons]

/-- The root's own depth is not asked for. -/
theorem checkedHash_of_le {c : PackedCell} (h : c.height ≤ 2 ^ 16) :
    checkedHash sha256 c = some (reprHash sha256 c) := by
  induction c using Rose.ind with
  | h p cs ih =>
    have hbelow : ∀ c ∈ cs, c.height < 2 ^ 16 :=
      fun c hc => (Rose.height_lt_heights hc).trans_le h
    rw [checkedHash, depths_of_forall fun c hc => depth_of_lt (hbelow c hc),
      checkedHashes_of_forall fun c hc => ih c hc (hbelow c hc).le, reprHash, reprHashes_eq]
    simp only [Option.bind_eq_bind, Option.bind_some, List.flatMap_map]
    rfl

end PackedCell

/-! ## Addresses -/

open PackedCell

/-- `state_init_cell`: `b00110`, code and data. -/
def stateInitCell (code data : PackedCell) : PackedCell :=
  (((CellBuilder.new.storeUint 0b00110 5).storeRef code).storeRef data).build

namespace WalletAddress

def fromStateInit (workchain : BitVec 32) (code data : PackedCell) : Option WalletAddress := do
  return ⟨workchain, ← checkedHash sha256 (stateInitCell code data)⟩

def fromCodeHashStateInit (workchain : BitVec 32) (codeHash : BitVec 256) (codeDepth : Nat)
    (data : PackedCell) : Option WalletAddress := do
  let dataDepth ← depth data
  let dataHash ← checkedHash sha256 data
  return ⟨workchain, sha256 ([2, 1] ++ [0x34] ++ beBytes codeDepth ++ beBytes dataDepth ++
    Cell.hashBytes codeHash ++ Cell.hashBytes dataHash)⟩

end WalletAddress

theorem stateInitCell_eq (code data : PackedCell) :
    stateInitCell code data = .node ⟨[0x30], 5⟩ [code, data] :=
  rfl

/-- What is hashed of a StateInit. -/
theorem checkedHash_stateInitCell {code : PackedCell} {codeHash : BitVec 256} {codeDepth : Nat}
    (hhash : checkedHash sha256 code = some codeHash) (hdepth : depth code = some codeDepth) (data : PackedCell) :
    checkedHash sha256 (stateInitCell code data) = do
      let dataDepth ← depth data
      let dataHash ← checkedHash sha256 data
      return sha256 ([2, 1] ++ [0x34] ++ beBytes codeDepth ++ beBytes dataDepth ++
        Cell.hashBytes codeHash ++ Cell.hashBytes dataHash) := by
  rw [stateInitCell_eq, checkedHash, depths, depths, depths, checkedHashes, checkedHashes,
    checkedHashes, hhash, hdepth]
  cases depth data with
  | none => rfl
  | some dataDepth =>
    cases checkedHash sha256 data with
    | none => rfl
    | some dataHash =>
      show some (sha256 _) = some (sha256 _)
      have haug : Packed.augmentedData ⟨[0x30], 5⟩ = [0x34] := by decide
      have hdesc : descriptor (.node ⟨[0x30], 5⟩ [code, data]) = (2, 1) := by
        simp [descriptor]
      simp only [haug, hdesc, List.flatMap_cons, List.flatMap_nil, List.append_nil,
        List.append_assoc]

/-- Hash and depth of the code are all that the address takes of it. -/
theorem address_from_code_hash (sha256 : Bytes → BitVec 256) (workchain : BitVec 32)
    (code data : PackedCell) (hcode : code.height < 2 ^ 16) :
    ∃ codeHash codeDepth, checkedHash sha256 code = some codeHash ∧ depth code = some codeDepth ∧
      WalletAddress.fromCodeHashStateInit sha256 workchain codeHash codeDepth data =
        WalletAddress.fromStateInit sha256 workchain code data ∧
      (data.height < 2 ^ 16 → (WalletAddress.fromStateInit sha256 workchain code data).isSome) := by
  have hhash := checkedHash_of_le sha256 hcode.le
  have hdepth := depth_of_lt hcode
  have hinit := checkedHash_stateInitCell sha256 hhash hdepth data
  refine ⟨_, _, hhash, hdepth, ?_, ?_⟩
  · rw [WalletAddress.fromCodeHashStateInit, WalletAddress.fromStateInit, hinit]
    cases depth data with
    | none => rfl
    | some dataDepth =>
      cases checkedHash sha256 data with
      | none | some dataHash => rfl
  · intro hdata
    rw [WalletAddress.fromStateInit, hinit, depth_of_lt hdata, checkedHash_of_le sha256 hdata.le]
    rfl

/-- Code of two levels over data of one. -/
theorem small_contract_address :
    ∃ codeHash codeDepth,
      checkedHash foldDigest (.node ⟨[0xab], 8⟩ [.node ⟨[], 0⟩ []]) = some codeHash ∧
      depth (.node ⟨[0xab], 8⟩ [.node ⟨[], 0⟩ []]) = some codeDepth ∧
      WalletAddress.fromCodeHashStateInit foldDigest 0 codeHash codeDepth (.node ⟨[0x80], 1⟩ []) =
        WalletAddress.fromStateInit foldDigest 0 (.node ⟨[0xab], 8⟩ [.node ⟨[], 0⟩ []])
          (.node ⟨[0x80], 1⟩ []) ∧
      (Rose.height (.node (⟨[0x80], 1⟩ : Packed) []) < 2 ^ 16 →
        (WalletAddress.fromStateInit foldDigest 0 (.node ⟨[0xab], 8⟩ [.node ⟨[], 0⟩ []])
          (.node ⟨[0x80], 1⟩ [])).isSome) :=
  address_from_code_hash foldDigest 0 _ _ (by decide)

end Duckton.Ton
