/-
  How a Tolk struct is read off a cell.

  A layout lists the fields of a struct with their types, in the order of the declaration.
  `fromCell` reads them one after another, goes into the cells of `Cell<T>` fields, and accepts
  only a cell that is used up, as the contracts' `fromCell` does. A `map` field is read up to its
  root: one bit, and a reference if the map is not empty.

  `Reads` says that some bits and references are read as a given value, whatever follows them;
  a struct is then put together field by field.
-/
import Duckton.Ton.Cell

namespace Duckton.Ton

/-- The types of the fields. -/
inductive FieldType where
  | uint (bits : Nat)
  | coins
  | address
  | bool
  | map
  | cell
  | cellOf (fields : List (String × FieldType))

abbrev Layout := List (String × FieldType)

/-- What is read for a field. -/
inductive FieldValue where
  | nat (n : Nat)
  | address (a : Address)
  | bool (b : Bool)
  | map (root : Option Cell)
  | cell (c : Cell)
  | record (fields : List (String × FieldValue))

mutual

def FieldType.load : FieldType → Slice → Option (FieldValue × Slice)
  | .uint bits, s => (s.loadUint bits).map fun r => (.nat r.1, r.2)
  | .coins, s => s.loadCoins.map fun r => (.nat r.1, r.2)
  | .address, s => s.loadAddress.map fun r => (.address r.1, r.2)
  | .bool, s => (s.loadBits 1).map fun r => (.bool (r.1 == [true]), r.2)
  | .map, s => s.loadDict.map fun r => (.map r.1, r.2)
  | .cell, s => s.loadRef.map fun r => (.cell r.1, r.2)
  | .cellOf fields, s =>
    match s.loadRef with
    | none => none
    | some (c, s) =>
      match loadFields fields c.toSlice with
      | some (values, ⟨[], []⟩) => some (.record values, s)
      | _ => none

def loadFields : Layout → Slice → Option (List (String × FieldValue) × Slice)
  | [], s => some ([], s)
  | (name, type) :: fields, s =>
    match type.load s with
    | none => none
    | some (value, s) =>
      match loadFields fields s with
      | none => none
      | some (values, s) => some ((name, value) :: values, s)

end

theorem loadFields_cons (name : String) (type : FieldType) (fields : Layout) (s : Slice) :
    loadFields ((name, type) :: fields) s =
      match type.load s with
      | none => none
      | some (value, s) =>
        match loadFields fields s with
        | none => none
        | some (values, s) => some ((name, value) :: values, s) := rfl

/-- `fromCell`: the whole cell is read. -/
def Layout.fromCell (fields : Layout) (c : Cell) : Option (List (String × FieldValue)) :=
  match loadFields fields c.toSlice with
  | some (values, ⟨[], []⟩) => some values
  | _ => none

/-! ## Fields -/

/-- The bits and references are read as `value`, and what follows is left. -/
def FieldType.Reads (type : FieldType) (value : FieldValue) (bits : List Bool)
    (refs : List Cell) : Prop :=
  ∀ rest restRefs, type.load ⟨bits ++ rest, refs ++ restRefs⟩ = some (value, ⟨rest, restRefs⟩)

namespace FieldType

theorem load_uint (bits : Nat) (s : Slice) :
    (uint bits).load s = (s.loadUint bits).map fun r => (.nat r.1, r.2) := rfl

theorem load_coins (s : Slice) : coins.load s = s.loadCoins.map fun r => (.nat r.1, r.2) := rfl

theorem load_address (s : Slice) :
    address.load s = s.loadAddress.map fun r => (.address r.1, r.2) := rfl

theorem reads_uint {bits n : Nat} (h : n < 2 ^ bits) :
    (uint bits).Reads (.nat n) (Bits.ofNat bits n) [] := by
  intro rest restRefs
  rw [load_uint, List.nil_append, Slice.loadUint_append h]
  rfl

theorem reads_coins {n : Nat} (h : n < 2 ^ 120) : coins.Reads (.nat n) (coinsBits n) [] := by
  intro rest restRefs
  rw [load_coins, List.nil_append, Slice.loadCoins_append h]
  rfl

theorem reads_address (a : Address) : address.Reads (.address a) a.toBits [] := by
  intro rest restRefs
  rw [load_address, List.nil_append, Slice.loadAddress_append]
  rfl

theorem reads_bool (b : Bool) : bool.Reads (.bool b) [b] [] := by
  intro rest restRefs
  have hbit := Slice.loadBits_append [b] rest restRefs
  rw [List.length_singleton] at hbit
  cases b <;> rfl

theorem reads_emptyMap : map.Reads (.map none) [false] [] := by
  intro rest restRefs
  have hbit := Slice.loadBits_append [false] rest restRefs
  rw [List.length_singleton] at hbit
  rfl

theorem reads_cell (c : Cell) : cell.Reads (.cell c) [] [c] :=
  fun _ _ => rfl

/-- A `Cell<T>` field is read by `fromCell` of its struct. -/
theorem load_cellOf (fields : Layout) (c : Cell) (bits : List Bool) (refs : List Cell) :
    (cellOf fields).load ⟨bits, c :: refs⟩ =
      (fields.fromCell c).map fun values => (.record values, ⟨bits, refs⟩) := by
  show (match loadFields fields c.toSlice with
    | some (values, ⟨[], []⟩) => some (FieldValue.record values, (⟨bits, refs⟩ : Slice))
    | _ => none) = _
  unfold Layout.fromCell
  obtain _ | ⟨values, left, leftRefs⟩ := loadFields fields c.toSlice
  · rfl
  · cases left <;> cases leftRefs <;> rfl

theorem reads_cellOf {fields : Layout} {values : List (String × FieldValue)} {c : Cell}
    (h : fields.fromCell c = some values) : (cellOf fields).Reads (.record values) [] [c] := by
  intro rest restRefs
  rw [List.nil_append, List.singleton_append, load_cellOf, h]
  rfl

end FieldType

/-! ## Structs -/

/-- The bits and references are read as `values`, and what follows is left. -/
def Layout.Reads (fields : Layout) (values : List (String × FieldValue)) (bits : List Bool)
    (refs : List Cell) : Prop :=
  ∀ rest restRefs,
    loadFields fields ⟨bits ++ rest, refs ++ restRefs⟩ = some (values, ⟨rest, restRefs⟩)

namespace Layout

theorem reads_nil : Reads [] [] [] [] := fun _ _ => rfl

variable {fields : Layout} {bits : List Bool} {refs : List Cell}

variable {values : List (String × FieldValue)}

variable {bits' : List Bool} {refs' : List Cell}

theorem Reads.cons {name : String} {type : FieldType} {value : FieldValue}
    (hfield : type.Reads value bits refs) (hfields : Reads fields values bits' refs') :
    Reads ((name, type) :: fields) ((name, value) :: values) (bits ++ bits') (refs ++ refs') := by
  intro rest restRefs
  rw [List.append_assoc, List.append_assoc, loadFields_cons, hfield]
  simp only [hfields rest restRefs]

theorem Reads.fromCell (h : Reads fields values bits refs) :
    fields.fromCell (.mk bits refs) = some values := by
  have hload := h [] []
  rw [List.append_nil, List.append_nil] at hload
  simp only [Layout.fromCell, Cell.toSlice, Cell.bits_mk, Cell.refs_mk, hload]

/-- Where the first fields are read, the others are read off what is left. -/
theorem loadFields_append {s s' : Slice} (h : loadFields fields s = some (values, s'))
    (more : Layout) :
    loadFields (fields ++ more) s = (loadFields more s').map fun r => (values ++ r.1, r.2) := by
  induction fields generalizing s values with
  | nil =>
    cases h
    rw [List.nil_append]
    cases loadFields more s' <;> rfl
  | cons field fields ih =>
    rw [List.cons_append, loadFields_cons]
    rw [loadFields_cons] at h
    split at h
    · cases h
    · split at h
      · cases h
      · rename_i hrest
        cases h
        simp only [*, ih hrest]
        cases loadFields more s' <;> rfl

/-- A struct is not read if its first fields are and the others are not. -/
theorem loadFields_append_eq_none {more : Layout} {s s' : Slice}
    (h : loadFields fields s = some (values, s')) (hmore : loadFields more s' = none) :
    loadFields (fields ++ more) s = none := by
  rw [loadFields_append h, hmore]
  rfl

theorem Reads.append {more : Layout} {values' : List (String × FieldValue)}
    (h : Reads fields values bits refs) (hmore : Reads more values' bits' refs') :
    Reads (fields ++ more) (values ++ values') (bits ++ bits') (refs ++ refs') := by
  intro rest restRefs
  rw [List.append_assoc, List.append_assoc, loadFields_append (h _ _), hmore]
  rfl

/-- A cell that ends too early. -/
theorem Reads.fromCell_append_eq_none (h : Reads fields values bits refs) (more : Layout)
    (hmore : loadFields more ⟨[], []⟩ = none) :
    Layout.fromCell (fields ++ more) (.mk bits refs) = none := by
  have hload := h [] []
  rw [List.append_nil, List.append_nil] at hload
  simp only [Layout.fromCell, Cell.toSlice, Cell.bits_mk, Cell.refs_mk,
    loadFields_append_eq_none hload hmore]

/-- A cell one of whose children does not parse. -/
theorem Reads.fromCell_child_eq_none {child : Layout} {c : Cell}
    (h : Reads fields values bits refs) (hchild : child.fromCell c = none) (name : String)
    (after : Layout) (rest : List Bool) (restRefs : List Cell) :
    Layout.fromCell (fields ++ (name, .cellOf child) :: after)
      (.mk (bits ++ rest) (refs ++ c :: restRefs)) = none := by
  have hmore : loadFields ((name, .cellOf child) :: after) ⟨rest, c :: restRefs⟩ = none := by
    rw [loadFields_cons, FieldType.load_cellOf, hchild]
    rfl
  simp only [Layout.fromCell, Cell.toSlice, Cell.bits_mk, Cell.refs_mk,
    loadFields_append_eq_none (h rest (c :: restRefs)) hmore]

end Layout

/-! ## The storage of the contracts -/

namespace Layout

/-- `EcoParams` of global_params_types.tolk. -/
def ecoParams : Layout :=
  [("platformFeeBps", .uint 16),
    ("surchargeBps", .uint 16),
    ("participationCommissionBps", .uint 16),
    ("slashWrongBps", .uint 16),
    ("slashCheatBps", .uint 16),
    ("slashDowntimeBps", .uint 16),
    ("slashEquivocationBps", .uint 16),
    ("splitChallengerBps", .uint 16),
    ("splitRedundancyBps", .uint 16),
    ("splitBurnBps", .uint 16),
    ("splitTreasuryBps", .uint 16),
    ("minStake", .coins),
    ("minStakeInternal", .coins),
    ("minStakeSensitive", .coins),
    ("stakeCap", .coins),
    ("unbondingSecs", .uint 32),
    ("challengeWindowSecs", .uint 32),
    ("nPublic", .uint 8),
    ("nDefault", .uint 8),
    ("nMax", .uint 8),
    ("quorum", .uint 8),
    ("checksumMin", .uint 8),
    ("wQualityBps", .uint 16),
    ("wStakeBps", .uint 16),
    ("wPriceBps", .uint 16),
    ("slashFailedCommitmentBps", .uint 16),
    ("attemptDeadlineMs", .uint 32),
    ("progressIntervalMs", .uint 32),
    ("progressStallMult", .uint 8)]

/-- `GlobalParamsStorage` of global_params_types.tolk. -/
def globalParamsStorage : Layout :=
  [("admin", .address),
    ("feeRecipient", .address),
    ("params", .cellOf ecoParams),
    ("blocklist", .map),
    ("paramsVersion", .uint 32),
    ("codeVersion", .uint 32),
    ("upgradeDelay", .uint 32),
    ("pendingCodeHash", .uint 256),
    ("pendingCodeAt", .uint 32)]

/-- `EscrowTerms` of escrow_types.tolk. -/
def escrowTerms : Layout :=
  [("treasury", .address),
    ("expectedHash", .uint 256),
    ("candidatesHash", .uint 256),
    ("paramsVersion", .uint 32),
    ("platformFeeBps", .uint 16),
    ("participationCommissionBps", .uint 16)]

/-- `EscrowStorage` of escrow_types.tolk. -/
def escrowStorage : Layout :=
  [("requester", .address),
    ("arbiter", .address),
    ("escrowAmount", .coins),
    ("deadline", .uint 32),
    ("settled", .bool),
    ("terms", .cellOf escrowTerms),
    ("pending", .map)]

/-- `SlashConfig` of stake_types.tolk. -/
def slashConfig : Layout :=
  [("treasury", .address),
    ("redundancyPool", .address),
    ("splitChallengerBps", .uint 16),
    ("splitRedundancyBps", .uint 16),
    ("splitBurnBps", .uint 16),
    ("splitTreasuryBps", .uint 16)]

/-- `VaultConfig` of stake_types.tolk. -/
def vaultConfig : Layout :=
  [("minStake", .coins),
    ("unbondingPeriod", .uint 32),
    ("challengeWindow", .uint 32),
    ("keeperGrace", .uint 32),
    ("keeperBountyBps", .uint 16),
    ("slasher", .address),
    ("upgradeAuthority", .address),
    ("receiptWalletCode", .cell),
    ("slash", .cellOf slashConfig)]

/-- `VaultUpgradeState` of stake_types.tolk. -/
def vaultUpgradeState : Layout :=
  [("codeVersion", .uint 32),
    ("pendingCodeHash", .uint 256),
    ("pendingCodeAt", .uint 32)]

/-- `VaultStorage` of stake_types.tolk. -/
def vaultStorage : Layout :=
  [("owner", .address),
    ("staked", .coins),
    ("unbondingAmount", .coins),
    ("unbondingAt", .uint 32),
    ("totalSupply", .coins),
    ("bindingHash", .uint 256),
    ("config", .cellOf vaultConfig),
    ("upgrade", .cellOf vaultUpgradeState),
    ("pending", .map)]

/-- `AnchorAuthorities` of anchor_types.tolk. -/
def anchorAuthorities : Layout :=
  [("treasury", .address),
    ("keeper", .address),
    ("upgradeAuthority", .address)]

/-- `AnchorConfig` of anchor_types.tolk. -/
def anchorConfig : Layout :=
  [("minStakeWeight", .coins),
    ("disputeBondMin", .coins),
    ("verdictAuthority", .address),
    ("auth", .cellOf anchorAuthorities)]

/-- `AnchorStorage` of anchor_types.tolk. -/
def anchorStorage : Layout :=
  [("currentEpoch", .uint 32),
    ("lastRoot", .uint 256),
    ("nextDisputeId", .uint 32),
    ("disputes", .map),
    ("roots", .map),
    ("config", .cellOf anchorConfig),
    ("codeVersion", .uint 32),
    ("pendingCodeHash", .uint 256),
    ("pendingCodeAt", .uint 32),
    ("upgradeDelay", .uint 32)]

end Layout

end Duckton.Ton
