/-
  The cells that the settlement crate builds for the contracts (settlement/ton.rs): the initial data
  of a stake vault and of a job escrow with their children, and the parameter cell of an update.

  Each builder writes the fields of one Tolk struct in order. `Cell.Holds` says what has been
  written so far: the cell reads as the fields up to here, in so many bits and references. Every
  store adds one field to it, so a whole builder is a chain of stores, and `cells_decode` reads
  every cell back as the struct it is meant for.
-/
import Duckton.Lib.Octets
import Duckton.Settlement.Policy
import Duckton.Ton.Layout

namespace Duckton.Ton

/-! ## Cells that hold a struct -/

namespace Cell

/-- The cell is no larger than a cell may be. -/
def Fits (c : Cell) : Prop :=
  c.bits.length ≤ 1023 ∧ c.refs.length ≤ 4

/-- The cell fits and reads as these fields, with nothing left over. -/
def Decodes (c : Cell) (fields : Layout) (values : List (String × FieldValue)) : Prop :=
  c.Fits ∧ fields.fromCell c = some values

/-- The cell reads as these fields, in at most `size` bits and in `count` references. -/
structure Holds (c : Cell) (fields : Layout) (values : List (String × FieldValue))
    (size count : Nat) : Prop where
  reads : fields.Reads values c.bits c.refs
  bits_le : c.bits.length ≤ size
  refs_eq : c.refs.length = count

variable {c : Cell} {fields : Layout} {values : List (String × FieldValue)} {size count : Nat}

theorem holds_empty : Cell.empty.Holds [] [] 0 0 :=
  ⟨Layout.reads_nil, le_rfl, rfl⟩

variable (name : String)

section

variable (h : c.Holds fields values size count)

include h

theorem Holds.decodes (hsize : size ≤ 1023) (hcount : count ≤ 4) : c.Decodes fields values := by
  refine ⟨⟨h.bits_le.trans hsize, h.refs_eq.trans_le hcount⟩, ?_⟩
  exact h.reads.fromCell

/-- What is written next is the next field. -/
theorem Holds.snoc {type : FieldType} {value : FieldValue} {bits : List Bool} {refs : List Cell}
    (hfield : type.Reads value bits refs) {width : Nat} (hwidth : bits.length ≤ width)
    (name : String) :
    (Cell.mk (c.bits ++ bits) (c.refs ++ refs)).Holds (fields ++ [(name, type)])
      (values ++ [(name, value)]) (size + width) (count + refs.length) := by
  refine ⟨?_, ?_, ?_⟩
  · have hone : Layout.Reads [(name, type)] [(name, value)] (bits ++ []) (refs ++ []) :=
      .cons hfield Layout.reads_nil
    rw [List.append_nil, List.append_nil] at hone
    exact Layout.Reads.append h.reads hone
  · rw [bits_mk, List.length_append]
    exact Nat.add_le_add h.bits_le hwidth
  · rw [refs_mk, List.length_append, h.refs_eq]

theorem Holds.uint (value nbits : Nat) (hvalue : value < 2 ^ nbits) :
    (c.storeUint value nbits).Holds (fields ++ [(name, .uint nbits)])
      (values ++ [(name, .nat value)]) (size + nbits) count := by
  have hnext := h.snoc (FieldType.reads_uint hvalue) (Bits.length_ofNat nbits value).le name
  rwa [List.append_nil] at hnext

theorem Holds.u256 (hash : BitVec 256) : (c.storeU256 hash).Holds (fields ++ [(name, .uint 256)])
      (values ++ [(name, .nat hash.toNat)]) (size + 256) count :=
  h.uint name hash.toNat 256 hash.isLt

end

theorem length_coinsBits_le {value : Nat} (hvalue : value < 2 ^ 120) :
    (coinsBits value).length ≤ 124 := by
  have hlen := coinsLen_lt hvalue
  rw [coinsBits, List.length_append, Bits.length_ofNat, Bits.length_ofNat]
  omega

section

variable (h : c.Holds fields values size count)

include h

theorem Holds.coins {value : Nat} (hvalue : value < 2 ^ 120) :
    (c.storeCoins value).Holds (fields ++ [(name, .coins)]) (values ++ [(name, .nat value)])
      (size + 124) count := by
  have hnext := h.snoc (FieldType.reads_coins hvalue) (length_coinsBits_le hvalue) name
  rw [storeCoins_eq]
  rwa [List.append_nil] at hnext

/-- No coins take the four bits of their length. -/
theorem Holds.noCoins :
    (c.storeCoins 0).Holds (fields ++ [(name, .coins)]) (values ++ [(name, .nat 0)])
      (size + 4) count := by
  have hbits : (coinsBits 0).length ≤ 4 := by decide
  have hnext := h.snoc (FieldType.reads_coins (n := 0) (by decide)) hbits name
  rw [storeCoins_eq]
  rwa [List.append_nil] at hnext

theorem Holds.address (w : WalletAddress) : (c.storeAddress w).Holds (fields ++ [(name, .address)])
      (values ++ [(name, .address w.onchain)]) (size + 267) count := by
  have hnext := h.snoc (FieldType.reads_address w.onchain) w.onchain.length_toBits.le name
  rw [storeAddress_eq]
  rwa [List.append_nil] at hnext

/-- `store_uint(0, 1)` where the struct has a boolean. -/
theorem Holds.off :
    (c.storeUint 0 1).Holds (fields ++ [(name, .bool)]) (values ++ [(name, .bool false)])
      (size + 1) count := by
  have hnext := h.snoc (FieldType.reads_bool false) le_rfl name
  rwa [List.append_nil] at hnext

theorem Holds.emptyMap :
    (c.storeDictRoot none).Holds (fields ++ [(name, .map)]) (values ++ [(name, .map none)])
      (size + 1) count := by
  have hnext := h.snoc FieldType.reads_emptyMap le_rfl name
  rwa [List.append_nil] at hnext

theorem Holds.ref (child : Cell) :
    (c.storeRef child).Holds (fields ++ [(name, .cell)]) (values ++ [(name, .cell child)])
      size (count + 1) := by
  have hnext := h.snoc (FieldType.reads_cell child) le_rfl name
  rwa [List.append_nil] at hnext

theorem Holds.child {child : Cell} {childFields : Layout}
    {childValues : List (String × FieldValue)} (hchild : child.Decodes childFields childValues) :
    (c.storeRef child).Holds (fields ++ [(name, .cellOf childFields)])
      (values ++ [(name, .record childValues)]) size (count + 1) := by
  have hnext := h.snoc (FieldType.reads_cellOf hchild.2) le_rfl name
  rwa [List.append_nil] at hnext

end

end Cell

/-- The workchain is one of those that eight bits hold. -/
def WalletAddress.Standard (w : WalletAddress) : Prop :=
  -128 ≤ w.workchain.toInt ∧ w.workchain.toInt < 128

/-- Of a standard address nothing is lost. -/
theorem WalletAddress.Standard.walletOfAddress {w : WalletAddress} (h : w.Standard) :
    Settlement.walletOfAddress w.onchain = w := by
  obtain ⟨hlow, hhigh⟩ := h
  have hworkchain : (w.workchain.setWidth 8).signExtend 32 = w.workchain := by
    refine BitVec.eq_of_toInt_eq ?_
    rw [BitVec.toInt_signExtend_of_le (by decide), BitVec.toInt_setWidth]
    have hint := BitVec.toInt_eq_toNat_bmod w.workchain
    rw [Int.bmod_def] at hint ⊢
    omega
  exact congrArg (WalletAddress.mk · w.hash) hworkchain

end Duckton.Ton

namespace Duckton.Settlement

open Duckton.Proto Duckton.Ton

/-! ## Builders -/

/-- What varies from vault to vault. -/
structure VaultInit where
  owner : WalletAddress
  bindingHash : BitVec 256
  deriving DecidableEq, Repr

/-- `freshVaultUpgrade()` -/
def freshUpgrade : Cell :=
  Cell.empty
    |>.storeUint 0 32 -- codeVersion
    |>.storeU256 0 -- pendingCodeHash
    |>.storeUint 0 32 -- pendingCodeAt

def buildVaultData (init : VaultInit) (config : Cell) : Cell :=
  Cell.empty
    |>.storeAddress init.owner
    |>.storeCoins 0 -- staked
    |>.storeCoins 0 -- unbondingAmount
    |>.storeUint 0 32 -- unbondingAt
    |>.storeCoins 0 -- totalSupply
    |>.storeU256 init.bindingHash
    |>.storeRef config
    |>.storeRef freshUpgrade
    |>.storeDictRoot none -- pending

structure SlashSplitConfig where
  treasury : WalletAddress
  redundancyPool : WalletAddress
  splitChallengerBps : UInt16
  splitRedundancyBps : UInt16
  splitBurnBps : UInt16
  splitTreasuryBps : UInt16
  deriving DecidableEq, Repr

structure VaultConfigParams where
  minStake : Nat
  unbondingPeriod : UInt32
  challengeWindow : UInt32
  keeperGrace : UInt32
  keeperBountyBps : UInt16
  slasher : WalletAddress
  upgradeAuthority : WalletAddress
  receiptWalletCode : Cell
  slash : SlashSplitConfig
  deriving Repr

def buildSlashConfig (s : SlashSplitConfig) : Cell :=
  Cell.empty
    |>.storeAddress s.treasury
    |>.storeAddress s.redundancyPool
    |>.storeUint s.splitChallengerBps.toNat 16
    |>.storeUint s.splitRedundancyBps.toNat 16
    |>.storeUint s.splitBurnBps.toNat 16
    |>.storeUint s.splitTreasuryBps.toNat 16

def buildVaultConfig (c : VaultConfigParams) : Cell :=
  Cell.empty
    |>.storeCoins c.minStake
    |>.storeUint c.unbondingPeriod.toNat 32
    |>.storeUint c.challengeWindow.toNat 32
    |>.storeUint c.keeperGrace.toNat 32
    |>.storeUint c.keeperBountyBps.toNat 16
    |>.storeAddress c.slasher
    |>.storeAddress c.upgradeAuthority
    |>.storeRef c.receiptWalletCode
    |>.storeRef (buildSlashConfig c.slash)

structure EscrowInit where
  requester : WalletAddress
  arbiter : WalletAddress
  escrowAmount : Nat
  deadline : UInt32
  deriving DecidableEq, Repr

def buildEscrowTerms (treasury : WalletAddress) (expectedHash candidatesHash : BitVec 256)
    (paramsVersion : UInt32) (platformFeeBps participationCommissionBps : UInt16) : Cell :=
  Cell.empty
    |>.storeAddress treasury
    |>.storeU256 expectedHash
    |>.storeU256 candidatesHash
    |>.storeUint paramsVersion.toNat 32
    |>.storeUint platformFeeBps.toNat 16
    |>.storeUint participationCommissionBps.toNat 16

def buildEscrowData (init : EscrowInit) (terms : Cell) : Cell :=
  Cell.empty
    |>.storeAddress init.requester
    |>.storeAddress init.arbiter
    |>.storeCoins init.escrowAmount
    |>.storeUint init.deadline.toNat 32
    |>.storeUint 0 1 -- settled
    |>.storeRef terms
    |>.storeDictRoot none -- pending

/-! ## The parameter cell -/

/-- `GlobalParams` has the fields of the contract's `EcoParams` in the same widths, but for the
    amounts: they are `u128`, of which the cell keeps what a `coins` field holds. -/
abbrev GlobalParams := Ton.GlobalParams.EcoParams

/-- One line of `eco_params_encoded`. -/
inductive EcoField where
  | u16f (v : UInt16)
  | coinsf (v : Nat)
  | u32f (v : UInt32)
  | bytef (v : UInt8)
  deriving DecidableEq, Repr

def EcoField.bytes : EcoField → Bytes
  | .u16f v => Octets.toBe 2 v.toNat
  | .coinsf v => Octets.toBe 16 v
  | .u32f v => Octets.toBe 4 v.toNat
  | .bytef v => [v]

def EcoField.store (cb : Cell) : EcoField → Cell
  | .u16f v => cb.storeUint v.toNat 16
  | .coinsf v => cb.storeCoins v
  | .u32f v => cb.storeUint v.toNat 32
  | .bytef v => cb.storeUint v.toNat 8

/-- The lines in order, each with the name the contract has for the field. -/
def GlobalParams.fields (p : GlobalParams) : List (String × EcoField) :=
  [("platformFeeBps", .u16f p.platformFeeBps),
    ("surchargeBps", .u16f p.surchargeBps),
    ("participationCommissionBps", .u16f p.participationCommissionBps),
    ("slashWrongBps", .u16f p.slashWrongBps),
    ("slashCheatBps", .u16f p.slashCheatBps),
    ("slashDowntimeBps", .u16f p.slashDowntimeBps),
    ("slashEquivocationBps", .u16f p.slashEquivocationBps),
    ("splitChallengerBps", .u16f p.splitChallengerBps),
    ("splitRedundancyBps", .u16f p.splitRedundancyBps),
    ("splitBurnBps", .u16f p.splitBurnBps),
    ("splitTreasuryBps", .u16f p.splitTreasuryBps),
    ("minStake", .coinsf p.minStake),
    ("minStakeInternal", .coinsf p.minStakeInternal),
    ("minStakeSensitive", .coinsf p.minStakeSensitive),
    ("stakeCap", .coinsf p.stakeCap),
    ("unbondingSecs", .u32f p.unbondingSecs),
    ("challengeWindowSecs", .u32f p.challengeWindowSecs),
    ("nPublic", .bytef p.nPublic),
    ("nDefault", .bytef p.nDefault),
    ("nMax", .bytef p.nMax),
    ("quorum", .bytef p.quorum),
    ("checksumMin", .bytef p.checksumMin),
    ("wQualityBps", .u16f p.wQualityBps),
    ("wStakeBps", .u16f p.wStakeBps),
    ("wPriceBps", .u16f p.wPriceBps),
    ("slashFailedCommitmentBps", .u16f p.slashFailedCommitmentBps),
    ("attemptDeadlineMs", .u32f p.attemptDeadlineMs),
    ("progressIntervalMs", .u32f p.progressIntervalMs),
    ("progressStallMult", .bytef p.progressStallMult)]

/-- The flat bytes and the child cell. -/
def ecoParamsEncoded (p : GlobalParams) : Bytes × Cell :=
  let fields := (GlobalParams.fields p).map Prod.snd
  (fields.flatMap EcoField.bytes, fields.foldl EcoField.store Cell.empty)

/-! ## What the contracts read -/

def upgradeValues : List (String × FieldValue) :=
  [("codeVersion", .nat 0), ("pendingCodeHash", .nat 0), ("pendingCodeAt", .nat 0)]

def SlashSplitConfig.values (s : SlashSplitConfig) : List (String × FieldValue) :=
  [("treasury", .address s.treasury.onchain),
    ("redundancyPool", .address s.redundancyPool.onchain),
    ("splitChallengerBps", .nat s.splitChallengerBps.toNat),
    ("splitRedundancyBps", .nat s.splitRedundancyBps.toNat),
    ("splitBurnBps", .nat s.splitBurnBps.toNat),
    ("splitTreasuryBps", .nat s.splitTreasuryBps.toNat)]

def VaultConfigParams.values (c : VaultConfigParams) : List (String × FieldValue) :=
  [("minStake", .nat c.minStake),
    ("unbondingPeriod", .nat c.unbondingPeriod.toNat),
    ("challengeWindow", .nat c.challengeWindow.toNat),
    ("keeperGrace", .nat c.keeperGrace.toNat),
    ("keeperBountyBps", .nat c.keeperBountyBps.toNat),
    ("slasher", .address c.slasher.onchain),
    ("upgradeAuthority", .address c.upgradeAuthority.onchain),
    ("receiptWalletCode", .cell c.receiptWalletCode),
    ("slash", .record c.slash.values)]

def VaultInit.values (init : VaultInit) (c : VaultConfigParams) : List (String × FieldValue) :=
  [("owner", .address init.owner.onchain),
    ("staked", .nat 0),
    ("unbondingAmount", .nat 0),
    ("unbondingAt", .nat 0),
    ("totalSupply", .nat 0),
    ("bindingHash", .nat init.bindingHash.toNat),
    ("config", .record c.values),
    ("upgrade", .record upgradeValues),
    ("pending", .map none)]

def termsValues (treasury : WalletAddress) (expectedHash candidatesHash : BitVec 256)
    (paramsVersion : UInt32) (platformFeeBps participationCommissionBps : UInt16) :
    List (String × FieldValue) :=
  [("treasury", .address treasury.onchain),
    ("expectedHash", .nat expectedHash.toNat),
    ("candidatesHash", .nat candidatesHash.toNat),
    ("paramsVersion", .nat paramsVersion.toNat),
    ("platformFeeBps", .nat platformFeeBps.toNat),
    ("participationCommissionBps", .nat participationCommissionBps.toNat)]

def EscrowInit.values (init : EscrowInit) (terms : List (String × FieldValue)) :
    List (String × FieldValue) :=
  [("requester", .address init.requester.onchain),
    ("arbiter", .address init.arbiter.onchain),
    ("escrowAmount", .nat init.escrowAmount),
    ("deadline", .nat init.deadline.toNat),
    ("settled", .bool false),
    ("terms", .record terms),
    ("pending", .map none)]

def EcoField.value : EcoField → Nat
  | .u16f v => v.toNat
  | .coinsf v => v
  | .u32f v => v.toNat
  | .bytef v => v.toNat

def GlobalParams.values (p : GlobalParams) : List (String × FieldValue) :=
  (GlobalParams.fields p).map fun field => (field.1, .nat field.2.value)

/-- The amounts are those that `coins` fields hold. -/
structure GlobalParams.Encodable (p : GlobalParams) : Prop where
  minStake : p.minStake < 2 ^ 120
  minStakeInternal : p.minStakeInternal < 2 ^ 120
  minStakeSensitive : p.minStakeSensitive < 2 ^ 120
  stakeCap : p.stakeCap < 2 ^ 120

/-! ## Every cell reads back -/

theorem upgrade_decodes : freshUpgrade.Decodes Layout.vaultUpgradeState upgradeValues :=
  Cell.holds_empty
    |>.uint "codeVersion" 0 32 (by decide)
    |>.u256 "pendingCodeHash" 0
    |>.uint "pendingCodeAt" 0 32 (by decide)
    |>.decodes (by decide) (by decide)

theorem slashConfig_decodes (s : SlashSplitConfig) :
    (buildSlashConfig s).Decodes Layout.slashConfig s.values :=
  Cell.holds_empty
    |>.address "treasury" s.treasury
    |>.address "redundancyPool" s.redundancyPool
    |>.uint "splitChallengerBps" _ 16 s.splitChallengerBps.toNat_lt
    |>.uint "splitRedundancyBps" _ 16 s.splitRedundancyBps.toNat_lt
    |>.uint "splitBurnBps" _ 16 s.splitBurnBps.toNat_lt
    |>.uint "splitTreasuryBps" _ 16 s.splitTreasuryBps.toNat_lt
    |>.decodes (by decide) (by decide)

theorem vaultConfig_decodes (c : VaultConfigParams) (hmin : c.minStake < 2 ^ 120) :
    (buildVaultConfig c).Decodes Layout.vaultConfig c.values :=
  Cell.holds_empty
    |>.coins "minStake" hmin
    |>.uint "unbondingPeriod" _ 32 c.unbondingPeriod.toNat_lt
    |>.uint "challengeWindow" _ 32 c.challengeWindow.toNat_lt
    |>.uint "keeperGrace" _ 32 c.keeperGrace.toNat_lt
    |>.uint "keeperBountyBps" _ 16 c.keeperBountyBps.toNat_lt
    |>.address "slasher" c.slasher
    |>.address "upgradeAuthority" c.upgradeAuthority
    |>.ref "receiptWalletCode" c.receiptWalletCode
    |>.child "slash" (slashConfig_decodes c.slash)
    |>.decodes (by decide) (by decide)

theorem vaultData_decodes (init : VaultInit) (c : VaultConfigParams) (hmin : c.minStake < 2 ^ 120) :
    (buildVaultData init (buildVaultConfig c)).Decodes Layout.vaultStorage (init.values c) :=
  Cell.holds_empty
    |>.address "owner" init.owner
    |>.noCoins "staked"
    |>.noCoins "unbondingAmount"
    |>.uint "unbondingAt" 0 32 (by decide)
    |>.noCoins "totalSupply"
    |>.u256 "bindingHash" init.bindingHash
    |>.child "config" (vaultConfig_decodes c hmin)
    |>.child "upgrade" upgrade_decodes
    |>.emptyMap "pending"
    |>.decodes (by decide) (by decide)

section Escrow

variable (treasury : WalletAddress) (expectedHash candidatesHash : BitVec 256)
  (paramsVersion : UInt32) (platformFeeBps participationCommissionBps : UInt16)

theorem escrowTerms_decodes :
    (buildEscrowTerms treasury expectedHash candidatesHash paramsVersion platformFeeBps
      participationCommissionBps).Decodes Layout.escrowTerms
      (termsValues treasury expectedHash candidatesHash paramsVersion platformFeeBps
        participationCommissionBps) :=
  Cell.holds_empty
    |>.address "treasury" treasury
    |>.u256 "expectedHash" expectedHash
    |>.u256 "candidatesHash" candidatesHash
    |>.uint "paramsVersion" _ 32 paramsVersion.toNat_lt
    |>.uint "platformFeeBps" _ 16 platformFeeBps.toNat_lt
    |>.uint "participationCommissionBps" _ 16 participationCommissionBps.toNat_lt
    |>.decodes (by decide) (by decide)

theorem escrowData_decodes (init : EscrowInit) (hamount : init.escrowAmount < 2 ^ 120) {terms : Cell}
    {values : List (String × FieldValue)} (hterms : terms.Decodes Layout.escrowTerms values) :
    (buildEscrowData init terms).Decodes Layout.escrowStorage (init.values values) :=
  Cell.holds_empty
    |>.address "requester" init.requester
    |>.address "arbiter" init.arbiter
    |>.coins "escrowAmount" hamount
    |>.uint "deadline" _ 32 init.deadline.toNat_lt
    |>.off "settled"
    |>.child "terms" hterms
    |>.emptyMap "pending"
    |>.decodes (by decide) (by decide)

end Escrow

section EcoParams

def EcoField.type : EcoField → FieldType
  | .u16f _ => .uint 16
  | .coinsf _ => .coins
  | .u32f _ => .uint 32
  | .bytef _ => .uint 8

/-- The most bits the field takes. -/
def EcoField.width : EcoField → Nat
  | .u16f _ => 16
  | .coinsf _ => 124
  | .u32f _ => 32
  | .bytef _ => 8

def EcoField.Encodable : EcoField → Prop
  | .coinsf v => v < 2 ^ 120
  | _ => True

variable {c : Cell} {fields : Layout} {values : List (String × FieldValue)} {size count : Nat}

theorem holds_store (h : c.Holds fields values size count) (name : String) {f : EcoField}
    (hf : f.Encodable) :
    (f.store c).Holds (fields ++ [(name, f.type)]) (values ++ [(name, .nat f.value)])
      (size + f.width) count := by
  cases f with
  | u16f v => exact h.uint name v.toNat 16 v.toNat_lt
  | coinsf v => exact h.coins name hf
  | u32f v => exact h.uint name v.toNat 32 v.toNat_lt
  | bytef v => exact h.uint name v.toNat 8 v.toNat_lt

/-- Lines written one after the other. -/
theorem holds_stores (h : c.Holds fields values size count) {lines : List (String × EcoField)}
    (hlines : ∀ line ∈ lines, line.2.Encodable) :
    ((lines.map Prod.snd).foldl EcoField.store c).Holds
      (fields ++ lines.map fun line => (line.1, line.2.type))
      (values ++ lines.map fun line => (line.1, .nat line.2.value))
      (size + (lines.map fun line => line.2.width).sum) count := by
  induction lines generalizing c fields values size with
  | nil =>
    simp only [List.map_nil, List.append_nil, List.sum_nil, Nat.add_zero]
    exact h
  | cons line lines ih =>
    have hnext := ih (holds_store h line.1 (hlines line List.mem_cons_self))
      fun l hl => hlines l (List.mem_cons_of_mem line hl)
    rw [List.append_assoc, List.append_assoc, Nat.add_assoc] at hnext
    exact hnext

theorem encodable_fields {p : GlobalParams} (h : GlobalParams.Encodable p) :
    ∀ line ∈ GlobalParams.fields p, line.2.Encodable := by
  simp only [GlobalParams.fields, List.forall_mem_cons, EcoField.Encodable]
  exact ⟨trivial, trivial, trivial, trivial, trivial, trivial, trivial, trivial, trivial, trivial,
    trivial, h.minStake, h.minStakeInternal, h.minStakeSensitive, h.stakeCap, by simp⟩

theorem ecoParams_decodes (p : GlobalParams) (h : GlobalParams.Encodable p) :
    (ecoParamsEncoded p).2.Decodes Layout.ecoParams (GlobalParams.values p) := by
  have hsize : 0 + ((GlobalParams.fields p).map fun line => line.2.width).sum = 912 := by
    simp only [GlobalParams.fields, EcoField.width, List.map_cons, List.map_nil, List.sum_cons,
      List.sum_nil]
    decide
  have hholds := holds_stores Cell.holds_empty (encodable_fields h)
  rw [hsize] at hholds
  exact hholds.decodes (by decide) (by decide)

end EcoParams

/-- Every cell that is built fits into a cell and reads as the struct it is meant for: with exactly
    the given values, children included, and nothing left over. Of a standard address the on-chain
    form is all of it. -/
theorem cells_decode (vault : VaultInit) (config : VaultConfigParams)
    (hstake : config.minStake < 2 ^ 120) (job : EscrowInit) (hamount : job.escrowAmount < 2 ^ 120)
    (treasury : WalletAddress) (expectedHash candidatesHash : BitVec 256) (paramsVersion : UInt32)
    (platformFeeBps participationCommissionBps : UInt16) (p : GlobalParams)
    (hp : GlobalParams.Encodable p) :
    let terms := buildEscrowTerms treasury expectedHash candidatesHash paramsVersion platformFeeBps
      participationCommissionBps
    let termsRead := termsValues treasury expectedHash candidatesHash paramsVersion platformFeeBps
      participationCommissionBps
    (buildSlashConfig config.slash).Decodes Layout.slashConfig config.slash.values ∧
      (buildVaultConfig config).Decodes Layout.vaultConfig config.values ∧
      freshUpgrade.Decodes Layout.vaultUpgradeState upgradeValues ∧
      (buildVaultData vault (buildVaultConfig config)).Decodes Layout.vaultStorage
        (vault.values config) ∧
      terms.Decodes Layout.escrowTerms termsRead ∧
      (buildEscrowData job terms).Decodes Layout.escrowStorage (job.values termsRead) ∧
      (ecoParamsEncoded p).2.Decodes Layout.ecoParams (GlobalParams.values p) ∧
      ∀ w : WalletAddress, w.Standard → walletOfAddress w.onchain = w := by
  intro terms termsRead
  have hterms : terms.Decodes Layout.escrowTerms termsRead :=
    escrowTerms_decodes treasury expectedHash candidatesHash paramsVersion platformFeeBps
      participationCommissionBps
  exact ⟨slashConfig_decodes config.slash, vaultConfig_decodes config hstake, upgrade_decodes,
    vaultData_decodes vault config hstake, hterms, escrowData_decodes job hamount hterms,
    ecoParams_decodes p hp, fun _ hw => hw.walletOfAddress⟩

/-- The parameters of a node with the default configuration. -/
def defaultParams : GlobalParams where
  platformFeeBps := 1500
  surchargeBps := 500
  participationCommissionBps := 500
  slashWrongBps := 1500
  slashCheatBps := 10000
  slashDowntimeBps := 200
  slashEquivocationBps := 5000
  splitChallengerBps := 4000
  splitRedundancyBps := 3000
  splitBurnBps := 2000
  splitTreasuryBps := 1000
  minStake := 0
  minStakeInternal := 100000000000
  minStakeSensitive := 1000000000000
  stakeCap := 100000000000000
  unbondingSecs := 604800
  challengeWindowSecs := 86400
  nPublic := 3
  nDefault := 5
  nMax := 10
  quorum := 3
  checksumMin := 3
  wQualityBps := 6000
  wStakeBps := 3000
  wPriceBps := 2500
  slashFailedCommitmentBps := 1000
  attemptDeadlineMs := 60000
  progressIntervalMs := 2000
  progressStallMult := 5

theorem encodable_defaultParams : GlobalParams.Encodable defaultParams :=
  ⟨by decide, by decide, by decide, by decide⟩

def sampleVaultConfig : VaultConfigParams where
  minStake := 1000000000
  unbondingPeriod := 604800
  challengeWindow := 86400
  keeperGrace := 3600
  keeperBountyBps := 100
  slasher := ⟨0, 1⟩
  upgradeAuthority := ⟨-1, 2⟩
  receiptWalletCode := .mk [true] []
  slash := ⟨⟨0, 3⟩, ⟨0, 4⟩, 4000, 3000, 2000, 1000⟩

def sampleEscrow : EscrowInit :=
  ⟨⟨0, 5⟩, ⟨0, 6⟩, 2500000000, 1700000000⟩

theorem sample_cells_decode :
    sampleVaultConfig.minStake < 2 ^ 120 ∧ sampleEscrow.escrowAmount < 2 ^ 120 ∧
      (buildVaultData ⟨⟨-1, 7⟩, 8⟩ (buildVaultConfig sampleVaultConfig)).Decodes
        Layout.vaultStorage (VaultInit.values ⟨⟨-1, 7⟩, 8⟩ sampleVaultConfig) ∧
      (buildEscrowData sampleEscrow (buildEscrowTerms ⟨0, 3⟩ 9 10 1 1500 500)).Decodes
        Layout.escrowStorage (sampleEscrow.values (termsValues ⟨0, 3⟩ 9 10 1 1500 500)) ∧
      (ecoParamsEncoded defaultParams).2.Decodes Layout.ecoParams
        (GlobalParams.values defaultParams) := by
  obtain ⟨-, -, -, hvault, -, hescrow, heco, -⟩ := cells_decode ⟨⟨-1, 7⟩, 8⟩ sampleVaultConfig
    (by decide) sampleEscrow (by decide) ⟨0, 3⟩ 9 10 1 1500 500 defaultParams encodable_defaultParams
  exact ⟨by decide, by decide, hvault, hescrow, heco⟩

end Duckton.Settlement
