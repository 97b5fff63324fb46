/-
  The browser's deploy cells against the storage structs of the contracts.

  For every form that the page accepts: is the data cell what the contract's `fromCell` reads, with
  every field at the value supplied? `matchesContract_iff` answers it for the four contracts. The
  cells of GlobalParams and StakeVault always parse, and are right exactly if the TON amounts are
  whole numbers, since `tonToNano` rounds to whole TON first (for GlobalParams the upgrade delay,
  too, is rounded and raised to one). The cells of JobEscrow and RecordAnchor never parse: the
  terms lack the two fee rates, the anchor lacks the state of a pending upgrade.
-/
import Duckton.Ton.Layout
import Duckton.Web.TonBuild

namespace Duckton.Web

open Duckton.Ton

/-! ## What is supplied -/

/-- A value the form or the deployment supplies for a field. -/
inductive Supplied where
  | number (x : Number)
  | ton (x : Number)
  | constant (n : ℕ)
  | address (text : String)
  | hash (text : String)
  | flag (b : Bool)
  | emptyMap
  | code (c : Cell)
  | record (fields : List (String × Supplied))

mutual

/-- The value read is the value supplied; an amount of TON is read in nanoton. -/
def Agrees (page : Page) : Supplied → FieldValue → Prop
  | .number x, .nat n => x = .finite n
  | .ton x, .nat n => ∃ q, x = .finite q ∧ q * 10 ^ 9 = n
  | .constant k, .nat n => k = n
  | .address text, .address a =>
    ∃ p, page.addr text = some p ∧ p.workChain = a.workchain.toInt ∧ p.hash = a.hash
  | .hash text, .nat n => u256 text = some n
  | .flag b, .bool b' => b = b'
  | .emptyMap, .map root => root = none
  | .code c, .cell c' => c = c'
  | .record fields, .record values => AgreesAll page fields values
  | _, _ => False

/-- Field by field, under the same names. -/
def AgreesAll (page : Page) : List (String × Supplied) → List (String × FieldValue) → Prop
  | [], [] => True
  | (name, s) :: fields, (name', v) :: values =>
    name = name' ∧ Agrees page s v ∧ AgreesAll page fields values
  | _, _ => False

end

/-- What is supplied for `EcoParams`. -/
def GpConfig.supplied (c : GpConfig) : List (String × Supplied) :=
  [("platformFeeBps", .number c.platformFeeBps),
    ("surchargeBps", .number c.surchargeBps),
    ("participationCommissionBps", .number c.participationCommissionBps),
    ("slashWrongBps", .number c.slashWrongBps),
    ("slashCheatBps", .number c.slashCheatBps),
    ("slashDowntimeBps", .number c.slashDowntimeBps),
    ("slashEquivocationBps", .number c.slashEquivocationBps),
    ("splitChallengerBps", .number c.splitChallengerBps),
    ("splitRedundancyBps", .number c.splitRedundancyBps),
    ("splitBurnBps", .number c.splitBurnBps),
    ("splitTreasuryBps", .number c.splitTreasuryBps),
    ("minStake", .ton c.minStakeTon),
    ("minStakeInternal", .ton c.minStakeInternalTon),
    ("minStakeSensitive", .ton c.minStakeSensitiveTon),
    ("stakeCap", .ton c.stakeCapTon),
    ("unbondingSecs", .number c.unbondingSecs),
    ("challengeWindowSecs", .number c.challengeWindowSecs),
    ("nPublic", .number c.nPublic),
    ("nDefault", .number c.nDefault),
    ("nMax", .number c.nMax),
    ("quorum", .number c.quorum),
    ("checksumMin", .number c.checksumMin),
    ("wQualityBps", .number c.wQualityBps),
    ("wStakeBps", .number c.wStakeBps),
    ("wPriceBps", .number c.wPriceBps),
    ("slashFailedCommitmentBps", .number c.slashFailedCommitmentBps),
    ("attemptDeadlineMs", .number c.attemptDeadlineMs),
    ("progressIntervalMs", .number c.progressIntervalMs),
    ("progressStallMult", .number c.progressStallMult)]

/-- A fresh GlobalParams: parameter version 1, never upgraded. -/
def GlobalParamsForm.supplied (f : GlobalParamsForm) : List (String × Supplied) :=
  [("admin", .address f.adminRaw),
    ("feeRecipient", .address f.feeRecipientRaw),
    ("params", .record f.cfg.supplied),
    ("blocklist", .emptyMap),
    ("paramsVersion", .constant 1),
    ("codeVersion", .constant 0),
    ("upgradeDelay", .number f.upgradeDelaySecs),
    ("pendingCodeHash", .constant 0),
    ("pendingCodeAt", .constant 0)]

/-- The form has no fee rates. -/
def JobEscrowForm.suppliedTerms (p : JobEscrowForm) : List (String × Supplied) :=
  [("treasury", .address p.treasury),
    ("expectedHash", .hash p.expectedHashHex),
    ("candidatesHash", .hash (p.candidatesHashHex.getD "0")),
    ("paramsVersion", .number p.paramsVersion)]

def JobEscrowForm.supplied (p : JobEscrowForm) : List (String × Supplied) :=
  [("requester", .address p.requester),
    ("arbiter", .address p.arbiter),
    ("escrowAmount", .ton p.escrowAmountTon),
    ("deadline", .number p.deadlineUnix),
    ("settled", .flag false),
    ("terms", .record p.suppliedTerms),
    ("pending", .emptyMap)]

def StakeVaultForm.suppliedSlash (p : StakeVaultForm) : List (String × Supplied) :=
  [("treasury", .address p.treasury),
    ("redundancyPool", .address p.redundancyPool),
    ("splitChallengerBps", .number p.splitChallengerBps),
    ("splitRedundancyBps", .number p.splitRedundancyBps),
    ("splitBurnBps", .number p.splitBurnBps),
    ("splitTreasuryBps", .number p.splitTreasuryBps)]

def StakeVaultForm.suppliedConfig (p : StakeVaultForm) (receiptCode : Cell) :
    List (String × Supplied) :=
  [("minStake", .ton p.minStakeTon),
    ("unbondingPeriod", .number p.unbondingSecs),
    ("challengeWindow", .number p.challengeWindowSecs),
    ("keeperGrace", .number p.keeperGraceSecs),
    ("keeperBountyBps", .number p.keeperBountyBps),
    ("slasher", .address p.slasher),
    ("upgradeAuthority", .address p.upgradeAuthority),
    ("receiptWalletCode", .code receiptCode),
    ("slash", .record p.suppliedSlash)]

def suppliedUpgrade : List (String × Supplied) :=
  [("codeVersion", .constant 0),
    ("pendingCodeHash", .constant 0),
    ("pendingCodeAt", .constant 0)]

/-- An empty vault. -/
def StakeVaultForm.supplied (p : StakeVaultForm) (receiptCode : Cell) : List (String × Supplied) :=
  [("owner", .address p.owner),
    ("staked", .constant 0),
    ("unbondingAmount", .constant 0),
    ("unbondingAt", .constant 0),
    ("totalSupply", .constant 0),
    ("bindingHash", .hash (p.bindingHashHex.getD "0")),
    ("config", .record (p.suppliedConfig receiptCode)),
    ("upgrade", .record suppliedUpgrade),
    ("pending", .emptyMap)]

def RecordAnchorForm.suppliedAuth (p : RecordAnchorForm) : List (String × Supplied) :=
  [("treasury", .address p.treasury),
    ("keeper", .address p.keeper),
    ("upgradeAuthority", .address p.upgradeAuthority)]

def RecordAnchorForm.suppliedConfig (p : RecordAnchorForm) : List (String × Supplied) :=
  [("minStakeWeight", .ton p.minStakeWeightTon),
    ("disputeBondMin", .ton p.disputeBondMinTon),
    ("verdictAuthority", .address p.verdictAuthority),
    ("auth", .record p.suppliedAuth)]

/-- The form has no upgrade delay. -/
def RecordAnchorForm.supplied (p : RecordAnchorForm) : List (String × Supplied) :=
  [("currentEpoch", .constant 0),
    ("lastRoot", .constant 0),
    ("nextDisputeId", .constant 0),
    ("disputes", .emptyMap),
    ("roots", .emptyMap),
    ("config", .record p.suppliedConfig),
    ("codeVersion", .constant 0)]

/-! ## Forms and contracts -/

inductive DeployForm where
  | globalParams (f : GlobalParamsForm)
  | jobEscrow (p : JobEscrowForm)
  | stakeVault (p : StakeVaultForm)
  | recordAnchor (p : RecordAnchorForm)

namespace DeployForm

def build (page : Page) : DeployForm → Except DeployError Cell
  | globalParams f => buildGlobalParamsDeploy page f
  | jobEscrow p => buildJobEscrowDeploy page p
  | stakeVault p => buildStakeVaultDeploy page p
  | recordAnchor p => buildRecordAnchorDeploy page p

/-- The storage struct of the contract. -/
def layout : DeployForm → Layout
  | globalParams _ => .globalParamsStorage
  | jobEscrow _ => .escrowStorage
  | stakeVault _ => .vaultStorage
  | recordAnchor _ => .anchorStorage

/-- The receipt wallet code is the page's own. -/
def supplied (page : Page) : DeployForm → List (String × Supplied)
  | globalParams f => f.supplied
  | jobEscrow p => p.supplied
  | stakeVault p => p.supplied ((page.codeCellOf "StakeReceiptWallet").getD .empty)
  | recordAnchor p => p.supplied

end DeployForm

/-- The contract reads the whole cell, and every field as supplied. -/
def MatchesContract (page : Page) (form : DeployForm) (data : Cell) : Prop :=
  ∃ values, form.layout.fromCell data = some values ∧
    AgreesAll page (form.supplied page) values

/-- A whole number. -/
def Number.Whole (x : Number) : Prop :=
  ∃ z : ℤ, x = .finite z

/-- A positive whole number. -/
def Number.Positive (x : Number) : Prop :=
  ∃ z : ℤ, x = .finite z ∧ 1 ≤ z

/-- The forms whose cells are right. -/
def DeployForm.Exact : DeployForm → Prop
  | globalParams f => f.cfg.minStakeTon.Whole ∧ f.cfg.minStakeInternalTon.Whole ∧
      f.cfg.minStakeSensitiveTon.Whole ∧ f.cfg.stakeCapTon.Whole ∧ f.upgradeDelaySecs.Positive
  | stakeVault p => p.minStakeTon.Whole
  | jobEscrow _ => False
  | recordAnchor _ => False

/-! ## One call, one field -/

variable {s : Supplied} {exact : Prop} {name text : String} {f : GlobalParamsForm}

section Fields

variable (page : Page)

/-- What a call appends, if it does not throw, is read as a value of the type, and that value is the
    one supplied exactly if `exact` holds. -/
def StoredAs (call : Stored) (type : FieldType) (s : Supplied) (exact : Prop) : Prop :=
  ∀ bits refs, call = some (bits, refs) →
    ∃ value, type.Reads value bits refs ∧ (Agrees page s value ↔ exact)

variable {page}
variable {v : Option ℤ}

variable {x : Number} {bits : ℕ}

/-- What the two calls for numbers share: an integer in range is appended as its bits. -/
theorem storeInRange_eq_some {encode : ℕ → List Bool} {b : List Bool} {r : List Cell}
    (h : (v.bind fun z => if 0 ≤ z ∧ z < 2 ^ bits then some (encode z.toNat, []) else none) =
      some (b, r)) :
    ∃ n : ℕ, v = some (n : ℤ) ∧ n < 2 ^ bits ∧ b = encode n ∧ r = [] := by
  obtain ⟨z, rfl, hz⟩ := Option.bind_eq_some_iff.mp h
  split_ifs at hz with hrange
  cases hz
  obtain ⟨n, rfl⟩ := Int.eq_ofNat_of_zero_le hrange.1
  exact ⟨n, rfl, by exact_mod_cast hrange.2, rfl, rfl⟩

theorem Number.toBigInt_eq_some {z : ℤ} : x.toBigInt = some z ↔ x = .finite z := by
  cases x with
  | finite q =>
    rw [toBigInt, Number.finite.injEq]
    constructor
    · intro h
      split_ifs at h with hden
      rw [← Option.some.inj h, Rat.coe_int_num_of_den_eq_one hden]
    · rintro rfl
      rw [Rat.den_intCast, if_pos rfl, Rat.num_intCast]
  | posInf | negInf | nan => exact ⟨nofun, nofun⟩

/-- A field of bits is right if the number handed over is. -/
theorem storedAs_uint (h : ∀ n : ℕ, v = some (n : ℤ) → (Agrees page s (.nat n) ↔ exact)) :
    StoredAs page (storeUint v bits) (.uint bits) s exact := by
  intro b r hstored
  obtain ⟨n, hv, hn, rfl, rfl⟩ := storeInRange_eq_some hstored
  exact ⟨.nat n, FieldType.reads_uint hn, h n hv⟩

theorem storedAs_coins (h : ∀ n : ℕ, v = some (n : ℤ) → (Agrees page s (.nat n) ↔ exact)) :
    StoredAs page (storeCoins v) .coins s exact := by
  intro b r hstored
  obtain ⟨n, hv, hn, rfl, rfl⟩ := storeInRange_eq_some hstored
  exact ⟨.nat n, FieldType.reads_coins hn, h n hv⟩

theorem storedAs_number :
    StoredAs page (storeUint x.toBigInt bits) (.uint bits) (.number x) True := by
  refine storedAs_uint fun n hx => iff_of_true ?_ trivial
  show x = .finite n
  exact_mod_cast Number.toBigInt_eq_some.mp hx

theorem storedAs_constant {k bits : ℕ} :
    StoredAs page (storeUint (some k) bits) (.uint bits) (.constant k) True := by
  refine storedAs_uint fun n hk => iff_of_true ?_ trivial
  show k = n
  exact_mod_cast Option.some.inj hk

theorem storedAs_noCoins : StoredAs page (storeCoins (some 0)) .coins (.constant 0) True := by
  refine storedAs_coins fun n hk => iff_of_true ?_ trivial
  show 0 = n
  exact_mod_cast Option.some.inj hk

theorem storedAs_hash :
    StoredAs page (storeUint ((u256 text).map Int.ofNat) 256) (.uint 256) (.hash text) True := by
  refine storedAs_uint fun n htext => iff_of_true ?_ trivial
  obtain ⟨m, hm, hmn⟩ := Option.map_eq_some_iff.mp htext
  show u256 text = some n
  rw [hm, Int.ofNat.inj hmn]

theorem storedAs_address :
    StoredAs page (storeAddress (page.addr text)) .address (.address text) True := by
  intro b r h
  obtain ⟨a, ha, hstored⟩ := Option.bind_eq_some_iff.mp h
  split_ifs at hstored with hrange
  cases hstored
  have hwork : a.workChain = a.onchain.workchain.toInt := by
    rw [ParsedAddress.onchain, BitVec.toInt_ofInt, Int.bmod_eq_of_le (by omega) (by omega)]
  exact ⟨.address a.onchain, FieldType.reads_address _, iff_of_true ⟨a, ha, hwork, rfl⟩ trivial⟩

theorem storedAs_flag {b : Bool} : StoredAs page (storeBit b) .bool (.flag b) True := by
  rintro _ _ ⟨⟩
  exact ⟨.bool b, FieldType.reads_bool b, iff_of_true rfl trivial⟩

theorem storedAs_emptyMap : StoredAs page (storeBit false) .map .emptyMap True := by
  rintro _ _ ⟨⟩
  exact ⟨.map none, FieldType.reads_emptyMap, iff_of_true rfl trivial⟩

theorem storedAs_code {c : Cell} : StoredAs page (storeRef c) .cell (.code c) True := by
  rintro _ _ ⟨⟩
  exact ⟨.cell c, FieldType.reads_cell c, iff_of_true rfl trivial⟩

/-- Rounding keeps a whole number. -/
theorem floor_add_half (z : ℤ) : ⌊(z : ℚ) + 1 / 2⌋ = z := by
  rw [Int.floor_eq_iff]
  constructor <;> linarith

/-- Rounding first loses every fraction of a TON. -/
theorem storedAs_ton : StoredAs page (storeCoins (tonToNano x)) .coins (.ton x) x.Whole := by
  refine storedAs_coins fun n hn => ?_
  obtain ⟨z, hz, hzn⟩ := Option.map_eq_some_iff.mp hn
  rw [Number.toBigInt_eq_some] at hz
  have hnano : (n : ℚ) = z * 10 ^ 9 := by
    rw [← Int.cast_natCast, ← hzn, nano]
    norm_num
  show (∃ q, x = .finite q ∧ q * 10 ^ 9 = (n : ℚ)) ↔ _
  rw [hnano]
  constructor
  · rintro ⟨q, rfl, hq⟩
    exact ⟨z, by rw [mul_right_cancel₀ (by norm_num) hq]⟩
  · rintro ⟨w, rfl⟩
    rw [Number.round, floor_add_half, Number.finite.injEq] at hz
    exact ⟨w, rfl, by rw [hz]⟩

theorem storedAs_rounded :
    StoredAs page (storeUint x.round.toBigInt bits) (.uint bits) (.number x) x.Whole := by
  refine storedAs_uint fun n hn => ?_
  rw [Number.toBigInt_eq_some] at hn
  show x = .finite n ↔ _
  constructor
  · rintro rfl
    exact ⟨n, by push_cast; rfl⟩
  · rintro ⟨z, rfl⟩
    rw [Number.round, floor_add_half] at hn
    exact_mod_cast hn

/-- The delay is rounded and raised to one. -/
theorem storedAs_delay :
    StoredAs page (storeUint x.round.atLeastOne.toBigInt 32) (.uint 32) (.number x) x.Positive := by
  refine storedAs_uint fun n hn => ?_
  rw [Number.toBigInt_eq_some] at hn
  show x = .finite n ↔ _
  constructor
  · rintro rfl
    refine ⟨n, by push_cast; rfl, ?_⟩
    rw [← Int.cast_natCast, Number.round, floor_add_half, Number.atLeastOne,
      Number.finite.injEq] at hn
    have hmax : (1 : ℚ) ≤ ((n : ℤ) : ℚ) := hn ▸ le_max_left _ _
    exact_mod_cast hmax
  · rintro ⟨z, rfl, hz⟩
    have hone : (1 : ℚ) ≤ z := by exact_mod_cast hz
    rw [Number.round, floor_add_half, Number.atLeastOne, max_eq_right hone] at hn
    exact_mod_cast hn

/-! ## A chain of calls, a struct -/

variable (page) in
/-- A chain that does not throw is read as a struct, which agrees exactly if `exact` holds. -/
def ChainAs (calls : List Stored) (fields : Layout) (s : List (String × Supplied))
    (exact : Prop) : Prop :=
  ∀ c, endCell calls = some c →
    ∃ values, fields.Reads values c.bits c.refs ∧ (AgreesAll page s values ↔ exact)

variable {calls : List Stored} {fields : Layout} {s : List (String × Supplied)} {exact : Prop}

theorem ChainAs.nil : ChainAs page [] [] [] True := by
  rintro c ⟨⟩
  exact ⟨[], Layout.reads_nil, Iff.rfl⟩

variable {call : Stored} {c : Cell}

theorem endCell_cons_eq_some (h : endCell (call :: calls) = some c) :
    ∃ bits refs rest, call = some (bits, refs) ∧ endCell calls = some rest ∧
      c = .mk (bits ++ rest.bits) (refs ++ rest.refs) := by
  simp only [endCell, Option.bind_eq_bind, Option.bind_eq_some_iff, Option.some.injEq] at h
  obtain ⟨⟨bits, refs⟩, hcall, rest, hrest, rfl⟩ := h
  exact ⟨bits, refs, rest, hcall, hrest, rfl⟩

variable {more : List Stored} {type : FieldType}

theorem endCell_append_eq_some (h : endCell (calls ++ more) = some c) :
    ∃ first rest, endCell calls = some first ∧ endCell more = some rest ∧
      c = .mk (first.bits ++ rest.bits) (first.refs ++ rest.refs) := by
  induction calls generalizing c with
  | nil =>
    obtain ⟨bits, refs⟩ := c
    exact ⟨.empty, .mk bits refs, rfl, h, rfl⟩
  | cons call calls ih =>
    obtain ⟨bits, refs, tail, hcall, htail, rfl⟩ := endCell_cons_eq_some h
    obtain ⟨first, rest, hfirst, hrest, rfl⟩ := ih htail
    refine ⟨.mk (bits ++ first.bits) (refs ++ first.refs), rest, ?_, hrest, ?_⟩
    · simp [endCell, hcall, hfirst]
    · simp [List.append_assoc]

/-- A field that may be wrong. -/
theorem ChainAs.cons {v : Supplied} {e : Prop}
    (hfield : StoredAs page call type v e) (hrest : ChainAs page calls fields s exact) :
    ChainAs page (call :: calls) ((name, type) :: fields) ((name, v) :: s) (e ∧ exact) := by
  intro c hc
  obtain ⟨bits, refs, rest, hcall, hend, rfl⟩ := endCell_cons_eq_some hc
  obtain ⟨value, hreads, hvalue⟩ := hfield bits refs hcall
  obtain ⟨values, hreadsAll, hvalues⟩ := hrest rest hend
  refine ⟨(name, value) :: values, Layout.Reads.cons hreads hreadsAll, ?_⟩
  show (name = name ∧ Agrees page v value ∧ AgreesAll page s values) ↔ _
  rw [hvalue, hvalues, eq_self, true_and]

/-- A field that is always right. -/
theorem ChainAs.keep {v : Supplied} (hfield : StoredAs page call type v True)
    (hrest : ChainAs page calls fields s exact) :
    ChainAs page (call :: calls) ((name, type) :: fields) ((name, v) :: s) exact := by
  have h : ChainAs page (call :: calls) ((name, type) :: fields) ((name, v) :: s)
      (True ∧ exact) := .cons hfield hrest
  rwa [true_and] at h

theorem ChainAs.fromCell (h : ChainAs page calls fields s exact) (hc : endCell calls = some c) :
    ∃ values, fields.fromCell c = some values ∧ (AgreesAll page s values ↔ exact) := by
  obtain ⟨values, hreads, hagrees⟩ := h c hc
  exact ⟨values, hreads.fromCell, hagrees⟩

/-- A chain with a reference to a cell that does not parse. -/
theorem ChainAs.fromCell_child_eq_none (h : ChainAs page calls fields s exact) {child : Layout}
    {data : Cell} (hdata : endCell (calls ++ storeRef c :: more) = some data)
    (hchild : child.fromCell c = none) (name : String) (after : Layout) :
    Layout.fromCell (fields ++ (name, .cellOf child) :: after) data = none := by
  obtain ⟨first, rest, hfirst, hrest, rfl⟩ := endCell_append_eq_some hdata
  obtain ⟨values, hreads, -⟩ := h first hfirst
  obtain ⟨_, _, tail, hcall, -, rfl⟩ := endCell_cons_eq_some hrest
  cases hcall
  exact hreads.fromCell_child_eq_none hchild name after tail.bits tail.refs

/-- A reference to a cell that was built by a chain. -/
theorem ChainAs.storedAs (h : ChainAs page calls fields s exact) (hc : endCell calls = some c) :
    StoredAs page (storeRef c) (.cellOf fields) (.record s) exact := by
  obtain ⟨values, hvalues, hagrees⟩ := h.fromCell hc
  rintro _ _ ⟨⟩
  exact ⟨.record values, FieldType.reads_cellOf hvalues, hagrees⟩

end Fields

/-! ## The four contracts -/

section Contracts

variable {page : Page}

theorem storedAs_ecoParams {c : GpConfig} {eco : Cell} (heco : buildEcoParamsCell c = some eco) :
    StoredAs page (storeRef eco) (.cellOf Layout.ecoParams) (.record c.supplied)
      (c.minStakeTon.Whole ∧ c.minStakeInternalTon.Whole ∧ c.minStakeSensitiveTon.Whole ∧
        c.stakeCapTon.Whole) := by
  rw [← and_true c.stakeCapTon.Whole]
  refine ChainAs.storedAs ?_ heco
  iterate 11 refine .keep storedAs_number ?_
  iterate 4 refine .cons storedAs_ton ?_
  iterate 14 refine .keep storedAs_number ?_
  exact .nil

variable {data slash receiptCode config upgrade authorities : Cell} {p : StakeVaultForm}

theorem globalParams_chain {eco : Cell}
    (heco : buildEcoParamsCell f.cfg = some eco) (hdata : globalParamsData page f eco = some data) :
    ∃ values, Layout.globalParamsStorage.fromCell data = some values ∧
      (AgreesAll page f.supplied values ↔ (DeployForm.globalParams f).Exact) := by
  have hchain : ChainAs page _ Layout.globalParamsStorage f.supplied _ :=
    .keep storedAs_address <|
    .keep storedAs_address <|
    .cons (storedAs_ecoParams heco) <|
    .keep storedAs_emptyMap <|
    .keep storedAs_constant <|
    .keep storedAs_constant <|
    .cons storedAs_delay <|
    .keep storedAs_constant <|
    .keep storedAs_constant .nil
  obtain ⟨values, hvalues, hagrees⟩ := hchain.fromCell hdata
  refine ⟨values, hvalues, hagrees.trans ?_⟩
  simp only [DeployForm.Exact, and_true, and_assoc]

theorem storedAs_slash (hslash : slashCell page p = some slash) :
    StoredAs page (storeRef slash) (.cellOf Layout.slashConfig) (.record p.suppliedSlash) True := by
  have hchain : ChainAs page _ Layout.slashConfig p.suppliedSlash _ :=
    .keep storedAs_address <|
    .keep storedAs_address <|
    .keep storedAs_number <|
    .keep storedAs_number <|
    .keep storedAs_number <|
    .keep storedAs_number .nil
  exact hchain.storedAs hslash

theorem storedAs_vaultConfig (hslash : slashCell page p = some slash)
    (hconfig : vaultConfigCell page p receiptCode slash = some config) :
    StoredAs page (storeRef config) (.cellOf Layout.vaultConfig)
      (.record (p.suppliedConfig receiptCode)) p.minStakeTon.Whole := by
  have hchain : ChainAs page _ Layout.vaultConfig (p.suppliedConfig receiptCode) _ :=
    .cons storedAs_ton <|
    .keep storedAs_number <|
    .keep storedAs_number <|
    .keep storedAs_number <|
    .keep storedAs_number <|
    .keep storedAs_address <|
    .keep storedAs_address <|
    .keep storedAs_code <|
    .keep (storedAs_slash hslash) .nil
  have hstored := hchain.storedAs hconfig
  rwa [and_true] at hstored

theorem storedAs_upgrade (h : upgradeCell = some upgrade) :
    StoredAs page (storeRef upgrade) (.cellOf Layout.vaultUpgradeState) (.record suppliedUpgrade)
      True := by
  have hchain : ChainAs page _ Layout.vaultUpgradeState suppliedUpgrade _ :=
    .keep storedAs_constant <|
    .keep storedAs_constant <|
    .keep storedAs_constant .nil
  exact hchain.storedAs h

theorem stakeVault_chain (hslash : slashCell page p = some slash)
    (hconfig : vaultConfigCell page p receiptCode slash = some config)
    (hupgrade : upgradeCell = some upgrade)
    (hdata : stakeVaultData page p config upgrade = some data) :
    ∃ values, Layout.vaultStorage.fromCell data = some values ∧
      (AgreesAll page (p.supplied receiptCode) values ↔ p.minStakeTon.Whole) := by
  have hchain : ChainAs page _ Layout.vaultStorage (p.supplied receiptCode) _ :=
    .keep storedAs_address <|
    .keep storedAs_noCoins <|
    .keep storedAs_noCoins <|
    .keep storedAs_constant <|
    .keep storedAs_noCoins <|
    .keep storedAs_hash <|
    .cons (storedAs_vaultConfig hslash hconfig) <|
    .keep (storedAs_upgrade hupgrade) <|
    .keep storedAs_emptyMap .nil
  obtain ⟨values, hvalues, hagrees⟩ := hchain.fromCell hdata
  exact ⟨values, hvalues, hagrees.trans (by rw [and_true])⟩

/-- The terms end before the two fee rates. -/
theorem escrowTerms_eq_none {p : JobEscrowForm} {terms : Cell}
    (h : escrowTermsCell page p = some terms) : Layout.escrowTerms.fromCell terms = none := by
  have hchain : ChainAs page _ (Layout.escrowTerms.take 4) p.suppliedTerms _ :=
    .keep storedAs_address <|
    .keep storedAs_hash <|
    .keep storedAs_hash <|
    .keep storedAs_number .nil
  obtain ⟨values, hreads, -⟩ := hchain terms h
  exact hreads.fromCell_append_eq_none (Layout.escrowTerms.drop 4) rfl

/-- So the storage does not parse either. -/
theorem jobEscrow_eq_none {p : JobEscrowForm} {terms : Cell}
    (hterms : escrowTermsCell page p = some terms)
    (hdata : jobEscrowData page p terms = some data) :
    Layout.escrowStorage.fromCell data = none := by
  have hchain : ChainAs page _ (Layout.escrowStorage.take 5) (p.supplied.take 5) _ :=
    .keep storedAs_address <|
    .keep storedAs_address <|
    .cons storedAs_ton <|
    .cons storedAs_rounded <|
    .keep storedAs_flag .nil
  exact hchain.fromCell_child_eq_none hdata (escrowTerms_eq_none hterms) "terms"
    [("pending", .map)]

theorem storedAs_authorities {p : RecordAnchorForm}
    (h : authoritiesCell page p = some authorities) :
    StoredAs page (storeRef authorities) (.cellOf Layout.anchorAuthorities)
      (.record p.suppliedAuth) True := by
  have hchain : ChainAs page _ Layout.anchorAuthorities p.suppliedAuth _ :=
    .keep storedAs_address <|
    .keep storedAs_address <|
    .keep storedAs_address .nil
  exact hchain.storedAs h

/-- The anchor's storage ends before the state of a pending upgrade. -/
theorem recordAnchor_eq_none {p : RecordAnchorForm}
    (hauth : authoritiesCell page p = some authorities)
    (hconfig : anchorConfigCell page p authorities = some config)
    (hdata : recordAnchorData config = some data) :
    Layout.anchorStorage.fromCell data = none := by
  have hconfigChain : ChainAs page _ Layout.anchorConfig p.suppliedConfig _ :=
    .cons storedAs_ton <|
    .cons storedAs_ton <|
    .keep storedAs_address <|
    .keep (storedAs_authorities hauth) .nil
  have hchain : ChainAs page _ (Layout.anchorStorage.take 7) p.supplied _ :=
    .keep storedAs_constant <|
    .keep storedAs_constant <|
    .keep storedAs_constant <|
    .keep storedAs_emptyMap <|
    .keep storedAs_emptyMap <|
    .cons (hconfigChain.storedAs hconfig) <|
    .keep storedAs_constant .nil
  obtain ⟨values, hreads, -⟩ := hchain data hdata
  exact hreads.fromCell_append_eq_none (Layout.anchorStorage.drop 7) rfl

end Contracts

theorem caught_eq_ok {o : Option Cell} {c : Cell} : caught o = .ok c ↔ o = some c := by
  cases o <;> simp [caught]

section Matches

variable {page : Page} {data : Cell}

theorem globalParams_matches_iff (h : buildGlobalParamsDeploy page f = .ok data) :
    MatchesContract page (.globalParams f) data ↔ (DeployForm.globalParams f).Exact := by
  unfold buildGlobalParamsDeploy at h
  split at h
  · cases h
  · obtain ⟨eco, heco, hdata⟩ := Option.bind_eq_some_iff.mp (caught_eq_ok.mp h)
    obtain ⟨values, hvalues, hagrees⟩ := globalParams_chain heco hdata
    simp [MatchesContract, DeployForm.layout, DeployForm.supplied, hvalues, hagrees]

theorem stakeVault_matches_iff {p : StakeVaultForm}
    (h : buildStakeVaultDeploy page p = .ok data) :
    MatchesContract page (.stakeVault p) data ↔ p.minStakeTon.Whole := by
  unfold buildStakeVaultDeploy at h
  split at h
  · rename_i receiptCode _ hreceipt
    obtain ⟨slash, hslash, hdata⟩ := Option.bind_eq_some_iff.mp (caught_eq_ok.mp h)
    obtain ⟨config, hconfig, hdata⟩ := Option.bind_eq_some_iff.mp hdata
    obtain ⟨upgrade, hupgrade, hdata⟩ := Option.bind_eq_some_iff.mp hdata
    obtain ⟨values, hvalues, hagrees⟩ := stakeVault_chain hslash hconfig hupgrade hdata
    simp [MatchesContract, DeployForm.layout, DeployForm.supplied, hvalues, hreceipt, hagrees]
  · cases h

theorem jobEscrow_not_matches {p : JobEscrowForm} (h : buildJobEscrowDeploy page p = .ok data) :
    ¬ MatchesContract page (.jobEscrow p) data := by
  unfold buildJobEscrowDeploy at h
  split at h
  · cases h
  · obtain ⟨terms, hterms, hdata⟩ := Option.bind_eq_some_iff.mp (caught_eq_ok.mp h)
    have hnone := jobEscrow_eq_none hterms hdata
    simp [MatchesContract, DeployForm.layout, hnone]

theorem recordAnchor_not_matches {p : RecordAnchorForm}
    (h : buildRecordAnchorDeploy page p = .ok data) :
    ¬ MatchesContract page (.recordAnchor p) data := by
  unfold buildRecordAnchorDeploy at h
  split at h
  · cases h
  · obtain ⟨authorities, hauth, hdata⟩ := Option.bind_eq_some_iff.mp (caught_eq_ok.mp h)
    obtain ⟨config, hconfig, hdata⟩ := Option.bind_eq_some_iff.mp hdata
    have hnone := recordAnchor_eq_none hauth hconfig hdata
    simp [MatchesContract, DeployForm.layout, hnone]

/-- The deploy cells that match their contract: those of GlobalParams and StakeVault whose amounts
    are whole TON, and none of JobEscrow and RecordAnchor. -/
theorem matchesContract_iff {form : DeployForm} (h : form.build page = .ok data) :
    MatchesContract page form data ↔ form.Exact := by
  cases form with
  | globalParams f => exact globalParams_matches_iff h
  | jobEscrow p => exact iff_of_false (jobEscrow_not_matches h) not_false
  | stakeVault p => exact stakeVault_matches_iff h
  | recordAnchor p => exact iff_of_false (recordAnchor_not_matches h) not_false

end Matches

/-! ## Sample forms -/

def zeroAddress : String :=
  "0:0000000000000000000000000000000000000000000000000000000000000000"

/-- A page that reads the address zero and has empty code cells. -/
def samplePage : Page where
  parseAddress text := if text = zeroAddress.toList then some ⟨0, 0⟩ else none
  codeCellOf _ := some .empty

def sampleVault (minStakeTon : Number) : StakeVaultForm where
  owner := zeroAddress
  slasher := zeroAddress
  upgradeAuthority := zeroAddress
  treasury := zeroAddress
  redundancyPool := zeroAddress
  minStakeTon := minStakeTon
  unbondingSecs := .finite 604800
  challengeWindowSecs := .finite 86400
  keeperGraceSecs := .finite 3600
  keeperBountyBps := .finite 50
  splitChallengerBps := .finite 5000
  splitRedundancyBps := .finite 2000
  splitBurnBps := .finite 2000
  splitTreasuryBps := .finite 1000
  bindingHashHex := none

def sampleEscrow : JobEscrowForm where
  requester := zeroAddress
  arbiter := zeroAddress
  treasury := zeroAddress
  escrowAmountTon := .finite 3
  deadlineUnix := .finite 1800000000
  expectedHashHex := "0xff"
  candidatesHashHex := none
  paramsVersion := .finite 1

/-- The page answers `ok: true` to the three forms. -/
theorem samples_build :
    (∃ data, buildStakeVaultDeploy samplePage (sampleVault (.finite 2)) = .ok data) ∧
    (∃ data, buildStakeVaultDeploy samplePage (sampleVault (.finite (1 / 2))) = .ok data) ∧
    (∃ data, buildJobEscrowDeploy samplePage sampleEscrow = .ok data) := by
  have hok : ∀ {x : Except DeployError Cell}, x.toBool = true → ∃ data, x = .ok data := by
    intro x h
    cases x with
    | error e => cases h
    | ok data => exact ⟨data, rfl⟩
  have hbuilt : (buildStakeVaultDeploy samplePage (sampleVault (.finite 2))).toBool = true ∧
      (buildStakeVaultDeploy samplePage (sampleVault (.finite (1 / 2)))).toBool = true ∧
      (buildJobEscrowDeploy samplePage sampleEscrow).toBool = true := by decide +kernel
  exact ⟨hok hbuilt.1, hok hbuilt.2.1, hok hbuilt.2.2⟩

theorem whole_stake_matches :
    ∃ data, (DeployForm.stakeVault (sampleVault (.finite 2))).build samplePage = .ok data ∧
      MatchesContract samplePage (.stakeVault (sampleVault (.finite 2))) data := by
  obtain ⟨data, hdata⟩ := samples_build.1
  exact ⟨data, hdata, (matchesContract_iff (by exact hdata)).mpr ⟨2, rfl⟩⟩

/-- Half a TON of minimum stake is deployed as another amount, and an escrow, whatever its amount,
    does not parse. -/
theorem fractional_stake_and_escrow_differ :
    (∃ data, (DeployForm.stakeVault (sampleVault (.finite (1 / 2)))).build samplePage = .ok data ∧
      ¬ MatchesContract samplePage (.stakeVault (sampleVault (.finite (1 / 2)))) data) ∧
    (∃ data, (DeployForm.jobEscrow sampleEscrow).build samplePage = .ok data ∧
      ¬ MatchesContract samplePage (.jobEscrow sampleEscrow) data) := by
  obtain ⟨-, ⟨vault, hvault⟩, escrow, hescrow⟩ := samples_build
  refine ⟨⟨vault, hvault, fun hmatches => ?_⟩, escrow, hescrow, jobEscrow_not_matches hescrow⟩
  obtain ⟨z, hz⟩ := (stakeVault_matches_iff hvault).mp hmatches
  have hhalf : (1 / 2 : ℚ) = z := Number.finite.inj hz
  have htwice : (1 : ℤ) = 2 * z := by
    have h : (1 : ℚ) = 2 * z := by linarith
    exact_mod_cast h
  omega

end Duckton.Web
