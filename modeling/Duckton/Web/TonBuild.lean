/-
  The deploy cells that the web app builds in the browser (web/src/lib/ton-build.ts).

  A form number is a JavaScript number, taken at its exact value. Each `store…` call appends bits
  and references to a builder or throws; the calls of one chain are listed in order and put
  together by `endCell`. A thrown error ends in `ok: false`. The data cell is what is modelled
  here: the address, the StateInit and the network flag only use it. No cell below can outgrow
  1023 bits or four references, so the builder's capacity is left out.

  `Address.parse` and the code cells of the contracts are parameters.
-/
import Mathlib.Data.Rat.Floor
import Duckton.Ton.Cell

namespace Duckton.Web

open Duckton.Ton

/-! ## Numbers and texts -/

inductive Number where
  | finite (q : ℚ)
  | posInf
  | negInf
  | nan
  deriving DecidableEq

namespace Number

/-- `BigInt(x)`, which throws on anything but an integer. -/
def toBigInt : Number → Option ℤ
  | finite q => if q.den = 1 then some q.num else none
  | _ => none

/-- `Math.round`: the nearest integer, and the upper one of two. -/
def round : Number → Number
  | finite q => finite ⌊q + 1 / 2⌋
  | x => x

/-- `Math.max(1, x)` -/
def atLeastOne : Number → Number
  | finite q => finite (max 1 q)
  | posInf => posInf
  | negInf => finite 1
  | nan => nan

end Number

/-- `NANO` -/
def nano : ℤ := 1000000000

/-- `tonToNano` -/
def tonToNano (t : Number) : Option ℤ :=
  t.round.toBigInt.map (· * nano)

/-- The characters that `trim` removes. -/
def isJsSpace (c : Char) : Bool :=
  let n := c.toNat
  (9 ≤ n && n ≤ 13) || n == 0x20 || n == 0xA0 || n == 0x1680 || (0x2000 ≤ n && n ≤ 0x200A) ||
    n == 0x2028 || n == 0x2029 || n == 0x202F || n == 0x205F || n == 0x3000 || n == 0xFEFF

def jsTrim (s : String) : List Char :=
  ((s.toList.dropWhile isJsSpace).reverse.dropWhile isJsSpace).reverse

def hexDigit (c : Char) : Option ℕ :=
  let n := c.toNat
  if 48 ≤ n ∧ n ≤ 57 then some (n - 48)
  else if 97 ≤ n ∧ n ≤ 102 then some (n - 87)
  else if 65 ≤ n ∧ n ≤ 70 then some (n - 55)
  else none

/-- `u256`: hexadecimal digits, perhaps after `0x`; no digits stand for zero. -/
def u256 (hex : String) : Option ℕ :=
  let digits := match jsTrim (if hex = "" then "0" else hex) with
    | '0' :: 'x' :: rest => rest
    | '0' :: 'X' :: rest => rest
    | text => text
  digits.foldlM (fun n c => (hexDigit c).map (16 * n + ·)) 0

/-! ## The builder -/

/-- What a `store…` call appends; nothing if it throws. -/
abbrev Stored := Option (List Bool × List Cell)

def storeUint (v : Option ℤ) (bits : ℕ) : Stored :=
  v.bind fun n => if 0 ≤ n ∧ n < 2 ^ bits then some (Bits.ofNat bits n.toNat, []) else none

/-- `storeCoins`: a length of four bits and as many bytes. -/
def storeCoins (v : Option ℤ) : Stored :=
  v.bind fun n => if 0 ≤ n ∧ n < 2 ^ 120 then some (coinsBits n.toNat, []) else none

def storeBit (b : Bool) : Stored :=
  some ([b], [])

def storeRef (c : Cell) : Stored :=
  some ([], [c])

/-- An `Address` of the TON library. -/
structure ParsedAddress where
  workChain : ℤ
  hash : BitVec 256
  deriving DecidableEq

/-- The account on chain. -/
def ParsedAddress.onchain (a : ParsedAddress) : Address :=
  ⟨BitVec.ofInt 8 a.workChain, a.hash⟩

/-- `storeAddress`; the workchain is written as a signed byte. -/
def storeAddress (v : Option ParsedAddress) : Stored :=
  v.bind fun a =>
    if -128 ≤ a.workChain ∧ a.workChain < 128 then some (a.onchain.toBits, []) else none

/-- `beginCell()`, the calls, `endCell()`. -/
def endCell : List Stored → Option Cell
  | [] => some Cell.empty
  | call :: calls => do
    let (bits, refs) ← call
    let rest ← endCell calls
    some (.mk (bits ++ rest.bits) (refs ++ rest.refs))

/-! ## Forms -/

/-- What the page has besides the form. -/
structure Page where
  /-- `Address.parse` -/
  parseAddress : List Char → Option ParsedAddress
  codeCellOf : String → Option Cell

variable (page : Page)

/-- `addr` -/
def Page.addr (s : String) : Option ParsedAddress :=
  page.parseAddress (jsTrim s)

structure GpConfig where
  platformFeeBps : Number
  surchargeBps : Number
  participationCommissionBps : Number
  slashWrongBps : Number
  slashCheatBps : Number
  slashDowntimeBps : Number
  slashEquivocationBps : Number
  splitChallengerBps : Number
  splitRedundancyBps : Number
  splitBurnBps : Number
  splitTreasuryBps : Number
  minStakeTon : Number
  minStakeInternalTon : Number
  minStakeSensitiveTon : Number
  stakeCapTon : Number
  unbondingSecs : Number
  challengeWindowSecs : Number
  nPublic : Number
  nDefault : Number
  nMax : Number
  quorum : Number
  checksumMin : Number
  wQualityBps : Number
  wStakeBps : Number
  wPriceBps : Number
  slashFailedCommitmentBps : Number
  attemptDeadlineMs : Number
  progressIntervalMs : Number
  progressStallMult : Number

structure GlobalParamsForm where
  cfg : GpConfig
  adminRaw : String
  feeRecipientRaw : String
  upgradeDelaySecs : Number

structure JobEscrowForm where
  requester : String
  arbiter : String
  treasury : String
  escrowAmountTon : Number
  deadlineUnix : Number
  expectedHashHex : String
  candidatesHashHex : Option String
  paramsVersion : Number

structure StakeVaultForm where
  owner : String
  slasher : String
  upgradeAuthority : String
  treasury : String
  redundancyPool : String
  minStakeTon : Number
  unbondingSecs : Number
  challengeWindowSecs : Number
  keeperGraceSecs : Number
  keeperBountyBps : Number
  splitChallengerBps : Number
  splitRedundancyBps : Number
  splitBurnBps : Number
  splitTreasuryBps : Number
  bindingHashHex : Option String

structure RecordAnchorForm where
  verdictAuthority : String
  treasury : String
  keeper : String
  upgradeAuthority : String
  minStakeWeightTon : Number
  disputeBondMinTon : Number

/-- `ok: false`: a text of its own, or a caught exception. -/
inductive DeployError where
  | missing (error : String)
  | thrown
  deriving DecidableEq

def caught : Option Cell → Except DeployError Cell
  | some c => .ok c
  | none => .error .thrown

/-! ## The cells -/

/-- `buildEcoParamsCell` -/
def buildEcoParamsCell (c : GpConfig) : Option Cell :=
  endCell
    [storeUint c.platformFeeBps.toBigInt 16,
      storeUint c.surchargeBps.toBigInt 16,
      storeUint c.participationCommissionBps.toBigInt 16,
      storeUint c.slashWrongBps.toBigInt 16,
      storeUint c.slashCheatBps.toBigInt 16,
      storeUint c.slashDowntimeBps.toBigInt 16,
      storeUint c.slashEquivocationBps.toBigInt 16,
      storeUint c.splitChallengerBps.toBigInt 16,
      storeUint c.splitRedundancyBps.toBigInt 16,
      storeUint c.splitBurnBps.toBigInt 16,
      storeUint c.splitTreasuryBps.toBigInt 16,
      storeCoins (tonToNano c.minStakeTon),
      storeCoins (tonToNano c.minStakeInternalTon),
      storeCoins (tonToNano c.minStakeSensitiveTon),
      storeCoins (tonToNano c.stakeCapTon),
      storeUint c.unbondingSecs.toBigInt 32,
      storeUint c.challengeWindowSecs.toBigInt 32,
      storeUint c.nPublic.toBigInt 8,
      storeUint c.nDefault.toBigInt 8,
      storeUint c.nMax.toBigInt 8,
      storeUint c.quorum.toBigInt 8,
      storeUint c.checksumMin.toBigInt 8,
      storeUint c.wQualityBps.toBigInt 16,
      storeUint c.wStakeBps.toBigInt 16,
      storeUint c.wPriceBps.toBigInt 16,
      storeUint c.slashFailedCommitmentBps.toBigInt 16,
      storeUint c.attemptDeadlineMs.toBigInt 32,
      storeUint c.progressIntervalMs.toBigInt 32,
      storeUint c.progressStallMult.toBigInt 8]

/-- The data cell of `buildGlobalParamsDeploy`. -/
def globalParamsData (f : GlobalParamsForm) (eco : Cell) : Option Cell :=
  endCell
    [storeAddress (page.addr f.adminRaw),
      storeAddress (page.addr f.feeRecipientRaw),
      storeRef eco,
      storeBit false,
      storeUint (some 1) 32,
      storeUint (some 0) 32,
      storeUint f.upgradeDelaySecs.round.atLeastOne.toBigInt 32,
      storeUint (some 0) 256,
      storeUint (some 0) 32]

/-- `buildGlobalParamsDeploy` -/
def buildGlobalParamsDeploy (f : GlobalParamsForm) : Except DeployError Cell :=
  match page.codeCellOf "GlobalParams" with
  | none => .error (.missing "GlobalParams code BoC missing")
  | some _ => caught do globalParamsData page f (← buildEcoParamsCell f.cfg)

/-- The terms of `buildJobEscrowDeploy`. -/
def escrowTermsCell (p : JobEscrowForm) : Option Cell :=
  endCell
    [storeAddress (page.addr p.treasury),
      storeUint ((u256 p.expectedHashHex).map Int.ofNat) 256,
      storeUint ((u256 (p.candidatesHashHex.getD "0")).map Int.ofNat) 256,
      storeUint p.paramsVersion.toBigInt 32]

/-- The data cell of `buildJobEscrowDeploy`. -/
def jobEscrowData (p : JobEscrowForm) (terms : Cell) : Option Cell :=
  endCell
    [storeAddress (page.addr p.requester),
      storeAddress (page.addr p.arbiter),
      storeCoins (tonToNano p.escrowAmountTon),
      storeUint p.deadlineUnix.round.toBigInt 32,
      storeBit false,
      storeRef terms,
      storeBit false]

/-- `buildJobEscrowDeploy` -/
def buildJobEscrowDeploy (p : JobEscrowForm) : Except DeployError Cell :=
  match page.codeCellOf "JobEscrow" with
  | none => .error (.missing "JobEscrow code BoC missing")
  | some _ => caught do jobEscrowData page p (← escrowTermsCell page p)

/-- The slash cell of `buildStakeVaultDeploy`. -/
def slashCell (p : StakeVaultForm) : Option Cell :=
  endCell
    [storeAddress (page.addr p.treasury),
      storeAddress (page.addr p.redundancyPool),
      storeUint p.splitChallengerBps.toBigInt 16,
      storeUint p.splitRedundancyBps.toBigInt 16,
      storeUint p.splitBurnBps.toBigInt 16,
      storeUint p.splitTreasuryBps.toBigInt 16]

/-- The config cell of `buildStakeVaultDeploy`. -/
def vaultConfigCell (p : StakeVaultForm) (receiptCode slash : Cell) : Option Cell :=
  endCell
    [storeCoins (tonToNano p.minStakeTon),
      storeUint p.unbondingSecs.toBigInt 32,
      storeUint p.challengeWindowSecs.toBigInt 32,
      storeUint p.keeperGraceSecs.toBigInt 32,
      storeUint p.keeperBountyBps.toBigInt 16,
      storeAddress (page.addr p.slasher),
      storeAddress (page.addr p.upgradeAuthority),
      storeRef receiptCode,
      storeRef slash]

/-- A fresh upgrade cell. -/
def upgradeCell : Option Cell :=
  endCell [storeUint (some 0) 32, storeUint (some 0) 256, storeUint (some 0) 32]

/-- The data cell of `buildStakeVaultDeploy`. -/
def stakeVaultData (p : StakeVaultForm) (config upgrade : Cell) : Option Cell :=
  endCell
    [storeAddress (page.addr p.owner),
      storeCoins (some 0),
      storeCoins (some 0),
      storeUint (some 0) 32,
      storeCoins (some 0),
      storeUint ((u256 (p.bindingHashHex.getD "0")).map Int.ofNat) 256,
      storeRef config,
      storeRef upgrade,
      storeBit false]

/-- `buildStakeVaultDeploy` -/
def buildStakeVaultDeploy (p : StakeVaultForm) : Except DeployError Cell :=
  match page.codeCellOf "StakeVault", page.codeCellOf "StakeReceiptWallet" with
  | some _, some receiptCode => caught do
    let config ← vaultConfigCell page p receiptCode (← slashCell page p)
    stakeVaultData page p config (← upgradeCell)
  | _, _ => .error (.missing "StakeVault/receipt code BoC missing")

/-- The authorities of `buildRecordAnchorDeploy`. -/
def authoritiesCell (p : RecordAnchorForm) : Option Cell :=
  endCell
    [storeAddress (page.addr p.treasury),
      storeAddress (page.addr p.keeper),
      storeAddress (page.addr p.upgradeAuthority)]

/-- The config cell of `buildRecordAnchorDeploy`. -/
def anchorConfigCell (p : RecordAnchorForm) (authorities : Cell) : Option Cell :=
  endCell
    [storeCoins (tonToNano p.minStakeWeightTon),
      storeCoins (tonToNano p.disputeBondMinTon),
      storeAddress (page.addr p.verdictAuthority),
      storeRef authorities]

/-- The data cell of `buildRecordAnchorDeploy`. -/
def recordAnchorData (config : Cell) : Option Cell :=
  endCell
    [storeUint (some 0) 32,
      storeUint (some 0) 256,
      storeUint (some 0) 32,
      storeBit false,
      storeBit false,
      storeRef config,
      storeUint (some 0) 32]

/-- `buildRecordAnchorDeploy` -/
def buildRecordAnchorDeploy (p : RecordAnchorForm) : Except DeployError Cell :=
  match page.codeCellOf "RecordAnchor" with
  | none => .error (.missing "RecordAnchor code BoC missing")
  | some _ => caught do
    recordAnchorData (← anchorConfigCell page p (← authoritiesCell page p))

end Duckton.Web
