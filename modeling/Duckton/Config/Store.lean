/-
  The settings store behind the SQL setters: `ConfigStore` of the configuration crate.

  A call translates its parameters into (dotted path, value) pairs, merges them into the runtime
  file, checks the resulting configuration and writes the file. The wallet setter also writes raw
  secrets to files of their own. The files a call can change are the runtime file and the files of
  the secrets directory; the runtime file and the hand-edited base file are taken to lie outside
  that directory. Contents are bytes, and each write ends as the host lets it: one that breaks off
  leaves something else in the file, since `fs::write` truncates it first. Permissions are not
  modelled.

  The typed `GridConfig` and its checks are parameters, and so are the TOML text format and the
  parts of the standard library that depend on the platform or on Unicode tables.
-/
import Duckton.Config.Toml
import Duckton.Lib.Failing

namespace Duckton.Config

open Failing

/-! ## Errors and surroundings -/

/-- `StoreError`, over the errors of the typed configuration. -/
inductive StoreError (E : Type) where
  | config (e : E)
  | badParam (message : String)
  | blocked (message : String)
  | io (path error : String)
  deriving DecidableEq

inductive TonNetwork where
  | testnet
  | mainnet
  deriving DecidableEq, Repr

/-- `TonNetwork::as_str` -/
def TonNetwork.asStr : TonNetwork → String
  | .testnet => "testnet"
  | .mainnet => "mainnet"

abbrev Contents := ByteArray

/-- What the store takes from the machine it runs on. -/
structure Host (F : Type) where
  parseFloat : String → Option F
  toUppercase : String → String
  /-- `Path::parent` -/
  parent : String → Option String
  /-- Whether the runtime file can be opened for reading. -/
  readable : Bool
  /-- The error of `fs::create_dir_all`, if it fails. -/
  createDirAll : String → Option String
  /-- How `fs::write` of these bytes ends. -/
  write : String → Contents → Outcome String Contents

/-- The typed configuration `G` with its errors `E`, and the text format. -/
structure Schema (F G E : Type) where
  fromStr : String → Except String (Table F)
  toStringPretty : Table F → Except String String
  /-- `GridConfig::load` of the base file and the environment. -/
  load : Except E G
  tryFrom : G → Except String (Value F)
  tryInto : Value F → Except String G
  validate : G → Except E Unit
  network : G → TonNetwork
  mainnetConfirmed : G → Bool

structure ConfigStore where
  runtimePath : String
  secretsDir : String

/-- The named arguments of a call. -/
abbrev Params := String → Option String

abbrev Pair (F : Type) := String × Value F

/-! ## Free helpers -/

section Helpers

variable {F G E : Type}

/-- `trim` and `to_ascii_lowercase` -/
def normalized (v : String) : String :=
  String.ofList (Text.toAsciiLowercase (Text.trim v.toList))

/-- `friendly_settlement` -/
def friendlySettlement (s : String) : Except (StoreError E) String :=
  match normalized s with
  | "noop" | "free" | "off" => .ok "noop"
  | "mock" | "test" => .ok "mock"
  | "ton" | "onchain" | "on-chain" => .ok "onchain"
  | "channel" => .ok "channel"
  | other => .error (.badParam s!"unknown settlement '{other}' (noop|mock|ton)")

/-- `network_change_pairs` -/
def networkChangePairs (net : String) (confirm : Bool) : Except (StoreError E) (List (Pair F)) :=
  match normalized net with
  | "testnet" =>
    -- leaving mainnet takes the opt-in back
    .ok [("economics.network", .string "testnet"), ("economics.mainnet_confirmed", .boolean false)]
  | "mainnet" =>
    if !confirm then
      .error (.blocked ("switching to MAINNET puts REAL TON at stake. This requires an explicit " ++
        "opt-in: re-run `CALL p2p_economics(network => 'mainnet', confirm => true)`."))
    else
      .ok [("economics.network", .string "mainnet"), ("economics.mainnet_confirmed", .boolean true)]
  | other => .error (.badParam s!"unknown network '{other}' (testnet|mainnet)")

/-- `validate_one_of` -/
def validateOneOf (name v : String) (allowed : List String) : Except (StoreError E) Unit :=
  if allowed.any fun a => Text.eqIgnoreAsciiCase a.toList (Text.trim v.toList) then .ok ()
  else
    let choices := "|".intercalate allowed
    .error (.badParam s!"{name} must be one of [{choices}], got '{v}'")

/-- `parse_bool_raw` -/
def parseBoolRaw (v name : String) : Except (StoreError E) Bool :=
  match normalized v with
  | "true" | "1" | "yes" | "on" => .ok true
  | "false" | "0" | "no" | "off" => .ok false
  | other => .error (.badParam s!"{name} must be true/false, got '{other}'")

/-- `parse_bool` -/
def parseBool (v name : String) : Except (StoreError E) (Value F) :=
  .boolean <$> parseBoolRaw v name

/-- `parse_int` -/
def parseInt (v name : String) : Except (StoreError E) (Value F) :=
  match Text.parseSigned 64 (Text.trim v.toList) with
  | some i => .ok (.integer i)
  | none => .error (.badParam s!"{name} must be an integer, got '{v}'")

/-- `parse_float` -/
def parseFloat (host : Host F) (v name : String) : Except (StoreError E) (Value F) :=
  match host.parseFloat (String.ofList (Text.trim v.toList)) with
  | some x => .ok (.float x)
  | none => .error (.badParam s!"{name} must be a number, got '{v}'")

/-- `friendly_deser_error` -/
def friendlyDeserError (raw : String) : String :=
  if Text.contains "unknown field".toList raw.toList then
    s!"{raw} — check the key path (see `SELECT * FROM p2p_config()` for valid keys)"
  else s!"rejected: {raw}"

/-- `merge_runtime` -/
def mergeRuntime (schema : Schema F G E) (base : G) (runtime : Table F) :
    Except (StoreError E) G :=
  match schema.tryFrom base with
  | .error e => .error (.badParam s!"internal: serialize base config: {e}")
  | .ok value =>
    match schema.tryInto (deepMerge value (.table runtime)) with
    | .error e => .error (.badParam (friendlyDeserError e))
    | .ok cfg => .ok cfg

/-- `validate_secret_file_path`: an absolute path without a parent component. -/
def validateSecretFilePath (field value : String) : Except (StoreError E) Unit :=
  if value.toList.head? ≠ some '/' then
    .error (.badParam s!"{field} must be an absolute path (got '{value}')")
  else if "..".toList ∈ Text.split (· == '/') value.toList then
    .error (.badParam s!"{field} must not contain '..' path traversal (got '{value}')")
  else .ok ()

/-- `mainnet_blocked` -/
def Schema.mainnetBlocked (schema : Schema F G E) (cfg : G) : Bool :=
  schema.network cfg == .mainnet && !schema.mainnetConfirmed cfg

/-- The text of `guard_mainnet`. -/
def mainnetGuardText : String :=
  "mainnet is selected but NOT confirmed — real TON is at stake. Re-run " ++
    "`CALL p2p_economics(network => 'mainnet', confirm => true)` (or set " ++
    "economics.mainnet_confirmed = true) before any paid/on-chain action."

end Helpers

/-! ## Parameters to pairs -/

section Pairs

variable {F E : Type} (host : Host F) (params : Params)

/-- A pair for an argument, if it is given. -/
def given (key path : String) (parse : String → String → Except (StoreError E) (Value F)) :
    Except (StoreError E) (List (Pair F)) :=
  match params key with
  | none => .ok []
  | some v => do return [(path, ← parse v key)]

/-- A pair for an argument that has two names. -/
def givenAs (arg : Option String) (path : String)
    (parse : String → Except (StoreError E) (Value F)) : Except (StoreError E) (List (Pair F)) :=
  match arg with
  | none => .ok []
  | some v => do return [(path, ← parse v)]

/-- Arguments that are named as the last part of their path. -/
def givenEach (root : String) (parse : String → String → Except (StoreError E) (Value F))
    (keys : List String) : Except (StoreError E) (List (Pair F)) :=
  List.flatten <$> keys.mapM fun key => given params key (root ++ key) parse

def asString (v _key : String) : Except (StoreError E) (Value F) :=
  .ok (.string v)

/-- Group `economics`. -/
def economicsPairs : Except (StoreError E) (List (Pair F)) := do
  let enabled ← given params "enabled" "economics.enabled" parseBool
  let settlement ← given params "settlement" "economics.settlement"
    fun v _ => .string <$> friendlySettlement v
  let payment ← given params "default_payment" "economics.default_payment" fun v key => do
    validateOneOf key v ["free", "paid", "auto"]
    return .string v
  let recipient ← given params "fee_recipient" "economics.fee_recipient" asString
  let confirm ← (params "confirm").mapM fun v => parseBoolRaw v "confirm"
  let network ← match params "network", confirm with
    | some net, confirm => networkChangePairs net (confirm.getD false)
    | none, some c => pure [("economics.mainnet_confirmed", .boolean c)]
    | none, none => pure []
  return enabled ++ settlement ++ payment ++ recipient ++ network

/-- Group `planner`. -/
def plannerPairs : Except (StoreError E) (List (Pair F)) := do
  let prefer ← given params "prefer" "planner.prefer" fun v key => do
    validateOneOf key (normalized v) ["local", "remote", "auto"]
    return .string (normalized v)
  let local' ← givenAs ((params "local_execution").or (params "local_execution_enabled"))
    "planner.local_execution_enabled" fun v => parseBool v "local_execution"
  let enabled ← given params "enabled" "planner.enabled" parseBool
  return prefer ++ local' ++ enabled

/-- Group `trust`. -/
def trustPairs : Except (StoreError E) (List (Pair F)) := do
  let minTrust ← given params "min_trust" "trust.min_trust" (parseFloat host)
  let minAttest ← givenAs ((params "min_attest").or (params "min_attestation"))
    "trust.min_attestation" fun v => do
      let up := host.toUppercase (String.ofList (Text.trim v.toList))
      validateOneOf "min_attest" up ["L0", "L1", "L2"]
      return .string up
  return minTrust ++ minAttest

/-- Group `selection`. -/
def selectionPairs : Except (StoreError E) (List (Pair F)) := do
  let scheduler ← givenEach params "scheduler." parseInt ["replicas", "quorum"]
  let selection ← givenEach params "economics.selection." parseInt
    ["checksum_min", "n_public", "n_default", "n_max"]
  return scheduler ++ selection

/-- Group `fees`. -/
def feesPairs : Except (StoreError E) (List (Pair F)) :=
  givenEach params "economics.fees." (parseFloat host)
    ["platform_fee_pct", "participation_commission_frac", "verification_surcharge_pct",
      "bonus_aggressiveness"]

/-- Group `pricing`. -/
def pricingPairs : Except (StoreError E) (List (Pair F)) :=
  givenEach params "economics.pricing." parseInt ["unit_price", "max_bid"]

/-- Group `bidding`. -/
def biddingPairs : Except (StoreError E) (List (Pair F)) :=
  givenEach params "economics.ranking." (parseFloat host)
    ["w_quality", "w_stake", "w_price", "stake_reliability_floor"]

/-- Group `contracts`, for the active network. -/
def contractsPairs (net : TonNetwork) : Except (StoreError E) (List (Pair F)) :=
  givenEach params ("economics." ++ net.asStr ++ ".contracts.") asString
    ["stake_vault", "job_escrow", "record_anchor", "global_params"]

end Pairs

/-! ## Files -/

inductive Place where
  | runtime
  | secret (name : String)
  deriving DecidableEq

/-- The runtime file and the files of the secrets directory, as far as they exist. -/
abbrev Disk := Place → Option Contents

abbrev Call (E : Type) := EStateM (StoreError E) Disk

section Files

variable {F G E : Type}

/-- How a write of the host ends for the store. -/
def Host.outcome (host : Host F) (path : String) (bytes : Contents) :
    Outcome (StoreError E) (Option Contents) :=
  match host.write path bytes with
  | .done => .done
  | .refused e => .refused (.io path e)
  | .brokenOff kept e => .brokenOff (some kept) (.io path e)

/-- `fs::write` -/
def fsWrite (host : Host F) (path : String) (place : Place) (text : String) : Call E Unit :=
  write (host.outcome path text.toUTF8) place (some text.toUTF8)

/-- `fs::create_dir_all`, an effect on no contents. -/
def createDirAll (host : Host F) (dir : String) : Except (StoreError E) Unit :=
  match host.createDirAll dir with
  | none => .ok ()
  | some e => .error (.io dir e)

/-- `Path::join` with the name of a file. -/
def joinPath (dir name : String) : String :=
  if dir = "" ∨ dir.toList.getLast? = some '/' then dir ++ name else dir ++ "/" ++ name

/-- The characters `store_secret` lets through. -/
def safeName (name : String) : String :=
  String.ofList (name.toList.map fun c =>
    if c.isAlphanum || c == '.' || c == '-' || c == '_' then c else '_')

/-- `store_secret` -/
def ConfigStore.storeSecret (store : ConfigStore) (host : Host F) (name secret : String) :
    Call E String := do
  reads fun _ => createDirAll host store.secretsDir
  let path := joinPath store.secretsDir (safeName name)
  fsWrite host path (.secret (safeName name)) secret
  return path

/-- `read_runtime`: a file that cannot be read counts as an empty one. -/
def readRuntime (host : Host F) (schema : Schema F G E) (file : Option Contents) :
    Except (StoreError E) (Table F) :=
  match file.bind fun bytes => if host.readable then String.fromUTF8? bytes else none with
  | none => .ok []
  | some text =>
    match schema.fromStr text with
    | .ok table => .ok table
    | .error e => .error (.badParam s!"runtime config file is corrupt: {e}")

/-- The directory of the runtime file. -/
def ConfigStore.makeRuntimeDir (store : ConfigStore) (host : Host F) :
    Except (StoreError E) Unit :=
  match host.parent store.runtimePath with
  | none => .ok ()
  | some parent => createDirAll host parent

/-- The text of the runtime file. -/
def printRuntime (schema : Schema F G E) (runtime : Table F) : Except (StoreError E) String :=
  match schema.toStringPretty runtime with
  | .ok text => .ok text
  | .error e => .error (.badParam s!"serialize runtime config: {e}")

/-- `write_runtime` -/
def ConfigStore.writeRuntime (store : ConfigStore) (host : Host F) (schema : Schema F G E)
    (runtime : Table F) : Call E Unit := do
  reads fun _ => store.makeRuntimeDir host
  let text ← reads fun _ => printRuntime schema runtime
  fsWrite host store.runtimePath .runtime text

end Files

/-! ## Calls -/

section Calls

variable {F G E : Type} (store : ConfigStore) (host : Host F) (schema : Schema F G E)

/-- A check of the typed configuration. -/
def liftConfig {α : Type} : Except E α → Except (StoreError E) α :=
  Except.mapError StoreError.config

/-- `effective`, for the contents of the runtime file. -/
def effective (file : Option Contents) : Except (StoreError E) G := do
  let base ← liftConfig schema.load
  let runtime ← readRuntime host schema file
  let cfg ← mergeRuntime schema base runtime
  liftConfig (schema.validate cfg)
  return cfg

/-- The part of `set` before anything is written: the new table and its configuration. -/
def checkedRuntime (pairs : List (Pair F)) (file : Option Contents) :
    Except (StoreError E) (Table F × G) := do
  let runtime ← readRuntime host schema file
  let runtime := pairs.foldl (fun t (path, v) => setPath t path v) runtime
  let base ← liftConfig schema.load
  let cfg ← mergeRuntime schema base runtime
  liftConfig (schema.validate cfg)
  if schema.mainnetBlocked cfg then .error (.blocked mainnetGuardText)
  else return (runtime, cfg)

/-- `set` -/
def ConfigStore.set (pairs : List (Pair F)) : Call E G := do
  let checked ← reads fun d => checkedRuntime host schema pairs (d .runtime)
  store.writeRuntime host schema checked.1
  return checked.2

/-- The two secrets of a wallet. -/
inductive SecretField where
  | mnemonic
  | apiKey
  deriving DecidableEq

namespace SecretField

/-- The argument that refers to a file. -/
def fileParam : SecretField → String
  | mnemonic => "mnemonic_file"
  | apiKey => "api_key_file"

/-- The argument that holds the secret itself. -/
def inlineParam : SecretField → String
  | mnemonic => "mnemonic"
  | apiKey => "api_key"

/-- Where the path of the file is recorded. -/
def path (net : TonNetwork) : SecretField → String
  | mnemonic => "economics." ++ net.asStr ++ ".wallet.mnemonic_file"
  | apiKey => "economics." ++ net.asStr ++ ".api_key_file"

/-- The name under which the secret is stored. -/
def secretName (net : TonNetwork) : SecretField → String
  | mnemonic => net.asStr ++ ".mnemonic"
  | apiKey => net.asStr ++ ".api_key"

end SecretField

/-- A secret of the wallet group: a reference to a file goes before an inline secret. -/
def ConfigStore.secretPairs (net : TonNetwork) (params : Params) (field : SecretField) :
    Call E (List (Pair F)) :=
  match params field.fileParam, params field.inlineParam with
  | some v, _ => do
    reads fun _ => validateSecretFilePath field.fileParam v
    return [(field.path net, .string v)]
  | none, some secret => do
    let path ← store.storeSecret host (field.secretName net) secret
    return [(field.path net, .string path)]
  | none, none => return []

/-- Group `wallet`. -/
def ConfigStore.walletPairs (params : Params) : Call E (List (Pair F)) := do
  let cfg ← reads fun d => effective host schema (d .runtime)
  let net := schema.network cfg
  let rpc ← reads fun _ => given params "rpc" ("economics." ++ net.asStr ++ ".rpc") asString
  let address ← reads fun _ =>
    given params "address" ("economics." ++ net.asStr ++ ".wallet.address") asString
  let mnemonic ← store.secretPairs host net params .mnemonic
  let apiKey ← store.secretPairs host net params .apiKey
  return rpc ++ address ++ mnemonic ++ apiKey

/-- The groups of `group_pairs` that write nothing; a name that no group has is refused. -/
def settingPairs (group : String) (params : Params) (file : Option Contents) :
    Except (StoreError E) (List (Pair F)) :=
  match group with
  | "economics" => economicsPairs params
  | "planner" => plannerPairs params
  | "trust" => trustPairs host params
  | "selection" => selectionPairs params
  | "fees" => feesPairs host params
  | "pricing" => pricingPairs params
  | "bidding" => biddingPairs host params
  | "contracts" => do
    let cfg ← effective host schema file
    contractsPairs params (schema.network cfg)
  | other => .error (.badParam (s!"unknown settings group '{other}' " ++
      "(economics|trust|selection|fees|pricing|bidding|contracts|wallet|planner)"))

/-- `group_pairs` -/
def ConfigStore.groupPairs (group : String) (params : Params) : Call E (List (Pair F)) :=
  if group = "wallet" then store.walletPairs host schema params
  else reads fun d => settingPairs host schema group params (d .runtime)

/-- The end of `apply_group`: with nothing supplied the call only reports. -/
def ConfigStore.applyPairs (pairs : List (Pair F)) : Call E G :=
  if pairs.isEmpty then reads fun d => effective host schema (d .runtime)
  else store.set host schema pairs

/-- `apply_group` -/
def ConfigStore.applyGroup (group : String) (params : Params) : Call E G := do
  store.applyPairs host schema (← store.groupPairs host schema group params)

end Calls

end Duckton.Config
