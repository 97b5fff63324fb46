/-
  The OS sandbox around a served job (node/sandbox.rs, node/sandbox/macos.rs, the `[sandbox]` and
  `[storage]` sections of config/lib.rs): the policy that is resolved for a job, the backends, and
  the child command that each of them builds.

  `read_seatbeltProfile` is about the text that is handed to `sandbox-exec`: read as an
  s-expression it is the intended list of rules, whatever the configured paths look like.
-/
import Mathlib.Data.List.Dedup
import Mathlib.Data.List.Sort
import Duckton.Lib.SExpr
import Duckton.Lib.Text

namespace Duckton.Node

open SExpr (Expr)

/-! ## Configuration -/

inductive SandboxBackend where
  | auto
  | none
  | rlimit
  | cgroupsSeccomp
  | macosSeatbelt
  | windowsJobObject
  | android
  | ios
  deriving DecidableEq, Repr

inductive SandboxLimitsMode where
  | inheritBudget
  | explicit
  deriving DecidableEq, Repr

inductive SandboxEgressMode where
  | inheritStorage
  | explicit
  deriving DecidableEq, Repr

inductive SandboxTempDirPolicy where
  | ephemeral
  | inherit
  | custom
  deriving DecidableEq, Repr

/-- Zero stands for no cap. -/
structure SandboxLimitsConfig where
  mode : SandboxLimitsMode
  memoryBytes : Nat
  cpuSeconds : Nat
  maxFileSizeBytes : Nat
  maxOpenFiles : Nat
  maxProcesses : Nat
  deriving DecidableEq, Repr

def SandboxLimitsConfig.default : SandboxLimitsConfig :=
  ⟨.inheritBudget, 0, 0, 0, 0, 0⟩

structure SandboxConfig where
  enabled : Bool
  backend : SandboxBackend
  limits : SandboxLimitsConfig
  egressMode : SandboxEgressMode
  egressAllowlist : List String
  tempDirPolicy : SandboxTempDirPolicy
  tempDir : Option String
  processPerJob : Bool
  deriving DecidableEq, Repr

def SandboxConfig.default : SandboxConfig where
  enabled := false
  backend := .auto
  limits := .default
  egressMode := .inheritStorage
  egressAllowlist := []
  tempDirPolicy := .ephemeral
  tempDir := Option.none
  processPerJob := false

/-- The posture for serving other nodes' jobs. -/
def SandboxConfig.hostServingSecure : SandboxConfig :=
  { SandboxConfig.default with enabled := true, processPerJob := true }

/-- The `[storage]` settings that the sandbox reads; the provider options in key order. -/
structure StorageConfig where
  endpoint : Option String
  region : Option String
  enableRemoteAccess : Bool
  enabledProviders : List String
  allowedLocalPaths : List String
  providerOptions : List (String × List (String × String))
  deriving DecidableEq, Repr

/-! ## The policy for one job -/

structure JobBudget where
  memoryBytes : Nat
  threads : Nat
  deriving DecidableEq, Repr

structure ResourceLimits where
  memoryBytes : Option Nat
  cpuSeconds : Option Nat
  maxFileSizeBytes : Option Nat
  maxOpenFiles : Option Nat
  maxProcesses : Option Nat
  deriving DecidableEq, Repr

def nonZero (n : Nat) : Option Nat :=
  if 0 < n then some n else Option.none

def ResourceLimits.resolve (cfg : SandboxConfig) (budget : JobBudget) : ResourceLimits :=
  let l := cfg.limits
  match l.mode with
  | .inheritBudget =>
    { memoryBytes := nonZero budget.memoryBytes
      cpuSeconds := nonZero l.cpuSeconds
      maxFileSizeBytes := nonZero l.maxFileSizeBytes
      maxOpenFiles := nonZero l.maxOpenFiles
      maxProcesses := if 0 < budget.threads then some (budget.threads + 8) else Option.none }
  | .explicit =>
    { memoryBytes := nonZero l.memoryBytes
      cpuSeconds := nonZero l.cpuSeconds
      maxFileSizeBytes := nonZero l.maxFileSizeBytes
      maxOpenFiles := nonZero l.maxOpenFiles
      maxProcesses := nonZero l.maxProcesses }

/-- An allowed destination; a host that starts with `*.` stands for all names with that suffix,
    and no port for every port. -/
structure EgressEndpoint where
  host : String
  port : Option Nat
  deriving DecidableEq, Repr

/-- A host, with a port perhaps, as it stands in a bare authority or in a URL. -/
def parseEndpoint (s : String) : Option EgressEndpoint :=
  let s := Text.trim s.toList
  if s.isEmpty then Option.none
  else
    let rest := ((Text.splitOnce "://".toList s).map Prod.snd).getD s
    let authority := (Text.split (fun c => c == '/' || c == '?' || c == '#') rest).headD []
    let authority := ((Text.rsplitOnce '@' authority).map Prod.snd).getD authority
    if authority.isEmpty then Option.none
    else match Text.rsplitOnce ':' authority with
      | some (host, port) =>
        if host.isEmpty then some ⟨String.ofList authority, Option.none⟩
        else match Text.parseUnsigned 16 port with
          | some p => some ⟨String.ofList host, some p⟩
          | Option.none => some ⟨String.ofList authority, Option.none⟩
      | Option.none => some ⟨String.ofList authority, Option.none⟩

def wellKnownEndpoints (provider : String) (region : Option String) : List EgressEndpoint :=
  if provider = "s3" then
    let region := (region.map fun r => Text.trim r.toList).filter fun r => !r.isEmpty
    ⟨"s3.amazonaws.com", some 443⟩ ::
      (region.map fun r =>
        (⟨String.ofList ("s3.".toList ++ r ++ ".amazonaws.com".toList), some 443⟩ :
          EgressEndpoint)).toList
  else if provider = "az" ∨ provider = "azure" ∨ provider = "abfss" then
    [⟨"*.blob.core.windows.net", some 443⟩, ⟨"*.dfs.core.windows.net", some 443⟩]
  else if provider = "gcs" ∨ provider = "gs" then [⟨"storage.googleapis.com", some 443⟩]
  else []

/-- Appends an endpoint that is not there yet. -/
def pushEndpoint (out : List EgressEndpoint) : Option EgressEndpoint → List EgressEndpoint
  | some ep => if ep ∈ out then out else out ++ [ep]
  | Option.none => out

/-- `EgressAllowList::derive` -/
def deriveEgress (cfg : SandboxConfig) (storage : StorageConfig) : List EgressEndpoint :=
  let inherited := match cfg.egressMode with
    | .inheritStorage =>
      parseEndpoint (storage.endpoint.getD "") ::
        (storage.providerOptions.filterMap fun (_, opts) => opts.lookup "endpoint").map
          parseEndpoint ++
        (storage.enabledProviders.flatMap fun p => wellKnownEndpoints p storage.region).map some
    | .explicit => []
  (inherited ++ cfg.egressAllowlist.map parseEndpoint).foldl pushEndpoint []

structure SandboxSpec where
  limits : ResourceLimits
  egress : List EgressEndpoint
  readOnlyPaths : List String
  writablePaths : List String
  allowNetwork : Bool
  deriving DecidableEq, Repr

def SandboxSpec.resolve (cfg : SandboxConfig) (storage : StorageConfig) (budget : JobBudget)
    (tempDir : String) : SandboxSpec where
  limits := .resolve cfg budget
  egress := deriveEgress cfg storage
  readOnlyPaths := storage.allowedLocalPaths
  writablePaths := [tempDir]
  allowNetwork := storage.enableRemoteAccess && !(deriveEgress cfg storage).isEmpty

/-! ## Child commands -/

inductive Resource where
  | addressSpace
  | cpu
  | fileSize
  | openFiles
  | processes
  deriving DecidableEq, Repr

/-- What runs in the forked child before it executes its program. -/
inductive PreExec where
  | setrlimits (settings : List (Resource × Nat))
  | noNewPrivs
  deriving DecidableEq, Repr

structure ChildCommand where
  program : String
  args : List String
  preExec : List PreExec
  deriving DecidableEq, Repr

def rlimitSettings (limits : ResourceLimits) : List (Resource × Nat) :=
  (limits.memoryBytes.map (Resource.addressSpace, ·)).toList ++
    (limits.cpuSeconds.map (Resource.cpu, ·)).toList ++
    (limits.maxFileSizeBytes.map (Resource.fileSize, ·)).toList ++
    (limits.maxOpenFiles.map (Resource.openFiles, ·)).toList ++
    (limits.maxProcesses.map (Resource.processes, ·)).toList

def ChildCommand.applyRlimits (cmd : ChildCommand) (limits : ResourceLimits) : ChildCommand :=
  let settings := rlimitSettings limits
  if settings.isEmpty then cmd
  else { cmd with preExec := cmd.preExec ++ [.setrlimits settings] }

/-- `linux::attach_seccomp_pre_exec` -/
def ChildCommand.attachSeccomp (cmd : ChildCommand) : ChildCommand :=
  { cmd with preExec := cmd.preExec ++ [.noNewPrivs] }

/-! ## The Seatbelt profile -/

def sbStr (s : List Char) : List Char :=
  Text.replace '"' ['\\', '"'] (Text.replace '\\' ['\\', '\\'] s)

/-- The ports of the endpoints that name one, in order. -/
def egressPorts (egress : List EgressEndpoint) : List Nat :=
  (egress.filterMap EgressEndpoint.port).dedup.insertionSort (· ≤ ·)

def trimmedPaths (paths : List String) : List (List Char) :=
  (paths.map fun p => Text.trim p.toList).filter fun p => !p.isEmpty

def readRule (path : List Char) : List Char :=
  "(allow file-read* (subpath \"".toList ++ sbStr path ++ "\"))\n".toList

def writeRule (path : List Char) : List Char :=
  "(allow file-write* (subpath \"".toList ++ sbStr path ++ "\"))\n".toList

def tcpRule (port : Nat) : List Char :=
  "(allow network-outbound (remote tcp \"*:".toList ++ (toString port).toList ++ "\"))\n".toList

variable (spec : SandboxSpec)

def networkRules : List Char :=
  if spec.allowNetwork && !spec.egress.isEmpty then
    "(allow network-outbound (remote udp \"*:53\"))\n".toList ++
      "(allow network-outbound (remote tcp \"*:53\"))\n".toList ++
      if (egressPorts spec.egress).isEmpty then
        "(allow network-outbound (remote tcp \"*:443\"))\n".toList
      else (egressPorts spec.egress).flatMap tcpRule
  else []

/-- `macos::seatbelt_profile` -/
def seatbeltProfile : List Char :=
  "(version 1)\n".toList ++ "(deny default)\n".toList ++ "(import \"system.sb\")\n".toList ++
    "(allow process-fork)\n".toList ++ "(allow process-exec)\n".toList ++
    (trimmedPaths spec.readOnlyPaths).flatMap readRule ++
    (trimmedPaths spec.writablePaths).flatMap (fun p => readRule p ++ writeRule p) ++
    networkRules spec

/-! ### The profile as a list of rules -/

namespace Seatbelt

def allow (operation : String) (filters : List Expr) : Expr :=
  .list (.sym "allow" :: .sym operation :: filters)

def subpath (path : List Char) : Expr :=
  .list [.sym "subpath", .str (String.ofList path)]

def remote (protocol pattern : String) : Expr :=
  .list [.sym "remote", .sym protocol, .str pattern]

def outbound (protocol pattern : String) : Expr :=
  allow "network-outbound" [remote protocol pattern]

end Seatbelt

open Seatbelt (allow subpath outbound)

def pathRules : List Expr :=
  (trimmedPaths spec.readOnlyPaths).map (fun p => allow "file-read*" [subpath p]) ++
    (trimmedPaths spec.writablePaths).flatMap fun p =>
      [allow "file-read*" [subpath p], allow "file-write*" [subpath p]]

/-- The ports that are opened for TCP when there is a network: for name resolution, and those of
    the endpoints. -/
def tcpPorts (egress : List EgressEndpoint) : List Nat :=
  53 :: if (egressPorts egress).isEmpty then [443] else egressPorts egress

def outboundRules : List Expr :=
  if spec.allowNetwork && !spec.egress.isEmpty then
    outbound "udp" "*:53" ::
      (tcpPorts spec.egress).map fun p => outbound "tcp" ("*:" ++ toString p)
  else []

def baseRules : List Expr :=
  [.list [.sym "version", .sym "1"], .list [.sym "deny", .sym "default"],
    .list [.sym "import", .str "system.sb"], allow "process-fork" [], allow "process-exec" []]

def seatbeltRules : List Expr :=
  baseRules ++ (pathRules spec ++ outboundRules spec)

theorem sbStr_eq_escape (s : List Char) : sbStr s = SExpr.escape s := by
  unfold sbStr Text.replace SExpr.escape
  rw [List.flatMap_assoc]
  congr 1
  funext c
  by_cases hslash : c = '\\'
  · subst hslash
    rfl
  · rw [if_neg hslash, List.flatMap_singleton]
    by_cases hquote : c = '"'
    · subst hquote
      rfl
    · have hneither : ¬ (c = '"' ∨ c = '\\') := fun h => h.elim hquote hslash
      rw [if_neg hquote, if_neg hneither]

theorem readRule_eq (p : List Char) :
    readRule p = SExpr.print (allow "file-read*" [subpath p]) ++ ['\n'] := by
  unfold readRule
  rw [sbStr_eq_escape]
  simp [allow, subpath, SExpr.print, SExpr.printTail]

example : readRule "/weird/\"path".toList =
    "(allow file-read* (subpath \"/weird/\\\"path\"))\n".toList := by
  decide

theorem writeRule_eq (p : List Char) :
    writeRule p = SExpr.print (allow "file-write*" [subpath p]) ++ ['\n'] := by
  unfold writeRule
  rw [sbStr_eq_escape]
  simp [allow, subpath, SExpr.print, SExpr.printTail]

/-- A port needs no escaping. -/
theorem escape_toString (n : Nat) : SExpr.escape (toString n).toList = (toString n).toList := by
  have hplain : ∀ c ∈ (toString n).toList, ¬ (c = '"' ∨ c = '\\') := by
    intro c hc
    have hdigit : c.isDigit = true := Text.isDigit_of_mem_toString hc
    rintro (rfl | rfl)
    all_goals exact absurd hdigit (by decide)
  unfold SExpr.escape
  rw [List.flatMap_congr fun c hc => if_neg (hplain c hc)]
  exact List.flatMap_singleton' _

theorem tcpRule_eq (port : Nat) :
    tcpRule port = SExpr.print (outbound "tcp" ("*:" ++ toString port)) ++ ['\n'] := by
  have hpattern : SExpr.escape ("*:" ++ toString port).toList =
      '*' :: ':' :: (toString port).toList := by
    rw [String.toList_append, SExpr.escape, List.flatMap_append, ← SExpr.escape, ← SExpr.escape,
      escape_toString]
    rfl
  unfold tcpRule outbound Seatbelt.allow Seatbelt.remote
  simp only [SExpr.printTail, SExpr.print, hpattern]
  simp

/-- The lines of the fixed ports are those of the general form. -/
theorem fixedRules_eq :
    "(allow network-outbound (remote udp \"*:53\"))\n".toList =
        SExpr.printLines [outbound "udp" "*:53"] ∧
      "(allow network-outbound (remote tcp \"*:53\"))\n".toList = tcpRule 53 ∧
      "(allow network-outbound (remote tcp \"*:443\"))\n".toList = tcpRule 443 := by
  decide

theorem networkRules_eq : networkRules spec = SExpr.printLines (outboundRules spec) := by
  have hlines : ∀ ports : List Nat, SExpr.printLines (outbound "udp" "*:53" ::
      ports.map fun p => outbound "tcp" ("*:" ++ toString p)) =
        SExpr.printLines [outbound "udp" "*:53"] ++ ports.flatMap tcpRule := by
    intro ports
    have hports : SExpr.printLines (ports.map fun p => outbound "tcp" ("*:" ++ toString p)) =
        ports.flatMap tcpRule := by
      unfold SExpr.printLines
      rw [List.flatMap_map]
      exact List.flatMap_congr fun p _ => (tcpRule_eq p).symm
    rw [← hports]
    exact SExpr.printLines_append [_] _
  obtain ⟨hudp, hdns, hhttps⟩ := fixedRules_eq
  unfold networkRules outboundRules
  rw [hudp, hdns, hhttps, tcpPorts]
  split_ifs
  · rw [hlines, List.flatMap_cons, List.flatMap_singleton, List.append_assoc]
  · rw [hlines, List.flatMap_cons, List.append_assoc]
  · rfl

theorem pathRules_eq : (trimmedPaths spec.readOnlyPaths).flatMap readRule ++
        (trimmedPaths spec.writablePaths).flatMap (fun p => readRule p ++ writeRule p) =
      SExpr.printLines (pathRules spec) := by
  have hwritable : (trimmedPaths spec.writablePaths).flatMap (fun p => readRule p ++ writeRule p) =
      SExpr.printLines ((trimmedPaths spec.writablePaths).flatMap fun p =>
        [allow "file-read*" [subpath p], allow "file-write*" [subpath p]]) := by
    unfold SExpr.printLines
    rw [List.flatMap_assoc]
    refine List.flatMap_congr fun p _ => ?_
    rw [readRule_eq, writeRule_eq, List.flatMap_cons, List.flatMap_singleton]
  have hreadOnly : (trimmedPaths spec.readOnlyPaths).flatMap readRule =
      SExpr.printLines ((trimmedPaths spec.readOnlyPaths).map fun p =>
        allow "file-read*" [subpath p]) := by
    unfold SExpr.printLines
    rw [List.flatMap_map]
    exact List.flatMap_congr fun p _ => readRule_eq p
  rw [pathRules, SExpr.printLines_append, hreadOnly, hwritable]

theorem baseRules_eq :
    "(version 1)\n".toList ++ "(deny default)\n".toList ++ "(import \"system.sb\")\n".toList ++
      "(allow process-fork)\n".toList ++ "(allow process-exec)\n".toList =
        SExpr.printLines baseRules := by
  decide

theorem seatbeltProfile_eq : seatbeltProfile spec = SExpr.printLines (seatbeltRules spec) := by
  unfold seatbeltProfile seatbeltRules
  rw [networkRules_eq, baseRules_eq, SExpr.printLines_append, SExpr.printLines_append,
    ← pathRules_eq]
  simp only [List.append_assoc]

variable {spec : SandboxSpec} {e : Expr}

theorem mem_pathRules (he : e ∈ pathRules spec) :
    ∃ operation ∈ ["file-read*", "file-write*"], ∃ p, e = allow operation [subpath p] := by
  rcases List.mem_append.mp he with hro | hrw
  · obtain ⟨p, -, rfl⟩ := List.mem_map.mp hro
    exact ⟨_, List.mem_cons_self, p, rfl⟩
  · obtain ⟨p, -, hp⟩ := List.mem_flatMap.mp hrw
    rcases List.mem_pair.mp hp with rfl | rfl
    · exact ⟨_, List.mem_cons_self, p, rfl⟩
    · exact ⟨_, List.mem_cons_of_mem _ List.mem_cons_self, p, rfl⟩

theorem mem_outboundRules :
    e ∈ outboundRules spec ↔ (spec.allowNetwork = true ∧ spec.egress ≠ []) ∧
      (e = outbound "udp" "*:53" ∨
        ∃ p ∈ tcpPorts spec.egress, e = outbound "tcp" ("*:" ++ toString p)) := by
  unfold outboundRules
  have hcond : (spec.allowNetwork && !spec.egress.isEmpty) = true ↔
      spec.allowNetwork = true ∧ spec.egress ≠ [] := by
    simp
  split_ifs with hnet
  · rw [List.mem_cons, List.mem_map, and_iff_right (hcond.mp hnet)]
    simp only [eq_comm]
  · rw [hcond] at hnet
    simp [hnet]

theorem proper_seatbeltRules (he : e ∈ seatbeltRules spec) :
    SExpr.proper e = true := by
  have hbase : ∀ e ∈ baseRules, SExpr.proper e = true := by decide
  rcases List.mem_append.mp he with he | he
  · exact hbase e he
  rcases List.mem_append.mp he with he | he
  · obtain ⟨operation, hop, p, rfl⟩ := mem_pathRules he
    rcases List.mem_pair.mp hop with rfl | rfl
    · rfl
    · rfl
  · rcases (mem_outboundRules.mp he).2 with rfl | ⟨p, -, rfl⟩
    · rfl
    · rfl

/-- What `sandbox-exec` reads is the list of rules, whatever stands in the paths. -/
theorem read_seatbeltProfile (spec : SandboxSpec) :
    SExpr.read (seatbeltProfile spec) = some (seatbeltRules spec) := by
  rw [seatbeltProfile_eq]
  exact SExpr.read_printLines fun e he => proper_seatbeltRules he

/-! ## Backends -/

/-- The compile target. -/
inductive Platform where
  | android
  | ios
  | linux
  | macos
  | windows
  | otherUnix
  | other
  deriving DecidableEq, Repr

def Platform.isUnix : Platform → Bool
  | .windows | .other => false
  | _ => true

/-- The machine a node runs on: its platform, its files, and the two environment variables that
    are read. -/
structure Machine where
  platform : Platform
  fileExists : String → Bool
  path : Option String
  jobExec : Option String

/-- `macos::find_sandbox_exec` -/
def Machine.findSandboxExec (m : Machine) : Option String :=
  if m.fileExists "/usr/bin/sandbox-exec" then some "/usr/bin/sandbox-exec"
  else match m.path with
    | some path =>
      ((Text.split (· == ':') path.toList).map fun dir =>
        if dir.isEmpty then "sandbox-exec"
        else if dir.getLast? = some '/' then String.ofList (dir ++ "sandbox-exec".toList)
        else String.ofList (dir ++ "/sandbox-exec".toList)).find? m.fileExists
    | Option.none => Option.none

def effectiveBackend (platform : Platform) : SandboxBackend → SandboxBackend
  | .auto => match platform with
    | .android => .android
    | .ios => .ios
    | .linux => .cgroupsSeccomp
    | .macos => .macosSeatbelt
    | .windows => .windowsJobObject
    | .otherUnix => .rlimit
    | .other => .none
  | other => other

/-- The implementations of the `Sandbox` trait. -/
inductive Sandbox where
  | noop
  | rlimit
  | macos (sandboxExec : Option String)
  | linux
  | ios
  | windows
  deriving DecidableEq, Repr

def Sandbox.build (m : Machine) (cfg : SandboxConfig) : Sandbox :=
  if !cfg.enabled then .noop
  else match effectiveBackend m.platform cfg.backend with
    | .none => .noop
    | .rlimit => if m.platform.isUnix then .rlimit else .noop
    | .macosSeatbelt => if m.platform.isUnix then .macos m.findSandboxExec else .noop
    | .cgroupsSeccomp | .android => if m.platform.isUnix then .linux else .noop
    | .windowsJobObject => if m.platform = .windows then .windows else .noop
    | .ios => .ios
    | .auto => .noop

inductive SandboxError where
  | unsupported (backend : SandboxBackend)
  deriving DecidableEq, Repr

/-- `Sandbox::command` -/
def Sandbox.command (platform : Platform) (program : String) (args : List String)
    (spec : SandboxSpec) : Sandbox → Except SandboxError ChildCommand
  | .noop => .ok ⟨program, args, []⟩
  | .rlimit => .ok ((⟨program, args, []⟩ : ChildCommand).applyRlimits spec.limits)
  | .macos (some se) =>
    .ok ((⟨se, ["-p", String.ofList (seatbeltProfile spec), "--", program] ++ args, []⟩ :
      ChildCommand).applyRlimits spec.limits)
  | .macos Option.none => .ok ((⟨program, args, []⟩ : ChildCommand).applyRlimits spec.limits)
  | .linux =>
    let cmd := (⟨program, args, []⟩ : ChildCommand).applyRlimits spec.limits
    .ok (if platform = .linux ∨ platform = .android then cmd.attachSeccomp else cmd)
  | .ios => .error (.unsupported .ios)
  | .windows => .ok ⟨program, args, []⟩

end Duckton.Node
