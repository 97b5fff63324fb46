/-
  Which connections a served job can open (node/node.rs: `host_worker`, `host_sandbox`,
  `host_remote_egress_confined`, `host_engine`; node/subprocess.rs: the child command).

  A host that reads remote object stores is meant to refuse every offer unless the operating
  system keeps its jobs to the allowed destinations.  `egress_confined_iff` says when the gate and
  the command that is built for a job agree on this: on macOS with `sandbox-exec`.  The other
  backends that the gate counts as filtering install nothing that looks at a connection.

  The controls are taken at their word: a Seatbelt profile lets a connection pass as its rules say,
  resource limits and `no_new_privs` let every connection pass.
-/
import Mathlib.Algebra.Order.BigOperators.Group.List
import Mathlib.Algebra.Order.Group.Nat
import Mathlib.Tactic.Set
import Duckton.Node.Sandbox

namespace Duckton.Node

open SExpr (Expr)
open Seatbelt (allow subpath outbound)

/-! ## Connections and the controls over them -/

inductive Transport where
  | tcp
  | udp
  deriving DecidableEq, Repr

structure Connection where
  transport : Transport
  host : String
  port : Nat
  deriving DecidableEq, Repr

namespace Seatbelt

def protocolMatches (protocol : String) : Transport → Bool
  | .tcp => protocol = "tcp" || protocol = "ip"
  | .udp => protocol = "udp" || protocol = "ip"

/-- The host of a pattern is `*` or `localhost`. -/
def patternMatches (pattern : String) (c : Connection) : Bool :=
  pattern = "*:*" || pattern = "*:" ++ toString c.port ||
    c.host = "localhost" &&
      (pattern = "localhost:*" || pattern = "localhost:" ++ toString c.port)

def filterMatches (c : Connection) : Expr → Bool
  | .list [.sym "remote", .sym protocol, .str pattern] =>
    protocolMatches protocol c.transport && patternMatches pattern c
  | _ => false

def isOutbound (operation : String) : Bool :=
  operation = "default" || operation = "network*" || operation = "network-outbound"

/-- What a rule says about a connection, if it applies. `systemSb` is the platform's base
    profile. -/
def verdict (systemSb : Connection → Option Bool) (c : Connection) : Expr → Option Bool
  | .list [.sym "import", .str name] => if name = "system.sb" then systemSb c else none
  | .list (.sym action :: .sym operation :: filters) =>
    if isOutbound operation && (filters.isEmpty || filters.any (filterMatches c)) then
      if action = "allow" then some true
      else if action = "deny" then some false
      else none
    else none
  | _ => none

/-- The last rule that applies decides. -/
def permits (systemSb : Connection → Option Bool) (rules : List Expr) (c : Connection) : Bool :=
  (rules.filterMap (verdict systemSb c)).getLast?.getD false

end Seatbelt

/-- Caps on resources and privileges leave the network alone. -/
def PreExec.lets : PreExec → Connection → Bool
  | .setrlimits _, _ => true
  | .noNewPrivs, _ => true

/-- The profile that a command runs its program under. Seatbelt is a part of macOS; elsewhere a
    program of that name installs nothing. -/
def ChildCommand.profile (cmd : ChildCommand) (m : Machine) : Option String :=
  if m.platform = .macos ∧ m.findSandboxExec = some cmd.program then
    match cmd.args with
    | "-p" :: profile :: _ => some profile
    | _ => none
  else none

/-- Whether the controls that are installed for the child let a connection pass. -/
def ChildCommand.lets (cmd : ChildCommand) (m : Machine) (systemSb : Connection → Option Bool)
    (c : Connection) : Bool :=
  cmd.preExec.all (·.lets c) &&
    match cmd.profile m with
    | some profile =>
      match SExpr.read profile.toList with
      | some rules => Seatbelt.permits systemSb rules c
      | none => false
    | none => true

/-! ## What a job may reach -/

def EgressEndpoint.matchesHost (ep : EgressEndpoint) (host : String) : Bool :=
  match ep.host.toList with
  | '*' :: '.' :: suffix => ('.' :: suffix).isSuffixOf host.toList
  | _ => host = ep.host

def EgressEndpoint.covers (ep : EgressEndpoint) (c : Connection) : Bool :=
  c.transport = .tcp && ep.matchesHost c.host && (ep.port = none || ep.port = some c.port)

/-- The allow-list as it stands: these destinations and nothing else. -/
def SandboxSpec.allows (spec : SandboxSpec) (c : Connection) : Bool :=
  spec.allowNetwork && spec.egress.any (·.covers c)

/-- The allow-list by ports alone, which is what packet rules can express: name resolution, and
    TCP to a port of some allowed destination. -/
def SandboxSpec.allowsPort (spec : SandboxSpec) (c : Connection) : Bool :=
  spec.allowNetwork && (c.port = 53 ||
    c.transport = .tcp && spec.egress.any fun ep => ep.port = none || ep.port = some c.port)

/-! ## The host -/

/-- The parts of the grid configuration that the host reads here. -/
structure HostConfig where
  sandbox : SandboxConfig
  storage : StorageConfig
  deriving DecidableEq, Repr

variable (m : Machine) (cfg : HostConfig)

def HostConfig.hostSandbox : SandboxConfig :=
  if cfg.sandbox = .default then .hostServingSecure else cfg.sandbox

/-- The backends that the gate takes to filter egress. -/
def SandboxBackend.egressCapable : SandboxBackend → Bool
  | .macosSeatbelt | .cgroupsSeccomp | .android | .windowsJobObject => true
  | _ => false

/-- `P2P_JOB_EXEC`, unless it is blank. -/
def Machine.executor : Option String :=
  m.jobExec.filter fun p => !(Text.trim p.toList).isEmpty

def Machine.hostRemoteEgressConfined : Bool :=
  let sb := cfg.hostSandbox
  if !sb.enabled || !sb.processPerJob then false
  else (effectiveBackend m.platform sb.backend).egressCapable && m.executor.isSome

def refusalReason : String :=
  "host refuses to serve: storage.enable_remote_access=true without an " ++
  "active OS egress filter (enable [sandbox] with process_per_job + an " ++
  "egress-capable backend and set P2P_JOB_EXEC, or run behind an OS-level egress " ++
  "firewall). Serving foreign jobs unconfined with open egress is an SSRF risk."

/-- Why `host_worker` has the worker refuse every offer, if it does. -/
def Machine.hostWorkerRefusal : Option String :=
  if cfg.storage.enableRemoteAccess && !m.hostRemoteEgressConfined cfg then some refusalReason
  else none

structure SubprocessEngine where
  sandbox : Sandbox
  program : String
  args : List String
  sandboxCfg : SandboxConfig
  storageCfg : StorageConfig
  deriving DecidableEq, Repr

inductive HostEngine where
  | inProcess
  | subprocess (engine : SubprocessEngine)
  deriving DecidableEq, Repr

def Machine.hostEngine : HostEngine :=
  let sb := cfg.hostSandbox
  if sb.processPerJob && sb.enabled then
    match m.executor with
    | some path => .subprocess ⟨.build m sb, path, [], sb, cfg.storage⟩
    | none => .inProcess
  else .inProcess

def SubprocessEngine.spec (engine : SubprocessEngine) (budget : JobBudget) (jobTmp : String) :
    SandboxSpec :=
  .resolve engine.sandboxCfg engine.storageCfg budget jobTmp

def SubprocessEngine.command (engine : SubprocessEngine) (platform : Platform)
    (budget : JobBudget) (jobTmp : String) : Except SandboxError ChildCommand :=
  engine.sandbox.command platform engine.program engine.args (engine.spec budget jobTmp)

/-! ## What the profile lets pass -/

section Profile

variable {systemSb : Connection → Option Bool} {c : Connection}

theorem verdict_baseRules :
    baseRules.filterMap (Seatbelt.verdict systemSb c) = false :: (systemSb c).toList := by
  cases hsys : systemSb c with
  | none | some b => simp [baseRules, Seatbelt.verdict, allow, Seatbelt.isOutbound, hsys]

theorem verdict_pathRules (spec : SandboxSpec) :
    (pathRules spec).filterMap (Seatbelt.verdict systemSb c) = [] := by
  rw [List.filterMap_eq_nil_iff]
  intro e he
  obtain ⟨operation, hop, p, rfl⟩ := mem_pathRules he
  rcases List.mem_pair.mp hop with rfl | rfl
  · rfl
  · rfl

theorem verdict_outbound (protocol pattern : String) :
    Seatbelt.verdict systemSb c (outbound protocol pattern) =
      if Seatbelt.protocolMatches protocol c.transport && Seatbelt.patternMatches pattern c then
        some true
      else none := by
  simp [outbound, allow, Seatbelt.remote, Seatbelt.verdict, Seatbelt.isOutbound,
    Seatbelt.filterMatches]

/-- A port is printed in digits, so its pattern matches that port alone. -/
theorem patternMatches_port {p : Nat} :
    Seatbelt.patternMatches ("*:" ++ toString p) c = true ↔ c.port = p := by
  have hdigits : ∀ d ∈ (toString p).toList, d.isDigit = true :=
    fun _ => Text.isDigit_of_mem_toString
  have htext : ∀ s : String, "*:" ++ toString p = s →
      s.toList = '*' :: ':' :: (toString p).toList := by
    rintro s rfl
    rw [String.toList_append]
    rfl
  have hany : "*:" ++ toString p ≠ "*:*" := by
    intro h
    have htail : ['*'] = (toString p).toList := (List.cons.inj (List.cons.inj (htext _ h)).2).2
    exact absurd (hdigits '*' (htail ▸ List.mem_singleton_self _)) (by decide)
  have hlocal : ∀ t : String, "*:" ++ toString p ≠ "localhost:" ++ t := by
    intro t h
    have hlist := htext _ h
    rw [String.toList_append] at hlist
    exact absurd (List.cons.inj hlist).1 (by decide)
  have hlocalAny : "*:" ++ toString p ≠ "localhost:*" := hlocal "*"
  have hsame : "*:" ++ toString p = "*:" ++ toString c.port ↔ c.port = p := by
    rw [String.append_right_inj]
    constructor
    · intro h
      exact Text.toString_inj (congrArg String.toList h.symm)
    · rintro rfl
      rfl
  unfold Seatbelt.patternMatches
  simp only [Bool.or_eq_true, Bool.and_eq_true, decide_eq_true_eq, hany, hsame, hlocal, hlocalAny,
    false_or, or_false, and_false]

theorem verdict_outboundRules {spec : SandboxSpec} {e : Expr} (he : e ∈ outboundRules spec) :
    Seatbelt.verdict systemSb c e = none ∨ Seatbelt.verdict systemSb c e = some true := by
  have hout : ∃ protocol pattern, e = outbound protocol pattern := by
    rcases (mem_outboundRules.mp he).2 with rfl | ⟨p, -, rfl⟩
    all_goals exact ⟨_, _, rfl⟩
  obtain ⟨protocol, pattern, rfl⟩ := hout
  rw [verdict_outbound]
  split_ifs
  · exact .inr rfl
  · exact .inl rfl

/-- The base profile opens nothing, so a connection passes just when an outbound rule says so. -/
theorem permits_seatbeltRules (hsys : systemSb c ≠ some true) (spec : SandboxSpec) :
    Seatbelt.permits systemSb (seatbeltRules spec) c = true ↔
      ∃ e ∈ outboundRules spec, Seatbelt.verdict systemSb c e = some true := by
  set net := (outboundRules spec).filterMap (Seatbelt.verdict systemSb c) with hnet
  have hmem : ∀ b, b ∈ net ↔ ∃ e ∈ outboundRules spec, Seatbelt.verdict systemSb c e = some b :=
    fun b => List.mem_filterMap
  have htrue : ∀ b ∈ net, b = true := by
    intro b hb
    obtain ⟨e, he, hv⟩ := (hmem b).mp hb
    rcases verdict_outboundRules he with hnone | hsome
    · exact absurd (hnone.symm.trans hv) nofun
    · exact Option.some.inj (hv.symm.trans hsome)
  have hlist : (seatbeltRules spec).filterMap (Seatbelt.verdict systemSb c) =
      (false :: (systemSb c).toList) ++ net := by
    unfold seatbeltRules
    rw [List.filterMap_append, List.filterMap_append, verdict_baseRules, verdict_pathRules,
      List.nil_append]
  unfold Seatbelt.permits
  rw [hlist, ← hmem true]
  by_cases hempty : net = []
  · rw [hempty, List.append_nil]
    cases hs : systemSb c with
    | none => simp
    | some b =>
      have hb : b ≠ true := fun h => hsys (hs.trans (congrArg some h))
      simpa using hb
  · have hlast := List.getLast_mem hempty
    rw [List.getLast?_append_of_ne_nil _ hempty, List.getLast?_eq_some_getLast hempty,
      htrue _ hlast]
    simpa [htrue _ hlast] using hlast

theorem seatbelt_permits_iff (hsys : systemSb c ≠ some true) (spec : SandboxSpec) :
    Seatbelt.permits systemSb (seatbeltRules spec) c = true ↔
      (spec.allowNetwork = true ∧ spec.egress ≠ []) ∧
        (c.transport = .udp ∧ c.port = 53 ∨
          c.transport = .tcp ∧ c.port ∈ tcpPorts spec.egress) := by
  have hudp : Seatbelt.verdict systemSb c (outbound "udp" "*:53") = some true ↔
      c.transport = .udp ∧ c.port = 53 := by
    have hdns : "*:53" = "*:" ++ toString 53 := rfl
    rw [hdns, verdict_outbound, ← patternMatches_port]
    cases c.transport with
    | tcp | udp => simp [Seatbelt.protocolMatches]
  have htcp : ∀ p : Nat, Seatbelt.verdict systemSb c (outbound "tcp" ("*:" ++ toString p)) =
      some true ↔ c.transport = .tcp ∧ c.port = p := by
    intro p
    rw [verdict_outbound, ← patternMatches_port]
    cases c.transport with
    | tcp | udp => simp [Seatbelt.protocolMatches]
  rw [permits_seatbeltRules hsys]
  simp only [mem_outboundRules]
  constructor
  · rintro ⟨e, ⟨hopen, rfl | ⟨p, hp, rfl⟩⟩, hv⟩
    · exact ⟨hopen, .inl (hudp.mp hv)⟩
    · obtain ⟨ht, rfl⟩ := (htcp p).mp hv
      exact ⟨hopen, .inr ⟨ht, hp⟩⟩
  · rintro ⟨hopen, hv | ⟨ht, hp⟩⟩
    · exact ⟨_, ⟨hopen, .inl rfl⟩, hudp.mpr hv⟩
    · exact ⟨_, ⟨hopen, .inr ⟨_, hp, rfl⟩⟩, (htcp _).mpr ⟨ht, rfl⟩⟩

end Profile

/-! ## What the child command lets pass -/

section Command

variable {m : Machine} {systemSb : Connection → Option Bool} {cmd : ChildCommand}

theorem preExec_lets (hooks : List PreExec) (c : Connection) : hooks.all (·.lets c) = true := by
  rw [List.all_eq_true]
  intro hook _
  cases hook with
  | setrlimits settings | noNewPrivs => rfl

theorem lets_of_no_profile (h : cmd.profile m = none) (c : Connection) :
    cmd.lets m systemSb c = true := by
  unfold ChildCommand.lets
  rw [preExec_lets, h]
  rfl

theorem lets_of_profile {spec : SandboxSpec}
    (h : cmd.profile m = some (String.ofList (seatbeltProfile spec))) (c : Connection) :
    cmd.lets m systemSb c = Seatbelt.permits systemSb (seatbeltRules spec) c := by
  unfold ChildCommand.lets
  rw [preExec_lets, h]
  dsimp only
  rw [String.toList_ofList, read_seatbeltProfile]
  rfl

/-- The limits are hooks: the program and its arguments stay. -/
theorem applyRlimits_same (cmd : ChildCommand) (limits : ResourceLimits) :
    (cmd.applyRlimits limits).program = cmd.program ∧
      (cmd.applyRlimits limits).args = cmd.args := by
  unfold ChildCommand.applyRlimits
  dsimp only
  split_ifs
  all_goals exact ⟨rfl, rfl⟩

/-- A command that runs its program directly, without arguments, runs it under no profile. -/
theorem profile_of_no_args (h : cmd.args = []) : cmd.profile m = none := by
  unfold ChildCommand.profile
  rw [h]
  split_ifs
  · rfl
  · rfl

end Command

/-! ## When the gate is right -/

/-- The gate is open: a sandboxed process for each job, an executor for it, and a backend that
    counts as filtering. -/
structure Machine.GateOpen (m : Machine) (sb : SandboxConfig) : Prop where
  enabled : sb.enabled = true
  processPerJob : sb.processPerJob = true
  capable : (effectiveBackend m.platform sb.backend).egressCapable = true
  executor : m.executor.isSome = true

/-- The backend is Seatbelt, and Seatbelt is there. -/
structure Machine.HasSeatbelt (m : Machine) (sb : SandboxConfig) : Prop where
  backend : effectiveBackend m.platform sb.backend = .macosSeatbelt
  platform : m.platform = .macos
  sandboxExec : m.findSandboxExec.isSome = true

/-- The host refuses to serve, or the child command of a job lets nothing pass but what the job's
    policy `allows`. -/
def Machine.Confines (m : Machine) (systemSb : Connection → Option Bool) (cfg : HostConfig)
    (budget : JobBudget) (jobTmp : String) (allows : SandboxSpec → Connection → Bool) : Prop :=
  (m.hostWorkerRefusal cfg).isSome = true ∨
    ∃ engine cmd, m.hostEngine cfg = .subprocess engine ∧
      engine.command m.platform budget jobTmp = .ok cmd ∧
      ∀ c, cmd.lets m systemSb c = true → allows (engine.spec budget jobTmp) c = true

/-- The specification that a job of the host is run under. -/
abbrev HostConfig.spec (cfg : HostConfig) (budget : JobBudget) (jobTmp : String) : SandboxSpec :=
  .resolve cfg.hostSandbox cfg.storage budget jobTmp

section Gate

variable {m : Machine} {systemSb : Connection → Option Bool} {cfg : HostConfig}
  {budget : JobBudget} {jobTmp : String}

theorem hostRemoteEgressConfined_iff :
    m.hostRemoteEgressConfined cfg = true ↔ m.GateOpen cfg.hostSandbox := by
  unfold Machine.hostRemoteEgressConfined
  dsimp only
  constructor
  · intro h
    split_ifs at h with hoff
    rw [Bool.or_eq_true, Bool.not_eq_true', Bool.not_eq_true', not_or, Bool.not_eq_false,
      Bool.not_eq_false] at hoff
    rw [Bool.and_eq_true] at h
    exact ⟨hoff.1, hoff.2, h.1, h.2⟩
  · intro h
    rw [h.enabled, h.processPerJob, h.capable, h.executor]
    rfl

theorem hostEngine_of_gateOpen (h : m.GateOpen cfg.hostSandbox) :
    ∃ path, m.hostEngine cfg =
      .subprocess ⟨.build m cfg.hostSandbox, path, [], cfg.hostSandbox, cfg.storage⟩ := by
  obtain ⟨path, hpath⟩ := Option.isSome_iff_exists.mp h.executor
  refine ⟨path, ?_⟩
  unfold Machine.hostEngine
  dsimp only
  rw [h.processPerJob, h.enabled, hpath]
  rfl

/-- Apart from Seatbelt on macOS, a backend runs the program under no profile. -/
theorem command_without_profile {sandbox : Sandbox} (hios : sandbox ≠ .ios)
    (hmac : ∀ se, sandbox = .macos (some se) → m.platform ≠ .macos) (path : String)
    (spec : SandboxSpec) :
    ∃ cmd, sandbox.command m.platform path [] spec = .ok cmd ∧ cmd.profile m = none := by
  cases sandbox with
  | noop | windows => exact ⟨_, rfl, profile_of_no_args rfl⟩
  | rlimit => exact ⟨_, rfl, profile_of_no_args (applyRlimits_same _ _).2⟩
  | macos sandboxExec =>
    cases sandboxExec with
    | none => exact ⟨_, rfl, profile_of_no_args (applyRlimits_same _ _).2⟩
    | some se => exact ⟨_, rfl, if_neg fun h => hmac se rfl h.1⟩
  | linux =>
    refine ⟨_, rfl, profile_of_no_args ?_⟩
    split_ifs
    all_goals exact (applyRlimits_same _ _).2
  | ios => exact absurd rfl hios

/-- What is built behind an open gate. -/
theorem build_of_gateOpen {sb : SandboxConfig} (hgate : m.GateOpen sb) :
    Sandbox.build m sb ∈ [Sandbox.noop, .linux, .windows] ∨
      effectiveBackend m.platform sb.backend = .macosSeatbelt ∧
        Sandbox.build m sb = .macos m.findSandboxExec := by
  have hcapable := hgate.capable
  unfold Sandbox.build
  rw [hgate.enabled]
  cases hb : effectiveBackend m.platform sb.backend with
  | macosSeatbelt =>
    cases m.platform.isUnix with
    | true => exact .inr ⟨rfl, rfl⟩
    | false => exact .inl List.mem_cons_self
  | cgroupsSeccomp | android =>
    cases m.platform.isUnix with
    | true => exact .inl (List.mem_cons_of_mem _ List.mem_cons_self)
    | false => exact .inl List.mem_cons_self
  | windowsJobObject =>
    refine .inl ?_
    show (if m.platform = .windows then Sandbox.windows else .noop) ∈ _
    split_ifs
    · decide
    · exact List.mem_cons_self
  | auto | none | rlimit | ios =>
    rw [hb] at hcapable
    exact nomatch hcapable

variable (hremote : cfg.storage.enableRemoteAccess = true)

include hremote

theorem hostWorkerRefusal_isSome_iff :
    (m.hostWorkerRefusal cfg).isSome = true ↔ ¬ m.GateOpen cfg.hostSandbox := by
  rw [← hostRemoteEgressConfined_iff]
  unfold Machine.hostWorkerRefusal
  rw [hremote]
  cases m.hostRemoteEgressConfined cfg with
  | true | false => simp

variable (hgate : m.GateOpen cfg.hostSandbox) {allows : SandboxSpec → Connection → Bool}

include hgate

/-- With the gate open, confinement is a matter of the command alone. -/
theorem confines_iff_of_command (lets : Connection → Bool)
    (hcmd : ∀ path, ∃ cmd, (Sandbox.build m cfg.hostSandbox).command m.platform path []
      (cfg.spec budget jobTmp) = .ok cmd ∧ ∀ c, cmd.lets m systemSb c = lets c) :
    m.Confines systemSb cfg budget jobTmp allows ↔
      ∀ c, lets c = true → allows (cfg.spec budget jobTmp) c = true := by
  have hserves : ¬ (m.hostWorkerRefusal cfg).isSome = true := by
    rw [hostWorkerRefusal_isSome_iff hremote, not_not]
    exact hgate
  obtain ⟨path, hengine⟩ := hostEngine_of_gateOpen hgate
  obtain ⟨cmd, hok, hlets⟩ := hcmd path
  constructor
  · intro h c hc
    obtain ⟨engine, cmd', heng', hok', hall⟩ := h.resolve_left hserves
    obtain rfl := HostEngine.subprocess.inj (hengine.symm.trans heng')
    obtain rfl := Except.ok.inj (hok.symm.trans hok')
    exact hall c ((hlets c).trans hc)
  · intro h
    exact .inr ⟨_, cmd, hengine, hok, fun c hc => h c ((hlets c).symm.trans hc)⟩

theorem confines_iff_of_seatbelt (hseat : m.HasSeatbelt cfg.hostSandbox) :
    m.Confines systemSb cfg budget jobTmp allows ↔
      ∀ c, Seatbelt.permits systemSb (seatbeltRules (cfg.spec budget jobTmp)) c = true →
        allows (cfg.spec budget jobTmp) c = true := by
  obtain ⟨se, hse⟩ := Option.isSome_iff_exists.mp hseat.sandboxExec
  have hbuild : Sandbox.build m cfg.hostSandbox = .macos (some se) := by
    unfold Sandbox.build
    rw [hgate.enabled, hseat.backend, hseat.platform, hse]
    rfl
  refine confines_iff_of_command hremote hgate _ fun path => ?_
  rw [hbuild]
  refine ⟨_, rfl, fun c => lets_of_profile ?_ c⟩
  unfold ChildCommand.profile
  rw [(applyRlimits_same _ _).1, (applyRlimits_same _ _).2, if_pos ⟨hseat.platform, hse⟩]
  rfl

/-- Every other backend that passes the gate leaves the network open. -/
theorem confines_iff_of_not_seatbelt (hseat : ¬ m.HasSeatbelt cfg.hostSandbox) :
    m.Confines systemSb cfg budget jobTmp allows ↔
      ∀ c, allows (cfg.spec budget jobTmp) c = true := by
  have hcmd : ∀ path spec, ∃ cmd,
      (Sandbox.build m cfg.hostSandbox).command m.platform path [] spec = .ok cmd ∧
        cmd.profile m = none := by
    intro path spec
    rcases build_of_gateOpen hgate with hbuild | ⟨hbackend, hbuild⟩
    · refine command_without_profile ?_ (fun se habs => ?_) path spec
      · rintro habs
        rw [habs] at hbuild
        exact absurd hbuild (by decide)
      · rw [habs] at hbuild
        simp at hbuild
    · rw [hbuild]
      have hios : Sandbox.macos m.findSandboxExec ≠ .ios := nofun
      refine command_without_profile hios (fun se hse hplatform => ?_) path spec
      have hsome : m.findSandboxExec.isSome = true :=
        Option.isSome_iff_exists.mpr ⟨se, Sandbox.macos.inj hse⟩
      exact hseat ⟨hbackend, hplatform, hsome⟩
  refine (confines_iff_of_command hremote hgate (fun _ => true) fun path => ?_).trans
    (forall_congr' fun c => forall_prop_of_true rfl)
  obtain ⟨cmd, hok, hnone⟩ := hcmd path (cfg.spec budget jobTmp)
  exact ⟨cmd, hok, lets_of_no_profile hnone⟩

end Gate

/-! ### Destinations off the list -/

/-- A finite list of endpoints leaves some host out. -/
theorem exists_unlisted_host (egress : List EgressEndpoint) :
    ∃ host, ∀ ep ∈ egress, ep.matchesHost host = false := by
  -- a name without a dot, longer than every listed one
  set n := (egress.map fun ep => ep.host.toList.length).sum + 1 with hn
  refine ⟨String.ofList (List.replicate n 'a'), fun ep hep => ?_⟩
  unfold EgressEndpoint.matchesHost
  split
  · rename_i suffix hwild
    rw [String.toList_ofList, Bool.eq_false_iff]
    intro habs
    have hdot : '.' ∈ List.replicate n 'a' :=
      (List.isSuffixOf_iff_suffix.mp habs).subset List.mem_cons_self
    exact absurd (List.eq_of_mem_replicate hdot) (by decide)
  · rw [decide_eq_false_iff_not]
    intro habs
    have hlen : ep.host.toList.length = n := by
      rw [← habs, String.toList_ofList, List.length_replicate]
    have hle : ep.host.toList.length ≤ (egress.map fun ep => ep.host.toList.length).sum :=
      List.le_sum_of_mem (List.mem_map.mpr ⟨ep, hep, rfl⟩)
    omega

theorem allows_of_unlisted {spec : SandboxSpec} {c : Connection}
    (h : ∀ ep ∈ spec.egress, ep.matchesHost c.host = false) : spec.allows c = false := by
  unfold SandboxSpec.allows
  have hnone : spec.egress.any (·.covers c) = false := by
    rw [List.any_eq_false]
    intro ep hep
    unfold EgressEndpoint.covers
    rw [h ep hep]
    simp
  rw [hnone, Bool.and_false]

theorem mem_egressPorts {egress : List EgressEndpoint} {p : Nat} :
    p ∈ egressPorts egress ↔ ∃ ep ∈ egress, ep.port = some p := by
  unfold egressPorts
  rw [List.mem_insertionSort, List.mem_dedup, List.mem_filterMap]

/-- The ports that the profile opens belong to allowed destinations. -/
theorem allowsPort_of_permits {systemSb : Connection → Option Bool} {c : Connection}
    (hsys : systemSb c ≠ some true) {spec : SandboxSpec}
    (h : Seatbelt.permits systemSb (seatbeltRules spec) c = true) : spec.allowsPort c = true := by
  obtain ⟨⟨hnet, hne⟩, hudp | ⟨htcp, hport⟩⟩ := (seatbelt_permits_iff hsys spec).mp h
  · unfold SandboxSpec.allowsPort
    rw [hnet, hudp.2]
    rfl
  · have hlisted : c.port = 53 ∨ ∃ ep ∈ spec.egress, ep.port = none ∨ ep.port = some c.port := by
      rcases List.mem_cons.mp hport with hdns | hport
      · exact .inl hdns
      refine .inr ?_
      split_ifs at hport with hempty
      · -- no endpoint names a port, so any of them stands for all ports
        obtain ⟨ep, hep⟩ := List.exists_mem_of_ne_nil _ hne
        refine ⟨ep, hep, .inl ?_⟩
        cases hp : ep.port with
        | none => rfl
        | some p =>
          have hmem : p ∈ egressPorts spec.egress := mem_egressPorts.mpr ⟨ep, hep, hp⟩
          rw [List.isEmpty_iff.mp hempty] at hmem
          exact absurd hmem List.not_mem_nil
      · obtain ⟨ep, hep, hp⟩ := mem_egressPorts.mp hport
        exact ⟨ep, hep, .inr hp⟩
    unfold SandboxSpec.allowsPort
    rw [hnet, htcp]
    simpa using hlisted

/-- Some connection is off the list, on whatever port it is opened. -/
theorem exists_not_allows (spec : SandboxSpec) (port : Nat) :
    ∃ host, spec.allows ⟨.tcp, host, port⟩ = false := by
  obtain ⟨host, hhost⟩ := exists_unlisted_host spec.egress
  exact ⟨host, allows_of_unlisted hhost⟩

theorem not_allowsPort (spec : SandboxSpec) : spec.allowsPort ⟨.udp, "", 1⟩ = false := by
  unfold SandboxSpec.allowsPort
  simp

section Confinement

variable {m : Machine} {systemSb : Connection → Option Bool} {cfg : HostConfig}

/-- Under Seatbelt the allowed destinations are kept to only if there are none: the profile cannot
    tell hosts apart. -/
theorem seatbelt_allows_iff (hsys : ∀ c, systemSb c ≠ some true)
    (hremote : cfg.storage.enableRemoteAccess = true) (budget : JobBudget) (jobTmp : String) :
    (∀ c, Seatbelt.permits systemSb (seatbeltRules (cfg.spec budget jobTmp)) c = true →
        (cfg.spec budget jobTmp).allows c = true) ↔
      deriveEgress cfg.hostSandbox cfg.storage = [] := by
  set spec := cfg.spec budget jobTmp with hspec
  have hegress : spec.egress = deriveEgress cfg.hostSandbox cfg.storage := rfl
  constructor
  · intro h
    by_contra hne
    obtain ⟨host, hnot⟩ := exists_not_allows spec 53
    have hnet : spec.allowNetwork = true := by
      show (cfg.storage.enableRemoteAccess && !(deriveEgress _ _).isEmpty) = true
      rw [hremote, List.isEmpty_eq_false_iff.mpr hne]
      rfl
    have hpass : Seatbelt.permits systemSb (seatbeltRules spec) ⟨.tcp, host, 53⟩ = true :=
      (seatbelt_permits_iff (hsys _) spec).mpr
        ⟨⟨hnet, hne⟩, .inr ⟨rfl, List.mem_cons_self⟩⟩
    rw [h _ hpass] at hnot
    exact nomatch hnot
  · intro hempty c hc
    obtain ⟨⟨-, hne⟩, -⟩ := (seatbelt_permits_iff (hsys c) spec).mp hc
    exact absurd (hegress.trans hempty) hne

end Confinement

/-- A remote-reading host keeps each job to the destinations of its policy just when the gate is
    closed or Seatbelt is in force with nothing to reach; and to the ports of its policy just when
    the gate is closed or Seatbelt is in force. -/
theorem egress_confined_iff (m : Machine) (systemSb : Connection → Option Bool)
    (hsys : ∀ c, systemSb c ≠ some true) (cfg : HostConfig)
    (hremote : cfg.storage.enableRemoteAccess = true) (budget : JobBudget) (jobTmp : String) :
    (m.Confines systemSb cfg budget jobTmp SandboxSpec.allows ↔
        m.GateOpen cfg.hostSandbox →
          m.HasSeatbelt cfg.hostSandbox ∧ deriveEgress cfg.hostSandbox cfg.storage = []) ∧
      (m.Confines systemSb cfg budget jobTmp SandboxSpec.allowsPort ↔
        m.GateOpen cfg.hostSandbox → m.HasSeatbelt cfg.hostSandbox) := by
  by_cases hgate : m.GateOpen cfg.hostSandbox
  · rw [forall_prop_of_true hgate, forall_prop_of_true hgate]
    by_cases hseat : m.HasSeatbelt cfg.hostSandbox
    · rw [confines_iff_of_seatbelt hremote hgate hseat, seatbelt_allows_iff hsys hremote,
        confines_iff_of_seatbelt hremote hgate hseat]
      refine ⟨(and_iff_right hseat).symm, fun _ => hseat, fun _ c hc => ?_⟩
      exact allowsPort_of_permits (hsys c) hc
    · rw [confines_iff_of_not_seatbelt hremote hgate hseat,
        confines_iff_of_not_seatbelt hremote hgate hseat]
      refine ⟨⟨fun h => ?_, fun h => absurd h.1 hseat⟩, ⟨fun h => ?_, fun h => absurd h hseat⟩⟩
      · obtain ⟨host, hnot⟩ := exists_not_allows (cfg.spec budget jobTmp) 443
        exact absurd ((h _).symm.trans hnot) nofun
      · exact absurd ((h _).symm.trans (not_allowsPort _)) nofun
  · refine ⟨⟨fun _ h => absurd h hgate, fun _ => ?_⟩, ⟨fun _ h => absurd h hgate, fun _ => ?_⟩⟩
    all_goals exact .inl ((hostWorkerRefusal_isSome_iff hremote).mpr hgate)

/-! ### Concrete hosts -/

def machineOn (platform : Platform) (files : List String) : Machine where
  platform := platform
  fileExists := fun f => files.contains f
  path := some "/usr/local/bin:/usr/bin"
  jobExec := some "/usr/local/bin/p2p-job-exec"

/-- Remote reads from the given providers, with the sandbox settings left alone. -/
def remoteReads (providers : List String) : HostConfig where
  sandbox := .default
  storage := ⟨none, some "eu-central-1", true, providers, ["/srv/fixtures"], []⟩

def smallBudget : JobBudget :=
  ⟨1073741824, 2⟩

/-- A base profile that opens nothing to the network. -/
def closedBase (_ : Connection) : Option Bool :=
  none

theorem macos_host_confines :
    (machineOn .macos ["/usr/bin/sandbox-exec"]).Confines closedBase (remoteReads ["s3"])
        smallBudget "/tmp/p2p-job-1" SandboxSpec.allowsPort ∧
      (machineOn .macos ["/usr/bin/sandbox-exec"]).Confines closedBase (remoteReads [])
        smallBudget "/tmp/p2p-job-1" SandboxSpec.allows :=
  ⟨(egress_confined_iff _ closedBase (fun _ => nofun) (remoteReads ["s3"]) rfl smallBudget
      "/tmp/p2p-job-1").2.mpr fun _ => ⟨rfl, rfl, rfl⟩,
    (egress_confined_iff _ closedBase (fun _ => nofun) (remoteReads []) rfl smallBudget
      "/tmp/p2p-job-1").1.mpr fun _ => ⟨⟨rfl, rfl, rfl⟩, rfl⟩⟩

/-- A Linux host with the secure defaults serves, and its jobs reach the metadata service. -/
theorem linux_host_leaks :
    (machineOn .linux []).hostWorkerRefusal (remoteReads ["s3"]) = none ∧
      ∃ engine cmd, (machineOn .linux []).hostEngine (remoteReads ["s3"]) = .subprocess engine ∧
        engine.command .linux smallBudget "/tmp/p2p-job-1" = .ok cmd ∧
        cmd.lets (machineOn .linux []) closedBase ⟨.tcp, "169.254.169.254", 80⟩ = true ∧
        (engine.spec smallBudget "/tmp/p2p-job-1").allows ⟨.tcp, "169.254.169.254", 80⟩ = false ∧
        (engine.spec smallBudget "/tmp/p2p-job-1").allowsPort ⟨.tcp, "169.254.169.254", 80⟩ =
          false :=
  ⟨by decide, _, _, rfl, rfl, by decide, by decide, by decide⟩

end Duckton.Node
