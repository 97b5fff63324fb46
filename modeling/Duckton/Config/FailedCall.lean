/-
  What a failed settings call leaves behind.

  `set` writes the runtime file last, after every check, so only a write that breaks off can
  change anything. The wallet group is different: an inline secret is written to its file while
  the parameters are still being read, before the other parameters, the merged configuration and
  the mainnet guard are looked at. `failedCallKeeps_iff` says exactly for which calls a failure
  still changes nothing; `rejected_wallet_call_replaces_mnemonic` is a call that is refused for
  its `api_key_file` and has replaced the stored mnemonic.
-/
import Duckton.Config.Store

namespace Duckton.Config

open Failing

variable {F G E : Type} (store : ConfigStore) (host : Host F) (schema : Schema F G E)

/-- A failed call leaves the runtime file and every file of the secrets directory as they were. -/
def FailedCallKeeps (group : String) (params : Params) (d : Disk) : Prop :=
  ∀ e d', store.applyGroup host schema group params d = .error e d' →
    d' .runtime = d .runtime ∧ ∀ name, d' (.secret name) = d (.secret name)

/-! ## The runtime file -/

/-- The directory of the runtime file is there or can be made. -/
def RuntimeDir : Prop :=
  ∀ parent, host.parent store.runtimePath = some parent → host.createDirAll parent = none

/-- The text that `set` writes to the runtime file. -/
def NewRuntime (pairs : List (Pair F)) (file : Option Contents) (text : String) : Prop :=
  ∃ runtime cfg, checkedRuntime host schema pairs file = .ok (runtime, cfg) ∧
    schema.toStringPretty runtime = .ok text

/-- The pairs give an acceptable configuration, and the runtime file takes it. -/
def RuntimeTaken (pairs : List (Pair F)) (file : Option Contents) : Prop :=
  RuntimeDir store host ∧
    ∃ text, NewRuntime host schema pairs file text ∧
      host.write store.runtimePath text.toUTF8 = .done

/-- A write of the runtime file that breaks off leaves what was there. -/
def RuntimeWhole (pairs : List (Pair F)) (file : Option Contents) : Prop :=
  RuntimeDir store host → ∀ text, NewRuntime host schema pairs file text →
    ∀ kept e, host.write store.runtimePath text.toUTF8 = .brokenOff kept e → file = some kept

variable {store host schema} {path text : String}

variable {bytes : Contents} {place : Place} {d : Disk} {pairs : List (Pair F)}

theorem outcome_eq_done :
    (host.outcome path bytes : Outcome (StoreError E) _) = .done ↔
      host.write path bytes = .done := by
  unfold Host.outcome
  cases host.write path bytes <;> simp

theorem outcome_eq_brokenOff {kept : Option Contents} {e : StoreError E} :
    host.outcome path bytes = .brokenOff kept e ↔
      ∃ part err, host.write path bytes = .brokenOff part err ∧ some part = kept ∧
        StoreError.io path err = e := by
  unfold Host.outcome
  cases host.write path bytes <;> simp

theorem createDirAll_eq_ok {dir : String} {u : Unit} :
    (createDirAll host dir : Except (StoreError E) Unit) = .ok u ↔
      host.createDirAll dir = none := by
  unfold createDirAll
  cases host.createDirAll dir <;> simp

theorem makeRuntimeDir_eq_ok {u : Unit} :
    (store.makeRuntimeDir host : Except (StoreError E) Unit) = .ok u ↔ RuntimeDir store host := by
  unfold ConfigStore.makeRuntimeDir RuntimeDir
  cases host.parent store.runtimePath with
  | none => simp
  | some parent => simp [createDirAll_eq_ok]

theorem printRuntime_eq_ok {runtime : Table F} :
    printRuntime schema runtime = .ok text ↔ schema.toStringPretty runtime = .ok text := by
  unfold printRuntime
  cases schema.toStringPretty runtime <;> simp

/-- A write of the store followed by something that leaves the same file alone. -/
theorem failsIn_fsWrite_bind {α : Type} {rest : Call E α} (hrest : Frames (fun d => d place) rest) :
    FailsIn (fun t => t = d) (fsWrite host path place text >>= fun _ => rest) d ↔
      (∀ kept e, host.write path text.toUTF8 = .brokenOff kept e → d place = some kept) ∧
      (host.write path text.toUTF8 = .done →
        (d place = some text.toUTF8 → FailsIn (fun t => t = d) rest d) ∧
        (d place ≠ some text.toUTF8 →
          Succeeds rest (Function.update d place (some text.toUTF8)))) := by
  rw [fsWrite, failsIn_write_bind hrest, WriteSafe, outcome_eq_done]
  refine and_congr_left' ⟨fun h kept e hbroken => ?_, fun h kept e hbroken => ?_⟩
  · exact h (some kept) _ ((outcome_eq_brokenOff).mpr ⟨kept, e, hbroken, rfl, rfl⟩)
  · obtain ⟨part, err, hwrite, rfl, -⟩ := (outcome_eq_brokenOff).mp hbroken
    exact h part err hwrite

theorem succeeds_fsWrite_bind {α : Type} {rest : Call E α} :
    Succeeds (fsWrite host path place text >>= fun _ => rest) d ↔
      host.write path text.toUTF8 = .done ∧
        Succeeds rest (Function.update d place (some text.toUTF8)) := by
  rw [fsWrite, succeeds_write_bind, outcome_eq_done]

/-- `set` as its checks followed by one write. -/
theorem set_eq (pairs : List (Pair F)) :
    store.set host schema pairs =
      (reads fun d => checkedRuntime host schema pairs (d .runtime)) >>= fun checked =>
        (reads fun _ => store.makeRuntimeDir host) >>= fun _ =>
          (reads fun _ => printRuntime schema checked.1) >>= fun text =>
            fsWrite host store.runtimePath .runtime text >>= fun _ => pure checked.2 := by
  simp only [ConfigStore.set, ConfigStore.writeRuntime, bind_assoc]

theorem succeeds_set :
    Succeeds (store.set host schema pairs) d ↔
      RuntimeTaken store host schema pairs (d .runtime) := by
  simp only [set_eq, succeeds_reads_bind, succeeds_fsWrite_bind, succeeds_pure, and_true,
    makeRuntimeDir_eq_ok, printRuntime_eq_ok]
  constructor
  · rintro ⟨⟨runtime, cfg⟩, hchecked, -, hdir, text, htext, hwrite⟩
    exact ⟨hdir, text, ⟨runtime, cfg, hchecked, htext⟩, hwrite⟩
  · rintro ⟨hdir, text, ⟨runtime, cfg, hchecked, htext⟩, hwrite⟩
    exact ⟨⟨runtime, cfg⟩, hchecked, (), hdir, text, htext, hwrite⟩

theorem failsIn_set :
    FailsIn (fun t => t = d) (store.set host schema pairs) d ↔
      RuntimeWhole store host schema pairs (d .runtime) := by
  simp only [set_eq, failsIn_reads_bind, makeRuntimeDir_eq_ok, printRuntime_eq_ok,
    failsIn_fsWrite_bind (frames_pure _), failsIn_pure, succeeds_pure, implies_true, and_true]
  constructor
  · rintro h hdir text ⟨runtime, cfg, hchecked, htext⟩
    exact h (runtime, cfg) hchecked () hdir text htext
  · rintro h ⟨runtime, cfg⟩ hchecked - hdir text htext
    exact h hdir text ⟨runtime, cfg, hchecked, htext⟩

theorem frames_set (pairs : List (Pair F)) (name : String) :
    Frames (fun d => d (.secret name)) (store.set host schema pairs) := by
  rw [set_eq]
  refine (frames_reads _).bind fun checked => (frames_reads _).bind fun _ =>
    (frames_reads _).bind fun text => Frames.bind ?_ fun _ => frames_pure _
  exact frames_write (by simp)

theorem RuntimeTaken.whole {file : Option Contents}
    (h : RuntimeTaken store host schema pairs file) :
    RuntimeWhole store host schema pairs file := by
  obtain ⟨-, text, ⟨runtime, cfg, hchecked, htext⟩, hdone⟩ := h
  rintro - text' ⟨runtime', cfg', hchecked', htext'⟩ kept e hbroken
  cases hchecked.symm.trans hchecked'
  cases htext.symm.trans htext'
  rw [hdone] at hbroken
  cases hbroken

/-! ## The secrets of a wallet -/

section Secrets

variable (store host) (net : TonNetwork) (params : Params) (field : SecretField)

/-- The secret that the call holds itself, if it does not refer to a file. -/
def inlineSecret : Option String :=
  if (params field.fileParam).isSome then none else params field.inlineParam

def secretPlace : Place :=
  .secret (safeName (field.secretName net))

def ConfigStore.secretPath : String :=
  joinPath store.secretsDir (safeName (field.secretName net))

/-- The pairs a secret gives once it has got through. -/
def ConfigStore.recordedSecret : List (Pair F) :=
  match params field.fileParam, params field.inlineParam with
  | some v, _ => [(field.path net, .string v)]
  | none, some _ => [(field.path net, .string (store.secretPath net field))]
  | none, none => []

/-- The disk once it has got through. -/
def storedSecret (d : Disk) : Disk :=
  match inlineSecret params field with
  | none => d
  | some secret => Function.update d (secretPlace net field) (some secret.toUTF8)

/-- The secret gets through: a file it refers to has an acceptable path, and an inline secret can be
    stored. -/
def SecretTaken : Prop :=
  (∀ v, params field.fileParam = some v →
    (validateSecretFilePath field.fileParam v : Except (StoreError E) Unit) = .ok ()) ∧
  ∀ secret, inlineSecret params field = some secret →
    host.createDirAll store.secretsDir = none ∧
      host.write (store.secretPath net field) secret.toUTF8 = .done

/-- A write of the secret that breaks off leaves what was there. -/
def SecretWhole (d : Disk) : Prop :=
  ∀ secret, inlineSecret params field = some secret →
    host.createDirAll store.secretsDir = none →
      ∀ kept e, host.write (store.secretPath net field) secret.toUTF8 = .brokenOff kept e →
        d (secretPlace net field) = some kept

/-- The call brings an inline secret that is not the stored one, and the disk takes it. -/
def SecretReplaced (d : Disk) : Prop :=
  ∃ secret, inlineSecret params field = some secret ∧
    host.createDirAll store.secretsDir = none ∧
      host.write (store.secretPath net field) secret.toUTF8 = .done ∧
        d (secretPlace net field) ≠ some secret.toUTF8

variable {store host net params field}

variable {d : Disk} {secret : String}

theorem SecretTaken.whole (h : SecretTaken (E := E) store host net params field) :
    SecretWhole store host net params field d := by
  intro secret hsecret _ kept e hbroken
  rw [(h.2 secret hsecret).2] at hbroken
  cases hbroken

variable {α : Type} {k : List (Pair F) → Call E α}

variable (store host net params field k) in
/-- A call refers to a file, which is one check, brings the secret itself, which is one write, or
    does neither. -/
theorem secretPairs_cases :
    (∃ v, params field.fileParam = some v ∧ inlineSecret params field = none ∧
      store.secretPairs host net params field >>= k =
        (reads fun _ => validateSecretFilePath field.fileParam v) >>= fun _ =>
          k (store.recordedSecret net params field)) ∨
    (∃ secret, params field.fileParam = none ∧ inlineSecret params field = some secret ∧
      store.secretPairs host net params field >>= k =
        (reads fun _ => createDirAll host store.secretsDir) >>= fun _ =>
          fsWrite host (store.secretPath net field) (secretPlace net field) secret >>= fun _ =>
            k (store.recordedSecret net params field)) ∨
    (params field.fileParam = none ∧ inlineSecret params field = none ∧
      store.secretPairs host net params field >>= k =
        k (store.recordedSecret net params field)) := by
  unfold inlineSecret ConfigStore.secretPairs ConfigStore.recordedSecret
  cases params field.fileParam with
  | some v => exact .inl ⟨v, rfl, rfl, by simp only [bind_assoc, pure_bind]⟩
  | none =>
    cases params field.inlineParam with
    | some secret =>
      refine .inr (.inl ⟨secret, rfl, rfl, ?_⟩)
      simp only [ConfigStore.storeSecret, bind_assoc, pure_bind]
      rfl
    | none => exact .inr (.inr ⟨rfl, rfl, pure_bind _ _⟩)

theorem succeeds_secretPairs_bind :
    Succeeds (store.secretPairs host net params field >>= k) d ↔
      SecretTaken (E := E) store host net params field ∧
        Succeeds (k (store.recordedSecret net params field)) (storedSecret net params field d) := by
  obtain ⟨v, hfile, hinline, hbind⟩ | ⟨secret, hfile, hinline, hbind⟩ | ⟨hfile, hinline, hbind⟩ :=
    secretPairs_cases store host net params field k
  · rw [hbind, succeeds_check_bind]
    simp [SecretTaken, storedSecret, hfile, hinline]
  · rw [hbind]
    simp [SecretTaken, storedSecret, hfile, hinline, succeeds_check_bind, succeeds_fsWrite_bind,
      createDirAll_eq_ok, and_assoc]
  · rw [hbind]
    simp [SecretTaken, storedSecret, hfile, hinline]

/-- A failure after a secret changes nothing: its own write must not break off, what follows a
    replaced secret must succeed, and otherwise what follows must change nothing. -/
theorem failsIn_secretPairs_bind
    (hk : Frames (fun d => d (secretPlace net field)) (k (store.recordedSecret net params field))) :
    FailsIn (fun t => t = d) (store.secretPairs host net params field >>= k) d ↔
      SecretWhole store host net params field d ∧
      (SecretReplaced store host net params field d →
        Succeeds (k (store.recordedSecret net params field)) (storedSecret net params field d)) ∧
      (SecretTaken (E := E) store host net params field →
        ¬ SecretReplaced store host net params field d →
          FailsIn (fun t => t = d) (k (store.recordedSecret net params field)) d) := by
  obtain ⟨v, hfile, hinline, hbind⟩ | ⟨secret, hfile, hinline, hbind⟩ | ⟨hfile, hinline, hbind⟩ :=
    secretPairs_cases store host net params field k
  · rw [hbind, failsIn_check_bind (Q := fun t => t = d) rfl]
    simp [SecretWhole, SecretReplaced, SecretTaken, hfile, hinline]
  · rw [hbind, failsIn_check_bind (Q := fun t => t = d) rfl]
    simp only [createDirAll_eq_ok, failsIn_fsWrite_bind hk, SecretWhole, SecretReplaced,
      SecretTaken, storedSecret, hfile, hinline, Option.some.injEq, forall_eq', exists_eq_left',
      reduceCtorEq, false_implies, implies_true, true_and]
    constructor
    · intro h
      refine ⟨fun hdir => (h hdir).1, fun hnew => ((h hnew.1).2 hnew.2.1).2 hnew.2.2, ?_⟩
      intro htaken hsame
      refine ((h htaken.1).2 htaken.2).1 ?_
      by_contra hne
      exact hsame ⟨htaken.1, htaken.2, hne⟩
    · rintro ⟨hwhole, hnew, hsame⟩ hdir
      refine ⟨hwhole hdir, fun hdone => ⟨fun heq => ?_, fun hne => hnew ⟨hdir, hdone, hne⟩⟩⟩
      exact hsame ⟨hdir, hdone⟩ fun hreplaced => hreplaced.2.2 heq
  · rw [hbind]
    simp [SecretWhole, SecretReplaced, SecretTaken, hfile, hinline]

/-- A call that brings a secret of either kind records where it is. -/
theorem recordedSecret_ne_nil (h : inlineSecret params field = some secret) :
    store.recordedSecret net params field ≠ ([] : List (Pair F)) := by
  unfold inlineSecret at h
  unfold ConfigStore.recordedSecret
  cases hfile : params field.fileParam with
  | some v => simp
  | none =>
    have hinline : params field.inlineParam = some secret := by simpa [hfile] using h
    simp [hinline]

theorem storedSecret_runtime (d : Disk) : storedSecret net params field d .runtime = d .runtime := by
  unfold storedSecret
  cases inlineSecret params field with
  | none => rfl
  | some secret => exact Function.update_of_ne (by simp [secretPlace]) _ _

theorem secretPlace_ne : secretPlace net .mnemonic ≠ secretPlace net .apiKey := by
  cases net <;> decide

theorem frames_secretPairs {place : Place} (h : place ≠ secretPlace net field) :
    Frames (fun d => d place) (store.secretPairs host net params field : Call E (List (Pair F))) := by
  rw [← bind_pure (store.secretPairs host net params field)]
  obtain ⟨v, -, -, hbind⟩ | ⟨secret, -, -, hbind⟩ | ⟨-, -, hbind⟩ :=
    secretPairs_cases store host net params field (pure : _ → Call E (List (Pair F)))
  · rw [hbind]
    exact (frames_reads _).bind fun _ => frames_pure _
  · rw [hbind]
    exact (frames_reads _).bind fun _ => (frames_write h).bind fun _ => frames_pure _
  · rw [hbind]
    exact frames_pure _

end Secrets

/-! ## Calls -/

theorem succeeds_applyPairs (h : pairs ≠ []) :
    Succeeds (store.applyPairs host schema pairs) d ↔
      RuntimeTaken store host schema pairs (d .runtime) := by
  rw [ConfigStore.applyPairs, if_neg (by simpa using h), succeeds_set]

theorem failsIn_applyPairs :
    FailsIn (fun t => t = d) (store.applyPairs host schema pairs) d ↔
      (pairs ≠ [] → RuntimeWhole store host schema pairs (d .runtime)) := by
  unfold ConfigStore.applyPairs
  by_cases h : pairs = []
  · rw [if_pos (by simpa using h)]
    exact ⟨fun _ hne => absurd h hne, fun _ => failsIn_reads rfl⟩
  · rw [if_neg (by simpa using h), failsIn_set]
    exact ⟨fun hwhole _ => hwhole, fun hwhole => hwhole h⟩

theorem frames_applyPairs (pairs : List (Pair F)) (name : String) :
    Frames (fun d => d (.secret name)) (store.applyPairs host schema pairs) := by
  unfold ConfigStore.applyPairs
  split_ifs
  · exact frames_reads _
  · exact frames_set pairs name

variable (store host schema) (net : TonNetwork) (params : Params)

/-- A pair for an argument that is taken as it is. -/
def givenText (key path : String) : List (Pair F) :=
  ((params key).map fun v => (path, .string v)).toList

theorem given_asString (key path : String) :
    (given params key path asString : Except (StoreError E) (List (Pair F))) =
      .ok (givenText params key path) := by
  unfold given givenText
  cases params key <;> rfl

/-- The pairs of a wallet call whose secrets get through. -/
def ConfigStore.walletPlan : List (Pair F) :=
  givenText params "rpc" ("economics." ++ net.asStr ++ ".rpc") ++
    givenText params "address" ("economics." ++ net.asStr ++ ".wallet.address") ++
      store.recordedSecret net params .mnemonic ++ store.recordedSecret net params .apiKey

/-- The end of a wallet call: the API key, then the runtime file. -/
def ConfigStore.afterMnemonic (mnemonic : List (Pair F)) : Call E G :=
  store.secretPairs host net params .apiKey >>= fun apiKey =>
    store.applyPairs host schema
      (givenText params "rpc" ("economics." ++ net.asStr ++ ".rpc") ++
        givenText params "address" ("economics." ++ net.asStr ++ ".wallet.address") ++
          mnemonic ++ apiKey)

/-- What has to have gone well before the secret is looked at. -/
def ReachesSecret : SecretField → Prop
  | .mnemonic => True
  | .apiKey => SecretTaken (E := E) store host net params .mnemonic

/-- What can still fail after the secret. -/
def PassesAfter (d : Disk) : SecretField → Prop
  | .mnemonic => SecretTaken (E := E) store host net params .apiKey ∧
      RuntimeTaken store host schema (store.walletPlan net params) (d .runtime)
  | .apiKey => RuntimeTaken store host schema (store.walletPlan net params) (d .runtime)

/-- The wallet calls whose failure changes nothing. -/
structure WalletKeeps (d : Disk) : Prop where
  secretWhole : ∀ field, ReachesSecret (E := E) store host net params field →
    SecretWhole store host net params field d
  secretKept : ∀ field, ReachesSecret (E := E) store host net params field →
    SecretReplaced store host net params field d → PassesAfter store host schema net params d field
  runtimeWhole : SecretTaken (E := E) store host net params .mnemonic →
    SecretTaken (E := E) store host net params .apiKey →
      (store.walletPlan net params : List (Pair F)) ≠ [] →
        RuntimeWhole store host schema (store.walletPlan net params) (d .runtime)

/-- No write breaks off and leaves something else, and a secret is replaced only by a wallet call
    that goes through. -/
def NothingLost (group : String) (params : Params) (d : Disk) : Prop :=
  if group = "wallet" then
    ∀ cfg, effective host schema (d .runtime) = .ok cfg →
      WalletKeeps store host schema (schema.network cfg) params d
  else
    ∀ pairs, settingPairs host schema group params (d .runtime) = .ok pairs → pairs ≠ [] →
      RuntimeWhole store host schema pairs (d .runtime)

theorem failedCallKeeps_iff_failsIn {group : String} {params : Params} :
    FailedCallKeeps store host schema group params d ↔
      FailsIn (fun t => t = d) (store.applyGroup host schema group params) d := by
  refine forall₃_congr fun e d' _ => ⟨fun h => ?_, ?_⟩
  · funext place
    cases place with
    | runtime => exact h.1
    | secret name => exact h.2 name
  · rintro rfl
    exact ⟨rfl, fun _ => rfl⟩

section Wallet

variable {store host schema net params}

theorem walletPlan_ne_nil {field : SecretField}
    (h : SecretReplaced store host net params field d) :
    store.walletPlan net params ≠ ([] : List (Pair F)) := by
  obtain ⟨secret, hinline, -⟩ := h
  have hrecorded : store.recordedSecret net params field ≠ ([] : List (Pair F)) :=
    recordedSecret_ne_nil hinline
  intro hnil
  obtain ⟨⟨-, hmnemonic⟩, hapiKey⟩ :=
    (List.append_eq_nil_iff.mp hnil).imp_left List.append_eq_nil_iff.mp
  cases field with
  | mnemonic => exact hrecorded hmnemonic
  | apiKey => exact hrecorded hapiKey

/-- A wallet call after the network is known. -/
theorem applyGroup_wallet (params : Params) :
    store.applyGroup host schema "wallet" params =
      (reads fun d => effective host schema (d .runtime)) >>= fun cfg =>
        store.secretPairs host (schema.network cfg) params .mnemonic >>=
          store.afterMnemonic host schema (schema.network cfg) params := by
  simp only [ConfigStore.applyGroup, ConfigStore.groupPairs, if_pos, ConfigStore.walletPairs,
    given_asString, bind_assoc, pure_bind]
  rfl

theorem succeeds_afterMnemonic
    (hplan : store.walletPlan net params ≠ ([] : List (Pair F))) :
    Succeeds (store.afterMnemonic host schema net params
        (store.recordedSecret net params .mnemonic)) (storedSecret net params .mnemonic d) ↔
      PassesAfter store host schema net params d .mnemonic := by
  rw [ConfigStore.afterMnemonic, succeeds_secretPairs_bind]
  refine and_congr_right fun _ => ?_
  rw [← ConfigStore.walletPlan, succeeds_applyPairs hplan,
    storedSecret_runtime, storedSecret_runtime]

theorem failsIn_afterMnemonic :
    FailsIn (fun t => t = d) (store.afterMnemonic host schema net params
        (store.recordedSecret net params .mnemonic)) d ↔
      SecretWhole store host net params .apiKey d ∧
      (SecretReplaced store host net params .apiKey d →
        PassesAfter store host schema net params d .apiKey) ∧
      (SecretTaken (E := E) store host net params .apiKey →
        ¬ SecretReplaced store host net params .apiKey d →
          (store.walletPlan net params : List (Pair F)) ≠ [] →
            RuntimeWhole store host schema (store.walletPlan net params) (d .runtime)) := by
  refine (failsIn_secretPairs_bind (by exact frames_applyPairs _ _)).trans ?_
  rw [← ConfigStore.walletPlan, failsIn_applyPairs]
  refine and_congr_right fun _ => and_congr_left fun _ => ?_
  refine forall_congr' fun hreplaced => ?_
  rw [succeeds_applyPairs (walletPlan_ne_nil hreplaced),
    storedSecret_runtime]
  rfl

theorem failsIn_wallet :
    FailsIn (fun t => t = d)
        (store.secretPairs host net params .mnemonic >>= store.afterMnemonic host schema net params)
        d ↔ WalletKeeps store host schema net params d := by
  have hframes : Frames (fun d => d (secretPlace net .mnemonic))
      (store.afterMnemonic host schema net params (store.recordedSecret net params .mnemonic)) :=
    (frames_secretPairs secretPlace_ne).bind fun _ =>
      frames_applyPairs _ _
  rw [failsIn_secretPairs_bind hframes, failsIn_afterMnemonic]
  constructor
  · rintro ⟨hwhole, hreplaced, hsame⟩
    -- a replaced mnemonic is followed by a success, which leaves nothing more to ask
    have hpasses : SecretReplaced store host net params .mnemonic d →
        PassesAfter store host schema net params d .mnemonic := fun h =>
      (succeeds_afterMnemonic (walletPlan_ne_nil h)).mp (hreplaced h)
    by_cases hnew : SecretReplaced store host net params .mnemonic d
    · obtain ⟨hapiKey, hruntime⟩ := hpasses hnew
      refine ⟨fun field _ => ?_, fun field _ h => ?_, fun _ _ _ => hruntime.whole⟩
      · cases field with
        | mnemonic => exact hwhole
        | apiKey => exact hapiKey.whole
      · cases field with
        | mnemonic => exact hpasses h
        | apiKey => exact hruntime
    · refine ⟨fun field hreach => ?_, fun field hreach h => ?_, fun hmnemonic hapiKey hplan => ?_⟩
      · cases field with
        | mnemonic => exact hwhole
        | apiKey => exact (hsame hreach hnew).1
      · cases field with
        | mnemonic => exact hpasses h
        | apiKey => exact (hsame hreach hnew).2.1 h
      · by_cases hnewKey : SecretReplaced store host net params .apiKey d
        · exact ((hsame hmnemonic hnew).2.1 hnewKey).whole
        · exact (hsame hmnemonic hnew).2.2 hapiKey hnewKey hplan
  · intro h
    refine ⟨h.secretWhole .mnemonic trivial, fun hnew => ?_, fun hmnemonic _ => ?_⟩
    · exact (succeeds_afterMnemonic (walletPlan_ne_nil hnew)).mpr
        (h.secretKept .mnemonic trivial hnew)
    · exact ⟨h.secretWhole .apiKey hmnemonic, h.secretKept .apiKey hmnemonic,
        fun hapiKey _ => h.runtimeWhole hmnemonic hapiKey⟩

end Wallet

/-- A failed settings call changes nothing exactly if no write of it breaks off and leaves something
    else, and no secret is replaced before a step that fails. -/
theorem failedCallKeeps_iff (group : String) (params : Params) (d : Disk) :
    FailedCallKeeps store host schema group params d ↔
      NothingLost store host schema group params d := by
  rw [failedCallKeeps_iff_failsIn, NothingLost]
  split_ifs with hgroup
  · rw [hgroup, applyGroup_wallet, failsIn_reads_bind (Q := fun t => t = d) rfl]
    exact forall₂_congr fun cfg _ => failsIn_wallet
  · rw [ConfigStore.applyGroup, ConfigStore.groupPairs, if_neg hgroup,
      failsIn_reads_bind (Q := fun t => t = d) rfl]
    exact forall₂_congr fun pairs _ => failsIn_applyPairs

section RejectedCall

/-- A host on which every write succeeds. -/
def soundHost : Host Unit where
  parseFloat _ := none
  toUppercase v := v
  parent _ := none
  readable := true
  createDirAll _ := none
  write _ _ := .done

/-- A configuration on testnet that accepts every setting. -/
def testnetSchema : Schema Unit Unit Unit where
  fromStr _ := .ok []
  toStringPretty _ := .ok ""
  load := .ok ()
  tryFrom _ := .ok (.table [])
  tryInto _ := .ok ()
  validate _ := .ok ()
  network _ := .testnet
  mainnetConfirmed _ := false

/-- A new mnemonic, and an API key file named by a relative path. -/
def relativeKeyFile : Params
  | "mnemonic" => some "new words"
  | "api_key_file" => some "key.txt"
  | _ => none

def storedMnemonic : Disk
  | .secret "testnet.mnemonic" => some "old words".toUTF8
  | _ => none

theorem rejected_wallet_call_replaces_mnemonic :
    ∃ d', ConfigStore.applyGroup ⟨"runtime.toml", "secrets"⟩ soundHost testnetSchema "wallet"
        relativeKeyFile storedMnemonic =
          .error (.badParam "api_key_file must be an absolute path (got 'key.txt')") d' ∧
      storedMnemonic (.secret "testnet.mnemonic") = some "old words".toUTF8 ∧
      d' (.secret "testnet.mnemonic") = some "new words".toUTF8 ∧
      ¬ FailedCallKeeps ⟨"runtime.toml", "secrets"⟩ soundHost testnetSchema "wallet"
        relativeKeyFile storedMnemonic := by
  have hcall : ConfigStore.applyGroup ⟨"runtime.toml", "secrets"⟩ soundHost testnetSchema "wallet"
      relativeKeyFile storedMnemonic =
        .error (.badParam "api_key_file must be an absolute path (got 'key.txt')")
          (Function.update storedMnemonic (.secret "testnet.mnemonic")
            (some "new words".toUTF8)) := rfl
  refine ⟨_, hcall, rfl, Function.update_self _ _ _, fun h => ?_⟩
  have hsame := (h _ _ hcall).2 "testnet.mnemonic"
  exact absurd hsame (by decide)

end RejectedCall

end Duckton.Config
