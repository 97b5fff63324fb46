/-
  The record anchor of the TON rail (`TonRecordAnchor`, settlement/ton.rs).

  Records are appended to one list, and `submit_root` sends the root of the whole list for an epoch.
  Nothing is ever taken out of the list and no list of an earlier epoch is kept, so a proof is always
  a proof for the list of the moment. A record of an anchored epoch can be proved against the
  root of that epoch just as long as nothing is appended.

  What the transport answers in one call of `submit_root` is a parameter of the call. The replies may
  be anything; a call counts as successful if it returns a value.
-/
import Duckton.Lib.Octets
import Duckton.Settlement.Merkle
import Duckton.Settlement.TonRail
import Duckton.Ton.AnchorRuns

namespace Duckton.Settlement

open Duckton.Proto Duckton.Ton

/-! ## Records -/

/-- Texts are given by their UTF-8 bytes. -/
structure JobRecord where
  jobId : Bytes
  queryHash : Bytes
  requesterWallet : Bytes
  maxBid : Nat
  resultHash : Bytes
  epoch : UInt64
  prevRoot : Hash32
  paramsVersion : UInt32
  inputFingerprint : Bytes
  deriving DecidableEq, Repr

/-- A field with its length in front. -/
def lengthPrefixed (bytes : Bytes) : Bytes :=
  Octets.toLe 4 bytes.length ++ bytes

def JobRecord.canonicalBytes (r : JobRecord) : Bytes :=
  lengthPrefixed r.jobId ++ lengthPrefixed r.queryHash ++ lengthPrefixed r.requesterWallet ++
    Octets.toLe 16 r.maxBid ++ lengthPrefixed r.resultHash ++ Octets.toLe 8 r.epoch.toNat ++
    Cell.hashBytes r.prevRoot ++ Octets.toLe 4 r.paramsVersion.toNat ++
    lengthPrefixed r.inputFingerprint

def JobRecord.leaf (blake3 : Bytes → BitVec 256) (r : JobRecord) : Hash32 :=
  blake3 r.canonicalBytes

/-- Texts are short enough for their length fields; `maxBid` is a `u128`. -/
structure JobRecord.Fits (r : JobRecord) : Prop where
  jobId : r.jobId.length < 2 ^ 32
  queryHash : r.queryHash.length < 2 ^ 32
  requesterWallet : r.requesterWallet.length < 2 ^ 32
  maxBid : r.maxBid < 2 ^ 128
  resultHash : r.resultHash.length < 2 ^ 32
  inputFingerprint : r.inputFingerprint.length < 2 ^ 32

theorem eq_of_canonicalBytes {a b : JobRecord} (ha : a.Fits) (hb : b.Fits)
    (h : a.canonicalBytes = b.canonicalBytes) : a = b := by
  replace h := congrArg (· ++ []) h
  simp only [JobRecord.canonicalBytes, lengthPrefixed, List.append_assoc] at h
  obtain ⟨hjob, h⟩ := Octets.sized_append_inj ha.jobId hb.jobId h
  obtain ⟨hquery, h⟩ := Octets.sized_append_inj ha.queryHash hb.queryHash h
  obtain ⟨hwallet, h⟩ := Octets.sized_append_inj ha.requesterWallet hb.requesterWallet h
  obtain ⟨hbid, h⟩ := Octets.toLe_append_inj ha.maxBid hb.maxBid h
  obtain ⟨hresult, h⟩ := Octets.sized_append_inj ha.resultHash hb.resultHash h
  obtain ⟨hepoch, h⟩ := Octets.toLe_append_inj a.epoch.toNat_lt b.epoch.toNat_lt h
  obtain ⟨hroot, h⟩ := List.append_inj h (by simp)
  obtain ⟨hversion, h⟩ :=
    Octets.toLe_append_inj a.paramsVersion.toNat_lt b.paramsVersion.toNat_lt h
  obtain ⟨hinput, -⟩ := Octets.sized_append_inj ha.inputFingerprint hb.inputFingerprint h
  cases a
  cases b
  rw [JobRecord.mk.injEq]
  exact ⟨hjob, hquery, hwallet, hbid, hresult, UInt64.toNat_inj.mp hepoch,
    Cell.hashBytes_inj hroot, UInt32.toNat_inj.mp hversion, hinput⟩

/-- The encoding commits to every field, and so does the leaf where BLAKE3 does not collide. -/
theorem record_committed {a b : JobRecord} (ha : a.Fits) (hb : b.Fits) :
    (a.canonicalBytes = b.canonicalBytes → a = b) ∧
      ∀ blake3 : Bytes → BitVec 256,
        (blake3 a.canonicalBytes = blake3 b.canonicalBytes →
          a.canonicalBytes = b.canonicalBytes) →
        a.leaf blake3 = b.leaf blake3 → a = b :=
  ⟨eq_of_canonicalBytes ha hb, fun _ hno hleaf => eq_of_canonicalBytes ha hb (hno hleaf)⟩

/-- Two records that differ only in how two texts are split have different encodings. -/
theorem record_committed_at_split :
    (⟨[1, 2], [], [], 5, [], 1, 0, 0, []⟩ : JobRecord).canonicalBytes ≠
      (⟨[1], [2], [], 5, [], 1, 0, 0, []⟩ : JobRecord).canonicalBytes := by
  intro h
  have hsame := (record_committed (by constructor <;> decide) (by constructor <;> decide)).1 h
  exact absurd (congrArg JobRecord.jobId hsame) (by decide)

/-! ## The anchor -/

/-- `inner` and the query id counter. -/
structure TonRecordAnchor where
  records : List (Bytes × Hash32)
  prev : Hash32
  nextQueryId : Nat
  deriving DecidableEq, Repr

def TonRecordAnchor.new : TonRecordAnchor :=
  ⟨[], 0, 1⟩

variable (sha256 : Bytes → BitVec 256) (a : TonRecordAnchor) (epoch : UInt32)

def TonRecordAnchor.leaves : List Hash32 :=
  a.records.map Prod.snd

/-- The fields of the `AnchorSubmitRoot` body. -/
structure AnchorSubmit where
  queryId : Nat
  epoch : UInt32
  root : Hash32
  prevRoot : Hash32
  stakeWeight : Nat
  deriving DecidableEq, Repr

/-- The replies of the transport within one call. -/
structure AnchorReplies where
  anchorState : Except SettleError (Option (UInt32 × Hash32))
  lastTxLt : Except SettleError Nat
  sendInternal : Except SettleError String
  awaitConfirmation : Except SettleError Unit

/-- `saturating_add` on `u32`. -/
def succEpoch : UInt32 :=
  if epoch.toNat + 1 < 2 ^ 32 then epoch + 1 else epoch

variable (stakeWeight : Nat) (replies : AnchorReplies)

/-- The checks before anything is sent, up to the body of the message. -/
def TonRecordAnchor.submitBody : Except SettleError AnchorSubmit :=
  match tryMerkleRoot sha256 a.leaves with
  | none => .error (.backend "refusing to anchor an empty epoch (no records)")
  | some root =>
    if root = 0 then .error (.backend "refusing to anchor a zero root")
    else match replies.anchorState with
      | .error e => .error e
      | .ok none => .ok ⟨a.nextQueryId, epoch, root, a.prev, stakeWeight⟩
      | .ok (some (onchainEpoch, onchainLast)) =>
        if epoch ≠ succEpoch onchainEpoch then
          .error (.backend ("anchor epoch desync: submitting epoch " ++ toString epoch ++
            " but on-chain currentEpoch is " ++ toString onchainEpoch ++ " (expected " ++
            toString (succEpoch onchainEpoch) ++ ")"))
        else .ok ⟨a.nextQueryId, epoch, root, onchainLast, stakeWeight⟩

/-- A root is sent, and only once it is confirmed it becomes the previous root. -/
def TonRecordAnchor.submitRoot : TonRecordAnchor × Except SettleError String :=
  match a.submitBody sha256 epoch stakeWeight replies with
  | .error e => (a, .error e)
  | .ok body =>
    let sent := { a with nextQueryId := (a.nextQueryId + 1) % 2 ^ 64 }
    match replies.lastTxLt, replies.sendInternal, replies.awaitConfirmation with
    | .error e, _, _ => (sent, .error e)
    | .ok _, .error e, _ => (sent, .error e)
    | .ok _, .ok _, .error e => (sent, .error e)
    | .ok _, .ok res, .ok () => ({ sent with prev := body.root }, .ok res)

def TonRecordAnchor.append (blake3 : Bytes → BitVec 256) (a : TonRecordAnchor)
    (record : JobRecord) : TonRecordAnchor :=
  { a with records := a.records ++ [(record.jobId, record.leaf blake3)] }

def TonRecordAnchor.proveInclusion (job : Bytes) : Option InclusionProof := do
  let idx ← a.records.findIdx? fun r => r.1 == job
  buildProof sha256 a.leaves idx

/-! ## Runs -/

inductive Call where
  | append (record : JobRecord)
  | submitRoot (epoch : UInt32) (stakeWeight : Nat) (replies : AnchorReplies)

def TonRecordAnchor.step (sha256 blake3 : Bytes → BitVec 256) (a : TonRecordAnchor) :
    Call → TonRecordAnchor
  | .append record => a.append blake3 record
  | .submitRoot epoch stakeWeight replies => (a.submitRoot sha256 epoch stakeWeight replies).1

/-- The records that the calls append. -/
def appended : List Call → List JobRecord
  | [] => []
  | .append record :: calls => record :: appended calls
  | .submitRoot .. :: calls => appended calls

/-- The call in state `a` succeeds and anchors `root` for `epoch`. -/
def Anchors (root : Hash32) : Prop :=
  (∃ res, (a.submitRoot sha256 epoch stakeWeight replies).2 = .ok res) ∧
    ∃ body, a.submitBody sha256 epoch stakeWeight replies = .ok body ∧ body.root = root

/-- The anchor gives a proof of the record that verifies against the root. -/
def Provable (sha256 blake3 : Bytes → BitVec 256) (a : TonRecordAnchor) (root : Hash32)
    (record : JobRecord) : Prop :=
  ∃ proof, a.proveInclusion sha256 record.jobId = some proof ∧
    proof.leaf = record.leaf blake3 ∧ verifyInclusion sha256 root proof = true

/-- The contract accepts the anchor's proof of the record for the root. -/
def Disputable (sha256 blake3 : Bytes → BitVec 256) (a : TonRecordAnchor) (root : Hash32)
    (record : JobRecord) : Prop :=
  ∃ proof, a.proveInclusion sha256 record.jobId = some proof ∧
    RecordAnchor.computeRootFromProof sha256 (record.leaf blake3) (buildMerkleProofCell proof) =
      .ok root

/-! ## The list of a moment -/

variable (calls : List Call) (job : Bytes)

section Lists

variable {sha256 blake3 : Bytes → BitVec 256} {a : TonRecordAnchor}

/-- What is stored of a record. -/
def JobRecord.entry (blake3 : Bytes → BitVec 256) (r : JobRecord) : Bytes × Hash32 :=
  (r.jobId, r.leaf blake3)

theorem records_submitRoot :
    (a.submitRoot sha256 epoch stakeWeight replies).1.records = a.records := by
  unfold TonRecordAnchor.submitRoot
  split
  · rfl
  · split <;> rfl

/-- The list only grows, by the records that are appended. -/
theorem records_final : (Run.final (TonRecordAnchor.step sha256 blake3) a calls).records =
      a.records ++ (appended calls).map (JobRecord.entry blake3) := by
  induction calls generalizing a with
  | nil => simp [Run.final, appended]
  | cons call calls ih =>
    cases call with
    | append record =>
      show (Run.final _ (a.append blake3 record) calls).records = _
      rw [ih]
      simp [TonRecordAnchor.append, appended, JobRecord.entry]
    | submitRoot epoch stakeWeight replies =>
      show (Run.final _ (a.submitRoot sha256 epoch stakeWeight replies).1 calls).records = _
      rw [ih, records_submitRoot]
      rfl

theorem leaves_final : (Run.final (TonRecordAnchor.step sha256 blake3) a calls).leaves =
      a.leaves ++ (appended calls).map (JobRecord.leaf blake3) := by
  unfold TonRecordAnchor.leaves
  rw [records_final, List.map_append, List.map_map]
  rfl

/-- The root that a successful call anchors is that of the list. -/
theorem Anchors.root_eq {epoch : UInt32} {stakeWeight : Nat} {replies : AnchorReplies}
    {root : Hash32} (h : Anchors sha256 a epoch stakeWeight replies root) :
    tryMerkleRoot sha256 a.leaves = some root := by
  obtain ⟨-, body, hbody, rfl⟩ := h
  unfold TonRecordAnchor.submitBody at hbody
  split at hbody
  · cases hbody
  · rename_i root hroot
    rw [hroot]
    split at hbody
    · cases hbody
    · split at hbody
      · cases hbody
      · cases hbody
        rfl
      · split at hbody
        · cases hbody
        · cases hbody
          rfl

/-- The first entry of a job, and where it stands. -/
theorem findIdx?_getElem? (records : List (Bytes × Hash32)) :
    (records.findIdx? fun r => r.1 == job).bind (fun idx => (records.map Prod.snd)[idx]?) =
      (records.find? fun r => r.1 == job).map Prod.snd := by
  induction records with
  | nil => rfl
  | cons r records ih =>
    rw [List.findIdx?_cons, List.find?_cons]
    by_cases hjob : (r.1 == job) = true
    · simp [hjob]
    · simp only [hjob]
      rw [← ih]
      cases records.findIdx? fun r => r.1 == job <;> simp

/-- A proof is given for the first record of the job, and climbs to the root of the whole list. -/
theorem proveInclusion_iff (leaf root : Hash32) :
    (∃ proof, a.proveInclusion sha256 job = some proof ∧ proof.leaf = leaf ∧
        verifyInclusion sha256 root proof = true) ↔
      (a.records.find? fun r => r.1 == job).map Prod.snd = some leaf ∧
        tryMerkleRoot sha256 a.leaves = some root := by
  rw [← findIdx?_getElem?]
  unfold TonRecordAnchor.proveInclusion
  cases hidx : a.records.findIdx? fun r => r.1 == job with
  | none => simp
  | some idx =>
    constructor
    · rintro ⟨proof, hproof, rfl, hverify⟩
      have hbuild : buildProof sha256 a.leaves idx = some proof := hproof
      obtain ⟨hleaf, hclimb, -⟩ := buildProof_spec sha256 hbuild
      simp only [verifyInclusion, beq_iff_eq] at hverify
      exact ⟨hleaf, by rw [hclimb, hverify]⟩
    · rintro ⟨hleaf, hroot⟩
      have hbuild : buildProof sha256 a.leaves idx = some _ := buildProof_eq sha256 hleaf
      have hclimb := (buildProof_spec sha256 hbuild).2.1
      refine ⟨_, hbuild, rfl, ?_⟩
      rw [hroot, Option.some.injEq] at hclimb
      simp [verifyInclusion, ← hclimb]

end Lists

/-! ## Proofs against an anchored root -/

section Anchored

variable {sha256 blake3 : Bytes → BitVec 256}

/-- The first entry of a job that has a record is that of its first record. -/
theorem find?_entries (records : List JobRecord) :
    ((records.map (JobRecord.entry blake3)).find? fun r => r.1 == job).map Prod.snd =
      (records.find? fun r => r.jobId == job).map (JobRecord.leaf blake3) := by
  rw [List.find?_map, Option.map_map]
  rfl

theorem first_leaf_iff {records : List JobRecord} {record : JobRecord} (h : record ∈ records) :
    (records.find? fun r => r.jobId == record.jobId).map (JobRecord.leaf blake3) =
        some (record.leaf blake3) ↔
      ∀ first, records.find? (fun r => r.jobId == record.jobId) = some first →
        first.leaf blake3 = record.leaf blake3 := by
  cases hfind : records.find? fun r => r.jobId == record.jobId with
  | none =>
    have hnone := List.find?_eq_none.mp hfind record h
    simp at hnone
  | some first => simp

/-- What the contract recomputes from a proof that verifies. -/
theorem Provable.disputable {a : TonRecordAnchor} {root : Hash32} {record : JobRecord}
    (h : Provable sha256 blake3 a root record) (hlen : a.leaves.length ≤ 2 ^ 32) :
    Disputable sha256 blake3 a root record := by
  obtain ⟨proof, hproof, hleaf, hverify⟩ := h
  refine ⟨proof, hproof, ?_⟩
  obtain ⟨idx, -, hbuild⟩ := Option.bind_eq_some_iff.mp hproof
  simp only [verifyInclusion, beq_iff_eq] at hverify
  rw [← hleaf, computeRootFromProof_cell sha256 ((buildProof_spec sha256 hbuild).2.2 hlen), hverify]

/-- A record appended before a successful submission can be proved against the anchored root exactly
    if nothing was appended since the submission and the first record of its job has its leaf; and
    then the contract takes the proof too. -/
theorem anchored_record_provable_iff (sha256 blake3 : Bytes → BitVec 256) (before after : List Call)
    (epoch : UInt32) (stakeWeight : Nat) (replies : AnchorReplies) (root : Hash32)
    (record : JobRecord) (a a' : TonRecordAnchor)
    (ha : a = Run.final (TonRecordAnchor.step sha256 blake3) .new before)
    (ha' : a' = Run.final (TonRecordAnchor.step sha256 blake3) .new
      (before ++ .submitRoot epoch stakeWeight replies :: after))
    (hrecord : record ∈ appended before)
    (hanchored : Anchors sha256 a epoch stakeWeight replies root)
    (hideal : Merkle.NoCollision sha256
      (treeInputs sha256 a.leaves ++ treeInputs sha256 a'.leaves)) :
    (Provable sha256 blake3 a' root record ↔
      appended after = [] ∧
        ∀ first, (appended before).find? (fun r => r.jobId == record.jobId) = some first →
          first.leaf blake3 = record.leaf blake3) ∧
    (Provable sha256 blake3 a' root record → a'.leaves.length ≤ 2 ^ 32 →
      Disputable sha256 blake3 a' root record) := by
  refine ⟨?_, Provable.disputable⟩
  have hroot := hanchored.root_eq
  have hrecords : a'.records = (appended before).map (JobRecord.entry blake3) ++
      (appended after).map (JobRecord.entry blake3) := by
    rw [ha', Run.final_append]
    show (Run.final _ (TonRecordAnchor.submitRoot sha256 _ epoch stakeWeight replies).1
      after).records = _
    rw [records_final, records_submitRoot, records_final]
    rfl
  have hleaves : a'.leaves = a.leaves ++ (appended after).map (JobRecord.leaf blake3) := by
    have hbefore : a.leaves = (appended before).map (JobRecord.leaf blake3) := by
      rw [ha, leaves_final]
      rfl
    rw [hbefore, TonRecordAnchor.leaves, hrecords, List.map_append, List.map_map, List.map_map]
    rfl
  have hquiet : tryMerkleRoot sha256 a'.leaves = some root ↔ appended after = [] := by
    constructor
    · intro hroot'
      have heq := values_eq_of_root sha256 hideal hroot hroot'
      rw [hleaves] at heq
      simpa using heq
    · intro hnil
      rw [hleaves, hnil, List.map_nil, List.append_nil]
      exact hroot
  unfold Provable
  rw [proveInclusion_iff, hquiet, and_comm, ← first_leaf_iff hrecord]
  refine and_congr_right fun hnil => ?_
  rw [hrecords, hnil, List.map_nil, List.append_nil, find?_entries]

end Anchored

/-! ### Two records -/

def demoRecord (job : UInt8) : JobRecord :=
  ⟨[job], [], [], 0, [], 1, 0, 0, []⟩

def confirmed : AnchorReplies :=
  ⟨.ok none, .ok 0, .ok "tx", .ok ()⟩

def demoAnchor (calls : List Call) : TonRecordAnchor :=
  Run.final (TonRecordAnchor.step foldDigest foldDigest) .new calls

/-- The root of the first record alone. -/
def demoRoot : Hash32 :=
  hashLeaf foldDigest ((demoRecord 1).leaf foldDigest)

theorem demo_anchors :
    Anchors foldDigest (demoAnchor [.append (demoRecord 1)]) 1 0 confirmed demoRoot := by
  have hroot : tryMerkleRoot foldDigest (demoAnchor [.append (demoRecord 1)]).leaves =
      some demoRoot := by
    rw [tryMerkleRoot_eq, Merkle.root_of_le _ (by decide)]
    rfl
  have hzero : demoRoot ≠ 0 := by decide +kernel
  have hbody : (demoAnchor [.append (demoRecord 1)]).submitBody foldDigest 1 0 confirmed =
      .ok ⟨1, 1, demoRoot, 0, 0⟩ := by
    unfold TonRecordAnchor.submitBody
    rw [hroot]
    simp only [if_neg hzero]
    rfl
  refine ⟨⟨"tx", ?_⟩, _, hbody, rfl⟩
  unfold TonRecordAnchor.submitRoot
  rw [hbody]
  rfl

/-- The first record is anchored for epoch 1, then a second one is appended: the proof of the first
    no longer verifies against the root of epoch 1. -/
theorem later_append_unproves :
    Anchors foldDigest (demoAnchor [.append (demoRecord 1)]) 1 0 confirmed demoRoot ∧
      ¬ Provable foldDigest foldDigest
        (demoAnchor [.append (demoRecord 1), .submitRoot 1 0 confirmed, .append (demoRecord 2)])
        demoRoot (demoRecord 1) := by
  refine ⟨demo_anchors, ?_⟩
  intro hprovable
  have hroot := (proveInclusion_iff _ _ _).mp hprovable
  have hleaves : (demoAnchor [.append (demoRecord 1), .submitRoot 1 0 confirmed,
      .append (demoRecord 2)]).leaves =
      [(demoRecord 1).leaf foldDigest, (demoRecord 2).leaf foldDigest] := by
    unfold demoAnchor
    rw [leaves_final]
    rfl
  have hpair : Merkle.root (hashNode foldDigest) [demoRoot,
      hashLeaf foldDigest ((demoRecord 2).leaf foldDigest)] =
      some (hashNode foldDigest demoRoot (hashLeaf foldDigest ((demoRecord 2).leaf foldDigest))) := by
    rw [Merkle.root_of_lt _ (by decide), Merkle.root_of_le _ (by decide)]
    rfl
  have hsame := hroot.2
  rw [hleaves, tryMerkleRoot_eq] at hsame
  have heq := hpair.symm.trans hsame
  revert heq
  decide +kernel

/-- As long as nothing is appended the record stays provable. -/
theorem anchored_record_stays_provable :
    Provable foldDigest foldDigest
      (demoAnchor [.append (demoRecord 1), .submitRoot 1 0 confirmed]) demoRoot (demoRecord 1) := by
  have hleaves : (demoAnchor [.append (demoRecord 1), .submitRoot 1 0 confirmed]).leaves =
      (demoAnchor [.append (demoRecord 1)]).leaves := by
    unfold demoAnchor
    rw [leaves_final, leaves_final]
    rfl
  have hideal : Merkle.NoCollision foldDigest
      (treeInputs foldDigest (demoAnchor [.append (demoRecord 1)]).leaves ++
        treeInputs foldDigest (demoAnchor [.append (demoRecord 1), .submitRoot 1 0 confirmed]).leaves) := by
    rw [hleaves]
    have hone : treeInputs foldDigest (demoAnchor [.append (demoRecord 1)]).leaves =
        [leafInput ((demoRecord 1).leaf foldDigest)] := by
      unfold treeInputs Merkle.Tree.ofList
      rw [Merkle.root_of_le _ (by decide)]
      rfl
    rw [hone]
    intro x hx y hy _
    simp only [List.mem_append, List.mem_singleton, or_self] at hx hy
    rw [hx, hy]
  refine ((anchored_record_provable_iff foldDigest foldDigest [.append (demoRecord 1)] [] 1 0
    confirmed demoRoot (demoRecord 1) _ _ rfl rfl List.mem_cons_self demo_anchors hideal).1).mpr ?_
  refine ⟨rfl, ?_⟩
  intro first hfirst
  cases hfirst
  rfl

/-! ## Disputes -/

/-- A stored dispute has a proof against the root of its epoch, and unless the digest collides it is
    about a leaf of the list with that root. -/
def DisputesLeaves (s : RecordAnchor.AnchorStorage) : Prop :=
  ∀ id d, s.disputes.lookup id = some d →
    ∃ root proof, s.roots.lookup d.epoch = some root ∧ proof.leaf = d.leaf ∧
      verifyInclusion sha256 root proof = true ∧
      ∀ values, Merkle.NoCollision sha256 (treeInputs sha256 values ++ proofInputs sha256 proof) →
        tryMerkleRoot sha256 values = some root → d.leaf ∈ values

open RecordAnchor in
/-- In every run of the contract, whoever opens a dispute and whatever cells it comes with. -/
theorem always_disputesLeaves (config : AnchorConfig) (upgradeDelay : Nat) (code : Cell)
    (balance : Nat) (events : List Event) : DisputesLeaves sha256 (Run.final (step sha256)
      (deployed config upgradeDelay code balance) events).storage := by
  intro id d hd
  obtain ⟨before, inMsg, queryId, cells, root, stays, after, rfl, hroot, hcells, -⟩ :=
    disputedIn_of_lookup sha256 config upgradeDelay code balance events id d hd
  rw [computeRootFromProof, hashLeaf_eq] at hcells
  obtain ⟨siblings, hclimb⟩ := exists_siblings sha256 hcells
  have hverify : verifyInclusion sha256 root ⟨d.leaf, siblings⟩ = true := by
    rw [verifyInclusion, hclimb, beq_self_eq_true]
  refine ⟨root, ⟨d.leaf, siblings⟩, ?_, rfl, hverify, fun values hno hvalues =>
    leaf_mem_of_verifyInclusion sha256 hno hvalues hverify⟩
  -- the root of an epoch stays
  have hstart := chainInv_deployed config upgradeDelay code balance
  have hinv := (always_chainInv sha256 hstart before).last
  rw [Run.final_append]
  exact (extends_final sha256 hinv _).roots d.epoch root hroot

end Duckton.Settlement
