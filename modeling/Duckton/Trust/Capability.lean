/-
  Capability ads (proto/capability.rs, trust/capability.rs) and the proof of work that they carry
  (trust/sybil.rs).

  A node signs its ad, the time stamp and the routing labels included, and stamps it with a nonce
  for the day of the time stamp. `verifyCapabilityAd_iff` says what an accepted ad consists of.
  Nothing in an ad says that it is the last one of its node.

  BLAKE3 and Ed25519 are parameters.
-/
import Duckton.Lib.Text
import Duckton.Trust.CanonicalHash
import Duckton.Trust.Token

namespace Duckton.Proto

structure Version where
  major : UInt16
  minor : UInt16
  patch : UInt16
  deriving DecidableEq, Repr

def Version.text (v : Version) : String :=
  toString v.major.toNat ++ "." ++ toString v.minor.toNat ++ "." ++ toString v.patch.toNat

def protocolVersion : Version := ⟨1, 0, 0⟩

def schemaVersion : UInt16 := protocolVersion.major

/-- `NodeId::from_pubkey` -/
def NodeId.fromPubkey (blake3 : Bytes → Bytes) (pubkey : Bytes) : NodeId :=
  ⟨"b3:" ++ Trust.hexEncode (blake3 pubkey)⟩

structure CapabilityAd where
  schemaVersion : UInt16
  protocolVersion : Version
  nodeId : NodeId
  pubkey : String
  addr : String
  freeMemBytes : UInt64
  freeThreads : UInt32
  maxJobs : UInt32
  attestationLevel : AttestationLevel
  price : UInt64
  recentReceiptsRoot : Option String
  powNonce : UInt64
  powBits : UInt32
  ts : UInt64
  enabled : Bool
  networks : List String
  groups : List String
  region : Option String
  sig : String
  deriving DecidableEq, Repr

end Duckton.Proto

namespace Duckton.Trust

open Duckton.Proto

/-! ## Proof of work -/

def powDomain : Bytes :=
  utf8 "duckdb-p2p-identity-pow-v2"

def powEpochSecs : Nat := 24 * 3600

def powEpoch (ts : UInt64) : Nat :=
  ts.toNat / powEpochSecs

def leadingZeroBits : Bytes → Nat
  | [] => 0
  | b :: bytes => if b = 0 then 8 + leadingZeroBits bytes else 7 - b.toNat.log2

variable (blake3 : Bytes → Bytes)

def powDigest (pubkey : Key32) (epoch : Nat) (nonce : UInt64) : Bytes :=
  blake3 (powDomain ++ pubkey.val ++ u64LeBytes epoch ++ u64LeBytes nonce.toNat)

structure PowStamp where
  nonce : UInt64
  difficultyBits : UInt32
  deriving DecidableEq, Repr

def verifyPow (pubkey : Key32) (epoch : Nat) (stamp : PowStamp) (requiredBits : UInt32) : Bool :=
  if stamp.difficultyBits < requiredBits then false
  else decide (requiredBits.toNat ≤ leadingZeroBits (powDigest blake3 pubkey epoch stamp.nonce))

/-! ## Ads -/

def adDomain : Bytes :=
  utf8 "duckdb-p2p-capability-ad-v1"

/-- Each field with its length in front. -/
def signingBytes (ad : CapabilityAd) : Bytes :=
  ([adDomain,
    Octets.toLe 2 ad.schemaVersion.toNat,
    utf8 ad.protocolVersion.text,
    utf8 ad.nodeId.id,
    utf8 ad.pubkey,
    utf8 ad.addr,
    Octets.toLe 8 ad.freeMemBytes.toNat,
    Octets.toLe 4 ad.freeThreads.toNat,
    Octets.toLe 4 ad.maxJobs.toNat,
    [UInt8.ofNat ad.attestationLevel.rank],
    Octets.toLe 8 ad.price.toNat,
    utf8 (ad.recentReceiptsRoot.getD ""),
    Octets.toLe 8 ad.powNonce.toNat,
    Octets.toLe 4 ad.powBits.toNat,
    Octets.toLe 8 ad.ts.toNat,
    [if ad.enabled then 1 else 0],
    Octets.toLe 8 ad.networks.length] ++
    ad.networks.map utf8 ++
    [Octets.toLe 8 ad.groups.length] ++
    ad.groups.map utf8 ++
    [utf8 (ad.region.getD "")]).flatMap lengthPrefixed

/-- What the node puts into an ad besides its identity. -/
structure CapabilityDraft where
  addr : String
  freeMemBytes : UInt64
  freeThreads : UInt32
  maxJobs : UInt32
  attestationLevel : AttestationLevel
  price : UInt64
  recentReceiptsRoot : Option String
  pow : PowStamp
  ts : UInt64
  enabled : Bool
  networks : List String
  groups : List String
  region : Option String
  deriving DecidableEq, Repr

def signCapabilityAd (ed : Ed25519) (draft : CapabilityDraft) (key : Key32) : CapabilityAd :=
  let pubkey := ed.verifyingKey key
  let ad : CapabilityAd :=
    { schemaVersion := schemaVersion
      protocolVersion := protocolVersion
      nodeId := NodeId.fromPubkey blake3 pubkey.val
      pubkey := hexEncode pubkey.val
      addr := draft.addr
      freeMemBytes := draft.freeMemBytes
      freeThreads := draft.freeThreads
      maxJobs := draft.maxJobs
      attestationLevel := draft.attestationLevel
      price := draft.price
      recentReceiptsRoot := draft.recentReceiptsRoot
      powNonce := draft.pow.nonce
      powBits := draft.pow.difficultyBits
      ts := draft.ts
      enabled := draft.enabled
      networks := draft.networks
      groups := draft.groups
      region := draft.region
      sig := "" }
  { ad with sig := hexEncode (ed.sign key (signingBytes ad)).val }

def verifyCapabilityAd (ed : Ed25519) (ad : CapabilityAd) (requiredPowBits : UInt32) : Bool :=
  match decode32 ad.pubkey with
  | none => false
  | some pk =>
    if ad.nodeId ≠ NodeId.fromPubkey blake3 pk.val then false
    else if !verifyPow blake3 pk (powEpoch ad.ts) ⟨ad.powNonce, ad.powBits⟩ requiredPowBits then
      false
    else if !ed.isVerifyingKey pk then false
    else match (hexDecode ad.sig).bind (toArray? 64) with
      | none => false
      | some sig => ed.verifyStrict pk (signingBytes ad) sig

variable {blake3 : Bytes → Bytes} {requiredPowBits : UInt32}

/-- An accepted ad is signed under the key that its node id is the hash of. -/
theorem verifyCapabilityAd_iff {ed : Ed25519} {ad : CapabilityAd} :
    verifyCapabilityAd blake3 ed ad requiredPowBits = true ↔
      ∃ pk sig, decode32 ad.pubkey = some pk ∧ ad.nodeId = NodeId.fromPubkey blake3 pk.val ∧
        verifyPow blake3 pk (powEpoch ad.ts) ⟨ad.powNonce, ad.powBits⟩ requiredPowBits = true ∧
        ed.isVerifyingKey pk = true ∧ (hexDecode ad.sig).bind (toArray? 64) = some sig ∧
        ed.verifyStrict pk (signingBytes ad) sig = true := by
  unfold verifyCapabilityAd
  cases hpk : decode32 ad.pubkey with
  | none => simp
  | some pk =>
    cases hsig : (hexDecode ad.sig).bind (toArray? 64) with
    | none => simp
    | some sig =>
      by_cases hid : ad.nodeId = NodeId.fromPubkey blake3 pk.val
      all_goals simp [hid]

/-- What a node signs is accepted. -/
theorem verifyCapabilityAd_sign {ed : Ed25519} (hcorrect : ed.Correct) {draft : CapabilityDraft}
    {key : Key32}
    (hpow : verifyPow blake3 (ed.verifyingKey key) (powEpoch draft.ts) draft.pow requiredPowBits =
      true) :
    verifyCapabilityAd blake3 ed (signCapabilityAd blake3 ed draft key) requiredPowBits = true := by
  have hsig : (hexDecode (signCapabilityAd blake3 ed draft key).sig).bind (toArray? 64) =
      some (ed.sign key (signingBytes (signCapabilityAd blake3 ed draft key))) := by
    -- the signature is not among the signed fields
    show (hexDecode (hexEncode (ed.sign key _).val)).bind (toArray? 64) = _
    rw [hexDecode_hexEncode, Option.bind_some, toArray?_val]
    rfl
  exact verifyCapabilityAd_iff.mpr ⟨ed.verifyingKey key, _, decode32_hexEncode _, rfl, hpow,
    hcorrect.isKey key, hsig, hcorrect.verifies key _⟩

/-! ## What the signature covers -/

theorem text_inj {v w : Version} (h : v.text = w.text) : v = w := by
  have hparts : ∀ u : Version, u.text.toList.splitOn '.' = [(toString u.major.toNat).toList,
      (toString u.minor.toNat).toList, (toString u.patch.toNat).toList] := by
    intro u
    have hdot : ∀ n : Nat, '.' ∉ (toString n).toList := fun n hn =>
      absurd (Text.isDigit_of_mem_toString hn) (by decide)
    rw [← List.splitOn_intercalate '.' (by simp only [List.mem_cons, List.not_mem_nil]; grind)
      (List.cons_ne_nil _ _)]
    simp [Version.text, List.intercalate]
  have hsame := (hparts v).symm.trans (h ▸ hparts w)
  simp only [List.cons.injEq] at hsame
  obtain ⟨hmajor, hminor, hpatch, -⟩ := hsame
  cases v
  cases w
  rw [Version.mk.injEq]
  exact ⟨UInt16.toNat_inj.mp (Text.toString_inj hmajor),
    UInt16.toNat_inj.mp (Text.toString_inj hminor), UInt16.toNat_inj.mp (Text.toString_inj hpatch)⟩

/-- The fields of an encoding in memory can be told apart. -/
theorem fields_inj {fs gs : List Bytes} (hlen : (fs.flatMap lengthPrefixed).length < 2 ^ 64)
    (h : fs.flatMap lengthPrefixed = gs.flatMap lengthPrefixed) : fs = gs := by
  induction fs generalizing gs with
  | nil =>
    cases gs with
    | nil => rfl
    | cons g gs => simp [lengthPrefixed, u64LeBytes_eq_toLe, Octets.toLe] at h
  | cons f fs ih =>
    cases gs with
    | nil => simp [lengthPrefixed, u64LeBytes_eq_toLe, Octets.toLe] at h
    | cons g gs =>
      have hlen' := h ▸ hlen
      simp only [List.flatMap_cons, lengthPrefixed, List.length_append] at hlen hlen'
      obtain ⟨rfl, htail⟩ := delimited_lengthPrefixed f g _ _ (by omega) (by omega) h
      rw [ih (by omega) htail]

theorem length_le_flatMap (fs : List Bytes) : fs.length ≤ (fs.flatMap lengthPrefixed).length := by
  induction fs with
  | nil => exact Nat.le_refl 0
  | cons f fs ih =>
    simp only [List.flatMap_cons, lengthPrefixed, List.length_append, List.length_cons,
      u64LeBytes_eq_toLe, Octets.length_toLe]
    omega

/-- The bytes that are signed determine the ad, but for its signature and up to empty texts in
    place of missing ones. -/
theorem signingBytes_inj {a b : CapabilityAd} (hlen : (signingBytes a).length < 2 ^ 64)
    (h : signingBytes a = signingBytes b) :
    a.recentReceiptsRoot.getD "" = b.recentReceiptsRoot.getD "" ∧
      a.region.getD "" = b.region.getD "" ∧ a = { b with
        recentReceiptsRoot := a.recentReceiptsRoot, region := a.region, sig := a.sig } := by
  have hcount := Nat.lt_of_le_of_lt (length_le_flatMap _) hlen
  have hcount' := Nat.lt_of_le_of_lt (length_le_flatMap _) (h ▸ hlen)
  replace h := fields_inj hlen h
  simp only [List.length_append, List.length_map, List.length_cons, List.length_nil] at hcount hcount'
  simp only [List.cons_append, List.nil_append, List.append_assoc, List.cons.injEq] at h
  obtain ⟨-, hschema, hversion, hid, hpubkey, haddr, hmem, hthreads, hjobs, hlevel, hprice, hroot,
    hnonce, hbits, hts, henabled, hnetworks, h⟩ := h
  have hn : a.networks.length = b.networks.length :=
    Octets.toLe_inj (by omega) (by omega) hnetworks
  obtain ⟨hnets, h⟩ := List.append_inj h (by simp [hn])
  obtain ⟨hgroups, hregion⟩ := List.append_inj' (List.cons.inj h).2 rfl
  have hutf8 : Function.Injective utf8 := fun _ _ => utf8_inj
  refine ⟨utf8_inj hroot, utf8_inj (List.singleton_inj.mp hregion), ?_⟩
  have hflag : a.enabled = b.enabled := by
    revert henabled
    cases a.enabled <;> cases b.enabled <;> decide
  have hnode : a.nodeId = b.nodeId := congrArg NodeId.mk (utf8_inj hid)
  cases a
  cases b
  rw [CapabilityAd.mk.injEq]
  exact ⟨UInt16.toNat_inj.mp (Octets.toLe_inj (UInt16.toNat_lt _) (UInt16.toNat_lt _) hschema),
    text_inj (utf8_inj hversion), hnode, utf8_inj hpubkey, utf8_inj haddr,
    Octets.toLe_uint64_inj hmem, Octets.toLe_uint32_inj hthreads, Octets.toLe_uint32_inj hjobs,
    rank_inj hlevel.1, Octets.toLe_uint64_inj hprice, rfl,
    Octets.toLe_uint64_inj hnonce, Octets.toLe_uint32_inj hbits, Octets.toLe_uint64_inj hts, hflag,
    hutf8.list_map hnets, hutf8.list_map hgroups, rfl, rfl⟩

/-- Two accepted ads with one key and one signature are the same exactly if they agree on which of
    their texts are missing and on how the signature is spelled. That a signature does not verify
    for two messages is asked of these two only. -/
theorem ads_equal_iff {blake3 : Bytes → Bytes} {ed : Ed25519} {a b : CapabilityAd}
    {bits bits' : UInt32} (hlen : (signingBytes a).length < 2 ^ 64)
    (hideal : ∀ pk sig, ed.verifyStrict pk (signingBytes a) sig = true →
      ed.verifyStrict pk (signingBytes b) sig = true → signingBytes a = signingBytes b)
    (ha : verifyCapabilityAd blake3 ed a bits = true)
    (hb : verifyCapabilityAd blake3 ed b bits' = true) (hpk : decode32 a.pubkey = decode32 b.pubkey)
    (hsig : hexDecode a.sig = hexDecode b.sig) :
    a = b ↔ a.recentReceiptsRoot.isSome = b.recentReceiptsRoot.isSome ∧
      a.region.isSome = b.region.isSome ∧ a.sig = b.sig := by
  constructor
  · rintro rfl
    exact ⟨rfl, rfl, rfl⟩
  · rintro ⟨hroot, hregion, hsigText⟩
    obtain ⟨pk, sig, hpka, -, -, -, hsiga, hverify⟩ := verifyCapabilityAd_iff.mp ha
    obtain ⟨pk', sig', hpkb, -, -, -, hsigb, hverify'⟩ := verifyCapabilityAd_iff.mp hb
    obtain rfl : pk = pk' := Option.some.inj (hpka.symm.trans (hpk.trans hpkb))
    obtain rfl : sig = sig' := Option.some.inj (hsiga.symm.trans (hsig ▸ hsigb))
    obtain ⟨hrootText, hregionText, hab⟩ := signingBytes_inj hlen (hideal pk sig hverify hverify')
    have htext : ∀ x y : Option String, x.isSome = y.isSome → x.getD "" = y.getD "" → x = y := by
      intro x y
      cases x <;> cases y <;> simp
    rw [hab, htext _ _ hroot hrootText, htext _ _ hregion hregionText, hsigText]

/-- An ad that says little, but for its region. -/
def regionAd (region : Option String) : CapabilityAd :=
  signCapabilityAd (fun _ => []) plainEd25519
    ⟨"", 0, 0, 0, .l0, 0, none, ⟨0, 0⟩, 0, true, [], [], region⟩ memberKey

theorem verify_regionAd (region : Option String) :
    verifyCapabilityAd (fun _ => []) plainEd25519 (regionAd region) 0 = true :=
  verifyCapabilityAd_sign plainEd25519_correct (by simp [verifyPow])

/-- The signature of an ad without a region is one of the same ad with an empty region. -/
theorem empty_region_accepted :
    verifyCapabilityAd (fun _ => []) plainEd25519 (regionAd none) 0 = true ∧
      verifyCapabilityAd (fun _ => []) plainEd25519 (regionAd (some "")) 0 = true ∧
      (regionAd none).sig = (regionAd (some "")).sig ∧
      (regionAd none).pubkey = (regionAd (some "")).pubkey ∧ regionAd none ≠ regionAd (some "") :=
  ⟨verify_regionAd _, verify_regionAd _, rfl, rfl, fun h =>
    absurd (congrArg CapabilityAd.region h) (by decide)⟩

theorem ads_equal_iff_at_region : regionAd none ≠ regionAd (some "") := by
  have hlen : (signingBytes (regionAd none)).length < 2 ^ 64 := by decide +kernel
  have hsigned : signingBytes (regionAd none) = signingBytes (regionAd (some "")) := rfl
  have hsig : (regionAd none).sig = (regionAd (some "")).sig := rfl
  have hiff := ads_equal_iff hlen (fun _ _ _ _ => hsigned) (verify_regionAd none)
    (verify_regionAd (some "")) rfl (congrArg hexDecode hsig)
  exact fun h => Bool.false_ne_true (hiff.mp h).2.1

end Duckton.Trust
