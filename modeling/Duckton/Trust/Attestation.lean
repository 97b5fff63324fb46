/-
  Attestation evidence (trust/attestation.rs): the software attestor and the allowlist verifier.

  Ed25519 and serde_json are parameters. The authority signs the level, the measurement, a nonce
  and a bound key in one byte string; `evidenceSigningBytes_inj` says that the string determines
  all four, and `verify_eq_ok` what an accepted attestation consists of. The bound key is handed to
  the verifier by its caller.
-/
import Mathlib.Tactic.IntervalCases
import Duckton.Lib.Octets
import Duckton.Proto.Json
import Duckton.Proto.Messages
import Duckton.Trust.Canonical

namespace Duckton.Trust

open Duckton.Proto

/-! ## Keys and signatures -/

abbrev Key32 := { bytes : Bytes // bytes.length = 32 }

abbrev Signature := { bytes : Bytes // bytes.length = 64 }

/-- ed25519_dalek. A signing key is its 32 secret bytes; not every 32 bytes are a verifying key. -/
structure Ed25519 where
  verifyingKey : Key32 → Key32
  isVerifyingKey : Key32 → Bool
  sign : Key32 → Bytes → Signature
  verifyStrict : Key32 → Bytes → Signature → Bool

def hexValue (c : Char) : Option Nat :=
  if '0' ≤ c ∧ c ≤ '9' then some (c.toNat - 48)
  else if 'a' ≤ c ∧ c ≤ 'f' then some (c.toNat - 87)
  else if 'A' ≤ c ∧ c ≤ 'F' then some (c.toNat - 55)
  else none

def hexPairs : List Char → Option Bytes
  | [] => some []
  | [_] => none
  | high :: low :: rest =>
    (hexValue high).bind fun high => (hexValue low).bind fun low =>
      (hexPairs rest).map fun bytes => UInt8.ofNat (16 * high + low) :: bytes

/-- `hex::decode` -/
def hexDecode (s : String) : Option Bytes :=
  hexPairs s.toList

/-- `try_into` for an array of `n` bytes. -/
def toArray? (n : Nat) (bytes : Bytes) : Option { bytes : Bytes // bytes.length = n } :=
  if h : bytes.length = n then some ⟨bytes, h⟩ else none

def decode32 (s : String) : Option Key32 :=
  (hexDecode s).bind (toArray? 32)

theorem hexValue_hexDigit {n : Nat} (h : n < 16) : hexValue (hexDigit n) = some n := by
  interval_cases n <;> decide

theorem hexDecode_hexEncode (bytes : Bytes) : hexDecode (hexEncode bytes) = some bytes := by
  unfold hexDecode hexEncode
  rw [String.toList_ofList]
  induction bytes with
  | nil => rfl
  | cons b bytes ih =>
    have hlt : b.toNat < 256 := b.toNat_lt
    have hjoin : 16 * (b.toNat / 16) + b.toNat % 16 = b.toNat := Nat.div_add_mod _ _
    show hexPairs (hexDigit (b.toNat / 16) :: hexDigit (b.toNat % 16) ::
      bytes.flatMap _) = _
    rw [hexPairs, hexValue_hexDigit (by omega), hexValue_hexDigit (by omega), Option.bind_some,
      Option.bind_some, ih, hjoin, UInt8.ofNat_toNat]
    rfl

theorem toArray?_val {n : Nat} (key : { bytes : Bytes // bytes.length = n }) :
    toArray? n key.val = some key :=
  dif_pos key.property

theorem decode32_hexEncode (key : Key32) : decode32 (hexEncode key.val) = some key := by
  unfold decode32
  rw [hexDecode_hexEncode, Option.bind_some, toArray?_val]

/-! ## Evidence -/

structure MockEvidence where
  measurement : String
  nonceHex : String
  boundPubHex : String
  authorityPubHex : String
  sigHex : String
  deriving DecidableEq, Repr

def MockEvidence.toJson (e : MockEvidence) : Json :=
  .obj [("measurement", .str e.measurement), ("nonce_hex", .str e.nonceHex),
    ("bound_pub_hex", .str e.boundPubHex), ("authority_pub_hex", .str e.authorityPubHex),
    ("sig_hex", .str e.sigHex)]

def MockEvidence.fromFields (measurement nonce bound authority sig : Json) :
    Option MockEvidence :=
  measurement.toStr.bind fun measurement => nonce.toStr.bind fun nonce =>
    bound.toStr.bind fun bound => authority.toStr.bind fun authority =>
      sig.toStr.map fun sig => ⟨measurement, nonce, bound, authority, sig⟩

def MockEvidence.fromJson : Json → Option MockEvidence
  | .obj entries =>
    (Json.required "measurement" entries).bind fun measurement =>
      (Json.required "nonce_hex" entries).bind fun nonce =>
        (Json.required "bound_pub_hex" entries).bind fun bound =>
          (Json.required "authority_pub_hex" entries).bind fun authority =>
            (Json.required "sig_hex" entries).bind fun sig =>
              fromFields measurement nonce bound authority sig
  | .arr [measurement, nonce, bound, authority, sig] =>
    fromFields measurement nonce bound authority sig
  | _ => none

/-- `serde_json::from_slice` at the evidence type. -/
def decodeEvidence (serde : Serde) (bytes : Bytes) : Option MockEvidence :=
  (serde.parse bytes).bind MockEvidence.fromJson

variable {serde : Serde} {e : MockEvidence} {l l' : AttestationLevel}

theorem decodeEvidence_print (h : serde.Reads e.toJson) :
    decodeEvidence serde (serde.print e.toJson) = some e := by
  unfold decodeEvidence
  rw [h.whole]
  rfl

/-- The signature of the evidence, if it has the form of one. -/
def MockEvidence.signature (e : MockEvidence) : Option Signature :=
  (hexDecode e.sigHex).bind (toArray? 64)

/-- `DOMAIN` -/
def attestationDomain : Bytes :=
  utf8 "duckdb-p2p-attestation-v2"

/-- What the authority signs. -/
def evidenceSigningBytes (level : AttestationLevel) (measurement : String) (nonce : Bytes)
    (boundPub : Key32) : Bytes :=
  attestationDomain ++ [UInt8.ofNat level.rank] ++ Octets.toLe 8 (utf8 measurement).length ++
    utf8 measurement ++ Octets.toLe 8 nonce.length ++ nonce ++ boundPub.val

theorem utf8_inj {s t : String} (h : utf8 s = utf8 t) : s = t := by
  apply String.toByteArray_inj.mp
  apply ByteArray.ext
  exact Array.toList_inj.mp h

theorem rank_inj (h : UInt8.ofNat l.rank = UInt8.ofNat l'.rank) :
    l = l' := by
  revert h
  cases l <;> cases l' <;> decide

/-- Nonces of one length need no separate length bound: the total length gives that of the
    measurement. -/
theorem evidenceSigningBytes_inj {m m' : String} {n n' : Bytes} {b b' : Key32}
    (hn : n.length = n'.length)
    (h : evidenceSigningBytes l m n b = evidenceSigningBytes l' m' n' b') :
    l = l' ∧ m = m' ∧ n = n' ∧ b = b' := by
  unfold evidenceSigningBytes at h
  have hlen := congrArg List.length h
  simp only [List.length_append, List.length_singleton, Octets.length_toLe, b.property,
    b'.property] at hlen
  obtain ⟨h, hb⟩ := List.append_inj' h (b.property.trans b'.property.symm)
  obtain ⟨h, hnonce⟩ := List.append_inj' h hn
  obtain ⟨h, -⟩ := List.append_inj' h (by rw [Octets.length_toLe, Octets.length_toLe])
  obtain ⟨h, hm⟩ := List.append_inj' h (by omega)
  obtain ⟨h, -⟩ := List.append_inj' h (by rw [Octets.length_toLe, Octets.length_toLe])
  obtain ⟨-, hl⟩ := List.append_inj' h rfl
  exact ⟨rank_inj (List.singleton_inj.mp hl), utf8_inj hm, hnonce, Subtype.ext hb⟩

/-! ## Attestor -/

structure MockAttestor where
  authority : Key32
  measurement : String
  level : AttestationLevel
  deriving DecidableEq, Repr

def MockAttestor.evidence (ed : Ed25519) (a : MockAttestor) (nonce : Bytes) (boundPub : Key32) :
    MockEvidence :=
  { measurement := a.measurement
    nonceHex := hexEncode nonce
    boundPubHex := hexEncode boundPub.val
    authorityPubHex := hexEncode (ed.verifyingKey a.authority).val
    sigHex := hexEncode
      (ed.sign a.authority (evidenceSigningBytes a.level a.measurement nonce boundPub)).val }

def MockAttestor.produce (ed : Ed25519) (serde : Serde) (a : MockAttestor) (nonce : Bytes)
    (boundPub : Key32) : Attestation :=
  ⟨a.level, serde.print (a.evidence ed nonce boundPub).toJson, some a.measurement⟩

/-! ## Verifier -/

inductive AttestError where
  | levelTooLow (got required : AttestationLevel)
  | measurementNotAllowed
  | nonceMismatch
  | boundKeyMismatch
  | untrustedAuthority
  | badEvidence
  deriving DecidableEq, Repr

structure AllowlistVerifier where
  trustedAuthority : Key32
  allowedMeasurements : List String
  requiredLevel : AttestationLevel
  deriving DecidableEq, Repr

/-- The authority's key and signature of the evidence, read from their hex text. -/
def checkSignature (ed : Ed25519) (trusted : Key32) (e : MockEvidence) (signed : Bytes) :
    Except AttestError Unit :=
  match decode32 e.authorityPubHex with
  | none => .error .badEvidence
  | some authorityPub =>
    if authorityPub ≠ trusted then .error .untrustedAuthority
    else if !ed.isVerifyingKey authorityPub then .error .badEvidence
    else match e.signature with
      | none => .error .badEvidence
      | some sig => if ed.verifyStrict authorityPub signed sig then .ok () else .error .badEvidence

def AllowlistVerifier.verify (ed : Ed25519) (serde : Serde) (v : AllowlistVerifier)
    (att : Attestation) (nonce : Bytes) (boundPub : Key32) : Except AttestError Unit :=
  if att.level.rank < v.requiredLevel.rank then .error (.levelTooLow att.level v.requiredLevel)
  else match decodeEvidence serde att.evidence with
    | none => .error .badEvidence
    | some e =>
      if e.measurement ∉ v.allowedMeasurements then .error .measurementNotAllowed
      else if e.nonceHex ≠ hexEncode nonce then .error .nonceMismatch
      else if e.boundPubHex ≠ hexEncode boundPub.val then .error .boundKeyMismatch
      else checkSignature ed v.trustedAuthority e
        (evidenceSigningBytes att.level e.measurement nonce boundPub)

/-- The bound key that the evidence itself names. -/
def attestationBoundPub (serde : Serde) (att : Attestation) : Option Key32 :=
  (decodeEvidence serde att.evidence).bind fun e => decode32 e.boundPubHex

theorem checkSignature_eq_ok {ed : Ed25519} {trusted : Key32} {signed : Bytes} :
    checkSignature ed trusted e signed = .ok () ↔
      decode32 e.authorityPubHex = some trusted ∧ ed.isVerifyingKey trusted = true ∧
        ∃ sig, e.signature = some sig ∧ ed.verifyStrict trusted signed sig = true := by
  unfold checkSignature
  cases decode32 e.authorityPubHex with
  | none => simp
  | some authorityPub =>
    dsimp only
    by_cases htrusted : authorityPub = trusted
    · subst htrusted
      cases ed.isVerifyingKey authorityPub with
      | false => simp
      | true =>
        cases e.signature with
        | none | some sig => simp
    · simp [htrusted]

/-- All that the verifier checks. -/
theorem verify_eq_ok {ed : Ed25519} {v : AllowlistVerifier} {att : Attestation} {nonce : Bytes}
    {boundPub : Key32} :
    v.verify ed serde att nonce boundPub = .ok () ↔
      v.requiredLevel.rank ≤ att.level.rank ∧ ∃ e, decodeEvidence serde att.evidence = some e ∧
        e.measurement ∈ v.allowedMeasurements ∧ e.nonceHex = hexEncode nonce ∧
        e.boundPubHex = hexEncode boundPub.val ∧
        checkSignature ed v.trustedAuthority e
          (evidenceSigningBytes att.level e.measurement nonce boundPub) = .ok () := by
  unfold AllowlistVerifier.verify
  split_ifs with hlevel
  · simp [hlevel]
  · have hle : v.requiredLevel.rank ≤ att.level.rank := by omega
    cases decodeEvidence serde att.evidence with
    | none => simp
    | some e =>
      by_cases hmeasurement : e.measurement ∈ v.allowedMeasurements
      · by_cases hnonce : e.nonceHex = hexEncode nonce
        · by_cases hbound : e.boundPubHex = hexEncode boundPub.val
          · simp [hle, hmeasurement, hnonce, hbound]
          · simp [hmeasurement, hnonce, hbound]
        · simp [hmeasurement, hnonce]
      · simp [hmeasurement]

end Duckton.Trust
