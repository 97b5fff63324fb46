/-
  What a node signs with its identity key (trust/receipt.rs, trust/capability.rs, trust/token.rs):
  receipts, capability ads, capability profiles and layers of tokens.

  Each encoding starts with a domain of its own, the first and the last with the text itself, the
  other two with its length. Twelve bytes tell the four apart (`take_preimage`), and the rest
  determines what is signed; only an ad says the same of a text that is missing and of an empty one.
-/
import Duckton.Trust.Capability
import Duckton.Trust.InMemoryStore

namespace Duckton.Trust

open Duckton.Proto

/-- A receipt, but for its signature. -/
structure SignedReceipt extends MeasuredReceipt where
  queryHash : String
  resultHash : String
  inputFingerprint : String
  deriving DecidableEq, Repr

def verdictTag : Verdict → UInt8
  | .correct => 1
  | .incorrect => 2
  | .timeout => 3
  | .malformed => 4
  | .resourceExceeded => 5
  | .infeasible => 6
  | .inconclusive => 7

/-- `signing_bytes` of a receipt. -/
def receiptSigningBytes (r : SignedReceipt) : Bytes :=
  utf8 "duckdb-p2p-receipt-v1" ++
    [utf8 r.jobId, utf8 r.workerId.id, utf8 r.requesterId.id, utf8 r.queryHash,
      utf8 r.inputFingerprint, utf8 r.resultHash].flatMap lengthPrefixed ++
    verdictTag r.verdict :: [r.latencyMs, r.ts, r.observedInputBytes, r.observedResultRows,
      r.observedResultBytes].flatMap fun n => Octets.toLe 8 n.toNat

/-- A profile, but for its signature. -/
structure CapabilityProfile where
  schemaVersion : UInt16
  nodeId : NodeId
  pubkey : String
  maxInputBytes : UInt64
  maxResultRows : UInt64
  maxResultBytes : UInt64
  maxPeakMemoryBytes : UInt64
  maxTempDirBytes : UInt64
  successes : UInt64
  seq : UInt64
  ts : UInt64
  deriving DecidableEq, Repr

def profileSigningBytes (p : CapabilityProfile) : Bytes :=
  ([utf8 "duckdb-p2p-capability-profile-v1", Octets.toLe 2 p.schemaVersion.toNat,
    utf8 p.nodeId.id, utf8 p.pubkey] ++
    [p.maxInputBytes, p.maxResultRows, p.maxResultBytes, p.maxPeakMemoryBytes, p.maxTempDirBytes,
      p.successes, p.seq, p.ts].map fun n => Octets.toLe 8 n.toNat).flatMap lengthPrefixed

/-! ## The four kinds -/

inductive Statement where
  | receipt (r : SignedReceipt)
  | ad (a : CapabilityAd)
  | profile (p : CapabilityProfile)
  | layer (index : Nat) (holderPubkey : Key32) (caveats : List Caveat) (prevSig : Bytes)
  deriving DecidableEq

namespace Statement

def preimage : Statement → Bytes
  | receipt r => receiptSigningBytes r
  | ad a => signingBytes a
  | profile p => profileSigningBytes p
  | layer index holderPubkey caveats prevSig => layerBytes index holderPubkey caveats prevSig

/-- The lengths that the encoding writes in eight bytes fit there. -/
def Fits : Statement → Prop
  | layer index _ caveats prevSig => LayerFits index caveats prevSig
  | s => s.preimage.length < 2 ^ 64

/-- The signature of an ad is not part of what it states. -/
def Same : Statement → Statement → Prop
  | ad a, ad b => a = { b with sig := a.sig }
  | s, t => s = t

/-- Twelve bytes with which every statement of a kind starts. -/
def start : Statement → Bytes
  | receipt _ => utf8 "duckdb-p2p-r"
  | ad _ => 27 :: List.replicate 7 0 ++ utf8 "duck"
  | profile _ => 32 :: List.replicate 7 0 ++ utf8 "duck"
  | layer .. => utf8 "duckdb-p2p-c"

theorem take_preimage (s : Statement) : s.preimage.take 12 = s.start := by
  cases s <;> rfl

/-- Neither the signed bytes nor a signature that verifies belong to two different statements. -/
structure NotConfused (ed : Ed25519) (s t : Statement) : Prop where
  determined : s.preimage = t.preimage → s.Same t
  authentic : ∀ pk sig, ed.verifyStrict pk s.preimage sig = true →
    ed.verifyStrict pk t.preimage sig = true → s.Same t

end Statement

/-- An unsigned ad with empty texts for those that are missing. -/
def filled (a : CapabilityAd) : CapabilityAd :=
  { a with
    recentReceiptsRoot := some (a.recentReceiptsRoot.getD "")
    region := some (a.region.getD "")
    sig := "" }

/-! ## What the bytes determine -/

theorem verdictTag_inj {v w : Verdict} (h : verdictTag v = verdictTag w) : v = w := by
  revert h
  cases v <;> cases w <;> decide

theorem receiptSigningBytes_inj {r r' : SignedReceipt}
    (hlen : (receiptSigningBytes r).length < 2 ^ 64)
    (h : receiptSigningBytes r = receiptSigningBytes r') : r = r' := by
  have hnumber : Codec.Delimited (· = ·) (fun _ => True) fun n : UInt64 => Octets.toLe 8 n.toNat :=
    fun n m _ _ _ _ heq =>
      (Octets.toLe_append_inj n.toNat_lt m.toNat_lt heq).imp_left UInt64.toNat_inj.mp
  unfold receiptSigningBytes at h hlen
  -- behind the texts there are 41 bytes
  obtain ⟨htexts, htail⟩ := List.append_inj' h (by simp [Octets.length_toLe])
  obtain ⟨hverdict, hnumbers⟩ := List.cons.inj htail
  replace hnumbers := (hnumber.list (fun _ _ => trivial) (fun _ _ => trivial) (by rfl)
    (congrArg (· ++ []) hnumbers)).1
  simp only [List.length_append] at hlen
  replace htexts := fields_inj (by omega) (List.append_cancel_left htexts)
  simp only [List.cons.injEq] at hnumbers htexts
  obtain ⟨⟨⟨_, ⟨_⟩, ⟨_⟩, _, _, _, _, _⟩, _⟩, _, _, _⟩ := r
  obtain ⟨⟨⟨_, ⟨_⟩, ⟨_⟩, _, _, _, _, _⟩, _⟩, _, _, _⟩ := r'
  obtain ⟨hjob, hworker, hrequester, hquery, hinput, hresult, -⟩ := htexts
  cases utf8_inj hjob
  cases utf8_inj hworker
  cases utf8_inj hrequester
  cases utf8_inj hquery
  cases utf8_inj hinput
  cases utf8_inj hresult
  cases verdictTag_inj hverdict
  simp_all

theorem profileSigningBytes_inj {p p' : CapabilityProfile}
    (hlen : (profileSigningBytes p).length < 2 ^ 64)
    (h : profileSigningBytes p = profileSigningBytes p') : p = p' := by
  have hnumber : Function.Injective fun n : UInt64 => Octets.toLe 8 n.toNat :=
    fun _ _ => Octets.toLe_uint64_inj
  obtain ⟨htexts, hnumbers⟩ := List.append_inj (fields_inj hlen h) rfl
  replace hnumbers := hnumber.list_map hnumbers
  simp only [List.cons.injEq] at hnumbers htexts
  obtain ⟨-, hschema, hid, hpubkey, -⟩ := htexts
  replace hschema := Octets.toLe_inj (UInt16.toNat_lt _) (UInt16.toNat_lt _) hschema
  obtain ⟨_, ⟨_⟩, _, _, _, _, _, _, _, _, _⟩ := p
  obtain ⟨_, ⟨_⟩, _, _, _, _, _, _, _, _, _⟩ := p'
  cases utf8_inj hid
  cases utf8_inj hpubkey
  cases UInt16.toNat_inj.mp hschema
  simp_all

open Statement in
/-- Two statements are not confused exactly if they are not two ads, one of which has an empty
    receipts root or region where the other has none. -/
theorem not_confused_iff {ed : Ed25519} {s t : Statement} (hs : s.Fits) (ht : t.Fits)
    (hideal : ∀ pk sig, ed.verifyStrict pk s.preimage sig = true →
      ed.verifyStrict pk t.preimage sig = true → s.preimage = t.preimage) :
    NotConfused ed s t ↔ ∀ a b, s = .ad a → t = .ad b → filled a = filled b →
      a.recentReceiptsRoot = b.recentReceiptsRoot ∧ a.region = b.region := by
  constructor
  · rintro h a b rfl rfl hfilled
    have hbytes : signingBytes (filled a) = signingBytes (filled b) := congrArg _ hfilled
    have hsame : a = { b with sig := a.sig } := h.determined hbytes
    rw [hsame]
    exact ⟨rfl, rfl⟩
  · intro h
    have hsame : s.preimage = t.preimage → s.Same t := by
      intro hbytes
      have hstart : s.start = t.start := by
        rw [← take_preimage, hbytes, take_preimage]
      cases s <;> cases t <;> try exact absurd hstart (by simp only [start]; decide)
      case receipt r r' => exact congrArg _ (receiptSigningBytes_inj hs hbytes)
      case profile p p' => exact congrArg _ (profileSigningBytes_inj hs hbytes)
      case layer =>
        obtain ⟨rfl, rfl, rfl, rfl⟩ := layerBytes_inj hs ht hbytes
        rfl
      case ad a b =>
        obtain ⟨hroot, hregion, hab⟩ := signingBytes_inj hs hbytes
        have hfilled : filled a = filled b := by
          rw [filled, hroot, hregion, hab]
          rfl
        obtain ⟨hroot, hregion⟩ := h a b rfl rfl hfilled
        rw [hroot, hregion] at hab
        exact hab
    exact ⟨hsame, fun pk sig hv hv' => hsame (hideal pk sig hv hv')⟩

/-- A node that signs an ad without a region has signed one with an empty region. -/
theorem empty_region_confused :
    ¬ Statement.NotConfused plainEd25519 (.ad (regionAd none)) (.ad (regionAd (some ""))) :=
  fun h => absurd (congrArg CapabilityAd.region (h.determined rfl)) (by decide)

theorem ad_layer_not_confused :
    Statement.NotConfused plainEd25519 (.ad (regionAd none)) (.layer 0 memberKey [] []) := by
  have had : (Statement.ad (regionAd none)).Fits := by
    show (signingBytes (regionAd none)).length < 2 ^ 64
    decide +kernel
  have hlayer : (Statement.layer 0 memberKey [] []).Fits :=
    ⟨by decide, by decide, by simp, by decide, by decide⟩
  refine (not_confused_iff had hlayer ?_).mpr fun _ _ _ h => nomatch h
  intro pk sig h h'
  -- no signature is for both: the signed bytes end differently
  have hsig := (eq_of_beq h).symm.trans (eq_of_beq h')
  exact absurd (List.append_cancel_left hsig) (by decide +kernel)

end Duckton.Trust
