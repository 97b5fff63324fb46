/-
  Capability tokens (trust/token.rs): chains of delegation layers, each signed by the holder the
  layer before it names.

  A caveat of a layer restricts what the token may be used for. `Group` and `Region` are read in a
  second way as well: a proof of membership has to carry the caveat of the group it is shown for,
  in any of its layers. `verify_attenuated` says when a token that was minted and passed on by its
  holders is accepted, which is decided by its caveats alone; what a holder may add to them is not
  restricted, and the last section draws the consequence for groups and regions.

  A token from the wire need not come from `mint` and `attenuate`: what an accepted one says of its
  signers is in `Trust.TokenChain`.
-/
import Duckton.Lib.Codec
import Duckton.Lib.Fallible
import Duckton.Trust.Attestation

namespace Duckton.Trust

open Duckton.Proto
open Fallible (bind_eq_ok check_eq_ok)

/-! ## Caveats -/

inductive Caveat where
  | expiresAt (time : UInt64)
  | operation (op : String)
  | resourcePrefix (path : String)
  | maxRows (rows : UInt64)
  | group (name : String)
  | region (name : String)
  deriving DecidableEq, Repr

structure AuthContext where
  now : UInt64 := 0
  operation : String := ""
  resource : String := ""
  rows : UInt64 := 0
  group : Option String := none
  region : Option String := none
  deriving DecidableEq, Repr

def Caveat.satisfiedBy (ctx : AuthContext) : Caveat → Bool
  | .expiresAt time => decide (ctx.now ≤ time)
  | .operation op => ctx.operation == op
  | .resourcePrefix path => path.toList.isPrefixOf ctx.resource.toList
  | .maxRows rows => decide (ctx.rows ≤ rows)
  | .group name => ctx.group == some name
  | .region name => ctx.region == some name

/-- `matches!(cav, Caveat::ExpiresAt(_))` -/
def Caveat.isExpiry : Caveat → Bool
  | .expiresAt _ => true
  | _ => false

/-! ## Signed bytes -/

def encodeText (tag : UInt8) (s : String) : Bytes :=
  tag :: (Octets.toLe 8 (utf8 s).length ++ utf8 s)

def encodeCaveat : Caveat → Bytes
  | .expiresAt time => 1 :: Octets.toLe 8 time.toNat
  | .operation op => encodeText 2 op
  | .resourcePrefix path => encodeText 3 path
  | .maxRows rows => 4 :: Octets.toLe 8 rows.toNat
  | .group name => encodeText 5 name
  | .region name => encodeText 6 name

def encodeCaveats (caveats : List Caveat) : Bytes :=
  Octets.toLe 8 caveats.length ++ caveats.flatMap encodeCaveat

/-- `DOMAIN` -/
def capabilityDomain : Bytes :=
  utf8 "duckdb-p2p-capability-v1"

def layerBytes (index : Nat) (holderPubkey : Key32) (caveats : List Caveat) (prevSig : Bytes) :
    Bytes :=
  capabilityDomain ++ Octets.toLe 8 index ++ holderPubkey.val ++
    Octets.toLe 8 (encodeCaveats caveats).length ++ encodeCaveats caveats ++
    Octets.toLe 8 prevSig.length ++ prevSig

/-! ## Tokens -/

structure Layer where
  holderPubkey : String
  caveats : List Caveat
  signerPubkey : String
  sig : String
  deriving DecidableEq, Repr

structure CapabilityToken where
  layers : List Layer
  deriving DecidableEq, Repr

inductive TokenError where
  | empty
  | issuerMismatch
  | brokenChain (layer : Nat)
  | badSignature (layer : Nat)
  | encoding
  | caveatFailed
  | notHolder
  | missingExpiry
  deriving DecidableEq, Repr

def decodeKey (hex : String) : Except TokenError Key32 :=
  match decode32 hex with
  | some key => .ok key
  | none => .error .encoding

def decodeSig (hex : String) : Except TokenError Signature :=
  match (hexDecode hex).bind (toArray? 64) with
  | some sig => .ok sig
  | none => .error .encoding

variable (ed : Ed25519) (t : CapabilityToken)

namespace CapabilityToken

def mint (issuer holderPubkey : Key32) (caveats : List Caveat) : CapabilityToken :=
  { layers := [
      { holderPubkey := hexEncode holderPubkey.val
        caveats := caveats
        signerPubkey := hexEncode (ed.verifyingKey issuer).val
        sig := hexEncode (ed.sign issuer (layerBytes 0 holderPubkey caveats [])).val }] }

/-- The last layer's delegate. -/
def holder : Except TokenError Key32 :=
  match t.layers.getLast? with
  | some last => decodeKey last.holderPubkey
  | none => .error .empty

def attenuate (holderKey delegatePubkey : Key32)
    (addedCaveats : List Caveat) : Except TokenError CapabilityToken := do
  let currentHolder ← t.holder
  if ed.verifyingKey holderKey ≠ currentHolder then
    .error .notHolder
  else
    match t.layers.getLast? with
    | none => .error .empty
    | some last =>
      let prevSig ← decodeSig last.sig
      let msg := layerBytes t.layers.length delegatePubkey addedCaveats prevSig.val
      .ok { layers := t.layers ++ [
        { holderPubkey := hexEncode delegatePubkey.val
          caveats := addedCaveats
          signerPubkey := hexEncode currentHolder.val
          sig := hexEncode (ed.sign holderKey msg).val }] }

/-- The loop variables of `verify`. -/
structure Cursor where
  index : Nat
  expectedSigner : Key32
  prevSig : Bytes
  sawExpiry : Bool
  deriving DecidableEq, Repr

def checkCaveats (ctx : AuthContext) : Bool → List Caveat → Except TokenError Bool
  | sawExpiry, [] => .ok sawExpiry
  | sawExpiry, caveat :: caveats =>
    if !caveat.satisfiedBy ctx then .error .caveatFailed
    else checkCaveats ctx (sawExpiry || caveat.isExpiry) caveats

def verifyLayer (trustedIssuer : Key32) (ctx : AuthContext) (c : Cursor)
    (layer : Layer) : Except TokenError Cursor := do
  let signer ← decodeKey layer.signerPubkey
  if c.index = 0 ∧ signer ≠ trustedIssuer then
    .error .issuerMismatch
  else if c.index ≠ 0 ∧ signer ≠ c.expectedSigner then
    .error (.brokenChain c.index)
  else
    let holder ← decodeKey layer.holderPubkey
    let sig ← decodeSig layer.sig
    if !ed.isVerifyingKey signer then
      .error .encoding
    else if !ed.verifyStrict signer (layerBytes c.index holder layer.caveats c.prevSig) sig then
      .error (.badSignature c.index)
    else
      let sawExpiry ← checkCaveats ctx c.sawExpiry layer.caveats
      .ok ⟨c.index + 1, holder, sig.val, sawExpiry⟩

def verify (trustedIssuer : Key32) (ctx : AuthContext) : Except TokenError Key32 :=
  if t.layers = [] then
    .error .empty
  else do
    let c ← t.layers.foldlM (verifyLayer ed trustedIssuer ctx) ⟨0, trustedIssuer, [], false⟩
    if !c.sawExpiry then .error .missingExpiry else t.holder

def caveats : List Caveat :=
  t.layers.flatMap (·.caveats)

/-- Whether any layer carries the caveat. -/
def authorizes (caveat : Caveat) : Bool :=
  t.caveats.any (· == caveat)

def authorizesGroup (group : String) : Bool :=
  t.authorizes (.group group)

def authorizesRegion (region : String) : Bool :=
  t.authorizes (.region region)

end CapabilityToken

open CapabilityToken

/-- The common part of the two proofs below. -/
def verifyScope (token : CapabilityToken) (issuerPk : Key32) (authorized : Bool)
    (ctx : AuthContext) : Except TokenError Key32 :=
  if !authorized then .error .caveatFailed else token.verify ed issuerPk ctx

def groupContext (group : String) (now : UInt64) : AuthContext :=
  { now := now, group := some group }

def regionContext (region : String) (now : UInt64) : AuthContext :=
  { now := now, region := some region }

def verifyGroupMembership (token : CapabilityToken) (issuerPk : Key32)
    (group : String) (now : UInt64) : Except TokenError Key32 :=
  verifyScope ed token issuerPk (token.authorizesGroup group) (groupContext group now)

def verifyRegionAttestation (token : CapabilityToken) (issuerPk : Key32)
    (region : String) (now : UInt64) : Except TokenError Key32 :=
  verifyScope ed token issuerPk (token.authorizesRegion region) (regionContext region now)

/-! ## What the issuer signed -/

/-- The lengths that the encoding writes in eight bytes fit there. -/
def Caveat.Fits : Caveat → Prop
  | .expiresAt _ => True
  | .operation s => (utf8 s).length < 256 ^ 8
  | .resourcePrefix s => (utf8 s).length < 256 ^ 8
  | .maxRows _ => True
  | .group s => (utf8 s).length < 256 ^ 8
  | .region s => (utf8 s).length < 256 ^ 8

variable {rest rest' : Bytes} {cs cs' : List Caveat} {layer : Layer} {ctx : AuthContext}

theorem encodeText_append_inj {tag : UInt8} {s s' : String} (hs : (utf8 s).length < 256 ^ 8)
    (hs' : (utf8 s').length < 256 ^ 8) (h : encodeText tag s ++ rest = encodeText tag s' ++ rest') :
    s = s' ∧ rest = rest' := by
  have hbody : Octets.toLe 8 (utf8 s).length ++ (utf8 s ++ rest) =
      Octets.toLe 8 (utf8 s').length ++ (utf8 s' ++ rest') := by
    simpa [encodeText] using h
  obtain ⟨hutf8, hrest⟩ := Octets.sized_append_inj hs hs' hbody
  exact ⟨utf8_inj hutf8, hrest⟩

theorem encodeNumber_append_inj {tag : UInt8} {n n' : UInt64}
    (h : tag :: Octets.toLe 8 n.toNat ++ rest = tag :: Octets.toLe 8 n'.toNat ++ rest') :
    n = n' ∧ rest = rest' := by
  obtain ⟨hn, hrest⟩ := Octets.toLe_append_inj n.toNat_lt n'.toNat_lt (List.cons.inj h).2
  exact ⟨UInt64.toNat_inj.mp hn, hrest⟩

/-- One caveat can be read off the front: the tag says which kind it is, and the kind how far it
    goes. -/
theorem encodeCaveat_append_inj {c c' : Caveat} (hc : c.Fits) (hc' : c'.Fits)
    (h : encodeCaveat c ++ rest = encodeCaveat c' ++ rest') :
    c = c' ∧ rest = rest' := by
  cases c <;> cases c' <;> try exact absurd (List.cons.inj h).1 (by decide)
  case expiresAt.expiresAt | maxRows.maxRows =>
    exact (encodeNumber_append_inj h).imp_left (congrArg _)
  case operation.operation | resourcePrefix.resourcePrefix | group.group | region.region =>
    exact (encodeText_append_inj hc hc' h).imp_left (congrArg _)

theorem flatMap_encodeCaveat_inj (hcs : ∀ c ∈ cs, c.Fits) (hcs' : ∀ c ∈ cs', c.Fits)
    (hlen : cs.length = cs'.length) (h : cs.flatMap encodeCaveat = cs'.flatMap encodeCaveat) :
    cs = cs' := by
  have hdelimited : Codec.Delimited (· = ·) Caveat.Fits encodeCaveat :=
    fun _ _ _ _ hc hc' heq => encodeCaveat_append_inj hc hc' heq
  exact (hdelimited.list hcs hcs' hlen (congrArg (· ++ []) h)).1

/-- The sizes of a layer that its encoding writes in eight bytes. -/
structure LayerFits (index : Nat) (caveats : List Caveat) (prevSig : Bytes) : Prop where
  index : index < 256 ^ 8
  count : caveats.length < 256 ^ 8
  texts : ∀ c ∈ caveats, c.Fits
  encoded : (encodeCaveats caveats).length < 256 ^ 8
  prevSig : prevSig.length < 256 ^ 8

/-- The signed bytes determine the layer. -/
theorem layerBytes_inj {i i' : Nat} {k k' : Key32} {p p' : Bytes} (hfits : LayerFits i cs p)
    (hfits' : LayerFits i' cs' p') (h : layerBytes i k cs p = layerBytes i' k' cs' p') :
    i = i' ∧ k = k' ∧ cs = cs' ∧ p = p' := by
  unfold layerBytes at h
  have hwidth : ∀ n n', (Octets.toLe 8 n).length = (Octets.toLe 8 n').length := fun n n' => by
    rw [Octets.length_toLe, Octets.length_toLe]
  simp only [List.append_assoc] at h
  have h := List.append_cancel_left h
  obtain ⟨hindex, h⟩ := List.append_inj h (hwidth _ _)
  obtain ⟨hkey, h⟩ := List.append_inj h (k.property.trans k'.property.symm)
  obtain ⟨hlen, h⟩ := List.append_inj h (hwidth _ _)
  obtain ⟨hcaveats, h⟩ := List.append_inj h (Octets.toLe_inj hfits.encoded hfits'.encoded hlen)
  obtain ⟨-, hprev⟩ := List.append_inj h (hwidth _ _)
  obtain ⟨hcount, hcaveats⟩ := List.append_inj hcaveats (hwidth _ _)
  exact ⟨Octets.toLe_inj hfits.index hfits'.index hindex, Subtype.ext hkey,
    flatMap_encodeCaveat_inj hfits.texts hfits'.texts
      (Octets.toLe_inj hfits.count hfits'.count hcount) hcaveats, hprev⟩

theorem checkCaveats_eq (ctx : AuthContext) (saw : Bool) (caveats : List Caveat) :
    checkCaveats ctx saw caveats =
      if caveats.all (·.satisfiedBy ctx) then .ok (saw || caveats.any (·.isExpiry))
      else .error .caveatFailed := by
  induction caveats generalizing saw with
  | nil => simp [checkCaveats]
  | cons c caveats ih =>
    rw [checkCaveats, List.all_cons, List.any_cons]
    cases hc : c.satisfiedBy ctx with
    | false => rfl
    | true => rw [Bool.not_true, if_neg Bool.false_ne_true, ih, Bool.true_and, Bool.or_assoc]

/-- What a layer says, decoded. -/
structure LayerContent where
  signer : Key32
  holder : Key32
  caveats : List Caveat
  sig : Signature

def Layer.content (layer : Layer) : Except TokenError LayerContent := do
  let signer ← decodeKey layer.signerPubkey
  let holder ← decodeKey layer.holderPubkey
  let sig ← decodeSig layer.sig
  .ok ⟨signer, holder, layer.caveats, sig⟩

theorem Layer.content_eq_ok {l : LayerContent} :
    layer.content = .ok l ↔ decodeKey layer.signerPubkey = .ok l.signer ∧
      decodeKey layer.holderPubkey = .ok l.holder ∧ decodeSig layer.sig = .ok l.sig ∧
      layer.caveats = l.caveats := by
  unfold Layer.content
  constructor
  · intro h
    obtain ⟨signer, hsigner, h⟩ := bind_eq_ok.mp h
    obtain ⟨holder, hholder, h⟩ := bind_eq_ok.mp h
    obtain ⟨sig, hsig, h⟩ := bind_eq_ok.mp h
    cases h
    exact ⟨hsigner, hholder, hsig, rfl⟩
  · rintro ⟨hsigner, hholder, hsig, hcaveats⟩
    rw [hsigner, hholder, hsig, hcaveats]
    rfl

/-- What a layer that passes the loop of `verify` consists of, and where it leaves the loop. -/
theorem verifyLayer_eq_ok {ed : Ed25519} {trusted : Key32} {c c' : Cursor}
    (h : verifyLayer ed trusted ctx c layer = .ok c') :
    ∃ l, layer.content = .ok l ∧ (c.index = 0 → l.signer = trusted) ∧
      (c.index ≠ 0 → l.signer = c.expectedSigner) ∧
      ed.verifyStrict l.signer (layerBytes c.index l.holder l.caveats c.prevSig) l.sig = true ∧
      l.caveats.all (·.satisfiedBy ctx) = true ∧
      c' = ⟨c.index + 1, l.holder, l.sig.val, c.sawExpiry || l.caveats.any (·.isExpiry)⟩ := by
  obtain ⟨signer, hsigner, h⟩ := bind_eq_ok.mp h
  obtain ⟨hfirst, h⟩ := check_eq_ok.mp h
  obtain ⟨hlater, h⟩ := check_eq_ok.mp h
  obtain ⟨holder, hholder, h⟩ := bind_eq_ok.mp h
  obtain ⟨sig, hsig, h⟩ := bind_eq_ok.mp h
  obtain ⟨-, h⟩ := check_eq_ok.mp h
  obtain ⟨hverify, h⟩ := check_eq_ok.mp h
  rw [checkCaveats_eq] at h
  obtain ⟨saw, hsaw, h⟩ := bind_eq_ok.mp h
  refine ⟨⟨signer, holder, layer.caveats, sig⟩,
    Layer.content_eq_ok.mpr ⟨hsigner, hholder, hsig, rfl⟩, fun h0 => ?_, fun h0 => ?_, ?_, ?_⟩
  · exact not_not.mp fun hne => hfirst ⟨h0, hne⟩
  · exact not_not.mp fun hne => hlater ⟨h0, hne⟩
  · rwa [Bool.not_eq_true, Bool.not_eq_false'] at hverify
  · cases hall : layer.caveats.all (·.satisfiedBy ctx) with
    | false =>
      rw [hall] at hsaw
      cases hsaw
    | true =>
      rw [hall, if_pos rfl] at hsaw
      cases hsaw
      cases h
      exact ⟨rfl, rfl⟩

/-! ## When an attenuated token is accepted -/

/-- ed25519: what a signing key signs verifies under its own verifying key. -/
structure Ed25519.Correct (ed : Ed25519) : Prop where
  isKey : ∀ key, ed.isVerifyingKey (ed.verifyingKey key) = true
  verifies : ∀ key msg, ed.verifyStrict (ed.verifyingKey key) msg (ed.sign key msg) = true

/-- The tokens that successive holders make of `root`. -/
inductive AttenuatedFrom (ed : Ed25519) (root : CapabilityToken) : CapabilityToken → Prop
  | root : AttenuatedFrom ed root root
  | attenuate {t t' : CapabilityToken} {holderKey delegatePubkey : Key32} {added : List Caveat} :
      AttenuatedFrom ed root t → t.attenuate ed holderKey delegatePubkey added = .ok t' →
      AttenuatedFrom ed root t'

namespace CapabilityToken

/-- Every caveat of the token holds. -/
def passes (ctx : AuthContext) : Bool :=
  t.caveats.all (·.satisfiedBy ctx)

def hasExpiry : Bool :=
  t.caveats.any (·.isExpiry)

end CapabilityToken

theorem decodeKey_hexEncode (key : Key32) : decodeKey (hexEncode key.val) = .ok key := by
  unfold decodeKey
  rw [decode32_hexEncode]

theorem decodeSig_hexEncode (sig : Signature) : decodeSig (hexEncode sig.val) = .ok sig := by
  unfold decodeSig
  rw [hexDecode_hexEncode, Option.bind_some, toArray?_val]

/-- A layer as a holder of the signing key `key` makes it. -/
def signedLayer (index : Nat) (key delegate : Key32) (caveats : List Caveat)
    (prevSig : Bytes) : Layer :=
  { holderPubkey := hexEncode delegate.val
    caveats := caveats
    signerPubkey := hexEncode (ed.verifyingKey key).val
    sig := hexEncode (ed.sign key (layerBytes index delegate caveats prevSig)).val }

theorem verifyLayer_signedLayer {ed : Ed25519} (hed : ed.Correct) {trusted : Key32}
    (ctx : AuthContext) (c : Cursor) {key : Key32} (delegate : Key32) (caveats : List Caveat)
    (hfirst : c.index = 0 → ed.verifyingKey key = trusted)
    (hlater : ed.verifyingKey key = c.expectedSigner) :
    verifyLayer ed trusted ctx c (signedLayer ed c.index key delegate caveats c.prevSig) =
      if caveats.all (·.satisfiedBy ctx) then
        .ok ⟨c.index + 1, delegate,
          (ed.sign key (layerBytes c.index delegate caveats c.prevSig)).val,
          c.sawExpiry || caveats.any (·.isExpiry)⟩
      else .error .caveatFailed := by
  have hsigner : ¬ (c.index = 0 ∧ ed.verifyingKey key ≠ trusted) := fun h => h.2 (hfirst h.1)
  have hchain : ¬ (c.index ≠ 0 ∧ ed.verifyingKey key ≠ c.expectedSigner) := fun h => h.2 hlater
  simp only [verifyLayer, signedLayer, decodeKey_hexEncode, decodeSig_hexEncode, checkCaveats_eq,
    hed.isKey, hed.verifies, bind, Except.bind, if_neg hsigner, if_neg hchain]
  cases caveats.all (·.satisfiedBy ctx) <;> rfl

section Attenuated

variable {ed : Ed25519}

variable {t : CapabilityToken} {caveats : List Caveat} {issuer holder : Key32}

/-- What one attenuation does: the holder's key signs one more layer. -/
theorem attenuate_eq_ok {t' : CapabilityToken} {holderKey delegate : Key32} {added : List Caveat}
    (h : t.attenuate ed holderKey delegate added = .ok t') :
    ∃ last sig, t.layers.getLast? = some last ∧ t.holder = .ok (ed.verifyingKey holderKey) ∧
      decodeSig last.sig = .ok sig ∧
      t'.layers = t.layers ++ [signedLayer ed t.layers.length holderKey delegate added sig.val] := by
  obtain ⟨current, hholder, h⟩ := bind_eq_ok.mp h
  obtain ⟨hkey, h⟩ := check_eq_ok.mp h
  obtain rfl := not_not.mp hkey
  cases hlast : t.layers.getLast? with
  | none =>
    rw [hlast] at h
    cases h
  | some last =>
    rw [hlast] at h
    obtain ⟨sig, hsig, h⟩ := bind_eq_ok.mp h
    cases h
    exact ⟨last, sig, rfl, hholder, hsig, rfl⟩

section

variable (h : AttenuatedFrom ed (mint ed issuer holder caveats) t)

include h

/-- The issuer's layer stays the first. -/
theorem AttenuatedFrom.take_one :
    t.layers.take 1 = (mint ed issuer holder caveats).layers := by
  induction h with
  | root => rfl
  | @attenuate t t' _ _ _ _ hstep ih =>
    obtain ⟨last, _, hlast, _, _, hlayers⟩ := attenuate_eq_ok hstep
    have hpos : 0 < t.layers.length := List.length_pos_of_mem (List.mem_of_getLast? hlast)
    rw [hlayers, List.take_append_of_le_length hpos, ih]

/-- The loop of `verify` on an attenuated token ends at its holder and its last signature, or at a
    caveat that fails. -/
theorem AttenuatedFrom.verifyLayers (hed : ed.Correct) (ctx : AuthContext) :
    ∃ who last sig, t.holder = .ok who ∧ t.layers.getLast? = some last ∧
      decodeSig last.sig = .ok sig ∧
      t.layers.foldlM (verifyLayer ed (ed.verifyingKey issuer) ctx)
          ⟨0, ed.verifyingKey issuer, [], false⟩ =
        if t.passes ctx then .ok ⟨t.layers.length, who, sig.val, t.hasExpiry⟩
        else .error .caveatFailed := by
  induction h with
  | root =>
    refine ⟨holder, _, _, decodeKey_hexEncode holder, rfl, decodeSig_hexEncode _, ?_⟩
    have hcaveats : (mint ed issuer holder caveats).caveats = caveats := List.append_nil _
    have hlayer : verifyLayer ed (ed.verifyingKey issuer) ctx _ (signedLayer ed 0 issuer holder
        caveats []) = _ := verifyLayer_signedLayer hed ctx ⟨0, ed.verifyingKey issuer, [], false⟩
      holder caveats (fun _ => rfl) rfl
    unfold passes hasExpiry
    rw [hcaveats]
    show List.foldlM _ _ [signedLayer ed 0 issuer holder caveats []] = _
    rw [List.foldlM_cons, hlayer]
    cases caveats.all (·.satisfiedBy ctx) <;> rfl
  | @attenuate t t' key delegate added _ hstep ih =>
    obtain ⟨who, last, sig, hwho, hlast, hsig, hloop⟩ := ih
    obtain ⟨last', sig', hlast', hwho', hsig', hlayers⟩ := attenuate_eq_ok hstep
    obtain rfl : last = last' := Option.some.inj (hlast.symm.trans hlast')
    obtain rfl : sig = sig' := Except.ok.inj (hsig.symm.trans hsig')
    obtain rfl : who = ed.verifyingKey key := Except.ok.inj (hwho.symm.trans hwho')
    have hcaveats : t'.caveats = t.caveats ++ added := by
      unfold CapabilityToken.caveats
      rw [hlayers, List.flatMap_append]
      exact congrArg _ (List.append_nil _)
    have hpos : 0 < t.layers.length := List.length_pos_of_mem (List.mem_of_getLast? hlast)
    have hlayer : verifyLayer ed (ed.verifyingKey issuer) ctx _ (signedLayer ed t.layers.length key
        delegate added sig.val) = _ := verifyLayer_signedLayer hed ctx
      ⟨t.layers.length, ed.verifyingKey key, sig.val, t.hasExpiry⟩ delegate added
      (fun h0 => absurd h0 (Nat.ne_of_gt hpos)) rfl
    refine ⟨delegate, signedLayer ed t.layers.length key delegate added sig.val, _, ?_, ?_,
      decodeSig_hexEncode _, ?_⟩
    · unfold CapabilityToken.holder
      rw [hlayers, List.getLast?_concat]
      exact decodeKey_hexEncode delegate
    · rw [hlayers, List.getLast?_concat]
    · rw [hlayers, List.foldlM_append, hloop]
      unfold passes hasExpiry at *
      rw [hcaveats, List.all_append, List.any_append, List.length_append]
      cases t.caveats.all (·.satisfiedBy ctx) with
      | false => rfl
      | true =>
        show (List.foldlM _ _ [_] : Except TokenError Cursor) = _
        rw [List.foldlM_cons, hlayer, Bool.true_and]
        cases added.all (·.satisfiedBy ctx) <;> rfl

/-- An attenuated token is accepted when its caveats hold and one of them is an expiry. -/
theorem verify_attenuated (hed : ed.Correct) (ctx : AuthContext) :
    (∃ who, t.verify ed (ed.verifyingKey issuer) ctx = .ok who) ↔
      t.passes ctx = true ∧ t.hasExpiry = true := by
  obtain ⟨who, last, sig, hwho, hlast, _, hloop⟩ := h.verifyLayers hed ctx
  have hne : t.layers ≠ [] := List.ne_nil_of_mem (List.mem_of_getLast? hlast)
  unfold CapabilityToken.verify
  rw [if_neg hne, hloop]
  cases t.passes ctx with
  | false =>
    constructor
    · rintro ⟨_, h⟩
      cases h
    · rintro ⟨h, _⟩
      cases h
  | true =>
    show (∃ w, (if !t.hasExpiry then Except.error TokenError.missingExpiry else t.holder) = .ok w) ↔ _
    rw [hwho]
    cases t.hasExpiry with
    | false | true => simp

/-! ## Groups and regions -/

/-- What the holders added to the issuer's layer. -/
def CapabilityToken.added (t : CapabilityToken) : CapabilityToken :=
  ⟨t.layers.drop 1⟩

/-- The token names the scope, and none of its caveats stands against it. -/
def CapabilityToken.Grants (t : CapabilityToken) (scope : Caveat) (ctx : AuthContext) : Prop :=
  t.authorizes scope = true ∧ t.passes ctx = true

/-- A scope that the holders name is named by the issuer too, or the token is refused for its other
    caveats: one of them fails, or there is no expiry among them. -/
def CapabilityToken.ScopeKept (root t : CapabilityToken) (scope : Caveat) (ctx : AuthContext) :
    Prop :=
  t.added.authorizes scope = true →
    root.authorizes scope = true ∨ t.passes ctx = false ∨ t.hasExpiry = false

theorem AttenuatedFrom.caveats_eq :
    t.caveats = (mint ed issuer holder caveats).caveats ++ t.added.caveats := by
  unfold CapabilityToken.caveats CapabilityToken.added
  rw [← h.take_one, ← List.flatMap_append, List.take_append_drop]

end

theorem verifyScope_eq_ok {issuerPk : Key32} {authorized : Bool} {ctx : AuthContext} :
    (∃ who, verifyScope ed t issuerPk authorized ctx = .ok who) ↔
      authorized = true ∧ ∃ who, t.verify ed issuerPk ctx = .ok who := by
  unfold verifyScope
  cases authorized <;> simp

theorem scope_granted_iff (hed : ed.Correct)
    (h : AttenuatedFrom ed (mint ed issuer holder caveats) t) (scope : Caveat) (ctx : AuthContext) :
    ((∃ who, verifyScope ed t (ed.verifyingKey issuer) (t.authorizes scope) ctx = .ok who) →
        (mint ed issuer holder caveats).Grants scope ctx) ↔
      (mint ed issuer holder caveats).ScopeKept t scope ctx := by
  have hauthorizes : t.authorizes scope =
      ((mint ed issuer holder caveats).authorizes scope || t.added.authorizes scope) := by
    unfold authorizes
    rw [h.caveats_eq, List.any_append]
  have hpasses : t.passes ctx =
      ((mint ed issuer holder caveats).passes ctx && t.added.passes ctx) := by
    unfold passes
    rw [h.caveats_eq, List.all_append]
  rw [verifyScope_eq_ok, verify_attenuated h hed]
  unfold Grants ScopeKept
  rw [hauthorizes, hpasses]
  cases (mint ed issuer holder caveats).authorizes scope <;>
    cases (mint ed issuer holder caveats).passes ctx <;> cases t.added.authorizes scope <;>
    cases t.added.passes ctx <;> cases t.hasExpiry <;> simp

/-- A proof of membership or of residence is backed by the issuer's own layer exactly for the tokens
    whose holders kept the scope: nothing in `attenuate` or `verify` keeps a holder from adding a
    group or a region of its choice. -/
theorem issuer_grants_iff (hed : ed.Correct) (issuer holder : Key32) (caveats : List Caveat)
    (t : CapabilityToken) (h : AttenuatedFrom ed (mint ed issuer holder caveats) t)
    (now : UInt64) :
    (∀ group, ((∃ who, verifyGroupMembership ed t (ed.verifyingKey issuer) group now = .ok who) →
        (mint ed issuer holder caveats).Grants (.group group) (groupContext group now)) ↔
      (mint ed issuer holder caveats).ScopeKept t (.group group) (groupContext group now)) ∧
    (∀ region,
      ((∃ who, verifyRegionAttestation ed t (ed.verifyingKey issuer) region now = .ok who) →
        (mint ed issuer holder caveats).Grants (.region region) (regionContext region now)) ↔
      (mint ed issuer holder caveats).ScopeKept t (.region region) (regionContext region now)) :=
  ⟨fun group => scope_granted_iff hed h (.group group) (groupContext group now),
    fun region => scope_granted_iff hed h (.region region) (regionContext region now)⟩

/-- A minted token after one attenuation. -/
def delegatedOnce (ed : Ed25519) (issuer key delegate : Key32) (caveats added : List Caveat) :
    CapabilityToken :=
  ⟨[signedLayer ed 0 issuer (ed.verifyingKey key) caveats [],
    signedLayer ed 1 key delegate added
      (ed.sign issuer (layerBytes 0 (ed.verifyingKey key) caveats [])).val]⟩

theorem attenuatedFrom_delegatedOnce (ed : Ed25519) (issuer key delegate : Key32)
    (caveats added : List Caveat) :
    AttenuatedFrom ed (mint ed issuer (ed.verifyingKey key) caveats)
      (delegatedOnce ed issuer key delegate caveats added) := by
  refine @AttenuatedFrom.attenuate ed _ _ _ key delegate added .root ?_
  have hholder : (mint ed issuer (ed.verifyingKey key) caveats).holder =
      .ok (ed.verifyingKey key) := decodeKey_hexEncode _
  have hsig : decodeSig (signedLayer ed 0 issuer (ed.verifyingKey key) caveats []).sig = _ :=
    decodeSig_hexEncode _
  unfold CapabilityToken.attenuate
  rw [hholder]
  show (if ed.verifyingKey key ≠ ed.verifyingKey key then _ else
    decodeSig (signedLayer ed 0 issuer (ed.verifyingKey key) caveats []).sig >>= _) = _
  rw [if_neg (not_not.mpr rfl), hsig]
  rfl

end Attenuated

/-- Signatures that repeat the key and the end of the message, for keys that are their own public
    half. -/
def plainEd25519 : Ed25519 where
  verifyingKey key := key
  isVerifyingKey _ := true
  sign key msg := ⟨key.val ++ (msg.reverse ++ List.replicate 32 0).take 32, by
    rw [List.length_append, key.property, List.length_take, List.length_append,
      List.length_replicate]
    omega⟩
  verifyStrict key msg sig :=
    sig.val == key.val ++ (msg.reverse ++ List.replicate 32 0).take 32

theorem plainEd25519_correct : plainEd25519.Correct :=
  ⟨fun _ => rfl, fun _ _ => beq_self_eq_true _⟩

def issuerKey : Key32 := ⟨List.replicate 32 1, List.length_replicate⟩

def memberKey : Key32 := ⟨List.replicate 32 2, List.length_replicate⟩

/-- The issuer puts the holder into a group, the holder adds a row limit. -/
theorem finance_member_granted :
    (∃ who, verifyGroupMembership plainEd25519
      (delegatedOnce plainEd25519 issuerKey memberKey memberKey
        [.group "finance", .expiresAt 2000] [.maxRows 10])
      (plainEd25519.verifyingKey issuerKey) "finance" 1000 = .ok who) ∧
    (mint plainEd25519 issuerKey memberKey [.group "finance", .expiresAt 2000]).Grants
      (.group "finance") (groupContext "finance" 1000) := by
  have hfrom := attenuatedFrom_delegatedOnce plainEd25519 issuerKey memberKey memberKey
    [.group "finance", .expiresAt 2000] [.maxRows 10]
  have hkept := (issuer_grants_iff plainEd25519_correct issuerKey memberKey _ _ hfrom 1000).1
    "finance"
  have hgrants := hkept.mpr fun _ => .inl (by decide)
  refine (and_iff_left_of_imp hgrants).mpr (verifyScope_eq_ok.mpr ⟨by decide, ?_⟩)
  exact (verify_attenuated hfrom plainEd25519_correct _).mpr (by decide)

/-- The issuer grants no group at all; the holder adds one and proves membership with it. -/
theorem holder_grants_itself :
    AttenuatedFrom plainEd25519 (mint plainEd25519 issuerKey memberKey [.expiresAt 2000])
      (delegatedOnce plainEd25519 issuerKey memberKey memberKey [.expiresAt 2000]
        [.group "finance"]) ∧
    (∃ who, verifyGroupMembership plainEd25519
      (delegatedOnce plainEd25519 issuerKey memberKey memberKey [.expiresAt 2000]
        [.group "finance"])
      (plainEd25519.verifyingKey issuerKey) "finance" 1000 = .ok who) ∧
    (mint plainEd25519 issuerKey memberKey [.expiresAt 2000]).authorizesGroup "finance" = false := by
  have hfrom := attenuatedFrom_delegatedOnce plainEd25519 issuerKey memberKey memberKey
    [.expiresAt 2000] [.group "finance"]
  refine ⟨hfrom, verifyScope_eq_ok.mpr ⟨by decide, ?_⟩, by decide⟩
  exact (verify_attenuated hfrom plainEd25519_correct _).mpr (by decide)

end Duckton.Trust
