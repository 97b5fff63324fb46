/-
  The delegation chain of an accepted capability token (trust/token.rs, verify).

  Signatures are ideal here: one verifies only if the owner of the key signed the message. A layer's
  signature stands for the layer and for everything before it, because the signed bytes hold the
  signature of the layer before. `agree_of_sig` chases these links: wherever two accepted tokens
  carry the same signature, they carry it at the same place and agree up to there. What this takes
  of the signatures is asked of the two tokens only: none that they share stands for two messages.
-/
import Duckton.Trust.Token

namespace Duckton.Trust

open Duckton.Proto
open Fallible (bind_eq_ok check_eq_ok)
open CapabilityToken

/-! ## Ideal signatures -/

/-- What verifies under a key, its owner signed. -/
def Unforgeable (ed : Ed25519) (signs : Key32 → Bytes → Prop) : Prop :=
  ∀ k msg sig, ed.verifyStrict k msg sig = true → signs k msg

/-- The owner of `signer` signed this layer, and the signed bytes are those of no other layer. -/
def SignedExactly (signs : Key32 → Bytes → Prop) (signer : Key32) (index : Nat) (holder : Key32)
    (caveats : List Caveat) (prevSig : Bytes) : Prop :=
  signs signer (layerBytes index holder caveats prevSig) ∧
    ∀ index' holder' caveats' prevSig', LayerFits index' caveats' prevSig' →
      layerBytes index' holder' caveats' prevSig' = layerBytes index holder caveats prevSig →
      index' = index ∧ holder' = holder ∧ caveats' = caveats ∧ prevSig' = prevSig

/-! ## Tokens in memory -/

/-- Vectors and strings have a length that a `u64` holds. -/
structure TokenFits (t : CapabilityToken) : Prop where
  length : t.layers.length < 256 ^ 8
  layers : ∀ layer ∈ t.layers, LayerFits 0 layer.caveats []

abbrev HeldToken := { t : CapabilityToken // TokenFits t }

/-- `ls` is what the layers of the token say. -/
def Decodes (t : CapabilityToken) (ls : List LayerContent) : Prop :=
  List.Forall₂ (fun layer l => layer.content = .ok l) t.layers ls

variable {index : Nat} {t : CapabilityToken}

theorem Decodes.unique {ls ls' : List LayerContent} (h : Decodes t ls)
    (h' : Decodes t ls') : ls = ls' := by
  unfold Decodes at h h'
  rw [← Fallible.mapM_eq_ok] at h h'
  exact Except.ok.inj (h.symm.trans h')

/-! ## Linked layers -/

section Linked

variable {R R' : Key32 → Bytes → Signature → Prop}

/-- Each layer is signed, in the sense of `R`, by the holder that the layer before it names, over
    the signature of that layer. -/
def Linked (R : Key32 → Bytes → Signature → Prop) :
    (index : Nat) → (signer : Key32) → (prevSig : Bytes) → List LayerContent → Prop
  | _, _, _, [] => True
  | index, signer, prevSig, l :: rest =>
    l.signer = signer ∧ R signer (layerBytes index l.holder l.caveats prevSig) l.sig ∧
      Linked R (index + 1) l.holder l.sig.val rest

variable {signer : Key32} {prevSig : Bytes} {ls : List LayerContent} {l : LayerContent}

theorem Linked.first (h : Linked R index signer prevSig ls) (hl : ls[0]? = some l) :
    l.signer = signer ∧ R signer (layerBytes index l.holder l.caveats prevSig) l.sig := by
  cases ls with
  | nil => cases hl
  | cons first rest =>
    cases hl
    exact ⟨h.1, h.2.1⟩

theorem Linked.next (h : Linked R index signer prevSig ls) {i : Nat}
    {prev : LayerContent} (hprev : ls[i]? = some prev) (hl : ls[i + 1]? = some l) :
    l.signer = prev.holder ∧
      R prev.holder (layerBytes (index + i + 1) l.holder l.caveats prev.sig.val) l.sig := by
  induction i generalizing index signer prevSig ls with
  | zero =>
    cases ls with
    | nil => cases hprev
    | cons first rest =>
      cases hprev
      exact h.2.2.first hl
  | succ i ih =>
    cases ls with
    | nil => cases hprev
    | cons first rest =>
      have hrest := ih h.2.2 hprev hl
      rwa [Nat.add_right_comm index 1 i] at hrest

end Linked

/-! ## What `verify` establishes -/

section Verify

variable {ed : Ed25519} {trusted : Key32} {ctx : AuthContext}

/-- The loop of `verify`. -/
theorem linked_of_verifyLayers {layers : List Layer} {c c' : Cursor}
    (h : layers.foldlM (verifyLayer ed trusted ctx) c = .ok c')
    (hstart : c.index = 0 → c.expectedSigner = trusted) :
    ∃ ls, List.Forall₂ (fun layer l => layer.content = .ok l) layers ls ∧
      Linked (fun k msg sig => ed.verifyStrict k msg sig = true) c.index c.expectedSigner c.prevSig
        ls ∧
      (layers.flatMap (·.caveats)).all (·.satisfiedBy ctx) = true ∧
      c'.sawExpiry = (c.sawExpiry || (layers.flatMap (·.caveats)).any (·.isExpiry)) := by
  induction layers generalizing c with
  | nil =>
    cases h
    exact ⟨[], .nil, trivial, rfl, (Bool.or_false _).symm⟩
  | cons layer layers ih =>
    obtain ⟨mid, hstep, hloop⟩ := bind_eq_ok.mp h
    obtain ⟨l, hcontent, hfirst, hlater, hverify, hall, rfl⟩ := verifyLayer_eq_ok hstep
    have hcaveats : layer.caveats = l.caveats := (Layer.content_eq_ok.mp hcontent).2.2.2
    have hsigner : l.signer = c.expectedSigner := by
      by_cases h0 : c.index = 0
      · rw [hfirst h0, hstart h0]
      · exact hlater h0
    obtain ⟨ls, hdecodes, hlinked, hpasses, hexpiry⟩ :=
      ih hloop fun h0 => absurd h0 (Nat.succ_ne_zero _)
    refine ⟨l :: ls, .cons hcontent hdecodes, ⟨hsigner, hsigner ▸ hverify, hlinked⟩, ?_, ?_⟩
    · rw [List.flatMap_cons, List.all_append, hcaveats, hall, hpasses]
      rfl
    · rw [List.flatMap_cons, List.any_append, hcaveats, hexpiry, Bool.or_assoc]

theorem linked_of_verify {who : Key32} (h : t.verify ed trusted ctx = .ok who) :
    ∃ ls, Decodes t ls ∧ ls ≠ [] ∧
      Linked (fun k msg sig => ed.verifyStrict k msg sig = true) 0 trusted [] ls ∧
      t.passes ctx = true ∧ t.hasExpiry = true := by
  obtain ⟨hempty, h⟩ := check_eq_ok.mp h
  obtain ⟨c, hloop, h⟩ := bind_eq_ok.mp h
  obtain ⟨hsaw, -⟩ := check_eq_ok.mp h
  obtain ⟨ls, hdecodes, hlinked, hpasses, hexpiry⟩ := linked_of_verifyLayers hloop fun _ => rfl
  refine ⟨ls, hdecodes, ?_, hlinked, hpasses, ?_⟩
  · rintro rfl
    exact hempty (List.forall₂_nil_right_iff.mp hdecodes)
  · rwa [hexpiry, Bool.false_or, Bool.not_eq_true, Bool.not_eq_false'] at hsaw

end Verify

/-! ## One signature, one prefix -/

variable {ls : List LayerContent} {i : Nat} {l : LayerContent} {issuer : Key32}

variable {t : CapabilityToken} {prevSig : Bytes} {ed : Ed25519} {l' : LayerContent}

theorem Decodes.fits (ht : TokenFits t) (h : Decodes t ls) (hl : ls[i]? = some l)
    (hprev : prevSig.length < 256 ^ 8) : LayerFits i l.caveats prevSig := by
  have hlen : t.layers.length = ls.length := h.length_eq
  obtain ⟨hi, hget⟩ := List.getElem?_eq_some_iff.mp hl
  have hlayer := (List.forall₂_iff_get.mp h).2 i (hlen ▸ hi) hi
  have hfits := ht.layers _ (List.get_mem t.layers ⟨i, hlen ▸ hi⟩)
  have hcaveats := (Layer.content_eq_ok.mp hlayer).2.2.2
  have hl : ls.get ⟨i, hi⟩ = l := hget
  rw [hcaveats, hl] at hfits
  have hlt := ht.length
  exact { hfits with index := by omega, prevSig := hprev }

theorem exists_before {α : Type} {xs : List α} {x : α} (h : xs[i + 1]? = some x) :
    ∃ y, xs[i]? = some y := by
  obtain ⟨hi, -⟩ := List.getElem?_eq_some_iff.mp h
  exact ⟨_, List.getElem?_eq_getElem (Nat.lt_of_succ_lt hi)⟩

/-- The signature that layer `i` is put on top of. -/
def sigBefore (ls : List LayerContent) : Nat → Bytes
  | 0 => []
  | i + 1 => ls[i]?.elim [] fun prev => prev.sig.val

theorem sigBefore_succ {prev : LayerContent}
    (h : ls[i]? = some prev) : sigBefore ls (i + 1) = prev.sig.val := by
  rw [sigBefore, h, Option.elim_some]

theorem length_sigBefore_lt (ls : List LayerContent) (i : Nat) :
    (sigBefore ls i).length < 256 ^ 8 := by
  cases i with
  | zero =>
    rw [sigBefore]
    decide
  | succ i =>
    rw [sigBefore]
    cases ls[i]? with
    | none =>
      decide
    | some prev =>
      rw [Option.elim_some, prev.sig.property]
      decide

theorem Linked.signed {R : Key32 → Bytes → Signature → Prop} (h : Linked R 0 issuer [] ls)
    (hl : ls[i]? = some l) :
    R l.signer (layerBytes i l.holder l.caveats (sigBefore ls i)) l.sig := by
  cases i with
  | zero =>
    obtain ⟨hsigner, hsigned⟩ := h.first hl
    rwa [← hsigner] at hsigned
  | succ i =>
    obtain ⟨prev, hprev⟩ := exists_before hl
    obtain ⟨hsigner, hsigned⟩ := h.next hprev hl
    rwa [← hsigner, Nat.zero_add, ← sigBefore_succ hprev] at hsigned

/-- The bytes that layer `i` signs. -/
def signedBytes (ls : List LayerContent) (i : Nat) (l : LayerContent) : Bytes :=
  layerBytes i l.holder l.caveats (sigBefore ls i)

/-- A signature that two tokens share, and that verifies in both, is of one message under one key. -/
def SharedSigsBind (ed : Ed25519) (ls ls' : List LayerContent) : Prop :=
  ∀ i j l l', ls[i]? = some l → ls'[j]? = some l' → l.sig = l'.sig →
    ed.verifyStrict l.signer (signedBytes ls i l) l.sig = true →
    ed.verifyStrict l'.signer (signedBytes ls' j l') l'.sig = true →
    l.signer = l'.signer ∧ signedBytes ls i l = signedBytes ls' j l'

section Agree

variable {ls' : List LayerContent} {j : Nat} {t' : CapabilityToken} {issuer' : Key32}
  (hbind : SharedSigsBind ed ls ls') (ht : TokenFits t) (ht' : TokenFits t')
  (hdecodes : Decodes t ls) (hdecodes' : Decodes t' ls')
  (h : Linked (fun k msg sig => ed.verifyStrict k msg sig = true) 0 issuer [] ls)
  (h' : Linked (fun k msg sig => ed.verifyStrict k msg sig = true) 0 issuer' [] ls')

include hbind ht ht' hdecodes hdecodes' h h'

/-- Layers with one signature are one layer, on top of one signature. -/
theorem layer_eq_of_sig (hl : ls[i]? = some l) (hl' : ls'[j]? = some l') (hsig : l.sig = l'.sig) :
    i = j ∧ l = l' ∧ sigBefore ls i = sigBefore ls' j := by
  obtain ⟨hsigner, hbytes⟩ := hbind i j l l' hl hl' hsig (h.signed hl) (h'.signed hl')
  obtain ⟨hindex, hholder, hcaveats, hprev⟩ := layerBytes_inj
    (hdecodes.fits ht hl (length_sigBefore_lt ls i))
    (hdecodes'.fits ht' hl' (length_sigBefore_lt ls' j)) hbytes
  cases l
  cases l'
  cases hsigner
  cases hholder
  cases hcaveats
  cases hsig
  exact ⟨hindex, rfl, hprev⟩

/-- Two accepted tokens that carry one signature carry it in the same place, and say the same up to
    there. -/
theorem agree_of_sig (hl : ls[i]? = some l) (hl' : ls'[j]? = some l') (hsig : l.sig = l'.sig) :
    i = j ∧ ls.take (i + 1) = ls'.take (i + 1) := by
  -- downwards along the links: the signature before is part of the signed bytes
  induction i generalizing j l l' with
  | zero =>
    obtain ⟨rfl, rfl, -⟩ := layer_eq_of_sig hbind ht ht' hdecodes hdecodes' h h' hl hl' hsig
    rw [List.take_add_one, List.take_add_one, hl, hl']
    exact ⟨rfl, rfl⟩
  | succ i ih =>
    obtain ⟨rfl, rfl, hlink⟩ := layer_eq_of_sig hbind ht ht' hdecodes hdecodes' h h' hl hl' hsig
    obtain ⟨prev, hprev⟩ := exists_before hl
    obtain ⟨prev', hprev'⟩ := exists_before hl'
    rw [sigBefore_succ hprev, sigBefore_succ hprev'] at hlink
    obtain ⟨-, hbefore⟩ := ih hprev hprev' (Subtype.ext hlink)
    have htake : ∀ xs : List LayerContent,
        xs.take (i + 1 + 1) = xs.take (i + 1) ++ xs[i + 1]?.toList := fun _ => List.take_add_one
    rw [htake, htake, hbefore, hl, hl']
    exact ⟨rfl, rfl⟩

end Agree

theorem SignedExactly.of_signs {signs : Key32 → Bytes → Prop} {signer holder : Key32} {index : Nat}
    {caveats : List Caveat} (hfits : LayerFits index caveats prevSig)
    (h : signs signer (layerBytes index holder caveats prevSig)) :
    SignedExactly signs signer index holder caveats prevSig :=
  ⟨h, fun _ _ _ _ hfits' heq => layerBytes_inj hfits' hfits heq⟩

/-- An accepted token is a chain of layers that the issuer and then each holder in turn signed, each
    over exactly the layers before it: no accepted token has one of its signatures anywhere else or
    on top of anything else, if no signature they share is of two messages. Its caveats all hold,
    and one of them is an expiry. -/
theorem chain_of_verify {ed : Ed25519} {signs : Key32 → Bytes → Prop} (hideal : Unforgeable ed signs)
    (t : HeldToken) {issuer who : Key32} {ctx : AuthContext}
    (h : t.val.verify ed issuer ctx = .ok who) :
    ∃ ls, Decodes t.val ls ∧ ls ≠ [] ∧
      (∀ l, ls[0]? = some l → SignedExactly signs issuer 0 l.holder l.caveats []) ∧
      (∀ i prev l, ls[i]? = some prev → ls[i + 1]? = some l →
        SignedExactly signs prev.holder (i + 1) l.holder l.caveats prev.sig.val) ∧
      (∀ (t' : HeldToken) issuer' ctx' who', t'.val.verify ed issuer' ctx' = .ok who' →
        ∀ ls', Decodes t'.val ls' → SharedSigsBind ed ls ls' → ∀ i j l l', ls[i]? = some l →
          ls'[j]? = some l' → l.sig = l'.sig → i = j ∧ ls.take (i + 1) = ls'.take (i + 1)) ∧
      t.val.passes ctx = true ∧ t.val.hasExpiry = true := by
  obtain ⟨ls, hdecodes, hne, hlinked, hpasses, hexpiry⟩ := linked_of_verify h
  refine ⟨ls, hdecodes, hne, fun l hl => ?_, fun i prev l hprev hl => ?_, ?_, hpasses, hexpiry⟩
  · refine .of_signs (hdecodes.fits t.property hl (by decide)) ?_
    exact hideal _ _ _ (hlinked.first hl).2
  · refine .of_signs (hdecodes.fits t.property hl (by rw [prev.sig.property]; decide)) ?_
    have hverify := (hlinked.next hprev hl).2
    rw [Nat.zero_add] at hverify
    exact hideal _ _ _ hverify
  · intro t' issuer' ctx' who' h' ls' hdecodes' hbind i j l l' hl hl' hsig
    obtain ⟨ls'', hdecodes'', -, hlinked', -⟩ := linked_of_verify h'
    obtain rfl := hdecodes'.unique hdecodes''
    exact agree_of_sig hbind t.property t'.property hdecodes hdecodes' hlinked hlinked' hl hl' hsig

/-! ### A token passed on once -/

/-- The issuer's token with an expiry, to which the member adds a row limit. -/
def memberToken : CapabilityToken :=
  delegatedOnce plainEd25519 issuerKey memberKey memberKey [.expiresAt 2000] [.maxRows 10]

def issuerLayer : LayerContent :=
  ⟨issuerKey, memberKey, [.expiresAt 2000],
    plainEd25519.sign issuerKey (layerBytes 0 memberKey [.expiresAt 2000] [])⟩

def memberLayer : LayerContent :=
  ⟨memberKey, memberKey, [.maxRows 10],
    plainEd25519.sign memberKey (layerBytes 1 memberKey [.maxRows 10] issuerLayer.sig.val)⟩

theorem memberToken_decodes : Decodes memberToken [issuerLayer, memberLayer] := by
  have hcontent (i : Nat) (key delegate : Key32) (caveats : List Caveat) (prevSig : Bytes) :
      (signedLayer plainEd25519 i key delegate caveats prevSig).content =
        .ok ⟨key, delegate, caveats,
          plainEd25519.sign key (layerBytes i delegate caveats prevSig)⟩ :=
    Layer.content_eq_ok.mpr
      ⟨decodeKey_hexEncode _, decodeKey_hexEncode _, decodeSig_hexEncode _, rfl⟩
  exact .cons (hcontent _ _ _ _ _) (.cons (hcontent _ _ _ _ _) .nil)

theorem memberToken_fits : TokenFits memberToken where
  length := by decide
  layers := by
    intro layer hlayer
    simp only [memberToken, delegatedOnce, List.mem_cons, List.not_mem_nil, or_false] at hlayer
    obtain rfl | rfl := hlayer
    all_goals exact ⟨by decide, by decide, by simp [signedLayer, Caveat.Fits], by decide, by decide⟩

/-- What plain signatures verify is taken for signed. -/
def plainSigns (k : Key32) (msg : Bytes) : Prop :=
  ∃ sig, plainEd25519.verifyStrict k msg sig = true

/-- The signatures of the two layers begin with the keys. -/
theorem memberToken_sigsBind :
    SharedSigsBind plainEd25519 [issuerLayer, memberLayer] [issuerLayer, memberLayer] := by
  have hsigs : issuerLayer.sig ≠ memberLayer.sig := by
    intro h
    have hfirst := congrArg (fun sig : Signature => sig.val.head?) h
    exact absurd hfirst (by decide)
  rintro (_ | _ | i) (_ | _ | j) l l' hl hl' hsig - -
  all_goals cases hl <;> cases hl'
  · exact ⟨rfl, rfl⟩
  · exact absurd hsig hsigs
  · exact absurd hsig.symm hsigs
  · exact ⟨rfl, rfl⟩

theorem chain_of_verify_delegated :
    SignedExactly plainSigns issuerKey 0 issuerLayer.holder issuerLayer.caveats [] ∧
      SignedExactly plainSigns issuerLayer.holder 1 memberLayer.holder memberLayer.caveats
        issuerLayer.sig.val ∧
      SharedSigsBind plainEd25519 [issuerLayer, memberLayer] [issuerLayer, memberLayer] ∧
      memberToken.passes { now := 1000 } = true ∧ memberToken.hasExpiry = true := by
  have hfrom : AttenuatedFrom plainEd25519 _ memberToken := attenuatedFrom_delegatedOnce ..
  obtain ⟨who, hverify⟩ := (verify_attenuated hfrom plainEd25519_correct { now := 1000 }).mpr
    (by decide)
  have hideal : Unforgeable plainEd25519 plainSigns := fun _ _ sig h => ⟨sig, h⟩
  obtain ⟨ls, hdecodes, -, hfirst, hnext, -, hpasses, hexpiry⟩ :=
    chain_of_verify hideal ⟨memberToken, memberToken_fits⟩ hverify
  obtain rfl : ls = [issuerLayer, memberLayer] := hdecodes.unique memberToken_decodes
  exact ⟨hfirst issuerLayer rfl, hnext 0 issuerLayer memberLayer rfl rfl, memberToken_sigsBind,
    hpasses, hexpiry⟩

end Duckton.Trust
