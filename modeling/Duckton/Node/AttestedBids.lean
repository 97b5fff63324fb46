/-
  The attestation gate of the coordinator against a network that relays
  (node/coordinator.rs: `verified_attestation_level`; node/worker.rs: `attestation_for`).

  Signatures are ideal: what verifies under the authority's key was signed before by the attestor
  of an honest worker. Anybody may pass an offer on to such a worker and present the evidence that
  it answers with, under an identity of its own.

  The coordinator takes the bound key from the evidence that it checks against it. So evidence is
  fresh and genuine, but it need not be the sender's: `attested_by_some_worker`.
-/
import Duckton.Lib.Run
import Duckton.Node.Coordinator
import Duckton.Trust.Attestation

namespace Duckton.Node

open Duckton.Proto Duckton.Trust

/-! ## Worker and coordinator -/

/-- A worker with an attestor wired. -/
structure AttestedWorker where
  nodeId : NodeId
  attestor : MockAttestor
  attestBoundPub : Key32
  deriving DecidableEq, Repr

/-- `offer.nonce.to_le_bytes()` -/
def nonceBytes (nonce : UInt64) : Bytes :=
  Octets.toLe 8 nonce.toNat

def AttestedWorker.attestationFor (ed : Ed25519) (serde : Serde) (w : AttestedWorker)
    (nonce : UInt64) : Attestation :=
  w.attestor.produce ed serde (nonceBytes nonce) w.attestBoundPub

/-- What the worker's authority signs for an offer with this nonce. -/
def AttestedWorker.signedFor (w : AttestedWorker) (nonce : UInt64) : Bytes :=
  evidenceSigningBytes w.attestor.level w.attestor.measurement (nonceBytes nonce) w.attestBoundPub

/-- One round of bidding: the libraries, the verifier that is wired and the nonce of the offer. -/
structure BidRound where
  ed : Ed25519
  serde : Serde
  verifier : Option AllowlistVerifier
  nonce : UInt64

variable (r : BidRound)

/-- A level above L0 is kept only if the evidence passes the verifier. -/
def BidRound.verifiedAttestationLevel (att : Attestation) : AttestationLevel :=
  if att.level.rank ≤ AttestationLevel.l0.rank then att.level
  else match r.verifier with
    | none => .l0
    | some v =>
      let bound := (attestationBoundPub r.serde att).getD ⟨List.replicate 32 0, rfl⟩
      match v.verify r.ed r.serde att (nonceBytes r.nonce) bound with
      | .ok () => att.level
      | .error _ => .l0

/-! ## The network -/

/-- The level that the coordinator gave to a bid of `sender`. -/
structure JudgedBid where
  sender : NodeId
  attestation : Attestation
  level : AttestationLevel
  deriving DecidableEq, Repr

/-- Which workers have answered which nonces, and the bids so far. -/
structure RelayState where
  answered : List (AttestedWorker × UInt64)
  judged : List JudgedBid

/-- An offer reaches an honest worker, whoever sent it; a bid reaches the coordinator. -/
inductive RelayEvent where
  | offer (worker : AttestedWorker) (nonce : UInt64)
  | bid (sender : NodeId) (attestation : Attestation)

variable (s : RelayState)

def BidRound.step : RelayEvent → RelayState
  | .offer worker nonce => { s with answered := s.answered ++ [(worker, nonce)] }
  | .bid sender att =>
    { s with judged := s.judged ++ [⟨sender, att, r.verifiedAttestationLevel att⟩] }

/-- The signature in this evidence was made by an attestor: whatever it verifies for under a
    trusted key, an honest worker had signed. -/
def BidRound.Unforged (att : Attestation) : Prop :=
  ∀ v e sig msg, r.verifier = some v → decodeEvidence r.serde att.evidence = some e →
    e.signature = some sig → r.ed.verifyStrict v.trustedAuthority msg sig = true →
    ∃ a ∈ s.answered, msg = a.1.signedFor a.2

/-- The workers that are asked are honest, and nobody forges a signature. -/
def BidRound.Admissible (honest : AttestedWorker → Prop) (s : RelayState) : RelayEvent → Prop
  | .offer worker _ => honest worker
  | .bid _ att => r.Unforged s att

/-- The evidence speaks for this worker: for its level, its measurement and its bound key. -/
structure SpeaksFor (serde : Serde) (att : Attestation) (w : AttestedWorker) : Prop where
  level : att.level = w.attestor.level
  evidence : ∃ e, decodeEvidence serde att.evidence = some e ∧
    e.measurement = w.attestor.measurement ∧ decode32 e.boundPubHex = some w.attestBoundPub

/-- Each level above L0 goes back to an honest worker that answered this very offer. -/
def BidRound.Genuine (honest : AttestedWorker → Prop) (s : RelayState) : Prop :=
  ∀ b ∈ s.judged, AttestationLevel.l0.rank < b.level.rank →
    b.level = b.attestation.level ∧ ∃ w, honest w ∧ (w, r.nonce) ∈ s.answered ∧
      SpeaksFor r.serde b.attestation w ∧
      ∃ v, r.verifier = some v ∧ w.attestor.measurement ∈ v.allowedMeasurements ∧
        v.requiredLevel.rank ≤ w.attestor.level.rank

/-- Each level above L0 goes back to the sender's own environment. -/
def BidRound.BoundToSender : Prop :=
  ∀ b ∈ s.judged, AttestationLevel.l0.rank < b.level.rank →
    ∃ w, w.nodeId = b.sender ∧ (w, r.nonce) ∈ s.answered ∧ SpeaksFor r.serde b.attestation w

/-! ## What a level above L0 says -/

theorem nonceBytes_inj {n n' : UInt64} (h : nonceBytes n = nonceBytes n') : n = n' := by
  have hlt := n.toNat_lt
  have hlt' := n'.toNat_lt
  have hval := congrArg Octets.ofLe h
  unfold nonceBytes at hval
  rw [Octets.ofLe_toLe, Octets.ofLe_toLe] at hval
  exact UInt64.toNat_inj.mp (by omega)

variable {w : AttestedWorker} {r : BidRound} {att : Attestation}

/-- An honest signature says who it was made for. -/
theorem signedFor_eq {nonce nonce' : UInt64} {level : AttestationLevel} {measurement : String}
    {bound : Key32}
    (h : evidenceSigningBytes level measurement (nonceBytes nonce) bound = w.signedFor nonce') :
    level = w.attestor.level ∧ measurement = w.attestor.measurement ∧ nonce = nonce' ∧
      bound = w.attestBoundPub := by
  have hlen : (nonceBytes nonce).length = (nonceBytes nonce').length := by
    unfold nonceBytes
    rw [Octets.length_toLe, Octets.length_toLe]
  obtain ⟨hl, hm, hn, hb⟩ := evidenceSigningBytes_inj hlen h
  exact ⟨hl, hm, nonceBytes_inj hn, hb⟩

theorem verifiedAttestationLevel_above
    (h : AttestationLevel.l0.rank < (r.verifiedAttestationLevel att).rank) :
    r.verifiedAttestationLevel att = att.level ∧ ∃ v bound, r.verifier = some v ∧
      v.verify r.ed r.serde att (nonceBytes r.nonce) bound = .ok () := by
  unfold BidRound.verifiedAttestationLevel at h ⊢
  split_ifs at h ⊢ with hclaim
  · omega
  · cases hv : r.verifier with
    | none =>
      rw [hv] at h
      exact absurd h (Nat.lt_irrefl _)
    | some v =>
      rw [hv] at h
      dsimp only at h ⊢
      split at h
      · rename_i hok
        exact ⟨rfl, v, _, rfl, hok⟩
      · exact absurd h (Nat.lt_irrefl _)

/-- Unforged evidence that is given a level speaks for a worker that answered this offer. -/
theorem speaksFor_of_unforged {s : RelayState} (hsig : r.Unforged s att)
    (h : AttestationLevel.l0.rank < (r.verifiedAttestationLevel att).rank) :
    r.verifiedAttestationLevel att = att.level ∧ ∃ w, (w, r.nonce) ∈ s.answered ∧
      SpeaksFor r.serde att w ∧ ∃ v, r.verifier = some v ∧
        w.attestor.measurement ∈ v.allowedMeasurements ∧
        v.requiredLevel.rank ≤ w.attestor.level.rank := by
  obtain ⟨hlevel, v, bound, hv, hverify⟩ := verifiedAttestationLevel_above h
  obtain ⟨hrequired, e, he, hallowed, -, hbound, hcheck⟩ := verify_eq_ok.mp hverify
  obtain ⟨-, -, sig, hsigOf, hverified⟩ := checkSignature_eq_ok.mp hcheck
  obtain ⟨⟨w, nonce⟩, hmem, hmsg⟩ := hsig v e sig _ hv he hsigOf hverified
  obtain ⟨hl, hm, rfl, hb⟩ := signedFor_eq hmsg
  have hkey : decode32 e.boundPubHex = some w.attestBoundPub := by
    rw [hbound, decode32_hexEncode, hb]
  rw [hl] at hrequired
  rw [hm] at hallowed
  exact ⟨hlevel, w, hmem, ⟨hl, e, he, hm, hkey⟩, v, hv, hallowed, hrequired⟩

/-! ## Runs -/

/-- Every worker that answered is honest, and every level is genuine. -/
structure BidRound.Inv (r : BidRound) (honest : AttestedWorker → Prop) (s : RelayState) :
    Prop where
  answered : ∀ a ∈ s.answered, honest a.1
  genuine : r.Genuine honest s

theorem BidRound.Inv.step {honest : AttestedWorker → Prop} (s : RelayState) (e : RelayEvent)
    (hs : r.Inv honest s) (he : r.Admissible honest s e) :
    r.Inv honest (r.step s e) := by
  cases e with
  | offer worker nonce =>
    refine ⟨List.forall_mem_append.mpr ⟨hs.answered, List.forall_mem_singleton.mpr he⟩, ?_⟩
    intro b hb habove
    obtain ⟨hlevel, w, hw, hmem, hrest⟩ := hs.genuine b hb habove
    exact ⟨hlevel, w, hw, List.mem_append_left _ hmem, hrest⟩
  | bid sender att =>
    refine ⟨hs.answered, ?_⟩
    intro b hb habove
    rcases List.mem_append.mp hb with hb | hb
    · exact hs.genuine b hb habove
    · rw [List.mem_singleton.mp hb] at habove ⊢
      obtain ⟨hlevel, w, hmem, hrest⟩ := speaksFor_of_unforged he habove
      exact ⟨hlevel, w, hs.answered _ hmem, hmem, hrest⟩

/-- The verifier trusts the authority of this worker and allows its image, and the libraries do
    what they should on its evidence. -/
structure BidRound.Accepts (r : BidRound) (w : AttestedWorker) : Prop where
  above : AttestationLevel.l0.rank < w.attestor.level.rank
  trusts : ∃ v, r.verifier = some v ∧
    v.trustedAuthority = r.ed.verifyingKey w.attestor.authority ∧
    w.attestor.measurement ∈ v.allowedMeasurements ∧
    v.requiredLevel.rank ≤ w.attestor.level.rank
  isKey : r.ed.isVerifyingKey (r.ed.verifyingKey w.attestor.authority) = true
  verifies : r.ed.verifyStrict (r.ed.verifyingKey w.attestor.authority) (w.signedFor r.nonce)
    (r.ed.sign w.attestor.authority (w.signedFor r.nonce)) = true
  reads : r.serde.Reads (w.attestor.evidence r.ed (nonceBytes r.nonce) w.attestBoundPub).toJson

/-- The evidence of an accepted worker is given its level; who presents it is not asked. -/
theorem verifiedAttestationLevel_attestationFor (h : r.Accepts w) :
    r.verifiedAttestationLevel (w.attestationFor r.ed r.serde r.nonce) = w.attestor.level := by
  obtain ⟨v, hv, htrusted, hallowed, hrequired⟩ := h.trusts
  have hdecode : decodeEvidence r.serde (w.attestationFor r.ed r.serde r.nonce).evidence =
      some (w.attestor.evidence r.ed (nonceBytes r.nonce) w.attestBoundPub) :=
    decodeEvidence_print h.reads
  have hbound : attestationBoundPub r.serde (w.attestationFor r.ed r.serde r.nonce) =
      some w.attestBoundPub := by
    unfold attestationBoundPub
    rw [hdecode]
    exact decode32_hexEncode w.attestBoundPub
  have hsig : (w.attestor.evidence r.ed (nonceBytes r.nonce) w.attestBoundPub).signature =
      some (r.ed.sign w.attestor.authority (w.signedFor r.nonce)) := by
    unfold MockEvidence.signature MockAttestor.evidence
    rw [hexDecode_hexEncode, Option.bind_some, toArray?_val]
    rfl
  have hcheck : checkSignature r.ed v.trustedAuthority
      (w.attestor.evidence r.ed (nonceBytes r.nonce) w.attestBoundPub) (w.signedFor r.nonce) =
        .ok () := by
    rw [checkSignature_eq_ok, htrusted]
    exact ⟨decode32_hexEncode _, h.isKey, _, hsig, h.verifies⟩
  have hverify : v.verify r.ed r.serde (w.attestationFor r.ed r.serde r.nonce)
      (nonceBytes r.nonce) w.attestBoundPub = .ok () :=
    verify_eq_ok.mpr ⟨hrequired, _, hdecode, hallowed, rfl, rfl, hcheck⟩
  have habove : ¬ (w.attestationFor r.ed r.serde r.nonce).level.rank ≤
      AttestationLevel.l0.rank := Nat.not_le.mpr h.above
  unfold BidRound.verifiedAttestationLevel
  rw [if_neg habove, hv, hbound]
  dsimp only
  rw [Option.getD_some, hverify]
  rfl

/-- A level above L0 always rests on evidence that an honest attested worker produced for this
    offer, with its level, an allowed measurement and the bound key of that worker. Only such bids
    pass the gate of a job that asks for more than L0. It does not rest on the sender: whoever
    presents the evidence of an accepted worker is given that worker's level. -/
theorem attested_by_some_worker (r : BidRound) (honest : AttestedWorker → Prop)
    (es : List RelayEvent) (h : Run.Guarded r.step (r.Admissible honest) ⟨[], []⟩ es) :
    Run.Always r.step (r.Genuine honest) ⟨[], []⟩ es ∧
    (∀ (co : Coordinator) (cfg : GridConfig) (job : Job) (worker : NodeId) (bid : Bid),
      co.verifiedAttestationLevel = r.verifiedAttestationLevel →
      AttestationLevel.l0.rank < job.minLevel.rank →
      co.clearsGates cfg job worker bid = true →
      AttestationLevel.l0.rank < (r.verifiedAttestationLevel bid.attestation).rank) ∧
    (∀ w, r.Accepts w → ∀ (s : RelayState) (sender : NodeId),
      ⟨sender, w.attestationFor r.ed r.serde r.nonce, w.attestor.level⟩ ∈
        (r.step s (.bid sender (w.attestationFor r.ed r.serde r.nonce))).judged) := by
  refine ⟨?_, ?_, ?_⟩
  · have hstart : r.Inv honest ⟨[], []⟩ := ⟨nofun, nofun⟩
    exact (Run.always_of_guarded BidRound.Inv.step hstart h).mono fun s hs => hs.genuine
  · intro co cfg job worker bid hco hmin hclears
    unfold Coordinator.clearsGates at hclears
    rw [hco] at hclears
    simp only [Bool.and_eq_true, decide_eq_true_eq] at hclears
    exact Nat.lt_of_lt_of_le hmin hclears.1.1.1
  · intro w hw s sender
    apply List.mem_append_right
    rw [verifiedAttestationLevel_attestationFor hw]
    exact List.mem_singleton_self _

/-! ## A relay -/

/-- serde_json on one document. -/
def oneDocSerde (doc : Json) (text : String) : Serde where
  print _ := utf8 text
  parse bytes := if bytes = utf8 text then some doc else none
  ofInt _ := F64.zero

theorem oneDocSerde_reads (doc : Json) (text : String) : (oneDocSerde doc text).Reads doc := by
  refine ⟨if_pos rfl, ?_⟩
  intro n hn
  apply if_neg
  intro heq
  have hlen := congrArg List.length heq
  rw [List.length_take] at hlen
  have hn' : n < (utf8 text).length := hn
  omega

def evidenceText (e : MockEvidence) : String :=
  "\x7b\"measurement\":\"" ++ e.measurement ++ "\",\"nonce_hex\":\"" ++ e.nonceHex ++
    "\",\"bound_pub_hex\":\"" ++ e.boundPubHex ++ "\",\"authority_pub_hex\":\"" ++
    e.authorityPubHex ++ "\",\"sig_hex\":\"" ++ e.sigHex ++ "\"\x7d"

def enclave : AttestedWorker :=
  ⟨⟨"b3:enclave"⟩, ⟨⟨List.replicate 32 1, rfl⟩, "duckdb-enclave-v1", .l2⟩,
    ⟨List.replicate 32 5, rfl⟩⟩

/-- Ed25519 when the authority has signed once, for the enclave's answer to nonce 42. -/
def onceSigned : Ed25519 where
  verifyingKey _ := ⟨List.replicate 32 2, rfl⟩
  isVerifyingKey _ := true
  sign _ _ := ⟨List.replicate 64 3, rfl⟩
  verifyStrict key msg sig :=
    decide (key.val = List.replicate 32 2 ∧ msg = enclave.signedFor 42 ∧
      sig.val = List.replicate 64 3)

def enclaveEvidence : MockEvidence :=
  enclave.attestor.evidence onceSigned (nonceBytes 42) enclave.attestBoundPub

def enclaveRound : BidRound where
  ed := onceSigned
  serde := oneDocSerde enclaveEvidence.toJson (evidenceText enclaveEvidence)
  verifier := some ⟨⟨List.replicate 32 2, rfl⟩, ["duckdb-enclave-v1"], .l2⟩
  nonce := 42

/-- The relay passes the coordinator's offer on to the enclave and bids with its answer. -/
def relayRun : List RelayEvent :=
  [.offer enclave 42,
    .bid ⟨"b3:relay"⟩ (enclave.attestationFor enclaveRound.ed enclaveRound.serde 42)]

theorem relayRun_admissible : Run.Guarded enclaveRound.step
    (enclaveRound.Admissible (· = enclave)) ⟨[], []⟩ relayRun := by
  refine ⟨rfl, ?_, trivial⟩
  intro v e sig msg _ _ _ hverify
  exact ⟨(enclave, 42), List.mem_singleton_self _, (of_decide_eq_true hverify).2.1⟩

theorem onceSigned_verifies : onceSigned.verifyStrict ⟨List.replicate 32 2, rfl⟩
    (enclave.signedFor 42) ⟨List.replicate 64 3, rfl⟩ = true := by
  simp [onceSigned]

theorem enclaveRound_accepts : enclaveRound.Accepts enclave where
  above := by decide
  trusts := ⟨_, rfl, rfl, List.mem_singleton_self _, le_refl _⟩
  isKey := rfl
  verifies := onceSigned_verifies
  reads := oneDocSerde_reads _ _

/-- Every level in the relay's run is genuine, and the relay is given the enclave's. -/
theorem relay_level_genuine :
    Run.Always enclaveRound.step (enclaveRound.Genuine (· = enclave)) ⟨[], []⟩ relayRun ∧
    ⟨⟨"b3:relay"⟩, enclave.attestationFor enclaveRound.ed enclaveRound.serde 42, .l2⟩ ∈
      (enclaveRound.step ⟨[(enclave, 42)], []⟩ (.bid ⟨"b3:relay"⟩
        (enclave.attestationFor enclaveRound.ed enclaveRound.serde 42))).judged := by
  have hall := attested_by_some_worker enclaveRound (· = enclave) relayRun relayRun_admissible
  exact ⟨hall.1, hall.2.2 enclave enclaveRound_accepts _ _⟩

/-- No evidence in this run was produced by the relay, and still its bid counts as L2. -/
theorem relay_not_bound :
    Run.Guarded enclaveRound.step (enclaveRound.Admissible (· = enclave)) ⟨[], []⟩ relayRun ∧
    ¬ enclaveRound.BoundToSender (Run.final enclaveRound.step ⟨[], []⟩ relayRun) := by
  refine ⟨relayRun_admissible, ?_⟩
  intro hbound
  have hlevel : enclaveRound.verifiedAttestationLevel
      (enclave.attestationFor enclaveRound.ed enclaveRound.serde 42) = .l2 :=
    verifiedAttestationLevel_attestationFor enclaveRound_accepts
  have hjudged : ⟨⟨"b3:relay"⟩, enclave.attestationFor enclaveRound.ed enclaveRound.serde 42,
      enclaveRound.verifiedAttestationLevel
        (enclave.attestationFor enclaveRound.ed enclaveRound.serde 42)⟩ ∈
      (Run.final enclaveRound.step ⟨[], []⟩ relayRun).judged := List.mem_singleton_self _
  rw [hlevel] at hjudged
  obtain ⟨w, hsender, hmem, -⟩ := hbound _ hjudged (by decide)
  have hmem' : (w, enclaveRound.nonce) ∈ [(enclave, 42)] := hmem
  rw [(Prod.mk.inj (List.mem_singleton.mp hmem')).1] at hsender
  exact absurd hsender (by decide)

end Duckton.Node
