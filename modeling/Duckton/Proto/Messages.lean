/-
  The protocol messages the requester reads (proto/messages.rs), with the fields it reads.

  The JSON framing of a message is not modelled: a stream is the list of messages that can be
  read off it before it fails, closes or stalls.
-/
import Duckton.Proto.Value

namespace Duckton.Proto

/-- `b3:` followed by the hash of the node's public key. -/
structure NodeId where
  id : String
  deriving DecidableEq, Repr

inductive AttestationLevel where
  | l0
  | l1
  | l2
  deriving DecidableEq, Repr

def AttestationLevel.rank : AttestationLevel → Nat
  | .l0 => 0
  | .l1 => 1
  | .l2 => 2

/-- The claimed tier and the opaque evidence for it. -/
structure Attestation where
  level : AttestationLevel
  evidence : Bytes
  measurement : Option String
  deriving DecidableEq, Repr

inductive BidDecision where
  | accept
  | reject (reason : String)
  deriving DecidableEq, Repr

structure Bid where
  decision : BidDecision
  etaMs : Nat
  price : Nat
  attestation : Attestation
  freeMemBytes : Nat
  regionProof : Option String
  ratePerSecond : Nat
  ratePerGb : Nat
  capSeconds : Nat
  deriving DecidableEq, Repr

structure ResultCommit where
  resultHash : String
  latencyMs : Nat
  inputFingerprint : String
  deriving DecidableEq, Repr

inductive Compression where
  | none
  | lz4
  | zstd
  deriving DecidableEq, Repr

structure ResultManifest where
  compression : Compression
  uncompressedLen : Nat
  totalLen : Nat
  parts : Nat
  deriving DecidableEq, Repr

structure ResultChunk where
  seq : Nat
  last : Bool
  payload : Bytes
  deriving DecidableEq, Repr

structure ResultPart where
  index : Nat
  offset : Nat
  len : Nat
  deriving DecidableEq, Repr

/-- One message on a stream. `other` stands for the kinds the requester never expects here. -/
inductive Wire where
  | bid (b : Bid)
  | progress
  | commit (c : ResultCommit)
  | manifest (m : ResultManifest)
  | chunk (c : ResultChunk)
  | part (p : ResultPart)
  | ack (ok : Bool) (detail : String)
  | other
  deriving DecidableEq, Repr

/-- `MAX_RESULT_BYTES`: 8 GiB. -/
def maxResultBytes : Nat :=
  8 * 1024 * 1024 * 1024

/-- `MAX_RESULT_PARTS`. -/
def maxResultParts : Nat :=
  4096

/-- Why a manifest is refused, with the declared value and the limit it breaks. -/
inductive ManifestError where
  | zeroParts
  | tooManyParts (parts limit : Nat)
  | totalTooLarge (totalLen limit : Nat)
  | uncompressedTooLarge (uncompressedLen limit : Nat)
  deriving DecidableEq, Repr

def ResultManifest.validate (m : ResultManifest) (maxBytes maxParts : Nat) :
    Except ManifestError Unit :=
  let bytesCeiling := min maxBytes maxResultBytes
  let partsCeiling := min maxParts maxResultParts
  if m.parts = 0 then .error .zeroParts
  else if partsCeiling < m.parts then .error (.tooManyParts m.parts partsCeiling)
  else if bytesCeiling < m.totalLen then .error (.totalTooLarge m.totalLen bytesCeiling)
  else if bytesCeiling < m.uncompressedLen then
    .error (.uncompressedTooLarge m.uncompressedLen bytesCeiling)
  else .ok ()

inductive Verdict where
  | correct
  | incorrect
  | timeout
  | malformed
  | resourceExceeded
  | infeasible
  | inconclusive
  deriving DecidableEq, Repr

/-- Provable provider fault: the only class that may cost reputation. -/
def Verdict.isProviderFault : Verdict → Bool
  | .incorrect | .timeout | .malformed => true
  | _ => false

end Duckton.Proto
