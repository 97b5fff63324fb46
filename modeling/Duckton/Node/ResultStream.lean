/-
  Bulk result transfer (node/result_stream.rs).

  The receiver reads a manifest off the control stream, checks it against its limits, and then
  takes the payload either from chunks on the control stream or from unidirectional streams, one
  part each. Nothing about the sender is assumed: the control stream is any list of messages
  and the connection any list of streams. Decompression and JSON decoding are parameters.
-/
import Duckton.Proto.Messages

namespace Duckton.Node

open Duckton.Proto

/-- A unidirectional stream: its first message and the raw bytes after it. -/
structure UniStream where
  header : Wire
  raw : Bytes
  deriving DecidableEq, Repr

/-- The codecs that are not part of the repository. -/
structure Codec where
  /-- `decompress` for the manifest's codec and declared length. -/
  decompress : Compression → Nat → Bytes → Option Bytes
  /-- `p2p_proto::from_bytes`. -/
  fromBytes : Bytes → Option ResultSet

inductive RecvError where
  | streamClosed
  | unexpectedMessage
  | manifestRejected (e : ManifestError)
  | outOfOrderChunk (expected got : Nat)
  | exceedsTotalLen
  | partLengthMismatch (index : Nat)
  | partOverruns
  | overflowPanic
  | decompress
  | decode
  deriving DecidableEq, Repr

/-- Ordered chunks until `last`; the accumulated bytes stay within `totalLen`. The 32-bit sequence
    number is counted up after every chunk, the last one included. -/
def recvInline (totalLen : Nat) : (buf : Bytes) → (expectedSeq : Nat) → List Wire →
    Except RecvError Bytes
  | _, _, [] => .error .streamClosed
  | buf, expectedSeq, .chunk c :: rest =>
    if c.seq ≠ expectedSeq then .error (.outOfOrderChunk expectedSeq c.seq)
    else if totalLen < buf.length + c.payload.length then .error .exceedsTotalLen
    else if 2 ^ 32 ≤ expectedSeq + 1 then .error .overflowPanic
    else if c.last then .ok (buf ++ c.payload)
    else recvInline totalLen (buf ++ c.payload) (expectedSeq + 1) rest
  | _, _, _ :: _ => .error .unexpectedMessage

/-- One part stream: the header and exactly as many bytes as it declares. -/
def recvPart (s : UniStream) : Except RecvError (Nat × Bytes) :=
  match s.header with
  | .part p => if s.raw.length ≠ p.len then .error (.partLengthMismatch p.index)
    else .ok (p.offset, s.raw)
  | _ => .error .unexpectedMessage

/-- `buf[offset .. offset + raw.len()].copy_from_slice(raw)`. -/
def placePart (buf : Bytes) (offset : Nat) (raw : Bytes) : Bytes :=
  buf.take offset ++ raw ++ buf.drop (offset + raw.length)

/-- The parts in the order their streams were accepted. The end of a part is computed in 64 bits,
    with overflow checks. -/
def placeParts : (buf : Bytes) → List (Nat × Bytes) → Except RecvError Bytes
  | buf, [] => .ok buf
  | buf, (offset, raw) :: rest =>
    if 2 ^ 64 ≤ offset + raw.length then .error .overflowPanic
    else if buf.length < offset + raw.length then .error .partOverruns
    else placeParts (placePart buf offset raw) rest

/-- `parts` streams are accepted; too few of them stall the transfer. -/
def recvParallel (uni : List UniStream) (m : ResultManifest) : Except RecvError Bytes :=
  if uni.length < m.parts then .error .streamClosed
  else do
    let collected ← (uni.take m.parts).mapM recvPart
    placeParts (List.replicate m.totalLen 0) collected

def recvResult (codec : Codec) (uni : List UniStream) (control : List Wire)
    (maxBytes maxParts : Nat) : Except RecvError ResultSet :=
  match control with
  | [] => .error .streamClosed
  | .manifest m :: rest =>
    match m.validate maxBytes maxParts with
    | .error e => .error (.manifestRejected e)
    | .ok () => do
      let payload ← if m.parts ≤ 1 then recvInline m.totalLen [] 0 rest else recvParallel uni m
      let bytes ← match codec.decompress m.compression m.uncompressedLen payload with
        | some bytes => .ok bytes
        | none => .error .decompress
      match codec.fromBytes bytes with
      | some rs => .ok rs
      | none => .error .decode
  | _ :: _ => .error .unexpectedMessage

end Duckton.Node
