/-
  Which payloads survive a transfer (node/result_stream.rs, send_result to recv_result).

  The splitting into chunks or parts and the reassembly are inverse for all options and every
  order of arrival (`recvResult_sentResult`). What remains is that the sender gets to the end:
  its chunks are numbered in 32 bits, and the limit on a payload is larger than what a small
  `chunk_bytes` can number. Codec and framing are assumed to be lossless: the compressor undoes
  itself, and every message fits a frame.
-/
import Duckton.Node.Delivery

namespace Duckton.Node

open Duckton.Proto

/-! ## The whole transfer -/

section Transfer

variable {serde : Serde} {z : Compressors} {jsonLen : Wire → Nat} {opts : SendOpts}
  {rs : ResultSet} {maxBytes maxParts : Nat}

/-- The sender gets to the end, and in whatever order the part streams arrive, the receiver decodes
    exactly the bytes that were sent. -/
def RoundTrips (serde : Serde) (z : Compressors) (jsonLen : Wire → Nat) (opts : SendOpts)
    (rs : ResultSet) (maxBytes maxParts : Nat) : Prop :=
  ∃ sent, sendResult serde z jsonLen opts rs = .ok sent ∧
    ∀ uni : List UniStream, uni.Perm sent.uni → ∀ decode : Bytes → Option ResultSet,
      (recvResult ⟨z.decompress, decode⟩ uni sent.control maxBytes maxParts).toOption =
        decode (serde.toBytes rs)

/-- A payload within the receiver's limits whose messages fit a frame arrives, unless it goes out in
    more chunks than the sequence number can count. -/
theorem roundTrips_iff
    (hz : z.Lossless opts.compression opts.compressionLevel (serde.toBytes rs))
    (hframes : ∀ msg ∈ (sentResult serde z opts rs).messages, fitsFrame jsonLen msg = true)
    (hlimits : (sentManifest serde z opts rs).validate maxBytes maxParts = .ok ()) :
    RoundTrips serde z jsonLen opts rs maxBytes maxParts ↔
      (decideParts (packed serde z opts rs).2.length opts = 1 →
        (packed serde z opts rs).2.length ≤ (2 ^ 32 - 1) * max opts.chunkBytes 1) := by
  constructor
  · rintro ⟨sent, hsent, -⟩
    exact (sendResult_eq_ok_iff.mp hsent).2.2.1
  · intro hsmall
    have hparts := (ResultManifest.validate_eq_ok_iff.mp hlimits).1
    exact ⟨_, sendResult_eq_ok_iff.mpr ⟨hframes, hparts, hsmall, rfl⟩,
      fun uni huni decode => recvResult_sentResult hz hsmall hlimits huni decode⟩

end Transfer

/-! ## One byte a chunk -/

/-- A result whose text is `n` bytes long. -/
def sizedSerde (n : Nat) : Serde :=
  ⟨fun _ => List.replicate n 0, fun _ => none, fun _ => .zero⟩

def oneByteChunks : SendOpts :=
  ⟨1, 1, 0, .none, 0, 0⟩

def noRows : ResultSet :=
  ⟨[], []⟩

/-- No compression is asked for. -/
theorem lossless_none (z : Compressors) (level : Int) (data : Bytes) :
    z.Lossless .none level data :=
  ⟨nofun, nofun⟩

theorem packed_oneByteChunks (n : Nat) (z : Compressors) :
    packed (sizedSerde n) z oneByteChunks noRows = (.none, List.replicate n 0) := by
  unfold packed Compressors.maybeCompress
  exact if_pos (.inl rfl)

theorem sentManifest_oneByteChunks (n : Nat) (z : Compressors) :
    sentManifest (sizedSerde n) z oneByteChunks noRows = ⟨.none, n, n, 1⟩ := by
  have hlen : ((sizedSerde n).toBytes noRows).length = n := List.length_replicate
  rw [sentManifest, packed_oneByteChunks, hlen, List.length_replicate]
  rfl

/-- Three bytes. -/
theorem roundTrips_three :
    RoundTrips (sizedSerde 3) noCompressors (fun _ => 0) oneByteChunks noRows maxResultBytes 8 := by
  refine (roundTrips_iff (lossless_none _ _ _) (fun _ _ => rfl) ?_).mpr fun _ => ?_
  · decide
  · decide

/-- 4 GiB, of the 8 GiB that the receiver takes: the sender panics when it counts the last chunk. -/
theorem large_payload_not_sent :
    (sentManifest (sizedSerde (2 ^ 32)) noCompressors oneByteChunks noRows).validate maxResultBytes
        maxResultParts = .ok () ∧
      (∀ msg, fitsFrame (fun _ => 0) msg = true) ∧
      noCompressors.Lossless oneByteChunks.compression oneByteChunks.compressionLevel
        ((sizedSerde (2 ^ 32)).toBytes noRows) ∧
      sendResult (sizedSerde (2 ^ 32)) noCompressors (fun _ => 0) oneByteChunks noRows =
        .error .overflowPanic := by
  have hframes : ∀ msg, fitsFrame (fun _ => 0) msg = true := fun _ => rfl
  refine ⟨?_, hframes, lossless_none _ _ _, ?_⟩
  · rw [sentManifest_oneByteChunks]
    decide
  · have hall := List.all_eq_true.mpr fun msg (_ : msg ∈ (sentResult (sizedSerde (2 ^ 32))
      noCompressors oneByteChunks noRows).messages) => hframes msg
    have hlarge : ¬ ChunksCounted (sizedSerde (2 ^ 32)) noCompressors oneByteChunks noRows := by
      rw [ChunksCounted, sentManifest_oneByteChunks]
      decide
    rw [sendResult_eq, hall, sentManifest_oneByteChunks, if_neg (by decide), if_neg (by decide),
      if_pos (Nat.not_lt.mp (length_control_lt_iff.not.mpr hlarge))]

end Duckton.Node
