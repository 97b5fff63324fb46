/-
  Sending a result (node/result_stream.rs: `send_result`; node/compression.rs), and that what is
  sent is put together again.

  lz4, zstd and the JSON of a message are not part of the repository: the compressors are
  parameters, and of a message's JSON only the length is used, which `write_msg` checks against
  the frame limit. A frame that is written is read as the same message.

  `recvResult_sentResult` holds for all options of the sender and for every order in which the
  part streams arrive.
-/
import Duckton.Lib.Fallible
import Duckton.Lib.Octets
import Duckton.Node.ResultStream
import Duckton.Proto.Json

namespace Duckton.Node

open Duckton.Proto

/-! ## Compression -/

/-- `lz4_flex::compress_prepend_size` and `decompress`, zstd's `encode_all` and its stream decoder
    cut off after so many bytes. -/
structure Compressors where
  lz4CompressPrependSize : Bytes → Bytes
  lz4Decompress : Bytes → Nat → Option Bytes
  zstdEncodeAll : Int → Bytes → Option Bytes
  zstdDecodeTake : Bytes → Nat → Option Bytes

namespace Compressors

/-- The codec that was applied, and the payload. -/
def maybeCompress (z : Compressors) (codec : Compression) (level : Int) (minSizeBytes : Nat)
    (data : Bytes) : Compression × Bytes :=
  if codec = .none ∨ data.length < minSizeBytes then (.none, data)
  else match codec with
    | .none => (.none, data)
    | .lz4 => (.lz4, z.lz4CompressPrependSize data)
    | .zstd => match z.zstdEncodeAll level data with
      | some out => (.zstd, out)
      | none => (.none, data)

def decompress (z : Compressors) (codec : Compression) (uncompressedLen : Nat) (data : Bytes) :
    Option Bytes :=
  match codec with
  | .none => some data
  | .lz4 =>
    if data.length < 4 then none
    else
      let prepended := Octets.ofLe (data.take 4)
      if uncompressedLen < prepended then none else z.lz4Decompress (data.drop 4) prepended
  | .zstd => match z.zstdDecodeTake data (uncompressedLen + 1) with
    | some out => if uncompressedLen < out.length then none else some out
    | none => none

/-- The compressor undoes itself on this payload. lz4 keeps the size in 32 bits. -/
structure Lossless (z : Compressors) (codec : Compression) (level : Int) (data : Bytes) :
    Prop where
  lz4 : codec = .lz4 → data.length < 2 ^ 32 ∧ ∃ block,
    z.lz4CompressPrependSize data = Octets.toLe 4 data.length ++ block ∧
      z.lz4Decompress block data.length = some data
  zstd : codec = .zstd → ∀ out, z.zstdEncodeAll level data = some out →
    ∀ limit, data.length ≤ limit → z.zstdDecodeTake out limit = some data

theorem decompress_maybeCompress {z : Compressors} {codec : Compression} {level : Int}
    {data : Bytes} (h : z.Lossless codec level data) (minSizeBytes : Nat) :
    z.decompress (z.maybeCompress codec level minSizeBytes data).1 data.length
      (z.maybeCompress codec level minSizeBytes data).2 = some data := by
  unfold maybeCompress
  split_ifs with hskip
  · rfl
  · cases codec with
    | none => rfl
    | lz4 =>
      obtain ⟨hsize, block, hblock, hback⟩ := h.lz4 rfl
      have hlen : (Octets.toLe 4 data.length).length = 4 := Octets.length_toLe 4 _
      have hprep : Octets.ofLe (Octets.toLe 4 data.length) = data.length := by
        rw [Octets.ofLe_toLe]
        omega
      have htake : (Octets.toLe 4 data.length ++ block).take 4 = Octets.toLe 4 data.length :=
        List.take_left' hlen
      have hdrop : (Octets.toLe 4 data.length ++ block).drop 4 = block := List.drop_left' hlen
      have hlong : ¬ (Octets.toLe 4 data.length ++ block).length < 4 := by
        rw [List.length_append]
        omega
      show z.decompress .lz4 data.length (z.lz4CompressPrependSize data) = some data
      rw [hblock, decompress]
      rw [if_neg hlong, htake, hprep, if_neg (Nat.lt_irrefl _), hdrop, hback]
    | zstd =>
      cases henc : z.zstdEncodeAll level data with
      | none => rfl
      | some out =>
        have hdec := h.zstd rfl out henc (data.length + 1) (Nat.le_succ _)
        show z.decompress .zstd data.length out = some data
        rw [decompress, hdec]
        exact if_neg (Nat.lt_irrefl _)

end Compressors

/-! ## Sending -/

structure SendOpts where
  chunkBytes : Nat
  parallelism : Nat
  parallelMinBytes : Nat
  compression : Compression
  compressionLevel : Int
  compressionMinBytes : Nat
  deriving DecidableEq, Repr

def decideParts (totalLen : Nat) (opts : SendOpts) : Nat :=
  if opts.parallelism ≤ 1 ∨ totalLen < opts.parallelMinBytes then 1
  else max (min opts.parallelism (max totalLen 1)) 1 % 2 ^ 32

/-- `send_inline`: what is left of the payload, chunk by chunk. There are at most `fuel` chunks. -/
def inlineChunks (chunkBytes : Nat) : (fuel seq : Nat) → Bytes → List ResultChunk
  | 0, _, _ => []
  | fuel + 1, seq, payload =>
    if payload.length ≤ chunkBytes then [⟨seq, true, payload⟩]
    else ⟨seq, false, payload.take chunkBytes⟩ ::
      inlineChunks chunkBytes fuel (seq + 1) (payload.drop chunkBytes)

/-- `send_parallel`: `count` more streams, the first `rem` of all one byte longer. -/
def partStreams (payload : Bytes) (base rem : Nat) : (index offset count : Nat) → List UniStream
  | _, _, 0 => []
  | index, offset, count + 1 =>
    let len := base + if index < rem then 1 else 0
    ⟨.part ⟨index, offset, len⟩, (payload.drop offset).take len⟩ ::
      partStreams payload base rem (index + 1) (offset + len) count

/-- `MAX_FRAME_BYTES` of the control streams: 4 MiB. -/
def maxFrameBytes : Nat :=
  4 * 1024 * 1024

inductive SendError where
  | frameTooLarge
  | overflowPanic
  | divisionPanic
  deriving DecidableEq, Repr

/-- What is put on the control stream and on streams of their own. -/
structure Sent where
  control : List Wire
  uni : List UniStream
  deriving DecidableEq, Repr

/-- The messages of a transfer, the manifest first. -/
def sentStreams (opts : SendOpts) (uncompressedLen : Nat) (codec : Compression)
    (payload : Bytes) : Sent :=
  let parts := decideParts payload.length opts
  let manifest := Wire.manifest ⟨codec, uncompressedLen, payload.length, parts⟩
  if parts = 1 then
    ⟨manifest :: (inlineChunks (max opts.chunkBytes 1) (payload.length + 1) 0 payload).map .chunk,
      []⟩
  else
    ⟨[manifest], partStreams payload (payload.length / parts) (payload.length % parts) 0 0 parts⟩

/-- `write_msg` refuses a message whose JSON, of length `jsonLen`, does not fit a frame. -/
def fitsFrame (jsonLen : Wire → Nat) (msg : Wire) : Bool :=
  jsonLen msg + 2 ≤ maxFrameBytes

/-- `send_result`. The sequence number is 32 bits wide and counted up after every chunk; without a
    part the division for the part length fails. -/
def sendResult (serde : Serde) (z : Compressors) (jsonLen : Wire → Nat) (opts : SendOpts)
    (rs : ResultSet) : Except SendError Sent :=
  let raw := serde.toBytes rs
  let (codec, payload) :=
    z.maybeCompress opts.compression opts.compressionLevel opts.compressionMinBytes raw
  let sent := sentStreams opts raw.length codec payload
  if !(sent.control ++ sent.uni.map UniStream.header).all (fitsFrame jsonLen) then
    .error .frameTooLarge
  else if decideParts payload.length opts = 0 then .error .divisionPanic
  else if 2 ^ 32 ≤ sent.control.length - 1 then .error .overflowPanic
  else .ok sent

/-! ## Putting it together again -/

theorem recvInline_inlineChunks {chunkBytes total fuel seq : Nat} {payload buf : Bytes}
    (hchunk : 1 ≤ chunkBytes) (hfuel : payload.length < fuel)
    (htotal : buf.length + payload.length ≤ total)
    (hseq : seq + (inlineChunks chunkBytes fuel seq payload).length < 2 ^ 32) :
    recvInline total buf seq ((inlineChunks chunkBytes fuel seq payload).map .chunk) =
      .ok (buf ++ payload) := by
  induction fuel generalizing seq payload buf with
  | zero => exact absurd hfuel (Nat.not_lt_zero _)
  | succ fuel ih =>
    rw [inlineChunks] at hseq ⊢
    split_ifs at hseq ⊢ with hlast
    · rw [List.length_singleton] at hseq
      rw [List.map_singleton, recvInline, if_neg (not_not.mpr rfl), if_neg (by dsimp only; omega),
        if_neg (by omega), if_pos rfl]
    · have htake : (payload.take chunkBytes).length = chunkBytes := by
        rw [List.length_take]
        omega
      have hdrop : (payload.drop chunkBytes).length = payload.length - chunkBytes :=
        List.length_drop
      have hbuf : (buf ++ payload.take chunkBytes).length = buf.length + chunkBytes := by
        rw [List.length_append, htake]
      rw [List.length_cons] at hseq
      have hrest := @ih (seq + 1) (payload.drop chunkBytes) (buf ++ payload.take chunkBytes)
        (by omega) (by omega) (by omega)
      rw [List.map_cons, recvInline, if_neg (not_not.mpr rfl), if_neg (by dsimp only; omega),
        if_neg (by omega), if_neg nofun, hrest, List.append_assoc, List.take_append_drop]

/-- The offset of part `index`: the first `rem` parts are one byte longer. -/
def partOffset (base rem index : Nat) : Nat :=
  index * base + min index rem

theorem partOffset_succ (base rem index : Nat) :
    partOffset base rem (index + 1) =
      partOffset base rem index + (base + if index < rem then 1 else 0) := by
  unfold partOffset
  rw [Nat.succ_mul]
  split_ifs
  · omega
  · omega

theorem partOffset_le (base rem : Nat) {i j : Nat} (h : i ≤ j) :
    partOffset base rem i ≤ partOffset base rem j := by
  have hmul : i * base ≤ j * base := Nat.mul_le_mul_right base h
  unfold partOffset
  omega

/-- Each stream carries the slice that its header declares, and ends by the last offset. -/
theorem mem_partStreams {payload : Bytes} {base rem index count : Nat} {s : UniStream}
    (hs : s ∈ partStreams payload base rem index (partOffset base rem index) count) :
    ∃ i off len, s = ⟨.part ⟨i, off, len⟩, (payload.drop off).take len⟩ ∧
      off + len ≤ partOffset base rem (index + count) := by
  induction count generalizing index with
  | zero => exact absurd hs List.not_mem_nil
  | succ count ih =>
    rw [partStreams, ← partOffset_succ] at hs
    rcases List.mem_cons.mp hs with rfl | hs
    · refine ⟨_, _, _, rfl, ?_⟩
      rw [← partOffset_succ]
      exact partOffset_le base rem (by omega)
    · obtain ⟨i, off, len, hs, hend⟩ := ih hs
      have hcount : index + 1 + count = index + (count + 1) := by omega
      rw [hcount] at hend
      exact ⟨i, off, len, hs, hend⟩

theorem partStreams_cover (payload : Bytes) {base rem index count i : Nat}
    (hlow : partOffset base rem index ≤ i) (hhigh : i < partOffset base rem (index + count)) :
    ∃ j off len, ⟨.part ⟨j, off, len⟩, (payload.drop off).take len⟩ ∈
        partStreams payload base rem index (partOffset base rem index) count ∧
      off ≤ i ∧ i < off + len := by
  induction count generalizing index with
  | zero =>
    rw [Nat.add_zero] at hhigh
    omega
  | succ count ih =>
    rw [partStreams, ← partOffset_succ]
    by_cases hfirst : i < partOffset base rem (index + 1)
    · rw [partOffset_succ] at hfirst
      exact ⟨_, _, _, List.mem_cons_self, hlow, hfirst⟩
    · have hcount : index + 1 + count = index + (count + 1) := by omega
      obtain ⟨j, off, len, hmem, hin⟩ := @ih (index + 1) (by omega) (by rwa [hcount])
      exact ⟨j, off, len, List.mem_cons_of_mem _ hmem, hin⟩

theorem length_partStreams (payload : Bytes) (base rem index offset count : Nat) :
    (partStreams payload base rem index offset count).length = count := by
  induction count generalizing index offset with
  | zero => rfl
  | succ count ih => rw [partStreams, List.length_cons, ih]

/-- Parts that fit are all written. -/
theorem placeParts_eq {parts : List (Nat × Bytes)} {text : Bytes} (htext : text.length < 2 ^ 64)
    (hparts : ∀ p ∈ parts, Octets.IsSlice text p) {buf : Bytes} (hlen : buf.length = text.length) :
    placeParts buf parts = .ok (parts.foldl (fun buf p => Octets.overwrite buf p.1 p.2) buf) := by
  induction parts generalizing buf with
  | nil => rfl
  | cons p parts ih =>
    have hfits := (hparts p List.mem_cons_self).fits
    have hlen' : (Octets.overwrite buf p.1 p.2).length = text.length := by
      rw [Octets.length_overwrite (by omega), hlen]
    rw [placeParts, if_neg (by omega), if_neg (by omega), List.foldl_cons]
    exact ih (fun q hq => hparts q (List.mem_cons_of_mem _ hq)) hlen'

/-- Where a part stream belongs and what it carries. -/
def UniStream.placed (s : UniStream) : Nat × Bytes :=
  match s.header with
  | .part p => (p.offset, s.raw)
  | _ => (0, s.raw)

/-- A stream that carries the piece of the payload its header names. -/
def UniStream.CarriesPartOf (payload : Bytes) (s : UniStream) : Prop :=
  ∃ i off len, s = ⟨.part ⟨i, off, len⟩, (payload.drop off).take len⟩ ∧ off + len ≤ payload.length

section Parts

variable {payload : Bytes}

theorem length_piece {off len : Nat} (h : off + len ≤ payload.length) :
    ((payload.drop off).take len).length = len := by
  rw [List.length_take, List.length_drop]
  omega

variable {s : UniStream} {parts : Nat}

theorem recvPart_of_carries (h : s.CarriesPartOf payload) :
    recvPart s = .ok s.placed := by
  obtain ⟨i, off, len, rfl, hfits⟩ := h
  exact if_neg (not_not.mpr (length_piece hfits))

theorem isSlice_of_carries (h : s.CarriesPartOf payload) :
    Octets.IsSlice payload s.placed := by
  obtain ⟨i, off, len, rfl, hfits⟩ := h
  have hlength := length_piece hfits
  refine ⟨?_, ?_⟩
  · show off + ((payload.drop off).take len).length ≤ payload.length
    rw [hlength]
    exact hfits
  · show (payload.drop off).take len = (payload.drop off).take ((payload.drop off).take len).length
    rw [hlength]

theorem partOffset_end (hparts : 1 ≤ parts) :
    partOffset (payload.length / parts) (payload.length % parts) parts = payload.length := by
  have hlt : payload.length % parts < parts := Nat.mod_lt _ hparts
  have hdiv := Nat.div_add_mod payload.length parts
  unfold partOffset
  omega

theorem partOffset_zero (base rem : Nat) : partOffset base rem 0 = 0 := by
  unfold partOffset
  omega

theorem carries_of_mem_partStreams (hparts : 1 ≤ parts) (hs : s ∈ partStreams payload
    (payload.length / parts) (payload.length % parts) 0 0 parts) :
    s.CarriesPartOf payload := by
  have hs' : s ∈ partStreams payload (payload.length / parts) (payload.length % parts) 0
      (partOffset (payload.length / parts) (payload.length % parts) 0) parts := by
    rw [partOffset_zero]
    exact hs
  have hmem := mem_partStreams hs'
  rw [Nat.zero_add, partOffset_end hparts] at hmem
  exact hmem

/-- Every byte of the payload lies in some stream. -/
theorem partStreams_cover_payload (hparts : 1 ≤ parts) {i : Nat}
    (hi : i < payload.length) :
    ∃ s ∈ partStreams payload (payload.length / parts) (payload.length % parts) 0 0 parts,
      s.placed.1 ≤ i ∧ i < s.placed.1 + s.placed.2.length := by
  obtain ⟨j, off, len, hmem, hlow, hhigh⟩ := @partStreams_cover payload (payload.length / parts)
    (payload.length % parts) 0 parts i (by rw [partOffset_zero]; omega)
    (by rwa [Nat.zero_add, partOffset_end hparts])
  rw [partOffset_zero] at hmem
  obtain ⟨_, _, _, heq, hfits⟩ := carries_of_mem_partStreams hparts hmem
  obtain ⟨hpart, -⟩ := UniStream.mk.inj heq
  obtain ⟨-, rfl, rfl⟩ := ResultPart.mk.inj (Wire.part.inj hpart)
  refine ⟨_, hmem, hlow, ?_⟩
  show i < off + ((payload.drop off).take len).length
  rw [length_piece hfits]
  exact hhigh

/-- The part streams make up the payload in whatever order they arrive. -/
theorem recvParallel_partStreams {m : ResultManifest} {uni : List UniStream}
    (hparts : 1 ≤ m.parts) (htotal : m.totalLen = payload.length)
    (hlen : payload.length < 2 ^ 64)
    (huni : uni.Perm (partStreams payload (payload.length / m.parts) (payload.length % m.parts)
      0 0 m.parts)) :
    recvParallel uni m = .ok payload := by
  have hcarries : ∀ s ∈ uni, s.CarriesPartOf payload :=
    fun s hs => carries_of_mem_partStreams hparts (huni.mem_iff.mp hs)
  have hslice : ∀ p ∈ uni.map UniStream.placed, Octets.IsSlice payload p := by
    intro p hp
    obtain ⟨s, hs, rfl⟩ := List.mem_map.mp hp
    exact isSlice_of_carries (hcarries s hs)
  have hcover : ∀ i < payload.length, ∃ p ∈ uni.map UniStream.placed,
      p.1 ≤ i ∧ i < p.1 + p.2.length := by
    intro i hi
    obtain ⟨s, hs, hin⟩ := partStreams_cover_payload hparts hi
    exact ⟨_, List.mem_map_of_mem (huni.mem_iff.mpr hs), hin⟩
  have hcount : uni.length = m.parts := by
    rw [huni.length_eq, length_partStreams]
  have hbuf : (List.replicate m.totalLen (0 : UInt8)).length = payload.length := by
    rw [List.length_replicate, htotal]
  have hparts : uni.mapM recvPart = .ok (uni.map UniStream.placed) := by
    rw [Fallible.mapM_eq_ok, List.forall₂_map_right_iff, List.forall₂_same]
    exact fun s hs => recvPart_of_carries (hcarries s hs)
  unfold recvParallel
  rw [if_neg (by omega), List.take_of_length_le (by omega), hparts]
  show placeParts _ (uni.map UniStream.placed) = _
  rw [placeParts_eq hlen hslice hbuf, Octets.foldl_overwrite hslice hcover hbuf]

end Parts

/-! ## The number of chunks -/

theorem length_inlineChunks_pos (chunkBytes : Nat) {fuel : Nat} (hfuel : 0 < fuel) (seq : Nat)
    (payload : Bytes) : 0 < (inlineChunks chunkBytes fuel seq payload).length := by
  cases fuel with
  | zero => exact absurd hfuel (Nat.lt_irrefl 0)
  | succ fuel =>
    rw [inlineChunks]
    split_ifs
    · exact Nat.one_pos
    · exact Nat.succ_pos _

theorem length_inlineChunks_le_iff {chunkBytes : Nat} (hchunk : 1 ≤ chunkBytes) {fuel : Nat}
    {payload : Bytes} (hfuel : payload.length < fuel) (seq n : Nat) :
    (inlineChunks chunkBytes fuel seq payload).length ≤ n + 1 ↔
      payload.length ≤ (n + 1) * chunkBytes := by
  induction fuel generalizing n payload seq with
  | zero => exact absurd hfuel (Nat.not_lt_zero _)
  | succ fuel ih =>
    have hdrop : (payload.drop chunkBytes).length = payload.length - chunkBytes := List.length_drop
    rw [inlineChunks, Nat.succ_mul]
    by_cases hlast : payload.length ≤ chunkBytes
    · rw [if_pos hlast, List.length_singleton]
      omega
    · rw [if_neg hlast, List.length_cons]
      cases n with
      | zero =>
        have hpos := length_inlineChunks_pos chunkBytes (by omega : 0 < fuel) (seq + 1)
          (payload.drop chunkBytes)
        omega
      | succ n =>
        have hrest := ih (by omega : (payload.drop chunkBytes).length < fuel) (seq + 1) n
        omega

/-! ## The whole transfer -/

section Transfer

variable (serde : Serde) (z : Compressors) (opts : SendOpts) (rs : ResultSet)

/-- The codec that is applied to the result, and the payload that is transferred. -/
def packed : Compression × Bytes :=
  z.maybeCompress opts.compression opts.compressionLevel opts.compressionMinBytes
    (serde.toBytes rs)

/-- The manifest that announces it. -/
def sentManifest : ResultManifest :=
  { compression := (packed serde z opts rs).1
    uncompressedLen := (serde.toBytes rs).length
    totalLen := (packed serde z opts rs).2.length
    parts := decideParts (packed serde z opts rs).2.length opts }

/-- All that is sent of a result. -/
def sentResult : Sent :=
  sentStreams opts (serde.toBytes rs).length (packed serde z opts rs).1 (packed serde z opts rs).2

/-- The messages on the control stream, and the first one of every other stream. -/
def Sent.messages (sent : Sent) : List Wire :=
  sent.control ++ sent.uni.map UniStream.header

/-- The chunks of a payload that is sent inline can be numbered. -/
def ChunksCounted : Prop :=
  (sentManifest serde z opts rs).parts = 1 →
    (sentManifest serde z opts rs).totalLen ≤ (2 ^ 32 - 1) * max opts.chunkBytes 1

end Transfer

variable {serde : Serde} {z : Compressors} {jsonLen : Wire → Nat} {opts : SendOpts} {rs : ResultSet}
  {sent : Sent} {maxBytes maxParts : Nat} {uni : List UniStream} {m : ResultManifest}

theorem length_control_lt_iff :
    (sentResult serde z opts rs).control.length - 1 < 2 ^ 32 ↔ ChunksCounted serde z opts rs := by
  unfold ChunksCounted sentManifest sentResult sentStreams
  dsimp only
  split_ifs with hone
  · have hchunks := length_inlineChunks_le_iff (Nat.le_max_right opts.chunkBytes 1)
      (Nat.lt_add_one (packed serde z opts rs).2.length) 0 (2 ^ 32 - 2)
    rw [List.length_cons, List.length_map, Nat.add_sub_cancel]
    omega
  · exact iff_of_true (Nat.two_pow_pos 32) fun h => absurd h hone

theorem sendResult_eq : sendResult serde z jsonLen opts rs =
    if !(sentResult serde z opts rs).messages.all (fitsFrame jsonLen) then .error .frameTooLarge
    else if (sentManifest serde z opts rs).parts = 0 then .error .divisionPanic
    else if 2 ^ 32 ≤ (sentResult serde z opts rs).control.length - 1 then .error .overflowPanic
    else .ok (sentResult serde z opts rs) :=
  rfl

theorem sendResult_eq_ok_iff : sendResult serde z jsonLen opts rs = .ok sent ↔
    (∀ msg ∈ (sentResult serde z opts rs).messages, fitsFrame jsonLen msg = true) ∧
      (sentManifest serde z opts rs).parts ≠ 0 ∧ ChunksCounted serde z opts rs ∧
      sentResult serde z opts rs = sent := by
  rw [sendResult_eq, Fallible.check_eq_ok, Fallible.check_eq_ok, Fallible.check_eq_ok, Except.ok.injEq,
    Bool.not_eq_true, Bool.not_eq_false', List.all_eq_true, Nat.not_le, length_control_lt_iff]

theorem ResultManifest.validate_eq_ok_iff : m.validate maxBytes maxParts = .ok () ↔
    m.parts ≠ 0 ∧ m.parts ≤ min maxParts maxResultParts ∧
      m.totalLen ≤ min maxBytes maxResultBytes ∧
      m.uncompressedLen ≤ min maxBytes maxResultBytes := by
  unfold ResultManifest.validate
  simp only [Fallible.check_eq_ok, Nat.not_lt, and_true]

theorem validate_eq_ok (h : m.validate maxBytes maxParts = .ok ()) :
    1 ≤ m.parts ∧ m.totalLen < 2 ^ 64 := by
  have hlimits := ResultManifest.validate_eq_ok_iff.mp h
  unfold maxResultBytes at hlimits
  omega

/-- The control stream starts with the manifest. -/
theorem control_sentResult (serde : Serde) (z : Compressors) (opts : SendOpts) (rs : ResultSet) :
    ∃ rest, (sentResult serde z opts rs).control =
      .manifest (sentManifest serde z opts rs) :: rest := by
  unfold sentResult sentStreams
  dsimp only
  split_ifs <;> exact ⟨_, rfl⟩

/-- The receiver gets the payload that was sent, inline or in parts. -/
theorem recv_sentResult (hcount : ChunksCounted serde z opts rs)
    (hvalid : (sentManifest serde z opts rs).validate maxBytes maxParts = .ok ())
    (huni : uni.Perm (sentResult serde z opts rs).uni) {rest : List Wire}
    (hcontrol : (sentResult serde z opts rs).control =
      .manifest (sentManifest serde z opts rs) :: rest) :
    (if (sentManifest serde z opts rs).parts ≤ 1
      then recvInline (sentManifest serde z opts rs).totalLen [] 0 rest
      else recvParallel uni (sentManifest serde z opts rs)) = .ok (packed serde z opts rs).2 := by
  obtain ⟨hparts, htotal⟩ := validate_eq_ok hvalid
  rw [← length_control_lt_iff, hcontrol, List.length_cons] at hcount
  unfold sentResult sentStreams at hcontrol huni
  dsimp only at hcontrol huni
  split_ifs at hcontrol huni with hone
  · obtain rfl := (List.cons.inj hcontrol).2
    rw [List.length_map] at hcount
    have hinline : (sentManifest serde z opts rs).parts ≤ 1 := Nat.le_of_eq hone
    rw [if_pos hinline]
    exact @recvInline_inlineChunks _ _ _ 0 (packed serde z opts rs).2 [] (by omega) (by omega)
      (by rw [List.length_nil, Nat.zero_add]; exact Nat.le_refl _) (by omega)
  · have hparallel : ¬ (sentManifest serde z opts rs).parts ≤ 1 :=
      fun hle => hone (Nat.le_antisymm hle hparts)
    rw [if_neg hparallel]
    exact recvParallel_partStreams hparts rfl htotal huni

/-- Once the payload is there, the rest is decompressing and decoding it. -/
theorem recvResult_of_payload {codec : Codec}
    {rest : List Wire} {payload bytes : Bytes} (hvalid : m.validate maxBytes maxParts = .ok ())
    (hpayload : (if m.parts ≤ 1 then recvInline m.totalLen [] 0 rest else recvParallel uni m) =
      .ok payload)
    (hbytes : codec.decompress m.compression m.uncompressedLen payload = some bytes) :
    (recvResult codec uni (.manifest m :: rest) maxBytes maxParts).toOption =
      codec.fromBytes bytes := by
  rw [recvResult, hvalid]
  -- the payload is read in one of two ways and then treated alike
  by_cases hone : m.parts ≤ 1
  · rw [if_pos hone] at hpayload ⊢
    simp only [hpayload, bind, Except.bind, hbytes]
    cases codec.fromBytes bytes <;> rfl
  · rw [if_neg hone] at hpayload ⊢
    simp only [hpayload, bind, Except.bind, hbytes]
    cases codec.fromBytes bytes <;> rfl

/-- What comes out of a transfer is what the bytes of the result decode to, however they are
    decoded. -/
theorem recvResult_sentResult (hz : z.Lossless opts.compression opts.compressionLevel
    (serde.toBytes rs)) (hcount : ChunksCounted serde z opts rs)
    (hvalid : (sentManifest serde z opts rs).validate maxBytes maxParts = .ok ())
    (huni : uni.Perm (sentResult serde z opts rs).uni) (decode : Bytes → Option ResultSet) :
    (recvResult ⟨z.decompress, decode⟩ uni (sentResult serde z opts rs).control maxBytes
      maxParts).toOption = decode (serde.toBytes rs) := by
  obtain ⟨rest, hcontrol⟩ := control_sentResult serde z opts rs
  rw [hcontrol]
  exact recvResult_of_payload hvalid (recv_sentResult hcount hvalid huni hcontrol)
    (Compressors.decompress_maybeCompress hz opts.compressionMinBytes)

end Duckton.Node
