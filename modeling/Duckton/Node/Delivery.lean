/-
  Whether a result reaches whoever asked for it: as bytes, over the streams of a transfer and out
  of a sandboxed child.

  The canonical hash takes any float, a NaN or an infinity included, and workers can agree on such
  a result. The wire does not: `result_delivered_iff`.
-/
import Duckton.Node.JobFrames
import Duckton.Node.ResultSend
import Duckton.Trust.Canonical

namespace Duckton.Node

open Duckton.Proto Duckton.Trust

/-- The result arrived, up to what the canonical hash tells apart. -/
def ArrivesAs (blake3 : Bytes → Bytes) (rs : ResultSet) (got : Option ResultSet) : Prop :=
  ∃ back, got = some back ∧ canonicalHash blake3 back = canonicalHash blake3 rs

/-- The sender sends, and in whatever order the part streams come in, the receiver gets the
    result. -/
def DeliversOverStreams (blake3 : Bytes → Bytes) (serde : Serde) (z : Compressors)
    (jsonLen : Wire → Nat) (opts : SendOpts) (maxBytes maxParts : Nat) (rs : ResultSet) : Prop :=
  ∃ sent, sendResult serde z jsonLen opts rs = .ok sent ∧ ∀ uni : List UniStream,
    uni.Perm sent.uni → ArrivesAs blake3 rs
      (recvResult ⟨z.decompress, serde.fromBytes⟩ uni sent.control maxBytes maxParts).toOption

/-- The encoded result and the payload made of it keep to the limits of both sides: the size and the
    number of parts that the receiver takes, the numbers of the chunks, and the frames. -/
structure WithinStreamLimits (serde : Serde) (z : Compressors) (jsonLen : Wire → Nat)
    (opts : SendOpts) (maxBytes maxParts : Nat) (rs : ResultSet) : Prop where
  encoded : (serde.toBytes rs).length ≤ min maxBytes maxResultBytes
  payload : (packed serde z opts rs).2.length ≤ min maxBytes maxResultBytes
  parts : (sentManifest serde z opts rs).parts ≠ 0 ∧
    (sentManifest serde z opts rs).parts ≤ min maxParts maxResultParts
  chunks : ChunksCounted serde z opts rs
  frames : ∀ msg ∈ (sentResult serde z opts rs).messages, jsonLen msg + 2 ≤ maxFrameBytes

variable {blake3 : Bytes → Bytes} {rs : ResultSet} {opts : SendOpts} {m : ResultManifest}
  {maxBytes maxParts : Nat}

theorem arrivesAs_ite {p : Prop} [Decidable p] :
    ArrivesAs blake3 rs (if p then some rs else none) ↔ p := by
  split_ifs with hp
  · exact iff_of_true ⟨rs, rfl, rfl⟩ hp
  · refine iff_of_false ?_ hp
    rintro ⟨back, hback, -⟩
    cases hback

theorem validate_of_recvResult {codec : Codec} {uni : List UniStream} {rest : List Wire}
    (h : (recvResult codec uni (.manifest m :: rest) maxBytes maxParts).toOption = some rs) :
    m.validate maxBytes maxParts = .ok () := by
  cases hvalid : m.validate maxBytes maxParts with
  | ok u => rfl
  | error e =>
    rw [recvResult, hvalid] at h
    cases h

variable {serde : Serde} {z : Compressors} {jsonLen : Wire → Nat}

/-- The sender gets to the end and the receiver takes the manifest. -/
theorem withinStreamLimits_iff :
    WithinStreamLimits serde z jsonLen opts maxBytes maxParts rs ↔
      sendResult serde z jsonLen opts rs = .ok (sentResult serde z opts rs) ∧
        (sentManifest serde z opts rs).validate maxBytes maxParts = .ok () := by
  rw [sendResult_eq_ok_iff, ResultManifest.validate_eq_ok_iff]
  constructor
  · intro h
    exact ⟨⟨fun msg hmsg => decide_eq_true (h.frames msg hmsg), h.parts.1, h.chunks, rfl⟩,
      h.parts.1, h.parts.2, h.payload, h.encoded⟩
  · rintro ⟨⟨hframes, -, hchunks, -⟩, hzero, hparts, hpayload, hencoded⟩
    exact ⟨hencoded, hpayload, ⟨hzero, hparts⟩, hchunks,
      fun msg hmsg => of_decide_eq_true (hframes msg hmsg)⟩

theorem deliversOverStreams_iff (hreads : serde.Reads rs.toJson)
    (hz : z.Lossless opts.compression opts.compressionLevel (serde.toBytes rs)) :
    DeliversOverStreams blake3 serde z jsonLen opts maxBytes maxParts rs ↔
      rs.isFinite ∧ WithinStreamLimits serde z jsonLen opts maxBytes maxParts rs := by
  have hback := Serde.fromBytes_toBytes hreads
  rw [withinStreamLimits_iff]
  constructor
  · rintro ⟨sent, hsend, hrecv⟩
    obtain ⟨-, -, hchunks, rfl⟩ := sendResult_eq_ok_iff.mp hsend
    have harrives := hrecv (sentResult serde z opts rs).uni (List.Perm.refl _)
    have hvalid : (sentManifest serde z opts rs).validate maxBytes maxParts = .ok () := by
      obtain ⟨rest, hcontrol⟩ := control_sentResult serde z opts rs
      obtain ⟨back, hgot, -⟩ := harrives
      rw [hcontrol] at hgot
      exact validate_of_recvResult hgot
    rw [recvResult_sentResult hz hchunks hvalid (List.Perm.refl _), hback] at harrives
    exact ⟨arrivesAs_ite.mp harrives, hsend, hvalid⟩
  · rintro ⟨hfinite, hsend, hvalid⟩
    obtain ⟨-, -, hchunks, -⟩ := sendResult_eq_ok_iff.mp hsend
    refine ⟨_, hsend, fun uni huni => ?_⟩
    rw [recvResult_sentResult hz hchunks hvalid huni, hback]
    exact arrivesAs_ite.mpr hfinite

/-- A result can be decoded with its canonical hash if and only if all of its floats are finite.
    Over the streams of a transfer and out of a child it arrives under the same condition, as long
    as it respects their limits. -/
theorem result_delivered_iff (blake3 : Bytes → Bytes) {serde : Serde} {rs : ResultSet}
    (hreads : serde.Reads rs.toJson) :
    (ArrivesAs blake3 rs (serde.fromBytes (serde.toBytes rs)) ↔ rs.isFinite) ∧
    (∀ (z : Compressors) (jsonLen : Wire → Nat) (opts : SendOpts) (maxBytes maxParts : Nat),
      z.Lossless opts.compression opts.compressionLevel (serde.toBytes rs) →
      (DeliversOverStreams blake3 serde z jsonLen opts maxBytes maxParts rs ↔
        rs.isFinite ∧ WithinStreamLimits serde z jsonLen opts maxBytes maxParts rs)) ∧
    (∀ (start : UInt64) (ticks : List UInt64),
      (∀ p ∈ heartbeats 1 (start :: ticks), (JobFrame.progress p).CarriedBy serde) →
      serde.Reads (JobFrame.done ⟨some rs, none⟩).toJson →
      (ArrivesAs blake3 rs (runJob serde (serveJob serde start ticks (.ok rs))).toOption ↔
        rs.isFinite ∧
          (serde.print (JobFrame.done ⟨some rs, none⟩).toJson).length ≤ maxJobFrameBytes)) := by
  refine ⟨?_, ?_, ?_⟩
  · rw [Serde.fromBytes_toBytes hreads]
    exact arrivesAs_ite
  · intro z jsonLen opts maxBytes maxParts hz
    exact deliversOverStreams_iff hreads hz
  · intro start ticks hbeats hdone
    rw [runJob_serveJob hbeats hdone]
    exact arrivesAs_ite

/-! ## One cell -/

def firstBeat : JobProgress :=
  ⟨"executing", 0, 0, 1, 0⟩

def doneText (result : String) : String :=
  "\x7b\"Done\":\x7b\"result\":" ++ result ++ ",\"error\":null\x7d\x7d"

def beatText : String :=
  "\x7b\"Progress\":\x7b\"stage\":\"executing\",\"rows_processed\":0,\"pct\":0,\"seq\":1," ++
    "\"ts_ms\":0\x7d\x7d"

/-- serde_json on the documents of one run, whose result has the text `result`. -/
def oneRunSerde (rs : ResultSet) (result : String) : Serde where
  print doc := match doc with
    | .obj [("Done", _)] => utf8 (doneText result)
    | .obj [("Progress", _)] => utf8 beatText
    | _ => utf8 result
  parse bytes :=
    if bytes = utf8 result then some rs.toJson
    else if bytes = utf8 (doneText result) then some (JobFrame.done ⟨some rs, none⟩).toJson
    else if bytes = utf8 beatText then some (JobFrame.progress firstBeat).toJson
    else none
  ofInt _ := F64.zero

def singleCell (v : Value) : ResultSet :=
  ⟨["x"], [[v]]⟩

def intSerde : Serde :=
  oneRunSerde (singleCell (.int 1)) "\x7b\"columns\":[\"x\"],\"rows\":[[\x7b\"Int\":1\x7d]]\x7d"

def nan : F64 :=
  ⟨0x7ff8000000000000⟩

/-- A NaN is printed as `null`. -/
def nanSerde : Serde :=
  oneRunSerde (singleCell (.float nan))
    "\x7b\"columns\":[\"x\"],\"rows\":[[\x7b\"Float\":null\x7d]]\x7d"

def plainOpts : SendOpts :=
  ⟨65536, 1, 1048576, .none, 0, 0⟩

/-- Compressors that are never called. -/
def noCompressors : Compressors :=
  ⟨fun data => data, fun data _ => some data, fun _ data => some data, fun data _ => some data⟩

/-- The start of a text is not a text that does not begin it. -/
theorem take_ne_of_not_begins {text other : Bytes} (h : ¬ other <+: text) (n : Nat) :
    text.take n ≠ other := by
  rintro rfl
  exact h (List.take_prefix n text)

theorem take_ne_self {text : Bytes} {n : Nat} (hn : n < text.length) : text.take n ≠ text := by
  intro h
  have hlen := congrArg List.length h
  rw [List.length_take] at hlen
  omega

/-- None of the three texts begins another one. -/
def TextsApart (result : String) : Prop :=
  [utf8 result, utf8 (doneText result), utf8 beatText].Pairwise fun s t =>
    ¬ s <+: t ∧ ¬ t <+: s

instance (result : String) : Decidable (TextsApart result) :=
  inferInstanceAs (Decidable (List.Pairwise _ _))

section OneRun

variable {rs : ResultSet} {result : String}

theorem TextsApart.pairs (h : TextsApart result) :
    (¬ utf8 result <+: utf8 (doneText result) ∧ ¬ utf8 (doneText result) <+: utf8 result) ∧
    (¬ utf8 result <+: utf8 beatText ∧ ¬ utf8 beatText <+: utf8 result) ∧
    ¬ utf8 (doneText result) <+: utf8 beatText ∧ ¬ utf8 beatText <+: utf8 (doneText result) := by
  have hall := List.pairwise_cons.mp h
  have hrest := List.pairwise_cons.mp hall.2
  exact ⟨hall.1 _ (by simp), hall.1 _ (by simp), hrest.1 _ (by simp)⟩

theorem oneRunSerde_parse_none {bytes : Bytes} (hresult : bytes ≠ utf8 result)
    (hdone : bytes ≠ utf8 (doneText result)) (hbeat : bytes ≠ utf8 beatText) :
    (oneRunSerde rs result).parse bytes = none :=
  (if_neg hresult).trans ((if_neg hdone).trans (if_neg hbeat))

theorem oneRunSerde_reads (h : TextsApart result) : (oneRunSerde rs result).Reads rs.toJson := by
  obtain ⟨⟨_, hdone⟩, ⟨_, hbeat⟩, _⟩ := h.pairs
  refine ⟨if_pos rfl, fun n hn => ?_⟩
  exact oneRunSerde_parse_none (take_ne_self hn) (take_ne_of_not_begins hdone n)
    (take_ne_of_not_begins hbeat n)

theorem oneRunSerde_reads_done (h : TextsApart result) :
    (oneRunSerde rs result).Reads (JobFrame.done ⟨some rs, none⟩).toJson := by
  obtain ⟨⟨hresult, hdone⟩, _, _, hbeat⟩ := h.pairs
  refine ⟨?_, fun n hn => ?_⟩
  · have hne : utf8 (doneText result) ≠ utf8 result := fun heq =>
      hdone (heq ▸ List.prefix_rfl)
    exact (if_neg hne).trans (if_pos rfl)
  · exact oneRunSerde_parse_none (take_ne_of_not_begins hresult n) (take_ne_self hn)
      (take_ne_of_not_begins hbeat n)

theorem oneRunSerde_reads_beat (h : TextsApart result) :
    (oneRunSerde rs result).Reads (JobFrame.progress firstBeat).toJson := by
  obtain ⟨_, ⟨hresult, hbeat⟩, hdone, hbeat'⟩ := h.pairs
  refine ⟨?_, fun n hn => ?_⟩
  · have hne : utf8 beatText ≠ utf8 result := fun heq => hbeat (heq ▸ List.prefix_rfl)
    have hne' : utf8 beatText ≠ utf8 (doneText result) := fun heq =>
      hbeat' (heq ▸ List.prefix_rfl)
    exact (if_neg hne).trans ((if_neg hne').trans (if_pos rfl))
  · exact oneRunSerde_parse_none (take_ne_of_not_begins hresult n) (take_ne_of_not_begins hdone n)
      (take_ne_self hn)

end OneRun

theorem noCompressors_lossless (serde : Serde) (rs : ResultSet) :
    noCompressors.Lossless plainOpts.compression plainOpts.compressionLevel (serde.toBytes rs) :=
  ⟨nofun, nofun⟩

theorem int_withinStreamLimits : WithinStreamLimits intSerde noCompressors (fun _ => 200) plainOpts
    maxResultBytes 8 (singleCell (.int 1)) :=
  withinStreamLimits_iff.mpr (by decide)

/-- A result with one integer arrives on every way. -/
theorem int_result_delivered :
    ArrivesAs (fun bytes => bytes) (singleCell (.int 1))
      (intSerde.fromBytes (intSerde.toBytes (singleCell (.int 1)))) ∧
    DeliversOverStreams (fun bytes => bytes) intSerde noCompressors (fun _ => 200) plainOpts
      maxResultBytes 8 (singleCell (.int 1)) ∧
    ArrivesAs (fun bytes => bytes) (singleCell (.int 1))
      (runJob intSerde (serveJob intSerde 0 [] (.ok (singleCell (.int 1))))).toOption := by
  obtain ⟨hapart, hbeat, hdone⟩ :
      TextsApart "\x7b\"columns\":[\"x\"],\"rows\":[[\x7b\"Int\":1\x7d]]\x7d" ∧
        (intSerde.print (JobFrame.progress firstBeat).toJson).length ≤ maxJobFrameBytes ∧
        (intSerde.print (JobFrame.done ⟨some (singleCell (.int 1)), none⟩).toJson).length ≤
          maxJobFrameBytes := by
    decide
  have hfinite : (singleCell (.int 1)).isFinite := by decide
  obtain ⟨hbytes, hstreams, hchild⟩ :=
    result_delivered_iff (fun bytes => bytes) (oneRunSerde_reads hapart)
  refine ⟨hbytes.mpr hfinite, ?_, ?_⟩
  · exact (hstreams _ _ _ _ _ (noCompressors_lossless _ _)).mpr ⟨hfinite, int_withinStreamLimits⟩
  · refine (hchild 0 [] ?_ (oneRunSerde_reads_done hapart)).mpr ⟨hfinite, hdone⟩
    intro p hp
    rw [List.mem_singleton.mp hp]
    exact ⟨oneRunSerde_reads_beat hapart, hbeat⟩

/-- A result with one NaN has a canonical hash, but its bytes cannot be decoded: not by the
    receiver of a transfer and not by the worker whose child computed it. -/
theorem nan_result_lost :
    nanSerde.Reads (singleCell (.float nan)).toJson ∧
    nanSerde.fromBytes (nanSerde.toBytes (singleCell (.float nan))) = none ∧
    (sendResult nanSerde noCompressors (fun _ => 200) plainOpts (singleCell (.float nan))).map
        (fun sent => recvResult ⟨noCompressors.decompress, nanSerde.fromBytes⟩ sent.uni sent.control
          maxResultBytes 8) = .ok (.error .decode) ∧
    runJob nanSerde (serveJob nanSerde 0 [] (.ok (singleCell (.float nan)))) =
      .error .decodeFrame := by
  refine ⟨oneRunSerde_reads (by decide), ?_⟩
  decide +kernel

end Duckton.Node
