/-
  The pipe between a worker and its sandboxed child (node/subprocess.rs): the frames that
  `serve_job` writes and the loop of `SubprocessEngine::run` that reads them.

  The child sends a heartbeat before it runs the query, one for each tick while it runs, and a last
  frame with the outcome. A frame is its length in four bytes and then its JSON. The request, which
  goes the other way, is not modelled; what the engine made of it is given.

  `runJob_serveJob` says what the worker gets, for every number of heartbeats.
-/
import Duckton.Lib.Octets
import Duckton.Proto.Json

namespace Duckton.Node

open Duckton.Proto

/-! ## Frames -/

structure JobProgress where
  stage : String
  rowsProcessed : UInt64
  pct : UInt8
  seq : UInt32
  tsMs : UInt64
  deriving DecidableEq, Repr

/-- The result, or the text of the engine's error. -/
structure JobResponse where
  result : Option ResultSet
  error : Option String
  deriving DecidableEq

inductive JobFrame where
  | progress (p : JobProgress)
  | done (resp : JobResponse)
  deriving DecidableEq

def JobProgress.toJson (p : JobProgress) : Json :=
  .obj [("stage", .str p.stage), ("rows_processed", .num (.ofUInt64 p.rowsProcessed)),
    ("pct", .num (.ofUInt8 p.pct)), ("seq", .num (.ofUInt32 p.seq)),
    ("ts_ms", .num (.ofUInt64 p.tsMs))]

def JobResponse.toJson (resp : JobResponse) : Json :=
  .obj [("result", (resp.result.map ResultSet.toJson).getD .null),
    ("error", (resp.error.map Json.str).getD .null)]

def JobFrame.toJson : JobFrame → Json
  | .progress p => tagged "Progress" p.toJson
  | .done resp => tagged "Done" resp.toJson

def JobProgress.fromFields (stage rowsProcessed pct seq tsMs : Json) : Option JobProgress :=
  stage.toStr.bind fun stage => rowsProcessed.toU64.bind fun rowsProcessed =>
    pct.toByte.bind fun pct => seq.toU32.bind fun seq => tsMs.toU64.map fun tsMs =>
      ⟨stage, rowsProcessed, pct, seq, tsMs⟩

def JobProgress.fromJson : Json → Option JobProgress
  | .obj entries =>
    (Json.required "stage" entries).bind fun stage =>
      (Json.required "rows_processed" entries).bind fun rowsProcessed =>
        (Json.required "pct" entries).bind fun pct =>
          (Json.required "seq" entries).bind fun seq =>
            (Json.required "ts_ms" entries).bind fun tsMs =>
              fromFields stage rowsProcessed pct seq tsMs
  | .arr [stage, rowsProcessed, pct, seq, tsMs] => fromFields stage rowsProcessed pct seq tsMs
  | _ => none

variable (ofInt : Int → F64)

def JobResponse.fromFields (result error : Json) : Option JobResponse :=
  (result.toOption (ResultSet.fromJson ofInt)).bind fun result =>
    (error.toOption Json.toStr).map fun error => ⟨result, error⟩

def JobResponse.fromJson : Json → Option JobResponse
  | .obj entries =>
    (Json.optional "result" entries).bind fun result =>
      (Json.optional "error" entries).bind fun error => fromFields ofInt result error
  | .arr [result, error] => fromFields ofInt result error
  | _ => none

def JobFrame.fromJson : Json → Option JobFrame
  | .obj [("Progress", doc)] => (JobProgress.fromJson doc).map .progress
  | .obj [("Done", doc)] => (JobResponse.fromJson ofInt doc).map .done
  | _ => none

theorem JobFrame.fromJson_progress (p : JobProgress) :
    JobFrame.fromJson ofInt (JobFrame.progress p).toJson = some (.progress p) := by
  have hfields : JobProgress.fromFields (.str p.stage) (.num (.ofUInt64 p.rowsProcessed))
      (.num (.ofUInt8 p.pct)) (.num (.ofUInt32 p.seq)) (.num (.ofUInt64 p.tsMs)) = some p := by
    unfold JobProgress.fromFields
    rw [toU64_ofUInt64, toU64_ofUInt64, toByte_ofUInt8, toU32_ofUInt32]
    rfl
  show (JobProgress.fromJson p.toJson).map JobFrame.progress = _
  have hdecode : JobProgress.fromJson p.toJson = some p := hfields
  rw [hdecode]
  rfl

theorem JobFrame.fromJson_done (rs : ResultSet) :
    JobFrame.fromJson ofInt (JobFrame.done ⟨some rs, none⟩).toJson =
      if rs.isFinite then some (.done ⟨some rs, none⟩) else none := by
  show (((ResultSet.fromJson ofInt rs.toJson).map some).bind
    fun result => some (JobResponse.mk result none)).map JobFrame.done = _
  rw [ResultSet.fromJson_toJson]
  cases rs.isFinite with
  | true | false => rfl

/-! ## The pipe -/

/-- `MAX_FRAME_BYTES` of the pipe: 256 MiB. -/
def maxJobFrameBytes : Nat :=
  256 * 1024 * 1024

inductive JobError where
  | unexpectedEof
  | frameTooLarge
  | decodeFrame
  | exec (message : String)
  | emptyResponse
  deriving DecidableEq, Repr

/-- Of the length, only the lower 32 bits are written. -/
def writeFrame (bytes : Bytes) : Bytes :=
  Octets.toLe 4 bytes.length ++ bytes

/-- The next frame and what follows it. -/
def readFrame (pipe : Bytes) : Except JobError (Bytes × Bytes) :=
  if pipe.length < 4 then .error .unexpectedEof
  else
    let n := Octets.ofLe (pipe.take 4)
    if maxJobFrameBytes < n then .error .frameTooLarge
    else if (pipe.drop 4).length < n then .error .unexpectedEof
    else .ok ((pipe.drop 4).take n, (pipe.drop 4).drop n)

/-- The heartbeats of the given times, numbered on from `seq`. -/
def heartbeats (seq : UInt32) : List UInt64 → List JobProgress
  | [] => []
  | ts :: times =>
    ⟨"executing", 0, 0, seq, ts⟩ :: heartbeats (if seq = 0xffffffff then seq else seq + 1) times

/-- The frames of `serve_job`: the leading heartbeat, those of the ticks, the outcome. -/
def jobFrames (start : UInt64) (ticks : List UInt64) (outcome : Except String ResultSet) :
    List JobFrame :=
  (heartbeats 1 (start :: ticks)).map .progress ++ [.done (match outcome with
    | .ok rs => ⟨some rs, none⟩
    | .error e => ⟨none, some e⟩)]

/-- What `serve_job` writes to the pipe. -/
def serveJob (serde : Serde) (start : UInt64) (ticks : List UInt64)
    (outcome : Except String ResultSet) : Bytes :=
  (jobFrames start ticks outcome).flatMap fun frame => writeFrame (serde.print frame.toJson)

/-- The reading loop. A frame takes four bytes at least, so `fuel` need not exceed the length of
    the pipe. -/
def readResponse (serde : Serde) : (fuel : Nat) → Bytes → Except JobError JobResponse
  | 0, _ => .error .unexpectedEof
  | fuel + 1, pipe =>
    match readFrame pipe with
    | .error e => .error e
    | .ok (bytes, rest) =>
      match (serde.parse bytes).bind (JobFrame.fromJson serde.ofInt) with
      | none => .error .decodeFrame
      | some (.progress _) => readResponse serde fuel rest
      | some (.done resp) => .ok resp

/-- A result counts, whatever else the response says. -/
def JobResponse.outcome : JobResponse → Except JobError ResultSet
  | ⟨some rs, _⟩ => .ok rs
  | ⟨none, some e⟩ => .error (.exec e)
  | ⟨none, none⟩ => .error .emptyResponse

/-- `SubprocessEngine::run` from the first frame on. -/
def runJob (serde : Serde) (pipe : Bytes) : Except JobError ResultSet :=
  (readResponse serde (pipe.length + 1) pipe).bind JobResponse.outcome

/-! ## What is read -/

variable {bytes : Bytes} {serde : Serde}

/-- A frame within the limit is read whole. -/
theorem readFrame_writeFrame (h : bytes.length ≤ maxJobFrameBytes) (rest : Bytes) :
    readFrame (writeFrame bytes ++ rest) = .ok (bytes, rest) := by
  have hlen : (Octets.toLe 4 bytes.length).length = 4 := Octets.length_toLe 4 _
  have hcount : Octets.ofLe (Octets.toLe 4 bytes.length) = bytes.length := by
    unfold maxJobFrameBytes at h
    rw [Octets.ofLe_toLe]
    omega
  unfold writeFrame
  rw [List.append_assoc, readFrame, List.take_left' hlen, List.drop_left' hlen, hcount]
  rw [if_neg (by rw [List.length_append]; omega), if_neg (by omega),
    if_neg (by rw [List.length_append]; omega), List.take_left, List.drop_left]

/-- Of a frame above the limit at most a proper start is read: the length that was written is
    too large as well, or it lost its upper bits. -/
theorem readFrame_writeFrame_of_lt (h : maxJobFrameBytes < bytes.length) {rest got left : Bytes}
    (hread : readFrame (writeFrame bytes ++ rest) = .ok (got, left)) :
    ∃ n < bytes.length, got = bytes.take n := by
  have hlen : (Octets.toLe 4 bytes.length).length = 4 := Octets.length_toLe 4 _
  unfold writeFrame at hread
  rw [List.append_assoc, readFrame, List.take_left' hlen, List.drop_left' hlen,
    Octets.ofLe_toLe] at hread
  dsimp only at hread
  split_ifs at hread with hshort hlarge hend
  obtain ⟨rfl, -⟩ := Prod.mk.inj (Except.ok.inj hread)
  refine ⟨bytes.length % 256 ^ 4, by omega, ?_⟩
  exact List.take_append_of_le_length (by omega)

/-- The frame is read back and within the limit. -/
structure JobFrame.CarriedBy (frame : JobFrame) (serde : Serde) : Prop where
  reads : serde.Reads frame.toJson
  fits : (serde.print frame.toJson).length ≤ maxJobFrameBytes

/-- Heartbeats are passed over. -/
theorem readResponse_progress (beats : List JobProgress) :
    ∀ {fuel : Nat} {rest : Bytes},
      (∀ p ∈ beats, (JobFrame.progress p).CarriedBy serde) →
      readResponse serde (fuel + beats.length)
        ((beats.map JobFrame.progress).flatMap
          (fun frame => writeFrame (serde.print frame.toJson)) ++ rest) =
        readResponse serde fuel rest := by
  induction beats with
  | nil =>
    intro fuel rest _
    rfl
  | cons p beats ih =>
    intro fuel rest hbeats
    have hp := hbeats p List.mem_cons_self
    rw [List.length_cons, ← Nat.add_assoc, List.map_cons, List.flatMap_cons, List.append_assoc,
      readResponse, readFrame_writeFrame hp.fits]
    dsimp only
    rw [hp.reads.whole, Option.bind_some, JobFrame.fromJson_progress]
    exact ih fun q hq => hbeats q (List.mem_cons_of_mem _ hq)

/-- The last frame is understood if its floats are finite and it is within the limit. -/
theorem readResponse_done {rs : ResultSet}
    (hdone : serde.Reads (JobFrame.done ⟨some rs, none⟩).toJson) (fuel : Nat) :
    (readResponse serde (fuel + 1)
        (writeFrame (serde.print (JobFrame.done ⟨some rs, none⟩).toJson))).toOption =
      if rs.isFinite ∧
          (serde.print (JobFrame.done ⟨some rs, none⟩).toJson).length ≤ maxJobFrameBytes then
        some ⟨some rs, none⟩
      else none := by
  by_cases hfits : (serde.print (JobFrame.done ⟨some rs, none⟩).toJson).length ≤ maxJobFrameBytes
  · have hread := readFrame_writeFrame hfits []
    rw [List.append_nil] at hread
    rw [readResponse, hread]
    dsimp only
    rw [hdone.whole, Option.bind_some, JobFrame.fromJson_done]
    by_cases hfinite : rs.isFinite = true
    · rw [if_pos hfinite, if_pos ⟨hfinite, hfits⟩]
      rfl
    · rw [if_neg hfinite, if_neg fun h => hfinite h.1]
      rfl
  · rw [if_neg fun h => hfits h.2, readResponse]
    cases hread : readFrame (writeFrame (serde.print (JobFrame.done ⟨some rs, none⟩).toJson)) with
    | error e => rfl
    | ok got =>
      have hread' := hread
      rw [← List.append_nil (writeFrame _)] at hread'
      obtain ⟨n, hn, hgot⟩ := readFrame_writeFrame_of_lt (by omega) hread'
      dsimp only
      rw [hgot, hdone.start n hn]
      rfl

theorem length_writeFrame (bytes : Bytes) : (writeFrame bytes).length = 4 + bytes.length := by
  unfold writeFrame
  rw [List.length_append, Octets.length_toLe]

theorem length_le_flatMap_writeFrame (frames : List JobFrame) (text : JobFrame → Bytes) :
    frames.length ≤ (frames.flatMap fun frame => writeFrame (text frame)).length := by
  induction frames with
  | nil => exact Nat.zero_le _
  | cons frame frames ih =>
    rw [List.flatMap_cons, List.length_append, length_writeFrame, List.length_cons]
    omega

/-- The worker gets the result of the child, unless the last frame is lost. -/
theorem runJob_serveJob {start : UInt64} {ticks : List UInt64} {rs : ResultSet}
    (hbeats : ∀ p ∈ heartbeats 1 (start :: ticks), (JobFrame.progress p).CarriedBy serde)
    (hdone : serde.Reads (JobFrame.done ⟨some rs, none⟩).toJson) :
    (runJob serde (serveJob serde start ticks (.ok rs))).toOption =
      if rs.isFinite ∧
          (serde.print (JobFrame.done ⟨some rs, none⟩).toJson).length ≤ maxJobFrameBytes then
        some rs
      else none := by
  set beats := heartbeats 1 (start :: ticks) with hbeatsDef
  set last := writeFrame (serde.print (JobFrame.done ⟨some rs, none⟩).toJson) with hlast
  have hpipe : serveJob serde start ticks (.ok rs) =
      (beats.map JobFrame.progress).flatMap
        (fun frame => writeFrame (serde.print frame.toJson)) ++ last := by
    unfold serveJob jobFrames
    rw [List.flatMap_append, List.flatMap_singleton]
  have hcount : beats.length ≤ (serveJob serde start ticks (.ok rs)).length := by
    have hle := length_le_flatMap_writeFrame (beats.map JobFrame.progress)
      fun frame => serde.print frame.toJson
    rw [List.length_map] at hle
    rw [hpipe, List.length_append]
    omega
  obtain ⟨fuel, hfuel⟩ := Nat.exists_eq_add_of_le hcount
  have hloop : readResponse serde ((serveJob serde start ticks (.ok rs)).length + 1)
      (serveJob serde start ticks (.ok rs)) = readResponse serde (fuel + 1) last := by
    have hfuel' : (serveJob serde start ticks (.ok rs)).length + 1 = fuel + 1 + beats.length := by
      omega
    rw [hfuel', hpipe, readResponse_progress beats hbeats]
  have hresp := readResponse_done hdone fuel
  unfold runJob
  rw [hloop]
  split_ifs at hresp ⊢ with hcond
  · cases hread : readResponse serde (fuel + 1) last with
    | error e =>
      rw [hread] at hresp
      cases hresp
    | ok resp =>
      rw [hread] at hresp
      cases Option.some.inj hresp
      rfl
  · cases hread : readResponse serde (fuel + 1) last with
    | error e => rfl
    | ok resp =>
      rw [hread] at hresp
      cases hresp

end Duckton.Node
