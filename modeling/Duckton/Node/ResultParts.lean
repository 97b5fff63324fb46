/-
  Putting parts together that an untrusted worker sends (node/result_stream.rs, recv_parallel).

  The receiver checks of each part that it has the declared length and ends within the payload. It
  does not compare the parts with one another, and it computes the end of a part in 64 bits with
  overflow checks. `exactTransfer_iff` says for which streams the result is nevertheless exact:
  the parts tile the payload, no more is read than the payload is long, and nothing overflows.

  The parts are read concurrently, and the first error ends the transfer. A worker that sends the
  erroneous stream last makes the receiver read all others to their end before; `readable` is
  what can be read of a stream.
-/
import Duckton.Lib.Cover
import Duckton.Node.ResultSend

namespace Duckton.Node

open Duckton.Proto

/-! ## Streams -/

namespace UniStream

/-- What `read_to_end` takes in: up to the declared length. -/
def readable (s : UniStream) : Nat :=
  match s.header with
  | .part p => min s.raw.length p.len
  | _ => 0

/-- A part header, and as many bytes as it declares. -/
def complete (s : UniStream) : Bool :=
  match s.header with
  | .part p => s.raw.length == p.len
  | _ => false

/-- Start and length of the part. -/
def extent (s : UniStream) : Nat × Nat :=
  (s.placed.1, s.placed.2.length)

def endOffset (s : UniStream) : Nat :=
  s.extent.1 + s.extent.2

end UniStream

theorem recvPart_eq_ok {s : UniStream} {q : Nat × Bytes} :
    recvPart s = .ok q ↔ s.complete = true ∧ s.placed = q := by
  unfold recvPart UniStream.complete UniStream.placed
  cases s.header with
  | part p =>
    by_cases h : s.raw.length = p.len
    · simp [h]
    · simp [h]
  | _ => simp

theorem recvPart_ne_overflowPanic (s : UniStream) : recvPart s ≠ .error .overflowPanic := by
  unfold recvPart
  cases s.header with
  | part p =>
    by_cases h : s.raw.length = p.len
    · simp [h]
    · simp [h]
  | _ => simp

theorem readable_of_complete {s : UniStream} (h : s.complete = true) : s.readable = s.extent.2 := by
  unfold UniStream.complete at h
  unfold UniStream.readable UniStream.extent UniStream.placed
  cases hs : s.header with
  | part p =>
    rw [hs] at h
    have hlen : s.raw.length = p.len := beq_iff_eq.mp h
    simp [hlen]
  | _ => simp [hs] at h

/-! ## Placing the parts -/

variable {buf : Bytes} {parts : List (Nat × Bytes)} {uni : List UniStream} {m : ResultManifest}

theorem length_placePart {raw : Bytes} {offset : Nat} (h : offset + raw.length ≤ buf.length) :
    (placePart buf offset raw).length = buf.length :=
  Octets.length_overwrite h

/-- Every part is written exactly if every part ends within the buffer. -/
theorem placeParts_ok_iff (hbuf : buf.length < 2 ^ 64) :
    (∃ out, placeParts buf parts = .ok out) ↔ ∀ p ∈ parts, p.1 + p.2.length ≤ buf.length := by
  induction parts generalizing buf with
  | nil => exact ⟨nofun, fun _ => ⟨buf, rfl⟩⟩
  | cons p parts ih =>
    rw [placeParts, List.forall_mem_cons]
    by_cases hfits : p.1 + p.2.length ≤ buf.length
    · have hlen := length_placePart hfits
      rw [if_neg (by omega), if_neg (by omega), ih (by omega), hlen]
      exact ⟨fun h => ⟨hfits, h⟩, fun h => h.2⟩
    · refine ⟨?_, fun h => absurd h.1 hfits⟩
      rintro ⟨out, hout⟩
      split_ifs at hout
      omega

/-- The arithmetic overflows exactly if some part reaches 2^64 and all before it fit. -/
theorem placeParts_panic_iff (hbuf : buf.length < 2 ^ 64) :
    placeParts buf parts = .error .overflowPanic ↔
      ∃ before p after, parts = before ++ p :: after ∧
        (∀ q ∈ before, q.1 + q.2.length ≤ buf.length) ∧ 2 ^ 64 ≤ p.1 + p.2.length := by
  induction parts generalizing buf with
  | nil =>
    constructor
    · rintro ⟨⟩
    · rintro ⟨before, p, after, h, -⟩
      exact absurd h.symm (List.append_ne_nil_of_right_ne_nil _ (List.cons_ne_nil _ _))
  | cons p parts ih =>
    rw [placeParts]
    by_cases hpanic : 2 ^ 64 ≤ p.1 + p.2.length
    · rw [if_pos hpanic]
      exact ⟨fun _ => ⟨[], p, parts, rfl, List.forall_mem_nil _, hpanic⟩, fun _ => rfl⟩
    · rw [if_neg hpanic]
      by_cases hfits : p.1 + p.2.length ≤ buf.length
      · have hlen := length_placePart hfits
        rw [if_neg (by omega), ih (by omega), hlen]
        constructor
        · rintro ⟨before, q, after, rfl, hbefore, hq⟩
          exact ⟨p :: before, q, after, rfl, List.forall_mem_cons.mpr ⟨hfits, hbefore⟩, hq⟩
        · rintro ⟨before, q, after, hparts, hbefore, hq⟩
          cases before with
          | nil =>
            cases hparts
            exact absurd hq hpanic
          | cons first before =>
            cases hparts
            exact ⟨before, q, after, rfl, (List.forall_mem_cons.mp hbefore).2, hq⟩
      · rw [if_pos (by omega)]
        constructor
        · rintro ⟨⟩
        · rintro ⟨before, q, after, hparts, hbefore, hq⟩
          cases before with
          | nil =>
            cases hparts
            exact absurd hq hpanic
          | cons first before =>
            cases hparts
            exact absurd (hbefore _ List.mem_cons_self) hfits

/-! ## The whole transfer -/

theorem recvParallel_eq_ok :
    recvParallel uni m = .ok buf ↔ m.parts ≤ uni.length ∧
      (∀ s ∈ uni.take m.parts, s.complete = true) ∧
      placeParts (List.replicate m.totalLen 0) ((uni.take m.parts).map UniStream.placed) =
        .ok buf := by
  unfold recvParallel
  rw [Fallible.check_eq_ok, Nat.not_lt, Fallible.bind_eq_ok]
  simp only [Fallible.mapM_eq_ok_map fun _ _ => recvPart_eq_ok]
  refine and_congr_right fun _ => ⟨?_, ?_⟩
  · rintro ⟨_, ⟨hcomplete, rfl⟩, hplace⟩
    exact ⟨hcomplete, hplace⟩
  · rintro ⟨hcomplete, hplace⟩
    exact ⟨_, ⟨hcomplete, rfl⟩, hplace⟩

theorem recvParallel_panic_iff :
    recvParallel uni m = .error .overflowPanic ↔ m.parts ≤ uni.length ∧
      (∀ s ∈ uni.take m.parts, s.complete = true) ∧
      placeParts (List.replicate m.totalLen 0) ((uni.take m.parts).map UniStream.placed) =
        .error .overflowPanic := by
  unfold recvParallel
  by_cases hshort : uni.length < m.parts
  · rw [if_pos hshort]
    exact ⟨nofun, fun h => absurd h.1 (by omega)⟩
  · rw [if_neg hshort]
    by_cases hall : ∀ s ∈ uni.take m.parts, s.complete = true
    · rw [(Fallible.mapM_eq_ok_map fun _ _ => recvPart_eq_ok).mpr ⟨hall, rfl⟩]
      exact ⟨fun h => ⟨by omega, hall, h⟩, fun h => h.2.2⟩
    · refine ⟨fun h => ?_, fun h => absurd h.2.1 hall⟩
      cases hmap : (uni.take m.parts).mapM recvPart with
      | error e =>
        rw [hmap] at h
        cases h
        obtain ⟨s, -, hs⟩ := Fallible.mapM_error hmap
        exact absurd hs (recvPart_ne_overflowPanic s)
      | ok collected =>
        exact absurd ((Fallible.mapM_eq_ok_map fun _ _ => recvPart_eq_ok).mp hmap).1 hall

/-- Nothing overflows, no more is read than the payload is long, and an accepted transfer writes
    every byte of the payload once. -/
structure ExactTransfer (uni : List UniStream) (m : ResultManifest) : Prop where
  noPanic : recvParallel uni m ≠ .error .overflowPanic
  bounded : m.parts ≤ uni.length → ((uni.take m.parts).map UniStream.readable).sum ≤ m.totalLen
  tiled : ∀ buf, recvParallel uni m = .ok buf →
    (∀ s ∈ uni.take m.parts, s.endOffset ≤ m.totalLen) ∧
      ∀ i < m.totalLen, ((uni.take m.parts).map UniStream.extent).countP (Cover.reaches i) = 1

/-- The accepted streams declare and carry no more than the payload. If all of them are complete
    parts, then the first to leave the payload ends before 2^64, and if none leaves it, they leave
    no byte of it out. -/
structure WellDivided (accepted : List UniStream) (totalLen : Nat) : Prop where
  bytes : (accepted.map UniStream.readable).sum ≤ totalLen
  ends : (∀ s ∈ accepted, s.complete = true) →
    ∀ before s after, accepted = before ++ s :: after → (∀ s' ∈ before, s'.endOffset ≤ totalLen) →
      s.endOffset < 2 ^ 64
  covers : (∀ s ∈ accepted, s.complete = true ∧ s.endOffset ≤ totalLen) →
    ∀ i < totalLen, ∃ s ∈ accepted, Cover.reaches i s.extent = true

section Divided

variable {uni : List UniStream} {m : ResultManifest}

theorem exists_recvParallel_ok (htotal : m.totalLen < 2 ^ 64) (hcount : m.parts ≤ uni.length)
    (hcomplete : ∀ s ∈ uni.take m.parts, s.complete = true) :
    (∃ buf, recvParallel uni m = .ok buf) ↔
      ∀ s ∈ uni.take m.parts, s.endOffset ≤ m.totalLen := by
  have hbuf : (List.replicate m.totalLen (0 : UInt8)).length = m.totalLen := List.length_replicate
  have hplace : (∃ out, placeParts (List.replicate m.totalLen 0)
      ((uni.take m.parts).map UniStream.placed) = .ok out) ↔ _ :=
    placeParts_ok_iff (hbuf.symm ▸ htotal)
  rw [hbuf, List.forall_mem_map] at hplace
  refine Iff.trans ⟨?_, ?_⟩ hplace
  · rintro ⟨buf, h⟩
    exact ⟨buf, (recvParallel_eq_ok.mp h).2.2⟩
  · rintro ⟨buf, h⟩
    exact ⟨buf, recvParallel_eq_ok.mpr ⟨hcount, hcomplete, h⟩⟩

theorem recvParallel_panic_of_split (htotal : m.totalLen < 2 ^ 64) :
    recvParallel uni m = .error .overflowPanic ↔ m.parts ≤ uni.length ∧
      (∀ s ∈ uni.take m.parts, s.complete = true) ∧
      ∃ before s after, uni.take m.parts = before ++ s :: after ∧
        (∀ s' ∈ before, s'.endOffset ≤ m.totalLen) ∧ 2 ^ 64 ≤ s.endOffset := by
  have hbuf : (List.replicate m.totalLen (0 : UInt8)).length = m.totalLen := List.length_replicate
  rw [recvParallel_panic_iff, placeParts_panic_iff (hbuf.symm ▸ htotal), hbuf]
  refine and_congr_right fun _ => and_congr_right fun _ => ⟨?_, ?_⟩
  · rintro ⟨before, p, after, hmap, hbefore, hp⟩
    obtain ⟨before', rest, hsplit, rfl, hrest⟩ := List.map_eq_append_iff.mp hmap
    obtain ⟨s, after', rfl, rfl, rfl⟩ := List.map_eq_cons_iff.mp hrest
    exact ⟨before', s, after', hsplit, List.forall_mem_map.mp hbefore, hp⟩
  · rintro ⟨before, s, after, hsplit, hbefore, hs⟩
    refine ⟨before.map UniStream.placed, s.placed, after.map UniStream.placed, ?_, ?_, hs⟩
    · rw [hsplit, List.map_append, List.map_cons]
    · exact List.forall_mem_map.mpr hbefore

/-- Parts that are complete, end within the payload and leave nothing out cover it exactly once,
    because together they are no longer than it. -/
theorem WellDivided.once {accepted : List UniStream} {totalLen : Nat}
    (h : WellDivided accepted totalLen) (hcomplete : ∀ s ∈ accepted, s.complete = true)
    (hends : ∀ s ∈ accepted, s.endOffset ≤ totalLen) {i : Nat} (hi : i < totalLen) :
    (accepted.map UniStream.extent).countP (Cover.reaches i) = 1 := by
  refine Cover.covered_once (List.forall_mem_map.mpr hends) ?_ ?_ hi
  · have hlens : accepted.map UniStream.readable =
        (accepted.map UniStream.extent).map Prod.snd := by
      rw [List.map_map]
      exact List.map_congr_left fun s hs => readable_of_complete (hcomplete s hs)
    rw [← hlens]
    exact h.bytes
  · intro j hj
    obtain ⟨s, hs, hreach⟩ := h.covers (fun s hs => ⟨hcomplete s hs, hends s hs⟩) j hj
    exact ⟨s.extent, List.mem_map_of_mem hs, hreach⟩

/-- For which streams the reassembly is exact or rejected. Of the streams that the transfer is made
    of only their number is checked beforehand. -/
theorem exactTransfer_iff {maxBytes maxParts : Nat}
    (hvalid : m.validate maxBytes maxParts = .ok ()) :
    ExactTransfer uni m ↔
      (m.parts ≤ uni.length → WellDivided (uni.take m.parts) m.totalLen) := by
  have htotal := (validate_eq_ok hvalid).2
  constructor
  · intro h hcount
    refine ⟨h.bounded hcount, ?_, ?_⟩
    · intro hcomplete before s after hsplit hbefore
      by_contra hlarge
      exact h.noPanic ((recvParallel_panic_of_split htotal).mpr
        ⟨hcount, hcomplete, before, s, after, hsplit, hbefore, by omega⟩)
    · intro hgood i hi
      obtain ⟨buf, hbuf⟩ := (exists_recvParallel_ok htotal hcount fun s hs => (hgood s hs).1).mpr
        fun s hs => (hgood s hs).2
      have honce := (h.tiled buf hbuf).2 i hi
      have hpos : 0 < ((uni.take m.parts).map UniStream.extent).countP (Cover.reaches i) := by
        rw [honce]
        exact Nat.one_pos
      obtain ⟨iv, hiv, hreach⟩ := List.countP_pos_iff.mp hpos
      obtain ⟨s, hs, rfl⟩ := List.mem_map.mp hiv
      exact ⟨s, hs, hreach⟩
  · intro h
    refine ⟨?_, fun hcount => (h hcount).bytes, ?_⟩
    · intro hpanic
      obtain ⟨hcount, hcomplete, before, s, after, hsplit, hbefore, hs⟩ :=
        (recvParallel_panic_of_split htotal).mp hpanic
      have hend := (h hcount).ends hcomplete before s after hsplit hbefore
      omega
    · intro buf hbuf
      obtain ⟨hcount, hcomplete, -⟩ := recvParallel_eq_ok.mp hbuf
      have hends := (exists_recvParallel_ok htotal hcount hcomplete).mp ⟨buf, hbuf⟩
      exact ⟨hends, fun i hi => (h hcount).once hcomplete hends hi⟩

end Divided

/-- A part stream that carries `raw` for `offset`. -/
def partStream (index offset : Nat) (raw : Bytes) : UniStream :=
  ⟨.part ⟨index, offset, raw.length⟩, raw⟩

def twoPartManifest (totalLen : Nat) : ResultManifest :=
  ⟨.none, totalLen, totalLen, 2⟩

/-- Two bytes, the second part first. -/
theorem exactTransfer_halves :
    ExactTransfer [partStream 1 1 [7], partStream 0 0 [5]] (twoPartManifest 2) := by
  have hvalid : (twoPartManifest 2).validate maxResultBytes maxResultParts = .ok () := by decide
  refine (exactTransfer_iff hvalid).mpr fun _ => ⟨by decide, ?_, ?_⟩
  · intro _ before s after hsplit _
    have hmem : s ∈ [partStream 1 1 [7], partStream 0 0 [5]] := by
      have hs : s ∈ before ++ s :: after := List.mem_append_right _ List.mem_cons_self
      rwa [← hsplit] at hs
    have hends : ∀ s ∈ [partStream 1 1 [7], partStream 0 0 [5]], s.endOffset < 2 ^ 64 := by decide
    exact hends s hmem
  · intro _
    decide

/-- Two empty parts for a payload of one byte are accepted, and the byte is a zero that no part
    wrote. Two copies of the only byte are both read and written. A part at the end of the 64-bit
    range makes the receiver panic. -/
theorem transfer_not_exact :
    (twoPartManifest 1).validate maxResultBytes maxResultParts = .ok () ∧
      (recvParallel [partStream 0 0 [], partStream 1 0 []] (twoPartManifest 1) = .ok [0] ∧
        ([partStream 0 0 [], partStream 1 0 []].map UniStream.extent).countP (Cover.reaches 0) =
          0) ∧
      (recvParallel [partStream 0 0 [5], partStream 1 0 [7]] (twoPartManifest 1) = .ok [7] ∧
        ([partStream 0 0 [5], partStream 1 0 [7]].map UniStream.extent).countP (Cover.reaches 0) =
          2 ∧
        ([partStream 0 0 [5], partStream 1 0 [7]].map UniStream.readable).sum = 2) ∧
      recvParallel [partStream 0 (2 ^ 64 - 1) [5], partStream 1 0 []] (twoPartManifest 1) =
        .error .overflowPanic := by
  decide

end Duckton.Node
