/-
  What `to_boc` writes, `from_boc` reads back.

  The written text is that of a bag (`written`) whose table lists the distinct cells, so the
  reader's specification applies to it. What comes back is the same tree with the completion bits
  set, which is the same cell.
-/
import Mathlib.Algebra.Order.BigOperators.Group.List
import Duckton.Ton.BocParser

namespace Duckton.Ton.Boc

open Duckton.Proto Checked Fallible RefTable PackedCell
open Octets (toBe)

/-! ## Widths -/

theorem lt_bytesFor (v : Nat) : v < 256 ^ bytesFor v := by
  induction v using Nat.strong_induction_on with
  | _ v ih =>
    rw [bytesFor]
    split
    · rename_i hzero
      rw [hzero]
      decide
    · have := ih (v / 256) (by omega)
      omega

theorem bytesFor_le {v k : Nat} (h : v < 256 ^ k) : bytesFor v ≤ k := by
  induction k generalizing v with
  | zero =>
    rw [bytesFor, dif_pos (by omega)]
  | succ k ih =>
    rw [bytesFor]
    split
    · exact Nat.zero_le _
    · have := ih (v := v / 256) (by omega)
      omega

/-- The width of a field that has to hold `v`. -/
def width (v : Nat) : Nat :=
  max (bytesFor v) 1

theorem lt_width (v : Nat) : v < 256 ^ width v :=
  Nat.lt_of_lt_of_le (lt_bytesFor v) (Nat.pow_le_pow_right (by decide) (Nat.le_max_left _ _))

theorem width_pos (v : Nat) : 0 < width v :=
  Nat.le_max_right _ _

theorem width_le {v k : Nat} (h : v < 256 ^ k) (hk : 1 ≤ k) : width v ≤ k :=
  Nat.max_le.mpr ⟨bytesFor_le h, hk⟩

/-- The flags byte says the width of a reference, a checksum and no index table. -/
theorem flags_spec : ∀ k < 8, ((0x40 ||| (UInt8.ofNat k &&& 7) : UInt8) &&& 7).toNat = k ∧
    ((0x40 ||| (UInt8.ofNat k &&& 7) : UInt8) &&& 0x80 = 0) ∧
    ((0x40 ||| (UInt8.ofNat k &&& 7) : UInt8) &&& 0x40 ≠ 0) := by
  decide

/-! ## The record of a cell -/

def recordOf (c : PackedCell) (refs : List Nat) : Record :=
  ⟨(descriptor c).1, (descriptor c).2, c.label.augmentedData, refs⟩

variable {c : PackedCell} {refs : List Nat}

/-- The second descriptor as a number. -/
theorem toNat_descriptor (hbits : c.label.bitLen ≤ 1023) :
    (descriptor c).2.toNat =
      if c.label.bitLen % 8 = 0 then 2 * (c.label.bitLen / 8)
      else 2 * (c.label.bitLen / 8) + 1 := by
  unfold descriptor
  rw [UInt8.toNat_ofNat']
  split <;> omega

/-- The reader finds the completion bit where the writer put it. -/
theorem bitLen_recordOf (hc : c.label.Sound) (hbits : c.label.bitLen ≤ 1023) :
    (recordOf c refs).bitLen = c.label.bitLen := by
  have hd2 := toNat_descriptor hbits
  have hlen := hc.length
  have haug := c.label.length_augmentedData
  unfold Record.bitLen recordOf
  dsimp only
  by_cases hrem : c.label.bitLen % 8 = 0
  · have heven : ¬ (descriptor c).2 &&& 1 = 1 := by
      rw [odd_iff, hd2, if_pos hrem]
      omega
    rw [if_neg heven]
    omega
  · have hodd : (descriptor c).2 &&& 1 = 1 := by
      rw [odd_iff, hd2, if_neg hrem]
      omega
    obtain ⟨init, last, hdata, hinit, hpad⟩ := hc.exists_last hrem
    have hwritten : c.label.augmentedData =
        init ++ [last ||| 1 <<< UInt8.ofNat (7 - c.label.bitLen % 8)] := by
      rw [Packed.augmentedData, if_neg hrem, hdata, Packed.setInLast_concat]
    have hbit : completionBit (last ||| 1 <<< UInt8.ofNat (7 - c.label.bitLen % 8)) =
        some (7 - c.label.bitLen % 8) := by
      refine completionBit_eq_some.mpr ⟨by omega, ?_, ?_⟩
      · rw [Packed.testBit_setBit _ (by omega), decide_eq_true rfl, Bool.or_true]
      · intro j hj
        rw [Packed.testBit_setBit _ (by omega), hpad j (by omega), decide_eq_false (by omega)]
        rfl
    rw [if_pos hodd, hwritten, List.getLastD_concat, hbit, List.length_append, hinit]
    simp only [List.length_singleton]
    omega

theorem row_recordOf (hc : c.label.Sound) (hbits : c.label.bitLen ≤ 1023) :
    (recordOf c refs).row = (c.label.completed, refs) := by
  rw [Record.row, bitLen_recordOf hc hbits]
  rfl

theorem fits_recordOf {refSize : Nat} (hc : c.label.Sound) (hbits : c.label.bitLen ≤ 1023)
    (hrefs : c.children.length ≤ 4) (hcount : refs.length = c.children.length)
    (hsmall : ∀ r ∈ refs, r < 256 ^ refSize) : (recordOf c refs).Fits refSize := by
  have hlow : ∀ k ≤ 4, (UInt8.ofNat k &&& 7).toNat = k := by decide
  refine ⟨?_, ?_, hsmall⟩
  · have hd2 := toNat_descriptor hbits
    have hlen := hc.length
    have haug := c.label.length_augmentedData
    unfold recordOf
    dsimp only
    rw [hd2]
    split <;> omega
  · exact hcount.trans (hlow _ hrefs).symm

/-! ## The written bag -/

/-- What the writer lists: cells of the format, each with one index for every reference. -/
structure Writable (rows : List PackedCell) (refs : List (List Nat)) : Prop where
  nonempty : 0 < rows.length
  count : rows.length ≤ maxBocCells
  cells : ∀ d ∈ rows, d.label.Sound ∧ d.label.bitLen ≤ 1023 ∧ d.children.length ≤ 4
  indices : List.Forall₂ (fun d js => js.length = d.children.length ∧ ∀ r ∈ js, r < rows.length)
    rows refs

def totSize (rows : List PackedCell) : Nat :=
  (rows.map fun d => serializedLen d (width rows.length)).sum

def written (rows : List PackedCell) (refs : List (List Nat)) : Bag where
  flags := 0x40 ||| (UInt8.ofNat (width rows.length) &&& 7)
  offBytes := UInt8.ofNat (width (totSize rows))
  roots := 1
  absent := 0
  tot := totSize rows
  root := 0
  index := []
  records := List.zipWith recordOf rows refs
  rest := Octets.toLe 4 (crc32c (writeBody rows refs)).toNat

variable {rows : List PackedCell} {refIndices : List (List Nat)}

theorem length_cells {refSize : Nat}
    (h : List.Forall₂ (fun (d : PackedCell) (js : List Nat) => js.length = d.children.length)
      rows refIndices) :
    (encodeAll refSize (List.zipWith recordOf rows refIndices)).length =
      (rows.map fun d => serializedLen d refSize).sum := by
  induction h with
  | nil => rfl
  | cons hcount _ ih =>
    rw [List.zipWith_cons_cons, encodeAll_cons, List.length_append, ih, Record.length_encode,
      List.map_cons, List.sum_cons, serializedLen, ← hcount]
    rfl

section

variable (h : Writable rows refIndices)

include h

theorem Writable.refSize_le : width rows.length ≤ 3 :=
  width_le (Nat.lt_of_le_of_lt h.count (by decide)) (by decide)

theorem Writable.refSize_written :
    (written rows refIndices).refSize = width rows.length :=
  (flags_spec _ (Nat.lt_of_le_of_lt h.refSize_le (by decide))).1

theorem Writable.length_records :
    (written rows refIndices).records.length = rows.length := by
  show (List.zipWith recordOf rows refIndices).length = _
  rw [List.length_zipWith, ← h.indices.length_eq, Nat.min_self]

/-- A serialized cell takes at most 142 bytes. -/
theorem Writable.serializedLen_le {d : PackedCell} (hd : d ∈ rows) :
    serializedLen d (width rows.length) ≤ 142 := by
  obtain ⟨hsound, hbits, hrefs⟩ := h.cells d hd
  have hlen := hsound.length
  have hmul : d.children.length * width rows.length ≤ 4 * 3 := Nat.mul_le_mul hrefs h.refSize_le
  rw [serializedLen, Packed.length_augmentedData]
  omega

theorem Writable.totSize_le : totSize rows ≤ 65536 * 142 := by
  have hsum := List.sum_le_card_nsmul (rows.map fun d => serializedLen d (width rows.length)) 142
    (by
      intro n hn
      obtain ⟨d, hd, rfl⟩ := List.mem_map.mp hn
      exact h.serializedLen_le hd)
  have hcount : rows.length * 142 ≤ 65536 * 142 := Nat.mul_le_mul_right _ h.count
  rw [List.length_map] at hsum
  exact Nat.le_trans hsum hcount

theorem Writable.offBytes_le : width (totSize rows) ≤ 4 :=
  width_le (Nat.lt_of_le_of_lt h.totSize_le (by decide)) (by decide)

theorem Writable.offBytes_written :
    (written rows refIndices).offBytes.toNat = width (totSize rows) := by
  have hle := h.offBytes_le
  show (UInt8.ofNat (width (totSize rows))).toNat = _
  rw [UInt8.toNat_ofNat']
  omega

theorem Writable.writeBody_eq :
    writeBody rows refIndices = (written rows refIndices).header ++
      encodeAll (width rows.length) (written rows refIndices).records := by
  have hsize : ((written rows refIndices).flags &&& 7).toNat = width rows.length :=
    h.refSize_written
  rw [Bag.header, headerBytes, hsize, h.offBytes_written, h.length_records]
  show _ = _ ++ encodeAll _ (List.zipWith recordOf rows refIndices)
  rw [encodeAll, List.flatMap_def, List.map_zipWith]
  simp only [writeBody, List.append_assoc]
  rfl

/-- The text is the bag's. -/
theorem Writable.encode_written :
    (written rows refIndices).encode = writeBody rows refIndices ++
      Octets.toLe 4 (crc32c (writeBody rows refIndices)).toNat := by
  have hindex : (written rows refIndices).index = [] := rfl
  rw [Bag.encode, h.refSize_written, hindex, List.append_nil, ← h.writeBody_eq]
  rfl

theorem Writable.length_encode_lt :
    (written rows refIndices).encode.length < 2 ^ 63 := by
  have hcells : (encodeAll (width rows.length) (written rows refIndices).records).length =
      totSize rows := length_cells (h.indices.imp fun _ _ hjs => hjs.1)
  have hsize : ((written rows refIndices).flags &&& 7).toNat = width rows.length :=
    h.refSize_written
  have htot := h.totSize_le
  have hrefSize := h.refSize_le
  have hoff := h.offBytes_le
  have hmagic : magic.length = 4 := rfl
  rw [h.encode_written, h.writeBody_eq, List.length_append, List.length_append, hcells,
    Octets.length_toLe, Bag.header, headerBytes, hsize, h.offBytes_written]
  simp only [List.length_append, List.length_singleton, Octets.length_toBe]
  omega

theorem Writable.record {r : Record}
    (hr : r ∈ (written rows refIndices).records) :
    ∃ d ∈ rows, ∃ js, r = recordOf d js ∧ js.length = d.children.length ∧
      ∀ j ∈ js, j < rows.length := by
  obtain ⟨i, hi⟩ := List.mem_iff_getElem?.mp hr
  obtain ⟨d, js, hd, hjs, rfl⟩ := List.getElem?_zipWith_eq_some.mp hi
  obtain ⟨js', hjs', hindices⟩ := forall₂_getElem? h.indices hd
  obtain rfl := Option.some.inj (hjs.symm.trans hjs')
  exact ⟨d, List.mem_of_getElem? hd, js, rfl, hindices⟩

theorem Writable.fits : (written rows refIndices).Fits := by
  have hsize := h.refSize_written
  have hoff := h.offBytes_written
  have hcount := h.length_records
  have hcrc : (written rows refIndices).hasCrc = true :=
    decide_eq_true (flags_spec _ (Nat.lt_of_le_of_lt h.refSize_le (by decide))).2.2
  have hidx : (written rows refIndices).hasIdx = false :=
    decide_eq_false (not_not.mpr (flags_spec _ (Nat.lt_of_le_of_lt h.refSize_le (by decide))).2.1)
  have hpos := width_pos rows.length
  have hwide : 256 ^ 1 ≤ 256 ^ width rows.length := Nat.pow_le_pow_right (by decide) hpos
  have hroots : (written rows refIndices).roots = 1 := rfl
  have habsent : (written rows refIndices).absent = 0 := rfl
  have hrest : (written rows refIndices).rest.length = 4 := Octets.length_toLe 4 _
  have hbodyEnd : (written rows refIndices).bodyEnd = (writeBody rows refIndices).length := by
    rw [Bag.bodyEnd, hcrc, if_pos rfl, h.encode_written, List.length_append, Octets.length_toLe,
      Nat.add_sub_cancel]
  refine
    { refSize_pos := by omega
      offBytes_le := by have := h.offBytes_le; omega
      count_pos := by rw [hcount]; exact h.nonempty
      count_le := by rw [hcount]; exact h.count
      count_lt := by rw [hcount, hsize]; exact lt_width _
      roots_lt := by rw [hsize]; omega
      absent_lt := by rw [hsize]; omega
      tot_lt := by rw [hoff]; exact lt_width _
      root_lt := by rw [hcount]; exact h.nonempty
      index_length := by rw [hidx]; rfl
      records := ?_
      bodies := Bag.bodies_of_rest fun _ => by omega
      intact := ?_ }
  · intro r hr
    obtain ⟨d, hd, js, rfl, hlen, hsmall⟩ := h.record hr
    obtain ⟨hsound, hbits, hrefs⟩ := h.cells d hd
    refine fits_recordOf hsound hbits hrefs hlen ?_
    intro j hj
    rw [hsize]
    exact (hsmall j hj).trans (lt_width _)
  · intro _
    have hword : (crc32c (writeBody rows refIndices)).toNat < 256 ^ 4 := UInt32.toNat_lt _
    rw [hbodyEnd, h.encode_written, List.take_left, List.drop_left, Octets.ofLe_toLe,
      Nat.mod_eq_of_lt hword]

/-- The reader's table is that of the listed cells, their completion bits set. -/
theorem Writable.table_written :
    (written rows refIndices).table = tableOf Packed.completed rows refIndices := by
  show (List.zipWith recordOf rows refIndices).map Record.row = _
  rw [List.map_zipWith, tableOf]
  apply List.ext_getElem?
  intro i
  rw [List.getElem?_zipWith, List.getElem?_zipWith]
  cases hd : rows[i]? with
  | none => rfl
  | some d =>
    cases refIndices[i]? with
    | none => rfl
    | some js =>
      obtain ⟨hsound, hbits, _⟩ := h.cells d (List.mem_of_getElem? hd)
      simp only [row_recordOf hsound hbits]

end

/-! ## The round trip -/

/-- A cell tree within the limits of the format, none of whose cells share a hash without being the
    same cell. -/
structure Serializable (sha256 : Bytes → BitVec 256) (c : PackedCell) : Prop where
  sound : PackedCell.Sound c
  bits : ∀ d ∈ c.subtrees, d.label.bitLen ≤ 1023
  refs : ∀ d ∈ c.subtrees, d.children.length ≤ 4
  depth : c.height ≤ maxCellDepth
  distinct : {x | ∃ d ∈ c.subtrees, unpack d = x}.ncard ≤ maxBocCells
  collisionFree : ∀ d ∈ c.subtrees, ∀ e ∈ c.subtrees,
    reprHash sha256 d = reprHash sha256 e → unpack d = unpack e

/-- The distinct cells are those of a finite list. -/
theorem cells_eq_toFinset [DecidableEq Cell] (c : PackedCell) :
    {x | ∃ d ∈ c.subtrees, unpack d = x} = ((c.subtrees.map unpack).toFinset : Set Cell) := by
  ext x
  rw [List.coe_toFinset, Set.mem_ofPred_eq, Set.mem_ofPred_eq, List.mem_map]

variable {sha256 : Bytes → BitVec 256}

namespace Serializable

theorem sound_of_mem (h : Serializable sha256 c) {d : PackedCell} (hd : d ∈ c.subtrees) :
    PackedCell.Sound d :=
  fun e he => h.sound e (Rose.subtrees_trans hd he)

theorem height_eq (h : Serializable sha256 c) {d e : PackedCell} (hd : d ∈ c.subtrees)
    (he : e ∈ c.subtrees) (hhash : reprHash sha256 d = reprHash sha256 e) :
    d.height = e.height := by
  rw [← depth_unpack, ← depth_unpack, h.collisionFree d hd e he hhash]

/-- Cells with different hashes are different, so there are no more listed cells than distinct
    ones. -/
theorem length_le (h : Serializable sha256 c) {rows : List PackedCell}
    (hnodup : (rows.map (reprHash sha256)).Nodup) (hrows : ∀ d ∈ rows, d ∈ c.subtrees) :
    rows.length ≤ maxBocCells := by
  classical
  have hhash : rows.map (reprHash sha256) = (rows.map unpack).map (Cell.reprHash sha256) := by
    rw [List.map_map]
    exact List.map_congr_left fun d hd => reprHash_unpack sha256 (h.sound_of_mem (hrows d hd))
  have hcells : (rows.map unpack).Nodup := List.Nodup.of_map _ (hhash ▸ hnodup)
  have hfinite : {x | ∃ d ∈ c.subtrees, unpack d = x}.Finite := by
    rw [cells_eq_toFinset]
    exact Finset.finite_toSet _
  have hsubset : ((rows.map unpack).toFinset : Set Cell) ⊆ {x | ∃ d ∈ c.subtrees, unpack d = x} := by
    intro x hx
    rw [List.coe_toFinset, Set.mem_ofPred_eq] at hx
    obtain ⟨d, hd, rfl⟩ := List.mem_map.mp hx
    exact ⟨d, hrows d hd, rfl⟩
  calc rows.length = (rows.map unpack).toFinset.card := by
        rw [List.toFinset_card_of_nodup hcells, List.length_map]
    _ = ((rows.map unpack).toFinset : Set Cell).ncard := (Set.ncard_coe_finset _).symm
    _ ≤ {x | ∃ d ∈ c.subtrees, unpack d = x}.ncard := Set.ncard_le_ncard hsubset hfinite
    _ ≤ maxBocCells := h.distinct

end Serializable

/-- What the writer lists. -/
theorem topologicalOrder_spec (h : Serializable sha256 c) :
    ∃ rows refIndices, topologicalOrder sha256 c = .ok (rows, refIndices) ∧
      rows[0]? = some c ∧ (∀ d ∈ rows, d ∈ c.subtrees) ∧
      Rose.ChildrenFirst (reprHash sha256) rows.reverse ∧
      Indexed (reprHash sha256) rows refIndices := by
  obtain ⟨early, horder, hfirst, hwithin⟩ := Rose.visit_root c fun d hd e he => h.height_eq hd he
  obtain ⟨rows, hrows⟩ : ∃ rows, rows = (early ++ [c]).reverse := ⟨_, rfl⟩
  have hback : rows.reverse = early ++ [c] := by rw [hrows, List.reverse_reverse]
  obtain ⟨refIndices, hindexed⟩ := exists_indexed (hback ▸ hfirst)
  refine ⟨rows, refIndices, ?_, ?_, ?_, hback ▸ hfirst, hindexed⟩
  · have hlookups : rows.mapM (fun d => d.children.mapM fun r =>
        orPanic (numbering (rows.map (reprHash sha256)) (reprHash sha256 r))) = .ok refIndices :=
      mapM_eq_ok.mpr (hindexed.imp fun d js hjs => mapM_eq_ok.mpr
        (hjs.imp fun r j => orPanic_eq_ok.mpr))
    unfold topologicalOrder
    rw [horder, ← hrows]
    dsimp only
    rw [hlookups]
    rfl
  · rw [hrows]
    simp
  · intro d hd
    rw [hrows, List.mem_reverse] at hd
    exact hwithin d hd

theorem Serializable.writable (h : Serializable sha256 c) (hroot : rows[0]? = some c)
    (hrows : ∀ d ∈ rows, d ∈ c.subtrees)
    (hfirst : Rose.ChildrenFirst (reprHash sha256) rows.reverse)
    (hindexed : Indexed (reprHash sha256) rows refIndices) : Writable rows refIndices := by
  have hnodup : (rows.map (reprHash sha256)).Nodup := by
    have := hfirst.nodup
    rwa [List.map_reverse, List.nodup_reverse] at this
  refine ⟨(List.getElem?_eq_some_iff.mp hroot).1, h.length_le hnodup hrows, ?_, ?_⟩
  · intro d hd
    have hmem := hrows d hd
    exact ⟨h.sound d hmem, h.bits d hmem, h.refs d hmem⟩
  · refine hindexed.imp fun d js hjs => ⟨hjs.length_eq.symm, ?_⟩
    intro j hj
    obtain ⟨k, hk⟩ := List.mem_iff_getElem?.mp hj
    obtain ⟨r, _, hlookup⟩ := forall₂_getElem? (List.Forall₂.flip hjs) hk
    rw [numbering_eq_some hnodup] at hlookup
    have hlen := (List.getElem?_eq_some_iff.mp hlookup).1
    rwa [List.length_map] at hlen

/-- A written tree is read back: the same bits and the same ordered children at every node, hence
    the same hash; and references point forward only. -/
theorem fromBoc_toBoc (h : Serializable sha256 c) :
    ∃ cells refIndices bytes c', topologicalOrder sha256 c = .ok (cells, refIndices) ∧
      toBoc sha256 c = .ok bytes ∧ fromBoc bytes = .ok c' ∧ unpack c' = unpack c ∧
      reprHash sha256 c' = reprHash sha256 c ∧
      ∀ i refs, refIndices[i]? = some refs → ∀ r ∈ refs, i < r ∧ r < cells.length := by
  obtain ⟨rows, refIndices, horder, hroot, hrows, hfirst, hindexed⟩ := topologicalOrder_spec h
  have hwritable := h.writable hroot hrows hfirst hindexed
  have hforward := hindexed.forward hfirst Packed.completed
  have hunfolds : ∀ {i d}, rows[i]? = some d →
      Unfolds (tableOf Packed.completed rows refIndices) i (d.map Packed.completed) := by
    intro i d hd
    refine hindexed.unfolds (U := (· ∈ c.subtrees)) hfirst ?_ ?_ hd
    · intro n hn
      exact ⟨hrows n hn, fun e he => Rose.child_mem_subtrees (hrows n hn) he⟩
    · intro d e hd he hhash
      exact map_completed_eq (h.sound_of_mem hd) (h.sound_of_mem he)
        (h.collisionFree d hd e he hhash)
  have hlength : (tableOf Packed.completed rows refIndices).length = rows.length := by
    rw [← hwritable.table_written, Bag.length_table, hwritable.length_records]
  have haccepted : (written rows refIndices).Accepted (written rows refIndices).encode := by
    refine ⟨rfl, hwritable.fits, ?_, ?_⟩
    · rw [hwritable.table_written]
      exact hforward
    · rw [hwritable.table_written]
      intro i d hd
      have hi := hd.lt_length
      rw [hlength] at hi
      have hget := List.getElem?_eq_getElem hi
      rw [hd.unique (hunfolds hget), Rose.height_map]
      exact (Rose.height_le_of_mem_subtrees (hrows _ (List.getElem_mem hi))).trans h.depth
  refine ⟨rows, refIndices, (written rows refIndices).encode, c.map Packed.completed, horder, ?_, ?_,
    unpack_completed h.sound, ?_, ?_⟩
  · rw [toBoc, horder, hwritable.encode_written]
    rfl
  · refine (fromBoc_eq_ok hwritable.length_encode_lt).mpr ⟨_, haccepted, ?_⟩
    rw [hwritable.table_written]
    exact hunfolds hroot
  · rw [reprHash_unpack sha256 h.sound.map_completed, reprHash_unpack sha256 h.sound,
      unpack_completed h.sound]
  · intro i refs hrefs r hr
    obtain ⟨d, hd, _⟩ := forall₂_getElem? (List.Forall₂.flip hindexed) hrefs
    have hrow := (getElem?_tableOf Packed.completed).mpr ⟨d, hd, rfl, hrefs⟩
    obtain ⟨hlater, hlt⟩ := hforward i _ _ hrow r hr
    exact ⟨hlater, by rwa [hlength] at hlt⟩

/-! A cell shared by the root and by a child of it. -/

def sharedCell : PackedCell :=
  .node (Packed.ofBits (Bits.ofNat 16 0xABCD)) []

def childCell : PackedCell :=
  .node (Packed.ofBits [true, false, true]) [sharedCell]

def sharingCell : PackedCell :=
  .node (Packed.ofBits (Bits.ofNat 20 123456)) [childCell, sharedCell]

set_option maxRecDepth 10000 in
theorem nodup_sharingHashes :
    ([sharingCell, childCell, sharedCell].map (reprHash foldDigest)).Nodup := by
  decide

theorem sound_sharingCell : PackedCell.Sound sharingCell := by
  have hshared : PackedCell.Sound sharedCell :=
    sound_node.mpr ⟨(Packed.ofBits_spec _).1.sound, by simp⟩
  have hchild : PackedCell.Sound childCell :=
    sound_node.mpr ⟨(Packed.ofBits_spec _).1.sound, by simpa using hshared⟩
  exact sound_node.mpr ⟨(Packed.ofBits_spec _).1.sound, by simpa using ⟨hchild, hshared⟩⟩

theorem serializable_sharingCell : Serializable foldDigest sharingCell := by
  have hsubtrees : sharingCell.subtrees = [sharingCell, childCell, sharedCell, sharedCell] := rfl
  have hmem : ∀ d ∈ sharingCell.subtrees, d ∈ [sharingCell, childCell, sharedCell] := by
    rw [hsubtrees]
    simp
  have hlimits : ∀ d ∈ [sharingCell, childCell, sharedCell],
      d.label.bitLen ≤ 1023 ∧ d.children.length ≤ 4 := by decide
  refine ⟨sound_sharingCell, fun d hd => (hlimits d (hmem d hd)).1,
    fun d hd => (hlimits d (hmem d hd)).2, by decide, ?_, ?_⟩
  · classical
    have hcard := List.toFinset_card_le (sharingCell.subtrees.map unpack)
    rw [cells_eq_toFinset, Set.ncard_coe_finset]
    exact hcard.trans (by decide)
  · intro d hd e he hhash
    rw [List.inj_on_of_nodup_map nodup_sharingHashes (hmem d hd) (hmem e he) hhash]

theorem sharingCell_comes_back :
    Serializable foldDigest sharingCell ∧
      ∃ cells refIndices bytes c',
        topologicalOrder foldDigest sharingCell = .ok (cells, refIndices) ∧
        toBoc foldDigest sharingCell = .ok bytes ∧ fromBoc bytes = .ok c' ∧
        unpack c' = unpack sharingCell ∧
        reprHash foldDigest c' = reprHash foldDigest sharingCell ∧
        ∀ i refs, refIndices[i]? = some refs → ∀ r ∈ refs, i < r ∧ r < cells.length :=
  ⟨serializable_sharingCell, fromBoc_toBoc serializable_sharingCell⟩

end Duckton.Ton.Boc
