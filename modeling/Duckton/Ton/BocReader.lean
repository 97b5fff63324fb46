/-
  What `from_boc` lets through.

  The reader is meant for input from elsewhere. It never panics, but it takes more than well-formed
  cells: it looks at three bits of the first descriptor only, takes the top bit of a last byte, or
  no bit at all, for a completion bit, and bounds reference indices by the text instead of the cell
  section (`readsWell_iff` says exactly when none of this happens). And it caps the number of
  serialized cells, while shared cells are copied into every place that refers to them
  (`boundedOutput_iff`).
-/
import Duckton.Ton.BocParser

namespace Duckton.Ton.Boc

open Duckton.Proto Checked RefTable

/-- A byte slice, never longer than `isize::MAX`. -/
structure Buffer where
  bytes : Bytes
  fits : bytes.length < 2 ^ 63

/-! ## Bits of a record -/

/-- Bits before a completion bit: there are some if and only if the completion bit is not the top
    one. -/
theorem completionBit_pos (b : UInt8) :
    (∃ i, completionBit b = some i ∧ i < 7) ↔ ∃ i < 7, b.toNat.testBit i = true := by
  constructor
  · rintro ⟨i, hi, hlt⟩
    exact ⟨i, hlt, (completionBit_eq_some.mp hi).2.1⟩
  · intro hset
    have hfirst := Nat.find_spec hset
    refine ⟨Nat.find hset, completionBit_eq_some.mpr ⟨by omega, hfirst.2, ?_⟩, hfirst.1⟩
    intro j hj
    have hmin := Nat.find_min hset hj
    rw [not_and, Bool.not_eq_true] at hmin
    exact hmin (by omega)

namespace Record

variable {r : Record} {refSize : Nat}

theorem Fits.bitLen_le (hr : r.Fits refSize) : r.bitLen ≤ 1023 := by
  have hd2 : r.d2.toNat < 256 := r.d2.toNat_lt
  have hlen := hr.data
  unfold bitLen
  by_cases hodd : r.d2 &&& 1 = 1
  · rw [if_pos hodd]
    cases completionBit (r.data.getLastD 0) with
    | none =>
      dsimp only
      omega
    | some i =>
      have hle : 7 - i ≤ 7 := Nat.sub_le 7 i
      dsimp only
      omega
  · rw [if_neg hodd]
    rw [odd_iff] at hodd
    omega

/-- The last byte has a bit before its completion bit. -/
def Completed (r : Record) : Prop :=
  r.d2 &&& 1 = 1 → ∃ i < 7, (r.data.getLastD 0).toNat.testBit i = true

theorem Fits.length_iff (hr : r.Fits refSize) :
    r.data.length = (r.bitLen + 7) / 8 ↔ r.Completed := by
  have hlen := hr.data
  unfold bitLen Completed
  by_cases hodd : r.d2 &&& 1 = 1
  · have hpos := (odd_iff _).mp hodd
    rw [if_pos hodd, ← completionBit_pos]
    simp only [hodd, forall_const]
    cases hbit : completionBit (r.data.getLastD 0) with
    | none =>
      simp only [reduceCtorEq, false_and, exists_false, iff_false]
      omega
    | some i =>
      simp only [Option.some.injEq, exists_eq_left']
      omega
  · rw [if_neg hodd]
    simp only [hodd, false_implies, iff_true]
    omega

end Record

/-! ## Well-formed cells -/

/-- The cell `d` was read from record `i`, and is what an ordinary, level-0 cell has to be: the
    bytes that its bits take, at most 1023 bits and four references, a first descriptor that is the
    number of references, and all of it in the cell section. -/
structure WellFormed (b : Bag) (i : Nat) (d : PackedCell) : Prop where
  length : d.label.data.length = (d.label.bitLen + 7) / 8
  bits : d.label.bitLen ≤ 1023
  refs : d.children.length ≤ 4
  ordinary : ∃ r, b.records[i]? = some r ∧ d.label.data = r.data ∧ r.d1.toNat = d.children.length
  placed : b.sectionStart ≤ b.recordStart i ∧ b.recordEnd i ≤ b.bodyEnd

/-- The text is refused, or every cell read from it is well formed. -/
def ReadsWell (bytes : Bytes) : Prop :=
  fromBoc bytes = .error .nothing ∨
    ∃ (c : PackedCell) (b : Bag), fromBoc bytes = .ok c ∧ b.encode = bytes ∧ b.Fits ∧
      ∀ ks d, c.descend ks = some d → ∃ i, follow b.table b.root ks = some i ∧ WellFormed b i d

/-- Of every record that the root reaches: no more than four references and nothing else in the
    first descriptor, a completion bit that is not the top bit of its byte, and an end in the cell
    section. -/
def Bag.Clean (b : Bag) : Prop :=
  ∀ i r, Reaches b.table b.root i → b.records[i]? = some r →
    r.d1.toNat ≤ 4 ∧ r.Completed ∧ b.recordEnd i ≤ b.bodyEnd

variable {b : Bag} {i n : Nat}

theorem Bag.getElem?_table {row : Packed × List Nat} :
    b.table[i]? = some row ↔ ∃ r, b.records[i]? = some r ∧ r.row = row := by
  rw [table, List.getElem?_map, Option.map_eq_some_iff]

/-- What a record's cell has of it. -/
theorem Bag.unfolds_record {d : PackedCell} (h : Unfolds b.table i d) :
    ∃ r, b.records[i]? = some r ∧ d.label = ⟨r.data, r.bitLen⟩ ∧
      d.children.length = r.refs.length := by
  cases d with
  | node label cs =>
    obtain ⟨refs, hrow, hcs⟩ := unfolds_node.mp h
    obtain ⟨r, hr, hrow⟩ := getElem?_table.mp hrow
    obtain ⟨rfl, rfl⟩ := Prod.mk.inj hrow
    exact ⟨r, hr, rfl, hcs.length_eq.symm⟩

/-- One record: its cell is well formed if and only if the record is clean. -/
theorem wellFormed_iff (hb : b.Fits) {d : PackedCell} {r : Record}
    (hr : b.records[i]? = some r) (h : Unfolds b.table i d) :
    WellFormed b i d ↔ r.d1.toNat ≤ 4 ∧ r.Completed ∧ b.recordEnd i ≤ b.bodyEnd := by
  obtain ⟨r', hr', hlabel, hchildren⟩ := Bag.unfolds_record h
  obtain rfl := Option.some.inj (hr.symm.trans hr')
  have hfits := hb.records r (List.mem_of_getElem? hr)
  have hdata : d.label.data = r.data := by rw [hlabel]
  have hbits : d.label.bitLen = r.bitLen := by rw [hlabel]
  have hlow : (r.d1 &&& 7).toNat = r.d1.toNat % 8 := by
    exact Nat.and_two_pow_sub_one_eq_mod r.d1.toNat 3
  have hcount : d.children.length = r.d1.toNat % 8 := by rw [hchildren, hfits.count, hlow]
  constructor
  · rintro ⟨hlength, _, hrefs, ⟨r', hr', _, hordinary⟩, hplaced⟩
    obtain rfl := Option.some.inj (hr.symm.trans hr')
    rw [hdata, hbits, hfits.length_iff] at hlength
    exact ⟨by omega, hlength, hplaced.2⟩
  · rintro ⟨hd1, hcompleted, hplaced⟩
    refine ⟨?_, ?_, by omega, ⟨r, hr, hdata, by omega⟩, Nat.le_add_right _ _, hplaced⟩
    · rw [hdata, hbits, hfits.length_iff]
      exact hcompleted
    · rw [hbits]
      exact hfits.bitLen_le

theorem Bag.Accepted.exists_unfolds {bytes : Bytes} (h : b.Accepted bytes) :
    ∃ c, Unfolds b.table b.root c :=
  h.forward.exists_unfolds (by rw [b.length_table]; exact h.fits.root_lt)

/-- Only well-formed cells are read exactly if the records behind them are clean. -/
theorem readsWell_iff (s : Buffer) :
    ReadsWell s.bytes ↔ ∀ b : Bag, b.Accepted s.bytes → b.Clean := by
  constructor
  · intro hread b hb i r hreach hr
    obtain ⟨c, hc⟩ := hb.exists_unfolds
    have hok := (fromBoc_eq_ok s.fits).mpr ⟨b, hb, hc⟩
    rcases hread with hnothing | ⟨c', b', hok', hencode, hfits, hcells⟩
    · rw [hok] at hnothing
      cases hnothing
    · obtain rfl := Except.ok.inj (hok.symm.trans hok')
      obtain rfl := Bag.encode_inj hb.fits hfits (hb.encode_eq.trans hencode.symm)
      obtain ⟨ks, hks⟩ := hreach
      obtain ⟨d, hd, hunfolds⟩ := hc.descend hks
      obtain ⟨i', hi', hwell⟩ := hcells ks d hd
      obtain rfl := Option.some.inj (hks.symm.trans hi')
      exact (wellFormed_iff hb.fits hr hunfolds).mp hwell
  · intro hclean
    cases hread : fromBoc s.bytes with
    | error e =>
      refine .inl ((quiet_fromBoc s.fits).eq_nothing ?_)
      intro c hok
      rw [hread] at hok
      cases hok
    | ok c =>
      obtain ⟨b, hb, hc⟩ := (fromBoc_eq_ok s.fits).mp hread
      refine .inr ⟨c, b, hread, hb.encode_eq, hb.fits, ?_⟩
      intro ks d hd
      obtain ⟨i, hi, hunfolds⟩ := hc.follow hd
      obtain ⟨r, hr, _⟩ := Bag.unfolds_record hunfolds
      exact ⟨i, hi, (wellFormed_iff hb.fits hr hunfolds).mpr (hclean b hb i r ⟨ks, hi⟩ hr)⟩

/-- One cell whose only byte is a completion bit. -/
def bareCompletion : Bytes :=
  magic ++ [0x01, 0x01, 0x01, 0x01, 0x00, 0x03, 0x00, 0x00, 0x01, 0x80]

/-- It is read as a cell of no bits that holds a byte. -/
theorem bare_completion_read : ¬ ReadsWell bareCompletion := by
  have hread : fromBoc bareCompletion = .ok (.node ⟨[0x80], 0⟩ []) := rfl
  rintro (hnothing | ⟨c, b, hok, _, _, hcells⟩)
  · cases hnothing
  · obtain rfl := Except.ok.inj (hread.symm.trans hok)
    obtain ⟨i, _, hwell⟩ := hcells [] _ rfl
    exact absurd hwell.length (by decide)

/-! ## The size of what is read -/

/-- No panic, and a tree of at most `MAX_BOC_CELLS` cells. -/
def BoundedOutput (bytes : Bytes) : Prop :=
  Quiet (fromBoc bytes) ∧ ∀ c, fromBoc bytes = .ok c → c.size ≤ maxBocCells

/-- The tree is small exactly if few walks lead down from the root record. -/
theorem boundedOutput_iff (s : Buffer) :
    BoundedOutput s.bytes ↔
      ∀ b : Bag, b.Accepted s.bytes → (walks b.table b.root).ncard ≤ maxBocCells := by
  constructor
  · rintro ⟨_, hsize⟩ b hb
    obtain ⟨c, hc⟩ := hb.exists_unfolds
    rw [hc.ncard_walks]
    exact hsize c ((fromBoc_eq_ok s.fits).mpr ⟨b, hb, hc⟩)
  · intro hwalks
    refine ⟨quiet_fromBoc s.fits, ?_⟩
    intro c hok
    obtain ⟨b, hb, hc⟩ := (fromBoc_eq_ok s.fits).mp hok
    rw [← hc.ncard_walks]
    exact hwalks b hb

/-- `n` cells that each refer twice to the next, and a last one. -/
def ladderRecords (n : Nat) : List Record :=
  (List.range n).map (fun i => ⟨2, 0, [], [i + 1, i + 1]⟩) ++ [⟨0, 0, [], []⟩]

def ladder (n : Nat) : Bag where
  flags := 1
  offBytes := 1
  roots := 1
  absent := 0
  tot := 4 * n + 2
  root := 0
  index := []
  records := ladderRecords n
  rest := []

theorem length_ladderRecords (n : Nat) : (ladderRecords n).length = n + 1 := by
  simp [ladderRecords]

theorem getElem?_ladderRecords {r : Record} (h : (ladderRecords n)[i]? = some r) :
    i < n ∧ r = ⟨2, 0, [], [i + 1, i + 1]⟩ ∨ i = n ∧ r = ⟨0, 0, [], []⟩ := by
  have hlen : i < n + 1 := by
    rw [← length_ladderRecords n]
    exact (List.getElem?_eq_some_iff.mp h).1
  unfold ladderRecords at h
  by_cases hi : i < n
  · rw [List.getElem?_append_left (by simpa using hi), List.getElem?_map, List.getElem?_range hi,
      Option.map_some, Option.some.injEq] at h
    exact .inl ⟨hi, h.symm⟩
  · obtain rfl : i = n := by omega
    rw [List.getElem?_append_right (by simp), List.length_map, List.length_range, Nat.sub_self,
      List.getElem?_cons_zero, Option.some.injEq] at h
    exact .inr ⟨rfl, h.symm⟩

theorem ladder_row {label : Packed} {refs : List Nat}
    (h : (ladder n).table[i]? = some (label, refs)) :
    i < n ∧ refs = [i + 1, i + 1] ∨ i = n ∧ refs = [] := by
  obtain ⟨r, hr, hrow⟩ := Bag.getElem?_table.mp h
  rcases getElem?_ladderRecords hr with ⟨hi, rfl⟩ | ⟨hi, rfl⟩
  · exact .inl ⟨hi, (Prod.mk.inj hrow).2.symm⟩
  · exact .inr ⟨hi, (Prod.mk.inj hrow).2.symm⟩

/-- Each step up doubles the tree. -/
theorem ladder_unfolds {c : PackedCell} (h : Unfolds (ladder n).table i c) :
    c.size + 1 = 2 ^ (n - i + 1) ∧ c.height = n - i := by
  induction c using Rose.ind generalizing i with
  | h label cs ih =>
    obtain ⟨refs, hrow, hcs⟩ := unfolds_node.mp h
    rcases ladder_row hrow with ⟨hi, rfl⟩ | ⟨rfl, rfl⟩
    · obtain ⟨c, _, hc, hrest, rfl⟩ := List.forall₂_cons_left_iff.mp hcs
      obtain ⟨d, _, hd, hnil, rfl⟩ := List.forall₂_cons_left_iff.mp hrest
      obtain rfl := List.forall₂_nil_left_iff.mp hnil
      obtain ⟨hsize, hheight⟩ := ih c List.mem_cons_self hc
      obtain rfl := hd.unique hc
      have hleft : n - i = n - (i + 1) + 1 := by omega
      have hpow : 2 ^ (n - i + 1) = 2 ^ (n - (i + 1) + 1) * 2 := by rw [hleft, Nat.pow_succ]
      simp only [Rose.size, Rose.sizes, Rose.height, Rose.heights]
      omega
    · obtain rfl := List.forall₂_nil_left_iff.mp hcs
      simp [Rose.size, Rose.sizes, Rose.height, Rose.heights]

theorem ladder_forward (n : Nat) : Forward (ladder n).table := by
  intro i label refs hrow r hr
  have hlen : (ladder n).table.length = n + 1 :=
    (ladder n).length_table.trans (length_ladderRecords n)
  rcases ladder_row hrow with ⟨hi, rfl⟩ | ⟨_, rfl⟩
  · have hnext : r = i + 1 := by simpa using hr
    omega
  · cases hr

theorem ladder_accepted (hn : n ≤ 62) : (ladder n).Accepted (ladder n).encode := by
  have hlen : (ladder n).records.length = n + 1 := length_ladderRecords n
  have hcells : maxBocCells = 65536 := rfl
  have hdepth : maxCellDepth = 1024 := rfl
  have hsize : (ladder n).refSize = 1 := by
    show ((1 : UInt8) &&& 7).toNat = 1
    decide
  have hcrc : (ladder n).hasCrc = false := by
    show decide ((1 : UInt8) &&& 0x40 ≠ 0) = false
    decide
  have hidx : (ladder n).hasIdx = false := by
    show decide ((1 : UInt8) &&& 0x80 ≠ 0) = false
    decide
  have hrecords : ∀ r ∈ (ladder n).records, r.Fits (ladder n).refSize := by
    intro r hr
    obtain ⟨i, hi⟩ := List.mem_iff_getElem?.mp hr
    rcases getElem?_ladderRecords hi with ⟨hlt, rfl⟩ | ⟨_, rfl⟩
    · have hzero : 0 = ((0 : UInt8).toNat + 1) / 2 := by decide
      have htwo : 2 = ((2 : UInt8) &&& 7).toNat := by decide
      refine ⟨hzero, htwo, ?_⟩
      intro j hj
      have hnext : j = i + 1 := by simpa using hj
      rw [hsize]
      omega
    · exact ⟨by decide, by decide, nofun⟩
  have hfits : (ladder n).Fits :=
    { refSize_pos := by rw [hsize]; decide
      offBytes_le := by show (1 : UInt8).toNat ≤ 8; decide
      count_pos := by omega
      count_le := by omega
      count_lt := by rw [hlen, hsize]; omega
      roots_lt := by rw [hsize]; show 1 < 256 ^ 1; decide
      absent_lt := by rw [hsize]; show 0 < 256 ^ 1; decide
      tot_lt := by show 4 * n + 2 < 256 ^ 1; omega
      root_lt := by rw [hlen]; exact Nat.succ_pos n
      index_length := by rw [hidx]; rfl
      records := hrecords
      bodies := Bag.bodies_of_rest fun h => by rw [hcrc] at h; cases h
      intact := fun h => by rw [hcrc] at h; cases h }
  refine ⟨rfl, hfits, ladder_forward n, ?_⟩
  intro i c hc
  have hheight := (ladder_unfolds hc).2
  omega

/-- Seventeen records, 77 bytes, 131071 cells. -/
theorem ladder_unbounded : ¬ BoundedOutput (ladder 16).encode := by
  rintro ⟨_, hsize⟩
  have hb := ladder_accepted (n := 16) (by decide)
  obtain ⟨c, hc⟩ := hb.exists_unfolds
  have hlong : (ladder 16).encode.length < 2 ^ 63 := by decide
  have hle := hsize c ((fromBoc_eq_ok hlong).mpr ⟨_, hb, hc⟩)
  have hcount := (ladder_unfolds hc).1
  have hroot : (ladder 16).root = 0 := rfl
  have hcells : maxBocCells = 65536 := rfl
  rw [hroot] at hcount
  omega

end Duckton.Ton.Boc
