/-
  `from_boc`, function by function.

  Every reading function has a lemma that says which texts it takes and what it makes of them, and
  one that it does not panic. The main result, `fromBoc_eq_ok`, puts them together: the reader
  gives a cell exactly if the text is that of an accepted bag, and then the cell that the root
  stands for.
-/
import Duckton.Ton.BocFormat

namespace Duckton.Ton.Boc

open Duckton.Proto Checked Fallible RefTable
open Octets (IsSlice toBe)

/-! ## Numbers -/

theorem toNat_shiftIn {v : UInt64} (hv : v.toNat < 2 ^ 56) (b : UInt8) :
    (shiftIn v b).toNat = b.toNat + 256 * v.toNat := by
  have hb : b.toNat < 2 ^ 8 := b.toNat_lt
  have hshift : (v <<< 8).toNat = v.toNat <<< 8 := by
    show v.toNat <<< 8 % 2 ^ 64 = _
    rw [Nat.shiftLeft_eq]
    omega
  rw [shiftIn, UInt64.toNat_or, hshift, UInt8.toNat_toUInt64, ← Nat.shiftLeft_add_eq_or_of_lt hb,
    Nat.shiftLeft_eq]
  omega

theorem toNat_foldl_shiftIn {part : Bytes} (h : part.length ≤ 8) :
    (part.foldl shiftIn 0).toNat = Octets.ofBe part := by
  induction part using List.reverseRecOn with
  | nil => rfl
  | append_singleton part b ih =>
    rw [List.length_append, List.length_singleton] at h
    have hlt : Octets.ofBe part < 256 ^ part.length := Octets.ofBe_lt part
    have hpow : 256 ^ part.length ≤ 256 ^ 7 := Nat.pow_le_pow_right (by decide) (by omega)
    have hvalue := ih (by omega)
    rw [List.foldl_append, List.foldl_cons, List.foldl_nil, toNat_shiftIn (by omega), hvalue,
      Octets.ofBe_concat]

variable {bytes : Bytes}

variable {p n p' refSize bodyEnd : Nat} {h : Header}

/-! ## Records -/

/-- An odd descriptor announces a last byte, so reading the length never fails. -/
theorem readBitLen_eq {r : Record} (h : r.data.length = (r.d2.toNat + 1) / 2) :
    readBitLen r.d2 r.data = .ok r.bitLen := by
  have hd2 : r.d2.toNat < 256 := r.d2.toNat_lt
  have hmul : mul r.data.length 8 = .ok (r.data.length * 8) := if_pos (by omega)
  unfold readBitLen Record.bitLen
  rw [← h]
  by_cases hodd : r.d2 &&& 1 = 1
  · have hpos : 0 < r.data.length := by
      have := (odd_iff _).mp hodd
      omega
    have hlast : index r.data (r.data.length - 1) = .ok (r.data.getLastD 0) := by
      rw [index_eq_ok, List.getLastD_eq_getLast?, List.getLast?_eq_getElem?,
        List.getElem?_eq_getElem (by omega)]
      rfl
    have hsub : sub r.data.length 1 = .ok (r.data.length - 1) := if_pos hpos
    have hfull : mul (r.data.length - 1) 8 = .ok ((r.data.length - 1) * 8) := if_pos (by omega)
    have hreject : rejectIf (r.data.length = 0) = .ok () := rejectIf_eq_ok.mpr (by omega)
    rw [if_pos hodd, if_pos hodd, hreject, hsub]
    simp only [ok_bind, hlast, hfull]
    cases hbit : completionBit (r.data.getLastD 0) with
    | none => rfl
    | some i => exact if_pos (by have := completionBit_lt hbit; omega)
  · rw [if_neg hodd, if_neg hodd, hmul]

/-- A record's bytes, part by part. -/
theorem Record.isSlice_encode {r : Record} :
    IsSlice bytes (p, r.encode refSize) ↔
      bytes[p]? = some r.d1 ∧ bytes[p + 1]? = some r.d2 ∧ IsSlice bytes (p + 2, r.data) ∧
        IsSlice bytes (p + 2 + r.data.length, r.refs.flatMap (toBe refSize)) := by
  have hsplit : r.encode refSize =
      [r.d1] ++ ([r.d2] ++ (r.data ++ r.refs.flatMap (toBe refSize))) := by
    simp [encode]
  rw [hsplit, Octets.isSlice_append, Octets.isSlice_append, Octets.isSlice_append,
    Octets.isSlice_singleton, Octets.isSlice_singleton]
  rfl

/-! ## Reading numbers and records -/

theorem fits_toBe {v : Nat} (h : IsSlice bytes (p, toBe n v)) : p + n ≤ bytes.length :=
  Octets.length_toBe n v ▸ h.fits

/-- With the count capped and offsets of at most eight bytes the sum stays small. -/
theorem skipIndex_eq (hcount : h.cellCount ≤ maxBocCells)
    (hoff : h.offBytes ≤ 8) (hp : p < 2 ^ 63) :
    skipIndex h p = .ok (p + if h.hasIdx then h.cellCount * h.offBytes else 0) := by
  have hbound : h.cellCount * h.offBytes ≤ maxBocCells * 8 := Nat.mul_le_mul hcount hoff
  have hmax : maxBocCells = 65536 := rfl
  unfold skipIndex
  cases h.hasIdx with
  | false => rfl
  | true =>
    simp only [if_true]
    rw [checkedMul, if_pos (by omega)]
    show orNothing (checkedAdd p _) = _
    rw [checkedAdd, if_pos (by omega)]
    rfl

section

variable (hlen : bytes.length < 2 ^ 63)

include hlen

theorem read_eq_ok {v : Nat} :
    read bytes p n = .ok (v, p') ↔
      n ≤ 8 ∧ v < 256 ^ n ∧ p' = p + n ∧ IsSlice bytes (p, toBe n v) := by
  unfold read
  simp only [bind_eq_ok, rejectIf_eq_ok, add_eq_ok, slice_eq_ok, Except.ok.injEq, Prod.mk.injEq]
  constructor
  · rintro ⟨_, hn, stop, ⟨_, rfl⟩, _, _, part, ⟨hpart, hslice⟩, rfl, rfl⟩
    have hsize : part.length = n := by omega
    have hn' : part.length ≤ 8 := by omega
    rw [toNat_foldl_shiftIn hn', ← hsize, Octets.toBe_ofBe]
    exact ⟨hn', Octets.ofBe_lt part, rfl, hslice⟩
  · rintro ⟨hn, hv, rfl, hslice⟩
    have hfits := fits_toBe hslice
    refine ⟨(), by omega, p + n, ⟨by omega, rfl⟩, (), by omega, toBe n v, ⟨?_, hslice⟩, ?_, rfl⟩
    · rw [Octets.length_toBe]
    · rw [toNat_foldl_shiftIn (by rw [Octets.length_toBe]; omega), Octets.ofBe_toBe hv]

theorem quiet_read (hp : p ≤ bytes.length) (n : Nat) :
    Quiet (read bytes p n) := by
  refine quiet_rejectIf_bind fun hn => ?_
  refine quiet_add_bind (by omega) (quiet_rejectIf_bind fun hfits => ?_)
  exact (quiet_slice (by omega) (by omega)).bind fun part _ => quiet_ok _

/-- A read inside the text leaves the position inside it. -/
theorem quiet_read_bind {α : Type} (hp : p ≤ bytes.length) {f : Nat × Nat → Except Halt α}
    (hf : ∀ v p', p' ≤ bytes.length → Quiet (f (v, p'))) : Quiet (read bytes p n >>= f) := by
  refine (quiet_read hlen hp n).bind fun a ha => ?_
  obtain ⟨v, p'⟩ := a
  obtain ⟨_, _, rfl, hslice⟩ := (read_eq_ok hlen).mp ha
  exact hf v (p + n) (fits_toBe hslice)

theorem readRefs_eq_ok (hsize : refSize ≤ 8) {refs : List Nat} (hp : p ≤ bytes.length) :
    readRefs bytes refSize n p = .ok (refs, p') ↔
      refs.length = n ∧ (∀ r ∈ refs, r < 256 ^ refSize) ∧ p' = p + refs.length * refSize ∧
        IsSlice bytes (p, refs.flatMap (toBe refSize)) := by
  induction n generalizing p p' refs with
  | zero =>
    rw [readRefs, Except.ok.injEq, Prod.mk.injEq]
    constructor
    · rintro ⟨rfl, rfl⟩
      refine ⟨rfl, nofun, by simp, Octets.isSlice_nil.mpr hp⟩
    · rintro ⟨hrefs, _, rfl, _⟩
      rw [List.length_eq_zero_iff.mp hrefs]
      simp
  | succ n ih =>
    rw [readRefs, bind_eq_ok]
    constructor
    · rintro ⟨⟨r, q⟩, hr, hrest⟩
      obtain ⟨_, hlt, rfl, hslice⟩ := (read_eq_ok hlen).mp hr
      obtain ⟨⟨rs, q'⟩, hrs, hret⟩ := bind_eq_ok.mp hrest
      obtain ⟨hcount, hall, rfl, hslices⟩ := (ih (fits_toBe hslice)).mp hrs
      obtain ⟨rfl, rfl⟩ := Prod.mk.inj (Except.ok.inj hret)
      refine ⟨by rw [List.length_cons, hcount], List.forall_mem_cons.mpr ⟨hlt, hall⟩, ?_, ?_⟩
      · rw [List.length_cons]
        ring
      · rw [List.flatMap_cons, Octets.isSlice_append, Octets.length_toBe]
        exact ⟨hslice, hslices⟩
    · rintro ⟨hcount, hall, rfl, hslice⟩
      cases refs with
      | nil => cases hcount
      | cons r rs =>
        rw [List.flatMap_cons, Octets.isSlice_append, Octets.length_toBe] at hslice
        refine ⟨(r, p + refSize), (read_eq_ok hlen).mpr
          ⟨hsize, hall r List.mem_cons_self, rfl, hslice.1⟩, ?_⟩
        have hrest : readRefs bytes refSize n (p + refSize) =
            .ok (rs, p + refSize + rs.length * refSize) := (ih (fits_toBe hslice.1)).mpr
          ⟨Nat.succ.inj hcount, fun x hx => hall x (List.mem_cons_of_mem _ hx), rfl, hslice.2⟩
        dsimp only
        rw [hrest]
        show Except.ok _ = Except.ok _
        rw [List.length_cons]
        congr 2
        ring

theorem quiet_readRefs (refSize n : Nat) (hp : p ≤ bytes.length) :
    Quiet (readRefs bytes refSize n p) := by
  induction n generalizing p with
  | zero => exact quiet_ok _
  | succ n ih =>
    exact quiet_read_bind hlen hp fun r p' hp' => (ih hp').bind fun _ _ => quiet_ok _

theorem readRecord_eq_ok (hsize : refSize ≤ 8) (hend : bodyEnd ≤ bytes.length)
    {row : Packed × List Nat} :
    readRecord bytes bodyEnd refSize p = .ok (row, p') ↔
      ∃ r : Record, r.Fits refSize ∧ row = r.row ∧ p + 2 + r.data.length ≤ bodyEnd ∧
        p' = p + (r.encode refSize).length ∧ IsSlice bytes (p, r.encode refSize) := by
  unfold readRecord
  simp only [bind_eq_ok, rejectIf_eq_ok, add_eq_ok, slice_eq_ok, index_eq_ok]
  constructor
  · rintro ⟨_, ⟨_, rfl⟩, _, hbody, d1, hd1, _, ⟨_, rfl⟩, d2, hd2, _, ⟨_, rfl⟩, _, hdata, data,
      ⟨hstop, hslice⟩, bitLen, hbits, ⟨refs, q⟩, hrefs, hret⟩
    have hcount : data.length = (d2.toNat + 1) / 2 := by omega
    obtain ⟨hn, hall, rfl, hrefSlice⟩ := (readRefs_eq_ok hlen hsize (by omega)).mp hrefs
    obtain ⟨rfl, rfl⟩ := Prod.mk.inj (Except.ok.inj hret)
    have hlength : bitLen = (⟨d1, d2, data, refs⟩ : Record).bitLen :=
      (Except.ok.inj ((readBitLen_eq (r := ⟨d1, d2, data, refs⟩) hcount).symm.trans hbits)).symm
    refine ⟨⟨d1, d2, data, refs⟩, ⟨hcount, hn, hall⟩, by rw [hlength]; rfl, ?_, ?_, ?_⟩
    · dsimp only
      omega
    · rw [Record.length_encode]
      dsimp only
      omega
    · rw [Record.isSlice_encode]
      rw [← hcount] at hrefSlice
      exact ⟨hd1, hd2, hslice, hrefSlice⟩
  · rintro ⟨r, ⟨hdata, hcount, hall⟩, rfl, hbody, rfl, hslice⟩
    obtain ⟨hd1, hd2, hdataSlice, hrefSlice⟩ := Record.isSlice_encode.mp hslice
    have hrefs : readRefs bytes refSize (r.d1 &&& 7).toNat (p + 2 + (r.d2.toNat + 1) / 2) =
        .ok (r.refs, p + 2 + (r.d2.toNat + 1) / 2 + r.refs.length * refSize) := by
      rw [readRefs_eq_ok hlen hsize (by omega), ← hdata]
      exact ⟨hcount, hall, rfl, hrefSlice⟩
    refine ⟨p + 2, ⟨by omega, rfl⟩, (), by omega, r.d1, hd1, p + 1, ⟨by omega, rfl⟩, r.d2, hd2,
      p + 2 + (r.d2.toNat + 1) / 2, ⟨by omega, rfl⟩, (), by omega, r.data, ⟨by omega, hdataSlice⟩,
      r.bitLen, readBitLen_eq hdata, _, hrefs, ?_⟩
    rw [Record.length_encode, hdata]
    show Except.ok _ = Except.ok _
    congr 2
    omega

theorem quiet_readRecord (refSize : Nat) (hend : bodyEnd ≤ bytes.length)
    (hp : p < 2 ^ 63 + 2 ^ 32) :
    Quiet (readRecord bytes bodyEnd refSize p) := by
  refine quiet_add_bind (by omega) (quiet_rejectIf_bind fun hfits => ?_)
  refine (quiet_index (by omega)).bind fun d1 _ => quiet_add_bind (by omega) ?_
  refine (quiet_index (by omega)).bind fun d2 _ => ?_
  have hd2 : d2.toNat < 256 := d2.toNat_lt
  refine quiet_add_bind (by omega) (quiet_rejectIf_bind fun hfits' => ?_)
  refine (quiet_slice (by omega) (by omega)).bind fun data hdata => ?_
  rw [slice_eq_ok] at hdata
  have hbits := readBitLen_eq (r := ⟨d1, d2, data, []⟩) (by dsimp only; omega)
  rw [hbits, ok_bind]
  exact (quiet_readRefs hlen _ _ (by omega)).bind fun _ _ => quiet_ok _

theorem readRecords_eq_ok (hsize : refSize ≤ 8) (hend : bodyEnd ≤ bytes.length)
    (hp : p ≤ bytes.length ∨ 0 < n) {rows : Table Packed} :
    readRecords bytes bodyEnd refSize n p = .ok rows ↔
      ∃ records : List Record, records.length = n ∧ (∀ r ∈ records, r.Fits refSize) ∧
        rows = records.map Record.row ∧ BodiesEndBy bodyEnd refSize p records ∧
        IsSlice bytes (p, encodeAll refSize records) := by
  induction n generalizing p rows with
  | zero =>
    rw [readRecords, Except.ok.injEq]
    constructor
    · rintro rfl
      refine ⟨[], rfl, nofun, rfl, bodiesEndBy_nil _ _ _, ?_⟩
      exact Octets.isSlice_nil.mpr (hp.resolve_right (Nat.lt_irrefl 0))
    · rintro ⟨records, hcount, _, rfl, _⟩
      rw [List.length_eq_zero_iff.mp hcount]
      rfl
  | succ n ih =>
    rw [readRecords, bind_eq_ok]
    constructor
    · rintro ⟨⟨row, q⟩, hrow, hrest⟩
      obtain ⟨r, hr, rfl, hbody, rfl, hslice⟩ := (readRecord_eq_ok hlen hsize hend).mp hrow
      obtain ⟨rows', hrows, hret⟩ := bind_eq_ok.mp hrest
      obtain ⟨records, hcount, hfits, rfl, hbodies, hslices⟩ := (ih (.inl hslice.fits)).mp hrows
      obtain rfl := Except.ok.inj hret
      refine ⟨r :: records, by rw [List.length_cons, hcount],
        List.forall_mem_cons.mpr ⟨hr, hfits⟩, rfl, bodiesEndBy_cons.mpr ⟨hbody, hbodies⟩, ?_⟩
      rw [encodeAll_cons, Octets.isSlice_append]
      exact ⟨hslice, hslices⟩
    · rintro ⟨records, hcount, hfits, rfl, hbodies, hslice⟩
      cases records with
      | nil => cases hcount
      | cons r records =>
        obtain ⟨hbody, hbodies⟩ := bodiesEndBy_cons.mp hbodies
        rw [encodeAll_cons, Octets.isSlice_append] at hslice
        refine ⟨(r.row, p + (r.encode refSize).length), (readRecord_eq_ok hlen hsize hend).mpr
          ⟨r, hfits r List.mem_cons_self, rfl, hbody, rfl, hslice.1⟩, ?_⟩
        have hrest : readRecords bytes bodyEnd refSize n (p + (r.encode refSize).length) =
            .ok (records.map Record.row) := (ih (.inl hslice.1.fits)).mpr ⟨records,
          Nat.succ.inj hcount, fun x hx => hfits x (List.mem_cons_of_mem _ hx), rfl, hbodies,
          hslice.2⟩
        dsimp only
        rw [hrest]
        rfl

theorem quiet_readRecords (hsize : refSize ≤ 8) (hend : bodyEnd ≤ bytes.length) (n : Nat)
    (hp : p < 2 ^ 63 + 2 ^ 32) :
    Quiet (readRecords bytes bodyEnd refSize n p) := by
  induction n generalizing p with
  | zero => exact quiet_ok _
  | succ n ih =>
    refine (quiet_readRecord hlen refSize hend hp).bind fun a ha => ?_
    obtain ⟨row, q⟩ := a
    obtain ⟨r, _, _, _, rfl, hslice⟩ := (readRecord_eq_ok hlen hsize hend).mp ha
    have hfits := hslice.fits
    dsimp only at hfits
    exact (ih (by omega)).bind fun _ _ => quiet_ok _

/-! ## Reading the header -/

theorem readHeader_eq_ok :
    readHeader bytes = .ok (h, p) ↔
      ∃ (flags offBytes : UInt8) (count roots absent tot root : Nat),
        ((flags &&& 7).toNat ≠ 0 ∧ offBytes.toNat ≤ 8 ∧ 0 < count ∧ count ≤ maxBocCells) ∧
        (count < 256 ^ (flags &&& 7).toNat ∧ roots < 256 ^ (flags &&& 7).toNat ∧
          absent < 256 ^ (flags &&& 7).toNat ∧ tot < 256 ^ offBytes.toNat ∧ root < count) ∧
        h = ⟨flags &&& 0x80 ≠ 0, flags &&& 0x40 ≠ 0, (flags &&& 7).toNat, offBytes.toNat, count,
          root⟩ ∧
        p = (headerBytes flags offBytes count roots absent tot root).length ∧
        IsSlice bytes (0, headerBytes flags offBytes count roots absent tot root) := by
  unfold readHeader
  simp only [bind_eq_ok, Prod.exists, rejectIf_eq_ok, slice_eq_ok, index_eq_ok, read_eq_ok hlen,
    Except.ok.injEq, Prod.mk.injEq, headerBytes, Octets.isSlice_append, Octets.isSlice_singleton,
    List.length_append, Octets.length_toBe, List.length_singleton]
  have hmagic : magic.length = 4 := rfl
  constructor
  · intro hread
    obtain ⟨_, _, start, ⟨_, hstart⟩, _, hisMagic, flags, hflags, _, hsize, offBytes, hoff,
      hread⟩ := hread
    obtain ⟨count, _, ⟨_, hcount, rfl, hcountSlice⟩, _, hrange, hread⟩ := hread
    obtain ⟨roots, _, ⟨_, hroots, rfl, hrootsSlice⟩, hread⟩ := hread
    obtain ⟨absent, _, ⟨_, habsent, rfl, habsentSlice⟩, hread⟩ := hread
    obtain ⟨tot, _, ⟨hoffLe, htot, rfl, htotSlice⟩, hread⟩ := hread
    obtain ⟨root, _, ⟨_, _, rfl, hrootSlice⟩, _, hroot, rfl, rfl⟩ := hread
    obtain rfl : start = magic := not_not.mp hisMagic
    exact ⟨flags, offBytes, count, roots, absent, tot, root, ⟨by omega, hoffLe, by omega, by omega⟩,
      ⟨hcount, hroots, habsent, htot, by omega⟩, rfl, by omega, hstart, hflags, hoff, hcountSlice,
      hrootsSlice, habsentSlice, htotSlice, hrootSlice⟩
  · rintro ⟨flags, offBytes, count, roots, absent, tot, root, ⟨hsize, hoffLe, hpos, hle⟩,
      ⟨hcount, hroots, habsent, htot, hroot⟩, rfl, rfl, hstart, hflags, hoff, hcountSlice,
      hrootsSlice, habsentSlice, htotSlice, hrootSlice⟩
    have hlow := low_bits_le flags
    have hlong : 5 < bytes.length := (List.getElem?_eq_some_iff.mp hoff).1
    exact ⟨(), by omega, magic, ⟨rfl, hstart⟩, (), not_not.mpr rfl, flags, hflags, (), by omega,
      offBytes, hoff, count, _, ⟨by omega, hcount, rfl, hcountSlice⟩, (), by omega, roots, _,
      ⟨by omega, hroots, rfl, hrootsSlice⟩, absent, _, ⟨by omega, habsent, rfl, habsentSlice⟩, tot,
      _, ⟨hoffLe, htot, rfl, htotSlice⟩, root, _, ⟨by omega, by omega, rfl, hrootSlice⟩, (),
      by omega, rfl, by omega⟩

theorem quiet_readHeader : Quiet (readHeader bytes) := by
  refine quiet_rejectIf_bind fun hshort => ?_
  refine (quiet_slice (by omega) (by omega)).bind fun _ _ => (quiet_rejectIf _).bind fun _ _ =>
    (quiet_index (by omega)).bind fun flags _ => (quiet_rejectIf _).bind fun _ _ =>
    (quiet_index (by omega)).bind fun offBytes _ => ?_
  refine quiet_read_bind hlen (by omega) fun count p hp => quiet_rejectIf_bind fun _ => ?_
  refine quiet_read_bind hlen hp fun roots p hp => ?_
  refine quiet_read_bind hlen hp fun absent p hp => ?_
  refine quiet_read_bind hlen hp fun tot p hp => ?_
  refine quiet_read_bind hlen hp fun root p hp => quiet_rejectIf_bind fun _ => quiet_ok _

theorem checkedBodyEnd_eq_ok (hlong : 4 ≤ bytes.length)
    {e : Nat} : checkedBodyEnd h bytes = .ok e ↔
      e = (if h.hasCrc then bytes.length - 4 else bytes.length) ∧
        (h.hasCrc = true → (crc32c (bytes.take e)).toNat = Octets.ofLe (bytes.drop e)) := by
  unfold checkedBodyEnd
  cases h.hasCrc with
  | false =>
    rw [if_neg Bool.false_ne_true, if_neg Bool.false_ne_true, Except.ok.injEq]
    exact ⟨fun he => ⟨he.symm, nofun⟩, fun he => he.1.symm⟩
  | true =>
    have hwant : slice bytes (bytes.length - 4) (bytes.length - 4 + 4) =
        .ok (bytes.drop (bytes.length - 4)) := by
      rw [slice, if_pos ⟨by omega, by omega⟩, List.take_of_length_le]
      rw [List.length_drop]
      omega
    have hbody : slice bytes 0 (bytes.length - 4) = .ok (bytes.take (bytes.length - 4)) := by
      rw [slice, if_pos ⟨by omega, by omega⟩, List.drop_zero, Nat.sub_zero]
    have hadd : add (bytes.length - 4) 4 = .ok (bytes.length - 4 + 4) := if_pos (by omega)
    rw [if_pos rfl, if_pos rfl, checkedSub, if_pos hlong]
    show (add (bytes.length - 4) 4 >>= _) = _ ↔ _
    simp only [hadd, ok_bind, hwant, hbody, bind_eq_ok, rejectIf_eq_ok, Except.ok.injEq]
    constructor
    · rintro ⟨_, hcrc, rfl⟩
      exact ⟨rfl, fun _ => not_not.mp hcrc⟩
    · rintro ⟨rfl, hcrc⟩
      exact ⟨(), not_not.mpr (hcrc trivial), rfl⟩

theorem quiet_checkedBodyEnd (h : Header) :
    Quiet (checkedBodyEnd h bytes) := by
  unfold checkedBodyEnd
  split
  · refine (quiet_orNothing _).bind fun e he => ?_
    rw [orNothing_eq_ok, checkedSub] at he
    split at he
    · obtain rfl := Option.some.inj he
      refine quiet_add_bind (by omega) ?_
      exact (quiet_slice (by omega) (by omega)).bind fun _ _ =>
        (quiet_slice (by omega) (by omega)).bind fun _ _ =>
        quiet_rejectIf_bind fun _ => quiet_ok _
    · cases he
  · exact quiet_ok _

end

/-! ## Rebuilding the cells -/

variable {t : Table Packed} {b : Built}

/-- The rows from `i` on are built. -/
structure Rebuilt (t : Table Packed) (i : Nat) (b : Built) : Prop where
  cells_length : b.cells.length = t.length
  depths_length : b.depths.length = t.length
  built : ∀ j, i ≤ j → j < t.length → ∃ c, Unfolds t j c ∧ c.height ≤ maxCellDepth ∧
    b.cells[j]? = some (some c) ∧ b.depths[j]? = some c.height
  forward : ∀ j, i ≤ j → ForwardAt t j

theorem rebuilt_start (t : Table Packed) :
    Rebuilt t t.length ⟨List.replicate t.length none, List.replicate t.length 0⟩ := by
  refine ⟨List.length_replicate, List.length_replicate, fun j hle hlt => by omega, ?_⟩
  intro j hle a refs hrow
  rw [List.getElem?_eq_none hle] at hrow
  cases hrow

variable {i : Nat} {c : PackedCell}

variable {refs : List Nat} {cells : List PackedCell} {rows : Table Packed}

theorem cellDepth_eq_some {maxChildDepth depth : Nat}
    (hcells : List.Forall₂ (Unfolds t) refs cells)
    (hmax : maxChildDepth + 1 = max (0 + 1) (Rose.heights cells)) :
    cellDepth refs maxChildDepth = some depth ↔ depth = Rose.heights cells ∧ depth < 65536 := by
  unfold cellDepth
  cases hcells with
  | nil =>
    rw [List.isEmpty_nil, if_pos rfl, Option.some.injEq, Rose.heights]
    omega
  | cons hc hcs =>
    rw [Rose.heights] at hmax ⊢
    rw [List.isEmpty_cons, if_neg Bool.false_ne_true]
    split <;> simp <;> omega

section

variable (hb : Rebuilt t (i + 1) b)

include hb

theorem childCells_eq_ok {cells' : List PackedCell}
    {depth depth' : Nat} :
    childCells t.length i b refs (cells, depth) = .ok (cells', depth') ↔
      (∀ r ∈ refs, i < r ∧ r < t.length) ∧ ∃ new, List.Forall₂ (Unfolds t) refs new ∧
        cells' = cells ++ new ∧ depth' + 1 = max (depth + 1) (Rose.heights new) := by
  induction refs generalizing cells depth with
  | nil =>
    rw [childCells, Except.ok.injEq, Prod.mk.injEq]
    constructor
    · rintro ⟨rfl, rfl⟩
      refine ⟨nofun, [], .nil, (List.append_nil _).symm, ?_⟩
      exact (Nat.max_eq_left (Nat.zero_le _)).symm
    · rintro ⟨_, new, hnew, rfl, hdepth⟩
      rw [List.forall₂_nil_left_iff] at hnew
      subst hnew
      rw [Rose.heights] at hdepth
      exact ⟨(List.append_nil _).symm, by omega⟩
  | cons r rs ih =>
    rw [childCells]
    simp only [bind_eq_ok, rejectIf_eq_ok, index_eq_ok, orNothing_eq_ok, ih]
    constructor
    · rintro ⟨_, hr, d, hd, slot, hslot, c, rfl, hall, new, hnew, rfl, hdepth⟩
      obtain ⟨c', hunfolds, _, hcell, hheight⟩ := hb.built r (by omega) (by omega)
      obtain rfl : c = c' := Option.some.inj (Option.some.inj (hslot.symm.trans hcell))
      obtain rfl : d = c.height := Option.some.inj (hd.symm.trans hheight)
      refine ⟨List.forall_mem_cons.mpr ⟨by omega, hall⟩, c :: new, .cons hunfolds hnew, by simp, ?_⟩
      rw [Rose.heights]
      omega
    · rintro ⟨hall, new, hnew, rfl, hdepth⟩
      obtain ⟨c, new, hunfolds, hrest, rfl⟩ := List.forall₂_cons_left_iff.mp hnew
      have hr := hall r List.mem_cons_self
      obtain ⟨c', hunfolds', _, hcell, hheight⟩ := hb.built r (by omega) (by omega)
      obtain rfl := hunfolds.unique hunfolds'
      rw [Rose.heights] at hdepth
      exact ⟨(), by omega, c.height, hheight, some c, hcell, c, rfl,
        fun r' hr' => hall r' (List.mem_cons_of_mem _ hr'), new, hrest, by simp, by omega⟩

theorem quiet_childCells (refs : List Nat)
    (acc : List PackedCell × Nat) : Quiet (childCells t.length i b refs acc) := by
  induction refs generalizing acc with
  | nil => exact quiet_ok _
  | cons r rs ih =>
    refine quiet_rejectIf_bind fun hr => ?_
    have hdepths := hb.depths_length
    have hcells := hb.cells_length
    refine (quiet_index (by omega)).bind fun _ _ => (quiet_index (by omega)).bind fun _ _ =>
      (quiet_orNothing _).bind fun _ _ => ih _

/-- One row: its references point forward to built rows, and its cell is not too deep. -/
theorem rebuildCell_eq_ok (hi : i < t.length) {b' : Built} :
    rebuildCell t t.length b i = .ok b' ↔ ForwardAt t i ∧ ∃ c, Unfolds t i c ∧
      c.height ≤ maxCellDepth ∧ b' = ⟨b.cells.set i (some c), b.depths.set i c.height⟩ := by
  have hdepths : i < b.depths.length := by rw [hb.depths_length]; exact hi
  have hcells : i < b.cells.length := by rw [hb.cells_length]; exact hi
  rw [rebuildCell, bind_eq_ok]
  constructor
  · rintro ⟨⟨label, refs⟩, hrow, h⟩
    rw [index_eq_ok] at hrow
    obtain ⟨⟨cells, maxChildDepth⟩, hchildren, h⟩ := bind_eq_ok.mp h
    obtain ⟨hall, new, hnew, rfl, hmax⟩ := (childCells_eq_ok hb).mp hchildren
    simp only [bind_eq_ok, orNothing_eq_ok, cellDepth_eq_some hnew hmax, rejectIf_eq_ok,
      update_eq_ok hdepths, update_eq_ok hcells] at h
    obtain ⟨_, ⟨rfl, _⟩, _, hshallow, _, rfl, _, rfl, hret⟩ := h
    refine ⟨?_, .node label cells, unfolds_node.mpr ⟨refs, hrow, hnew⟩, Nat.le_of_not_lt hshallow,
      (Except.ok.inj hret).symm⟩
    intro a refs' hrow'
    obtain ⟨rfl, rfl⟩ := Prod.mk.inj (Option.some.inj (hrow.symm.trans hrow'))
    exact hall
  · rintro ⟨hforward, c, hunfolds, hshallow, rfl⟩
    cases c with
    | node label new =>
      obtain ⟨refs, hrow, hnew⟩ := unfolds_node.mp hunfolds
      have hheight : (Rose.node label new).height = Rose.heights new := rfl
      have hbound : maxCellDepth = 1024 := rfl
      have hmax : max (0 + 1) (Rose.heights new) - 1 + 1 = max (0 + 1) (Rose.heights new) :=
        Nat.sub_add_cancel (Nat.le_max_left 1 _)
      have hchildren : childCells t.length i b refs ([], 0) =
          .ok (new, max (0 + 1) (Rose.heights new) - 1) :=
        (childCells_eq_ok hb).mpr ⟨hforward label refs hrow, new, hnew, rfl, hmax⟩
      refine ⟨(label, refs), index_eq_ok.mpr hrow, ?_⟩
      dsimp only
      rw [hchildren, ok_bind]
      simp only [bind_eq_ok, orNothing_eq_ok, cellDepth_eq_some hnew hmax, rejectIf_eq_ok,
        update_eq_ok hdepths, update_eq_ok hcells]
      exact ⟨_, ⟨rfl, by omega⟩, (), Nat.not_lt.mpr hshallow, _, rfl, _, rfl, rfl⟩

theorem quiet_rebuildCell (hi : i < t.length) :
    Quiet (rebuildCell t t.length b i) := by
  refine (quiet_index hi).bind fun row _ => (quiet_childCells hb _ _).bind fun _ _ =>
    (quiet_orNothing _).bind fun _ _ => quiet_rejectIf_bind fun _ => ?_
  refine (quiet_update ?_).bind fun _ _ => (quiet_update ?_).bind fun _ _ => quiet_ok _
  · rw [hb.depths_length]
    exact hi
  · rw [hb.cells_length]
    exact hi

theorem Rebuilt.step (hforward : ForwardAt t i)
    (hunfolds : Unfolds t i c) (hshallow : c.height ≤ maxCellDepth) :
    Rebuilt t i ⟨b.cells.set i (some c), b.depths.set i c.height⟩ := by
  have hcells := hb.cells_length
  have hdepths := hb.depths_length
  refine ⟨by rw [List.length_set, hcells], by rw [List.length_set, hdepths], ?_, ?_⟩
  · intro j hle hlt
    by_cases hj : i = j
    · subst hj
      refine ⟨c, hunfolds, hshallow, ?_, ?_⟩
      all_goals exact List.getElem?_set_self (by omega)
    · obtain ⟨d, hd, hdeep, hcell, hdepth⟩ := hb.built j (by omega) hlt
      refine ⟨d, hd, hdeep, ?_, ?_⟩
      · exact (List.getElem?_set_ne hj).trans hcell
      · exact (List.getElem?_set_ne hj).trans hdepth
  · intro j hle
    by_cases hj : i = j
    · exact hj ▸ hforward
    · exact hb.forward j (by omega)

end

/-- The whole loop does not panic, and what it leaves behind. -/
theorem rebuild_spec (hb : Rebuilt t i b) (hi : i ≤ t.length) :
    Quiet (rebuild t t.length i b) ∧ ∀ b', rebuild t t.length i b = .ok b' → Rebuilt t 0 b' := by
  induction i generalizing b with
  | zero => exact ⟨quiet_ok _, fun b' h => Except.ok.inj h ▸ hb⟩
  | succ i ih =>
    have hstep : ∀ next, rebuildCell t t.length b i = .ok next → Rebuilt t i next := by
      intro next hnext
      obtain ⟨hforward, c, hunfolds, hshallow, rfl⟩ := (rebuildCell_eq_ok hb hi).mp hnext
      exact hb.step hforward hunfolds hshallow
    refine ⟨(quiet_rebuildCell hb hi).bind fun next hnext => ?_, fun b' h => ?_⟩
    · exact (ih (hstep next hnext) (by omega)).1
    · obtain ⟨next, hnext, h⟩ := bind_eq_ok.mp h
      exact (ih (hstep next hnext) (by omega)).2 b' h

theorem rebuild_complete (hforward : Forward t)
    (hshallow : ∀ j c, Unfolds t j c → c.height ≤ maxCellDepth) (hb : Rebuilt t i b)
    (hi : i ≤ t.length) : ∃ b', rebuild t t.length i b = .ok b' ∧ Rebuilt t 0 b' := by
  induction i generalizing b with
  | zero => exact ⟨b, rfl, hb⟩
  | succ i ih =>
    obtain ⟨c, hunfolds⟩ := hforward.exists_unfolds hi
    have hdeep := hshallow i c hunfolds
    obtain ⟨b', hb', hdone⟩ := ih (hb.step (hforward i) hunfolds hdeep) (by omega)
    refine ⟨b', ?_, hdone⟩
    rw [rebuild, (rebuildCell_eq_ok hb hi).mpr ⟨hforward i, c, hunfolds, hdeep, rfl⟩]
    exact hb'

/-! ## What the reader takes -/

/-- A bag is read from its text. -/
theorem Bag.Fits.readRaw_encode {bag : Bag} (hbag : bag.Fits) (hlen : bag.encode.length < 2 ^ 63) :
    readRaw bag.encode = .ok (bag.toHeader, bag.table) := by
  have hslice : IsSlice bag.encode
      (0, bag.header ++ (bag.index ++ encodeAll bag.refSize bag.records)) := by
    refine Octets.isSlice_zero.mpr ⟨bag.rest, ?_⟩
    simp only [Bag.encode, List.append_assoc]
  rw [Octets.isSlice_append, Octets.isSlice_append, Nat.zero_add] at hslice
  obtain ⟨hheader, _, hrecords⟩ := hslice
  have hlong : 6 ≤ bag.header.length := length_headerBytes _ _ _ _ _ _ _
  have hlow : bag.refSize ≤ 7 := low_bits_le bag.flags
  have hfits := hheader.fits
  have hend : bag.bodyEnd ≤ bag.encode.length := by
    rw [Bag.bodyEnd]
    split <;> omega
  dsimp only at hfits
  have hread : readHeader bag.encode = .ok (bag.toHeader, bag.header.length) :=
    (readHeader_eq_ok hlen).mpr ⟨bag.flags, bag.offBytes, bag.records.length, bag.roots,
      bag.absent, bag.tot, bag.root, ⟨hbag.refSize_pos, hbag.offBytes_le, hbag.count_pos,
      hbag.count_le⟩, ⟨hbag.count_lt, hbag.roots_lt, hbag.absent_lt, hbag.tot_lt, hbag.root_lt⟩,
      rfl, rfl, hheader⟩
  have hskip : skipIndex bag.toHeader bag.header.length = .ok bag.sectionStart := by
    rw [skipIndex_eq hbag.count_le hbag.offBytes_le (by omega), Bag.sectionStart,
      hbag.index_length]
    rfl
  have hcheck : checkedBodyEnd bag.toHeader bag.encode = .ok bag.bodyEnd :=
    (checkedBodyEnd_eq_ok hlen (by omega)).mpr ⟨rfl, hbag.intact⟩
  have hrows : readRecords bag.encode bag.bodyEnd bag.refSize bag.records.length
      bag.sectionStart = .ok bag.table :=
    (readRecords_eq_ok hlen (by omega) hend (.inr hbag.count_pos)).mpr
      ⟨bag.records, rfl, hbag.records, rfl, hbag.bodies, hrecords⟩
  unfold readRaw
  rw [hread, ok_bind]
  dsimp only
  rw [hskip, ok_bind, hcheck, ok_bind]
  show (readRecords bag.encode bag.bodyEnd bag.refSize bag.records.length
    bag.sectionStart >>= _) = _
  rw [hrows]
  rfl

theorem Rebuilt.shallow (h : Rebuilt t 0 b) (hc : Unfolds t i c) :
    c.height ≤ maxCellDepth := by
  obtain ⟨d, hd, hdeep, _⟩ := h.built i (Nat.zero_le i) hc.lt_length
  rw [hc.unique hd]
  exact hdeep

variable (hlen : bytes.length < 2 ^ 63)

include hlen

theorem quiet_readRaw : Quiet (readRaw bytes) := by
  refine (quiet_readHeader hlen).bind fun a ha => ?_
  obtain ⟨h, p⟩ := a
  obtain ⟨flags, offBytes, count, roots, absent, tot, root, ⟨_, hoff, _, hcount⟩, _, hh, hp,
    hslice⟩ := (readHeader_eq_ok hlen).mp ha
  have hlong := length_headerBytes flags offBytes count roots absent tot root
  have hlow := low_bits_le flags
  have hfits := hslice.fits
  have hcells : h.cellCount = count := by rw [hh]
  have hbytes : h.offBytes = offBytes.toNat := by rw [hh]
  have hrefs : h.refSize = (flags &&& 7).toNat := by rw [hh]
  have hmax : maxBocCells = 65536 := rfl
  have hskip : h.cellCount * h.offBytes ≤ maxBocCells * 8 := Nat.mul_le_mul (by omega) (by omega)
  dsimp only at hfits ⊢
  rw [skipIndex_eq (by omega) (by omega) (by omega), ok_bind]
  refine (quiet_checkedBodyEnd hlen h).bind fun e he => ?_
  obtain ⟨he, _⟩ := (checkedBodyEnd_eq_ok hlen (by omega)).mp he
  refine (quiet_readRecords hlen (by omega) ?_ _ ?_).bind fun _ _ => quiet_ok _
  · rw [he]
    split <;> omega
  · split <;> omega

/-- The rows that are read are those of a bag with this text. -/
theorem readRaw_sound (hraw : readRaw bytes = .ok (h, rows)) :
    ∃ bag : Bag, bag.encode = bytes ∧ bag.Fits ∧ h = bag.toHeader ∧ rows = bag.table := by
  obtain ⟨⟨h', p⟩, hheader, hread⟩ := bind_eq_ok.mp hraw
  obtain ⟨flags, offBytes, count, roots, absent, tot, root, ⟨hsize, hoff, hpos, hcount⟩,
    ⟨hcountLt, hroots, habsent, htot, hroot⟩, rfl, hp, hslice⟩ :=
    (readHeader_eq_ok hlen).mp hheader
  have hlong := length_headerBytes flags offBytes count roots absent tot root
  have hlow := low_bits_le flags
  have hfits := hslice.fits
  dsimp only at hfits hread
  rw [skipIndex_eq hcount hoff (by omega), ok_bind] at hread
  obtain ⟨e, he, hread⟩ := bind_eq_ok.mp hread
  obtain ⟨rows', hrows, hret⟩ := bind_eq_ok.mp hread
  obtain ⟨rfl, rfl⟩ := Prod.mk.inj (Except.ok.inj hret)
  obtain ⟨he, hcrc⟩ := (checkedBodyEnd_eq_ok hlen (by omega)).mp he
  have hend : e ≤ bytes.length := by
    rw [he]
    split <;> omega
  have hsize8 : (flags &&& 7).toNat ≤ 8 := by omega
  obtain ⟨records, rfl, hrecords, rfl, hbodies, hslices⟩ :=
    (readRecords_eq_ok hlen hsize8 hend (.inr hpos)).mp hrows
  obtain ⟨skip, hskip⟩ : ∃ n, n = if (decide (flags &&& 0x80 ≠ 0)) = true then
    records.length * offBytes.toNat else 0 := ⟨_, rfl⟩
  rw [← hskip] at hbodies hslices
  have hroom := hslices.fits
  -- the index table is what lies between the header and the first record
  have hindexRoom : p + skip ≤ bytes.length := by omega
  obtain ⟨index, hindexLength, hindex⟩ := Octets.exists_isSlice hindexRoom
  have hfront : IsSlice bytes (0, headerBytes flags offBytes records.length roots absent tot root ++
      (index ++ encodeAll (flags &&& 7).toNat records)) := by
    rw [Octets.isSlice_append, Octets.isSlice_append, Nat.zero_add, ← hp, hindexLength]
    exact ⟨hslice, hindex, hslices⟩
  obtain ⟨rest, hrest⟩ := Octets.isSlice_zero.mp hfront
  let bag : Bag := ⟨flags, offBytes, roots, absent, tot, root, index, records, rest⟩
  have hencode : bag.encode = bytes := by
    rw [hrest]
    simp only [bag, Bag.encode, Bag.header, Bag.refSize, List.append_assoc]
  have hbodyEnd : bag.bodyEnd = e := by
    rw [Bag.bodyEnd, hencode, he]
    rfl
  have hstart : bag.sectionStart = p + skip := by
    rw [Bag.sectionStart, Bag.header, hp, ← hindexLength]
  refine ⟨bag, hencode, ?_, rfl, rfl⟩
  refine ⟨hsize, hoff, hpos, hcount, hcountLt, hroots, habsent, htot, hroot, ?_, hrecords, ?_, ?_⟩
  · exact hindexLength.trans hskip
  · rw [hbodyEnd, hstart]
    exact hbodies
  · rw [hencode, hbodyEnd]
    exact hcrc

theorem readRaw_eq_ok :
    readRaw bytes = .ok (h, rows) ↔
      ∃ bag : Bag, bag.encode = bytes ∧ bag.Fits ∧ h = bag.toHeader ∧ rows = bag.table := by
  constructor
  · exact readRaw_sound hlen
  · rintro ⟨bag, rfl, hbag, rfl, rfl⟩
    exact hbag.readRaw_encode hlen

/-- A text is accepted exactly if it is that of a bag that passes the checks, and the cell read from
    it is the one that the bag's root stands for. -/
theorem fromBoc_eq_ok :
    fromBoc bytes = .ok c ↔ ∃ bag : Bag, bag.Accepted bytes ∧ Unfolds bag.table bag.root c := by
  unfold fromBoc
  rw [bind_eq_ok]
  constructor
  · rintro ⟨⟨h, rows⟩, hraw, hrebuild⟩
    obtain ⟨bag, hencode, hbag, rfl, rfl⟩ := (readRaw_eq_ok hlen).mp hraw
    have hcount : bag.toHeader.cellCount = bag.table.length := (bag.length_table).symm
    dsimp only at hrebuild
    rw [hcount] at hrebuild
    obtain ⟨built, hbuilt, hroot⟩ := bind_eq_ok.mp hrebuild
    simp only [bind_eq_ok, index_eq_ok, orNothing_eq_ok] at hroot
    obtain ⟨_, hroot, rfl⟩ := hroot
    have hdone := (rebuild_spec (rebuilt_start bag.table) (Nat.le_refl _)).2 _ hbuilt
    refine ⟨bag, ⟨hencode, hbag, ?_, fun i d => hdone.shallow⟩, ?_⟩
    · exact fun i => hdone.forward i (Nat.zero_le i)
    obtain ⟨d, hd, _, hcell, _⟩ := hdone.built bag.root (Nat.zero_le _)
      (by rw [bag.length_table]; exact hbag.root_lt)
    obtain rfl := Option.some.inj (Option.some.inj (hroot.symm.trans hcell))
    exact hd
  · rintro ⟨bag, hbag, hunfolds⟩
    have hcount : bag.toHeader.cellCount = bag.table.length := (bag.length_table).symm
    refine ⟨_, (readRaw_eq_ok hlen).mpr ⟨bag, hbag.encode_eq, hbag.fits, rfl, rfl⟩, ?_⟩
    obtain ⟨built, hbuilt, hdone⟩ := rebuild_complete hbag.forward hbag.shallow
      (rebuilt_start bag.table) (Nat.le_refl _)
    obtain ⟨d, hd, _, hcell, _⟩ := hdone.built bag.root (Nat.zero_le _) hunfolds.lt_length
    obtain rfl := hunfolds.unique hd
    dsimp only
    rw [hcount, hbuilt, ok_bind]
    simp only [bind_eq_ok, index_eq_ok, orNothing_eq_ok]
    exact ⟨some c, hcell, rfl⟩

/-- No text makes the reader panic. -/
theorem quiet_fromBoc : Quiet (fromBoc bytes) := by
  refine (quiet_readRaw hlen).bind fun a ha => ?_
  obtain ⟨h, rows⟩ := a
  obtain ⟨bag, _, hbag, rfl, rfl⟩ := (readRaw_eq_ok hlen).mp ha
  have hcount : bag.toHeader.cellCount = bag.table.length := (bag.length_table).symm
  dsimp only
  rw [hcount]
  obtain ⟨hquiet, hdone⟩ := rebuild_spec (rebuilt_start bag.table) (Nat.le_refl _)
  refine hquiet.bind fun built hbuilt => ?_
  refine (quiet_index ?_).bind fun _ _ => quiet_orNothing _
  rw [(hdone _ hbuilt).cells_length, bag.length_table]
  exact hbag.root_lt

end Duckton.Ton.Boc
