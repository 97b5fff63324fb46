/-
  Byte strings: numbers in either byte order, and buffers that are filled slice by slice.

  `foldl_overwrite` is about the second: slices of a text that cover it put it together again in
  whatever order they are written.
-/
import Mathlib.Algebra.Group.Nat.Defs
import Mathlib.Data.List.Basic

namespace Octets

/-! ## Little-endian numbers -/

/-- The lowest `k` bytes of `n`. -/
def toLe : (k n : Nat) → List UInt8
  | 0, _ => []
  | k + 1, n => UInt8.ofNat (n % 256) :: toLe k (n / 256)

variable (bytes : List UInt8)

def ofLe : Nat :=
  bytes.foldr (fun b high => b.toNat + 256 * high) 0

theorem length_toLe (k n : Nat) : (toLe k n).length = k := by
  induction k generalizing n with
  | zero => rfl
  | succ k ih => rw [toLe, List.length_cons, ih]

theorem ofLe_toLe (k n : Nat) : ofLe (toLe k n) = n % 256 ^ k := by
  induction k generalizing n with
  | zero =>
    rw [Nat.pow_zero, Nat.mod_one]
    rfl
  | succ k ih =>
    have hlow : (UInt8.ofNat (n % 256)).toNat = n % 256 := by
      rw [UInt8.toNat_ofNat']
      omega
    show (UInt8.ofNat (n % 256)).toNat + 256 * ofLe (toLe k (n / 256)) = _
    rw [hlow, ih, Nat.pow_succ, Nat.mul_comm (256 ^ k) 256, Nat.mod_mul]

variable {k n m : Nat} {rest rest' : List UInt8}

theorem toLe_inj (hn : n < 256 ^ k) (hm : m < 256 ^ k) (h : toLe k n = toLe k m) :
    n = m := by
  have hvalue := congrArg ofLe h
  rwa [ofLe_toLe, ofLe_toLe, Nat.mod_eq_of_lt hn, Nat.mod_eq_of_lt hm] at hvalue

/-- A number of known width can be told from what follows it. -/
theorem toLe_append_inj (hn : n < 256 ^ k) (hm : m < 256 ^ k)
    (h : toLe k n ++ rest = toLe k m ++ rest') : n = m ∧ rest = rest' := by
  obtain ⟨hnumber, hrest⟩ := List.append_inj h (by rw [length_toLe, length_toLe])
  exact ⟨toLe_inj hn hm hnumber, hrest⟩

/-- So can a text with its length in front. -/
theorem sized_append_inj {s s' : List UInt8} (hs : s.length < 256 ^ k) (hs' : s'.length < 256 ^ k)
    (h : toLe k s.length ++ (s ++ rest) = toLe k s'.length ++ (s' ++ rest')) :
    s = s' ∧ rest = rest' := by
  obtain ⟨hlen, h⟩ := toLe_append_inj hs hs' h
  exact List.append_inj h hlen

theorem toLe_uint64_inj {x y : UInt64} (h : toLe 8 x.toNat = toLe 8 y.toNat) : x = y :=
  UInt64.toNat_inj.mp (toLe_inj x.toNat_lt y.toNat_lt h)

theorem toLe_uint32_inj {x y : UInt32} (h : toLe 4 x.toNat = toLe 4 y.toNat) : x = y :=
  UInt32.toNat_inj.mp (toLe_inj x.toNat_lt y.toNat_lt h)

theorem toLe_ofLe : toLe bytes.length (ofLe bytes) = bytes := by
  induction bytes with
  | nil => rfl
  | cons b bytes ih =>
    have hb : b.toNat < 256 := b.toNat_lt
    have hvalue : ofLe (b :: bytes) = b.toNat + 256 * ofLe bytes := rfl
    have hlow : (b.toNat + 256 * ofLe bytes) % 256 = b.toNat := by omega
    have hhigh : (b.toNat + 256 * ofLe bytes) / 256 = ofLe bytes := by omega
    rw [List.length_cons, hvalue, toLe, hlow, hhigh, ih, UInt8.ofNat_toNat]

theorem ofLe_lt : ofLe bytes < 256 ^ bytes.length := by
  have hvalue := ofLe_toLe bytes.length (ofLe bytes)
  rw [toLe_ofLe] at hvalue
  rw [hvalue]
  exact Nat.mod_lt _ (Nat.pow_pos (by decide))

/-! ## Big-endian numbers -/

/-- The lowest `k` bytes of `n`, the highest of them first. -/
def toBe (k n : Nat) : List UInt8 :=
  (toLe k n).reverse

def ofBe : Nat :=
  bytes.foldl (fun v b => b.toNat + 256 * v) 0

@[simp] theorem length_toBe (k n : Nat) : (toBe k n).length = k := by
  rw [toBe, List.length_reverse, length_toLe]

theorem ofBe_eq : ofBe bytes = ofLe bytes.reverse := by
  rw [ofBe, ofLe, List.foldr_reverse]

theorem ofBe_toBe (h : n < 256 ^ k) : ofBe (toBe k n) = n := by
  rw [ofBe_eq, toBe, List.reverse_reverse, ofLe_toLe, Nat.mod_eq_of_lt h]

theorem toBe_ofBe : toBe bytes.length (ofBe bytes) = bytes := by
  rw [ofBe_eq, toBe, ← List.length_reverse, toLe_ofLe, List.reverse_reverse]

theorem ofBe_lt : ofBe bytes < 256 ^ bytes.length := by
  rw [ofBe_eq, ← List.length_reverse]
  exact ofLe_lt _

theorem toBe_append_inj (hn : n < 256 ^ k) (hm : m < 256 ^ k)
    (h : toBe k n ++ rest = toBe k m ++ rest') : n = m ∧ rest = rest' := by
  obtain ⟨hnumber, hrest⟩ := List.append_inj h (by rw [length_toBe, length_toBe])
  exact ⟨toLe_inj hn hm (List.reverse_injective hnumber), hrest⟩

theorem ofBe_concat (b : UInt8) : ofBe (bytes ++ [b]) = b.toNat + 256 * ofBe bytes := by
  rw [ofBe, List.foldl_append]
  rfl

/-! ## Slices -/

section Slices

variable {α : Type}

def overwrite (buf : List α) (offset : Nat) (raw : List α) : List α :=
  buf.take offset ++ raw ++ buf.drop (offset + raw.length)

variable {buf text : List α} {offset : Nat}

theorem length_overwrite {raw : List α} (h : offset + raw.length ≤ buf.length) :
    (overwrite buf offset raw).length = buf.length := by
  unfold overwrite
  simp only [List.length_append, List.length_take, List.length_drop]
  omega

theorem getElem?_overwrite {raw : List α} (h : offset + raw.length ≤ buf.length) (i : Nat) :
    (overwrite buf offset raw)[i]? =
      if offset ≤ i ∧ i < offset + raw.length then raw[i - offset]? else buf[i]? := by
  have htake : (buf.take offset).length = offset := by
    rw [List.length_take]
    omega
  unfold overwrite
  by_cases hlow : i < offset
  · have hout : ¬ (offset ≤ i ∧ i < offset + raw.length) := by omega
    rw [if_neg hout, List.append_assoc, List.getElem?_append_left (by omega),
      List.getElem?_take_of_lt hlow]
  · by_cases hhigh : i < offset + raw.length
    · rw [if_pos ⟨by omega, hhigh⟩, List.getElem?_append_left (by rw [List.length_append]; omega),
        List.getElem?_append_right (by omega), htake]
    · have hout : ¬ (offset ≤ i ∧ i < offset + raw.length) := by omega
      have hback : offset + raw.length + (i - (offset + raw.length)) = i := by omega
      rw [if_neg hout, List.getElem?_append_right (by rw [List.length_append]; omega),
        List.length_append, htake, List.getElem?_drop, hback]

/-- `part` is the piece of `text` that starts at its offset. -/
structure IsSlice (text : List α) (part : Nat × List α) : Prop where
  fits : part.1 + part.2.length ≤ text.length
  piece : part.2 = (text.drop part.1).take part.2.length

theorem isSlice_append {a b : List α} :
    IsSlice text (offset, a ++ b) ↔
      IsSlice text (offset, a) ∧ IsSlice text (offset + a.length, b) := by
  constructor
  · rintro ⟨hfits, hpiece⟩
    rw [List.length_append] at hfits hpiece
    rw [List.take_add, List.drop_drop] at hpiece
    have hlen : a.length = ((text.drop offset).take a.length).length := by
      rw [List.length_take, List.length_drop]
      omega
    obtain ⟨ha, hb⟩ := List.append_inj hpiece hlen
    exact ⟨⟨by dsimp only; omega, ha⟩, ⟨by dsimp only; omega, hb⟩⟩
  · rintro ⟨⟨_, ha⟩, ⟨hfits, hb⟩⟩
    dsimp only at ha hb hfits
    refine ⟨by dsimp only; rw [List.length_append]; omega, ?_⟩
    rw [List.length_append, List.take_add, List.drop_drop, ← ha, ← hb]

theorem isSlice_nil :
    IsSlice text (offset, []) ↔ offset ≤ text.length :=
  ⟨fun h => h.fits, fun h => ⟨h, rfl⟩⟩

theorem exists_isSlice {n : Nat} (h : offset + n ≤ text.length) :
    ∃ part, part.length = n ∧ IsSlice text (offset, part) := by
  have hlength : ((text.drop offset).take n).length = n := by
    rw [List.length_take, List.length_drop]
    omega
  exact ⟨_, hlength, by dsimp only; omega, by dsimp only; rw [hlength]⟩

theorem isSlice_singleton {a : α} :
    IsSlice text (offset, [a]) ↔ text[offset]? = some a := by
  constructor
  · rintro ⟨hfits, hpiece⟩
    have hlt : offset < text.length := hfits
    rw [List.drop_eq_getElem_cons hlt] at hpiece
    rw [List.getElem?_eq_getElem hlt, (List.cons.inj hpiece).1]
  · intro h
    obtain ⟨hlt, hget⟩ := List.getElem?_eq_some_iff.mp h
    refine ⟨hlt, ?_⟩
    rw [List.drop_eq_getElem_cons hlt, hget]
    rfl

/-- A text that starts with a slice goes on behind it. -/
theorem isSlice_zero {a : List α} : IsSlice text (0, a) ↔ ∃ rest, text = a ++ rest := by
  constructor
  · rintro ⟨_, hpiece⟩
    refine ⟨text.drop a.length, ?_⟩
    dsimp only at hpiece
    rw [List.drop_zero] at hpiece
    nth_rewrite 1 [hpiece]
    rw [List.take_append_drop]
  · rintro ⟨rest, rfl⟩
    refine ⟨by dsimp only; rw [List.length_append]; omega, ?_⟩
    simp

/-- Writing a slice of the text never spoils a place that is right already. -/
theorem getElem?_overwrite_slice {part : Nat × List α}
    (hlen : buf.length = text.length) (hpart : IsSlice text part) {i : Nat}
    (h : buf[i]? = text[i]? ∨ part.1 ≤ i ∧ i < part.1 + part.2.length) :
    (overwrite buf part.1 part.2)[i]? = text[i]? := by
  have hfits := hpart.fits
  rw [getElem?_overwrite (by omega)]
  split_ifs with hin
  · have hback : part.1 + (i - part.1) = i := by omega
    rw [hpart.piece, List.getElem?_take_of_lt (by omega), List.getElem?_drop, hback]
  · exact h.resolve_right hin

variable {parts : List (Nat × List α)}

theorem foldl_overwrite_agrees (hparts : ∀ p ∈ parts, IsSlice text p)
    (hlen : buf.length = text.length) {i : Nat}
    (h : buf[i]? = text[i]? ∨ ∃ p ∈ parts, p.1 ≤ i ∧ i < p.1 + p.2.length) :
    (parts.foldl (fun buf p => overwrite buf p.1 p.2) buf)[i]? = text[i]? := by
  induction parts generalizing buf with
  | nil => exact h.resolve_right fun ⟨p, hp, _⟩ => absurd hp List.not_mem_nil
  | cons p parts ih =>
    have hp : IsSlice text p := hparts p List.mem_cons_self
    have hfits := hp.fits
    have hlen' : (overwrite buf p.1 p.2).length = text.length := by
      rw [length_overwrite (by omega), hlen]
    refine ih (fun q hq => hparts q (List.mem_cons_of_mem _ hq)) hlen' ?_
    rcases h with hbuf | ⟨q, hq, hin⟩
    · exact .inl (getElem?_overwrite_slice hlen hp (.inl hbuf))
    · rcases List.mem_cons.mp hq with rfl | hq
      · exact .inl (getElem?_overwrite_slice hlen hp (.inr hin))
      · exact .inr ⟨q, hq, hin⟩

theorem length_foldl_overwrite (hparts : ∀ p ∈ parts, IsSlice text p)
    (hlen : buf.length = text.length) :
    (parts.foldl (fun buf p => overwrite buf p.1 p.2) buf).length = text.length := by
  induction parts generalizing buf with
  | nil => exact hlen
  | cons p parts ih =>
    have hfits := (hparts p List.mem_cons_self).fits
    refine ih (fun q hq => hparts q (List.mem_cons_of_mem _ hq)) ?_
    rw [length_overwrite (by omega), hlen]

/-- Slices that cover a text make it up, in any order. -/
theorem foldl_overwrite (hparts : ∀ p ∈ parts, IsSlice text p)
    (hcover : ∀ i < text.length, ∃ p ∈ parts, p.1 ≤ i ∧ i < p.1 + p.2.length)
    (hlen : buf.length = text.length) :
    parts.foldl (fun buf p => overwrite buf p.1 p.2) buf = text := by
  apply List.ext_getElem?
  intro i
  by_cases hi : i < text.length
  · exact foldl_overwrite_agrees hparts hlen (.inr (hcover i hi))
  · have hend := length_foldl_overwrite hparts hlen
    rw [List.getElem?_eq_none (by omega), List.getElem?_eq_none (by omega)]

end Slices

end Octets
