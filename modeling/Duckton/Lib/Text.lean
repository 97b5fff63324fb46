/-
  String functions of the Rust standard library, on lists of characters.
-/
import Mathlib.Algebra.Group.Nat.Defs
import Mathlib.Data.List.Infix

namespace Text

/-- `char::is_whitespace`, the Unicode property White_Space. -/
def isWhitespace (c : Char) : Bool :=
  let n := c.toNat
  (9 ≤ n && n ≤ 13) || n == 0x20 || n == 0x85 || n == 0xA0 || n == 0x1680 ||
    (0x2000 ≤ n && n ≤ 0x200A) || n == 0x2028 || n == 0x2029 || n == 0x202F || n == 0x205F ||
    n == 0x3000

/-- `str::trim` -/
def trim (s : List Char) : List Char :=
  ((s.dropWhile isWhitespace).reverse.dropWhile isWhitespace).reverse

/-- `str::split_once`: the parts before and after the first occurrence. -/
def splitOnce (sep : List Char) : List Char → Option (List Char × List Char)
  | [] => if sep.isEmpty then some ([], []) else none
  | c :: cs =>
    if sep.isPrefixOf (c :: cs) then some ([], (c :: cs).drop sep.length)
    else (splitOnce sep cs).map fun (before, after) => (c :: before, after)

/-- `str::rsplit_once` at a character: the parts before and after its last occurrence. -/
def rsplitOnce (sep : Char) (s : List Char) : Option (List Char × List Char) :=
  (splitOnce [sep] s.reverse).map fun (after, before) => (before.reverse, after.reverse)

/-- `str::split` at the characters that satisfy `p`. -/
def split (p : Char → Bool) : List Char → List (List Char)
  | [] => [[]]
  | c :: cs =>
    if p c then [] :: split p cs
    else match split p cs with
      | [] => [[c]]
      | part :: parts => (c :: part) :: parts

/-- `str::replace` of a character. -/
def replace (c : Char) (text s : List Char) : List Char :=
  s.flatMap fun d => if d = c then text else [d]

/-- `str::parse` of an unsigned integer of `w` bits: digits, perhaps after a plus sign. -/
def parseUnsigned (w : Nat) (s : List Char) : Option Nat :=
  let digits := match s with
    | '+' :: rest => rest
    | s => s
  if digits.isEmpty || !digits.all Char.isDigit then none
  else
    let n := digits.foldl (fun n c => 10 * n + (c.toNat - 48)) 0
    if n < 2 ^ w then some n else none

/-- `str::parse` of a signed integer of `w` bits: digits, perhaps after a sign. -/
def parseSigned (w : Nat) (s : List Char) : Option Int :=
  let (negative, digits) := match s with
    | '-' :: rest => (true, rest)
    | '+' :: rest => (false, rest)
    | s => (false, s)
  if digits.isEmpty || !digits.all Char.isDigit then none
  else
    let n : Nat := digits.foldl (fun n c => 10 * n + (c.toNat - 48)) 0
    if negative then if n ≤ 2 ^ (w - 1) then some (-n) else none
    else if n < 2 ^ (w - 1) then some n else none

/-- `str::to_ascii_lowercase` -/
def toAsciiLowercase (s : List Char) : List Char :=
  s.map Char.toLower

/-- `str::eq_ignore_ascii_case` -/
def eqIgnoreAsciiCase (s t : List Char) : Bool :=
  toAsciiLowercase s == toAsciiLowercase t

/-- `str::contains` -/
def contains (needle s : List Char) : Bool :=
  decide (needle <:+: s)

/-- `to_string` of a signed integer. -/
def ofInt (i : Int) : List Char :=
  if i < 0 then '-' :: (toString i.natAbs).toList else (toString i.natAbs).toList

/-! ## Bytes -/

def toUtf8 (s : List Char) : List UInt8 :=
  s.flatMap String.utf8EncodeChar

/-- How many bytes one U+FFFD stands for: a lead byte with what could have gone on from it. -/
def illFormedLen : List UInt8 → Nat
  | lead :: second :: rest =>
    let low := if lead = 0xE0 then 0xA0 else if lead = 0xF0 then 0x90 else 0x80
    let high := if lead = 0xED then 0x9F else if lead = 0xF4 then 0x8F else 0xBF
    if lead < 0xE0 ∨ 0xF4 < lead ∨ second < low ∨ high < second then 1
    else if 0xF0 ≤ lead ∧ ∃ third ∈ rest.head?, 0x80 ≤ third ∧ third ≤ 0xBF then 3
    else 2
  | _ => 1

/-- `String::from_utf8_lossy` -/
def fromUtf8Lossy : List UInt8 → List Char
  | [] => []
  | b :: bytes =>
    match (b :: bytes).toByteArray.utf8DecodeChar? 0 with
    | some c => c :: fromUtf8Lossy (bytes.drop (c.utf8Size - 1))
    | none => '\uFFFD' :: fromUtf8Lossy (bytes.drop (illFormedLen (b :: bytes) - 1))
termination_by bytes => bytes.length
decreasing_by all_goals simp only [List.length_drop, List.length_cons]; omega

theorem fromUtf8Lossy_encode (c : Char) (bytes : List UInt8) :
    fromUtf8Lossy (String.utf8EncodeChar c ++ bytes) = c :: fromUtf8Lossy bytes := by
  have hlen := String.length_utf8EncodeChar c
  have hfirst : (String.utf8EncodeChar c ++ bytes).toByteArray.utf8DecodeChar? 0 = some c := by
    rw [List.toByteArray_append]
    exact ByteArray.utf8DecodeChar?_utf8EncodeChar_append
  cases hcode : String.utf8EncodeChar c with
  | nil => exact absurd hcode String.utf8EncodeChar_ne_nil
  | cons b code =>
    rw [hcode] at hlen hfirst
    rw [List.cons_append] at hfirst ⊢
    rw [fromUtf8Lossy, hfirst]
    dsimp only
    rw [List.drop_left' (by rw [← hlen]; rfl)]

/-- What was UTF-8 is read as the text it is. -/
theorem fromUtf8Lossy_append (s : List Char) (bytes : List UInt8) :
    fromUtf8Lossy (toUtf8 s ++ bytes) = s ++ fromUtf8Lossy bytes := by
  induction s with
  | nil => rfl
  | cons c s ih =>
    rw [toUtf8, List.flatMap_cons, List.append_assoc, fromUtf8Lossy_encode]
    exact congrArg (c :: ·) ih

theorem fromUtf8Lossy_toUtf8 (s : List Char) : fromUtf8Lossy (toUtf8 s) = s := by
  simpa [fromUtf8Lossy] using fromUtf8Lossy_append s []

theorem exists_of_decode {bytes : List UInt8} {c : Char}
    (h : bytes.toByteArray.utf8DecodeChar? 0 = some c) :
    ∃ rest, bytes = String.utf8EncodeChar c ++ rest := by
  obtain ⟨rest, hrest⟩ := ByteArray.exists_of_utf8DecodeChar?_eq_some h
  exact ⟨rest.data.toList, by simpa using congrArg (fun a : ByteArray => a.data.toList) hrest⟩

/-- Without U+FFFD in the text nothing was replaced. -/
theorem toUtf8_fromUtf8Lossy (bytes : List UInt8) (h : '\uFFFD' ∉ fromUtf8Lossy bytes) :
    toUtf8 (fromUtf8Lossy bytes) = bytes := by
  fun_induction fromUtf8Lossy bytes with
  | case1 => rfl
  | case2 b bytes c hfirst ih =>
    obtain ⟨rest, hbytes⟩ := exists_of_decode hfirst
    have hrest : bytes.drop (c.utf8Size - 1) = rest := by
      have hcode := c.utf8Size_pos
      rw [← List.drop_succ_cons (a := b), hbytes, Nat.sub_add_cancel hcode]
      exact List.drop_left' (String.length_utf8EncodeChar c)
    rw [hbytes, toUtf8, List.flatMap_cons]
    exact congrArg (_ ++ ·) ((ih (List.not_mem_of_not_mem_cons h)).trans hrest)
  | case3 => exact absurd List.mem_cons_self h

theorem fromUtf8Lossy_0xFF (bytes : List UInt8) :
    fromUtf8Lossy (0xFF :: bytes) = '\uFFFD' :: fromUtf8Lossy bytes := by
  have hlen : illFormedLen (0xFF :: bytes) = 1 := by
    cases bytes <;> simp [illFormedLen]
  cases hfirst : (0xFF :: bytes).toByteArray.utf8DecodeChar? 0 with
  | none => rw [fromUtf8Lossy, hfirst, hlen]; rfl
  | some c =>
    -- no character's code starts with this byte
    obtain ⟨rest, hbytes⟩ := exists_of_decode hfirst
    have hbyte := @UInt8.isUTF8FirstByte_getElem_zero_utf8EncodeChar c
    cases hcode : String.utf8EncodeChar c with
    | nil => exact absurd hcode String.utf8EncodeChar_ne_nil
    | cons b code =>
      rw [hcode, List.cons_append, List.cons.injEq] at hbytes
      simp only [hcode, List.getElem_cons_zero, ← hbytes.1] at hbyte
      exact absurd hbyte (by decide)

/-- Bytes are known from their text unless it has a U+FFFD, which may stand for anything. -/
theorem fromUtf8Lossy_determines {bytes : List UInt8} :
    (∀ bytes', fromUtf8Lossy bytes' = fromUtf8Lossy bytes → bytes' = bytes) ↔
      '\uFFFD' ∉ fromUtf8Lossy bytes := by
  constructor
  · intro h hmem
    obtain ⟨before, after, hsplit⟩ := List.append_of_mem hmem
    have hgood := h (toUtf8 (before ++ '\uFFFD' :: after))
      (by rw [fromUtf8Lossy_toUtf8, hsplit])
    have hbad := h (toUtf8 before ++ 0xFF :: toUtf8 after)
      (by rw [fromUtf8Lossy_append, fromUtf8Lossy_0xFF, fromUtf8Lossy_toUtf8, hsplit])
    rw [← hgood] at hbad
    unfold toUtf8 at hbad
    rw [List.flatMap_append, List.append_cancel_left_eq] at hbad
    exact absurd (List.cons.inj hbad).1 (by decide)
  · intro h bytes' heq
    rw [← toUtf8_fromUtf8Lossy bytes h, ← heq, toUtf8_fromUtf8Lossy bytes' (heq ▸ h)]

theorem isDigit_of_mem_toString {n : Nat} {c : Char} (hc : c ∈ (toString n).toList) :
    c.isDigit = true := by
  rw [Nat.toString_eq_repr, Nat.toList_repr] at hc
  exact Nat.isDigit_of_mem_toDigits (by decide) (by decide) hc

theorem toString_inj {n m : Nat} (h : (toString n).toList = (toString m).toList) : n = m := by
  rw [Nat.toString_eq_repr, Nat.toString_eq_repr, Nat.toList_repr, Nat.toList_repr] at h
  have hvalue := congrArg (Nat.ofDigitChars 10 · 0) h
  simpa [Nat.ofDigitChars_toDigits] using hvalue

theorem ofInt_inj {i j : Int} : ofInt i = ofInt j ↔ i = j := by
  have hsign : ∀ {n : Nat} {s : List Char}, (toString n).toList ≠ '-' :: s := fun h =>
    absurd (isDigit_of_mem_toString (h ▸ List.mem_cons_self)) (by decide)
  refine ⟨fun h => ?_, congrArg ofInt⟩
  unfold ofInt at h
  split_ifs at h
  · have habs := toString_inj (List.cons.inj h).2
    omega
  · exact absurd h.symm hsign
  · exact absurd h hsign
  · have habs := toString_inj h
    omega

theorem nul_not_mem_ofInt (i : Int) : '\x00' ∉ ofInt i := by
  have hdigits : '\x00' ∉ (toString i.natAbs).toList := fun h =>
    absurd (isDigit_of_mem_toString h) (by decide)
  unfold ofInt
  split
  · exact List.not_mem_cons_of_ne_of_not_mem (by decide) hdigits
  · exact hdigits

end Text
