/-
  TON cells: the off-chain builder (settlement/cell.rs) and the slice reads that undo it.

  A cell is a bit string with ordered references. The source keeps the bits packed in bytes, the
  model as a list. `Slice` is a read cursor: what is left of a cell. Every store below comes
  with the lemma that the matching load gives the value back and leaves the rest.
-/
import Duckton.Lib.Bits
import Duckton.Proto.Value
import Duckton.Ton.Common

namespace Duckton.Ton

open Duckton.Proto

/-- An ordinary, level-0 cell. -/
inductive Cell where
  | mk (bits : List Bool) (refs : List Cell)
  deriving Repr

variable (c : Cell)

namespace Cell

def bits : Cell → List Bool
  | mk bits _ => bits

def refs : Cell → List Cell
  | mk _ refs => refs

@[simp] theorem bits_mk (b : List Bool) (r : List Cell) : (mk b r).bits = b := rfl

@[simp] theorem refs_mk (b : List Bool) (r : List Cell) : (mk b r).refs = r := rfl

/-! ## The representation hash -/

mutual

/-- 0 for a cell without references, else one more than the deepest child. -/
def depth : Cell → Nat
  | mk _ refs => depthRefs refs

def depthRefs : List Cell → Nat
  | [] => 0
  | c :: cs => max (depth c + 1) (depthRefs cs)

end

def descriptor : Bytes :=
  let full := c.bits.length / 8
  [UInt8.ofNat c.refs.length,
    UInt8.ofNat (if c.bits.length % 8 = 0 then 2 * full else 2 * full + 1)]

/-- The bits, completed to whole bytes by a `1` and zeros if they do not fill them. -/
def augmented (bits : List Bool) : List Bool :=
  let rem := bits.length % 8
  if rem = 0 then bits else bits ++ true :: List.replicate (7 - rem) false

/-- Eight bits to a byte, from the front. -/
def packBits : (bytes : Nat) → List Bool → Bytes
  | 0, _ => []
  | n + 1, bits => UInt8.ofNat (Bits.toNat (bits.take 8)) :: packBits n (bits.drop 8)

/-- `data` after bit augmentation. -/
def augmentedData : Bytes :=
  packBits ((c.bits.length + 7) / 8) (augmented c.bits)

/-- A digest as 32 big-endian bytes. -/
def hashBytes (h : BitVec 256) : Bytes :=
  packBits 32 (Bits.ofNat 256 h.toNat)

def depthBytes : Bytes :=
  packBits 2 (Bits.ofNat 16 c.depth)

mutual

/-- `repr_hash`, over the SHA-256 that the contract language and the source share. -/
def reprHash (sha256 : Bytes → BitVec 256) : Cell → BitVec 256
  | mk bits refs =>
    sha256 (descriptor (mk bits refs) ++ augmentedData (mk bits refs) ++
      refs.flatMap depthBytes ++ reprHashes sha256 refs)

def reprHashes (sha256 : Bytes → BitVec 256) : List Cell → Bytes
  | [] => []
  | c :: cs => hashBytes (reprHash sha256 c) ++ reprHashes sha256 cs

end

theorem length_packBits (n : Nat) (bs : List Bool) : (packBits n bs).length = n := by
  induction n generalizing bs with
  | zero => rfl
  | succ n ih => simp [packBits, ih]

theorem packBits_append {n : Nat} (m : Nat) {bs : List Bool} (cs : List Bool)
    (h : bs.length = n * 8) : packBits (n + m) (bs ++ cs) = packBits n bs ++ packBits m cs := by
  induction n generalizing bs with
  | zero =>
    have hnil : bs = [] := List.length_eq_zero_iff.mp (by omega)
    simp [hnil, packBits]
  | succ n ih =>
    have hlen : 8 ≤ bs.length := by omega
    have hrest : (bs.drop 8).length = n * 8 := by
      rw [List.length_drop]
      omega
    rw [Nat.succ_add, packBits, packBits, List.take_append_of_le_length hlen,
      List.drop_append_of_le_length hlen, ih hrest]
    rfl

theorem packBits_inj {n : Nat} {bs cs : List Bool} (hb : bs.length = n * 8)
    (hc : cs.length = n * 8) (h : packBits n bs = packBits n cs) : bs = cs := by
  induction n generalizing bs cs with
  | zero =>
    rw [List.length_eq_zero_iff.mp (by omega : bs.length = 0),
      List.length_eq_zero_iff.mp (by omega : cs.length = 0)]
  | succ n ih =>
    rw [packBits, packBits, List.cons.injEq] at h
    have htake : ∀ ds : List Bool, ds.length = (n + 1) * 8 → (ds.take 8).length = 8 := by
      intro ds hd
      rw [List.length_take]
      omega
    have hbyte : Bits.toNat (bs.take 8) = Bits.toNat (cs.take 8) := by
      have hblt := Bits.toNat_lt (bs.take 8)
      have hclt := Bits.toNat_lt (cs.take 8)
      rw [htake bs hb] at hblt
      rw [htake cs hc] at hclt
      have hnat := congrArg UInt8.toNat h.1
      rw [UInt8.toNat_ofNat', UInt8.toNat_ofNat', Nat.mod_eq_of_lt hblt, Nat.mod_eq_of_lt hclt]
        at hnat
      exact hnat
    have hfirst : bs.take 8 = cs.take 8 := by
      have hbs := Bits.ofNat_toNat (bs.take 8)
      have hcs := Bits.ofNat_toNat (cs.take 8)
      rw [htake bs hb, hbyte] at hbs
      rw [htake cs hc] at hcs
      exact hbs.symm.trans hcs
    have hrest : bs.drop 8 = cs.drop 8 := by
      refine ih ?_ ?_ h.2
      all_goals
        rw [List.length_drop]
        omega
    rw [← List.take_append_drop 8 bs, hfirst, hrest, List.take_append_drop]

@[simp] theorem length_hashBytes (h : BitVec 256) : (hashBytes h).length = 32 :=
  length_packBits 32 _

theorem hashBytes_inj {h h' : BitVec 256} (heq : hashBytes h = hashBytes h') : h = h' := by
  have hbits := packBits_inj (by rw [Bits.length_ofNat]) (by rw [Bits.length_ofNat]) heq
  rw [Bits.ofNat_inj, Nat.mod_eq_of_lt h.isLt, Nat.mod_eq_of_lt h'.isLt] at hbits
  exact BitVec.eq_of_toNat_eq hbits

/-! ## Building -/

def empty : Cell :=
  mk [] []

def storeBits (bs : List Bool) : Cell :=
  mk (c.bits ++ bs) c.refs

/-- The low `nbits` of `value`, most significant bit first. -/
def storeUint (value nbits : Nat) : Cell :=
  c.storeBits (Bits.ofNat nbits value)

/-- Two's complement in `nbits`. -/
def storeInt (value : Int) (nbits : Nat) : Cell :=
  c.storeUint (value % 2 ^ nbits).toNat nbits

def storeU256 (h : BitVec 256) : Cell :=
  c.storeUint h.toNat 256

/-- The bytes a `coins` value takes. -/
def coinsLen (value : Nat) : Nat :=
  if value = 0 then 0 else (Nat.log2 value + 1 + 7) / 8

/-- VarUInteger 16: the length in four bits, then that many big-endian bytes. -/
def storeCoins (value : Nat) : Cell :=
  let used := coinsLen value
  (c.storeUint used 4).storeBits
    ((List.range used).reverse.flatMap fun i => Bits.ofNat 8 (value / 2 ^ (i * 8)))

def storeRef (c child : Cell) : Cell :=
  mk c.bits (c.refs ++ [child])

/-- `store_maybe_ref`: one bit, and the reference if there is one. -/
def storeMaybeRef : Option Cell → Cell
  | none => c.storeUint 0 1
  | some child => (c.storeUint 1 1).storeRef child

/-- All bits and references of `other`. -/
def storeCellInline (c other : Cell) : Cell :=
  mk (c.bits ++ other.bits) (c.refs ++ other.refs)

end Cell

/-- A digest for worked examples, which keeps short texts apart. -/
def foldDigest (bytes : Bytes) : BitVec 256 :=
  bytes.foldl (fun h b => h * 65599 + BitVec.ofNat 256 (b.toNat + 1)) 0

/-! ## Addresses -/

/-- `WalletAddress`: the workchain is an `i32`, of which an encoded address keeps eight bits. -/
structure WalletAddress where
  workchain : BitVec 32
  hash : BitVec 256
  deriving DecidableEq, Repr

/-- The account an encoded wallet address names on chain. -/
def WalletAddress.onchain (a : WalletAddress) : Address :=
  ⟨a.workchain.setWidth 8, a.hash⟩

/-- `addr_std` without anycast: `100`, workchain, account id. -/
def Address.toBits (a : Address) : List Bool :=
  [true, false, false] ++ Bits.ofNat 8 a.workchain.toNat ++ Bits.ofNat 256 a.hash.toNat

def Cell.storeAddress (a : WalletAddress) : Cell :=
  ((c.storeUint 0b100 3).storeInt a.workchain.toInt 8).storeU256 a.hash

theorem int32_low_byte (w : BitVec 32) : (w.toInt % 2 ^ 8).toNat = (w.setWidth 8).toNat := by
  rw [BitVec.toNat_setWidth, BitVec.toInt_eq_toNat_cond]
  split <;> omega

/-- What is stored of a wallet address is its on-chain account. -/
theorem Cell.storeAddress_eq (a : WalletAddress) :
    c.storeAddress a = c.storeBits a.onchain.toBits := by
  unfold Cell.storeAddress Cell.storeInt Cell.storeU256 Cell.storeUint Cell.storeBits
    Address.toBits WalletAddress.onchain
  rw [int32_low_byte]
  simp only [Cell.bits_mk, Cell.refs_mk, List.append_assoc]
  rfl

theorem Address.length_toBits (a : Address) : a.toBits.length = 267 := by
  unfold Address.toBits
  rw [List.length_append, List.length_append, Bits.length_ofNat, Bits.length_ofNat]
  rfl

theorem Address.toBits_inj {a b : Address} : a.toBits = b.toBits ↔ a = b := by
  refine ⟨fun h => ?_, fun h => congrArg _ h⟩
  unfold Address.toBits at h
  rw [List.append_assoc, List.append_assoc, List.append_cancel_left_eq] at h
  obtain ⟨hw, hh⟩ := List.append_inj h (by rw [Bits.length_ofNat, Bits.length_ofNat])
  rw [Bits.ofNat_inj, Nat.mod_eq_of_lt a.workchain.isLt, Nat.mod_eq_of_lt b.workchain.isLt] at hw
  rw [Bits.ofNat_inj, Nat.mod_eq_of_lt a.hash.isLt, Nat.mod_eq_of_lt b.hash.isLt] at hh
  have hwork : a.workchain = b.workchain := BitVec.eq_of_toNat_eq hw
  have hhash : a.hash = b.hash := BitVec.eq_of_toNat_eq hh
  cases a
  cases b
  rw [Address.mk.injEq]
  exact ⟨hwork, hhash⟩

/-! ## Reading -/

/-- What is left to read of a cell. -/
structure Slice where
  bits : List Bool
  refs : List Cell
  deriving Repr

def Cell.toSlice : Slice :=
  ⟨c.bits, c.refs⟩

namespace Slice

variable (s : Slice)

def loadBits (n : Nat) : Option (List Bool × Slice) :=
  if n ≤ s.bits.length then some (s.bits.take n, ⟨s.bits.drop n, s.refs⟩) else none

def loadUint (n : Nat) : Option (Nat × Slice) :=
  (s.loadBits n).map fun r => (Bits.toNat r.1, r.2)

def loadU256 : Option (BitVec 256 × Slice) :=
  (s.loadUint 256).map fun r => (BitVec.ofNat 256 r.1, r.2)

def loadCoins : Option (Nat × Slice) := do
  let (len, s) ← s.loadUint 4
  s.loadUint (len * 8)

/-- A standard address; the other forms do not parse as an internal one. -/
def loadAddress : Option (Address × Slice) := do
  let (tag, s) ← s.loadBits 3
  if tag = [true, false, false] then
    let (workchain, s) ← s.loadUint 8
    let (hash, s) ← s.loadU256
    some (⟨BitVec.ofNat 8 workchain, hash⟩, s)
  else none

def loadRef : Option (Cell × Slice) :=
  match s.refs with
  | [] => none
  | c :: cs => some (c, ⟨s.bits, cs⟩)

/-- A dictionary: its root, if it is not empty. -/
def loadDict : Option (Option Cell × Slice) := do
  let (tag, s) ← s.loadBits 1
  if tag = [true] then
    let (root, s) ← s.loadRef
    some (some root, s)
  else some (none, s)

def loadMaybeRef : Option (Option Cell × Slice) :=
  s.loadDict

theorem loadBits_append (bs rest : List Bool) (refs : List Cell) :
    (⟨bs ++ rest, refs⟩ : Slice).loadBits bs.length = some (bs, ⟨rest, refs⟩) := by
  unfold loadBits
  rw [if_pos (by rw [List.length_append]; omega), List.take_left, List.drop_left]

theorem loadUint_ofNat (n v : Nat) (rest : List Bool) (refs : List Cell) :
    (⟨Bits.ofNat n v ++ rest, refs⟩ : Slice).loadUint n = some (v % 2 ^ n, ⟨rest, refs⟩) := by
  have hload := loadBits_append (Bits.ofNat n v) rest refs
  rw [Bits.length_ofNat] at hload
  unfold loadUint
  rw [hload, Option.map_some, Bits.toNat_ofNat]

theorem loadUint_append {n v : Nat} (h : v < 2 ^ n) (rest : List Bool) (refs : List Cell) :
    (⟨Bits.ofNat n v ++ rest, refs⟩ : Slice).loadUint n = some (v, ⟨rest, refs⟩) := by
  rw [loadUint_ofNat, Nat.mod_eq_of_lt h]

theorem loadU256_append (h : BitVec 256) (rest : List Bool) (refs : List Cell) :
    (⟨Bits.ofNat 256 h.toNat ++ rest, refs⟩ : Slice).loadU256 = some (h, ⟨rest, refs⟩) := by
  unfold loadU256
  rw [loadUint_append h.isLt, Option.map_some, BitVec.ofNat_toNat, BitVec.setWidth_eq]

theorem loadAddress_append (a : Address) (rest : List Bool) (refs : List Cell) :
    (⟨a.toBits ++ rest, refs⟩ : Slice).loadAddress = some (a, ⟨rest, refs⟩) := by
  unfold Address.toBits loadAddress
  rw [List.append_assoc, List.append_assoc]
  have htag := loadBits_append [true, false, false]
    (Bits.ofNat 8 a.workchain.toNat ++ (Bits.ofNat 256 a.hash.toNat ++ rest)) refs
  rw [List.length_cons, List.length_cons, List.length_cons, List.length_nil] at htag
  simp only [htag, Option.bind_eq_bind, Option.bind_some, if_true,
    loadUint_append a.workchain.isLt, loadU256_append, BitVec.ofNat_toNat, BitVec.setWidth_eq]

theorem loadBits_eq_some {s s' : Slice} {n : Nat} {bs : List Bool}
    (h : s.loadBits n = some (bs, s')) : bs.length = n ∧ s.bits = bs ++ s'.bits := by
  unfold loadBits at h
  split at h
  · rename_i hle
    cases h
    exact ⟨List.length_take_of_le hle, (List.take_append_drop n s.bits).symm⟩
  · cases h

theorem loadUint_eq_some {s s' : Slice} {n v : Nat} (h : s.loadUint n = some (v, s')) :
    v < 2 ^ n ∧ s.bits = Bits.ofNat n v ++ s'.bits := by
  obtain ⟨⟨bs, s''⟩, hload, heq⟩ := Option.map_eq_some_iff.mp h
  cases heq
  obtain ⟨rfl, hbits⟩ := loadBits_eq_some hload
  rw [Bits.ofNat_toNat]
  exact ⟨Bits.toNat_lt bs, hbits⟩

/-- An address is read only off the bits it is stored as. -/
theorem loadAddress_eq_some {s s' : Slice} {a : Address} (h : s.loadAddress = some (a, s')) :
    s.bits = a.toBits ++ s'.bits := by
  unfold loadAddress loadU256 at h
  simp only [Option.bind_eq_bind, Option.bind_eq_some_iff] at h
  obtain ⟨⟨tag, s₁⟩, htag, h⟩ := h
  split at h
  · rename_i hstd
    simp only [Option.bind_eq_some_iff] at h
    obtain ⟨⟨workchain, s₂⟩, hwork, ⟨hash, s₃⟩, hhash, h⟩ := h
    cases h
    obtain ⟨⟨hashValue, _⟩, hload, heq⟩ := Option.map_eq_some_iff.mp hhash
    cases heq
    obtain ⟨-, hbits₁⟩ := loadBits_eq_some htag
    obtain ⟨hwlt, hbits₂⟩ := loadUint_eq_some hwork
    obtain ⟨hhlt, hbits₃⟩ := loadUint_eq_some hload
    dsimp only at hstd hbits₁ hbits₂
    rw [hbits₁, hstd, hbits₂, hbits₃, Address.toBits, BitVec.toNat_ofNat, BitVec.toNat_ofNat,
      Nat.mod_eq_of_lt hwlt, Nat.mod_eq_of_lt hhlt]
    simp only [List.append_assoc]
  · cases h

end Slice

/-! ### Coins -/

theorem coins_bytes (value used : Nat) :
    ((List.range used).reverse.flatMap fun i => Bits.ofNat 8 (value / 2 ^ (i * 8))) =
      Bits.ofNat (used * 8) value := by
  induction used with
  | zero => rfl
  | succ u ih =>
    rw [List.range_succ, List.reverse_append, List.reverse_singleton, List.singleton_append,
      List.flatMap_cons, ih, Nat.succ_mul, Nat.add_comm (u * 8) 8, Bits.ofNat_add]

theorem lt_coinsLen (value : Nat) : value < 2 ^ (Cell.coinsLen value * 8) := by
  unfold Cell.coinsLen
  split
  · rename_i h
    rw [h]
    decide
  · have hlog : value < 2 ^ (Nat.log2 value + 1) := Nat.lt_log2_self
    refine lt_of_lt_of_le hlog (Nat.pow_le_pow_right (by decide) ?_)
    omega

theorem coinsLen_lt {value : Nat} (h : value < 2 ^ 120) : Cell.coinsLen value < 2 ^ 4 := by
  unfold Cell.coinsLen
  split
  · decide
  · rename_i hne
    have hlog : Nat.log2 value < 120 := (Nat.log2_lt hne).mpr h
    omega

/-- What is stored for a `coins` value. -/
def coinsBits (value : Nat) : List Bool :=
  Bits.ofNat 4 (Cell.coinsLen value) ++ Bits.ofNat (Cell.coinsLen value * 8) value

theorem Cell.storeCoins_eq (value : Nat) : c.storeCoins value = c.storeBits (coinsBits value) := by
  unfold Cell.storeCoins Cell.storeUint Cell.storeBits coinsBits
  dsimp only
  rw [coins_bytes]
  simp only [Cell.bits_mk, Cell.refs_mk, List.append_assoc]

/-- Coins below the 120-bit ceiling are read back. -/
theorem Slice.loadCoins_append {value : Nat} (h : value < 2 ^ 120) (rest : List Bool)
    (refs : List Cell) :
    (⟨coinsBits value ++ rest, refs⟩ : Slice).loadCoins = some (value, ⟨rest, refs⟩) := by
  unfold Slice.loadCoins coinsBits
  rw [List.append_assoc, Slice.loadUint_append (coinsLen_lt h)]
  exact Slice.loadUint_append (lt_coinsLen value) rest refs

end Duckton.Ton
