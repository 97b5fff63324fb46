/-
  The texts of a TON address (settlement/types.rs): the raw form `workchain:hex` and the friendly
  base64 form with its checksum.

  One account has many texts. The hex digits may be of either case, the workchain may carry a plus
  sign, a friendly text has flag bits and two alphabets, and blanks around a text are dropped.
  `fromAnyStr` is what says that two texts name the same account.
-/
import Duckton.Lib.Text
import Duckton.Ton.Cell
import Duckton.Trust.Attestation

namespace Duckton.Settlement

open Duckton.Proto
open Duckton.Ton (WalletAddress)

/-! ## Base64 and the checksum -/

/-- The alphabets of `b64_decode`, standard and url-safe. -/
def b64Value (c : Char) : Option UInt32 :=
  if 'A' ≤ c ∧ c ≤ 'Z' then some (UInt32.ofNat (c.toNat - 65))
  else if 'a' ≤ c ∧ c ≤ 'z' then some (UInt32.ofNat (c.toNat - 97 + 26))
  else if '0' ≤ c ∧ c ≤ '9' then some (UInt32.ofNat (c.toNat - 48 + 52))
  else if c = '+' ∨ c = '-' then some 62
  else if c = '/' ∨ c = '_' then some 63
  else none

/-- The loop of `b64_decode`, with the bits that are not yet out. -/
def b64Loop (buf bits : UInt32) : List Char → Option Bytes
  | [] => some []
  | c :: rest =>
    (b64Value c).bind fun v =>
      let buf := buf <<< 6 ||| v
      let bits := bits + 6
      if 8 ≤ bits then
        (b64Loop buf (bits - 8) rest).map ((buf >>> (bits - 8)).toUInt8 :: ·)
      else b64Loop buf bits rest

def b64Decode (s : List Char) : Option Bytes :=
  b64Loop 0 0 (s.reverse.dropWhile (· == '=')).reverse

/-- One bit of `crc16_ccitt`. -/
def crcShift (crc : UInt16) : UInt16 :=
  if crc &&& 0x8000 ≠ 0 then crc <<< 1 ^^^ 0x1021 else crc <<< 1

def crc16Ccitt (data : Bytes) : UInt16 :=
  data.foldl (fun crc b => crcShift^[8] (crc ^^^ b.toUInt16 <<< (8 : UInt16))) 0

/-! ## The two forms -/

def addressHash (bytes : Bytes) : BitVec 256 :=
  BitVec.ofNat 256 (Octets.ofBe bytes)

def fromRawStr (s : List Char) : Option WalletAddress :=
  (Text.splitOnce [':'] s).bind fun (wc, hexpart) =>
    (Text.parseSigned 32 wc).bind fun workchain =>
      (Trust.hexPairs hexpart).bind fun bytes =>
        if bytes.length ≠ 32 then none
        else some ⟨BitVec.ofInt 32 workchain, addressHash bytes⟩

/-- The payload is the tag, the workchain as an `i8`, the account and the checksum of these. -/
def fromBase64Str (s : List Char) : Option WalletAddress :=
  (b64Decode (Text.trim s)).bind fun bytes =>
    if bytes.length ≠ 36 then none
    else if (crc16Ccitt (bytes.take 34)).toNat ≠ Octets.ofBe (bytes.drop 34) then none
    else some ⟨(bytes.getD 1 0).toBitVec.signExtend 32, addressHash ((bytes.drop 2).take 32)⟩

/-- `from_any_str`; the only error is `BadAddress`. -/
def fromAnyStr (text : String) : Option WalletAddress :=
  let t := Text.trim text.toList
  if t.contains ':' then fromRawStr t else fromBase64Str t

end Duckton.Settlement
