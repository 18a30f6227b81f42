import DistributedKv.BigEndian

/-!
# Go's `unicode/utf8` and `unicode.IsSpace`

Decoding the first rune of a byte string, validity of a whole string as
UTF-8, and the white-space property. A byte that cannot start an encoding,
a missing or out-of-range continuation byte, or an empty string decodes as
`RuneError` of width one (zero for the empty string), as Go's
`DecodeRuneInString` does.
-/

set_option autoImplicit false

namespace DistributedKv.Utf8

open DistributedKv.BigEndian (Bytes)

def runeError : ℕ := 0xFFFD

def isCont (b : UInt8) : Bool := 0x80 ≤ b && b ≤ 0xBF

/-- For a byte that starts a multi-byte encoding, the range its second byte
must lie in and the width of the encoding (`first` and `acceptRanges`). -/
def acceptRange (b0 : UInt8) : Option (UInt8 × UInt8 × ℕ) :=
  if 0xC2 ≤ b0 ∧ b0 ≤ 0xDF then some (0x80, 0xBF, 2)
  else if b0 = 0xE0 then some (0xA0, 0xBF, 3)
  else if b0 = 0xED then some (0x80, 0x9F, 3)
  else if 0xE1 ≤ b0 ∧ b0 ≤ 0xEF then some (0x80, 0xBF, 3)
  else if b0 = 0xF0 then some (0x90, 0xBF, 4)
  else if 0xF1 ≤ b0 ∧ b0 ≤ 0xF3 then some (0x80, 0xBF, 4)
  else if b0 = 0xF4 then some (0x80, 0x8F, 4)
  else none

def decodeRune : Bytes → ℕ × ℕ
  | [] => (runeError, 0)
  | b0::rest =>
    if b0 < 0x80 then (b0.toNat, 1) else
    match acceptRange b0, rest with
    | some (lo, hi, 2), b1::_ =>
      if lo ≤ b1 ∧ b1 ≤ hi then (b0.toNat%32*64+b1.toNat%64, 2) else (runeError, 1)
    | some (lo, hi, 3), b1::b2::_ =>
      if lo ≤ b1 ∧ b1 ≤ hi ∧ isCont b2 then
        (b0.toNat%16*4096+b1.toNat%64*64+b2.toNat%64, 3)
      else (runeError, 1)
    | some (lo, hi, 4), b1::b2::b3::_ =>
      if lo ≤ b1 ∧ b1 ≤ hi ∧ isCont b2 ∧ isCont b3 then
        (b0.toNat%8*262144+b1.toNat%64*4096+b2.toNat%64*64+b3.toNat%64, 4)
      else (runeError, 1)
    | _, _ => (runeError, 1)

def valid : Bytes → Bool
  | [] => true
  | b0::rest =>
    if b0 < 0x80 then valid rest else
    match acceptRange b0, rest with
    | some (lo, hi, 2), b1::rest => (lo ≤ b1 && b1 ≤ hi) && valid rest
    | some (lo, hi, 3), b1::b2::rest => (lo ≤ b1 && b1 ≤ hi && isCont b2) && valid rest
    | some (lo, hi, 4), b1::b2::b3::rest =>
      (lo ≤ b1 && b1 ≤ hi && isCont b2 && isCont b3) && valid rest
    | _, _ => false

/-- `unicode.IsSpace`: the Latin-1 spaces, then the other runes with the
Unicode `White_Space` property. -/
def isSpace (r : ℕ) : Bool :=
  if r ≤ 0xFF then
    r = 0x09 || r = 0x0A || r = 0x0B || r = 0x0C || r = 0x0D || r = 0x20 || r = 0x85 ||
      r = 0xA0
  else
    r = 0x1680 || (0x2000 ≤ r && r ≤ 0x200A) || r = 0x2028 || r = 0x2029 || r = 0x202F ||
      r = 0x205F || r = 0x3000

end DistributedKv.Utf8
