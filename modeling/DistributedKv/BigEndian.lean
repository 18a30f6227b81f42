import Mathlib

/-!
# Big-endian byte strings

Byte strings with their bytewise lexicographic order, the fixed-width
big-endian encoding of natural numbers and its decoding. Fixed-width
encodings are an order embedding into the lexicographic order, so sorted
keys of one width are sorted numbers. Go's `binary.BigEndian` is read
through these definitions.
-/

set_option autoImplicit false

namespace DistributedKv.BigEndian

/-- A Go `[]byte` or `string`: a finite sequence of bytes. -/
abbrev Bytes := List UInt8

def encode : ℕ → ℕ → Bytes
  | 0, _ => []
  | w+1, x => (x/256^w).toUInt8::encode w x

def decodeFrom : ℕ → Bytes → ℕ
  | acc, [] => acc
  | acc, b::bs => decodeFrom (acc*256+b.toNat) bs

def decode (bs : Bytes) : ℕ := decodeFrom 0 bs

@[simp] theorem length_encode (w x : ℕ) : (encode w x).length = w := by
  induction w with
  | zero => rfl
  | succ w ih => simp [encode, ih]

theorem toNat_toUInt8 (x : ℕ) : x.toUInt8.toNat = x%256 := by
  simp [Nat.toUInt8]

theorem encode_mod (w x : ℕ) : encode w (x%256^w) = encode w x := by
  induction w generalizing x with
  | zero => rfl
  | succ w ih =>
    have hq : x%256^(w+1)/256^w%256 = x/256^w%256 := by
      rw [pow_succ, Nat.mod_mul_right_div_self, Nat.mod_mod]
    have hr : x%256^(w+1)%256^w = x%256^w := by
      rw [pow_succ, Nat.mod_mul_right_mod]
    have hb : (x%256^(w+1)/256^w).toUInt8 = (x/256^w).toUInt8 := by
      apply UInt8.toNat_inj.mp
      rw [toNat_toUInt8, toNat_toUInt8, hq]
    rw [encode, encode, hb, ← ih (x%256^(w+1)), hr, ih]

theorem decodeFrom_encode (w x acc : ℕ) :
    decodeFrom acc (encode w x) = acc*256^w+x%256^w := by
  induction w generalizing acc with
  | zero => simp [encode, decodeFrom, Nat.mod_one]
  | succ w ih =>
    rw [encode, decodeFrom, ih, toNat_toUInt8]
    have hsplit : x%256^(w+1) = x/256^w%256*256^w+x%256^w := by
      rw [pow_succ, Nat.mod_mul, Nat.add_comm, Nat.mul_comm]
    rw [hsplit, pow_succ]
    ring

theorem decode_encode (w x : ℕ) (hx : x < 256^w) : decode (encode w x) = x := by
  rw [decode, decodeFrom_encode, Nat.mod_eq_of_lt hx]
  simp

theorem lt_iff_div_mod (x y p : ℕ) (hp : 0 < p) :
    x < y ↔ x/p < y/p ∨ (x/p = y/p ∧ x%p < y%p) := by
  have hx := Nat.div_add_mod x p
  have hy := Nat.div_add_mod y p
  have hxp := Nat.mod_lt x hp
  have hyp := Nat.mod_lt y hp
  constructor
  · intro hlt
    rcases Nat.lt_or_ge (x/p) (y/p) with h | h
    · exact Or.inl h
    · have hle : x/p ≤ y/p := Nat.div_le_div_right hlt.le
      have he : x/p = y/p := le_antisymm hle h
      refine Or.inr ⟨he, ?_⟩
      rw [he] at hx
      omega
  · rintro (h | ⟨he, hm⟩)
    · have hm : p*(x/p)+p ≤ p*(y/p) := by
        have := Nat.mul_le_mul_left p h
        rw [Nat.mul_succ] at this
        exact this
      omega
    · rw [he] at hx
      omega

theorem toUInt8_lt_toUInt8 (a b : ℕ) (ha : a < 256) (hb : b < 256) :
    a.toUInt8 < b.toUInt8 ↔ a < b := by
  rw [UInt8.lt_iff_toNat_lt, toNat_toUInt8, toNat_toUInt8, Nat.mod_eq_of_lt ha,
    Nat.mod_eq_of_lt hb]

theorem toUInt8_inj (a b : ℕ) (ha : a < 256) (hb : b < 256) :
    a.toUInt8 = b.toUInt8 ↔ a = b := by
  rw [← UInt8.toNat_inj, toNat_toUInt8, toNat_toUInt8, Nat.mod_eq_of_lt ha,
    Nat.mod_eq_of_lt hb]

theorem encode_lt_encode (w x y : ℕ) (hx : x < 256^w) (hy : y < 256^w) :
    encode w x < encode w y ↔ x < y := by
  induction w generalizing x y with
  | zero => simp at hx hy; subst hx hy; simp [encode]
  | succ w ih =>
    have hp : 0 < 256^w := by positivity
    have hxd : x/256^w < 256 := by rw [Nat.div_lt_iff_lt_mul hp, ← pow_succ']; exact hx
    have hyd : y/256^w < 256 := by rw [Nat.div_lt_iff_lt_mul hp, ← pow_succ']; exact hy
    rw [encode, encode, List.cons_lt_cons_iff, toUInt8_lt_toUInt8 _ _ hxd hyd,
      toUInt8_inj _ _ hxd hyd, ← encode_mod w x, ← encode_mod w y,
      ih _ _ (Nat.mod_lt _ hp) (Nat.mod_lt _ hp), lt_iff_div_mod x y _ hp]

/-- `binary.BigEndian.PutUint64` into a fresh 8-byte buffer. -/
def putUint64 (v : UInt64) : Bytes :=
  [(v >>> 56).toUInt8, (v >>> 48).toUInt8, (v >>> 40).toUInt8, (v >>> 32).toUInt8,
    (v >>> 24).toUInt8, (v >>> 16).toUInt8, (v >>> 8).toUInt8, v.toUInt8]

/-- `binary.BigEndian.Uint64`: the number `b[0:8]` encodes. A slice of fewer
than eight bytes fails its bounds check (`none`, a panic in Go). -/
def uint64 (b : Bytes) : Option UInt64 :=
  if b.length < 8 then none else some (UInt64.ofNat (decode (b.take 8)))

theorem toUInt8_shiftRight (v k : UInt64) (hk : k.toNat < 64) :
    (v >>> k).toUInt8 = (v.toNat/2^k.toNat).toUInt8 := by
  apply UInt8.toNat_inj.mp
  simp [UInt64.toNat_shiftRight, UInt64.toNat_toUInt8, Nat.shiftRight_eq_div_pow,
    Nat.mod_eq_of_lt hk]

theorem putUint64_eq (v : UInt64) : putUint64 v = encode 8 v.toNat := by
  simp (disch := decide) only [putUint64, encode, toUInt8_shiftRight]
  simp only [UInt64.toNat_ofNat]
  norm_num

@[simp] theorem length_putUint64 (v : UInt64) : (putUint64 v).length = 8 := by
  rw [putUint64_eq, length_encode]

@[simp] theorem uint64_putUint64 (v : UInt64) : uint64 (putUint64 v) = some v := by
  rw [uint64, putUint64_eq, if_neg (by simp), List.take_of_length_le (by simp),
    decode_encode _ _ v.toNat_lt]
  simp

theorem uint64_append (b t : Bytes) (h : 8 ≤ b.length) : uint64 (b++t) = uint64 b := by
  have hbt : ¬(b++t).length < 8 := by
    rw [List.length_append]
    omega
  rw [uint64, uint64, if_neg hbt, if_neg (by omega), List.take_append_of_le_length h]

theorem putUint64_injective (a b : UInt64) (h : putUint64 a = putUint64 b) : a = b := by
  have h' := congrArg uint64 h
  simpa using h'

theorem putUint64_lt_putUint64 (a b : UInt64) : putUint64 a < putUint64 b ↔ a < b := by
  rw [putUint64_eq, putUint64_eq, encode_lt_encode _ _ _ a.toNat_lt b.toNat_lt,
    UInt64.lt_iff_toNat_lt]

end DistributedKv.BigEndian
