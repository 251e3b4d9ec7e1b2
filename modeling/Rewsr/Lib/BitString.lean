import Mathlib.Data.List.GetD
import Mathlib.Tactic.Ring

/-!
# Byte strings as bit strings

Bit 0 of a byte string is the most significant bit of its first byte, and the bits past its end are
zero.

* `value bs i n`: the number that the `n` bits from `i` on spell. It splits where the bits do
  (`value_add`), the eight bits of a byte spell the byte (`value_byte`), and a window of fixed width
  moves on by one bit as a shift register does (`value_succ`, `window_succ`).
* `toeplitz w key input`: the Toeplitz hash, the exclusive or of the windows of the key at the bits
  of the input that are set. It is built up bit by bit (`toeplitzUpTo_succ`), zero bytes behind the
  input leave it as it is (`toeplitz_append_zeros`), and it is linear (`toeplitz_xor`).
-/

namespace BitString

/-- Bit `i` of a byte string. -/
def bit (bs : List UInt8) (i : Nat) : Nat := (bs.getD (i / 8) 0).toNat / 2 ^ (7 - i % 8) % 2

/-- The number that the `n` bits from `i` on spell. -/
def value (bs : List UInt8) (i : Nat) : Nat → Nat
  | 0 => 0
  | n + 1 => 2 * value bs i n + bit bs (i + n)

section
variable (bs : List UInt8) (i : Nat)

theorem bit_lt : bit bs i < 2 := Nat.mod_lt _ (by decide)

theorem value_lt (n : Nat) : value bs i n < 2 ^ n := by
  induction n with
  | zero => exact Nat.one_pos
  | succ n ih =>
    have hbit := bit_lt bs (i + n)
    rw [value, Nat.pow_succ]
    omega

theorem value_add (m n : Nat) : value bs i (m + n) = value bs i m * 2 ^ n + value bs (i + m) n := by
  induction n with
  | zero => simp [value]
  | succ n ih =>
    rw [← Nat.add_assoc, value, ih, value, Nat.pow_succ, Nat.add_assoc i]
    ring

theorem value_one : value bs i 1 = bit bs i := by simp [value]

/-- A window of `n` bits moves on by one. -/
theorem value_succ (n : Nat) :
    value bs (i + 1) n = (2 * value bs i n + bit bs (i + n)) % 2 ^ n := by
  have hfront : value bs i (1 + n) = bit bs i * 2 ^ n + value bs (i + 1) n := by
    rw [value_add, value_one]
  have hback : value bs i (1 + n) = 2 * value bs i n + bit bs (i + n) := by
    rw [Nat.add_comm, value]
  rw [← hback, hfront, Nat.mul_add_mod_self_right, Nat.mod_eq_of_lt (value_lt bs (i + 1) n)]

/-- The first bits of a byte. -/
theorem value_byte_div {n : Nat} (h : n ≤ 8) :
    value bs (8 * i) n = (bs.getD i 0).toNat / 2 ^ (8 - n) := by
  induction n with
  | zero =>
    have hlt := (bs.getD i 0).toNat_lt
    rw [value]
    exact (Nat.div_eq_of_lt hlt).symm
  | succ n ih =>
    have hbit : bit bs (8 * i + n) = (bs.getD i 0).toNat / 2 ^ (7 - n) % 2 := by
      rw [bit, show (8 * i + n) / 8 = i by omega, show (8 * i + n) % 8 = n by omega]
    rw [value, ih (by omega), hbit, show 8 - n = 7 - n + 1 by omega, Nat.pow_succ,
      ← Nat.div_div_eq_div_mul, show 8 - (n + 1) = 7 - n by omega, Nat.div_add_mod]

/-- The eight bits of a byte spell it. -/
theorem value_byte : value bs (8 * i) 8 = (bs.getD i 0).toNat := by
  rw [value_byte_div bs i (Nat.le_refl 8), Nat.sub_self, Nat.pow_zero, Nat.div_one]

end

theorem bit_append_left {as : List UInt8} {i : Nat} (h : i < 8 * as.length) (bs : List UInt8) :
    bit (as ++ bs) i = bit as i := by
  rw [bit, bit, List.getD_append _ _ _ _ (by omega)]

theorem bit_of_length_le {bs : List UInt8} {i : Nat} (h : 8 * bs.length ≤ i) : bit bs i = 0 := by
  rw [bit, List.getD_eq_default _ _ (by omega)]
  simp

theorem bit_append_zeros {as : List UInt8} {i : Nat} (h : 8 * as.length ≤ i) (n : Nat) :
    bit (as ++ List.replicate n 0) i = 0 := by
  have hzero : (as ++ List.replicate n 0).getD (i / 8) 0 = 0 := by
    rw [List.getD_append_right _ _ _ _ (by omega)]
    simp [List.getD_eq_getElem?_getD, List.getElem?_replicate]
    split <;> rfl
  rw [bit, hzero]
  simp

/-- The exclusive or of two strings, byte by byte. -/
def xorBytes (as bs : List UInt8) : List UInt8 := List.zipWith (· ^^^ ·) as bs

theorem bit_eq_one {bs : List UInt8} {i : Nat} :
    bit bs i = 1 ↔ (bs.getD (i / 8) 0).toNat.testBit (7 - i % 8) = true := by
  rw [bit, Nat.testBit_eq_decide_div_mod_eq, decide_eq_true_eq]

/-- A bit of an exclusive or is set where one of the two is. -/
theorem bit_xor {as bs : List UInt8} (h : as.length = bs.length) (i : Nat) :
    bit (xorBytes as bs) i = 1 ↔ ¬ (bit as i = 1 ↔ bit bs i = 1) := by
  have hbyte : (xorBytes as bs).getD (i / 8) 0 = as.getD (i / 8) 0 ^^^ bs.getD (i / 8) 0 := by
    rw [xorBytes, List.getD_eq_getElem?_getD, List.getElem?_zipWith, List.getD_eq_getElem?_getD,
      List.getD_eq_getElem?_getD]
    by_cases hi : i / 8 < as.length
    · simp [hi, h ▸ hi]
    · simp [hi, h ▸ hi]
  rw [bit_eq_one, bit_eq_one, bit_eq_one, hbyte, UInt8.toNat_xor, Nat.testBit_xor]
  cases (as.getD (i / 8) 0).toNat.testBit (7 - i % 8) <;>
    cases (bs.getD (i / 8) 0).toNat.testBit (7 - i % 8) <;> simp

/-! ## The Toeplitz hash -/

/-- The `w` bits of a key from `i` on. -/
def window (w : Nat) (key : List UInt8) (i : Nat) : BitVec w := BitVec.ofNat w (value key i w)

/-- The windows at the set bits among the first `n` of the input, put together. -/
def toeplitzUpTo (w : Nat) (key input : List UInt8) (n : Nat) : BitVec w :=
  (((List.range n).filter (bit input · = 1)).map (window w key)).foldl (· ^^^ ·) 0

/-- The hash of a whole input. -/
def toeplitz (w : Nat) (key input : List UInt8) : BitVec w :=
  toeplitzUpTo w key input (8 * input.length)

theorem window_toNat (w : Nat) (key : List UInt8) (i : Nat) :
    (window w key i).toNat = value key i w := by
  rw [window, BitVec.toNat_ofNat, Nat.mod_eq_of_lt (value_lt key i w)]

/-- The window moves on: a shift, and the next bit comes in at the low end. -/
theorem window_succ {w : Nat} (hw : 0 < w) (key : List UInt8) (i : Nat) :
    (window w key i <<< 1) ||| BitVec.ofNat w (bit key (i + w)) = window w key (i + 1) := by
  have hbit := bit_lt key (i + w)
  have hpow : 2 ^ w = 2 * 2 ^ (w - 1) := by
    rw [← Nat.pow_succ', Nat.succ_eq_add_one, Nat.sub_add_cancel hw]
  have hpos := Nat.two_pow_pos (w - 1)
  apply BitVec.eq_of_toNat_eq
  rw [BitVec.toNat_or, BitVec.toNat_shiftLeft, BitVec.toNat_ofNat, window_toNat, window_toNat,
    value_succ, Nat.shiftLeft_eq, Nat.pow_one, Nat.mod_eq_of_lt (a := bit key (i + w)) (by omega),
    Nat.mul_comm, hpow, Nat.mul_mod_mul_left]
  -- the shifted window is even, so that the bit is added
  have hor : 2 ^ 1 * (value key i w % 2 ^ (w - 1)) ||| bit key (i + w) =
      2 ^ 1 * (value key i w % 2 ^ (w - 1)) + bit key (i + w) :=
    (Nat.two_pow_add_eq_or_of_lt hbit _).symm
  rw [Nat.pow_one] at hor
  rw [hor, Nat.add_mod, Nat.mul_mod_mul_left, Nat.mod_eq_of_lt (a := bit key (i + w)) (by omega)]
  refine (Nat.mod_eq_of_lt ?_).symm
  have := Nat.mod_lt (value key i w) hpos
  omega

theorem toeplitzUpTo_succ (w : Nat) (key input : List UInt8) (n : Nat) :
    toeplitzUpTo w key input (n + 1) =
      if bit input n = 1 then toeplitzUpTo w key input n ^^^ window w key n
      else toeplitzUpTo w key input n := by
  rw [toeplitzUpTo, List.range_succ, List.filter_append]
  split <;> simp [*, toeplitzUpTo]

theorem toeplitzUpTo_congr {w : Nat} {key input input' : List UInt8} {n : Nat}
    (h : ∀ i < n, bit input i = bit input' i) :
    toeplitzUpTo w key input n = toeplitzUpTo w key input' n := by
  induction n with
  | zero => rfl
  | succ n ih =>
    rw [toeplitzUpTo_succ, toeplitzUpTo_succ, h n (Nat.lt_succ_self n),
      ih fun i hi => h i (Nat.lt_succ_of_lt hi)]

/-- Bits that are not set add nothing. -/
theorem toeplitzUpTo_add {w : Nat} {key input : List UInt8} {m : Nat} (n : Nat)
    (h : ∀ i, m ≤ i → bit input i = 0) :
    toeplitzUpTo w key input (m + n) = toeplitzUpTo w key input m := by
  induction n with
  | zero => rfl
  | succ n ih =>
    rw [← Nat.add_assoc, toeplitzUpTo_succ, h (m + n) (Nat.le_add_right m n),
      if_neg (by decide), ih]

theorem toeplitz_append_zeros (w : Nat) (key input : List UInt8) (n : Nat) :
    toeplitz w key (input ++ List.replicate n 0) = toeplitz w key input := by
  rw [toeplitz, List.length_append, List.length_replicate, Nat.mul_add,
    toeplitzUpTo_add _ fun i hi => bit_append_zeros hi n, toeplitz]
  exact toeplitzUpTo_congr fun i hi => bit_append_left hi _

/-- A window that is put in twice is not put in. -/
theorem xor_xor_cancel {w : Nat} (a b v : BitVec w) : (a ^^^ v) ^^^ (b ^^^ v) = a ^^^ b := by
  rw [BitVec.xor_comm b v, BitVec.xor_assoc, ← BitVec.xor_assoc v v b, BitVec.xor_self,
    BitVec.zero_xor]

theorem toeplitzUpTo_xor (w : Nat) (key : List UInt8) {as bs : List UInt8}
    (h : as.length = bs.length) (n : Nat) : toeplitzUpTo w key (xorBytes as bs) n =
      toeplitzUpTo w key as n ^^^ toeplitzUpTo w key bs n := by
  induction n with
  | zero => exact (BitVec.xor_self (x := 0)).symm
  | succ n ih =>
    have hbit := bit_xor h n
    rw [toeplitzUpTo_succ, toeplitzUpTo_succ, toeplitzUpTo_succ, ih]
    by_cases ha : bit as n = 1 <;> by_cases hb : bit bs n = 1 <;>
      simp only [ha, hb, iff_true, iff_false, not_true, not_false_eq_true] at hbit <;>
      simp only [ha, hb, hbit, if_true, if_false]
    · exact (xor_xor_cancel _ _ _).symm
    · ac_rfl
    · ac_rfl

/-- The hash is linear. -/
theorem toeplitz_xor (w : Nat) (key : List UInt8) {as bs : List UInt8}
    (h : as.length = bs.length) :
    toeplitz w key (xorBytes as bs) = toeplitz w key as ^^^ toeplitz w key bs := by
  have hlen : (xorBytes as bs).length = as.length := by simp [xorBytes, h]
  rw [toeplitz, toeplitz, toeplitz, hlen, ← h]
  exact toeplitzUpTo_xor w key h _

end BitString
