import Mathlib.Tactic.IntervalCases
import Rewsr.Net.Packet
import Rewsr.Net.Wire

/-!
# Byte order

Stored through the code's conversions, a field lies in network order whatever the host's byte
order (`bytes16_hostToNet16`, `bytes32_hostToNet32`), and a converted load reads it back in
network order (`netToHost16_load16`, `netToHost32_load32`). The one place where the host shows is
a load that is not converted: the pseudo-header's addresses (`load32_little_eq`).
-/

namespace Rewsr.Net

open Rewsr.Wire

/-- A field in network order. -/
def be16 (v : UInt16) : List UInt8 := [(v >>> 8).toUInt8, v.toUInt8]
def be32 (v : UInt32) : List UInt8 :=
  [(v >>> 24).toUInt8, (v >>> 16).toUInt8, (v >>> 8).toUInt8, v.toUInt8]

@[simp] theorem length_be16 (v : UInt16) : (be16 v).length = 2 := rfl
@[simp] theorem length_be32 (v : UInt32) : (be32 v).length = 4 := rfl

/-! ## Loads as numbers -/

theorem or_shift (hi lo k : Nat) (h : lo < 2 ^ k) : hi * 2 ^ k ||| lo = hi * 2 ^ k + lo := by
  rw [Nat.mul_comm]
  exact (Nat.two_pow_add_eq_or_of_lt h hi).symm

theorem load16_big_toNat (b0 b1 : UInt8) :
    (Endian.big.load16 b0 b1).toNat = 256 * b0.toNat + b1.toNat := by
  have h0 := b0.toNat_lt
  have h1 := b1.toNat_lt
  simp only [Endian.load16, UInt16.toNat_or, UInt16.toNat_shiftLeft, UInt8.toNat_toUInt16,
    UInt16.reduceToNat, Nat.shiftLeft_eq, Nat.reduceMod]
  rw [Nat.mod_eq_of_lt (by omega), or_shift _ _ _ h1]
  omega

theorem load16_little_eq (b0 b1 : UInt8) :
    Endian.little.load16 b0 b1 = Endian.big.load16 b1 b0 := UInt16.or_comm ..

/-- A raw load is zero exactly when both bytes are. -/
theorem load16_eq_zero_iff (e : Endian) (b0 b1 : UInt8) :
    e.load16 b0 b1 = 0 ↔ 256 * b0.toNat + b1.toNat = 0 := by
  have hz : ∀ x y : UInt8, Endian.big.load16 x y = 0 ↔ 256 * x.toNat + y.toNat = 0 := by
    intro x y
    rw [← UInt16.toNat_inj, load16_big_toNat]
    rfl
  cases e with
  | big => exact hz b0 b1
  | little =>
    rw [load16_little_eq, hz]
    omega

theorem load32_big_toNat (b0 b1 b2 b3 : UInt8) : (Endian.big.load32 b0 b1 b2 b3).toNat =
    16777216 * b0.toNat + 65536 * b1.toNat + 256 * b2.toNat + b3.toNat := by
  have h0 := b0.toNat_lt
  have h1 := b1.toNat_lt
  have h2 := b2.toNat_lt
  have h3 := b3.toNat_lt
  simp only [Endian.load32, UInt32.toNat_or, UInt32.toNat_shiftLeft, UInt8.toNat_toUInt32,
    UInt32.reduceToNat, Nat.shiftLeft_eq, Nat.reduceMod]
  rw [Nat.mod_eq_of_lt (by omega), Nat.mod_eq_of_lt (by omega), Nat.mod_eq_of_lt (by omega),
    Nat.or_assoc, Nat.or_assoc, or_shift _ _ _ h3, or_shift _ _ 16 (by omega),
    or_shift _ _ 24 (by omega)]
  omega

theorem load32_little_eq (b0 b1 b2 b3 : UInt8) :
    Endian.little.load32 b0 b1 b2 b3 = Endian.big.load32 b3 b2 b1 b0 := by
  simp only [Endian.load32, UInt32.or_comm, UInt32.or_assoc]

theorem load16_be16 (v : UInt16) : Endian.big.load16 (v >>> 8).toUInt8 v.toUInt8 = v := by
  apply UInt16.toNat_inj.1
  have hv := v.toNat_lt
  simp only [load16_big_toNat, UInt16.toNat_toUInt8, UInt16.toNat_shiftRight, UInt16.reduceToNat,
    Nat.shiftRight_eq_div_pow, Nat.reduceMod]
  omega

theorem load32_be32 (v : UInt32) :
    Endian.big.load32 (v >>> 24).toUInt8 (v >>> 16).toUInt8 (v >>> 8).toUInt8 v.toUInt8 = v := by
  apply UInt32.toNat_inj.1
  have hv := v.toNat_lt
  simp only [load32_big_toNat, UInt32.toNat_toUInt8, UInt32.toNat_shiftRight, UInt32.reduceToNat,
    Nat.shiftRight_eq_div_pow, Nat.reduceMod]
  omega

theorem be16_load16 (b0 b1 : UInt8) : be16 (Endian.big.load16 b0 b1) = [b0, b1] := by
  have h0 := b0.toNat_lt; have h1 := b1.toNat_lt
  simp only [be16, List.cons.injEq, and_true, ← UInt8.toNat_inj, UInt16.toNat_toUInt8,
    UInt16.toNat_shiftRight, UInt16.reduceToNat, Nat.shiftRight_eq_div_pow, Nat.reduceMod,
    load16_big_toNat]
  omega

theorem be32_load32 (b0 b1 b2 b3 : UInt8) :
    be32 (Endian.big.load32 b0 b1 b2 b3) = [b0, b1, b2, b3] := by
  have h0 := b0.toNat_lt; have h1 := b1.toNat_lt
  have h2 := b2.toNat_lt; have h3 := b3.toNat_lt
  simp only [be32, List.cons.injEq, and_true, ← UInt8.toNat_inj, UInt32.toNat_toUInt8,
    UInt32.toNat_shiftRight, UInt32.reduceToNat, Nat.shiftRight_eq_div_pow, Nat.reduceMod,
    load32_big_toNat]
  omega

/-! ## The conversions -/

/-- A swap reverses the bytes. -/
theorem hostToNet16_little (b0 b1 : UInt8) :
    hostToNet16 .little (Endian.big.load16 b0 b1) = Endian.big.load16 b1 b0 := by
  rw [show ∀ v, hostToNet16 .little v = (v <<< 8) ||| (v >>> 8) from fun _ => rfl]
  simp only [Endian.load16]
  apply UInt16.eq_of_toBitVec_eq
  apply BitVec.eq_of_getLsbD_eq
  intro i hi
  interval_cases i <;> simp

theorem hostToNet32_little (b0 b1 b2 b3 : UInt8) :
    hostToNet32 .little (Endian.big.load32 b0 b1 b2 b3) = Endian.big.load32 b3 b2 b1 b0 := by
  rw [show ∀ v, hostToNet32 .little v =
    ((v &&& (0x000000ff : UInt32)) <<< 24) ||| ((v &&& (0x0000ff00 : UInt32)) <<< 8) |||
      ((v &&& (0x00ff0000 : UInt32)) >>> 8) ||| ((v &&& (0xff000000 : UInt32)) >>> 24)
    from fun _ => rfl]
  simp only [Endian.load32]
  apply UInt32.eq_of_toBitVec_eq
  apply BitVec.eq_of_getLsbD_eq
  intro i hi
  interval_cases i <;> simp

theorem bytes16_hostToNet16 (e : Endian) (v : UInt16) : e.bytes16 (hostToNet16 e v) = be16 v := by
  cases e with
  | big => rfl
  | little =>
    have hswap := hostToNet16_little (v >>> 8).toUInt8 v.toUInt8
    rw [load16_be16] at hswap
    rw [hswap]
    exact congrArg List.reverse (be16_load16 v.toUInt8 (v >>> 8).toUInt8)

theorem bytes32_hostToNet32 (e : Endian) (v : UInt32) : e.bytes32 (hostToNet32 e v) = be32 v := by
  cases e with
  | big => rfl
  | little =>
    have hswap := hostToNet32_little (v >>> 24).toUInt8 (v >>> 16).toUInt8 (v >>> 8).toUInt8
      v.toUInt8
    rw [load32_be32] at hswap
    rw [hswap]
    exact congrArg List.reverse (be32_load32 v.toUInt8 (v >>> 8).toUInt8 (v >>> 16).toUInt8
      (v >>> 24).toUInt8)

/-- Converting twice gives the value back. -/
theorem hostToNet32_netToHost32 (e : Endian) (v : UInt32) :
    hostToNet32 e (netToHost32 e v) = v := by
  cases e with
  | big => rfl
  | little =>
    rw [netToHost32, ← load32_be32 v, hostToNet32_little, hostToNet32_little]

/-- A zero field is the same bytes in either order. -/
theorem bytes16_zero (e : Endian) : e.bytes16 0 = be16 0 := by cases e <;> rfl

theorem netToHost16_load16 (e : Endian) (b0 b1 : UInt8) :
    netToHost16 e (e.load16 b0 b1) = Endian.big.load16 b0 b1 := by
  cases e with
  | big => rfl
  | little => rw [netToHost16, load16_little_eq, hostToNet16_little]

theorem netToHost32_load32 (e : Endian) (b0 b1 b2 b3 : UInt8) :
    netToHost32 e (e.load32 b0 b1 b2 b3) = Endian.big.load32 b0 b1 b2 b3 := by
  cases e with
  | big => rfl
  | little => rw [netToHost32, load32_little_eq, hostToNet32_little]

/-- A converted address, as the load of its bytes in network order. -/
theorem hostToNet32_load32 (e : Endian) (v : UInt32) : hostToNet32 e v =
    e.load32 (v >>> 24).toUInt8 (v >>> 16).toUInt8 (v >>> 8).toUInt8 v.toUInt8 := by
  have h := netToHost32_load32 e (v >>> 24).toUInt8 (v >>> 16).toUInt8 (v >>> 8).toUInt8 v.toUInt8
  rw [load32_be32] at h
  rw [← hostToNet32_netToHost32 e (e.load32 ..), h]

end Rewsr.Net
