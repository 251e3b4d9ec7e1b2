import Rewsr.Net.BigEndian
import Rewsr.Net.Proof.Parse

/-!
# Lemmas about the big-endian words

A store writes the value's bytes in network order, a load reads such bytes.
-/

namespace Rewsr.Net

open Rewsr.Wire

theorem storeBe16_eq (buf : List UInt8) (i : Nat) (v : UInt16) :
    storeBe16 buf i v = writeN buf i (be16 v) := by
  have hlow : (v &&& (0xff : UInt16)).toUInt8 = v.toUInt8 := by
    apply UInt8.toNat_inj.1
    have hand : v.toNat &&& 255 = v.toNat % 256 := Nat.and_two_pow_sub_one_eq_mod _ 8
    simp only [UInt16.toNat_toUInt8, UInt16.toNat_and, UInt16.reduceToNat, hand]
    omega
  rw [storeBe16, hlow]
  rfl

theorem storeBe32_eq (buf : List UInt8) (i : Nat) (v : UInt32) :
    storeBe32 buf i v = writeN buf i (be32 v) := by
  have hlow : ∀ w : UInt32, (w &&& (0xff : UInt32)).toUInt8 = w.toUInt8 := by
    intro w
    apply UInt8.toNat_inj.1
    have hand : w.toNat &&& 255 = w.toNat % 256 := Nat.and_two_pow_sub_one_eq_mod _ 8
    simp only [UInt32.toNat_toUInt8, UInt32.toNat_and, UInt32.reduceToNat, hand]
    omega
  rw [storeBe32, hlow, hlow, hlow]
  rfl

section
variable {frame : List UInt8} {i : Nat}

theorem loadBe16_byte (h : i + 1 < frame.length) :
    loadBe16 frame i = some (Endian.big.load16 (byte frame i) (byte frame (i + 1))) := by
  rw [loadBe16, read8_byte (show i < frame.length by omega), read8_byte h]
  rfl

theorem loadBe32_byte (h : i + 3 < frame.length) :
    loadBe32 frame i = some (Endian.big.load32 (byte frame i) (byte frame (i + 1))
      (byte frame (i + 2)) (byte frame (i + 3))) := by
  rw [loadBe32, read8_byte (show i < frame.length by omega),
    read8_byte (show i + 1 < frame.length by omega),
    read8_byte (show i + 2 < frame.length by omega), read8_byte h]
  rfl

end

end Rewsr.Net
