import Rewsr.Lib.OnesComplement
import Rewsr.Net.Checksum

/-!
# The checksum functions as one's complement sums

Each function of `net/checksum.c` over the natural numbers: `cksumPartial` adds the word total of
its bytes modulo `2 ^ 32` (`cksumPartial_toNat`), `cksumFold` ends on the digit of its argument
(`cksumFold_toNat`), `cksumUpdate` moves a checksum by the difference of two words
(`cksumUpdate_toNat`).
-/

namespace Rewsr.Net

open OnesComplement

theorem toNat_and_ffff (s : UInt32) : (s &&& (0xffff : UInt32)).toNat = s.toNat % 65536 := by
  rw [UInt32.toNat_and]
  exact Nat.and_two_pow_sub_one_eq_mod _ 16

theorem toNat_shiftRight16 (s : UInt32) : (s >>> 16).toNat = s.toNat / 65536 := by
  simp [UInt32.toNat_shiftRight, Nat.shiftRight_eq_div_pow]

/-- A big-endian word of two bytes. -/
theorem toNat_word (hi lo : UInt8) :
    ((hi.toUInt32 <<< 8) ||| lo.toUInt32).toNat = 256 * hi.toNat + lo.toNat := by
  have hh := hi.toNat_lt
  have hl := lo.toNat_lt
  have hor : 2 ^ 8 * hi.toNat ||| lo.toNat = 2 ^ 8 * hi.toNat + lo.toNat :=
    (Nat.two_pow_add_eq_or_of_lt hl hi.toNat).symm
  simp only [UInt32.toNat_or, UInt32.toNat_shiftLeft, UInt8.toNat_toUInt32, UInt32.toNat_ofNat,
    Nat.shiftLeft_eq, Nat.reduceMod, Nat.reducePow] at *
  rw [Nat.mod_eq_of_lt (by omega), Nat.mul_comm, hor]

theorem toNat_highByte (hi : UInt8) : (hi.toUInt32 <<< 8).toNat = 256 * hi.toNat := by
  have hh := hi.toNat_lt
  simp only [UInt32.toNat_shiftLeft, UInt8.toNat_toUInt32, UInt32.toNat_ofNat, Nat.shiftLeft_eq,
    Nat.reduceMod, Nat.reducePow]
  omega

theorem cksumPartial_toNat (bs : List UInt8) (seed : UInt32) :
    (cksumPartial bs seed).toNat = (seed.toNat + wordSum bs) % 2 ^ 32 := by
  induction bs, seed using cksumPartial.induct with
  | case1 p0 p1 rest sum ih =>
    rw [cksumPartial, ih, UInt32.toNat_add, toNat_word, wordSum_cons]
    omega
  | case2 p0 sum =>
    rw [cksumPartial, UInt32.toNat_add, toNat_highByte, wordSum_single]
  | case3 sum =>
    have := sum.toNat_lt
    rw [cksumPartial, wordSum_nil]
    omega

/-- Behind an even number of bytes the sum goes on where it was left. -/
theorem cksumPartial_append {as : List UInt8} (h : as.length % 2 = 0) (bs : List UInt8)
    (seed : UInt32) : cksumPartial (as ++ bs) seed = cksumPartial bs (cksumPartial as seed) := by
  rw [← UInt32.toNat_inj, cksumPartial_toNat, cksumPartial_toNat, cksumPartial_toNat,
    wordSum_append h]
  omega

theorem cksumFold_toNat (s : UInt32) : (cksumFold s).toNat = canon 65536 s.toNat := by
  induction s using cksumFold.induct with
  | case1 s h ih =>
    have hd := fold_decreases h
    have hs := s.toNat_lt
    rw [cksumFold, if_pos h, ih, UInt32.toNat_add, toNat_and_ffff, toNat_shiftRight16,
      Nat.mod_eq_of_lt (by omega), canon_carry (by decide)]
  | case2 s h =>
    have hs : s.toNat / 65536 = 0 := by
      rw [← toNat_shiftRight16, Classical.not_not.1 h]
      rfl
    rw [cksumFold, if_neg h, canon_of_lt (by omega), UInt32.toNat_toUInt16]
    omega

theorem cksum_toNat (bs : List UInt8) :
    (cksum bs).toNat = 65535 - canon 65536 (wordSum bs % 2 ^ 32) := by
  rw [cksum, UInt16.toNat_not, cksumFold_toNat, cksumPartial_toNat]
  simp

theorem cksumIpv4Pseudo_toNat (s d : UInt32) (p : UInt8) (l : UInt16) :
    (cksumIpv4Pseudo s d p l).toNat = s.toNat / 65536 + s.toNat % 65536 + d.toNat / 65536 +
      d.toNat % 65536 + p.toNat + l.toNat := by
  have := s.toNat_lt
  have := d.toNat_lt
  have := p.toNat_lt
  have := l.toNat_lt
  simp only [cksumIpv4Pseudo, UInt32.toNat_add, toNat_and_ffff, toNat_shiftRight16,
    UInt8.toNat_toUInt32, UInt16.toNat_toUInt32]
  simp (disch := omega) only [Nat.mod_eq_of_lt (a := _ / _), Nat.mod_eq_of_lt (b := 2 ^ 32)]

theorem cksumUpdate_toNat (c m m' : UInt16) :
    (cksumUpdate c m m').toNat =
      65535 - canon 65536 ((65535 - c.toNat) + (65535 - m.toNat) + m'.toNat) := by
  have := c.toNat_lt
  have := m.toNat_lt
  have := m'.toNat_lt
  rw [cksumUpdate, UInt16.toNat_not, cksumFold_toNat]
  simp only [UInt32.toNat_add, UInt16.toNat_toUInt32, UInt16.toNat_not, UInt16.size,
    Nat.reducePow, Nat.reduceSub]
  rw [Nat.mod_eq_of_lt (by omega), Nat.mod_eq_of_lt (by omega)]

end Rewsr.Net
