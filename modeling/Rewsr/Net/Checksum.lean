/-!
# The Internet checksum (`net/checksum.c`)

The accumulator is a 32-bit sum of 16-bit big-endian words; carries pile up in its high half and
are folded down at the end.
-/

namespace Rewsr.Net

/-- `rewsr_cksum_partial`: adds the words of `data` to `seed`. An odd last byte is the high byte
of a final word. -/
def cksumPartial : List UInt8 → UInt32 → UInt32
  | p0 :: p1 :: rest, sum => cksumPartial rest (sum + ((p0.toUInt32 <<< 8) ||| p1.toUInt32))
  | [p0], sum => sum + (p0.toUInt32 <<< 8)
  | [], sum => sum

theorem fold_decreases {sum : UInt32} (h : sum >>> 16 ≠ 0) :
    ((sum &&& (0xffff : UInt32)) + (sum >>> 16)).toNat < sum.toNat := by
  have hlt := sum.toNat_lt
  have h0 : sum.toNat / 65536 ≠ 0 := by
    intro h0
    apply h
    apply UInt32.toNat_inj.1
    simpa [UInt32.toNat_shiftRight, Nat.shiftRight_eq_div_pow] using h0
  have hand : sum.toNat &&& 65535 = sum.toNat % 65536 := Nat.and_two_pow_sub_one_eq_mod _ 16
  simp only [UInt32.toNat_add, UInt32.toNat_and, UInt32.toNat_shiftRight, UInt32.toNat_ofNat,
    Nat.shiftRight_eq_div_pow, Nat.reduceMod, Nat.reducePow, hand]
  rw [Nat.mod_eq_of_lt (by omega)]
  omega

/-- `rewsr_cksum_fold`: adds the carries back in until none remain. -/
def cksumFold (sum : UInt32) : UInt16 :=
  if sum >>> 16 ≠ 0 then cksumFold ((sum &&& (0xffff : UInt32)) + (sum >>> 16)) else sum.toUInt16
termination_by sum.toNat
decreasing_by exact fold_decreases ‹_›

/-- `rewsr_cksum`: the finished checksum of one buffer. -/
def cksum (data : List UInt8) : UInt16 := ~~~ cksumFold (cksumPartial data 0)

/-- `rewsr_cksum_ipv4_pseudo`: the pseudo-header's partial sum. The addresses are the 32-bit
values loaded from the packet. -/
def cksumIpv4Pseudo (srcBe dstBe : UInt32) (proto : UInt8) (l4Len : UInt16) : UInt32 :=
  ((srcBe >>> 16) &&& (0xffff : UInt32)) + (srcBe &&& (0xffff : UInt32)) +
    ((dstBe >>> 16) &&& (0xffff : UInt32)) +
    (dstBe &&& (0xffff : UInt32)) + proto.toUInt32 + l4Len.toUInt32

/-- `rewsr_cksum_update`: RFC 1624 equation 3, `HC' = ~(~HC + ~m + m')`. -/
def cksumUpdate (oldCheck oldField newField : UInt16) : UInt16 :=
  ~~~ cksumFold ((~~~ oldCheck).toUInt32 + (~~~ oldField).toUInt32 + newField.toUInt32)

end Rewsr.Net
