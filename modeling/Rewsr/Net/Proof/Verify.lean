import Rewsr.Net.Proof.Build

/-!
# The verifiers

`verifyUdpChecksum_eq`: on an accepted frame the UDP verifier tests the one's complement sum
`codeSum` of the pseudo-header and the datagram. It differs from the sum of RFC 768 (`udpSum_eq`)
in the addresses alone, which the code adds as the host loads them (`addrSum`): on a little-endian
host the two bytes of each address word are exchanged.
-/

namespace Rewsr.Net

open Rewsr.Wire OnesComplement

/-! ## The pseudo-header -/

/-- The addresses' part of the pseudo-header sum, as the host loads them. -/
def addrSum : Endian → List UInt8 → Nat
  | .big, addrs => wordSum addrs
  | .little, addrs => swapSum addrs

theorem cksumIpv4Pseudo_load (e : Endian) (a0 a1 a2 a3 b0 b1 b2 b3 : UInt8) (proto : UInt8)
    (len : UInt16) :
    (cksumIpv4Pseudo (e.load32 a0 a1 a2 a3) (e.load32 b0 b1 b2 b3) proto len).toNat =
      addrSum e [a0, a1, a2, a3, b0, b1, b2, b3] + proto.toNat + len.toNat := by
  have ha0 := a0.toNat_lt; have ha1 := a1.toNat_lt; have ha2 := a2.toNat_lt
  have ha3 := a3.toNat_lt; have hb0 := b0.toNat_lt; have hb1 := b1.toNat_lt
  have hb2 := b2.toNat_lt; have hb3 := b3.toNat_lt
  rw [cksumIpv4Pseudo_toNat]
  cases e with
  | big =>
    rw [load32_big_toNat, load32_big_toNat, addrSum]
    simp only [wordSum_cons, wordSum_nil]
    omega
  | little =>
    rw [load32_little_eq, load32_little_eq, load32_big_toNat, load32_big_toNat, addrSum, swapSum]
    simp only [evenSum, oddSum]
    omega

theorem addrSum_le (e : Endian) (a0 a1 a2 a3 b0 b1 b2 b3 : UInt8) :
    addrSum e [a0, a1, a2, a3, b0, b1, b2, b3] ≤ 262140 := by
  have ha0 := a0.toNat_lt; have ha1 := a1.toNat_lt; have ha2 := a2.toNat_lt
  have ha3 := a3.toNat_lt; have hb0 := b0.toNat_lt; have hb1 := b1.toNat_lt
  have hb2 := b2.toNat_lt; have hb3 := b3.toNat_lt
  cases e with
  | big =>
    simp only [addrSum, wordSum_cons, wordSum_nil]
    omega
  | little =>
    simp only [addrSum, swapSum, evenSum, oddSum]
    omega

/-- The host's reading of the addresses makes no difference exactly on a big-endian host and for
addresses whose byte totals agree modulo 257. -/
theorem addrSum_modEq_iff (e : Endian) (addrs : List UInt8) :
    addrSum e addrs ≡ wordSum addrs [MOD 65535] ↔
      e = .big ∨ evenSum addrs % 257 = oddSum addrs % 257 := by
  cases e with
  | big => simp [addrSum, Nat.ModEq]
  | little => simpa [addrSum] using swapSum_modEq_iff addrs

/-! ## Accepted frames -/

/-- The frame's two addresses. -/
def addrs (frame : List UInt8) : List UInt8 := srcAddr frame ++ dstAddr frame

theorem slice_eq_map {frame : List UInt8} {i n : Nat} (h : i + n ≤ frame.length) :
    slice frame i n = (List.range n).map fun k => byte frame (i + k) := by
  apply List.ext_getElem
  · simp only [slice, List.length_take, List.length_drop, List.length_map, List.length_range]
    omega
  · intro k hk _
    rw [slice, List.length_take] at hk
    simp only [slice, List.getElem_take, List.getElem_drop, List.getElem_map, List.getElem_range]
    rw [byte, List.getD_eq_getElem?_getD, List.getElem?_eq_getElem, Option.getD_some]

/-- What the UDP verifier sums on an accepted frame. -/
def codeSum (e : Endian) (frame : List UInt8) : Nat :=
  addrSum e (addrs frame) + 17 + udpLen frame + wordSum (udpBytes frame)

section
variable {frame : List UInt8} (h : Accepted frame)
include h

theorem addrs_eq : addrs frame = [byte frame 26, byte frame 27, byte frame 28, byte frame 29,
    byte frame 30, byte frame 31, byte frame 32, byte frame 33] := by
  have h1 := h.length
  have h2 := h.udpOff_ge
  have h3 := h.udpMin
  rw [addrs, srcAddr, dstAddr, slice_eq_map (by omega), slice_eq_map (by omega)]
  rfl

theorem length_udpBytes : (udpBytes frame).length = udpLen frame := by
  have h1 := h.length
  rw [udpBytes, slice, List.length_take, List.length_drop]
  omega

/-- The accumulator does not wrap on a frame. -/
theorem codeSum_lt (e : Endian) : codeSum e frame < 2 ^ 32 := by
  have h1 := wordSum_le (udpBytes frame)
  have h2 := addrSum_le e (byte frame 26) (byte frame 27) (byte frame 28) (byte frame 29)
    (byte frame 30) (byte frame 31) (byte frame 32) (byte frame 33)
  have h3 : udpLen frame < 65536 := be16At_lt
  rw [length_udpBytes h] at h1
  rw [codeSum, addrs_eq h]
  omega

theorem verifyUdpChecksum_eq (e : Endian) : verifyUdpChecksum e frame =
    some (if udpCheck frame = 0 ∨ canon 65536 (codeSum e frame) = 65535 then 1 else 0) := by
  have h1 := h.length
  have h2 := h.udpOff_ge
  have h3 := h.udpMin
  have hlt := codeSum_lt h e
  have hparse : parseUdpIpv4 e frame = some (.ok (datagram frame)) :=
    parseUdpIpv4_ok_iff.2 ⟨h, rfl⟩
  have hcheck := load16_eq_zero_iff e (byte frame (udpOff frame + 6))
    (byte frame (udpOff frame + 6 + 1))
  unfold verifyUdpChecksum
  rw [hparse, Option.bind_some]
  dsimp only
  rw [show read8 frame ethHlen = _ from read8_byte (i := 14) (by omega), Option.bind_some,
    ipHlen_eq, show ethHlen + ipHlen frame = udpOff frame from rfl, read16_load (by omega),
    Option.bind_some]
  by_cases hc : udpCheck frame = 0
  · rw [if_pos (hcheck.2 hc), if_pos (.inl hc)]
  rw [if_neg (fun h0 => hc (hcheck.1 h0)), read16_load (by omega),
    show read32 e frame (ethHlen + 12) = _ from read32_load (i := 26) (by omega),
    show read32 e frame (ethHlen + 16) = _ from read32_load (i := 30) (by omega)]
  simp only [Option.bind_eq_bind, Option.bind_some, netToHost16_toNat, hc, false_or]
  rw [show be16At frame (udpOff frame + 4) = udpLen frame from rfl, readN_slice h1,
    Option.bind_some]
  have hsum : (cksumPartial (slice frame (udpOff frame) (udpLen frame)) (cksumIpv4Pseudo
      (e.load32 (byte frame 26) (byte frame 27) (byte frame 28) (byte frame 29))
      (e.load32 (byte frame 30) (byte frame 31) (byte frame 32) (byte frame 33)) ipprotoUdp
      (netToHost16 e
        (e.load16 (byte frame (udpOff frame + 4)) (byte frame (udpOff frame + 4 + 1)))))
      ).toNat = codeSum e frame := by
    rw [cksumPartial_toNat, cksumIpv4Pseudo_load, netToHost16_toNat, ← addrs_eq h]
    exact Nat.mod_eq_of_lt hlt
  have hfold : ∀ x : UInt32, cksumFold x = 0xffff ↔ canon 65536 x.toNat = 65535 := by
    intro x
    rw [← cksumFold_toNat, ← UInt16.toNat_inj]
    rfl
  simp only [hfold]
  rw [hsum]
  rfl

theorem pseudoHeader_sum :
    wordSum (pseudoHeader frame) = wordSum (addrs frame) + 17 + udpLen frame := by
  have h1 := h.length
  have h2 := h.udpOff_ge
  have h3 := h.udpMin
  have hlen : slice frame (udpOff frame + 4) 2 =
      [byte frame (udpOff frame + 4), byte frame (udpOff frame + 4 + 1)] :=
    slice_eq_map (by omega)
  have ha : (addrs frame).length % 2 = 0 := by simp [addrs_eq h]
  rw [pseudoHeader, List.append_assoc, hlen, show slice frame 26 4 ++ slice frame 30 4 = addrs frame
    from rfl, wordSum_append ha]
  simp only [List.cons_append, List.nil_append, wordSum_cons, wordSum_nil]
  change _ + (17 + (udpLen frame + 0)) = _
  omega

/-- The sum of the pseudo-header and a datagram `udp`. -/
theorem onesSum_pseudoHeader (udp : List UInt8) : onesSum (pseudoHeader frame ++ udp) =
    canon 65536 (wordSum (addrs frame) + 17 + udpLen frame + wordSum udp) := by
  have h1 := h.length
  have h2 := h.udpOff_ge
  have h3 := h.udpMin
  have hev : (pseudoHeader frame).length % 2 = 0 := by
    rw [pseudoHeader, slice_eq_map (by omega), slice_eq_map (by omega), slice_eq_map (by omega)]
    simp
  rw [onesSum_eq, wordSum_append hev, pseudoHeader_sum h]

/-- The RFC 768 sum: as `codeSum`, with the addresses as they are on the wire. -/
theorem udpSum_eq : udpSum frame =
    canon 65536 (wordSum (addrs frame) + 17 + udpLen frame + wordSum (udpBytes frame)) :=
  onesSum_pseudoHeader h _

/-- The verifier agrees with RFC 768 on a frame whose addresses the host reads as the wire has
them. -/
theorem verifyUdpChecksum_rfc {e : Endian} (hc : udpCheck frame ≠ 0)
    (he : e = .big ∨ evenSum (addrs frame) % 257 = oddSum (addrs frame) % 257) :
    verifyUdpChecksum e frame = some 1 ↔ udpSum frame = 0xffff := by
  have heq : canon 65536 (codeSum e frame) = udpSum frame := by
    rw [udpSum_eq h]
    refine canon_congr (by rw [codeSum]; omega) ?_
    have := ((addrSum_modEq_iff e (addrs frame)).2 he).add_right
      (17 + udpLen frame + wordSum (udpBytes frame))
    simpa only [codeSum, Nat.add_assoc] using this
  rw [verifyUdpChecksum_eq h, heq]
  simp [hc]

end

/-! ## The builder's checksum -/

/-- What the builder sums for a payload of up to 65507 bytes: the pseudo-header, the UDP header
with a zero check field and the payload. -/
def builtSum (e : Endian) (fl : Flow) (p : List UInt8) : Nat :=
  addrSum e (be32 fl.srcIp ++ be32 fl.dstIp) + 17 + (8 + p.length) +
    wordSum (udpHdrBytes fl.srcPort fl.dstPort (UInt16.ofNat (8 + p.length)) 0) + wordSum p

theorem builtCheck_toNat (e : Endian) (fl : Flow) {p : List UInt8} (hp : p.length ≤ 65507) :
    (builtCheck e fl p.length p).toNat =
      if canon 65536 (builtSum e fl p) = 65535 then 65535
      else 65535 - canon 65536 (builtSum e fl p) := by
  have h1 := wordSum_le p
  have h2 := wordSum_le (udpHdrBytes fl.srcPort fl.dstPort (UInt16.ofNat (8 + p.length)) 0)
  have h3 : addrSum e (be32 fl.srcIp ++ be32 fl.dstIp) ≤ 262140 := addrSum_le e ..
  have hlen : (UInt16.ofNat (8 + p.length)).toNat = 8 + p.length := by
    rw [UInt16.toNat_ofNat']
    omega
  have h8 : (udpHdrBytes fl.srcPort fl.dstPort (UInt16.ofNat (8 + p.length)) 0).length = 8 := rfl
  rw [h8] at h2
  have hpseudo : (cksumIpv4Pseudo (hostToNet32 e fl.srcIp) (hostToNet32 e fl.dstIp) ipprotoUdp
      (UInt16.ofNat (8 + p.length))).toNat =
      addrSum e (be32 fl.srcIp ++ be32 fl.dstIp) + 17 + (8 + p.length) := by
    rw [hostToNet32_load32, hostToNet32_load32, cksumIpv4Pseudo_load, hlen]
    rfl
  have hsum : (cksumPartial p (cksumPartial (udpHdrBytes fl.srcPort fl.dstPort
      (UInt16.ofNat (8 + p.length)) 0) (cksumIpv4Pseudo (hostToNet32 e fl.srcIp)
      (hostToNet32 e fl.dstIp) ipprotoUdp (UInt16.ofNat (8 + p.length))))).toNat =
      builtSum e fl p := by
    rw [cksumPartial_toNat, cksumPartial_toNat, hpseudo, builtSum]
    omega
  have hc := canon_lt (b := 65536) (by decide) (builtSum e fl p)
  have hnot : ∀ x : UInt16, (~~~ x == 0) = decide (x.toNat = 65535) := by
    intro x
    have := x.toNat_lt
    rw [Bool.eq_iff_iff, beq_iff_eq, ← UInt16.toNat_inj, UInt16.toNat_not, decide_eq_true_eq]
    simp only [UInt16.size, UInt16.reduceToNat]
    omega
  simp only [builtCheck, hnot, cksumFold_toNat, hsum, decide_eq_true_eq]
  split
  · rfl
  · rw [UInt16.toNat_not, cksumFold_toNat, hsum]
    rfl

/-- The builder never stores a zero checksum. -/
theorem builtCheck_pos (e : Endian) (fl : Flow) {p : List UInt8} (hp : p.length ≤ 65507) :
    0 < (builtCheck e fl p.length p).toNat := by
  have hc := canon_lt (b := 65536) (by decide) (builtSum e fl p)
  rw [builtCheck_toNat e fl hp]
  split <;> omega

end Rewsr.Net
