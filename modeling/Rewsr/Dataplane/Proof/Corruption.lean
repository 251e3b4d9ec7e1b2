import Rewsr.Net.Proof.Bounds

/-!
# The classifier detects corruption

A byte of the addresses, the ports or the payload changes nothing of where a frame's fields are
(`Covered.congr`), so that the changed frame is accepted by the parser as well, and it moves the
verifier's sum by the difference of two bytes (`codeSum_set`). A sum that was right is wrong
afterwards: `dpClassify_detects`, on both kinds of hosts.
-/

namespace Rewsr.Dataplane

open Rewsr.Net Rewsr.Wire OnesComplement

/-- The bytes of the addresses, the ports and the payload. -/
def Covered (frame : List UInt8) (i : Nat) : Prop :=
  (26 ≤ i ∧ i < 34) ∨ (udpOff frame ≤ i ∧ i < udpOff frame + 4) ∨
    (udpOff frame + 8 ≤ i ∧ i < udpOff frame + udpLen frame)

instance (frame : List UInt8) (i : Nat) : Decidable (Covered frame i) :=
  inferInstanceAs (Decidable (_ ∨ _))

theorem byte_set_of_ne {frame : List UInt8} {i j : Nat} (h : i ≠ j) (b : UInt8) :
    byte (frame.set i b) j = byte frame j := by
  simp [byte, List.getD_eq_getElem?_getD, List.getElem?_set_ne h]

theorem be16At_set_of_ne {frame : List UInt8} {i j : Nat} (h : i ≠ j) (h' : i ≠ j + 1)
    (b : UInt8) : be16At (frame.set i b) j = be16At frame j := by
  rw [be16At, be16At, byte_set_of_ne h, byte_set_of_ne h']

theorem slice_set_outside {frame : List UInt8} {i n : Nat} (off : Nat) (h : i < off ∨ off + n ≤ i)
    (b : UInt8) : slice (frame.set i b) off n = slice frame off n := by
  refine List.ext_getElem? fun j => ?_
  by_cases hj : j < n
  · rw [slice, slice, List.getElem?_take_of_lt hj, List.getElem?_take_of_lt hj, List.getElem?_drop,
      List.getElem?_drop, List.getElem?_set_ne (by omega)]
  · rw [slice, slice, List.getElem?_take_eq_none (by omega), List.getElem?_take_eq_none (by omega)]

theorem slice_set_inside {frame : List UInt8} {i off n : Nat} (hlo : off ≤ i) (b : UInt8) :
    slice (frame.set i b) off n = (slice frame off n).set (i - off) b := by
  rw [slice, slice, List.drop_set, if_neg (by omega), List.take_set]

section
variable {frame : List UInt8} (h : Accepted frame) {i : Nat} (hi : Covered frame i) (b : UInt8)
include h hi

/-- Nothing the parser tests is covered. -/
theorem Covered.notHeader :
    (34 ≤ udpOff frame ∧ 26 ≤ i) ∧ i ≠ udpOff frame + 4 ∧ i ≠ udpOff frame + 5 ∧
      i ≠ udpOff frame + 6 ∧ i ≠ udpOff frame + 7 ∧ i < frame.length := by
  have hoff := h.udpOff_ge
  have hlen := h.length
  have hmin := h.udpMin
  unfold Covered at hi
  omega

theorem Covered.udpOff_eq : udpOff (frame.set i b) = udpOff frame := by
  obtain ⟨⟨-, hlo⟩, -⟩ := hi.notHeader h
  rw [udpOff, ipHlen, byte_set_of_ne (by omega), udpOff, ipHlen]

theorem Covered.udpLen_eq : udpLen (frame.set i b) = udpLen frame := by
  obtain ⟨-, h4, h5, -⟩ := hi.notHeader h
  rw [udpLen, hi.udpOff_eq h, be16At_set_of_ne h4 h5, udpLen]

theorem Covered.udpCheck_eq : udpCheck (frame.set i b) = udpCheck frame := by
  obtain ⟨-, -, -, h6, h7, -⟩ := hi.notHeader h
  rw [udpCheck, hi.udpOff_eq h, be16At_set_of_ne h6 h7, udpCheck]

/-- The changed frame is still accepted by the parser. -/
theorem Covered.accepted : Accepted (frame.set i b) := by
  obtain ⟨⟨-, hlo⟩, -⟩ := hi.notHeader h
  have hihl : ipHlen (frame.set i b) = ipHlen frame := by
    rw [ipHlen, byte_set_of_ne (by omega), ipHlen]
  have htot : totLen (frame.set i b) = totLen frame := be16At_set_of_ne (by omega) (by omega) b
  have hlen := hi.udpLen_eq h b
  exact
    { ethertype := by rw [be16At_set_of_ne (by omega) (by omega), h.ethertype]
      version := by rw [byte_set_of_ne (by omega), h.version]
      ihl := by rw [hihl]; exact h.ihl
      inFrame := by rw [htot, List.length_set]; exact h.inFrame
      proto := by rw [byte_set_of_ne (by omega), h.proto]
      udpMin := by rw [hlen]; exact h.udpMin
      inDatagram := by rw [hihl, hlen, htot]; exact h.inDatagram }

end

/-- The addresses' sum moves by the difference of the two bytes, on both kinds of hosts. -/
theorem addrSum_set (e : Endian) (bs : List UInt8) {i : Nat} (h : i < bs.length) (b : UInt8) :
    ∃ j, addrSum e (bs.set i b) + weight j * (bs.getD i 0).toNat =
      addrSum e bs + weight j * b.toNat := by
  cases e with
  | big => exact ⟨i, wordSum_set bs h b⟩
  | little => exact ⟨i + 1, swapSum_set bs h b⟩

theorem getD_slice {frame : List UInt8} {off n i : Nat} (hlo : off ≤ i) (hhi : i < off + n) :
    (slice frame off n).getD (i - off) 0 = byte frame i := by
  rw [byte, slice, List.getD_eq_getElem?_getD, List.getD_eq_getElem?_getD,
    List.getElem?_take_of_lt (by omega), List.getElem?_drop, Nat.add_sub_cancel' hlo]

theorem addrs_eq_slice (frame : List UInt8) : addrs frame = slice frame 26 8 := by
  rw [addrs, srcAddr, dstAddr, slice, slice, slice, show 8 = 4 + 4 from rfl, List.take_add,
    List.drop_drop]

/-- A covered byte moves the verifier's sum by the difference to the byte that was there. -/
theorem codeSum_set (e : Endian) {frame : List UInt8} (h : Accepted frame) {i : Nat}
    (hi : Covered frame i) (b : UInt8) : ∃ j, codeSum e (frame.set i b) +
      weight j * (byte frame i).toNat = codeSum e frame + weight j * b.toNat := by
  have hoff := h.udpOff_ge
  have hmin := h.udpMin
  have hlen := h.length
  rw [codeSum, codeSum, addrs_eq_slice, addrs_eq_slice, udpBytes, udpBytes, hi.udpLen_eq h,
    hi.udpOff_eq h]
  by_cases haddr : i < 34
  · obtain ⟨⟨-, hlo⟩, -⟩ := hi.notHeader h
    have hin : i - 26 < (slice frame 26 8).length := by
      rw [slice, List.length_take, List.length_drop]
      omega
    obtain ⟨j, hj⟩ := addrSum_set e (slice frame 26 8) hin b
    rw [getD_slice hlo (by omega), ← slice_set_inside hlo] at hj
    rw [slice_set_outside (udpOff frame) (by omega)]
    exact ⟨j, by omega⟩
  · have hudp : udpOff frame ≤ i ∧ i < udpOff frame + udpLen frame := by
      unfold Covered at hi
      omega
    have hin : i - udpOff frame < (slice frame (udpOff frame) (udpLen frame)).length := by
      rw [slice, List.length_take, List.length_drop]
      omega
    have hset := wordSum_set _ hin b
    rw [getD_slice hudp.1 hudp.2, ← slice_set_inside hudp.1] at hset
    rw [slice_set_outside 26 (by omega)]
    exact ⟨i - udpOff frame, by omega⟩

/-- **Corruption is detected.** A frame that the classifier accepts and that carries a UDP checksum
is rejected after any one byte of its addresses, its ports or its payload has changed. -/
theorem dpClassify_detects (e : Endian) {frame : List UInt8} {p : UInt32} {i : Nat} {b : UInt8}
    (h : dpClassify e frame = some (some p)) (hcheck : udpCheck frame ≠ 0) (hi : Covered frame i)
    (hb : b ≠ byte frame i) : dpClassify e (frame.set i b) = some none := by
  have hacc : Accepted frame := by
    cases hparse : parseUdpIpv4 e frame with
    | none => simp [dpClassify, hparse] at h
    | some r =>
      cases r with
      | error rc => simp [dpClassify, hparse] at h
      | ok dg => exact (parseUdpIpv4_ok_iff.1 hparse).1
  have hright : codeSum e frame % 65535 = 0 := by
    rw [dpClassify_eq hacc, verifyUdpChecksum_eq hacc, Option.bind_some] at h
    have hcanon : canon 65536 (codeSum e frame) = 65535 := by
      by_contra hne
      simp [hcheck, hne] at h
    exact (canon_eq_top (by decide) (by unfold codeSum; omega)).1 hcanon
  obtain ⟨j, hj⟩ := codeSum_set e hacc hi b
  have hwrong : canon 65536 (codeSum e (frame.set i b)) ≠ 65535 := by
    intro hcanon
    refine not_dvd_of_set hj hb hright ?_
    exact (canon_eq_top (by decide) (by unfold codeSum; omega)).1 hcanon
  rw [dpClassify_eq (hi.accepted hacc b), verifyUdpChecksum_eq (hi.accepted hacc b),
    hi.udpCheck_eq hacc, if_neg (not_or.2 ⟨hcheck, hwrong⟩), Option.bind_some]
  simp

/-- A frame with a payload of eight bytes, as a little-endian host checks it. -/
def checkedFrame : List UInt8 :=
  List.replicate 12 0 ++ [0x08, 0x00, 0x45, 0, 0, 36, 0, 1, 0, 0, 64, 17, 0, 0] ++
    [10, 0, 0, 1, 10, 0, 0, 2] ++ [0x12, 0x34, 0x56, 0x78, 0, 16, 0x83, 0xfa] ++
    [1, 2, 3, 4, 5, 6, 7, 8]

/-- Its last byte is the 8; with a 9 there it is rejected. -/
theorem checkedFrame_detected : dpClassify .little checkedFrame = some (some 8) ∧
    dpClassify .little (checkedFrame.set 49 9) = some none := by
  have hacc : Accepted checkedFrame :=
    ⟨by decide, by decide, by decide, by decide, by decide, by decide, by decide⟩
  have hok : dpClassify .little checkedFrame = some (some 8) := by
    rw [dpClassify_eq hacc, verifyUdpChecksum_eq hacc]
    decide +kernel
  exact ⟨hok, dpClassify_detects .little hok (by decide) (by decide) (by decide)⟩

end Rewsr.Dataplane
