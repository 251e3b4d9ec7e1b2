import Rewsr.Net.Proof.ByteOrder

/-!
# The parser

`parseUdpIpv4_eq`: on every buffer the parser does what `parseFields` says, its tests read as
inequalities between the frame's big-endian fields. `parseUdpIpv4_ok_iff`: it accepts the frames
with `Accepted`, and what it reports of one is `datagram`. All of these are about the frame's bytes
only, so the outcome does not depend on the host's byte order.
-/

namespace Rewsr.Net

open Rewsr.Wire

/-! ## Reads inside the frame -/

section
variable {e : Endian} {frame : List UInt8} {i : Nat}

theorem getElem?_byte (h : i < frame.length) : frame[i]? = some (byte frame i) := by
  rw [byte, List.getD_eq_getElem?_getD, List.getElem?_eq_getElem h, Option.getD_some]

theorem read8_byte (h : i < frame.length) : read8 frame i = some (byte frame i) := getElem?_byte h

theorem read16_load (h : i + 1 < frame.length) :
    read16 e frame i = some (e.load16 (byte frame i) (byte frame (i + 1))) := by
  simp only [read16, getElem?_byte (show i < frame.length by omega), getElem?_byte h,
    Option.bind_eq_bind, Option.bind_some]
  rfl

theorem read16_none (h : ¬ i + 1 < frame.length) : read16 e frame i = none := by
  have h1 : frame[i + 1]? = none := List.getElem?_eq_none (by omega)
  cases h0 : frame[i]? <;> simp [read16, h0, h1]

theorem read32_load (h : i + 3 < frame.length) : read32 e frame i = some (e.load32 (byte frame i)
    (byte frame (i + 1)) (byte frame (i + 2)) (byte frame (i + 3))) := by
  simp only [read32, getElem?_byte (show i < frame.length by omega),
    getElem?_byte (show i + 1 < frame.length by omega),
    getElem?_byte (show i + 2 < frame.length by omega), getElem?_byte h,
    Option.bind_eq_bind, Option.bind_some]
  rfl

/-- The MAC address at byte `i`. -/
def macAt (frame : List UInt8) (i : Nat) : Mac :=
  { b0 := byte frame i, b1 := byte frame (i + 1), b2 := byte frame (i + 2),
    b3 := byte frame (i + 3), b4 := byte frame (i + 4), b5 := byte frame (i + 5) }

theorem readMac_macAt (h : i + 5 < frame.length) : readMac frame i = some (macAt frame i) := by
  simp only [readMac, read8_byte (show i < frame.length by omega),
    read8_byte (show i + 1 < frame.length by omega),
    read8_byte (show i + 2 < frame.length by omega),
    read8_byte (show i + 3 < frame.length by omega),
    read8_byte (show i + 4 < frame.length by omega), read8_byte h,
    Option.bind_eq_bind, Option.bind_some]
  rfl

theorem readN_slice {n : Nat} (h : i + n ≤ frame.length) :
    readN frame i n = some (slice frame i n) :=
  if_pos h

theorem netToHost16_toNat :
    (netToHost16 e (e.load16 (byte frame i) (byte frame (i + 1)))).toNat = be16At frame i := by
  rw [netToHost16_load16, load16_big_toNat, be16At]

theorem be16At_lt : be16At frame i < 65536 := by
  have := (byte frame i).toNat_lt
  have := (byte frame (i + 1)).toNat_lt
  unfold be16At
  omega

end

/-- The header length the code computes from the IHL nibble. -/
theorem ipHlen_eq (frame : List UInt8) :
    (byte frame 14 &&& (0x0f : UInt8)).toNat * 4 = ipHlen frame := by
  rw [UInt8.toNat_and, ipHlen]
  congr 1
  exact Nat.and_two_pow_sub_one_eq_mod _ 4

/-! ## Accepted frames -/

/-- The frames that pass every test of the parser. -/
structure Accepted (frame : List UInt8) : Prop where
  ethertype : be16At frame 12 = 0x0800
  version : (byte frame 14).toNat / 16 = 4
  ihl : 20 ≤ ipHlen frame
  inFrame : 14 + totLen frame ≤ frame.length
  proto : (byte frame 23).toNat = 17
  udpMin : 8 ≤ udpLen frame
  inDatagram : ipHlen frame + udpLen frame ≤ totLen frame

/-- What the parser reports of an accepted frame. -/
def datagram (frame : List UInt8) : UdpDatagram :=
  { dstMac := macAt frame 0
    srcMac := macAt frame 6
    srcIp := Endian.big.load32 (byte frame 26) (byte frame 27) (byte frame 28) (byte frame 29)
    dstIp := Endian.big.load32 (byte frame 30) (byte frame 31) (byte frame 32) (byte frame 33)
    srcPort := Endian.big.load16 (byte frame (udpOff frame)) (byte frame (udpOff frame + 1))
    dstPort := Endian.big.load16 (byte frame (udpOff frame + 2)) (byte frame (udpOff frame + 3))
    payload := udpOff frame + 8
    payloadLen := udpLen frame - 8 }

theorem Accepted.length {frame : List UInt8} (h : Accepted frame) :
    udpOff frame + udpLen frame ≤ frame.length := by
  have h1 := h.inFrame
  have h2 := h.inDatagram
  unfold udpOff
  omega

theorem Accepted.udpOff_ge {frame : List UInt8} (h : Accepted frame) : 34 ≤ udpOff frame := by
  have := h.ihl
  unfold udpOff
  omega

/-- The test on `ver_ihl >> 4` and `ver_ihl & 0x0f`. -/
theorem verIhl_iff (v : UInt8) : (v >>> 4 ≠ 4 ∨ (v &&& (0x0f : UInt8)) < 5) ↔
    ¬ (v.toNat / 16 = 4 ∧ 20 ≤ v.toNat % 16 * 4) := by
  have hv : (v >>> 4).toNat = v.toNat / 16 := by
    simp [UInt8.toNat_shiftRight, Nat.shiftRight_eq_div_pow]
  have ha : (v &&& (0x0f : UInt8)).toNat = v.toNat % 16 := by
    rw [UInt8.toNat_and]
    exact Nat.and_two_pow_sub_one_eq_mod _ 4
  rw [UInt8.lt_iff_toNat_lt, ha, ne_eq, ← UInt8.toNat_inj, hv, not_and_or]
  simp only [UInt8.reduceToNat]
  omega

/-- The datagram the parser fills in once every test has passed. -/
theorem readDatagram {e : Endian} {frame : List UInt8} (h34 : 34 ≤ udpOff frame)
    (hlen : udpOff frame + 8 ≤ frame.length) :
    (do return .ok
          { dstMac := ← readMac frame 0
            srcMac := ← readMac frame 6
            srcIp := netToHost32 e (← read32 e frame (ethHlen + 12))
            dstIp := netToHost32 e (← read32 e frame (ethHlen + 16))
            srcPort := netToHost16 e (← read16 e frame (udpOff frame))
            dstPort := netToHost16 e (← read16 e frame (udpOff frame + 2))
            payload := udpOff frame + udpHlen
            payloadLen := udpLen frame - udpHlen } : Option (Except ParseErr UdpDatagram)) =
      some (.ok (datagram frame)) := by
  rw [readMac_macAt (by omega), readMac_macAt (by omega),
    show read32 e frame (ethHlen + 12) = _ from read32_load (i := 26) (by omega),
    show read32 e frame (ethHlen + 16) = _ from read32_load (i := 30) (by omega),
    read16_load (by omega), read16_load (by omega)]
  simp only [Option.bind_eq_bind, Option.bind_some, netToHost32_load32, netToHost16_load16]
  rfl

/-! ## The outcome on every buffer -/

/-- The version and header length tests, read off the first byte of the IPv4 header. -/
def GoodIhl (frame : List UInt8) : Prop := (byte frame 14).toNat / 16 = 4 ∧ 20 ≤ ipHlen frame

instance (frame : List UInt8) : Decidable (GoodIhl frame) :=
  inferInstanceAs (Decidable (_ ∧ _))

/-- The parser over the frame's big-endian fields, its tests in their order. The load of the UDP
length is the only one that the tests before it do not put inside the frame. -/
def parseFields (frame : List UInt8) : Option (Except ParseErr UdpDatagram) :=
  if frame.length < 42 then some (.error .short) else
  if be16At frame 12 ≠ 0x0800 then some (.error .notIpv4) else
  if ¬ GoodIhl frame then some (.error .badIhl) else
  if 14 + totLen frame > frame.length ∨ totLen frame < ipHlen frame then
    some (.error .badLen) else
  if (byte frame 23).toNat ≠ 17 then some (.error .notUdp) else
  if frame.length < udpOff frame + 6 then none else
  if udpLen frame < 8 ∨ ipHlen frame + udpLen frame > totLen frame then some (.error .badLen)
  else some (.ok (datagram frame))

/-- **The parser on every buffer**, whatever the host's byte order. -/
theorem parseUdpIpv4_eq (e : Endian) (frame : List UInt8) :
    parseUdpIpv4 e frame = parseFields frame := by
  have het : netToHost16 e (e.load16 (byte frame 12) (byte frame (12 + 1))) ≠ ethPIp ↔
      be16At frame 12 ≠ 0x0800 := by
    rw [← netToHost16_toNat (e := e), ne_eq, ← UInt16.toNat_inj]; rfl
  have hproto : byte frame 23 ≠ ipprotoUdp ↔ (byte frame 23).toNat ≠ 17 := by
    rw [ne_eq, ← UInt8.toNat_inj]; rfl
  unfold parseUdpIpv4 parseFields
  refine ite_congr rfl (fun _ => rfl) fun hlen => ?_
  rw [read16_load (by omega), Option.bind_some]
  refine ite_congr (propext het) (fun _ => rfl) fun _ => ?_
  rw [show read8 frame ethHlen = _ from read8_byte (i := 14) (by omega), Option.bind_some]
  refine ite_congr (propext (verIhl_iff _)) (fun _ => rfl) fun hihl => ?_
  rw [show read16 e frame (ethHlen + 2) = _ from read16_load (i := 16) (by omega), Option.bind_some]
  dsimp only
  rw [ipHlen_eq, netToHost16_toNat, show be16At frame 16 = totLen frame from rfl]
  refine ite_congr rfl (fun _ => rfl) fun htot => ?_
  rw [show read8 frame (ethHlen + 9) = _ from read8_byte (i := 23) (by omega), Option.bind_some]
  refine ite_congr (propext hproto) (fun _ => rfl) fun _ => ?_
  rw [show ethHlen + ipHlen frame = udpOff frame from rfl]
  by_cases hin : frame.length < udpOff frame + 6
  · rw [read16_none (by omega), Option.bind_none, if_pos hin]
  rw [read16_load (by omega), Option.bind_some, if_neg hin, netToHost16_toNat,
    show be16At frame (udpOff frame + 4) = udpLen frame from rfl]
  refine ite_congr rfl (fun _ => rfl) fun hudp => ?_
  have h20 := (Classical.not_not.1 hihl).2
  simp only [not_or, Nat.not_lt] at htot hudp
  exact readDatagram (by unfold udpOff; omega) (by unfold udpOff; omega)

/-- The code of an error is none of another error, and not `REWSR_PARSE_OK`. -/
theorem ParseErr.code_spec (err err' : ParseErr) :
    err.code < 0 ∧ (err.code = err'.code → err = err') := by
  cases err <;> cases err' <;> decide

/-- A test of the parser that an accepted frame passes. -/
theorem ite_error_eq_ok {ε α : Type} {c : Prop} [Decidable c] {x : ε} {k : Option (Except ε α)}
    {a : α} : (if c then some (.error x) else k) = some (.ok a) ↔ ¬ c ∧ k = some (.ok a) := by
  by_cases h : c <;> simp [h]

/-- **The parser accepts exactly the frames with `Accepted`** and reports their `datagram`. -/
theorem parseUdpIpv4_ok_iff {e : Endian} {frame : List UInt8} {dg : UdpDatagram} :
    parseUdpIpv4 e frame = some (.ok dg) ↔ Accepted frame ∧ dg = datagram frame := by
  rw [parseUdpIpv4_eq]
  unfold parseFields
  constructor
  · intro h
    simp only [ite_error_eq_ok, Classical.not_not, not_or, Nat.not_lt, ne_eq] at h
    obtain ⟨-, het, hihl, ⟨hin, -⟩, hproto, h⟩ := h
    split at h
    · cases h
    obtain ⟨hudp, h⟩ := ite_error_eq_ok.1 h
    simp only [not_or, Nat.not_lt] at hudp
    exact ⟨⟨het, hihl.1, hihl.2, hin, hproto, hudp.1, hudp.2⟩, by simpa using h.symm⟩
  · rintro ⟨hacc, rfl⟩
    have hlen := hacc.length
    have hoff := hacc.udpOff_ge
    have hin := hacc.inFrame
    have hmin := hacc.udpMin
    have hdg := hacc.inDatagram
    rw [if_neg (by omega), if_neg (by simp [hacc.ethertype]),
      if_neg (by simp [GoodIhl, hacc.version, hacc.ihl]), if_neg (by omega),
      if_neg (by simp [hacc.proto]), if_neg (by omega), if_neg (by omega)]

end Rewsr.Net
