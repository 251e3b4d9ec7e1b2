import Rewsr.Net.Proof.Pktgen
import Rewsr.Net.Proof.Vxlan

/-!
# What the readers of a frame touch

`parseUdpIpv4_none_iff`: the parser reads past the end of a frame exactly when it loads the UDP
length there, on a frame that holds its IPv4 header and not the six bytes behind it
(`UdpLenOutside`). The functions that call it read past the end on the same frames and on no others
(`reads_inside_iff`). What is read there decides nothing: the frame is rejected whatever it is
(`udpLen_outside_rejected`).

`accepted_self_contained`: an accepted frame is read inside its IPv4 datagram alone. Each function
has one equation on accepted frames, over bytes of the datagram, and those bytes are the same in
every buffer that starts with it (`Accepted.datagram_congr` and the lemmas around it).
-/

namespace Rewsr.Net

open Rewsr.Wire Rewsr.Dataplane

/-! ## Accepted frames -/

theorem foldlM_read8 {σ : Type} {frame : List UInt8} {off : Nat} (f : σ → UInt8 → σ) (s : σ)
    {n : Nat} (h : off + n ≤ frame.length) :
    (List.range n).foldlM (fun s i => do
      let b ← read8 frame (off + i)
      return f s b) s = some ((slice frame off n).foldl f s) := by
  rw [slice_eq_map h]
  induction n with
  | zero => rfl
  | succ n ih =>
    rw [List.range_succ, List.foldlM_append, ih (by omega), List.map_append, List.foldl_append]
    simp [read8_byte (show off + n < frame.length by omega)]

section
variable {frame : List UInt8} (h : Accepted frame)
include h

theorem pktgenReadSeq_eq (e : Endian) : pktgenReadSeq e frame =
    some (if udpLen frame < 16 then .error .badLen
      else .ok ((slice frame (udpOff frame + 8) 8).foldl
        (fun seq b => (seq <<< 8) ||| b.toUInt64) 0)) := by
  have hlen := h.length
  have hpay : (datagram frame).payload = udpOff frame + 8 := rfl
  have hpl : (datagram frame).payloadLen = udpLen frame - 8 := rfl
  rw [pktgenReadSeq, parseUdpIpv4_ok_iff.2 ⟨h, rfl⟩, Option.bind_some]
  dsimp only
  rw [hpay, hpl]
  by_cases h16 : udpLen frame < 16
  · rw [if_pos h16, if_pos (by omega)]
  · rw [if_neg h16, if_neg (by omega), foldlM_read8 _ _ (by omega)]
    rfl

theorem dpClassify_eq (e : Endian) : dpClassify e frame =
    if udpLen frame < 16 then some none
    else (verifyUdpChecksum e frame).bind fun ok =>
      if ok = 0 then some none else some (some (UInt32.ofNat (udpLen frame - 8))) := by
  have hpl : (datagram frame).payloadLen = udpLen frame - 8 := rfl
  rw [dpClassify, parseUdpIpv4_ok_iff.2 ⟨h, rfl⟩, Option.bind_some]
  dsimp only
  rw [hpl]
  by_cases h16 : udpLen frame < 16
  · rw [if_pos h16, if_pos (by omega)]
  · rw [if_neg h16, if_neg (by omega)]

end

/-! ## Reads past the end -/

/-- The frames that pass every test before the UDP length is loaded and end before it: the frame
holds the IPv4 header, which has options, and fewer than six bytes behind it. -/
structure UdpLenOutside (frame : List UInt8) : Prop where
  minLen : 42 ≤ frame.length
  ethertype : be16At frame 12 = 0x0800
  ihl : GoodIhl frame
  inFrame : 14 + totLen frame ≤ frame.length
  header : ipHlen frame ≤ totLen frame
  proto : (byte frame 23).toNat = 17
  outside : frame.length < udpOff frame + 6

theorem parseUdpIpv4_none_iff (e : Endian) (frame : List UInt8) :
    parseUdpIpv4 e frame = none ↔ UdpLenOutside frame := by
  rw [parseUdpIpv4_eq]
  unfold parseFields
  constructor
  · intro h
    split at h
    · cases h
    split at h
    · cases h
    split at h
    · cases h
    split at h
    · cases h
    split at h
    · cases h
    split at h
    · rename_i hlen het hihl htot hproto hout
      exact ⟨by omega, Classical.not_not.1 het, Classical.not_not.1 hihl, by omega, by omega,
        Classical.not_not.1 hproto, hout⟩
    split at h
    · cases h
    · cases h
  · intro h
    have hlen := h.minLen
    have hin := h.inFrame
    have hhdr := h.header
    rw [if_neg (by omega), if_neg (by simp [h.ethertype]), if_neg (by simp [h.ihl]),
      if_neg (by omega), if_neg (by simp [h.proto]), if_pos h.outside]

/-- The test that follows, of the UDP length against the datagram's, rejects such a frame whatever
length the bytes behind it give. -/
theorem udpLen_outside_rejected {frame : List UInt8} (h : UdpLenOutside frame) (len : Nat) :
    len < 8 ∨ ipHlen frame + len > totLen frame := by
  have hin := h.inFrame
  have hout := h.outside
  unfold udpOff at hout
  omega

section
variable (e : Endian) (frame : List UInt8)

/-- A function that returns on every error of the parser and on every accepted frame fails where
the parser does. -/
theorem none_iff_of_bind {α : Type} {x : Option α} {f : Except ParseErr UdpDatagram → Option α}
    (hx : x = (parseUdpIpv4 e frame).bind f) (herr : ∀ rc, f (.error rc) ≠ none)
    (hok : Accepted frame → x ≠ none) : x = none ↔ UdpLenOutside frame := by
  rw [← parseUdpIpv4_none_iff e]
  cases hp : parseUdpIpv4 e frame with
  | none => simp [hx, hp]
  | some r =>
    cases r with
    | error rc => simpa [hx, hp] using herr rc
    | ok dg => simpa using hok (parseUdpIpv4_ok_iff.1 hp).1

theorem verifyUdpChecksum_none_iff : verifyUdpChecksum e frame = none ↔ UdpLenOutside frame := by
  refine none_iff_of_bind e frame rfl (fun rc => by simp) fun hacc => ?_
  rw [verifyUdpChecksum_eq hacc]
  simp

theorem dpClassify_none_iff : dpClassify e frame = none ↔ UdpLenOutside frame := by
  refine none_iff_of_bind e frame rfl (fun rc => by simp) fun hacc => ?_
  rw [dpClassify_eq hacc, verifyUdpChecksum_eq hacc, Option.bind_some]
  split
  · simp
  · split <;> simp

theorem pktgenReadSeq_none_iff : pktgenReadSeq e frame = none ↔ UdpLenOutside frame := by
  refine none_iff_of_bind e frame rfl (fun rc => by simp) fun hacc => ?_
  rw [pktgenReadSeq_eq hacc]
  simp

theorem vxlanDecap_none_iff : vxlanDecap e frame = none ↔ UdpLenOutside frame := by
  refine none_iff_of_bind e frame rfl (fun rc => by simp) fun hacc => ?_
  rw [vxlanDecap_eq hacc]
  simp

/-- **Reads inside the frame.** The parser and the four functions that call it read bytes of the
frame alone exactly when the frame does not end between its IPv4 header and the UDP length. -/
theorem reads_inside_iff :
    ((parseUdpIpv4 e frame).isSome ∧ (verifyUdpChecksum e frame).isSome ∧
      (dpClassify e frame).isSome ∧ (pktgenReadSeq e frame).isSome ∧
      (vxlanDecap e frame).isSome) ↔ ¬ UdpLenOutside frame := by
  simp only [← Option.ne_none_iff_isSome, ne_eq, parseUdpIpv4_none_iff e frame,
    verifyUdpChecksum_none_iff e frame, dpClassify_none_iff e frame,
    pktgenReadSeq_none_iff e frame, vxlanDecap_none_iff e frame, and_self]

end

/-- A frame of 74 bytes: an Ethernet header and an IPv4 header with 40 bytes of options. -/
def headerOnly : List UInt8 :=
  List.replicate 12 0 ++ [0x08, 0x00, 0x4f, 0x00, 0x00, 0x3c, 0, 0, 0, 0, 64, 17] ++
    List.replicate 50 0

/-- On it all five functions read bytes 78 and 79. -/
theorem headerOnly_read_outside : headerOnly.length = 74 ∧ udpOff headerOnly + 4 = 78 ∧
    parseUdpIpv4 .little headerOnly = none ∧ verifyUdpChecksum .little headerOnly = none ∧
    dpClassify .little headerOnly = none ∧ pktgenReadSeq .little headerOnly = none ∧
    vxlanDecap .little headerOnly = none := by
  decide +kernel

/-! ## Self-contained frames -/

section
variable {frame frame' : List UInt8} {k : Nat} (ht : frame'.take k = frame.take k)
include ht

theorem byte_congr {i : Nat} (h : i < k) : byte frame' i = byte frame i := by
  have h' : (frame'.take k)[i]? = (frame.take k)[i]? := by rw [ht]
  rw [List.getElem?_take_of_lt h, List.getElem?_take_of_lt h] at h'
  simp only [byte, List.getD_eq_getElem?_getD, h']

theorem be16At_congr {i : Nat} (h : i + 1 < k) : be16At frame' i = be16At frame i := by
  rw [be16At, be16At, byte_congr ht (by omega), byte_congr ht h]

theorem slice_congr {i n : Nat} (h : i + n ≤ k) : slice frame' i n = slice frame i n := by
  apply List.ext_getElem?
  intro j
  by_cases hj : j < n
  · have h' : (frame'.take k)[i + j]? = (frame.take k)[i + j]? := by rw [ht]
    rw [List.getElem?_take_of_lt (by omega), List.getElem?_take_of_lt (by omega)] at h'
    rw [slice, slice, List.getElem?_take_of_lt hj, List.getElem?_take_of_lt hj,
      List.getElem?_drop, List.getElem?_drop, h']
  · rw [slice, slice, List.getElem?_take_eq_none (by omega), List.getElem?_take_eq_none (by omega)]

end

namespace Accepted

section
variable {frame frame' : List UInt8} (h : Accepted frame)
  (ht : frame'.take (14 + totLen frame) = frame.take (14 + totLen frame))
include h

/-- The datagram's end lies behind the UDP header, and the UDP header behind the IPv4 header. -/
theorem bounds : 34 ≤ udpOff frame ∧ udpOff frame + 8 ≤ udpOff frame + udpLen frame ∧
    udpOff frame + udpLen frame ≤ 14 + totLen frame := by
  have h1 := h.udpOff_ge
  have h2 := h.udpMin
  have h3 := h.inDatagram
  refine ⟨h1, by omega, ?_⟩
  unfold udpOff
  omega

include ht

theorem ipHlen_congr : ipHlen frame' = ipHlen frame := by
  obtain ⟨h34, h8, hend⟩ := h.bounds
  rw [ipHlen, ipHlen, byte_congr ht (by omega)]

theorem udpOff_congr : udpOff frame' = udpOff frame := by
  rw [udpOff, udpOff, h.ipHlen_congr ht]

theorem totLen_congr : totLen frame' = totLen frame := by
  obtain ⟨h34, h8, hend⟩ := h.bounds
  exact be16At_congr ht (by omega)

theorem udpLen_congr : udpLen frame' = udpLen frame := by
  obtain ⟨h34, h8, hend⟩ := h.bounds
  rw [udpLen, h.udpOff_congr ht, be16At_congr ht (by omega), udpLen]

theorem length_congr : 14 + totLen frame ≤ frame'.length := by
  have hlen := congrArg List.length ht
  have hin := h.inFrame
  rw [List.length_take, List.length_take] at hlen
  omega

/-- A buffer that starts with the datagram of an accepted frame is accepted. -/
theorem congr : Accepted frame' where
  ethertype := by
    obtain ⟨h34, h8, hend⟩ := h.bounds
    rw [be16At_congr ht (by omega), h.ethertype]
  version := by
    obtain ⟨h34, h8, hend⟩ := h.bounds
    rw [byte_congr ht (by omega), h.version]
  ihl := by rw [h.ipHlen_congr ht]; exact h.ihl
  inFrame := by rw [h.totLen_congr ht]; exact h.length_congr ht
  proto := by
    obtain ⟨h34, h8, hend⟩ := h.bounds
    rw [byte_congr ht (by omega), h.proto]
  udpMin := by rw [h.udpLen_congr ht]; exact h.udpMin
  inDatagram := by
    rw [h.udpLen_congr ht, h.totLen_congr ht, h.ipHlen_congr ht]
    exact h.inDatagram

theorem datagram_congr : datagram frame' = datagram frame := by
  obtain ⟨h34, h8, hend⟩ := h.bounds
  have hb : ∀ i, i < udpOff frame + 8 → byte frame' i = byte frame i :=
    fun i hi => byte_congr ht (by omega)
  simp (disch := omega) only [datagram, macAt, h.udpOff_congr ht, h.udpLen_congr ht, hb]

theorem codeSum_congr (e : Endian) : codeSum e frame' = codeSum e frame := by
  obtain ⟨h34, h8, hend⟩ := h.bounds
  rw [codeSum, codeSum, addrs, addrs, srcAddr, srcAddr, dstAddr, dstAddr, udpBytes, udpBytes,
    h.udpLen_congr ht, h.udpOff_congr ht, slice_congr ht (by omega), slice_congr ht (by omega),
    slice_congr ht hend]

theorem verifyUdpChecksum_congr (e : Endian) :
    verifyUdpChecksum e frame' = verifyUdpChecksum e frame := by
  obtain ⟨h34, h8, hend⟩ := h.bounds
  have hcheck : udpCheck frame' = udpCheck frame := by
    rw [udpCheck, h.udpOff_congr ht, be16At_congr ht (by omega), udpCheck]
  rw [verifyUdpChecksum_eq (h.congr ht), verifyUdpChecksum_eq h, hcheck, h.codeSum_congr ht]

theorem pktgenReadSeq_congr (e : Endian) : pktgenReadSeq e frame' = pktgenReadSeq e frame := by
  obtain ⟨h34, h8, hend⟩ := h.bounds
  rw [pktgenReadSeq_eq (h.congr ht), pktgenReadSeq_eq h, h.udpLen_congr ht]
  by_cases h16 : udpLen frame < 16
  · rw [if_pos h16, if_pos h16]
  · rw [if_neg h16, if_neg h16, h.udpOff_congr ht, slice_congr ht (by omega)]

theorem dpClassify_congr (e : Endian) : dpClassify e frame' = dpClassify e frame := by
  rw [dpClassify_eq (h.congr ht), dpClassify_eq h, h.udpLen_congr ht,
    h.verifyUdpChecksum_congr ht]

theorem vxlanDecap_congr (e : Endian) : vxlanDecap e frame' = vxlanDecap e frame := by
  obtain ⟨h34, h8, hend⟩ := h.bounds
  rw [vxlanDecap_eq (h.congr ht), vxlanDecap_eq h, decapFields, decapFields, h.datagram_congr ht,
    h.udpLen_congr ht, h.udpOff_congr ht]
  by_cases h16 : udpLen frame < 16
  · simp only [if_pos h16]
  · have hb : ∀ i, i < udpOff frame + 16 → byte frame' i = byte frame i :=
      fun i hi => byte_congr ht (by omega)
    simp (disch := omega) only [hb]

end

end Accepted

/-- **Accepted frames are self-contained.** The payload lies inside the IPv4 datagram and that
inside the frame, the inner frame lies inside the payload, no reader leaves the frame, and none of
them changes its outcome when the bytes behind the datagram change. -/
theorem accepted_self_contained (e : Endian) {frame : List UInt8} {dg : UdpDatagram}
    (h : parseUdpIpv4 e frame = some (.ok dg)) :
    (14 + ipHlen frame + 8 = dg.payload ∧ dg.payload + dg.payloadLen ≤ 14 + totLen frame ∧
      14 + totLen frame ≤ frame.length) ∧
    (∀ i, vxlanDecap e frame = some (.ok i) →
      dg.payload ≤ i.inner ∧ i.inner + i.innerLen ≤ dg.payload + dg.payloadLen) ∧
    ((verifyUdpChecksum e frame).isSome ∧ (pktgenReadSeq e frame).isSome ∧
      (vxlanDecap e frame).isSome ∧ (dpClassify e frame).isSome) ∧
    ∀ frame', frame'.take (14 + totLen frame) = frame.take (14 + totLen frame) →
      parseUdpIpv4 e frame' = some (.ok dg) ∧
      verifyUdpChecksum e frame' = verifyUdpChecksum e frame ∧
      pktgenReadSeq e frame' = pktgenReadSeq e frame ∧
      vxlanDecap e frame' = vxlanDecap e frame ∧ dpClassify e frame' = dpClassify e frame := by
  have hsome : ¬ UdpLenOutside frame := by
    rw [← parseUdpIpv4_none_iff e, h]
    simp
  obtain ⟨hacc, rfl⟩ := parseUdpIpv4_ok_iff.1 h
  obtain ⟨h34, h8, hend⟩ := hacc.bounds
  have hpay : (datagram frame).payload = udpOff frame + 8 := rfl
  have hpl : (datagram frame).payloadLen = udpLen frame - 8 := rfl
  refine ⟨⟨rfl, by omega, hacc.inFrame⟩, fun i hi => ?_, ?_, fun frame' ht => ?_⟩
  · obtain ⟨-, h16, hin, hil⟩ := decapFields_ok (vxlanDecap_ok hi).2
    omega
  · simp only [← Option.ne_none_iff_isSome, ne_eq, verifyUdpChecksum_none_iff,
      pktgenReadSeq_none_iff, vxlanDecap_none_iff, dpClassify_none_iff, hsome, not_false_eq_true,
      and_self]
  · exact ⟨parseUdpIpv4_ok_iff.2 ⟨hacc.congr ht, (hacc.datagram_congr ht).symm⟩,
      hacc.verifyUdpChecksum_congr ht e, hacc.pktgenReadSeq_congr ht e,
      hacc.vxlanDecap_congr ht e, hacc.dpClassify_congr ht e⟩

/-- A frame the builder emitted, and the same frame with padding. -/
theorem accepted_self_contained_built : ∃ dg,
    parseUdpIpv4 .little (udpFrame .little sampleFlow 7 [1, 2, 3]) = some (.ok dg) ∧
    dg.payload + dg.payloadLen ≤ 45 ∧
    parseUdpIpv4 .little (udpFrame .little sampleFlow 7 [1, 2, 3] ++ [0, 0]) = some (.ok dg) := by
  obtain ⟨dg, hdg⟩ : ∃ dg, parseUdpIpv4 .little (udpFrame .little sampleFlow 7 [1, 2, 3]) =
      some (.ok dg) :=
    ⟨_, parseUdpIpv4_ok_iff.2 ⟨accepted_udpFrame sampleFlow (by decide) .little 7, rfl⟩⟩
  have htot : 14 + totLen (udpFrame .little sampleFlow 7 [1, 2, 3]) = 45 := by decide +kernel
  obtain ⟨⟨-, hpay, -⟩, -, -, hcongr⟩ := accepted_self_contained .little hdg
  refine ⟨dg, hdg, by omega, (hcongr _ ?_).1⟩
  rw [htot]
  rfl

end Rewsr.Net
