import Rewsr.Net.Proof.Checksum
import Rewsr.Net.Proof.Parse

/-!
# The builder

`buildUdpIpv4_eq`: a call that passes the capacity test leaves `udpFrame` at the front of the
buffer, the explicit bytes of the headers in network order with the payload behind them, and
touches nothing after it. Only the UDP check field (`builtCheck`) depends on the host.
-/

namespace Rewsr.Net

open Rewsr.Wire OnesComplement

/-! ## The headers' bytes -/

/-- The 20 bytes of the IPv4 header with a given check field. -/
def ipv4Bytes (totLen ipId check : UInt16) (srcIp dstIp : UInt32) : List UInt8 :=
  [0x45, 0] ++ be16 totLen ++ be16 ipId ++ be16 0x4000 ++ [64, ipprotoUdp] ++ be16 check ++
    be32 srcIp ++ be32 dstIp

/-- The IPv4 header's checksum. -/
def ipv4Check (totLen ipId : UInt16) (srcIp dstIp : UInt32) : UInt16 :=
  cksum (ipv4Bytes totLen ipId 0 srcIp dstIp)

/-- The 8 bytes of the UDP header with a given check field. -/
def udpHdrBytes (srcPort dstPort len check : UInt16) : List UInt8 :=
  be16 srcPort ++ be16 dstPort ++ be16 len ++ be16 check

theorem ethIpv4_bytes (e : Endian) (dst src : Mac) :
    (ethIpv4 e dst src).bytes e = dst.bytes ++ src.bytes ++ be16 ethPIp := by
  rw [EthHdr.bytes, ethIpv4, bytes16_hostToNet16]

theorem udpIpv4Hdr_bytes (e : Endian) (totLen ipId : UInt16) (srcIp dstIp : UInt32) :
    (udpIpv4Hdr e totLen ipId srcIp dstIp).bytes e =
      ipv4Bytes totLen ipId (ipv4Check totLen ipId srcIp dstIp) srcIp dstIp := by
  simp only [udpIpv4Hdr, Ipv4Hdr.bytes, bytes16_hostToNet16, bytes32_hostToNet32, bytes16_zero]
  rfl

/-- The bytes in front of the UDP check field: Ethernet header, IPv4 header, ports and length. -/
def headBytes (fl : Flow) (ipId : UInt16) (payloadLen : Nat) : List UInt8 :=
  let totLen := UInt16.ofNat (28 + payloadLen)
  fl.dstMac.bytes ++ fl.srcMac.bytes ++ be16 ethPIp ++
    ipv4Bytes totLen ipId (ipv4Check totLen ipId fl.srcIp fl.dstIp) fl.srcIp fl.dstIp ++
    be16 fl.srcPort ++ be16 fl.dstPort ++ be16 (UInt16.ofNat (8 + payloadLen))

@[simp] theorem length_headBytes (fl : Flow) (ipId : UInt16) (n : Nat) :
    (headBytes fl ipId n).length = 40 := rfl

/-! ## The frame -/

/-- The UDP checksum the builder stores for `n` payload bytes, as a host integer. -/
def builtCheck (e : Endian) (fl : Flow) (n : Nat) (payload : List UInt8) : UInt16 :=
  let udpLen := UInt16.ofNat (8 + n)
  let sum := cksumIpv4Pseudo (hostToNet32 e fl.srcIp) (hostToNet32 e fl.dstIp) ipprotoUdp udpLen
  let sum := cksumPartial (udpHdrBytes fl.srcPort fl.dstPort udpLen 0) sum
  let folded := ~~~ cksumFold (cksumPartial payload sum)
  if folded == 0 then 0xffff else folded

/-- A frame with a given UDP check field. -/
def frameWith (fl : Flow) (ipId check : UInt16) (payload : List UInt8) : List UInt8 :=
  headBytes fl ipId payload.length ++ (be16 check ++ payload)

/-- The frame the builder writes. -/
def udpFrame (e : Endian) (fl : Flow) (ipId : UInt16) (payload : List UInt8) : List UInt8 :=
  frameWith fl ipId (builtCheck e fl payload.length payload) payload

@[simp] theorem length_frameWith (fl : Flow) (ipId c : UInt16) (p : List UInt8) :
    (frameWith fl ipId c p).length = 42 + p.length := by
  simp only [frameWith, List.length_append, length_headBytes, length_be16]
  omega

@[simp] theorem length_udpFrame (e : Endian) (fl : Flow) (ipId : UInt16) (p : List UInt8) :
    (udpFrame e fl ipId p).length = 42 + p.length := length_frameWith ..

/-- What a copy of `n` bytes leaves in the place of `old`: the argument's bytes, or with `NULL` the
old ones. -/
def copied (src : Option (List UInt8)) (old : List UInt8) (n : Nat) : List UInt8 :=
  match src with
  | some p => p.take n
  | none => old

theorem length_copied {src : Option (List UInt8)} {old : List UInt8} {n : Nat}
    (hp : ∀ p, src = some p → n ≤ p.length) (hn : old.length = n) :
    (copied src old n).length = n := by
  cases src with
  | some p => simpa [copied] using hp p rfl
  | none => exact hn

/-- The payload bytes the builder sends. -/
def sentPayload (out : List UInt8) (payload : Option (List UInt8)) (n : Nat) : List UInt8 :=
  copied payload (slice out 42 n) n

theorem length_sentPayload {out : List UInt8} {payload : Option (List UInt8)} {n : Nat}
    (hp : ∀ p, payload = some p → n ≤ p.length) (hn : 42 + n ≤ out.length) :
    (sentPayload out payload n).length = n := by
  refine length_copied hp ?_
  rw [slice, List.length_take, List.length_drop]
  omega

/-- The payload copy: the bytes behind `head` become the payload sent. -/
theorem copyIn_eq {head mid tail : List UInt8} {payload : Option (List UInt8)} {off n : Nat}
    (hoff : off = head.length) (hn : mid.length = n) (hp : ∀ p, payload = some p → n ≤ p.length) :
    copyIn (head ++ (mid ++ tail)) off payload n =
      some (head ++ (copied payload mid n ++ tail)) := by
  cases payload with
  | none => rfl
  | some p =>
    have hp' := hp p rfl
    simp only [copyIn]
    split
    · rw [readN, if_pos (by omega), Option.bind_some, List.drop_zero]
      exact writeN_append hoff (by rw [List.length_take]; omega)
    · have h0 : n = 0 := by omega
      subst h0
      rw [List.length_eq_zero_iff.1 hn]
      rfl

theorem length_copyIn {out out' : List UInt8} {src : Option (List UInt8)} {off n : Nat}
    (h : copyIn out off src n = some out') : out'.length = out.length := by
  unfold copyIn at h
  split at h
  · split at h
    · obtain ⟨bs, -, hw⟩ := Option.bind_eq_some_iff.1 h
      exact length_writeN hw
    · cases h
      rfl
  · cases h
    rfl

theorem writeN_front {out bs : List UInt8} (h : bs.length ≤ out.length) :
    writeN out 0 bs = some (bs ++ out.drop bs.length) := by
  simp [writeN, h]

/-- The UDP header as the builder stores it. -/
theorem udpHdr_bytes (e : Endian) (sp dp len check : UInt16) :
    UdpHdr.bytes e { source := hostToNet16 e sp, dest := hostToNet16 e dp, len := hostToNet16 e len,
                     check := hostToNet16 e check } = udpHdrBytes sp dp len check := by
  simp only [UdpHdr.bytes, bytes16_hostToNet16, udpHdrBytes]

theorem udpHdr_bytes_zero (e : Endian) (sp dp len : UInt16) :
    UdpHdr.bytes e { source := hostToNet16 e sp, dest := hostToNet16 e dp, len := hostToNet16 e len,
                     check := 0 } = udpHdrBytes sp dp len 0 := by
  simp only [UdpHdr.bytes, bytes16_hostToNet16, bytes16_zero, udpHdrBytes]

/-- The Ethernet and IPv4 headers of a frame. -/
def ethIpBytes (fl : Flow) (ipId : UInt16) (payloadLen : Nat) : List UInt8 :=
  let totLen := UInt16.ofNat (28 + payloadLen)
  fl.dstMac.bytes ++ fl.srcMac.bytes ++ be16 ethPIp ++
    ipv4Bytes totLen ipId (ipv4Check totLen ipId fl.srcIp fl.dstIp) fl.srcIp fl.dstIp

theorem frameWith_eq (fl : Flow) (ipId c : UInt16) (p : List UInt8) : frameWith fl ipId c p =
    ethIpBytes fl ipId p.length ++
      (udpHdrBytes fl.srcPort fl.dstPort (UInt16.ofNat (8 + p.length)) c ++ p) := by
  simp only [frameWith, headBytes, ethIpBytes, udpHdrBytes, List.append_assoc]

/-- **The builder writes `udpFrame`** and nothing behind it, and returns the frame's length. -/
theorem buildUdpIpv4_eq (e : Endian) (out : List UInt8) (fl : Flow) (ipId : UInt16)
    {payload : Option (List UInt8)} {n : Nat} (hp : ∀ p, payload = some p → n ≤ p.length)
    (hout : out.length < sizeMod) (hn : 42 + n ≤ out.length) :
    buildUdpIpv4 e out fl ipId payload n =
      some (toInt (42 + n),
        udpFrame e fl ipId (sentPayload out payload n) ++ out.drop (42 + n)) := by
  have htotal : (ethHlen + ipv4Hlen + udpHlen + n) % sizeMod = 42 + n :=
    Nat.mod_eq_of_lt (Nat.lt_of_le_of_lt hn hout)
  have hlen := length_sentPayload hp hn
  have hdrop : out.drop 42 = slice out 42 n ++ out.drop (42 + n) := by
    rw [slice, ← List.drop_drop, List.take_append_drop]
  have hslice : (slice out 42 n).length = n := by
    rw [slice, List.length_take, List.length_drop]
    omega
  let hdr := udpHdrBytes fl.srcPort fl.dstPort (UInt16.ofNat (8 + n))
  have hhdr : ∀ c, (hdr c).length = (hdr 0).length := fun _ => rfl
  have h42 : 42 = (ethIpBytes fl ipId n ++ hdr 0).length := rfl
  have h34 : 34 = (ethIpBytes fl ipId n).length := rfl
  have hcopy : copyIn (ethIpBytes fl ipId n ++ hdr 0 ++ out.drop 42) 42 payload n =
      some (ethIpBytes fl ipId n ++
        (hdr 0 ++ (sentPayload out payload n ++ out.drop (42 + n)))) := by
    rw [hdrop, copyIn_eq h42 hslice hp, List.append_assoc]
    rfl
  unfold buildUdpIpv4
  rw [htotal, if_neg (by omega)]
  simp only [ethIpv4_bytes, udpIpv4Hdr_bytes, udpHdr_bytes, udpHdr_bytes_zero, Option.bind_eq_bind]
  change (writeN out 0 (ethIpBytes fl ipId n ++ hdr 0)).bind (fun out =>
    (copyIn out 42 payload n).bind fun out => (readN out 42 n).bind fun pl =>
    (writeN out 34 (hdr (builtCheck e fl n pl))).bind fun out => some (toInt (42 + n), out)) = _
  rw [writeN_front (Nat.le_trans (Nat.le_add_right 42 n) hn), Option.bind_some,
    ← h42, hcopy, Option.bind_some, ← List.append_assoc, readN_append h42 hlen.symm,
    Option.bind_some, List.append_assoc, writeN_append h34 (hhdr _), Option.bind_some, udpFrame,
    frameWith_eq, hlen]
  simp only [hdr, List.append_assoc]

/-- A call that does not fit returns -1 with the buffer as it was, or, when the sum of its lengths
wraps in `size_t`, runs over the buffer. -/
theorem buildUdpIpv4_short (e : Endian) {out : List UInt8} (fl : Flow) (ipId : UInt16)
    (payload : Option (List UInt8)) {n : Nat} (hn : out.length < 42 + n) :
    buildUdpIpv4 e out fl ipId payload n = some (-1, out) ∨
      buildUdpIpv4 e out fl ipId payload n = none := by
  by_cases ht : (ethHlen + ipv4Hlen + udpHlen + n) % sizeMod > out.length
  · exact .inl (if_pos ht)
  · refine .inr ((if_neg ht).trans ?_)
    simp only [Option.bind_eq_bind, Option.bind_eq_none_iff]
    intro out1 h1 out2 h2 pl h3
    exfalso
    have hl1 := length_writeN h1
    have hl2 := length_copyIn h2
    unfold readN at h3
    split at h3
    · rename_i hle
      change 42 + n ≤ out2.length at hle
      omega
    · cases h3

/-! ## The frame on the wire -/

section
variable {frame : List UInt8} {i : Nat}

theorem byte_slice {n k : Nat} (hk : k < n) : byte frame (i + k) = byte (slice frame i n) k := by
  rw [slice, byte, byte, List.getD_eq_getElem?_getD, List.getD_eq_getElem?_getD,
    List.getElem?_take_of_lt hk, List.getElem?_drop]

/-- Two bytes in network order load as the value. -/
theorem load16_of_slice {v : UInt16} (h : slice frame i 2 = be16 v) :
    Endian.big.load16 (byte frame i) (byte frame (i + 1)) = v := by
  rw [← Nat.add_zero i, byte_slice (show 0 < 2 by decide), Nat.add_zero,
    byte_slice (show 1 < 2 by decide), h]
  exact load16_be16 v

theorem be16At_of_slice {v : UInt16} (h : slice frame i 2 = be16 v) : be16At frame i = v.toNat := by
  rw [be16At, ← load16_big_toNat, load16_of_slice h]

/-- Four bytes in network order load as the value. -/
theorem load32_of_slice {v : UInt32} (h : slice frame i 4 = be32 v) :
    Endian.big.load32 (byte frame i) (byte frame (i + 1)) (byte frame (i + 2))
      (byte frame (i + 3)) =
      v := by
  rw [← Nat.add_zero i, byte_slice (show 0 < 4 by decide), Nat.add_zero,
    byte_slice (show 1 < 4 by decide), byte_slice (show 2 < 4 by decide),
    byte_slice (show 3 < 4 by decide), h]
  exact load32_be32 v

end

section
variable (fl : Flow) (ipId c : UInt16) (p pad : List UInt8)

theorem verIhl_frameWith : byte (frameWith fl ipId c p ++ pad) 14 = 0x45 := rfl

theorem ipHlen_frameWith : ipHlen (frameWith fl ipId c p ++ pad) = 20 := by
  rw [ipHlen, verIhl_frameWith]; rfl

theorem udpOff_frameWith : udpOff (frameWith fl ipId c p ++ pad) = 34 := by
  rw [udpOff, ipHlen_frameWith]

theorem totLen_frameWith : totLen (frameWith fl ipId c p ++ pad) = (28 + p.length) % 65536 := by
  rw [totLen, be16At_of_slice (v := UInt16.ofNat (28 + p.length)) rfl, UInt16.toNat_ofNat']

theorem udpLen_frameWith : udpLen (frameWith fl ipId c p ++ pad) = (8 + p.length) % 65536 := by
  rw [udpLen, udpOff_frameWith, be16At_of_slice (v := UInt16.ofNat (8 + p.length)) rfl,
    UInt16.toNat_ofNat']

theorem udpCheck_frameWith : udpCheck (frameWith fl ipId c p ++ pad) = c.toNat := by
  rw [udpCheck, udpOff_frameWith, be16At_of_slice (v := c) rfl]

theorem slice_append {as bs cs : List UInt8} {i n : Nat} (hi : i = as.length) (hn : n = bs.length) :
    slice (as ++ (bs ++ cs)) i n = bs := by
  subst hi hn
  simp [slice]

theorem srcAddr_frameWith : srcAddr (frameWith fl ipId c p ++ pad) = be32 fl.srcIp := rfl

theorem dstAddr_frameWith : dstAddr (frameWith fl ipId c p ++ pad) = be32 fl.dstIp := rfl

variable {p}

theorem udpBytes_frameWith (hp : p.length ≤ 65507) : udpBytes (frameWith fl ipId c p ++ pad) =
    udpHdrBytes fl.srcPort fl.dstPort (UInt16.ofNat (8 + p.length)) c ++ p := by
  rw [udpBytes, udpLen_frameWith, udpOff_frameWith, Nat.mod_eq_of_lt (by omega), frameWith_eq,
    List.append_assoc]
  exact slice_append rfl (by rw [List.length_append]; rfl)

/-- A frame of a length that fits its fields is accepted, whatever follows it. -/
theorem accepted_frameWith (hp : p.length ≤ 65507) : Accepted (frameWith fl ipId c p ++ pad) where
  ethertype := be16At_of_slice (v := ethPIp) rfl
  version := by rw [verIhl_frameWith]; rfl
  ihl := by rw [ipHlen_frameWith]
  inFrame := by
    rw [totLen_frameWith, Nat.mod_eq_of_lt (by omega), List.length_append, length_frameWith]
    omega
  proto := rfl
  udpMin := by
    rw [udpLen_frameWith, Nat.mod_eq_of_lt (by omega)]
    omega
  inDatagram := by
    rw [udpLen_frameWith, totLen_frameWith, ipHlen_frameWith, Nat.mod_eq_of_lt (by omega),
      Nat.mod_eq_of_lt (by omega)]
    omega

/-- What the parser reports of such a frame. -/
theorem datagram_frameWith (hp : p.length ≤ 65507) : datagram (frameWith fl ipId c p ++ pad) =
    { srcMac := fl.srcMac, dstMac := fl.dstMac, srcIp := fl.srcIp, dstIp := fl.dstIp,
      srcPort := fl.srcPort, dstPort := fl.dstPort, payload := 42, payloadLen := p.length } := by
  have hlen : udpLen (frameWith fl ipId c p ++ pad) - 8 = p.length := by
    rw [udpLen_frameWith, Nat.mod_eq_of_lt (by omega)]
    omega
  have hsrc := load32_of_slice (srcAddr_frameWith fl ipId c p pad)
  have hdst := load32_of_slice (dstAddr_frameWith fl ipId c p pad)
  simp only [datagram, hlen, udpOff_frameWith, UdpDatagram.mk.injEq, and_true]
  exact ⟨rfl, rfl, hsrc, hdst, load16_of_slice rfl, load16_of_slice rfl⟩

end

end Rewsr.Net
