import Rewsr.Host
import Rewsr.Net.Checksum

/-!
# Ethernet / IPv4 / UDP frames (`net/packet.c`)

`buildUdpIpv4` writes a frame into a caller's buffer, `parseUdpIpv4` reads one, the two
`verify` functions check its checksums. The packed header structs are Lean structures that hold
the fields as the host loads them; `bytes` is a struct's layout in memory, so that a field's
bytes are in the host's order and the code's own conversions put them in network order.

A buffer stands for a pointer and its length: `out` holds `out_cap` bytes and a frame `frame_len`
bytes. A payload argument may be `NULL` (`none`).
-/

namespace Rewsr.Net

/-! ## Byte order -/

/-- `rewsr_is_little_endian`: the first byte of a `uint16_t` holding 1. -/
def isLittleEndian (e : Endian) : Bool := (e.bytes16 1).head? == some 1

/-- `rewsr_host_to_net16` -/
def hostToNet16 (e : Endian) (v : UInt16) : UInt16 :=
  if !isLittleEndian e then v else (v <<< 8) ||| (v >>> 8)

/-- `rewsr_net_to_host16` -/
def netToHost16 (e : Endian) (v : UInt16) : UInt16 := hostToNet16 e v

/-- `rewsr_host_to_net32` -/
def hostToNet32 (e : Endian) (v : UInt32) : UInt32 :=
  if !isLittleEndian e then v
  else ((v &&& (0x000000ff : UInt32)) <<< 24) ||| ((v &&& (0x0000ff00 : UInt32)) <<< 8) |||
    ((v &&& (0x00ff0000 : UInt32)) >>> 8) ||| ((v &&& (0xff000000 : UInt32)) >>> 24)

/-- `rewsr_net_to_host32` -/
def netToHost32 (e : Endian) (v : UInt32) : UInt32 := hostToNet32 e v

/-! ## Headers -/

def ethHlen : Nat := 14
def ipv4Hlen : Nat := 20
def udpHlen : Nat := 8
def ethPIp : UInt16 := 0x0800
def ipprotoUdp : UInt8 := 17

/-- A MAC address, `uint8_t[6]`. -/
structure Mac where
  b0 : UInt8
  b1 : UInt8
  b2 : UInt8
  b3 : UInt8
  b4 : UInt8
  b5 : UInt8
  deriving DecidableEq, Repr

def Mac.bytes (m : Mac) : List UInt8 := [m.b0, m.b1, m.b2, m.b3, m.b4, m.b5]

/-- `struct rewsr_eth_hdr` -/
structure EthHdr where
  dst : Mac
  src : Mac
  ethertype : UInt16

def EthHdr.bytes (e : Endian) (h : EthHdr) : List UInt8 :=
  h.dst.bytes ++ h.src.bytes ++ e.bytes16 h.ethertype

/-- `struct rewsr_ipv4_hdr` -/
structure Ipv4Hdr where
  verIhl : UInt8
  tos : UInt8
  totLen : UInt16
  id : UInt16
  fragOff : UInt16
  ttl : UInt8
  proto : UInt8
  check : UInt16
  saddr : UInt32
  daddr : UInt32

def Ipv4Hdr.bytes (e : Endian) (h : Ipv4Hdr) : List UInt8 :=
  [h.verIhl, h.tos] ++ e.bytes16 h.totLen ++ e.bytes16 h.id ++ e.bytes16 h.fragOff ++
    [h.ttl, h.proto] ++ e.bytes16 h.check ++ e.bytes32 h.saddr ++ e.bytes32 h.daddr

/-- `struct rewsr_udp_hdr` -/
structure UdpHdr where
  source : UInt16
  dest : UInt16
  len : UInt16
  check : UInt16

def UdpHdr.bytes (e : Endian) (h : UdpHdr) : List UInt8 :=
  e.bytes16 h.source ++ e.bytes16 h.dest ++ e.bytes16 h.len ++ e.bytes16 h.check

/-- The addressing arguments of the builder and the generator, in host order. -/
structure Flow where
  srcMac : Mac
  dstMac : Mac
  srcIp : UInt32
  dstIp : UInt32
  srcPort : UInt16
  dstPort : UInt16
  deriving DecidableEq, Repr

/-! ## Building -/

/-- The outer headers' Ethernet part, shared by every IPv4 frame the code emits. -/
def ethIpv4 (e : Endian) (dst src : Mac) : EthHdr :=
  { dst, src, ethertype := hostToNet16 e ethPIp }

/-- The IPv4 header of a UDP frame, its checksum filled: the fields are stored with a zero check
field first, which is then computed over the 20 stored bytes. -/
def udpIpv4Hdr (e : Endian) (totLen ipId : UInt16) (srcIp dstIp : UInt32) : Ipv4Hdr :=
  let ip : Ipv4Hdr :=
    { verIhl := 0x45
      tos := 0
      totLen := hostToNet16 e totLen
      id := hostToNet16 e ipId
      fragOff := hostToNet16 e 0x4000
      ttl := 64
      proto := ipprotoUdp
      check := 0
      saddr := hostToNet32 e srcIp
      daddr := hostToNet32 e dstIp }
  { ip with check := hostToNet16 e (cksum (ip.bytes e)) }

/-- `memcpy(dst, src, n)` when `n > 0` and `src` is not `NULL`. -/
def copyIn (out : List UInt8) (off : Nat) (src : Option (List UInt8)) (n : Nat) :
    Option (List UInt8) :=
  match src with
  | some p => if 0 < n then (readN p 0 n).bind (writeN out off) else some out
  | none => some out

/-- `rewsr_build_udp_ipv4`: the return value and the buffer. -/
def buildUdpIpv4 (e : Endian) (out : List UInt8) (fl : Flow) (ipId : UInt16)
    (payload : Option (List UInt8)) (payloadLen : Nat) : Option (Int × List UInt8) :=
  let total := (ethHlen + ipv4Hlen + udpHlen + payloadLen) % sizeMod
  if total > out.length then some (-1, out)
  else do
    let eth := ethIpv4 e fl.dstMac fl.srcMac
    let ip := udpIpv4Hdr e (UInt16.ofNat (ipv4Hlen + udpHlen + payloadLen)) ipId fl.srcIp fl.dstIp
    let udpLen := UInt16.ofNat (udpHlen + payloadLen)
    let udp : UdpHdr :=
      { source := hostToNet16 e fl.srcPort
        dest := hostToNet16 e fl.dstPort
        len := hostToNet16 e udpLen
        check := 0 }
    let out ← writeN out 0 (eth.bytes e ++ ip.bytes e ++ udp.bytes e)
    let pl := ethHlen + ipv4Hlen + udpHlen
    let out ← copyIn out pl payload payloadLen
    -- the checksum reads the payload back from the buffer: with a `NULL` payload the bytes that
    -- were there before
    let plBytes ← readN out pl payloadLen
    let sum := cksumIpv4Pseudo ip.saddr ip.daddr ipprotoUdp udpLen
    let sum := cksumPartial (udp.bytes e) sum
    let sum := cksumPartial plBytes sum
    let folded := ~~~ cksumFold sum
    let udp := { udp with check := hostToNet16 e (if folded == 0 then 0xffff else folded) }
    let out ← writeN out (ethHlen + ipv4Hlen) (udp.bytes e)
    return (toInt total, out)

/-! ## Parsing -/

/-- `enum rewsr_parse_err`, without `REWSR_PARSE_OK` -/
inductive ParseErr where
  | short
  | notIpv4
  | badIhl
  | notUdp
  | badLen
  deriving DecidableEq, Repr

def ParseErr.code : ParseErr → Int
  | .short => -1
  | .notIpv4 => -2
  | .badIhl => -3
  | .notUdp => -4
  | .badLen => -5

/-- `struct rewsr_udp_datagram`. The payload pointer is its offset in the frame. -/
structure UdpDatagram where
  srcMac : Mac
  dstMac : Mac
  srcIp : UInt32
  dstIp : UInt32
  srcPort : UInt16
  dstPort : UInt16
  payload : Nat
  payloadLen : Nat
  deriving DecidableEq, Repr

/-- A `memcpy` of the six bytes at byte `i`. -/
def readMac (buf : List UInt8) (i : Nat) : Option Mac := do
  return { b0 := ← read8 buf i, b1 := ← read8 buf (i + 1), b2 := ← read8 buf (i + 2),
           b3 := ← read8 buf (i + 3), b4 := ← read8 buf (i + 4), b5 := ← read8 buf (i + 5) }

/-- `rewsr_parse_udp_ipv4` with an `out` that is not `NULL`. A field is read at its offset in its
packed struct, behind the frame bytes before that struct. -/
def parseUdpIpv4 (e : Endian) (frame : List UInt8) : Option (Except ParseErr UdpDatagram) :=
  if frame.length < ethHlen + ipv4Hlen + udpHlen then some (.error .short) else
  (read16 e frame 12).bind fun ethertype =>
  if netToHost16 e ethertype ≠ ethPIp then some (.error .notIpv4) else
  (read8 frame ethHlen).bind fun verIhl =>
  let version := verIhl >>> 4
  let ihlWords := verIhl &&& (0x0f : UInt8)
  if version ≠ 4 ∨ ihlWords < 5 then some (.error .badIhl) else
  let ipHlen := ihlWords.toNat * 4
  (read16 e frame (ethHlen + 2)).bind fun ipTotLen =>
  let totLen := (netToHost16 e ipTotLen).toNat
  if ethHlen + totLen > frame.length ∨ totLen < ipHlen then some (.error .badLen) else
  (read8 frame (ethHlen + 9)).bind fun proto =>
  if proto ≠ ipprotoUdp then some (.error .notUdp) else
  let udp := ethHlen + ipHlen
  (read16 e frame (udp + 4)).bind fun len =>
  let udpLen := (netToHost16 e len).toNat
  if udpLen < udpHlen ∨ ipHlen + udpLen > totLen then some (.error .badLen) else do
    return .ok
      { dstMac := ← readMac frame 0
        srcMac := ← readMac frame 6
        srcIp := netToHost32 e (← read32 e frame (ethHlen + 12))
        dstIp := netToHost32 e (← read32 e frame (ethHlen + 16))
        srcPort := netToHost16 e (← read16 e frame udp)
        dstPort := netToHost16 e (← read16 e frame (udp + 2))
        payload := udp + udpHlen
        payloadLen := udpLen - udpHlen }

/-! ## Verifying -/

/-- `rewsr_verify_ipv4_checksum` -/
def verifyIpv4Checksum (frame : List UInt8) : Option Int :=
  if frame.length < ethHlen + ipv4Hlen then some 0 else
  (read8 frame ethHlen).bind fun verIhl =>
  let ipHlen := (verIhl &&& (0x0f : UInt8)).toNat * 4
  if frame.length < ethHlen + ipHlen then some 0 else
  (readN frame ethHlen ipHlen).bind fun ip =>
  some (if cksum ip = 0 then 1 else 0)

/-- `rewsr_verify_udp_checksum` -/
def verifyUdpChecksum (e : Endian) (frame : List UInt8) : Option Int :=
  (parseUdpIpv4 e frame).bind fun
  | .error _ => some 0
  | .ok _ =>
    (read8 frame ethHlen).bind fun verIhl =>
    let ipHlen := (verIhl &&& (0x0f : UInt8)).toNat * 4
    let udp := ethHlen + ipHlen
    (read16 e frame (udp + 6)).bind fun check =>
    if check = 0 then some 1 else do
      let udpLen := netToHost16 e (← read16 e frame (udp + 4))
      let saddr ← read32 e frame (ethHlen + 12)
      let daddr ← read32 e frame (ethHlen + 16)
      let sum := cksumIpv4Pseudo saddr daddr ipprotoUdp udpLen
      let sum := cksumPartial (← readN frame udp udpLen.toNat) sum
      return if cksumFold sum = 0xffff then 1 else 0

end Rewsr.Net
