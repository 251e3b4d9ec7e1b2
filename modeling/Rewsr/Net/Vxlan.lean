import Rewsr.Net.Packet

/-!
# VXLAN encapsulation (`net/vxlan.c`)

`vxlanEncap` puts an inner frame behind outer Ethernet, IPv4, UDP and VXLAN headers, `vxlanDecap`
finds it again.
-/

namespace Rewsr.Net

def vxlanHlen : Nat := 8
def vxlanPort : UInt16 := 4789
def vxlanFlagVni : UInt8 := 0x08
def vxlanOverhead : Nat := ethHlen + ipv4Hlen + udpHlen + vxlanHlen

/-- The 24-bit network id field, `uint8_t[3]`. -/
structure Vni where
  b0 : UInt8
  b1 : UInt8
  b2 : UInt8
  deriving DecidableEq, Repr

/-- `rewsr_vxlan_read_vni` -/
def vxlanReadVni (vni : Vni) : UInt32 :=
  (vni.b0.toUInt32 <<< 16) ||| (vni.b1.toUInt32 <<< 8) ||| vni.b2.toUInt32

/-- `rewsr_vxlan_write_vni` -/
def vxlanWriteVni (value : UInt32) : Vni :=
  { b0 := ((value >>> 16) &&& (0xff : UInt32)).toUInt8
    b1 := ((value >>> 8) &&& (0xff : UInt32)).toUInt8
    b2 := (value &&& (0xff : UInt32)).toUInt8 }

/-- `struct rewsr_vxlan_hdr`; the reserved bytes are zero. -/
structure VxlanHdr where
  flags : UInt8
  vni : Vni

def VxlanHdr.bytes (h : VxlanHdr) : List UInt8 :=
  [h.flags, 0, 0, 0, h.vni.b0, h.vni.b1, h.vni.b2, 0]

/-- `struct rewsr_vxlan_tunnel` -/
structure VxlanTunnel where
  outerSrcMac : Mac
  outerDstMac : Mac
  outerSrcIp : UInt32
  outerDstIp : UInt32
  srcPort : UInt16
  vni : UInt32
  deriving DecidableEq, Repr

/-- `rewsr_vxlan_encap`: the return value and the memory behind `out`, which may be larger than
the `out_cap` that the caller states. -/
def vxlanEncap (e : Endian) (out : List UInt8) (outCap : Nat) (tun : VxlanTunnel)
    (inner : Option (List UInt8)) (innerLen : Nat) (ipId : UInt16) : Option (Int × List UInt8) :=
  if tun.vni > 0xffffff then some (-1, out) else
  let total := (vxlanOverhead + innerLen) % sizeMod
  if total > outCap then some (-1, out)
  else do
    let eth := ethIpv4 e tun.outerDstMac tun.outerSrcMac
    let ipTotal := UInt16.ofNat (ipv4Hlen + udpHlen + vxlanHlen + innerLen)
    let ip := udpIpv4Hdr e ipTotal ipId tun.outerSrcIp tun.outerDstIp
    let udp : UdpHdr :=
      { source := hostToNet16 e tun.srcPort
        dest := hostToNet16 e vxlanPort
        len := hostToNet16 e (UInt16.ofNat (udpHlen + vxlanHlen + innerLen))
        check := 0 }
    let vx : VxlanHdr := { flags := vxlanFlagVni, vni := vxlanWriteVni tun.vni }
    let out ← writeN out 0 (eth.bytes e ++ ip.bytes e ++ udp.bytes e ++ vx.bytes)
    let out ← copyIn out vxlanOverhead inner innerLen
    return (toInt total, out)

/-- What `rewsr_vxlan_decap` reports: the inner frame's offset, its length and the network id. -/
structure VxlanInner where
  inner : Nat
  innerLen : Nat
  vni : UInt32
  deriving DecidableEq, Repr

/-- `rewsr_vxlan_decap` -/
def vxlanDecap (e : Endian) (frame : List UInt8) : Option (Except ParseErr VxlanInner) :=
  (parseUdpIpv4 e frame).bind fun
  | .error rc => some (.error rc)
  | .ok dg =>
    if dg.dstPort ≠ vxlanPort then some (.error .notUdp) else
    if dg.payloadLen < vxlanHlen then some (.error .badLen) else
    (read8 frame dg.payload).bind fun flags =>
    if flags &&& vxlanFlagVni = 0 then some (.error .badIhl) else do
      let vni : Vni :=
        { b0 := ← read8 frame (dg.payload + 4)
          b1 := ← read8 frame (dg.payload + 5)
          b2 := ← read8 frame (dg.payload + 6) }
      return .ok
        { inner := dg.payload + vxlanHlen
          innerLen := dg.payloadLen - vxlanHlen
          vni := vxlanReadVni vni }

/-! ## Tunnels inside tunnels -/

/-- The arguments of an encapsulation that do not depend on the inner frame. -/
structure EncapCall where
  out : List UInt8
  outCap : Nat
  tun : VxlanTunnel
  ipId : UInt16
  deriving DecidableEq, Repr

/-- Encapsulates a frame again and again, the innermost tunnel first; `none` when a call fails. -/
def encapNest (e : Endian) : List EncapCall → List UInt8 → Option (List UInt8)
  | [], frame => some frame
  | c :: cs, frame => do
    let (n, out) ← vxlanEncap e c.out c.outCap c.tun (some frame) frame.length c.ipId
    if n < 0 then none else encapNest e cs (out.take n.toNat)

/-- Decapsulates `k` times: the network ids, the outermost first, and the frame inside; `none` when
a call fails. -/
def decapNest (e : Endian) : Nat → List UInt8 → Option (List UInt32 × List UInt8)
  | 0, frame => some ([], frame)
  | k + 1, frame =>
    (vxlanDecap e frame).bind fun
    | .error _ => none
    | .ok i => do
      let inner ← readN frame i.inner i.innerLen
      let (vnis, frame) ← decapNest e k inner
      return (i.vni :: vnis, frame)

end Rewsr.Net
