import Rewsr.Net.BigEndian
import Rewsr.Net.Packet

/-!
# ARP (`net/arp.c`)

`arpBuildRequest` and `arpBuildReply` write a frame into a caller's buffer, `arpParse` reads one,
and `arpIsRequestFor` tells the frames to answer. Only the Ethernet type goes through the host's
byte order.
-/

namespace Rewsr.Net

def arpHtypeEthernet : UInt16 := 1
def arpPtypeIpv4 : UInt16 := 0x0800
def arpOpRequest : UInt16 := 1
def arpOpReply : UInt16 := 2
def ethPArp : UInt16 := 0x0806
def ethAlen : UInt8 := 6
def arpFrameLen : Nat := ethHlen + 28

/-! ## Offsets -/

def arpOff : Nat := ethHlen
def arpHtype : Nat := arpOff + 0
def arpPtype : Nat := arpOff + 2
def arpHlen : Nat := arpOff + 4
def arpPlen : Nat := arpOff + 5
def arpOper : Nat := arpOff + 6
def arpSha : Nat := arpOff + 8
def arpSpa : Nat := arpOff + 14
def arpTha : Nat := arpOff + 18
def arpTpa : Nat := arpOff + 24

/-! ## Building -/

/-- `BROADCAST_MAC` -/
def broadcastMac : Mac := ⟨0xff, 0xff, 0xff, 0xff, 0xff, 0xff⟩

/-- `build_common` -/
def buildCommon (e : Endian) (out : List UInt8) (dstMac senderMac : Mac) (senderIp : UInt32)
    (oper : UInt16) : Option (List UInt8) := do
  let eth : EthHdr := { dst := dstMac, src := senderMac, ethertype := hostToNet16 e ethPArp }
  let out ← writeN out 0 (eth.bytes e)
  let out ← storeBe16 out arpHtype arpHtypeEthernet
  let out ← storeBe16 out arpPtype arpPtypeIpv4
  let out ← writeN out arpHlen [ethAlen]
  let out ← writeN out arpPlen [4]
  let out ← storeBe16 out arpOper oper
  let out ← writeN out arpSha senderMac.bytes
  storeBe32 out arpSpa senderIp

/-- `rewsr_arp_build_request`: the return value and the buffer. -/
def arpBuildRequest (e : Endian) (out : List UInt8) (senderMac : Mac)
    (senderIp targetIp : UInt32) : Option (Int × List UInt8) :=
  if out.length < arpFrameLen then some (-1, out)
  else do
    let out ← buildCommon e out broadcastMac senderMac senderIp arpOpRequest
    let out ← writeN out arpTha (List.replicate 6 0)
    let out ← storeBe32 out arpTpa targetIp
    return (arpFrameLen, out)

/-- `rewsr_arp_build_reply` -/
def arpBuildReply (e : Endian) (out : List UInt8) (senderMac : Mac) (senderIp : UInt32)
    (targetMac : Mac) (targetIp : UInt32) : Option (Int × List UInt8) :=
  if out.length < arpFrameLen then some (-1, out)
  else do
    let out ← buildCommon e out targetMac senderMac senderIp arpOpReply
    let out ← writeN out arpTha targetMac.bytes
    let out ← storeBe32 out arpTpa targetIp
    return (arpFrameLen, out)

/-! ## Parsing -/

/-- `struct rewsr_arp` -/
structure Arp where
  oper : UInt16
  senderMac : Mac
  senderIp : UInt32
  targetMac : Mac
  targetIp : UInt32
  deriving DecidableEq, Repr

/-- `rewsr_arp_parse` with an `out` that is not `NULL`. -/
def arpParse (e : Endian) (frame : List UInt8) : Option (Except ParseErr Arp) :=
  if frame.length < arpFrameLen then some (.error .short) else
  (read16 e frame 12).bind fun ethertype =>
  if netToHost16 e ethertype ≠ ethPArp then some (.error .notIpv4) else
  (loadBe16 frame arpHtype).bind fun htype =>
  (loadBe16 frame arpPtype).bind fun ptype =>
  (read8 frame arpHlen).bind fun hlen =>
  (read8 frame arpPlen).bind fun plen =>
  if htype ≠ arpHtypeEthernet ∨ ptype ≠ arpPtypeIpv4 ∨ hlen ≠ ethAlen ∨ plen ≠ 4 then
    some (.error .badIhl)
  else do
    return .ok
      { oper := ← loadBe16 frame arpOper
        senderMac := ← readMac frame arpSha
        senderIp := ← loadBe32 frame arpSpa
        targetMac := ← readMac frame arpTha
        targetIp := ← loadBe32 frame arpTpa }

/-- `rewsr_arp_is_request_for` -/
def arpIsRequestFor (e : Endian) (frame : List UInt8) (ip : UInt32) : Option Int :=
  (arpParse e frame).bind fun
  | .error _ => some 0
  | .ok arp => some (if arp.oper = arpOpRequest ∧ arp.targetIp = ip then 1 else 0)

end Rewsr.Net
