import Rewsr.Net.BigEndian
import Rewsr.Net.Packet

/-!
# The packet generator (`net/pktgen.c`)

A generator owns a template frame. `pktgenNext` copies it into the caller's buffer, stamps the
IPv4 id and the 64-bit sequence number, and corrects the two checksums incrementally.
-/

namespace Rewsr.Net

def ipIdOff : Nat := ethHlen + 4
def ipCheckOff : Nat := ethHlen + 10
def udpCheckOff : Nat := ethHlen + ipv4Hlen + 6
def payloadOff : Nat := ethHlen + ipv4Hlen + udpHlen

/-- `sizeof g->tmpl` -/
def tmplCap : Nat := ethHlen + ipv4Hlen + udpHlen + 2048

/-- `struct rewsr_pktgen` -/
structure Pktgen where
  tmpl : List UInt8
  frameLen : Nat
  payloadLen : Nat
  baseIpId : UInt16
  ipId : UInt16
  seq : UInt64
  ipCheckBase : UInt16
  udpCheckBase : UInt16
  deriving DecidableEq, Repr

/-- The pattern the initialiser writes at the payload bytes from 8 on. -/
def pattern (payloadLen : Nat) : List UInt8 :=
  (List.range' 8 (payloadLen - 8)).map fun i => 0xa0 ^^^ UInt8.ofNat (i &&& 0xff)

/-- `rewsr_pktgen_init`: the new generator, or the -1 it returns. -/
def pktgenInit (e : Endian) (fl : Flow) (payloadLen : Nat) : Option (Except Int Pktgen) :=
  if payloadLen < 8 ∨ payloadLen > 2048 then some (.error (-1)) else do
    let baseIpId : UInt16 := 0x1000
    -- of the local `payload[2048]` only the first `payload_len` bytes are set, and read
    let payload := List.replicate 8 0 ++ pattern payloadLen
    let (n, tmpl) ← buildUdpIpv4 e (List.replicate tmplCap 0) fl baseIpId (some payload) payloadLen
    if n < 0 then return .error (-1)
    let ipCheckBase ← loadBe16 tmpl ipCheckOff
    let udpCheckBase ← loadBe16 tmpl udpCheckOff
    return .ok
      { tmpl, frameLen := n.toNat, payloadLen, baseIpId, ipId := baseIpId, seq := 0,
        ipCheckBase, udpCheckBase }

/-- One round of the loop over the sequence number's four words. -/
def stampWord (seq : UInt64) (s : List UInt8 × UInt16) (w : Nat) :
    Option (List UInt8 × UInt16) := do
  let (out, udpCheck) := s
  let oldWord ← loadBe16 out (payloadOff + w * 2)
  let newWord := ((seq >>> UInt64.ofNat (48 - w * 16)) &&& (0xffff : UInt64)).toUInt16
  let out ← storeBe16 out (payloadOff + w * 2) newWord
  return (out, cksumUpdate udpCheck oldWord newWord)

/-- `rewsr_pktgen_next`: the return value, the generator and the buffer. -/
def pktgenNext (g : Pktgen) (out : List UInt8) : Option (Int × Pktgen × List UInt8) :=
  if out.length < g.frameLen then some (-1, g, out) else do
    let tmpl ← readN g.tmpl 0 g.frameLen
    let out ← writeN out 0 tmpl
    let oldId := g.baseIpId
    let newId := g.ipId
    let out ← storeBe16 out ipIdOff newId
    let out ← storeBe16 out ipCheckOff (cksumUpdate g.ipCheckBase oldId newId)
    let (out, udpCheck) ← [0, 1, 2, 3].foldlM (stampWord g.seq) (out, g.udpCheckBase)
    let out ← storeBe16 out udpCheckOff udpCheck
    return (toInt g.frameLen, { g with ipId := g.ipId + 1, seq := g.seq + 1 }, out)

/-- `rewsr_pktgen_frame_len` -/
def pktgenFrameLen (g : Pktgen) : Nat := g.frameLen

/-- `rewsr_pktgen_read_seq`: the error code, or the sequence number. -/
def pktgenReadSeq (e : Endian) (frame : List UInt8) : Option (Except ParseErr UInt64) :=
  (parseUdpIpv4 e frame).bind fun
  | .error rc => some (.error rc)
  | .ok dg =>
    if dg.payloadLen < 8 then some (.error .badLen) else do
      let seq ← (List.range 8).foldlM (fun (seq : UInt64) i => do
        let b ← read8 frame (dg.payload + i)
        return (seq <<< 8) ||| b.toUInt64) (0 : UInt64)
      return .ok seq

/-! ## Runs of a generator -/

/-- A sequence of calls, one for each buffer: the frames of those that succeed, in order, and the
generator after the last. -/
def pktgenRun (g : Pktgen) : List (List UInt8) → Option (List (List UInt8) × Pktgen)
  | [] => some ([], g)
  | out :: outs => do
    let (n, g, out) ← pktgenNext g out
    let (frames, g) ← pktgenRun g outs
    return (if n < 0 then frames else out.take n.toNat :: frames, g)

end Rewsr.Net
