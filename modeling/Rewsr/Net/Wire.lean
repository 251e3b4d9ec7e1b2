import Rewsr.Lib.OnesComplement

/-!
# Frames as the standards read them

Byte positions and big-endian fields of an Ethernet / IPv4 / UDP frame, and the checksum of
RFC 768, over the bytes of the frame alone: nothing here depends on a host or on the code. The
code's frames are compared with these readings.
-/

namespace Rewsr.Wire

open OnesComplement

/-- The byte at `i` (0 past the end). -/
def byte (frame : List UInt8) (i : Nat) : UInt8 := frame.getD i 0

/-- The big-endian 16-bit field at byte `i`. -/
def be16At (frame : List UInt8) (i : Nat) : Nat :=
  256 * (byte frame i).toNat + (byte frame (i + 1)).toNat

/-- The `n` bytes from byte `i` on. -/
def slice (frame : List UInt8) (i n : Nat) : List UInt8 := (frame.drop i).take n

/-- The IPv4 header's length in bytes, from its IHL nibble. -/
def ipHlen (frame : List UInt8) : Nat := (byte frame 14).toNat % 16 * 4

/-- The IPv4 total length field. -/
def totLen (frame : List UInt8) : Nat := be16At frame 16

/-- Where the UDP header starts. -/
def udpOff (frame : List UInt8) : Nat := 14 + ipHlen frame

/-- The UDP length field. -/
def udpLen (frame : List UInt8) : Nat := be16At frame (udpOff frame + 4)

/-- The UDP check field. -/
def udpCheck (frame : List UInt8) : Nat := be16At frame (udpOff frame + 6)

/-- The UDP datagram: header and payload. -/
def udpBytes (frame : List UInt8) : List UInt8 := slice frame (udpOff frame) (udpLen frame)

/-- The pseudo-header of RFC 768: the two addresses, a zero byte, the protocol and the UDP
length. -/
def pseudoHeader (frame : List UInt8) : List UInt8 :=
  slice frame 26 4 ++ slice frame 30 4 ++ [0, 17] ++ slice frame (udpOff frame + 4) 2

/-- A datagram with a zero check field. -/
def zeroCheck (udp : List UInt8) : List UInt8 := udp.take 6 ++ [0, 0] ++ udp.drop 8

/-- The RFC 768 sum of the frame's own bytes, the check field included. -/
def udpSum (frame : List UInt8) : Nat := onesSum (pseudoHeader frame ++ udpBytes frame)

/-- The RFC 768 checksum: the complement of the sum with a zero check field, a result of zero sent
as all ones. -/
def rfc768 (frame : List UInt8) : Nat :=
  let c := 0xffff - onesSum (pseudoHeader frame ++ zeroCheck (udpBytes frame))
  if c = 0 then 0xffff else c

/-- The frame's addresses, most significant byte first. -/
def srcAddr (frame : List UInt8) : List UInt8 := slice frame 26 4
def dstAddr (frame : List UInt8) : List UInt8 := slice frame 30 4

end Rewsr.Wire
