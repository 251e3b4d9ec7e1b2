import Rewsr.Host

/-!
# Big-endian words (`net/pktgen.c`, `net/arp.c`)

The stores and loads that both files have of their own, byte by byte and so in network order on
every host. A pointer is a buffer and the byte in it that it points at.
-/

namespace Rewsr.Net

/-- `store_be16` at byte `i` of `buf`. -/
def storeBe16 (buf : List UInt8) (i : Nat) (v : UInt16) : Option (List UInt8) :=
  writeN buf i [(v >>> 8).toUInt8, (v &&& (0xff : UInt16)).toUInt8]

/-- `store_be32` at byte `i` of `buf`. -/
def storeBe32 (buf : List UInt8) (i : Nat) (v : UInt32) : Option (List UInt8) :=
  writeN buf i
    [(v >>> 24).toUInt8, ((v >>> 16) &&& (0xff : UInt32)).toUInt8,
      ((v >>> 8) &&& (0xff : UInt32)).toUInt8, (v &&& (0xff : UInt32)).toUInt8]

/-- `load_be16` at byte `i` of `buf`. -/
def loadBe16 (buf : List UInt8) (i : Nat) : Option UInt16 := do
  let p0 ← read8 buf i
  let p1 ← read8 buf (i + 1)
  return (p0.toUInt16 <<< 8) ||| p1.toUInt16

/-- `load_be32` at byte `i` of `buf`. -/
def loadBe32 (buf : List UInt8) (i : Nat) : Option UInt32 := do
  let p0 ← read8 buf i
  let p1 ← read8 buf (i + 1)
  let p2 ← read8 buf (i + 2)
  let p3 ← read8 buf (i + 3)
  return (p0.toUInt32 <<< 24) ||| (p1.toUInt32 <<< 16) ||| (p2.toUInt32 <<< 8) ||| p3.toUInt32

end Rewsr.Net
