import Rewsr.Lib.Counter
import Rewsr.Net.Packet

/-!
# Link messages of rtnetlink (`net/netlink.c`)

The parser of the body of an `RTM_NEWLINK` message: an `ifinfomsg` and attributes, each a header of
four bytes and a payload, at offsets that are multiples of four. All fields are in the host's order.
-/

namespace Rewsr

/-- A `uint64_t` from its bytes, lowest address first. -/
def Endian.load64 (e : Endian) (b0 b1 b2 b3 b4 b5 b6 b7 : UInt8) : UInt64 :=
  match e with
  | .little => (e.load32 b0 b1 b2 b3).toUInt64 ||| ((e.load32 b4 b5 b6 b7).toUInt64 <<< 32)
  | .big => ((e.load32 b0 b1 b2 b3).toUInt64 <<< 32) ||| (e.load32 b4 b5 b6 b7).toUInt64

/-- A `uint64_t` load at byte `i`. -/
def read64 (e : Endian) (buf : List UInt8) (i : Nat) : Option UInt64 := do
  let b0 ← buf[i]?
  let b1 ← buf[i + 1]?
  let b2 ← buf[i + 2]?
  let b3 ← buf[i + 3]?
  let b4 ← buf[i + 4]?
  let b5 ← buf[i + 5]?
  let b6 ← buf[i + 6]?
  let b7 ← buf[i + 7]?
  return e.load64 b0 b1 b2 b3 b4 b5 b6 b7

namespace Net

def iflaAddress : UInt16 := 1
def iflaIfname : UInt16 := 3
def iflaMtu : UInt16 := 4
def iflaOperstate : UInt16 := 16
def iflaStats64 : UInt16 := 23

/-- `sizeof(struct rewsr_ifinfomsg)` -/
def ifinfomsgLen : Nat := 16

/-- `sizeof(struct rewsr_rtattr)` -/
def rtattrLen : Nat := 4

/-- `REWSR_RTA_ALIGN`, of a length that was widened before. -/
def rtaAlign (len : UInt16) : Nat := ((len.toUInt64 + 4 - 1) &&& ~~~ ((4 : UInt64) - 1)).toNat

/-- `struct rewsr_link_info`, its flags as booleans. -/
structure LinkInfo where
  index : Int
  name : List UInt8
  mtu : UInt32
  operState : UInt8
  mac : Mac
  hasMac : Bool
  rxPackets : UInt64
  txPackets : UInt64
  rxBytes : UInt64
  txBytes : UInt64
  hasStats : Bool
  deriving DecidableEq, Repr

/-- The info after the `memset`. -/
def LinkInfo.zero : LinkInfo where
  index := 0
  name := List.replicate 16 0
  mtu := 0
  operState := 0
  mac := ⟨0, 0, 0, 0, 0, 0⟩
  hasMac := false
  rxPackets := 0
  txPackets := 0
  rxBytes := 0
  txBytes := 0
  hasStats := false

/-- The `switch` on the type of an attribute, with its payload of `plen` bytes at byte `payload`. -/
def nlAttr (e : Endian) (msg : List UInt8) (payload plen : Nat) (type : UInt16) (out : LinkInfo) :
    Option LinkInfo :=
  if type = iflaIfname then do
    let n := if plen ≥ 16 then 16 - 1 else plen
    let name ← writeN out.name 0 (← readN msg payload n)
    let name ← writeN name n [0]
    return { out with name }
  else if type = iflaMtu then
    if plen ≥ 4 then do
      return { out with mtu := ← read32 e msg payload }
    else some out
  else if type = iflaOperstate then
    if plen ≥ 1 then do
      return { out with operState := ← read8 msg payload }
    else some out
  else if type = iflaAddress then
    if plen ≥ 6 then do
      return { out with mac := ← readMac msg payload, hasMac := true }
    else some out
  else if type = iflaStats64 then
    if plen ≥ 32 then do
      return { out with
        rxPackets := ← read64 e msg payload
        txPackets := ← read64 e msg (payload + 8)
        rxBytes := ← read64 e msg (payload + 16)
        txBytes := ← read64 e msg (payload + 24)
        hasStats := true }
    else some out
  else some out

theorem rtaAlign_eq (len : UInt16) : rtaAlign len = (len.toNat + 3) / 4 * 4 := by
  have hlt := len.toNat_lt
  have hsum : (len.toUInt64 + 4 - 1).toNat = len.toNat + 3 := by
    have h4 : (4 : UInt64).toNat = 4 := rfl
    rw [UInt64.toNat_sub, UInt64.toNat_add, UInt64.toNat_one, UInt16.toNat_toUInt64, h4]
    omega
  rw [rtaAlign, Counter.toNat_and_not_mask (m := 4) (k := 2) rfl, hsum]
  rfl

/-- The `while` loop over the attributes from byte `off` on. -/
def nlWalk (e : Endian) (msg : List UInt8) (off : Nat) (out : LinkInfo) : Option LinkInfo :=
  if off + rtattrLen ≤ msg.length then
    match read16 e msg off, read16 e msg (off + 2) with
    | some rtaLen, some rtaType =>
      if rtaLen.toNat < rtattrLen ∨ off + rtaLen.toNat > msg.length then some out
      else
        match nlAttr e msg (off + rtattrLen) (rtaLen.toNat - rtattrLen) rtaType out with
        | none => none
        | some out => nlWalk e msg (off + rtaAlign rtaLen) out
    | _, _ => none
  else some out
termination_by msg.length - off
decreasing_by
  rw [rtaAlign_eq]
  unfold rtattrLen at *
  omega

/-- `rewsr_nl_parse_link`: the return value and `*out`. -/
def nlParseLink (e : Endian) (msg : List UInt8) (out : LinkInfo) : Option (Int × LinkInfo) :=
  if msg.length < ifinfomsgLen then some (-1, out)
  else do
    let index ← read32 e msg 4
    let out ← nlWalk e msg ifinfomsgLen { LinkInfo.zero with index := toInt index.toNat }
    return (0, out)

end Net

end Rewsr
