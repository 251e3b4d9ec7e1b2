import Rewsr.Net.Packet

/-!
# 802.1Q tags (`net/vlan.c`)

A frame is the first `frameLen` bytes of a buffer; the capacity of the buffer is its length. A
`tci_out` argument is `NULL` (`none`) or what it points at, and the functions that take one return
what it points at afterwards.
-/

namespace Rewsr.Net

def ethP8021Q : UInt16 := 0x8100
def vlanTagLen : Nat := 4
def vlanTpidOff : Nat := 12
def vlanTciOff : Nat := 14

/-! ## The fields of a TCI -/

/-- `rewsr_vlan_tci` -/
def vlanTci (pcp : UInt8) (dei : Int) (vid : UInt16) : UInt16 :=
  let tci := (pcp &&& (0x7 : UInt8)).toUInt16 <<< 13
  let tci := if dei ≠ 0 then tci ||| ((1 : UInt16) <<< 12) else tci
  tci ||| (vid &&& (0x0fff : UInt16))

/-- `rewsr_vlan_vid` -/
def vlanVid (tci : UInt16) : UInt16 := tci &&& (0x0fff : UInt16)

/-- `rewsr_vlan_pcp` -/
def vlanPcp (tci : UInt16) : UInt8 := ((tci >>> 13) &&& (0x7 : UInt16)).toUInt8

/-- `rewsr_vlan_dei` -/
def vlanDei (tci : UInt16) : Int := ((tci >>> 12) &&& (0x1 : UInt16)).toNat

/-! ## Frames -/

/-- The big-endian word at byte `i`. -/
def readWord (buf : List UInt8) (i : Nat) : Option UInt16 := do
  let hi ← read8 buf i
  let lo ← read8 buf (i + 1)
  return (hi.toUInt16 <<< 8) ||| lo.toUInt16

/-- `memmove(buf + dst, buf + src, n)` -/
def memmove (buf : List UInt8) (dst src n : Nat) : Option (List UInt8) :=
  (readN buf src n).bind (writeN buf dst)

/-- `rewsr_vlan_is_tagged` -/
def vlanIsTagged (buf : List UInt8) (frameLen : Nat) : Option Bool :=
  if frameLen < ethHlen then some false
  else do
    let tpid ← readWord buf vlanTpidOff
    return tpid == ethP8021Q

/-- Stores the TCI of a tagged frame in `*tci_out`, unless that is `NULL`. -/
def storeTci (buf : List UInt8) : Option UInt16 → Option (Option UInt16)
  | none => some none
  | some _ => (readWord buf vlanTciOff).map some

/-- `rewsr_vlan_read` -/
def vlanRead (buf : List UInt8) (frameLen : Nat) (tciOut : Option UInt16) :
    Option (Int × Option UInt16) := do
  if !(← vlanIsTagged buf frameLen) || frameLen < ethHlen + vlanTagLen then return (-1, tciOut)
  else
    return (0, ← storeTci buf tciOut)

/-- `rewsr_vlan_insert` with `cap` the size of the buffer. -/
def vlanInsert (buf : List UInt8) (frameLen : Nat) (tci : UInt16) : Option (Int × List UInt8) :=
  if frameLen < ethHlen ∨ (frameLen + vlanTagLen) % sizeMod > buf.length then some (-1, buf)
  else do
    let tail := frameLen - vlanTpidOff
    let buf ← memmove buf (vlanTpidOff + vlanTagLen) vlanTpidOff tail
    -- the four stores of the TPID and the TCI
    let buf ← writeN buf vlanTpidOff
      [(ethP8021Q >>> 8).toUInt8, ethP8021Q.toUInt8, (tci >>> 8).toUInt8, tci.toUInt8]
    return (toInt ((frameLen + vlanTagLen) % sizeMod), buf)

/-- `rewsr_vlan_strip` -/
def vlanStrip (buf : List UInt8) (frameLen : Nat) (tciOut : Option UInt16) :
    Option (Int × List UInt8 × Option UInt16) := do
  if !(← vlanIsTagged buf frameLen) || frameLen < ethHlen + vlanTagLen then
    return (toInt frameLen, buf, tciOut)
  else
    let tciOut ← storeTci buf tciOut
    let tail := frameLen - (vlanTpidOff + vlanTagLen)
    let buf ← memmove buf vlanTpidOff (vlanTpidOff + vlanTagLen) tail
    return (toInt (frameLen - vlanTagLen), buf, tciOut)

end Rewsr.Net
