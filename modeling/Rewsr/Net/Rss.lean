import Rewsr.Host

/-!
# The Toeplitz hash of receive-side scaling (`net/rss.c`)

The length of a key and of an input is that of its list. The index of the next key bit is a natural
number: it would take an input of 2^61 bytes to wrap it.
-/

namespace Rewsr.Net

/-- `rewsr_rss_default_key` -/
def rssDefaultKey : List UInt8 :=
  [0x6d, 0x5a, 0x56, 0xda, 0x25, 0x5b, 0x0e, 0xc2, 0x41, 0x67,
   0x25, 0x3d, 0x43, 0xa3, 0x8f, 0xb0, 0xd0, 0xca, 0x2b, 0xcb,
   0xae, 0x7b, 0x30, 0xb4, 0x77, 0xcb, 0x2d, 0xa3, 0x80, 0x30,
   0xf2, 0x0c, 0x6a, 0x42, 0xb7, 0x3b, 0xbe, 0xac, 0x01, 0xfa]

/-- The variables of the loops. -/
structure RssState where
  result : UInt32
  v : UInt32
  keyBit : Nat
  deriving DecidableEq, Repr

/-- `(b >> k) & 1u` -/
def bitOf (b : UInt8) (k : Nat) : UInt32 := (b.toUInt32 >>> UInt32.ofNat k) &&& (1 : UInt32)

/-- The next key bit, `next` of the inner loop. -/
def rssNext (key : List UInt8) (keyBit : Nat) : Option UInt32 :=
  if keyBit / 8 < key.length then
    (read8 key (keyBit / 8)).map fun k => bitOf k (7 - keyBit % 8)
  else some 0

/-- One turn of the inner loop, for bit `bit` of the input byte `b`. -/
def rssStep (key : List UInt8) (b : UInt8) (st : RssState) (bit : Nat) : Option RssState := do
  let result := if bitOf b bit ≠ 0 then st.result ^^^ st.v else st.result
  let next ← rssNext key st.keyBit
  return { result, v := (st.v <<< 1) ||| next, keyBit := st.keyBit + 1 }

/-- One turn of the outer loop, over the bits of a byte from the highest to the lowest. -/
def rssByte (key : List UInt8) (st : RssState) (b : UInt8) : Option RssState :=
  [7, 6, 5, 4, 3, 2, 1, 0].foldlM (rssStep key b) st

/-- `rewsr_rss_toeplitz` -/
def rssToeplitz (key input : List UInt8) : Option UInt32 := do
  let k0 ← read8 key 0
  let k1 ← read8 key 1
  let k2 ← read8 key 2
  let k3 ← read8 key 3
  let v := (k0.toUInt32 <<< 24) ||| (k1.toUInt32 <<< 16) ||| (k2.toUInt32 <<< 8) ||| k3.toUInt32
  let st ← input.foldlM (rssByte key) { result := 0, v, keyBit := 32 }
  return st.result

/-- The bytes of an address pair, from the highest. -/
def rssAddrs (srcIp dstIp : UInt32) : List UInt8 :=
  [(srcIp >>> 24).toUInt8, (srcIp >>> 16).toUInt8, (srcIp >>> 8).toUInt8, srcIp.toUInt8,
   (dstIp >>> 24).toUInt8, (dstIp >>> 16).toUInt8, (dstIp >>> 8).toUInt8, dstIp.toUInt8]

/-- `rewsr_rss_hash_ipv4` -/
def rssHashIpv4 (key : List UInt8) (srcIp dstIp : UInt32) (srcPort dstPort : UInt16) :
    Option UInt32 :=
  rssToeplitz key (rssAddrs srcIp dstIp ++
    [(srcPort >>> 8).toUInt8, srcPort.toUInt8, (dstPort >>> 8).toUInt8, dstPort.toUInt8])

/-- `rewsr_rss_hash_ipv4_2tuple` -/
def rssHashIpv4TwoTuple (key : List UInt8) (srcIp dstIp : UInt32) : Option UInt32 :=
  rssToeplitz key (rssAddrs srcIp dstIp)

/-- `rewsr_rss_queue` -/
def rssQueue (hash tableSize : UInt32) : UInt32 :=
  if tableSize = 0 then 0 else hash &&& (tableSize - 1)

end Rewsr.Net
