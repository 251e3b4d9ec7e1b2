import Rewsr.Net.Packet

/-!
# The XDP steering program (`xdp/xdp_prog.c`)

`rewsrXdpRedirect` runs in the kernel on every received frame, before the network stack. The target
is little-endian: a 16-bit field of a header loads with its first byte low, and `ihl` is the low
nibble of the first byte of `struct iphdr`. As in the packet code a load outside the packet has no
result.
-/

namespace Rewsr.Xdp

open Rewsr.Net

/-- `enum xdp_action` -/
inductive XdpAction where
  | aborted
  | drop
  | pass
  | tx
  | redirect
  deriving DecidableEq, Repr

/-- `struct xdp_md`: the packet between `data` and `data_end`, and the queue it arrived on. -/
structure XdpMd where
  data : List UInt8
  rxQueueIndex : UInt32

/-- `max_entries` of both maps. -/
def maxEntries : Nat := 64

/-- This CPU's values of the map `redirect_count`. -/
abbrev RedirectCount := Vector UInt64 maxEntries

/-- The map `xsks_map`: for each queue the socket bound to it, if there is one. -/
abbrev XsksMap := Vector (Option UInt32) maxEntries

def XsksMap.bound (xsks : XsksMap) (q : UInt32) : Bool :=
  if h : q.toNat < maxEntries then (xsks[q.toNat]).isSome else false

/-- What the kernel documents of its helper `bpf_redirect_map`, called on `xsks_map`: it returns
`XDP_REDIRECT` when a socket is bound to the key, else the action that the two low bits of `flags`
name. -/
structure BpfRedirectMap (redirectMap : XsksMap → UInt32 → XdpAction → XdpAction) : Prop where
  bound {xsks : XsksMap} {key : UInt32} (h : xsks.bound key) (flags : XdpAction) :
    redirectMap xsks key flags = .redirect
  unbound {xsks : XsksMap} {key : UInt32} (h : ¬ xsks.bound key) (flags : XdpAction) :
    redirectMap xsks key flags = flags

/-- The `__u64 *cnt` part: the lookup fails for a key past the map. -/
def countRedirect (counts : RedirectCount) (q : UInt32) : RedirectCount :=
  if h : q.toNat < maxEntries then counts.set q.toNat (counts[q.toNat] + 1) else counts

/-- `__builtin_bswap16` -/
def bswap16 (v : UInt16) : UInt16 := (v <<< 8) ||| (v >>> 8)

/-- `REWSR_FABRIC_PORT` -/
def fabricPort : UInt16 := 4789

/-- How the program returns: with the constant `XDP_PASS`, or with what its call of
`bpf_redirect_map` on `xsks_map` returns. -/
inductive XdpExit where
  | pass
  | redirectMap (q : UInt32) (flags : XdpAction)
  deriving DecidableEq, Repr

/-- The action returned to the driver, where the helper is `redirectMap`. -/
def XdpExit.action (redirectMap : XsksMap → UInt32 → XdpAction → XdpAction) (xsks : XsksMap) :
    XdpExit → XdpAction
  | .pass => .pass
  | .redirectMap q flags => redirectMap xsks q flags

/-- `rewsr_xdp_redirect` -/
def rewsrXdpRedirect (ctx : XdpMd) (counts : RedirectCount) : Option (XdpExit × RedirectCount) :=
  let data := ctx.data
  if ethHlen > data.length then some (.pass, counts) else
  (read16 .little data 12).bind fun hProto =>
  if hProto ≠ bswap16 ethPIp then some (.pass, counts) else
  let ip := ethHlen
  if ip + ipv4Hlen > data.length then some (.pass, counts) else
  (read8 data (ip + 9)).bind fun protocol =>
  if protocol ≠ ipprotoUdp then some (.pass, counts) else
  (read8 data ip).bind fun verIhl =>
  let udp := ip + (verIhl &&& (0x0f : UInt8)).toNat * 4
  if udp + udpHlen > data.length then some (.pass, counts) else
  (read16 .little data (udp + 2)).bind fun dest =>
  if dest ≠ bswap16 fabricPort then some (.pass, counts) else
  let q := ctx.rxQueueIndex
  some (.redirectMap q .pass, countRedirect counts q)

end Rewsr.Xdp
