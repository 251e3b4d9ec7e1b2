import Rewsr.Net.NetlinkDump
import Rewsr.Sys.Sockets

/-!
# Listing the links (`net/netlink.c`)

`rewsr_nl_list_links` whole: the request, and the messages of one `recv` after the other. What the
callback gets is the list `seen`. The loops have a bound on their rounds; a result of `none` says
that the bound was too small or that an access was outside the buffer.
-/

namespace Rewsr.Net

open Resource Rewsr.Sys

def eio : Int := 5

/-- `sizeof buf` -/
def nlBufLen : Nat := 16384

/-- The request: an `nlmsghdr` for `RTM_GETLINK` with `NLM_F_REQUEST | NLM_F_DUMP`, and an
`ifinfomsg`. -/
def nlRequest (e : Endian) : List UInt8 :=
  e.bytes32 32 ++ (e.bytes16 18 ++ (e.bytes16 0x301 ++ (e.bytes32 1 ++ (e.bytes32 0 ++
    List.replicate 16 0))))

/-- How the walk over the messages of one `recv` ends. -/
inductive WalkEnd where
  | drained
  | done
  | error
  deriving DecidableEq, Repr

/-- The walk over the messages in `buf` from `p` on. -/
def nlMessages (e : Endian) (buf : List UInt8) :
    Nat → NlPos → List LinkInfo → Option (WalkEnd × List LinkInfo)
  | 0, _, _ => none
  | rounds + 1, p, seen =>
    match nlTurn e buf p with
    | none => none
    | some .empty => some (.drained, seen)
    | some .done => some (.done, seen)
    | some .error => some (.error, seen)
    | some (.next info q) => nlMessages e buf rounds q (seen ++ info.toList)

/-- The `for (;;)` loop. -/
def nlRecvs (e : Endian) (fd : Int) (rounds : Nat) :
    Nat → List UInt8 → List LinkInfo → Proc sockSys (Option (Int × List LinkInfo))
  | 0, _, _ => pure none
  | recvs + 1, buf, seen => do
    match ← sockcall (.recv fd nlBufLen) with
    | .error errno => do
      sockcall (.close fd)
      return some (negErrno errno, seen)
    | .ok bytes =>
      let buf := bytes.val ++ buf.drop bytes.val.length
      match nlMessages e buf rounds ⟨0, bytes.val.length⟩ seen with
      | none => return none
      | some (.drained, seen) => nlRecvs e fd rounds recvs buf seen
      | some (.done, seen) => do
        sockcall (.close fd)
        return some (0, seen)
      | some (.error, seen) => do
        sockcall (.close fd)
        return some (-eio, seen)

/-- `rewsr_nl_list_links`: the return value, and what the callback got. `stale` is what the array
`buf` holds before the first `recv`. -/
def nlListLinks (e : Endian) (stale : List UInt8) (rounds recvs : Nat) :
    Proc sockSys (Option (Int × List LinkInfo)) := do
  match ← sockcall .socket with
  | .error errno => return some (negErrno errno, [])
  | .ok fd =>
    match ← sockcall (.send fd (nlRequest e)) with
    | .error errno => do
      sockcall (.close fd)
      return some (negErrno errno, [])
    | .ok () => nlRecvs e fd rounds recvs stale []

end Rewsr.Net
