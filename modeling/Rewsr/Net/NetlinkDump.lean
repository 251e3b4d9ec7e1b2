import Rewsr.Net.Netlink

/-!
# The dump of all links (`net/netlink.c`)

The loop of `rewsr_nl_list_links` over the messages of one `recv`. The macros of `linux/netlink.h`
are functions here under their own names. `n`, the bytes left, is a signed 64-bit number; the loop
tests it as an `unsigned` one.
-/

namespace Rewsr.Net

def nlmsgError : UInt16 := 2
def nlmsgDone : UInt16 := 3
def rtmNewlink : UInt16 := 16

/-- `NLMSG_HDRLEN`, the size of `struct nlmsghdr` -/
def nlmsgHdrlen : Nat := 16

/-- `NLMSG_ALIGN` -/
def nlmsgAlign (len : UInt32) : UInt32 := (len + 4 - 1) &&& ~~~((4 : UInt32) - 1)

/-- `NLMSG_OK(nh, len)`, `nh` at byte `off`. -/
def nlmsgOk (e : Endian) (buf : List UInt8) (off : Nat) (len : UInt32) : Option Bool :=
  if len < 16 then some false
  else do
    let nlmsgLen ← read32 e buf off
    return nlmsgLen ≥ 16 && nlmsgLen ≤ len

/-- Where the loop stands: `nh` as an offset, and `n`. -/
structure NlPos where
  off : Nat
  n : Int
  deriving DecidableEq, Repr

/-- What one turn of the loop does: it ends because no message is left, it ends with `done` set,
the function returns `-EIO`, or the next turn is at `pos`. `info` is what the callback gets. -/
inductive NlTurn where
  | empty
  | done
  | error
  | next (info : Option LinkInfo) (pos : NlPos)
  deriving DecidableEq, Repr

/-- One turn of the loop over the messages in `buf`. -/
def nlTurn (e : Endian) (buf : List UInt8) (p : NlPos) : Option NlTurn := do
  if !(← nlmsgOk e buf p.off (UInt32.ofInt p.n)) then return .empty
  let nlmsgLen ← read32 e buf p.off
  let nlmsgType ← read16 e buf (p.off + 4)
  if nlmsgType = nlmsgDone then return .done
  if nlmsgType = nlmsgError then return .error
  let info ← if nlmsgType = rtmNewlink then do
      let body ← readN buf (p.off + nlmsgHdrlen) (nlmsgLen - 16).toNat
      -- the local `info` is not initialised; a zero stands for what it holds
      let (rc, info) ← nlParseLink e body LinkInfo.zero
      pure (if rc = 0 then some info else none)
    else pure none
  return .next info ⟨p.off + (nlmsgAlign nlmsgLen).toNat, p.n - (nlmsgAlign nlmsgLen).toNat⟩

/-- The turns of the loop after a `recv` of `n` bytes into `buf`. -/
inductive Reached (e : Endian) (buf : List UInt8) (n : Nat) : NlPos → Prop
  | start : Reached e buf n ⟨0, n⟩
  | next {p q : NlPos} {info : Option LinkInfo} : Reached e buf n p →
    nlTurn e buf p = some (.next info q) → Reached e buf n q

end Rewsr.Net
