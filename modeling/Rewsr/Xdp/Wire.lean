import Rewsr.Lib.Meter
import Rewsr.Xdp.Xsk

/-!
# Frames on their way

The data path with a record of the frames, byte by byte, that pass its two ends: what the transmit
callbacks leave in a buffer, what the kernel finds there, what the kernel receives, and what the
receive callbacks are given.

A client of the data path is a relation `J` between the frames it has sent, those it has been given
and its data; `Sends` and `Receives` say that a callback keeps it.
-/

namespace Rewsr.Xdp

open Interleave Rewsr.Ring

variable {κ : Type}

/-- The bytes of a descriptor's frame. -/
def frameAt (area : UInt64 → UInt8) (d : XdpDesc) : List UInt8 := readArea area d.addr d.len.toNat

/-- The frames so far: queued by transmit bursts, taken by the kernel, taken and not yet completed
(with their descriptors), put on the receive ring, and passed on by receive bursts. -/
@[ext] structure Wire where
  sent : List (List UInt8)
  taken : List (List UInt8)
  held : List (XdpDesc × List UInt8)
  posted : List (List UInt8)
  delivered : List (List UInt8)

def Wire.empty : Wire := { sent := [], taken := [], held := [], posted := [], delivered := [] }

/-- A list with one more entry, if a counter has moved. -/
def logIf {V : Type} (before after : UInt32) (v : V) (log : List V) : List V :=
  if after = before then log else log ++ [v]

/-- The record after a step. A frame is read from the buffer at the moment it passes: a queued one
after the step, a taken one before it. -/
def Wire.note (s s' : Xsk κ) (w : Wire) : Wire :=
  let next := s.tx.at s.tx.consumer
  { sent := logIf s.tx.cur s'.tx.cur (frameAt s'.area (s'.tx.at s.tx.cur)) w.sent
    taken := logIf s.tx.consumer s'.tx.consumer (frameAt s.area next) w.taken
    held := (logIf s.tx.consumer s'.tx.consumer (next, frameAt s.area next) w.held).filter
      fun h => h.1.addr ∈ s'.kernelTx
    posted := logIf s.rx.producer s'.rx.producer (frameAt s'.area (s'.rx.at s.rx.producer)) w.posted
    delivered := logIf s.rx.cur s'.rx.cur (frameAt s.area (s.rx.at s.rx.cur)) w.delivered }

/-! ## Clients -/

section
variable (J : List (List UInt8) → List (List UInt8) → κ → Prop) (P : List UInt8 → Prop)

/-- On a buffer of `cap` bytes the callback makes a frame that fits, and `J` holds with it. -/
def Sends (cap : UInt32) (cb : Option (TxCb κ)) : Prop :=
  ∃ f, cb = some f ∧ ∀ sent got user buf, J sent got user → buf.length = cap.toNat →
    (f buf user).1 ≠ 0 ∧ (f buf user).1.toNat ≤ (f buf user).2.1.length ∧
      (f buf user).2.1.length ≤ cap.toNat ∧
      J (sent ++ [(f buf user).2.1.take (f buf user).1.toNat]) got (f buf user).2.2

/-- The callback takes any frame with `P`, and `J` holds with it. -/
def Receives (cb : Option (RxCb κ)) : Prop :=
  ∀ sent got user frame, J sent got user → P frame →
    J sent (got ++ [frame]) (match cb with | some f => f frame user | none => user)

end

/-! ## The system -/

/-- A kernel that describes a received frame by its length, and receives only frames with `P`. -/
def Faithful (P : List UInt8 → Prop) : KernelAct → Prop
  | .rxPost _ d data => d.len.toNat = data.length ∧ P data
  | _ => True

/-- The environment: such a kernel, and threads that may change the callbacks' data by `E`. -/
def WireEnv (P : List UInt8 → Prop) (E : κ → κ → Prop) (s s' : Xsk κ) : Prop :=
  (∃ a, Faithful P a ∧ kernelStep a s = some s') ∨
    ∃ user, E s.user user ∧ s' = { s with user }

/-- The data path with its record, for the calls `ok` allows. -/
def wireSys (ok : XskOp κ → Xsk κ → Prop) (P : List UInt8 → Prop) (E : κ → κ → Prop) :
    Sys Unit (Xsk κ × Wire) UInt32 (XskOp κ) :=
  Sys.metered { body := XskOp.body, ok := fun _ => ok, env := WireEnv P E } Wire.note

end Rewsr.Xdp
