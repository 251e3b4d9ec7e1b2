import Rewsr.Lib.Counter
import Rewsr.Xdp.FramePool

/-!
# The AF_XDP socket's data path (`xdp/xsk.c`)

One UMEM with its four rings and the frame pool, the calls that move frames through them, and the
kernel on the other side of the rings. A call is a program whose steps each make at most one access
to shared memory; kernel steps come in between. The pool, the frame buffers userspace owns and the
callbacks' data are private to the caller, so that work on them goes with the shared access next
to it.
-/

namespace Rewsr.Xdp

open Interleave Rewsr.Ring

/-- `struct rewsr_xdp_desc` -/
structure XdpDesc where
  addr : UInt64
  len : UInt32
  options : UInt32
  deriving DecidableEq, Repr

/-- The fields of `struct rewsr_xsk_umem` and `struct rewsr_xsk_socket` the data path works on, the
callbacks' data `user`, and the addresses the kernel has taken and not given back.

The rest are history variables, which no operation reads: the descriptors for which a transmit
callback returned a length and those the kernel has read, the addresses popped from the pool by
refills and those the kernel has read, and the failures of frees in receive bursts. -/
structure Xsk (κ : Type) where
  area : UInt64 → UInt8
  frameSize : UInt32
  pool : FramePool
  fill : SharedRing UInt64
  comp : SharedRing UInt64
  rx : SharedRing XdpDesc
  tx : SharedRing XdpDesc
  user : κ
  kernelRx : List UInt64
  kernelTx : List UInt64
  accepted : List (UInt64 × UInt32)
  txSeen : List (UInt64 × UInt32)
  popped : List UInt64
  fillSeen : List UInt64
  rxFreeFailures : Nat

variable {κ : Type}

def fillRing : Ref (Xsk κ) (SharedRing UInt64) := ⟨Xsk.fill, fun r s => { s with fill := r }⟩
def compRing : Ref (Xsk κ) (SharedRing UInt64) := ⟨Xsk.comp, fun r s => { s with comp := r }⟩
def rxRing : Ref (Xsk κ) (SharedRing XdpDesc) := ⟨Xsk.rx, fun r s => { s with rx := r }⟩
def txRing : Ref (Xsk κ) (SharedRing XdpDesc) := ⟨Xsk.tx, fun r s => { s with tx := r }⟩

/-! ## Frame buffers -/

/-- The `n` bytes at `area + addr`. -/
def readArea (area : UInt64 → UInt8) (addr : UInt64) (n : Nat) : List UInt8 :=
  (List.range n).map fun i => area (addr + UInt64.ofNat i)

/-- The area with `bs` stored at `area + addr`. -/
def writeArea (area : UInt64 → UInt8) (addr : UInt64) (bs : List UInt8) : UInt64 → UInt8 :=
  fun x => bs.getD (x - addr).toNat (area x)

/-- `rewsr_xsk_tx_cb`: from the buffer of `cap` bytes and the user data, the length returned, the
buffer and the user data. -/
abbrev TxCb (κ : Type) := List UInt8 → κ → UInt32 × List UInt8 × κ

/-- `rewsr_xsk_rx_cb`: from the frame's bytes and the user data, the user data. -/
abbrev RxCb (κ : Type) := List UInt8 → κ → κ

/-! ## Refilling -/

/-- The body of the loop of `rewsr_xsk_fill_refill`; `false` is its `break`. -/
def fillOne (slot : UInt32) (s : Xsk κ) : Bool × Xsk κ :=
  match s.pool.alloc with
  | none => (false, s)
  | some (addr, pool) =>
    (true, { s with pool, fill := { s.fill.put slot addr with cur := slot + 1 }
                    popped := s.popped ++ [addr] })

/-- The loop with `n` rounds left. `posted` is the loop counter `i` too: a round breaks or
increments both. -/
def fillLoop (idx : UInt32) : Nat → UInt32 → Prog (Xsk κ) UInt32
  | 0, posted => pure posted
  | n + 1, posted => do
    let more ← Prog.atomic (fillOne (idx + posted))
    if more then fillLoop idx n (posted + 1) else pure posted

/-- `rewsr_xsk_fill_refill` -/
def fillRefill (nb : UInt32) : Prog (Xsk κ) UInt32 := do
  let freeSlots ← fillRing.prodFree
  let nb := if nb > freeSlots then freeSlots else nb
  let (reserved, idx) ← fillRing.prodReserve nb
  let posted ← fillLoop idx reserved.toNat 0
  fillRing.prodSubmit posted id
  return posted

/-! ## Receiving -/

/-- The body of the loop of `rewsr_xsk_rx_burst`. -/
def rxOne (cb : Option (RxCb κ)) (slot : UInt32) (s : Xsk κ) : Xsk κ :=
  let d := s.rx.at slot
  let user := match cb with
    | some cb => cb (readArea s.area d.addr d.len.toNat) s.user
    | none => s.user
  let (ok, pool) := s.pool.free d.addr
  { s with user, pool, rx := { s.rx with cur := slot + 1 }
           rxFreeFailures := if ok then s.rxFreeFailures else s.rxFreeFailures + 1 }

def rxLoop (cb : Option (RxCb κ)) (idx : UInt32) : Nat → UInt32 → Prog (Xsk κ) PUnit
  | 0, _ => pure ⟨⟩
  | n + 1, i => do
    Prog.store (rxOne cb (idx + i))
    rxLoop cb idx n (i + 1)

/-- `rewsr_xsk_rx_burst` -/
def rxBurst (nb : UInt32) (cb : Option (RxCb κ)) : Prog (Xsk κ) UInt32 := do
  let (got, idx) ← rxRing.consPeek nb
  rxLoop cb idx got.toNat 0
  rxRing.consRelease got id
  let _ ← fillRefill got
  return got

/-! ## Transmitting -/

/-- How a round of the loop of `rewsr_xsk_tx_burst` ends: by `break` on an empty pool, by
`continue` when the callback skips, or with a descriptor written. -/
inductive TxRound where
  | empty
  | skipped
  | queued
  deriving DecidableEq, Repr

/-- `len = cb ? cb(buf, frame_size, user) : 0` on the buffer at `addr`: the length, the area and the
user data. -/
def txFill (cb : Option (TxCb κ)) (cap : UInt32) (addr : UInt64) (area : UInt64 → UInt8)
    (user : κ) :
    UInt32 × (UInt64 → UInt8) × κ :=
  match cb with
  | none => (0, area, user)
  | some cb =>
    let (len, buf, user) := cb (readArea area addr cap.toNat) user
    (len, writeArea area addr (buf.take cap.toNat), user)

/-- The body of the loop of `rewsr_xsk_tx_burst`. -/
def txOne (cb : Option (TxCb κ)) (slot : UInt32) (s : Xsk κ) : TxRound × Xsk κ :=
  match s.pool.alloc with
  | none => (.empty, s)
  | some (addr, pool) =>
    let (len, area, user) := txFill cb s.frameSize addr s.area s.user
    let s := { s with pool, area, user }
    if len = 0 then (.skipped, { s with pool := (pool.free addr).2 })
    else
      (.queued, { s with tx := { s.tx.put slot { addr, len, options := 0 } with cur := slot + 1 }
                         accepted := s.accepted ++ [(addr, len)] })

def txLoop (cb : Option (TxCb κ)) (idx : UInt32) : Nat → UInt32 → Prog (Xsk κ) UInt32
  | 0, queued => pure queued
  | n + 1, queued => do
    match ← Prog.atomic (txOne cb (idx + queued)) with
    | .empty => pure queued
    | .skipped => txLoop cb idx n queued
    | .queued => txLoop cb idx n (queued + 1)

/-- `rewsr_xsk_tx_burst` -/
def txBurst (nb : UInt32) (cb : Option (TxCb κ)) : Prog (Xsk κ) UInt32 := do
  let (reserved, idx) ← txRing.prodReserve nb
  let queued ← txLoop cb idx reserved.toNat 0
  txRing.prodSubmit queued id
  return queued

/-- The body of the loop of `rewsr_xsk_tx_complete`. -/
def completeOne (slot : UInt32) (s : Xsk κ) : Xsk κ :=
  { s with pool := (s.pool.free (s.comp.at slot)).2, comp := { s.comp with cur := slot + 1 } }

def completeLoop (idx : UInt32) : Nat → UInt32 → Prog (Xsk κ) PUnit
  | 0, _ => pure ⟨⟩
  | n + 1, i => do
    Prog.store (completeOne (idx + i))
    completeLoop idx n (i + 1)

/-- `rewsr_xsk_tx_complete` -/
def txComplete (nb : UInt32) : Prog (Xsk κ) UInt32 := do
  let (got, idx) ← compRing.consPeek nb
  completeLoop idx got.toNat 0
  compRing.consRelease got id
  return got

/-! ## The kernel -/

/-- The kernel takes the next transmit descriptor. -/
def txTake (s : Xsk κ) : Xsk κ :=
  let d := s.tx.at s.tx.consumer
  { s with tx := { s.tx with consumer := s.tx.consumer + 1 }
           kernelTx := s.kernelTx ++ [d.addr]
           txSeen := s.txSeen ++ [(d.addr, d.len)] }

/-- The kernel puts an address it has taken on the completion ring. -/
def compPost (addr : UInt64) (s : Xsk κ) : Xsk κ :=
  { s with comp := { s.comp.put s.comp.producer addr with producer := s.comp.producer + 1 }
           kernelTx := s.kernelTx.erase addr }

/-- The kernel takes the next fill address. -/
def fillTake (s : Xsk κ) : Xsk κ :=
  let addr := s.fill.at s.fill.consumer
  { s with fill := { s.fill with consumer := s.fill.consumer + 1 }
           kernelRx := s.kernelRx ++ [addr]
           fillSeen := s.fillSeen ++ [addr] }

/-- The kernel puts a frame, received into a chunk it has taken, on the receive ring. -/
def rxPost (chunk : UInt64) (d : XdpDesc) (data : List UInt8) (s : Xsk κ) : Xsk κ :=
  { s with rx := { s.rx.put s.rx.producer d with producer := s.rx.producer + 1 }
           kernelRx := s.kernelRx.erase chunk
           area := writeArea s.area d.addr data }

inductive KernelAct where
  | txTake
  | compPost (addr : UInt64)
  | fillTake
  | rxPost (chunk : UInt64) (d : XdpDesc) (data : List UInt8)

/-- A kernel action, if it is possible: entries are taken only from `[consumer, producer)` and put
only where there is room, and a received frame lies inside its chunk. -/
def kernelStep : KernelAct → Xsk κ → Option (Xsk κ)
  | .txTake, s => if s.tx.consumer ≠ s.tx.producer then some (txTake s) else none
  | .compPost addr, s =>
    if addr ∈ s.kernelTx ∧ Counter.gap s.comp.consumer s.comp.producer < s.comp.view.size.toNat then
      some (compPost addr s)
    else none
  | .fillTake, s => if s.fill.consumer ≠ s.fill.producer then some (fillTake s) else none
  | .rxPost chunk d data, s =>
    if chunk ∈ s.kernelRx ∧ Counter.gap s.rx.consumer s.rx.producer < s.rx.view.size.toNat ∧
        (d.addr - chunk).toNat < s.pool.chunkSize.toNat ∧
        (d.addr - chunk).toNat + data.length ≤ s.pool.chunkSize.toNat then
      some (rxPost chunk d data s)
    else none

/-- The state without what the kernel changes: two states agree in it if only the kernel has taken
steps from one to the other. -/
def priv (s : Xsk κ) : Xsk κ :=
  { s with
    area := fun _ => 0
    fill := { s.fill with consumer := 0, mem := fun _ => 0 }
    comp := { s.comp with producer := 0, mem := fun _ => 0 }
    rx := { s.rx with producer := 0, mem := fun _ => ⟨0, 0, 0⟩ }
    tx := { s.tx with consumer := 0, mem := fun _ => ⟨0, 0, 0⟩ }
    kernelRx := []
    kernelTx := []
    txSeen := []
    fillSeen := [] }

/-! ## The system -/

/-- The calls of the data path, and any other use of the pool between them. -/
inductive XskOp (κ : Type) where
  | fillRefill (nb : UInt32)
  | rxBurst (nb : UInt32) (cb : Option (RxCb κ))
  | txBurst (nb : UInt32) (cb : Option (TxCb κ))
  | txComplete (nb : UInt32)
  | usePool (f : FramePool → FramePool)

def XskOp.body : XskOp κ → Prog (Xsk κ) UInt32
  | .fillRefill nb => Xdp.fillRefill nb
  | .rxBurst nb cb => Xdp.rxBurst nb cb
  | .txBurst nb cb => Xdp.txBurst nb cb
  | .txComplete nb => Xdp.txComplete nb
  | .usePool f => Prog.atomic fun s => (0, { s with pool := f s.pool })

/-- One caller that makes the calls `ok` allows, and the kernel. -/
def xskSys (ok : XskOp κ → Xsk κ → Prop) : Sys Unit (Xsk κ) UInt32 (XskOp κ) where
  body := XskOp.body
  ok := fun _ => ok
  env := fun s s' => ∃ a, kernelStep a s = some s'

end Rewsr.Xdp
