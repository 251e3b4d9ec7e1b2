import Rewsr.Xdp.FramePool

/-!
# The pool in memory (`xdp/frame_pool.c`)

The pool's functions on the struct as it lies in memory: the stack is the caller's array, `count` a
32-bit number, and an access outside the array is `none`. A `FramePool` is such a pool without the
array's entries from `count` on.
-/

namespace Rewsr.Xdp

/-- `struct rewsr_frame_pool`, with the array that `stack` points to. -/
structure PoolArray where
  stack : List UInt64
  count : UInt32
  capacity : UInt32
  chunkSize : UInt32
  deriving DecidableEq, Repr

namespace PoolArray

/-- `p->stack[p->count++] = addr` -/
def push (p : PoolArray) (addr : UInt64) : Option PoolArray :=
  if p.count.toNat < p.stack.length then
    some { p with stack := p.stack.set p.count.toNat addr, count := p.count + 1 }
  else none

/-- The seeding loop of the initialiser, for `i` from the given number down. -/
def seed : Nat → PoolArray → Option PoolArray
  | 0, p => some p
  | i + 1, p => (p.push (UInt64.ofNat i * p.chunkSize.toUInt64)).bind (seed i)

/-- `rewsr_frame_pool_init`: the return value, and the pool. -/
def init (p : PoolArray) (stack : Option (List UInt64)) (numFrames chunkSize : UInt32) :
    Option (Int × PoolArray) :=
  match stack with
  | none => some (-1, p)
  | some stack =>
    if numFrames == 0 || !Ring.isPow2 chunkSize then some (-1, p)
    else do
      let p ← seed numFrames.toNat { stack, count := 0, capacity := numFrames, chunkSize }
      return (0, p)

/-- `rewsr_frame_pool_alloc`: the address, or `none` for 0, and the pool. -/
def alloc (p : PoolArray) : Option (Option UInt64 × PoolArray) :=
  if p.count = 0 then some (none, p)
  else do
    let count := p.count - 1
    let addr ← p.stack[count.toNat]?
    return (some addr, { p with count })

/-- `rewsr_frame_pool_chunk_base` -/
def chunkBase (p : PoolArray) (addr : UInt64) : UInt64 := addr &&& ~~~ (p.chunkSize.toUInt64 - 1)

/-- `rewsr_frame_pool_free`: whether it succeeds, and the pool. -/
def free (p : PoolArray) (addr : UInt64) : Option (Bool × PoolArray) :=
  if p.count ≥ p.capacity then some (false, p)
  else
    let base := p.chunkBase addr
    if base ≥ p.capacity.toUInt64 * p.chunkSize.toUInt64 then some (false, p)
    else (p.push base).map fun p => (true, p)

end PoolArray

/-- A call of the pool's functions, with any address. -/
inductive PoolCall where
  | alloc
  | free (addr : UInt64)
  deriving DecidableEq, Repr

/-- The pool after the call. -/
def PoolCall.run (p : PoolArray) : PoolCall → Option PoolArray
  | alloc => p.alloc.map Prod.snd
  | free addr => (p.free addr).map Prod.snd

end Rewsr.Xdp
