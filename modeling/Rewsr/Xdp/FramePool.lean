import Rewsr.Ring.XskRing

/-!
# The pool of free UMEM frames (`xdp/frame_pool.c`)

A stack of chunk addresses. The array `stack[0 .. count)` is a list here, its top first, and
`count` its length.
-/

namespace Rewsr.Xdp

/-- `struct rewsr_frame_pool` -/
structure FramePool where
  stack : List UInt64
  capacity : UInt32
  chunkSize : UInt32
  deriving DecidableEq, Repr

namespace FramePool

/-- The seeding loop of the initialiser: pushes the chunks below number `n`, highest first. -/
def seed (chunkSize : UInt32) : Nat → List UInt64 → List UInt64
  | 0, stack => stack
  | i + 1, stack => seed chunkSize i (UInt64.ofNat i * chunkSize.toUInt64 :: stack)

/-- `rewsr_frame_pool_init` with storage that is not `NULL`: the pool, or `none` for -1. -/
def init (numFrames chunkSize : UInt32) : Option FramePool :=
  if numFrames == 0 || !Ring.isPow2 chunkSize then none
  else some { stack := seed chunkSize numFrames.toNat [], capacity := numFrames, chunkSize }

/-- `rewsr_frame_pool_chunk_base` -/
def chunkBase (p : FramePool) (addr : UInt64) : UInt64 := addr &&& ~~~ (p.chunkSize.toUInt64 - 1)

/-- `rewsr_frame_pool_alloc`: the address and the pool, or `none` for 0. -/
def alloc (p : FramePool) : Option (UInt64 × FramePool) :=
  match p.stack with
  | [] => none
  | addr :: stack => some (addr, { p with stack })

/-- `rewsr_frame_pool_free`: whether it succeeds, and the pool. -/
def free (p : FramePool) (addr : UInt64) : Bool × FramePool :=
  if p.stack.length ≥ p.capacity.toNat then (false, p)
  else
    let base := p.chunkBase addr
    if base ≥ p.capacity.toUInt64 * p.chunkSize.toUInt64 then (false, p)
    else (true, { p with stack := base :: p.stack })

/-- `rewsr_frame_pool_available` -/
def available (p : FramePool) : Nat := p.stack.length

end FramePool

end Rewsr.Xdp
