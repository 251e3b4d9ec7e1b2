import Rewsr.Lib.Interleave

/-!
# AF_XDP rings (`ring/xsk_ring.c`)

A ring is an array of descriptors with two free-running 32-bit counters; each side works on a view
with cached copies of the counters. `prodReserve`, `prodFree`, `consPeek` and `consAvailable` make
at most one access to the shared memory, a load of the far side's counter, and are functions of
the view and the value loaded. `prodSubmit` and `consRelease` make two, a load and a store of their
own counter, and are programs of two steps.
-/

namespace Rewsr.Ring

open Interleave

/-- `is_pow2` -/
def isPow2 (v : UInt32) : Bool := v != 0 && (v &&& (v - 1)) == 0

/-- `struct rewsr_xsk_ring` without its three pointers; what they lead to is in `SharedRing`. -/
structure XskRing where
  mask : UInt32
  size : UInt32
  descSize : Nat
  cachedProd : UInt32
  cachedCons : UInt32
  deriving DecidableEq, Repr

/-- `rewsr_xsk_ring_init`: the view, or `none` for -1. A pointer is `NULL` or what it points at. -/
def ringInit {M : Type} (producer consumer : Option UInt32) (ring : Option M) (size : UInt32)
    (descSize : Nat) : Option XskRing :=
  match producer, consumer, ring with
  | some producer, some consumer, some _ =>
    if descSize == 0 || !isPow2 size then none
    else some { size, mask := size - 1, descSize, cachedProd := producer, cachedCons := consumer }
  | _, _, _ => none

/-- `rewsr_xsk_ring_desc`: the byte offset of a slot in the descriptor array. -/
def ringDesc (r : XskRing) (idx : UInt32) : Nat := (idx &&& r.mask).toNat * r.descSize

/-- `rewsr_xsk_prod_reserve`, where a load of the consumer counter finds `consumer`: the return
value and `*idx`, and the view. A failed call does not set `*idx`; the 0 in its place is not
read. -/
def prodReserve (r : XskRing) (consumer nb : UInt32) : (UInt32 × UInt32) × XskRing :=
  let freeSlots := r.size - (r.cachedProd - r.cachedCons)
  if freeSlots < nb then
    let r := { r with cachedCons := consumer }
    let freeSlots := r.size - (r.cachedProd - r.cachedCons)
    if freeSlots < nb then ((0, 0), r)
    else ((nb, r.cachedProd), { r with cachedProd := r.cachedProd + nb })
  else ((nb, r.cachedProd), { r with cachedProd := r.cachedProd + nb })

/-- `rewsr_xsk_prod_free` -/
def prodFree (r : XskRing) (consumer : UInt32) : UInt32 × XskRing :=
  let r := { r with cachedCons := consumer }
  (r.size - (r.cachedProd - r.cachedCons), r)

/-- `rewsr_xsk_cons_peek`, where a load of the producer counter finds `producer`: the return value
and `*idx`, and the view. `*idx` is set, and read by callers, only for a count above 0. -/
def consPeek (r : XskRing) (producer nb : UInt32) : (UInt32 × UInt32) × XskRing :=
  let avail := r.cachedProd - r.cachedCons
  let r := if avail < nb then { r with cachedProd := producer } else r
  let avail := if avail < nb then r.cachedProd - r.cachedCons else avail
  let avail := if avail > nb then nb else avail
  ((avail, r.cachedCons), r)

/-- `rewsr_xsk_cons_available` -/
def consAvailable (r : XskRing) (producer : UInt32) : UInt32 × XskRing :=
  let r := { r with cachedProd := producer }
  (r.cachedProd - r.cachedCons, r)

/-! ## Rings in memory -/

/-- A view together with what its pointers lead to: the counters, and the descriptor array by byte
offset. `cur` is a history variable, the counter value that the call in progress has worked up
to; no operation reads it. -/
structure SharedRing (V : Type) where
  view : XskRing
  producer : UInt32
  consumer : UInt32
  mem : Nat → V
  cur : UInt32

/-- A pointer: where in the state `σ` a value of type `τ` is. -/
structure Ref (σ τ : Type) where
  get : σ → τ
  set : τ → σ → σ

/-! ## The operations as steps of a program -/

namespace Ref

variable {σ V : Type} (ring : Ref σ (SharedRing V))

def prodReserve (nb : UInt32) : Prog σ (UInt32 × UInt32) :=
  Prog.atomic fun s =>
    let (res, view) := Ring.prodReserve (ring.get s).view (ring.get s).consumer nb
    (res, ring.set { ring.get s with view } s)

def prodFree : Prog σ UInt32 :=
  Prog.atomic fun s =>
    let (res, view) := Ring.prodFree (ring.get s).view (ring.get s).consumer
    (res, ring.set { ring.get s with view } s)

def consPeek (nb : UInt32) : Prog σ (UInt32 × UInt32) :=
  Prog.atomic fun s =>
    let (res, view) := Ring.consPeek (ring.get s).view (ring.get s).producer nb
    (res, ring.set { ring.get s with view } s)

/-- `rewsr_xsk_prod_submit`. `note` is applied to the history variables with the store. -/
def prodSubmit (nb : UInt32) (note : σ → σ) : Prog σ PUnit := do
  let p ← Prog.load fun s => (ring.get s).producer
  Prog.store fun s => note (ring.set { ring.get s with producer := p + nb } s)

/-- `rewsr_xsk_cons_release`. The view is private to the consumer, so its update goes with the
store. -/
def consRelease (nb : UInt32) (note : σ → σ) : Prog σ PUnit := do
  let c ← Prog.load fun s => (ring.get s).consumer
  Prog.store fun s =>
    let r := ring.get s
    note (ring.set { r with consumer := c + nb
                            view := { r.view with cachedCons := r.view.cachedCons + nb } } s)

end Ref

/-- The descriptor a counter value stands for, in a ring that holds one value a slot. -/
def SharedRing.at {V : Type} (r : SharedRing V) (idx : UInt32) : V := r.mem (ringDesc r.view idx)

/-- A descriptor written into the slot of a counter value. -/
def SharedRing.put {V : Type} (r : SharedRing V) (idx : UInt32) (v : V) : SharedRing V :=
  { r with mem := fun off => if off = ringDesc r.view idx then v else r.mem off }

end Rewsr.Ring
