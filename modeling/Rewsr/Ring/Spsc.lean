import Rewsr.Lib.Interleave

/-!
# The single-producer single-consumer ring (`ring/spsc_ring.c`)

A bounded queue of slots of `slotSize` bytes with two masked indices; one slot is always left empty.
A producer, a consumer and an observer that counts run at the same time. Each load of an index,
each copy of a slot and each store of an index is a step of its own, and the steps of the three
interleave in any way.
-/

namespace Rewsr.Ring

open Interleave

/-- The smallest power of two at least `v`, and at least 2 (`roundup_pow2`). -/
def roundupPow2 (v : UInt32) : UInt32 :=
  if v < 2 then 2 else
    let v := v - 1
    let v := v ||| (v >>> 1)
    let v := v ||| (v >>> 2)
    let v := v ||| (v >>> 4)
    let v := v ||| (v >>> 8)
    let v := v ||| (v >>> 16)
    v + 1

/-- What an observer's count is to be compared with: the live items and the items published at its
first load, and how many were published from there to its second. -/
structure CountSnap where
  live : Nat
  published : Nat
  between : Nat
  deriving DecidableEq, Repr

/-- `struct rewsr_spsc_ring` and the bytes at `slots`.

The rest are history variables, which no operation reads: the items whose slot the producer has
published and those the consumer has taken; the slot the producer may be writing, from the load
that finds room to its publishing store, and the slot the consumer may be copying, from the load
that finds an item to its store; the live items at the last such load of either; and the
observer's. -/
structure Spsc where
  mask : UInt32
  slotSize : UInt32
  slots : Nat → UInt8
  head : UInt32
  tail : UInt32
  published : List (List UInt8)
  consumed : List (List UInt8)
  filling : Option UInt32
  copying : Option UInt32
  prodSaw : Nat
  consSaw : Nat
  snap : CountSnap

/-- `rewsr_spsc_init`: the ring, or `none` for -1. `slots` is `NULL` or what it points at. -/
def spscInit (slots : Option (Nat → UInt8)) (capacity slotSize : UInt32) : Option Spsc :=
  match slots with
  | none => none
  | some slots =>
    if capacity = 0 ∨ slotSize = 0 then none
    else
      let n := roundupPow2 capacity
      some { mask := n - 1, slotSize, slots, head := 0, tail := 0, published := [], consumed := []
             filling := none, copying := none, prodSaw := 0, consSaw := 0, snap := ⟨0, 0, 0⟩ }

/-- `rewsr_spsc_capacity` -/
def spscCapacity (r : Spsc) : UInt32 := r.mask

namespace Spsc

/-- The number of items published and not taken. -/
def live (r : Spsc) : Nat := r.published.length - r.consumed.length

/-- The bytes of slot `i`. -/
def slot (r : Spsc) (i : UInt32) : List UInt8 :=
  (List.range r.slotSize.toNat).map fun j => r.slots (i.toNat * r.slotSize.toNat + j)

/-- `memcpy` of an item into slot `i`. -/
def putSlot (r : Spsc) (i : UInt32) (item : List UInt8) : Spsc :=
  { r with slots := fun off =>
      if i.toNat * r.slotSize.toNat ≤ off ∧ off < i.toNat * r.slotSize.toNat + r.slotSize.toNat then
        item.getD (off - i.toNat * r.slotSize.toNat) 0
      else r.slots off }

/-- The index after `i`. -/
def next (r : Spsc) (i : UInt32) : UInt32 := (i + 1) &&& r.mask

/-! ## The steps -/

/-- The producer's load of the head. -/
def loadHead (tail : UInt32) (r : Spsc) : UInt32 × Spsc :=
  (r.head,
    { r with prodSaw := r.live, filling := if r.next tail = r.head then none else some tail })

/-- The producer's publishing store. -/
def publish (tail : UInt32) (item : List UInt8) (r : Spsc) : Spsc :=
  { r with tail := r.next tail, published := r.published ++ [item], filling := none }

/-- The consumer's load of the tail. -/
def loadTail (head : UInt32) (r : Spsc) : UInt32 × Spsc :=
  (r.tail, { r with consSaw := r.live, copying := if head = r.tail then none else some head })

/-- The consumer's store. -/
def take (head : UInt32) (out : List UInt8) (r : Spsc) : Spsc :=
  { r with head := r.next head, consumed := r.consumed ++ [out], copying := none }

/-- The observer's two loads. -/
def countTail (r : Spsc) : UInt32 × Spsc :=
  (r.tail, { r with snap := ⟨r.live, r.published.length, 0⟩ })

def countHead (r : Spsc) : UInt32 × Spsc :=
  (r.head, { r with snap := { r.snap with between := r.published.length - r.snap.published } })

end Spsc

/-! ## The operations -/

/-- `rewsr_spsc_produce`. The result of an operation is its return value and what it leaves in
`*out`. The mask is never written after the initialiser, so its loads go with others. -/
def spscProduce (item : List UInt8) : Prog Spsc (UInt32 × List UInt8) := do
  let tail ← Prog.load Spsc.tail
  let (next, head) ← Prog.atomic fun r => ((r.next tail, (r.loadHead tail).1), (r.loadHead tail).2)
  if next = head then return (0, [])
  else do
    Prog.store fun r => r.putSlot tail item
    Prog.store fun r => r.publish tail item
    return (1, [])

/-- `rewsr_spsc_consume` -/
def spscConsume : Prog Spsc (UInt32 × List UInt8) := do
  let head ← Prog.load Spsc.head
  let tail ← Prog.atomic (Spsc.loadTail head)
  if head = tail then return (0, [])
  else do
    let out ← Prog.load fun r => r.slot head
    Prog.store fun r => r.take head out
    return (1, out)

/-- `rewsr_spsc_count` -/
def spscCount : Prog Spsc (UInt32 × List UInt8) := do
  let tail ← Prog.atomic Spsc.countTail
  let (head, mask) ← Prog.atomic fun r => (((r.countHead).1, r.mask), (r.countHead).2)
  return ((tail - head) &&& mask, [])

/-! ## The system -/

inductive SpscThread where
  | producer
  | consumer
  | observer
  deriving DecidableEq, Repr

inductive SpscOp where
  | produce (item : List UInt8)
  | consume
  | count
  deriving DecidableEq, Repr

def SpscOp.body : SpscOp → Prog Spsc (UInt32 × List UInt8)
  | .produce item => spscProduce item
  | .consume => spscConsume
  | .count => spscCount

/-- Each thread makes its own calls, a producer with items of the size of a slot. -/
def SpscOp.ok : SpscThread → SpscOp → Spsc → Prop
  | .producer, .produce item, r => item.length = r.slotSize.toNat
  | .consumer, .consume, _ => True
  | .observer, .count, _ => True
  | _, _, _ => False

def spscSys : Sys SpscThread Spsc (UInt32 × List UInt8) SpscOp where
  body := SpscOp.body
  ok := SpscOp.ok
  env _ _ := False

end Rewsr.Ring
