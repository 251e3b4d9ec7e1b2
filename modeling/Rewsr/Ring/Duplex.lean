import Mathlib.Algebra.Group.Nat.Defs
import Rewsr.Ring.XskRing

/-!
# A producer and a consumer on one ring (`ring/xsk_ring.c`, `test/test_xsk_ring.c`)

Two views over one descriptor array and one pair of counters. The producer reserves, writes the
slots it got and submits them; the consumer peeks, reads the slots it was shown and releases some of
them. Every load and store of shared memory is a step of its own, descriptors are written and read
a byte at a time, and the two sides' steps interleave in any way.
-/

namespace Rewsr.Ring

open Interleave

/-- The shared memory and both views. `submitted` and `released` are history variables: the values
whose slots the producer has submitted, and those the consumer has read and released. -/
structure Duplex where
  mem : Nat → UInt8
  producer : UInt32
  consumer : UInt32
  prod : XskRing
  cons : XskRing
  submitted : List (List UInt8)
  released : List (List UInt8)

/-- The ring as the producer sees it. -/
def Duplex.prodRing : Ref Duplex (SharedRing UInt8) where
  get s := ⟨s.prod, s.producer, s.consumer, s.mem, s.producer⟩
  set r s := { s with prod := r.view, producer := r.producer, consumer := r.consumer, mem := r.mem }

/-- The ring as the consumer sees it. -/
def Duplex.consRing : Ref Duplex (SharedRing UInt8) where
  get s := ⟨s.cons, s.producer, s.consumer, s.mem, s.consumer⟩
  set r s := { s with cons := r.view, producer := r.producer, consumer := r.consumer, mem := r.mem }

namespace Duplex

/-! ## The producer -/

def writeByte (slot : UInt32) (j : Nat) (b : UInt8) (s : Duplex) : Duplex :=
  { s with mem := Function.update s.mem (ringDesc s.prod slot + j) b }

/-- The bytes `bs` stored into a slot, from byte `j` on. -/
def writeBytes (slot : UInt32) : Nat → List UInt8 → Prog Duplex PUnit
  | _, [] => pure ⟨⟩
  | j, b :: bs => do
    Prog.store (writeByte slot j b)
    writeBytes slot (j + 1) bs

/-- The values stored into consecutive slots. -/
def writeSlots : UInt32 → List (List UInt8) → Prog Duplex PUnit
  | _, [] => pure ⟨⟩
  | idx, v :: vs => do
    writeBytes idx 0 v
    writeSlots (idx + 1) vs

/-- One round of a producer: reserve, write the reserved slots, submit everything reserved. -/
def produce (vals : List (List UInt8)) : Prog Duplex (UInt32 × List (List UInt8)) := do
  let (n, idx) ← prodRing.prodReserve (UInt32.ofNat vals.length)
  writeSlots idx (vals.take n.toNat)
  prodRing.prodSubmit n fun s => { s with submitted := s.submitted ++ vals.take n.toNat }
  return (n, vals.take n.toNat)

/-! ## The consumer -/

/-- `n` more bytes of a slot, after those in `acc`. -/
def readBytes (slot : UInt32) : Nat → List UInt8 → Prog Duplex (List UInt8)
  | 0, acc => pure acc
  | n + 1, acc => do
    let b ← Prog.load fun s => s.mem (ringDesc s.cons slot + acc.length)
    readBytes slot n (acc ++ [b])

/-- The values of `n` slots of `descSize` bytes, after those in `acc`. -/
def readSlots (descSize : Nat) : UInt32 → Nat → List (List UInt8) → Prog Duplex (List (List UInt8))
  | _, 0, acc => pure acc
  | idx, n + 1, acc => do
    let v ← readBytes idx descSize []
    readSlots descSize (idx + 1) n (acc ++ [v])

/-- One round of a consumer: peek, read the peeked slots, release some of them. How many it
chooses from what it has read. -/
def consume (descSize : Nat) (nb : UInt32) (choose : List (List UInt8) → UInt32) :
    Prog Duplex (UInt32 × List (List UInt8)) := do
  let (n, idx) ← consRing.consPeek nb
  let vals ← readSlots descSize idx n.toNat []
  let k := if choose vals > n then n else choose vals
  consRing.consRelease k fun s => { s with released := s.released ++ vals.take k.toNat }
  return (k, vals)

end Duplex

/-! ## The system -/

inductive Side where
  | producer
  | consumer
  deriving DecidableEq, Repr

inductive DuplexOp where
  | produce (vals : List (List UInt8))
  | consume (nb : UInt32) (choose : List (List UInt8) → UInt32)

def DuplexOp.body (descSize : Nat) : DuplexOp → Prog Duplex (UInt32 × List (List UInt8))
  | .produce vals => Duplex.produce vals
  | .consume nb choose => Duplex.consume descSize nb choose

/-- Each side makes its own calls; a producer's values have the size of a descriptor and their
number is a `uint32_t`. -/
def DuplexOp.ok (descSize : Nat) : Side → DuplexOp → Prop
  | .producer, .produce vals => (∀ v ∈ vals, v.length = descSize) ∧ vals.length < 2 ^ 32
  | .consumer, .consume _ _ => True
  | _, _ => False

def duplexSys (descSize : Nat) : Sys Side Duplex (UInt32 × List (List UInt8)) DuplexOp where
  body := DuplexOp.body descSize
  ok i op _ := DuplexOp.ok descSize i op
  env _ _ := False

end Rewsr.Ring
