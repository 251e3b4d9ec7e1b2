import Mathlib.Algebra.Group.Int.Defs
import Mathlib.Algebra.Group.Nat.Defs

/-!
# Host memory

What the packet code assumes of the machine under it: byte buffers with bounds-checked access and
multi-byte loads and stores in the host's byte order. An access outside a buffer is undefined
behaviour in the source; here it has no result (`none`), so a function that returns made none.
-/

namespace Rewsr

/-- The host's byte order. -/
inductive Endian where
  | little
  | big
  deriving DecidableEq, Repr

/-- `size_t` is 64 bits wide. -/
def sizeMod : Nat := 2 ^ 64

/-- The conversion of a `size_t` to the 32-bit `int` of a return value. -/
def toInt (n : Nat) : Int := (n : Int).bmod (2 ^ 32)

/-- The bytes of a string literal. -/
def ascii (s : String) : List UInt8 := s.toList.map fun c => UInt8.ofNat c.toNat

/-- A space or a tab. -/
def isBlank (b : UInt8) : Bool := b = 0x20 ∨ b = 0x09

/-! ## Words in memory, lowest address first -/

namespace Endian

def bytes16 : Endian → UInt16 → List UInt8
  | .little, v => [v.toUInt8, (v >>> 8).toUInt8]
  | .big, v => [(v >>> 8).toUInt8, v.toUInt8]

def bytes32 : Endian → UInt32 → List UInt8
  | .little, v => [v.toUInt8, (v >>> 8).toUInt8, (v >>> 16).toUInt8, (v >>> 24).toUInt8]
  | .big, v => [(v >>> 24).toUInt8, (v >>> 16).toUInt8, (v >>> 8).toUInt8, v.toUInt8]

def load16 : Endian → UInt8 → UInt8 → UInt16
  | .little, b0, b1 => b0.toUInt16 ||| (b1.toUInt16 <<< 8)
  | .big, b0, b1 => (b0.toUInt16 <<< 8) ||| b1.toUInt16

def load32 : Endian → UInt8 → UInt8 → UInt8 → UInt8 → UInt32
  | .little, b0, b1, b2, b3 =>
    b0.toUInt32 ||| (b1.toUInt32 <<< 8) ||| (b2.toUInt32 <<< 16) ||| (b3.toUInt32 <<< 24)
  | .big, b0, b1, b2, b3 =>
    (b0.toUInt32 <<< 24) ||| (b1.toUInt32 <<< 16) ||| (b2.toUInt32 <<< 8) ||| b3.toUInt32

end Endian

/-! ## Buffers -/

/-- `buf[i]`. -/
def read8 (buf : List UInt8) (i : Nat) : Option UInt8 := buf[i]?

/-- A `uint16_t` load at byte `i`. -/
def read16 (e : Endian) (buf : List UInt8) (i : Nat) : Option UInt16 := do
  let b0 ← buf[i]?
  let b1 ← buf[i + 1]?
  return e.load16 b0 b1

/-- A `uint32_t` load at byte `i`. -/
def read32 (e : Endian) (buf : List UInt8) (i : Nat) : Option UInt32 := do
  let b0 ← buf[i]?
  let b1 ← buf[i + 1]?
  let b2 ← buf[i + 2]?
  let b3 ← buf[i + 3]?
  return e.load32 b0 b1 b2 b3

/-- The `n` bytes from byte `i` on. -/
def readN (buf : List UInt8) (i n : Nat) : Option (List UInt8) :=
  if i + n ≤ buf.length then some ((buf.drop i).take n) else none

/-- Stores `bs` from byte `i` on. -/
def writeN (buf : List UInt8) (i : Nat) (bs : List UInt8) : Option (List UInt8) :=
  if i + bs.length ≤ buf.length then
    some (buf.take i ++ bs ++ buf.drop (i + bs.length))
  else none

/-! ## Lemmas -/

theorem toInt_of_lt {n : Nat} (h : n < 2 ^ 31) : toInt n = (n : Int) := by
  unfold toInt
  exact Int.bmod_eq_of_le (by omega) (by omega)

theorem toInt_eq_neg_one_iff (n : Nat) : toInt n = -1 ↔ (n + 1) % 4294967296 = 0 := by
  have h : toInt n = (n : Int).bmod 4294967296 := rfl
  rw [h, Int.bmod_def]
  split <;> omega

theorem readN_append {as bs cs : List UInt8} {i n : Nat} (hi : i = as.length) (hn : n = bs.length) :
    readN (as ++ (bs ++ cs)) i n = some bs := by
  subst hi hn
  simp [readN]

theorem writeN_append {as bs cs ds : List UInt8} {i : Nat} (hi : i = as.length)
    (hn : ds.length = bs.length) : writeN (as ++ (bs ++ cs)) i ds = some (as ++ (ds ++ cs)) := by
  subst hi
  simp [writeN, hn]

theorem length_readN {buf bs : List UInt8} {i n : Nat} (h : readN buf i n = some bs) :
    bs.length = n := by
  unfold readN at h
  split at h
  · cases h
    rw [List.length_take, List.length_drop]
    omega
  · cases h

theorem length_writeN {buf bs out : List UInt8} {i : Nat} (h : writeN buf i bs = some out) :
    out.length = buf.length := by
  unfold writeN at h
  split at h
  · simp only [Option.some.injEq] at h
    subst h
    simp
    omega
  · cases h

end Rewsr
