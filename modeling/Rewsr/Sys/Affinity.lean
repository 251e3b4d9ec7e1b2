import Rewsr.Sys.CString

/-!
# CPU sets (`csrc/sys/affinity.c`)

The bitmap of logical CPUs and the reader of cpulists. The system calls that apply a set are left
out.
-/

namespace Rewsr.Sys

/-- `REWSR_CPUSET_MAX` -/
def cpusetMax : Nat := 1024

/-- `REWSR_CPUSET_WORDS` -/
def cpusetWords : Nat := cpusetMax / 64

/-- `struct rewsr_cpuset` -/
structure CpuSet where
  bits : List UInt64
  length_bits : bits.length = cpusetWords
  deriving DecidableEq, Repr

namespace CpuSet

/-- `bits[w]` -/
def word (s : CpuSet) (w : Nat) : UInt64 := s.bits.getD w 0

/-- `rewsr_cpuset_zero` -/
def zero : CpuSet := ⟨List.replicate cpusetWords 0, List.length_replicate⟩

/-- `rewsr_cpuset_set`; a CPU out of range is ignored. -/
def set (s : CpuSet) (cpu : Int) : CpuSet :=
  if cpu < 0 ∨ cpu ≥ cpusetMax then s
  else
    let w := cpu.toNat / 64
    ⟨s.bits.set w (s.word w ||| 1 <<< UInt64.ofNat (cpu.toNat % 64)),
      by rw [List.length_set, s.length_bits]⟩

/-- `rewsr_cpuset_clr`; a CPU out of range is ignored. -/
def clr (s : CpuSet) (cpu : Int) : CpuSet :=
  if cpu < 0 ∨ cpu ≥ cpusetMax then s
  else
    let w := cpu.toNat / 64
    ⟨s.bits.set w (s.word w &&& ~~~ (1 <<< UInt64.ofNat (cpu.toNat % 64))),
      by rw [List.length_set, s.length_bits]⟩

/-- `rewsr_cpuset_isset` -/
def isset (s : CpuSet) (cpu : Int) : Int :=
  if cpu < 0 ∨ cpu ≥ cpusetMax then 0
  else ((s.word (cpu.toNat / 64) >>> UInt64.ofNat (cpu.toNat % 64)) &&& 1).toNat

theorem and_sub_one_lt {b : UInt64} (h : b ≠ 0) : (b &&& (b - 1)).toNat < b.toNat := by
  have hpos : 0 < b.toNat := Nat.pos_of_ne_zero (mt (UInt64.toNat_inj (b := 0)).mp h)
  have hle : (1 : UInt64) ≤ b := by
    rw [UInt64.le_iff_toNat_le]
    exact hpos
  have hsub : (b - 1).toNat = b.toNat - 1 := UInt64.toNat_sub_of_le _ _ hle
  rw [UInt64.toNat_and]
  exact Nat.lt_of_le_of_lt Nat.and_le_right (by omega)

/-- The loop of `rewsr_cpuset_count` over a word: one round for each bit that is set. -/
def countWord (b : UInt64) (count : Nat) : Nat :=
  if b = 0 then count else countWord (b &&& (b - 1)) (count + 1)
termination_by b.toNat
decreasing_by exact and_sub_one_lt ‹_›

/-- `rewsr_cpuset_count` -/
def count (s : CpuSet) : Nat :=
  (List.range cpusetWords).foldl (fun count w => countWord (s.word w) count) 0

/-- The loop of `rewsr_cpuset_first` over a word. -/
def firstOfWord (s : CpuSet) (w : Nat) : Option Nat :=
  if s.word w ≠ 0 then
    (List.range 64).findSome? fun b =>
      if (s.word w >>> UInt64.ofNat b) &&& 1 ≠ 0 then some (w * 64 + b) else none
  else none

/-- `rewsr_cpuset_first` -/
def first (s : CpuSet) : Int :=
  match (List.range cpusetWords).findSome? s.firstOfWord with
  | some cpu => cpu
  | none => -1

/-- The loop of `rewsr_cpuset_parse` over a range. -/
def setRange (s : CpuSet) (lo hi : Int) : CpuSet :=
  (List.range (hi - lo + 1).toNat).foldl (fun s (k : Nat) => s.set (lo + k)) s

end CpuSet

/-! ## Cpulists -/

/-- One token of a cpulist, as both readers of such lists take it: `lo` or `lo-hi`, and what
follows. `below` is the bound that the reader has for CPUs. -/
def readToken (below : Int → Bool) (p : List UInt8) : Option (Int × Int × List UInt8) :=
  let (lo, e) := strtol p
  if e = p ∨ lo < 0 ∨ !below lo then none
  else if deref e = 0x2D then
    let p := e.drop 1
    let (hi, e) := strtol p
    if e = p ∨ hi < lo ∨ !below hi then none else some (lo, hi, e)
  else some (lo, lo, e)

/-- The loop of `rewsr_cpuset_parse` for as many rounds as `fuel` at most: the result and the
set. -/
def cpusetParseFrom : Nat → CpuSet → List UInt8 → Option (Int × CpuSet)
  | 0, _, _ => none
  | fuel + 1, s, p =>
    if deref p = 0 then some (0, s)
    else
      match readToken (fun cpu => cpu < cpusetMax) p with
      | none => some (-1, s)
      | some (lo, hi, p) =>
        let s := s.setRange lo hi
        if deref p = 0x2C then cpusetParseFrom fuel s (p.drop 1)
        else if deref p ≠ 0 then some (-1, s)
        else cpusetParseFrom fuel s p

/-- `rewsr_cpuset_parse` -/
def cpusetParse (fuel : Nat) (list : Option CString) : Option (Int × CpuSet) :=
  match list with
  | none => some (-1, .zero)
  | some list => cpusetParseFrom fuel .zero list.bytes

end Rewsr.Sys
