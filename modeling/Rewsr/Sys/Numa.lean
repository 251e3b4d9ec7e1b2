import Rewsr.Sys.Affinity

/-!
# CPUs of a NUMA node (`csrc/sys/numa.c`)
-/

namespace Rewsr.Sys

/-- `INT_MAX` -/
def intMax : Int := 2 ^ 31 - 1

/-- `LONG_MAX` -/
def longMax : Int := 2 ^ 63 - 1

/-- `count += (int)(hi - lo + 1)` for a range that is not reversed. An overflow of `long` or `int`
is undefined behaviour. -/
def addRange (count lo hi : Int) : Option Int :=
  if hi - lo + 1 > longMax then none
  else
    let count := count + (hi - lo + 1).bmod (2 ^ 32)
    if count > intMax ∨ count < -intMax - 1 then none else some count

/-- The loop of `rewsr_numa_count_cpus` for as many rounds as `fuel` at most. -/
def numaCountCpusFrom : Nat → Int → List UInt8 → Option Int
  | 0, _, _ => none
  | fuel + 1, count, p =>
    if deref p = 0 ∨ deref p = 0x0A then some count
    else
      match readToken (fun _ => true) p with
      | none => some (-1)
      | some (lo, hi, p) =>
        match addRange count lo hi with
        | none => none
        | some count =>
          if deref p = 0x2C then numaCountCpusFrom fuel count (p.drop 1)
          else if deref p ≠ 0 ∧ deref p ≠ 0x0A then some (-1)
          else numaCountCpusFrom fuel count p

/-- `rewsr_numa_count_cpus` -/
def numaCountCpus (fuel : Nat) (cpulist : Option CString) : Option Int :=
  match cpulist with
  | none => some (-1)
  | some cpulist => numaCountCpusFrom fuel 0 cpulist.bytes

end Rewsr.Sys
