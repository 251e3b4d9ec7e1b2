import Rewsr.Go.Strings

/-!
# The probe's hugepage counters (`probe/probe_hugepages.go`)
-/

namespace Rewsr.Probe

open Rewsr.Go

/-- The results of `ParseMeminfoHugepages`. -/
structure HugepageCounters where
  total : Int := 0
  free : Int := 0
  defaultSizeKB : Int := 0
  deriving DecidableEq, Repr

/-- One line of `ParseMeminfoHugepages`. -/
def HugepageCounters.readLine (c : HugepageCounters) (line : List UInt8) : HugepageCounters :=
  match cut 0x3A line with
  | none => c
  | some (name, value) =>
    match fields value with
    | [] => c
    | field :: _ =>
      match atoi field with
      | none => c
      | some n =>
        let name := trimSpace name
        if name = ascii "HugePages_Total" then { c with total := n }
        else if name = ascii "HugePages_Free" then { c with free := n }
        else if name = ascii "Hugepagesize" then { c with defaultSizeKB := n }
        else c

/-- `ParseMeminfoHugepages` -/
def parseMeminfoHugepages (data : List UInt8) : HugepageCounters :=
  (split 0x0A data).foldl HugepageCounters.readLine {}

end Rewsr.Probe
