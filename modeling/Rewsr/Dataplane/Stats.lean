/-!
# Counters of the data-plane worker (`dataplane/stats.c`)

All arithmetic is modulo 2^64, as in the source. Of `rewsr_dp_rate_compute` there is the attempted
count it divides by; the rates themselves are floating-point numbers.
-/

namespace Rewsr.Dataplane

/-- `struct rewsr_dp_stats` -/
structure DpStats where
  rxPackets : UInt64
  rxBytes : UInt64
  txPackets : UInt64
  txBytes : UInt64
  rxDrops : UInt64
  txDrops : UInt64
  parseErrors : UInt64
  deriving DecidableEq, Repr

/-- `rewsr_dp_stats_zero` -/
def dpStatsZero : DpStats :=
  { rxPackets := 0, rxBytes := 0, txPackets := 0, txBytes := 0, rxDrops := 0, txDrops := 0
    parseErrors := 0 }

/-- `rewsr_dp_stats_delta` -/
def dpStatsDelta (start end_ : DpStats) : DpStats :=
  { rxPackets := end_.rxPackets - start.rxPackets
    rxBytes := end_.rxBytes - start.rxBytes
    txPackets := end_.txPackets - start.txPackets
    txBytes := end_.txBytes - start.txBytes
    rxDrops := end_.rxDrops - start.rxDrops
    txDrops := end_.txDrops - start.txDrops
    parseErrors := end_.parseErrors - start.parseErrors }

/-- `attempted` of `rewsr_dp_rate_compute` -/
def dpAttempted (delta : DpStats) : UInt64 := delta.txPackets + delta.txDrops

end Rewsr.Dataplane
