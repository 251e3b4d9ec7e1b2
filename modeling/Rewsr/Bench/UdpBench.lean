import Rewsr.Sys.CString
import Rewsr.Sys.Sockets

/-!
# The UDP loopback benchmark (`bench/udp_bench.c`)

The two legs of the benchmark with the calls they make, and the echo thread of the first. The
numbers of microseconds and megabits are left out, and with them the sort of the samples and the
reads that take the minimum, the maximum, the sum and the 99th percentile from them; what is counted
is not.
-/

namespace Rewsr.Bench

open Resource Rewsr.Sys

/-- The counting fields of `struct rewsr_udp_bench_result`. -/
structure UdpBenchResult where
  packetSize : Nat
  packetsSent : Nat
  packetsRecv : Nat
  deriving DecidableEq, Repr

/-- After `memset`. -/
def UdpBenchResult.zero : UdpBenchResult := { packetSize := 0, packetsSent := 0, packetsRecv := 0 }

/-- A count from an argument: the default where the argument is not positive. -/
def orDefault (n : Int) (default : Nat) : Nat := if n ≤ 0 then default else n.toNat

/-- `open_loopback_udp`; `none` is a return of -1. -/
def openLoopbackUdp : Proc sockSys (Option Nat) := do
  match ← sockcall .socket with
  | .error _ => return none
  | .ok fd =>
    match ← sockcall (.bind fd) with
    | .error _ => do
      sockcall (.close fd)
      return none
    | .ok () =>
      match ← sockcall (.getsockname fd) with
      | .error _ => do
        sockcall (.close fd)
        return none
      | .ok () => return some fd

/-! ## The echo thread -/

/-- `sizeof buf` of `echo_server`, and of the drain. -/
def datagramMax : Nat := 65536

/-- The loop of `echo_server`, left after `n` rounds. -/
def echoLoop (fd : Int) : Nat → Proc sockSys Unit
  | 0 => pure ()
  | n + 1 => do
    match ← sockcall (.recv fd datagramMax) with
    | .error _ => echoLoop fd n
    | .ok bytes => do
      let _ ← sockcall (.send fd bytes.val)
      echoLoop fd n

/-- `echo_server` -/
def echoServer (fd : Int) (rounds : Nat) : Proc sockSys Unit := do
  let _ ← sockcall (.setsockopt fd)
  echoLoop fd rounds

/-- The stop flag is set, the thread joined and its descriptor closed. -/
def stopEcho (thread : Nat) (echoFd : Int) : Proc sockSys Unit := do
  sockcall (.setStop thread echoFd)
  sockcall (.pthreadJoin thread echoFd)
  sockcall (.close echoFd)

/-! ## Latency -/

/-- `ping-%d` -/
def ping (i : Nat) : List UInt8 := ascii "ping-" ++ ascii (toString i)

/-- The `for` loop of `rewsr_udp_bench_latency` with `n` rounds left, where `samples` has room for
`pingCount` samples. -/
def pingLoop (fd : Int) (samples : Addr) (pingCount : Nat) : Nat → Nat → Nat → Proc sockSys Nat
  | 0, _, collected => pure collected
  | n + 1, i, collected => do
    match ← sockcall (.send fd (ping i)) with
    | .error _ => pingLoop fd samples pingCount n (i + 1) collected
    | .ok () =>
      match ← sockcall (.recv fd 64) with
      | .error _ => pingLoop fd samples pingCount n (i + 1) collected
      | .ok _ => do
        sockcall (.store samples collected pingCount)
        pingLoop fd samples pingCount n (i + 1) (collected + 1)

/-- `rewsr_udp_bench_latency`: the return value, and the number of samples collected. Between the
join and the `free` the source reads the samples, where there are any. -/
def udpBenchLatency (pingCount : Int) : Proc sockSys (Int × Nat) := do
  let pingCount := orDefault pingCount 200
  match ← openLoopbackUdp with
  | none => return (-1, 0)
  | some echoFd =>
    match ← sockcall (.pthreadCreate echoFd) with
    | .error _ => do
      sockcall (.close echoFd)
      return (-2, 0)
    | .ok thread =>
      match ← sockcall .socket with
      | .error _ => do
        stopEcho thread echoFd
        return (-3, 0)
      | .ok fd => do
        let _ ← sockcall (.setsockopt fd)
        match ← sockcall (.alloc (pingCount * 8)) with
        | none => do
          sockcall (.close fd)
          stopEcho thread echoFd
          return (-4, 0)
        | some samples => do
          let collected ← pingLoop fd samples pingCount pingCount 0 0
          sockcall (.close fd)
          stopEcho thread echoFd
          sockcall (.free samples)
          return (if collected = 0 then -5 else 0, collected)

/-! ## Throughput -/

/-- The `for` loop of `rewsr_udp_bench_throughput` with `n` rounds left. -/
def sendLoop (fd : Int) (payload : Addr) : Nat → Nat → Proc sockSys Nat
  | 0, sent => pure sent
  | n + 1, sent => do
    match ← sockcall (.sendBlock fd payload) with
    | .error _ => return sent
    | .ok () => sendLoop fd payload n (sent + 1)

/-- Its `while` loop with `n` packets that were sent and not received. -/
def drainLoop (fd : Int) : Nat → Nat → Proc sockSys Nat
  | 0, recv => pure recv
  | n + 1, recv => do
    match ← sockcall (.recv fd datagramMax) with
    | .error _ => return recv
    | .ok _ => drainLoop fd n (recv + 1)

/-- `rewsr_udp_bench_throughput`: the return value and `*out`. -/
def udpBenchThroughput (burstPackets packetSize : Int) (out : UdpBenchResult) :
    Proc sockSys (Int × UdpBenchResult) := do
  let burstPackets := orDefault burstPackets 2000
  let packetSize := orDefault packetSize 1024
  let out := { out with packetSize }
  match ← openLoopbackUdp with
  | none => return (-1, out)
  | some sinkFd => do
    let _ ← sockcall (.setsockopt sinkFd)
    match ← sockcall .socket with
    | .error _ => do
      sockcall (.close sinkFd)
      return (-2, out)
    | .ok fd =>
      match ← sockcall (.alloc packetSize) with
      | none => do
        sockcall (.close fd)
        sockcall (.close sinkFd)
        return (-3, out)
      | some payload => do
        let sent ← sendLoop fd payload burstPackets 0
        let _ ← sockcall (.setsockopt sinkFd)
        let recv ← drainLoop sinkFd sent 0
        sockcall (.free payload)
        sockcall (.close fd)
        sockcall (.close sinkFd)
        return (0, { out with packetsSent := sent, packetsRecv := recv })

/-- `rewsr_udp_bench_run`: the return value and `*out`. -/
def udpBenchRun (pingCount burstPackets packetSize : Int) :
    Proc sockSys (Int × UdpBenchResult) := do
  let out := UdpBenchResult.zero
  let (rc, _) ← udpBenchLatency pingCount
  if rc ≠ 0 then return (rc, out)
  else udpBenchThroughput burstPackets packetSize out

end Rewsr.Bench
