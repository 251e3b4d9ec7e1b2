import Rewsr.Dataplane.Stats
import Rewsr.Dataplane.Worker
import Rewsr.Lib.Meter
import Rewsr.Net.Pktgen
import Rewsr.Xdp.Setup

/-!
# The worker (`dataplane/worker.c`)

`dpWorkerInit` sets a worker up, `rxPart` and `txPart` are the two parts of an iteration of
`rewsr_dp_worker_run`. The loop is a system with one thread that runs the two parts in turn, as
`at` says where its control is; between them and inside them come steps of the kernel, which may
leave anything on its side of the rings and in the packet buffer, and of the thread that sets
`stop`.
-/

namespace Rewsr.Dataplane

open Interleave Counter Rewsr.Net Rewsr.Xdp

/-! ## Configuration and state -/

/-- `enum rewsr_dp_role` -/
inductive DpRole where
  | source
  | sink
  | echo
  deriving DecidableEq, Repr

def DpRole.receives (r : DpRole) : Bool := r == .sink || r == .echo
def DpRole.transmits (r : DpRole) : Bool := r == .source || r == .echo

/-- `struct rewsr_dp_config`, its addressing fields together in `flow`. -/
structure DpConfig where
  ifname : String
  queueId : UInt32
  cpu : Int
  role : DpRole
  batch : UInt32
  payloadLen : UInt32
  flow : Flow
  maxPackets : UInt64

/-- `batch` of `rewsr_dp_worker_run` -/
def DpConfig.burst (cfg : DpConfig) : UInt32 := if cfg.batch ≠ 0 then cfg.batch else 64

/-- `plen` of `rewsr_dp_worker_init` -/
def DpConfig.plen (cfg : DpConfig) : UInt32 := if cfg.payloadLen < 8 then 64 else cfg.payloadLen

/-- Where the loop's control is: at the test of `stop`, before the transmit part of an iteration, or
out of the loop by either way. -/
inductive LoopAt where
  | top
  | tx
  | stopped
  | reached
  deriving DecidableEq, Repr

/-- The fields of `struct rewsr_dp_worker` the loop works on besides the UMEM and the socket, and
where its control is. The rest are history variables: the frames given to `rx_count`, what
`tx_fill` returned, and the transmit parts completed. -/
structure Worker where
  gen : Pktgen
  stats : DpStats
  stop : Bool
  loop : LoopAt
  seen : List (List UInt8)
  fills : List UInt32
  txCycles : Nat

/-- The generator of a worker that was zeroed and not initialised. -/
def zeroGen : Pktgen :=
  { tmpl := List.replicate tmplCap 0, frameLen := 0, payloadLen := 0, baseIpId := 0, ipId := 0
    seq := 0, ipCheckBase := 0, udpCheckBase := 0 }

def zeroWorker : Worker :=
  { gen := zeroGen, stats := dpStatsZero, stop := false, loop := .top, seen := [], fills := []
    txCycles := 0 }

/-! ## Initialisation -/

structure WorkerSyscalls where
  umem : UmemSyscalls
  socket : SocketSyscalls

/-- `rewsr_dp_worker_init`: the worker, or the negative errno. The kernel takes no entry of the fill
ring before the first refill submits it, so that refill runs alone. Pinning to a CPU changes
nothing here, and its failure is ignored. -/
def dpWorkerInit (e : Endian) (cfg : DpConfig) (sys : WorkerSyscalls) :
    Except Int (Xsk Worker) := do
  let xcfg := xskConfigDefault
  let umem ← xskUmemCreate (some xcfg) sys.umem
  let xsk ← xskSocketCreate cfg.ifname cfg.queueId (some xcfg) sys.socket
  let s := ((fillRefill xcfg.fillSize).run (xskStart umem xsk zeroWorker)).2
  if cfg.role.transmits then
    match pktgenInit e cfg.flow cfg.plen.toNat with
    | some (.ok gen) => return { s with user := { s.user with gen } }
    | _ => throw (-einval)
  else return s

/-! ## Callbacks -/

/-- `tx_fill`. -/
def txFill : TxCb Worker := fun data w =>
  match pktgenNext w.gen data with
  | some (n, gen, data) =>
    let len := if n < 0 then 0 else UInt32.ofNat n.toNat
    (len, data, { w with gen, fills := w.fills ++ [len] })
  -- no access outside a buffer: the generator is one that `rewsr_pktgen_init` has set up
  | none => (0, data, w)

/-- `rx_count`. On a frame on which the classifier reads past the end, what it finds there is not
given here; the parser then rejects the frame whatever it is (`udpLen_outside_rejected`). -/
def rxCount (e : Endian) : RxCb Worker := fun data w =>
  let w := { w with seen := w.seen ++ [data] }
  match dpClassify e data with
  | some (some _) =>
    { w with stats := { w.stats with
        rxPackets := w.stats.rxPackets + 1
        rxBytes := w.stats.rxBytes + UInt64.ofNat data.length } }
  | _ => { w with stats := { w.stats with parseErrors := w.stats.parseErrors + 1 } }

/-- Whether `rx_count` counts a frame as received. -/
def dpAccepts (e : Endian) (frame : List UInt8) : Bool :=
  match dpClassify e frame with
  | some (some _) => true
  | _ => false

/-- The frames of those given to `rx_count` that the classifier accepts. -/
def acceptedFrames (e : Endian) (w : Worker) : List (List UInt8) := w.seen.filter (dpAccepts e)

/-! ## The loop -/

/-- A step on the worker's own data. -/
def onWorker (f : Worker → Worker) : Prog (Xsk Worker) PUnit :=
  Prog.store fun s => { s with user := f s.user }

/-- The test of `stop` and the receive part of an iteration. -/
def rxPart (e : Endian) (cfg : DpConfig) : Prog (Xsk Worker) PUnit := do
  let stop ← Prog.load fun s => s.user.stop
  if stop then onWorker fun w => { w with loop := .stopped }
  else if cfg.role.receives then do
    let _ ← rxBurst cfg.burst (some (rxCount e))
    onWorker fun w => { w with loop := .tx }
  else onWorker fun w => { w with loop := .tx }

/-- The counters after a transmit burst that queued `sent` frames. The `rewsr_xsk_kick` after it
asks the kernel to look at the ring, which it may do at any time. -/
def countSent (batch sent : UInt32) (w : Worker) : Worker :=
  { w with
    txCycles := w.txCycles + 1
    stats :=
      if sent > 0 then
        { w.stats with
          txPackets := w.stats.txPackets + sent.toUInt64
          txBytes := w.stats.txBytes + sent.toUInt64 * UInt64.ofNat (pktgenFrameLen w.gen) }
      else { w.stats with txDrops := w.stats.txDrops + batch.toUInt64 } }

/-- The test at the end of an iteration. -/
def checkMax (maxPackets : UInt64) (w : Worker) : Worker :=
  if maxPackets > 0 ∧ w.stats.rxPackets + w.stats.txPackets ≥ maxPackets then
    { w with loop := .reached }
  else { w with loop := .top }

/-- The transmit part of an iteration and the test at its end. -/
def txPart (cfg : DpConfig) : Prog (Xsk Worker) PUnit :=
  if cfg.role.transmits then do
    let sent ← txBurst cfg.burst (some txFill)
    onWorker (countSent cfg.burst sent)
    let _ ← txComplete cfg.burst
    onWorker (checkMax cfg.maxPackets)
  else onWorker (checkMax cfg.maxPackets)

/-! ## Runs -/

inductive WorkerOp where
  | rx
  | tx
  deriving DecidableEq, Repr

/-- Descriptors released from the receive ring and submitted to the transmit ring: how far the
worker has moved the two counters. -/
structure Totals where
  released : Nat
  submitted : Nat

def countTotals (s s' : Xsk Worker) (t : Totals) : Totals :=
  { released := t.released + gap s.rx.consumer s'.rx.consumer
    submitted := t.submitted + gap s.tx.producer s'.tx.producer }

/-- The loop, with transmit parts that begin in states with `ok`. -/
def workerLoop (e : Endian) (cfg : DpConfig) (ok : Xsk Worker → Prop) :
    Sys Unit (Xsk Worker) PUnit WorkerOp where
  body
    | .rx => rxPart e cfg
    | .tx => txPart cfg
  ok _ op s :=
    match op with
    | .rx => s.user.loop = .top
    | .tx => s.user.loop = .tx ∧ ok s
  env s s' := ∃ stop, priv s' = priv { s with user := { s.user with stop } }

/-- The loop with its totals. -/
def workerSys (e : Endian) (cfg : DpConfig) (ok : Xsk Worker → Prop) :
    Sys Unit (Xsk Worker × Totals) PUnit WorkerOp := (workerLoop e cfg ok).metered countTotals

/-- A worker that the initialiser has set up. -/
def WorkerStart (e : Endian) (cfg : DpConfig) (x : Xsk Worker × Totals) : Prop :=
  x.2 = ⟨0, 0⟩ ∧ ∃ sys, dpWorkerInit e cfg sys = .ok x.1

end Rewsr.Dataplane
