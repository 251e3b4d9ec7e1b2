import Rewsr.Dataplane.Loop
import Rewsr.Xdp.Handles

/-!
# What a worker holds (`dataplane/worker.c`)

`rewsr_dp_worker_init`, `rewsr_dp_worker_run` and `rewsr_dp_worker_destroy` as programs that make
the system calls one by one, and a worker as its owner uses it: set up any number of times, run
only after a success, and destroyed at any time after the first set-up, also twice or after a
failure.
-/

namespace Rewsr.Dataplane.Handles

open Resource Rewsr.Net Rewsr.Sys Rewsr.Xdp Rewsr.Xdp.Handles

/-- The fields of `struct rewsr_dp_worker` that hold something. -/
structure WorkerHandle where
  umem : UmemHandle
  xsk : SocketHandle
  deriving DecidableEq, Repr

/-- `rewsr_dp_worker_destroy` -/
def dpWorkerDestroy (w : WorkerHandle) : Proc xskSys WorkerHandle := do
  let xsk ← xskSocketDestroy w.xsk
  let umem ← xskUmemDestroy w.umem
  return { umem, xsk }

/-- `rewsr_dp_worker_init` from the first refill on. -/
def workerPrime (e : Endian) (cfg : DpConfig) (umem : XskUmem) (xsk : XskSocket)
    (w : WorkerHandle) : Proc xskSys (Except Int (Xsk Worker) × WorkerHandle) := do
  let _ ← xskFillRefill w.umem
  let s := ((fillRefill xskConfigDefault.fillSize).run (xskStart umem xsk zeroWorker)).2
  if cfg.role.transmits then
    match pktgenInit e cfg.flow cfg.plen.toNat with
    | some (.ok gen) => return (.ok { s with user := { s.user with gen } }, w)
    | _ => do
      let w ← dpWorkerDestroy w
      return (.error (-Xdp.einval), w)
  else return (.ok s, w)

/-- `rewsr_dp_worker_init` -/
def dpWorkerInit (e : Endian) (cfg : DpConfig) :
    Proc xskSys (Except Int (Xsk Worker) × WorkerHandle) := do
  match ← Handles.xskUmemCreate (some xskConfigDefault) with
  | (.error rc, umem) => return (.error rc, { umem, xsk := .zero })
  | (.ok umemState, umem) =>
    match ← Handles.xskSocketCreate umem.fd cfg.ifname cfg.queueId (some xskConfigDefault) with
    | (.error rc, xsk) => do
      let umem ← xskUmemDestroy umem
      return (.error rc, { umem, xsk })
    | (.ok xskState, xsk) => workerPrime e cfg umemState xskState { umem, xsk }

/-- An iteration of `rewsr_dp_worker_run`. -/
def workerTurn (cfg : DpConfig) (w : WorkerHandle) : Proc xskSys Unit := do
  let _ ← (if cfg.role.receives then xskRxBurst w.umem w.xsk else pure 0)
  if cfg.role.transmits then
    let sent ← xskTxBurst w.umem w.xsk
    let _ ← (if sent > 0 then xskKick w.xsk else pure 0)
    let _ ← xskTxComplete w.umem
    return ()
  else return ()

/-- `rewsr_dp_worker_run`, left after `n` iterations. -/
def dpWorkerRun (cfg : DpConfig) (w : WorkerHandle) : Nat → Proc xskSys Unit
  | 0 => pure ()
  | n + 1 => do
    workerTurn cfg w
    dpWorkerRun cfg w n

/-- What the calls of `rewsr_dp_worker_init` have answered: those of the UMEM, and from the
interface index on those of the socket. -/
def workerAnswers (es : List XskEvent) : WorkerSyscalls where
  umem := umemAnswers es
  socket := socketAnswers (es.dropWhile fun ev => ev.ifindex.isNone)

/-! ## A worker and its owner -/

/-- A `struct rewsr_dp_worker`: memory that nothing has set, one whose set-up failed, one that is
set up, and one that was destroyed. -/
inductive Slot where
  | raw
  | failed (w : WorkerHandle)
  | up (cfg : DpConfig) (w : WorkerHandle)
  | down (w : WorkerHandle)

inductive WorkerOp where
  | init (cfg : DpConfig)
  | run (turns : Nat)
  | destroy

def WorkerOp.exec (e : Endian) : WorkerOp → Slot → Proc xskSys Slot
  | .init cfg, _ => do
    match ← dpWorkerInit e cfg with
    | (.ok _, w) => return .up cfg w
    | (.error _, w) => return .failed w
  | .run turns, .up cfg w => do
    dpWorkerRun cfg w turns
    return .up cfg w
  | .destroy, .failed w | .destroy, .up _ w | .destroy, .down w => do
    let w ← dpWorkerDestroy w
    return .down w
  | _, t => return t

/-- A worker that is set up is not set up again before it is destroyed. -/
def WorkerOp.Ready : WorkerOp → Slot → Prop
  | .init _, .up .. => False
  | .init _, _ => True
  | .run _, .up .. => True
  | .run _, _ => False
  | .destroy, .raw => False
  | .destroy, _ => True

end Rewsr.Dataplane.Handles
