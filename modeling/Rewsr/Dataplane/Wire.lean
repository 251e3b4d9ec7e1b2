import Rewsr.Dataplane.Loop
import Rewsr.Xdp.Wire

/-!
# The worker's loop on the wire

The loop with the record of the frames that pass it, against a faithful kernel and the thread that
sets `stop`.
-/

namespace Rewsr.Dataplane

open Interleave Counter Rewsr.Net Rewsr.Xdp

/-- Another thread sets or clears `stop`. -/
def SetsStop (w w' : Worker) : Prop := ∃ stop, w' = { w with stop }

/-- The room a transmit part needs for a whole batch, or the lack of it that makes its burst
fail. -/
def BatchRoom (cfg : DpConfig) (s : Xsk Worker) : Prop :=
  s.tx.view.size.toNat < gap s.tx.consumer s.tx.producer + cfg.burst.toNat ∨
    cfg.burst.toNat ≤ s.pool.available

/-- The loop, with the frames its kernel receives among those with `P`. -/
def wireWorker (e : Endian) (cfg : DpConfig) (P : List UInt8 → Prop) :
    Sys Unit (Xsk Worker × Wire) PUnit WorkerOp :=
  Sys.metered { workerLoop e cfg (BatchRoom cfg) with env := WireEnv P SetsStop } Wire.note

/-- System calls that map rings with nothing in them. -/
structure EmptyRings (sys : WorkerSyscalls) : Prop where
  fill : ∀ m, sys.umem.fill = .ok m → m.consumer = m.producer
  comp : ∀ m, sys.umem.comp = .ok m → m.consumer = m.producer
  rx : ∀ m, sys.socket.rx = .ok m → m.consumer = m.producer
  tx : ∀ m, sys.socket.tx = .ok m → m.consumer = m.producer

/-- A worker that the initialiser has set up on such rings. -/
def WireStart (e : Endian) (cfg : DpConfig) (x : Xsk Worker × Wire) : Prop :=
  x.2 = Wire.empty ∧ ∃ sys, EmptyRings sys ∧ dpWorkerInit e cfg sys = .ok x.1

/-- A configuration that can send: its frames fit a chunk, or it does not send at all. -/
def DpConfig.Fits (cfg : DpConfig) : Prop := cfg.role.transmits → 42 + cfg.plen.toNat ≤ 2048

end Rewsr.Dataplane
