import Rewsr.Xdp.Xsk

/-!
# Setting up an AF_XDP socket (`xdp/xsk.c`)

The configuration with its defaults, and the calls that create a UMEM and a socket on it. What the
system calls in them answer is an argument: the negative errno of the first that fails, or what it
maps. On an error the calls undo what they did, and no state is left.
-/

namespace Rewsr.Xdp

open Rewsr.Ring

def enomem : Int := 12
def enodev : Int := 19
def einval : Int := 22

/-! ## Configuration -/

/-- `struct rewsr_xsk_config` -/
structure XskConfig where
  numFrames : UInt32
  frameSize : UInt32
  fillSize : UInt32
  compSize : UInt32
  rxSize : UInt32
  txSize : UInt32
  bindFlags : UInt32
  deriving DecidableEq, Repr

/-- `rewsr_xsk_config_default` -/
def xskConfigDefault : XskConfig :=
  { numFrames := 4096, frameSize := 2048, fillSize := 2048, compSize := 2048, rxSize := 2048
    txSize := 2048, bindFlags := 0 }

/-- `apply_defaults`; the argument may be `NULL`. -/
def applyDefaults (cfg : Option XskConfig) : XskConfig :=
  let def_ := xskConfigDefault
  match cfg with
  | none => { def_ with bindFlags := 0 }
  | some c =>
    { numFrames := if c.numFrames ≠ 0 then c.numFrames else def_.numFrames
      frameSize := if c.frameSize ≠ 0 then c.frameSize else def_.frameSize
      fillSize := if c.fillSize ≠ 0 then c.fillSize else def_.fillSize
      compSize := if c.compSize ≠ 0 then c.compSize else def_.compSize
      rxSize := if c.rxSize ≠ 0 then c.rxSize else def_.rxSize
      txSize := if c.txSize ≠ 0 then c.txSize else def_.txSize
      bindFlags := c.bindFlags }

/-! ## Rings -/

/-- A ring region as it is mapped: its two counters and its descriptors. -/
structure RingMap (V : Type) where
  producer : UInt32
  consumer : UInt32
  mem : Nat → V

/-- `map_ring` -/
def mapRing {V : Type} (map : Except Int (RingMap V)) (entries : UInt32) (entrySize : Nat) :
    Except Int (SharedRing V) := do
  let m ← map
  match ringInit (some m.producer) (some m.consumer) (some m.mem) entries entrySize with
  | none => throw (-einval)
  | some view =>
    return { view, producer := m.producer, consumer := m.consumer, mem := m.mem, cur := m.producer }

/-! ## UMEM and socket -/

/-- What the system calls of `rewsr_xsk_umem_create` answer: those up to the ring offsets (the
mapped packet buffer), the two ring mappings, and whether `calloc` finds memory for the pool. -/
structure UmemSyscalls where
  area : Except Int (UInt64 → UInt8)
  fill : Except Int (RingMap UInt64)
  comp : Except Int (RingMap UInt64)
  poolStack : Bool

/-- `struct rewsr_xsk_umem` -/
structure XskUmem where
  area : UInt64 → UInt8
  frameSize : UInt32
  numFrames : UInt32
  fill : SharedRing UInt64
  comp : SharedRing UInt64
  pool : FramePool

/-- `rewsr_xsk_umem_create` -/
def xskUmemCreate (cfgIn : Option XskConfig) (sys : UmemSyscalls) : Except Int XskUmem := do
  let cfg := applyDefaults cfgIn
  let area ← sys.area
  let fill ← mapRing sys.fill cfg.fillSize 8
  let comp ← mapRing sys.comp cfg.compSize 8
  if !sys.poolStack then throw (-enomem)
  match FramePool.init cfg.numFrames cfg.frameSize with
  | none => throw (-einval)
  | some pool =>
    return { area, frameSize := cfg.frameSize, numFrames := cfg.numFrames, fill
             comp := { comp with cur := comp.consumer }, pool }

/-- What the system calls of `rewsr_xsk_socket_create` answer: the index of an interface name (0 for
none), the ring sizes and offsets, the two ring mappings, and `bind`. -/
structure SocketSyscalls where
  ifNametoindex : String → UInt32
  ringSizes : Except Int Unit
  rx : Except Int (RingMap XdpDesc)
  tx : Except Int (RingMap XdpDesc)
  bind : Except Int Unit

/-- `struct rewsr_xsk_socket` -/
structure XskSocket where
  ifindex : UInt32
  queueId : UInt32
  rx : SharedRing XdpDesc
  tx : SharedRing XdpDesc

/-- `rewsr_xsk_socket_create` -/
def xskSocketCreate (ifname : String) (queueId : UInt32) (cfgIn : Option XskConfig)
    (sys : SocketSyscalls) : Except Int XskSocket := do
  let cfg := applyDefaults cfgIn
  let ifindex := sys.ifNametoindex ifname
  if ifindex = 0 then throw (-enodev)
  sys.ringSizes
  let rx ← mapRing sys.rx cfg.rxSize 16
  let tx ← mapRing sys.tx cfg.txSize 16
  sys.bind
  return { ifindex, queueId, rx := { rx with cur := rx.consumer }, tx }

/-- The data path of a UMEM and the socket on it, before any call. -/
def xskStart {κ : Type} (umem : XskUmem) (xsk : XskSocket) (user : κ) : Xsk κ :=
  { area := umem.area, frameSize := umem.frameSize, pool := umem.pool
    fill := umem.fill, comp := umem.comp, rx := xsk.rx, tx := xsk.tx
    user, kernelRx := [], kernelTx := [], accepted := [], txSeen := [], popped := []
    fillSeen := [], rxFreeFailures := 0 }

end Rewsr.Xdp
