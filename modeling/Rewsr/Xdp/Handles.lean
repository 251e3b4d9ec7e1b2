import Rewsr.Sys.Handles
import Rewsr.Xdp.Setup

/-!
# What an AF_XDP socket holds (`xdp/xsk.c`)

The calls that create and destroy a UMEM and a socket on it, as programs that make the system calls
one by one. The structs have here the fields that hold something of the system; what else a
creation sets is its result, the state the data path starts from.
-/

namespace Rewsr.Xdp.Handles

open Resource Rewsr.Ring Rewsr.Sys

/-! ## System calls -/

/-- The four rings of a socket, which the offset given to `mmap` tells apart. -/
inductive RingKind where
  | fill
  | comp
  | rx
  | tx
  deriving DecidableEq, Repr

abbrev RingKind.Entry : RingKind → Type
  | .fill | .comp => UInt64
  | .rx | .tx => XdpDesc

/-- The `entry_size` given to `map_ring`. -/
def RingKind.entrySize : RingKind → Nat
  | .fill | .comp => 8
  | .rx | .tx => 16

/-- `struct rewsr_xdp_ring_offset` -/
structure RingOffset where
  producer : UInt64
  consumer : UInt64
  desc : UInt64
  flags : UInt64

/-- `struct rewsr_xdp_mmap_offsets` -/
structure MmapOffsets where
  rx : RingOffset
  tx : RingOffset
  fr : RingOffset
  cr : RingOffset

/-- The system calls of `xsk.c`; `setsockopt` is one for each option. `access` is not one: it is
what a call of the data path does through the pointers it has, and answers what the call returns.
-/
inductive XskReq where
  | mmapArea (size : UInt64)
  | mmapRing (kind : RingKind) (fd : Int) (off : RingOffset) (size : UInt64)
  | munmap (addr : Addr) (size : UInt64)
  | socket
  | close (fd : Int)
  | umemReg (fd : Int) (addr : Addr) (len : UInt64) (chunkSize : UInt32)
  | ringSize (fd : Int) (kind : RingKind) (entries : UInt32)
  | mmapOffsets (fd : Int)
  | calloc (n : UInt32) (size : UInt64)
  | free (addr : Addr)
  | ifNametoindex (name : String)
  | bind (fd : Int) (ifindex queueId : UInt32) (flags : UInt16)
  | sendto (fd : Int)
  | access (maps : List (Option Addr × UInt64)) (block : Option Addr)

/-- What a call answers: an `errno`, or what it gives. A mapping is never at `NULL`. -/
abbrev XskReq.Ans : XskReq → Type
  | .mmapArea _ => Except Int (Addr × (UInt64 → UInt8))
  | .mmapRing kind .. => Except Int (Addr × RingMap kind.Entry)
  | .munmap .. | .close _ | .free _ => Unit
  | .socket => Except Int Nat
  | .umemReg .. | .ringSize .. | .bind .. | .sendto _ => Except Int Unit
  | .mmapOffsets _ => Except Int MmapOffsets
  | .calloc .. => Option Addr
  | .ifNametoindex _ | .access .. => UInt32

/-- The data path follows no pointer that is `NULL`. -/
def XskReq.legal : XskReq → Prop
  | .access maps block => (∀ m ∈ maps, m.1.isSome) ∧ block.isSome
  | _ => True

def heldAccess (maps : List (Option Addr × UInt64)) (block : Option Addr) : Multiset Handle :=
  (maps.map fun m => heldMap m.1 m.2).sum + heldBlock block

/-- What has to be held at a call: what it takes back, and what it works on. -/
def XskReq.needs : XskReq → Multiset Handle
  | .mmapArea _ | .socket | .calloc .. | .ifNametoindex _ => 0
  | .munmap addr size => {.map addr size}
  | .mmapRing _ fd .. | .close fd | .ringSize fd .. | .mmapOffsets fd | .bind fd ..
  | .sendto fd => {.fd fd}
  | .umemReg fd addr len _ => {.fd fd} + {.map addr len}
  | .free addr => {.block addr}
  | .access maps block => heldAccess maps block

def XskReq.leaves : (r : XskReq) → r.Ans → Multiset Handle
  | .mmapArea size, .ok (addr, _) => {.map addr size}
  | .mmapArea _, .error _ => 0
  | .mmapRing _ fd _ size, .ok (addr, _) => {.fd fd} + {.map addr size}
  | .mmapRing _ fd .., .error _ => {.fd fd}
  | .munmap .., _ | .close _, _ | .free _, _ | .ifNametoindex _, _ => 0
  | .socket, .ok fd => {.fd fd}
  | .socket, .error _ => 0
  | .umemReg fd addr len _, _ => {.fd fd} + {.map addr len}
  | .ringSize fd .., _ | .mmapOffsets fd, _ | .bind fd .., _ | .sendto fd, _ => {.fd fd}
  | .calloc .., some addr => {.block addr}
  | .calloc .., none => 0
  | .access maps block, _ => heldAccess maps block

@[reducible] def xskSys : Iface where
  Req := XskReq
  Ans := XskReq.Ans
  Res := Handle
  legal := XskReq.legal
  needs := XskReq.needs
  leaves := XskReq.leaves

abbrev syscall (r : XskReq) : Proc xskSys r.Ans := @Proc.ask xskSys r

/-- `if (map != NULL) munmap(map, size);` -/
def unmap (map : Option Addr) (size : UInt64) : Proc xskSys Unit :=
  match map with
  | some addr => syscall (.munmap addr size)
  | none => pure ()

/-- `if (fd >= 0) close(fd);` -/
def closeFd (fd : Int) : Proc xskSys Unit := if 0 ≤ fd then syscall (.close fd) else pure ()

/-- `free`, which does nothing with `NULL`. -/
def free (p : Option Addr) : Proc xskSys Unit :=
  match p with
  | some addr => syscall (.free addr)
  | none => pure ()

/-! ## Rings -/

/-- `map_ring`; on success the ring, `*map` and `*map_size`. -/
def mapRing (fd : Int) (kind : RingKind) (off : RingOffset) (entries : UInt32) :
    Proc xskSys (Except Int (SharedRing kind.Entry × Addr × UInt64)) := do
  let size := off.desc + entries.toUInt64 * UInt64.ofNat kind.entrySize
  match ← syscall (.mmapRing kind fd off size) with
  | .error errno => return .error (negErrno errno)
  | .ok (area, m) =>
    match ringInit (some m.producer) (some m.consumer) (some m.mem) entries kind.entrySize with
    | none => do
      syscall (.munmap area size)
      return .error (-einval)
    | some view =>
      return .ok ({ view, producer := m.producer, consumer := m.consumer, mem := m.mem
                    cur := m.producer }, area, size)

/-- Two `setsockopt` calls, the second where the first succeeds. -/
def ringSizes (fd : Int) (kind : RingKind) (entries : UInt32) (kind' : RingKind)
    (entries' : UInt32) : Proc xskSys (Except Int Unit) := do
  match ← syscall (.ringSize fd kind entries) with
  | .error errno => return .error errno
  | .ok () => syscall (.ringSize fd kind' entries')

/-! ## UMEM -/

/-- The fields of `struct rewsr_xsk_umem` that hold something. -/
structure UmemHandle where
  area : Option Addr
  areaSize : UInt64
  fd : Int
  fillMap : Option Addr
  fillMapSize : UInt64
  compMap : Option Addr
  compMapSize : UInt64
  poolStack : Option Addr
  deriving DecidableEq, Repr

/-- After `memset`. -/
def UmemHandle.zero : UmemHandle :=
  { area := none, areaSize := 0, fd := 0, fillMap := none, fillMapSize := 0, compMap := none
    compMapSize := 0, poolStack := none }

/-- `rewsr_xsk_umem_destroy` -/
def xskUmemDestroy (umem : UmemHandle) : Proc xskSys UmemHandle := do
  unmap umem.fillMap umem.fillMapSize
  unmap umem.compMap umem.compMapSize
  closeFd umem.fd
  unmap umem.area umem.areaSize
  free umem.poolStack
  return { umem with fillMap := none, compMap := none, area := none, poolStack := none
                     fd := if 0 ≤ umem.fd then -1 else umem.fd }

/-- `rewsr_xsk_umem_destroy(umem); return rc;` -/
def umemFail {α : Type} (umem : UmemHandle) (rc : Int) :
    Proc xskSys (Except Int α × UmemHandle) := do
  let umem ← xskUmemDestroy umem
  return (.error rc, umem)

/-- `rewsr_xsk_umem_create` from the `calloc` on. -/
def umemPool (cfg : XskConfig) (umem : UmemHandle) (bytes : UInt64 → UInt8)
    (fill comp : SharedRing UInt64) : Proc xskSys (Except Int XskUmem × UmemHandle) := do
  match ← syscall (.calloc cfg.numFrames 8) with
  | none => umemFail umem (-enomem)
  | some addr =>
    let umem := { umem with poolStack := some addr }
    match FramePool.init cfg.numFrames cfg.frameSize with
    | none => umemFail umem (-einval)
    | some pool =>
      return (.ok { area := bytes, frameSize := cfg.frameSize, numFrames := cfg.numFrames, fill
                    comp := { comp with cur := comp.consumer }, pool }, umem)

/-- `rewsr_xsk_umem_create` from the offsets on. -/
def umemRings (cfg : XskConfig) (umem : UmemHandle) (bytes : UInt64 → UInt8) :
    Proc xskSys (Except Int XskUmem × UmemHandle) := do
  match ← syscall (.mmapOffsets umem.fd) with
  | .error errno => umemFail umem (negErrno errno)
  | .ok offsets =>
    match ← mapRing umem.fd .fill offsets.fr cfg.fillSize with
    | .error rc => umemFail umem rc
    | .ok (fill, map, mapSize) =>
      let umem := { umem with fillMap := some map, fillMapSize := mapSize }
      match ← mapRing umem.fd .comp offsets.cr cfg.compSize with
      | .error rc => umemFail umem rc
      | .ok (comp, map, mapSize) =>
        umemPool cfg { umem with compMap := some map, compMapSize := mapSize } bytes fill comp

/-- `rewsr_xsk_umem_create` from the registration on. -/
def umemRegister (cfg : XskConfig) (umem : UmemHandle) (area : Addr) (bytes : UInt64 → UInt8) :
    Proc xskSys (Except Int XskUmem × UmemHandle) := do
  match ← syscall (.umemReg umem.fd area umem.areaSize cfg.frameSize) with
  | .error errno => umemFail umem (negErrno errno)
  | .ok () =>
    match ← ringSizes umem.fd .fill cfg.fillSize .comp cfg.compSize with
    | .error errno => umemFail umem (negErrno errno)
    | .ok () => umemRings cfg umem bytes

/-- `rewsr_xsk_umem_create` -/
def xskUmemCreate (cfgIn : Option XskConfig) :
    Proc xskSys (Except Int XskUmem × UmemHandle) := do
  let cfg := applyDefaults cfgIn
  let umem := { UmemHandle.zero with
    fd := -1, areaSize := cfg.numFrames.toUInt64 * cfg.frameSize.toUInt64 }
  match ← syscall (.mmapArea umem.areaSize) with
  | .error errno => return (.error (negErrno errno), umem)
  | .ok (area, bytes) =>
    let umem := { umem with area := some area }
    match ← syscall .socket with
    | .error errno => umemFail umem (negErrno errno)
    | .ok fd => umemRegister cfg { umem with fd := fd } area bytes

/-! ## Socket -/

/-- The fields of `struct rewsr_xsk_socket` that hold something. -/
structure SocketHandle where
  fd : Int
  rxMap : Option Addr
  rxMapSize : UInt64
  txMap : Option Addr
  txMapSize : UInt64
  ownsUmem : Bool
  deriving DecidableEq, Repr

def SocketHandle.zero : SocketHandle :=
  { fd := 0, rxMap := none, rxMapSize := 0, txMap := none, txMapSize := 0, ownsUmem := false }

/-- `rewsr_xsk_socket_destroy` -/
def xskSocketDestroy (xsk : SocketHandle) : Proc xskSys SocketHandle := do
  unmap xsk.rxMap xsk.rxMapSize
  unmap xsk.txMap xsk.txMapSize
  if xsk.ownsUmem then closeFd xsk.fd
  return { xsk with rxMap := none, txMap := none, fd := -1 }

/-- `rewsr_xsk_socket_destroy(xsk); return rc;` -/
def socketFail {α : Type} (xsk : SocketHandle) (rc : Int) :
    Proc xskSys (Except Int α × SocketHandle) := do
  let xsk ← xskSocketDestroy xsk
  return (.error rc, xsk)

/-- `rewsr_xsk_socket_create` from the offsets on. -/
def socketRings (cfg : XskConfig) (xsk : SocketHandle) (ifindex queueId : UInt32) :
    Proc xskSys (Except Int XskSocket × SocketHandle) := do
  match ← syscall (.mmapOffsets xsk.fd) with
  | .error errno => return (.error (negErrno errno), xsk)
  | .ok offsets =>
    match ← mapRing xsk.fd .rx offsets.rx cfg.rxSize with
    | .error rc => return (.error rc, xsk)
    | .ok (rx, map, mapSize) =>
      let xsk := { xsk with rxMap := some map, rxMapSize := mapSize }
      match ← mapRing xsk.fd .tx offsets.tx cfg.txSize with
      | .error rc => socketFail xsk rc
      | .ok (tx, map, mapSize) =>
        let xsk := { xsk with txMap := some map, txMapSize := mapSize }
        match ← syscall (.bind xsk.fd ifindex queueId cfg.bindFlags.toUInt16) with
        | .error errno => socketFail xsk (negErrno errno)
        | .ok () =>
          return (.ok { ifindex, queueId, rx := { rx with cur := rx.consumer }, tx }, xsk)

/-- `rewsr_xsk_socket_create` on a UMEM with descriptor `umemFd`. -/
def xskSocketCreate (umemFd : Int) (ifname : String) (queueId : UInt32)
    (cfgIn : Option XskConfig) : Proc xskSys (Except Int XskSocket × SocketHandle) := do
  let cfg := applyDefaults cfgIn
  let xsk := { SocketHandle.zero with fd := -1 }
  let ifindex ← syscall (.ifNametoindex ifname)
  if ifindex = 0 then return (.error (-enodev), xsk)
  else
    let xsk := { xsk with fd := umemFd, ownsUmem := false }
    match ← ringSizes xsk.fd .rx cfg.rxSize .tx cfg.txSize with
    | .error errno => return (.error (negErrno errno), xsk)
    | .ok () => socketRings cfg xsk ifindex queueId

/-! ## The data path -/

def enobufs : Int := 105
def eagain : Int := 11
def ebusy : Int := 16

/-- `rewsr_xsk_kick` -/
def xskKick (xsk : SocketHandle) : Proc xskSys Int := do
  match ← syscall (.sendto xsk.fd) with
  | .error errno =>
    return if errno ≠ enobufs ∧ errno ≠ eagain ∧ errno ≠ ebusy then negErrno errno else 0
  | .ok () => return 0

/-- What `rewsr_xsk_fill_refill` works on. -/
def xskFillRefill (umem : UmemHandle) : Proc xskSys UInt32 :=
  syscall (.access [(umem.fillMap, umem.fillMapSize)] umem.poolStack)

/-- What `rewsr_xsk_rx_burst` works on. -/
def xskRxBurst (umem : UmemHandle) (xsk : SocketHandle) : Proc xskSys UInt32 := do
  let got ← syscall (.access [(xsk.rxMap, xsk.rxMapSize), (umem.area, umem.areaSize)]
    umem.poolStack)
  let _ ← xskFillRefill umem
  return got

/-- What `rewsr_xsk_tx_burst` works on. -/
def xskTxBurst (umem : UmemHandle) (xsk : SocketHandle) : Proc xskSys UInt32 :=
  syscall (.access [(xsk.txMap, xsk.txMapSize), (umem.area, umem.areaSize)] umem.poolStack)

/-- What `rewsr_xsk_tx_complete` works on. -/
def xskTxComplete (umem : UmemHandle) : Proc xskSys UInt32 :=
  syscall (.access [(umem.compMap, umem.compMapSize)] umem.poolStack)

/-! ## Answers

What `UmemSyscalls` and `SocketSyscalls` are in a run, read from the calls that the run has made. A
call that it has not made counts as failed with 0, which no call does. -/

abbrev XskEvent : Type := Event xskSys

/-- The negative `errno` of a call between the mappings that fails. -/
def XskEvent.failure : XskEvent → Option Int
  | ⟨.socket, .error errno⟩ => some (negErrno errno)
  | ⟨.umemReg .., .error errno⟩ => some (negErrno errno)
  | ⟨.ringSize .., .error errno⟩ => some (negErrno errno)
  | ⟨.mmapOffsets _, .error errno⟩ => some (negErrno errno)
  | _ => none

def XskEvent.mapsRing : XskEvent → Bool
  | ⟨.mmapRing .., _⟩ => true
  | _ => false

/-- What the calls between the mapping of the buffer and those of the rings answer: the first
failure. -/
def untilRings (es : List XskEvent) : Except Int Unit :=
  match (es.takeWhile fun ev => !ev.mapsRing).findSome? XskEvent.failure with
  | some rc => .error rc
  | none => .ok ()

/-- What an `mmap` gives, without its address. -/
def mapped {α : Type} : Except Int (Addr × α) → Except Int α
  | .error errno => .error (negErrno errno)
  | .ok (_, a) => .ok a

def XskEvent.area : XskEvent → Option (Except Int (UInt64 → UInt8))
  | ⟨.mmapArea _, a⟩ => some (mapped a)
  | _ => none

def XskEvent.ring (kind : RingKind) : XskEvent → Option (Except Int (RingMap kind.Entry))
  | ⟨.mmapRing kind' .., a⟩ => if h : kind' = kind then some (h ▸ mapped a) else none
  | _ => none

def XskEvent.block : XskEvent → Option Bool
  | ⟨.calloc .., a⟩ => some a.isSome
  | _ => none

def XskEvent.ifindex : XskEvent → Option UInt32
  | ⟨.ifNametoindex _, a⟩ => some a
  | _ => none

def XskEvent.bound : XskEvent → Option (Except Int Unit)
  | ⟨.bind .., .error errno⟩ => some (.error (negErrno errno))
  | ⟨.bind .., .ok ()⟩ => some (.ok ())
  | _ => none

/-- What the calls of `rewsr_xsk_umem_create` have answered. -/
def umemAnswers (es : List XskEvent) : UmemSyscalls where
  area := do
    let bytes ← (es.findSome? XskEvent.area).getD (.error 0)
    untilRings es
    return bytes
  fill := (es.findSome? (XskEvent.ring .fill)).getD (.error 0)
  comp := (es.findSome? (XskEvent.ring .comp)).getD (.error 0)
  poolStack := (es.findSome? XskEvent.block).getD false

/-- What the calls of `rewsr_xsk_socket_create` have answered. -/
def socketAnswers (es : List XskEvent) : SocketSyscalls where
  ifNametoindex _ := (es.findSome? XskEvent.ifindex).getD 0
  ringSizes := untilRings es
  rx := (es.findSome? (XskEvent.ring .rx)).getD (.error 0)
  tx := (es.findSome? (XskEvent.ring .tx)).getD (.error 0)
  bind := (es.findSome? XskEvent.bound).getD (.error 0)

end Rewsr.Xdp.Handles
