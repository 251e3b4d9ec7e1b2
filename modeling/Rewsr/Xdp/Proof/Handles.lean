import Rewsr.Xdp.Handles

/-!
# What an AF_XDP socket holds

What the calls of `xsk.c` do with what they hold, whatever the system answers. A creation that fails
gives everything back (`xskUmemCreate_spec`, `xskSocketCreate_spec`); a destruction gives back what
the struct owns and leaves one that owns nothing. What a creation returns is what
`Xdp.xskUmemCreate` and `Xdp.xskSocketCreate` say of the answers it got (`xskUmemCreate_trace`,
`xskSocketCreate_trace`).
-/

namespace Rewsr.Xdp.Handles

open Resource Rewsr.Ring Rewsr.Sys

/-! ## The helpers -/

theorem unmap_spec (map : Option Addr) (size : UInt64) :
    Spec (fun _ H => H = 0) (unmap map size) (heldMap map size) := by
  cases map with
  | none => exact rfl
  | some addr => exact ⟨trivial, 0, rfl, fun _ => rfl⟩

theorem closeFd_spec (fd : Int) : Spec (fun _ H => H = 0) (closeFd fd) (heldFd fd) := by
  unfold closeFd heldFd
  split
  · exact ⟨trivial, 0, rfl, fun _ => rfl⟩
  · exact rfl

theorem free_spec (p : Option Addr) : Spec (fun _ H => H = 0) (free p) (heldBlock p) := by
  cases p with
  | none => exact rfl
  | some addr => exact ⟨trivial, 0, rfl, fun _ => rfl⟩

/-- What `map_ring` leaves: a mapping besides the descriptor exactly when it succeeds. -/
def RingMade (fd : Int) (kind : RingKind) :
    Except Int (SharedRing kind.Entry × Addr × UInt64) → Multiset Handle → Prop
  | .ok (_, map, mapSize), H => H = {.fd fd} + {.map map mapSize}
  | .error rc, H => H = {.fd fd} ∧ rc ≠ 0

theorem mapRing_spec (fd : Int) (kind : RingKind) (off : RingOffset) (entries : UInt32) :
    Spec (RingMade fd kind) (mapRing fd kind off entries) {.fd fd} := by
  refine Spec.ask 0 trivial rfl fun a => ?_
  cases a with
  | error errno => exact ⟨rfl, negErrno_ne_zero _⟩
  | ok a =>
    obtain ⟨area, m⟩ := a
    cases hinit : ringInit (some m.producer) (some m.consumer) (some m.mem) entries
        kind.entrySize with
    | none =>
      simp only [hinit]
      refine Spec.ask {.fd fd} trivial ((add_zero _).trans (add_comm _ _)) fun _ => ?_
      exact ⟨rfl, by decide⟩
    | some view =>
      simp only [hinit]
      exact rfl

theorem ringSizes_spec (fd : Int) (kind kind' : RingKind) (entries entries' : UInt32) :
    Spec (I := xskSys) (fun _ H => H = {.fd fd}) (ringSizes fd kind entries kind' entries')
      {.fd fd} := by
  refine Spec.ask 0 trivial rfl fun a => ?_
  cases a with
  | error errno => exact rfl
  | ok _ => exact ⟨trivial, 0, rfl, fun _ => rfl⟩

/-! ## UMEM -/

def UmemHandle.owns (umem : UmemHandle) : Multiset Handle :=
  heldFd umem.fd + (heldMap umem.fillMap umem.fillMapSize + (heldMap umem.compMap umem.compMapSize +
    (heldMap umem.area umem.areaSize + heldBlock umem.poolStack)))

/-- Every field holds something. -/
structure UmemHandle.Up (umem : UmemHandle) : Prop where
  fd : 0 ≤ umem.fd
  area : umem.area.isSome
  fillMap : umem.fillMap.isSome
  compMap : umem.compMap.isSome
  poolStack : umem.poolStack.isSome

theorem xskUmemDestroy_spec (umem : UmemHandle) :
    Spec (fun umem' H => H = 0 ∧ umem'.owns = 0) (xskUmemDestroy umem) umem.owns := by
  refine (unmap_spec _ _).call _ (add_left_comm _ _ _) ?_
  rintro _ _ rfl
  rw [zero_add]
  refine (unmap_spec _ _).call _ (add_left_comm _ _ _) ?_
  rintro _ _ rfl
  rw [zero_add]
  refine (closeFd_spec _).call _ rfl ?_
  rintro _ _ rfl
  rw [zero_add]
  refine (unmap_spec _ _).call _ rfl ?_
  rintro _ _ rfl
  rw [zero_add]
  refine (free_spec _).bind ?_
  rintro _ _ rfl
  refine ⟨rfl, ?_⟩
  simp only [UmemHandle.owns, heldMap_none, heldBlock_none, add_zero]
  split
  · rfl
  · simp [heldFd, *]

theorem umemFail_spec {α : Type} (umem : UmemHandle) (rc : Int) :
    Spec (fun r H => H = 0 ∧ r.1 = .error rc ∧ r.2.owns = 0) (umemFail (α := α) umem rc)
      umem.owns :=
  (xskUmemDestroy_spec umem).bind fun _ _ h => ⟨h.1, rfl, h.2⟩

/-- What a creation leaves: what the struct owns is all that is held; it is everything the struct
can hold on success, and nothing on an error. -/
structure UmemMade (r : Except Int XskUmem × UmemHandle) (H : Multiset Handle) : Prop where
  owns : H = r.2.owns
  ok : ∀ umem, r.1 = .ok umem → r.2.Up
  error : ∀ rc, r.1 = .error rc → rc ≠ 0 ∧ r.2.owns = 0

theorem umemFail_made (umem : UmemHandle) {rc : Int} (hrc : rc ≠ 0) :
    Spec UmemMade (umemFail umem rc) umem.owns := by
  refine (umemFail_spec umem rc).mono fun r H hr => ?_
  obtain ⟨rfl, hr, howns⟩ := hr
  exact { owns := howns.symm
          ok := by simp [hr]
          error := by simp [hr, howns, hrc] }

section
variable {cfg : XskConfig} {umem : UmemHandle} {bytes : UInt64 → UInt8}

theorem umemPool_made {fill comp : SharedRing UInt64} (hfd : 0 ≤ umem.fd)
    (harea : umem.area.isSome) (hfillMap : umem.fillMap.isSome) (hcompMap : umem.compMap.isSome)
    (hpool : umem.poolStack = none) :
    Spec UmemMade (umemPool cfg umem bytes fill comp) umem.owns := by
  refine Spec.ask umem.owns trivial (zero_add _).symm fun a => ?_
  cases a with
  | none =>
    refine Spec.of_eq (zero_add _) ?_
    exact umemFail_made umem (by decide)
  | some addr =>
    have howns : {.block addr} + umem.owns = { umem with poolStack := some addr }.owns := by
      simp only [UmemHandle.owns, hpool, heldBlock_none, heldBlock_some]
      ac_rfl
    refine Spec.of_eq howns ?_
    cases FramePool.init cfg.numFrames cfg.frameSize with
    | none => exact umemFail_made _ (by decide)
    | some pool =>
      exact { owns := rfl
              ok := fun _ _ => ⟨hfd, harea, hfillMap, hcompMap, rfl⟩
              error := by simp }

/-- With the descriptor and the buffer held, and nothing else. -/
theorem umemRings_made (hfd : 0 ≤ umem.fd) (harea : umem.area.isSome) (hfill : umem.fillMap = none)
    (hcomp : umem.compMap = none) (hpool : umem.poolStack = none) :
    Spec UmemMade (umemRings cfg umem bytes) umem.owns := by
  have howns : umem.owns = {.fd umem.fd} + heldMap umem.area umem.areaSize := by
    simp [UmemHandle.owns, heldFd, hfd, hfill, hcomp, hpool]
  refine Spec.ask (heldMap umem.area umem.areaSize) trivial howns fun a => ?_
  refine Spec.of_eq howns.symm ?_
  cases a with
  | error errno => exact umemFail_made umem (negErrno_ne_zero _)
  | ok offsets =>
    refine (mapRing_spec _ .fill _ _).call _ howns fun r H hr => ?_
    cases r with
    | error rc =>
      obtain ⟨rfl, hrc⟩ := hr
      exact Spec.of_eq howns.symm (umemFail_made umem hrc)
    | ok r =>
      obtain ⟨fill, map, mapSize⟩ := r
      obtain rfl := hr
      refine (mapRing_spec _ .comp _ _).call ({.map map mapSize} + heldMap umem.area umem.areaSize)
        (add_assoc _ _ _) fun r H hr => ?_
      cases r with
      | error rc =>
        obtain ⟨rfl, hrc⟩ := hr
        refine Spec.of_eq ?_ (umemFail_made _ hrc)
        simp [UmemHandle.owns, heldFd, hfd, hcomp, hpool]
      | ok r =>
        obtain ⟨comp, map', mapSize'⟩ := r
        obtain rfl := hr
        refine Spec.of_eq ?_ (umemPool_made hfd harea rfl rfl hpool)
        simp only [UmemHandle.owns, heldFd, hfd, hpool, heldMap_some, heldBlock_none, if_true,
          add_zero]
        exact (add_assoc _ _ _).trans (congrArg _ (add_left_comm _ _ _))

theorem umemRegister_made {area : Addr} (hfd : 0 ≤ umem.fd) (harea : umem.area = some area)
    (hfill : umem.fillMap = none) (hcomp : umem.compMap = none) (hpool : umem.poolStack = none) :
    Spec UmemMade (umemRegister cfg umem area bytes) umem.owns := by
  have howns : umem.owns = {.fd umem.fd} + {.map area umem.areaSize} := by
    simp [UmemHandle.owns, heldFd, hfd, harea, hfill, hcomp, hpool]
  refine Spec.ask 0 trivial (howns.trans (add_zero _).symm) fun a => ?_
  refine Spec.of_eq ((add_zero _).trans howns.symm) ?_
  cases a with
  | error errno => exact umemFail_made umem (negErrno_ne_zero _)
  | ok _ =>
    refine (ringSizes_spec _ _ _ _ _).call _ howns fun r H hr => ?_
    obtain rfl := hr
    refine Spec.of_eq howns.symm ?_
    cases r with
    | error errno => exact umemFail_made umem (negErrno_ne_zero _)
    | ok _ => exact umemRings_made hfd (by simp [harea]) hfill hcomp hpool

end

/-- **`rewsr_xsk_umem_create`** from nothing held. -/
theorem xskUmemCreate_spec (cfgIn : Option XskConfig) : Spec UmemMade (xskUmemCreate cfgIn) 0 := by
  refine Spec.ask 0 trivial rfl fun a => ?_
  cases a with
  | error errno =>
    exact { owns := rfl
            ok := by simp
            error := by simp [negErrno_ne_zero, UmemHandle.owns, UmemHandle.zero] }
  | ok a =>
    obtain ⟨area, bytes⟩ := a
    refine Spec.ask _ trivial (zero_add _).symm fun a => ?_
    cases a with
    | error errno => exact umemFail_made _ (negErrno_ne_zero _)
    | ok fd =>
      refine Spec.of_eq ?_ (umemRegister_made (Int.natCast_nonneg fd) rfl rfl rfl rfl)
      simp [UmemHandle.owns, UmemHandle.zero]
      rfl

/-! ## Socket -/

/-- The socket has the descriptor of its UMEM, and owns it only where `owns_umem` says so. -/
def SocketHandle.owns (xsk : SocketHandle) : Multiset Handle :=
  heldMap xsk.rxMap xsk.rxMapSize + (heldMap xsk.txMap xsk.txMapSize +
    if xsk.ownsUmem then heldFd xsk.fd else 0)

/-- Both rings are mapped, and the descriptor is the UMEM's. -/
structure SocketHandle.Up (xsk : SocketHandle) : Prop where
  rxMap : xsk.rxMap.isSome
  txMap : xsk.txMap.isSome
  shared : xsk.ownsUmem = false

theorem xskSocketDestroy_spec (xsk : SocketHandle) :
    Spec (fun xsk' H => H = 0 ∧ xsk'.owns = 0) (xskSocketDestroy xsk) xsk.owns := by
  refine (unmap_spec _ _).call _ rfl ?_
  rintro _ _ rfl
  rw [zero_add]
  refine (unmap_spec _ _).call _ rfl ?_
  rintro _ _ rfl
  rw [zero_add]
  have howns : { xsk with rxMap := none, txMap := none, fd := -1 }.owns = 0 := by
    simp [SocketHandle.owns]
  split
  · refine (closeFd_spec _).bind ?_
    rintro _ _ rfl
    exact ⟨rfl, howns⟩
  · exact ⟨rfl, howns⟩

theorem socketFail_spec {α : Type} (xsk : SocketHandle) (rc : Int) :
    Spec (fun r H => H = 0 ∧ r.1 = .error rc ∧ r.2.owns = 0) (socketFail (α := α) xsk rc)
      xsk.owns :=
  (xskSocketDestroy_spec xsk).bind fun _ _ h => ⟨h.1, rfl, h.2⟩

/-- What a creation on the descriptor of a UMEM leaves. -/
structure SocketMade (umemFd : Int) (r : Except Int XskSocket × SocketHandle)
    (H : Multiset Handle) : Prop where
  owns : H = {.fd umemFd} + r.2.owns
  ok : ∀ xsk, r.1 = .ok xsk → r.2.Up ∧ r.2.fd = umemFd
  error : ∀ rc, r.1 = .error rc → rc ≠ 0 ∧ r.2.owns = 0

section
variable {cfg : XskConfig} {xsk : SocketHandle}

/-- A failure before the socket has mapped anything. -/
theorem socketMade_error {rc : Int} (hrc : rc ≠ 0) (howns : xsk.owns = 0) (umemFd : Int) :
    SocketMade umemFd (.error rc, xsk) {.fd umemFd} where
  owns := by rw [howns, add_zero]
  ok := by simp
  error := by simp [hrc, howns]

/-- A failure that destroys the socket. -/
theorem socketFail_made (xsk : SocketHandle) {rc : Int} (hrc : rc ≠ 0) (umemFd : Int) :
    Spec (SocketMade umemFd) (socketFail xsk rc) (xsk.owns + {.fd umemFd}) := by
  refine ((socketFail_spec xsk rc).frame {.fd umemFd}).mono fun r H hr => ?_
  obtain ⟨_, ⟨rfl, hr, howns⟩, rfl⟩ := hr
  obtain ⟨r, xsk'⟩ := r
  obtain rfl : r = .error rc := hr
  rw [zero_add]
  exact socketMade_error hrc howns umemFd

/-- With the descriptor of the UMEM, and nothing of its own. -/
theorem socketRings_made (ifindex queueId : UInt32) (hrx : xsk.rxMap = none)
    (htx : xsk.txMap = none) (hshared : xsk.ownsUmem = false) :
    Spec (SocketMade xsk.fd) (socketRings cfg xsk ifindex queueId) {.fd xsk.fd} := by
  have howns : xsk.owns = 0 := by simp [SocketHandle.owns, hrx, htx, hshared]
  refine Spec.ask 0 trivial rfl fun a => ?_
  cases a with
  | error errno => exact socketMade_error (negErrno_ne_zero _) howns _
  | ok offsets =>
    refine (mapRing_spec _ .rx _ _).call 0 rfl fun r H hr => ?_
    cases r with
    | error rc =>
      obtain ⟨rfl, hrc⟩ := hr
      exact socketMade_error hrc howns _
    | ok r =>
      obtain ⟨rx, map, mapSize⟩ := r
      obtain rfl := hr
      refine (mapRing_spec _ .tx _ _).call {.map map mapSize} (add_zero _) fun r H hr => ?_
      cases r with
      | error rc =>
        obtain ⟨rfl, hrc⟩ := hr
        refine Spec.of_eq ?_ (socketFail_made _ hrc _)
        simp [SocketHandle.owns, htx, hshared, add_comm]
      | ok r =>
        obtain ⟨tx, map', mapSize'⟩ := r
        obtain rfl := hr
        refine Spec.ask ({.map map mapSize} + {.map map' mapSize'}) trivial ?_ fun a => ?_
        · exact (add_assoc _ _ _).trans (congrArg _ (add_comm _ _))
        cases a with
        | error errno =>
          refine Spec.of_eq ?_ (socketFail_made _ (negErrno_ne_zero errno) _)
          simp only [SocketHandle.owns, heldMap_some, hshared]
          exact add_comm _ _
        | ok _ =>
          exact { owns := by simp [SocketHandle.owns, hshared, XskReq.leaves]
                  ok := fun _ _ => ⟨⟨rfl, rfl, hshared⟩, rfl⟩
                  error := by simp }

end

/-- **`rewsr_xsk_socket_create`** on a UMEM whose descriptor is held. -/
theorem xskSocketCreate_spec (umemFd : Int) (ifname : String) (queueId : UInt32)
    (cfgIn : Option XskConfig) :
    Spec (SocketMade umemFd) (xskSocketCreate umemFd ifname queueId cfgIn) {.fd umemFd} := by
  refine Spec.ask {.fd umemFd} trivial (zero_add _).symm fun ifindex => ?_
  refine Spec.of_eq (zero_add _) ?_
  split
  · exact socketMade_error (by decide) rfl _
  · refine (ringSizes_spec _ _ _ _ _).call 0 (add_zero _).symm fun r H hr => ?_
    obtain rfl := hr
    refine Spec.of_eq (add_zero _) ?_
    cases r with
    | error errno => exact socketMade_error (negErrno_ne_zero _) rfl _
    | ok _ => exact socketRings_made ifindex queueId rfl rfl rfl

/-! ## Answers -/

/-- `map_ring` asks for the mapping first, and returns what `Xdp.mapRing` makes of the answer. -/
theorem mapRing_trace {fd : Int} {kind : RingKind} {off : RingOffset} {entries : UInt32}
    {es : List XskEvent} {r : Except Int (SharedRing kind.Entry × Addr × UInt64)}
    (h : Trace (mapRing fd kind off entries) es r) :
    ∃ size a es', es = ⟨.mmapRing kind fd off size, a⟩ :: es' ∧
      Xdp.mapRing (mapped a) entries kind.entrySize = r.map Prod.fst ∧
      ∀ ring, r = .ok ring → es' = [] := by
  obtain ⟨a, es', rfl, hrest⟩ := h.ask_inv
  refine ⟨_, a, es', rfl, ?_⟩
  cases a with
  | error errno =>
    obtain ⟨rfl, rfl⟩ := hrest.pure_inv
    exact ⟨rfl, by simp⟩
  | ok a =>
    obtain ⟨area, m⟩ := a
    cases hinit : ringInit (some m.producer) (some m.consumer) (some m.mem) entries
        kind.entrySize with
    | none =>
      simp only [hinit] at hrest
      obtain ⟨_, _, rfl, hret⟩ := hrest.ask_inv
      obtain ⟨rfl, rfl⟩ := hret.pure_inv
      exact ⟨by simp [Xdp.mapRing, mapped, hinit, bind, Except.bind]; rfl, by simp⟩
    | some view =>
      simp only [hinit] at hrest
      obtain ⟨rfl, rfl⟩ := hrest.pure_inv
      exact ⟨by simp [Xdp.mapRing, mapped, hinit, bind, Except.bind]; rfl, by simp⟩

/-- Of two `setsockopt` calls the first that fails is the first failure. -/
theorem ringSizes_trace {fd : Int} {kind kind' : RingKind} {entries entries' : UInt32}
    {es : List XskEvent} {r : Except Int Unit}
    (h : Trace (ringSizes fd kind entries kind' entries') es r) :
    (∀ errno, r = .error errno → ∀ rest, untilRings (es ++ rest) = .error (negErrno errno)) ∧
      (r = .ok () →
        es = [⟨.ringSize fd kind entries, .ok ()⟩, ⟨.ringSize fd kind' entries', .ok ()⟩]) := by
  obtain ⟨a, es', rfl, hrest⟩ := h.ask_inv
  cases a with
  | error errno =>
    obtain ⟨rfl, rfl⟩ := hrest.pure_inv
    refine ⟨?_, by simp⟩
    rintro _ ⟨⟩ rest
    rfl
  | ok _ =>
    have hsecond : Trace (Proc.ask (I := xskSys) (.ringSize fd kind' entries') >>= pure) es' r :=
      hrest
    obtain ⟨a, es', rfl, hret⟩ := hsecond.ask_inv
    obtain ⟨rfl, rfl⟩ := hret.pure_inv
    refine ⟨?_, ?_⟩
    · rintro _ rfl rest
      rfl
    · rintro rfl
      rfl

section
variable {cfgIn : Option XskConfig} {umem : UmemHandle} {bytes : UInt64 → UInt8}
  {es : List XskEvent} {r : Except Int XskUmem × UmemHandle}

theorem umemFail_trace {rc : Int} (h : Trace (umemFail umem rc) es r) : r.1 = .error rc := by
  obtain ⟨_, _, umem', -, -, hret⟩ := h.bind_inv
  obtain ⟨-, rfl⟩ := hret.pure_inv
  rfl

/-- What a creation returns is what `Xdp.xskUmemCreate` makes of the answers, and one that succeeds
does not ask for an interface. -/
def UmemAnswered (cfgIn : Option XskConfig) (sys : UmemSyscalls) (es : List XskEvent)
    (r : Except Int XskUmem) : Prop :=
  Xdp.xskUmemCreate cfgIn sys = r ∧ ∀ umem, r = .ok umem → ∀ ev ∈ es, ev.ifindex = none

variable {sys : UmemSyscalls} {rest : List XskEvent}

theorem umemFail_answered {rc : Int} {es' : List XskEvent} (h : Trace (umemFail umem rc) es' r)
    (hsys : Xdp.xskUmemCreate cfgIn sys = .error rc) : UmemAnswered cfgIn sys es r.1 := by
  rw [umemFail_trace h]
  exact ⟨hsys, by simp⟩

theorem umemPool_trace {fill comp : SharedRing UInt64} (harea : sys.area = .ok bytes)
    (hfill : Xdp.mapRing sys.fill (applyDefaults cfgIn).fillSize 8 = .ok fill)
    (hcomp : Xdp.mapRing sys.comp (applyDefaults cfgIn).compSize 8 = .ok comp)
    (h : Trace (umemPool (applyDefaults cfgIn) umem bytes fill comp) es r)
    (hpool : sys.poolStack = ((es ++ rest).findSome? XskEvent.block).getD false) :
    UmemAnswered cfgIn sys es r.1 := by
  obtain ⟨a, es, rfl, hrest⟩ := h.ask_inv
  cases a with
  | none =>
    replace hpool : sys.poolStack = false := hpool
    refine umemFail_answered hrest ?_
    simp [Xdp.xskUmemCreate, harea, hfill, hcomp, hpool, bind, Except.bind]
    rfl
  | some addr =>
    replace hpool : sys.poolStack = true := hpool
    cases hinit : FramePool.init (applyDefaults cfgIn).numFrames
        (applyDefaults cfgIn).frameSize with
    | none =>
      simp only [hinit] at hrest
      refine umemFail_answered hrest ?_
      simp [Xdp.xskUmemCreate, harea, hfill, hcomp, hpool, hinit, bind, Except.bind]
      rfl
    | some pool =>
      simp only [hinit] at hrest
      obtain ⟨rfl, rfl⟩ := hrest.pure_inv
      refine ⟨?_, by simp [XskEvent.ifindex]⟩
      simp [Xdp.xskUmemCreate, harea, hfill, hcomp, hpool, hinit, bind, Except.bind]
      rfl

theorem umemRings_trace (h : Trace (umemRings (applyDefaults cfgIn) umem bytes) es r)
    (harea : sys.area = (untilRings (es ++ rest)).map fun _ => bytes)
    (hfill : sys.fill = ((es ++ rest).findSome? (XskEvent.ring .fill)).getD (.error 0))
    (hcomp : sys.comp = ((es ++ rest).findSome? (XskEvent.ring .comp)).getD (.error 0))
    (hpool : sys.poolStack = ((es ++ rest).findSome? XskEvent.block).getD false) :
    UmemAnswered cfgIn sys es r.1 := by
  obtain ⟨a, es, rfl, hrest⟩ := h.ask_inv
  cases a with
  | error errno =>
    replace harea : sys.area = .error (negErrno errno) := harea
    refine umemFail_answered hrest ?_
    simp [Xdp.xskUmemCreate, harea, bind, Except.bind]
  | ok offsets =>
    obtain ⟨es₁, es₂, r₁, rfl, hmap, hcont⟩ := hrest.bind_inv
    obtain ⟨size, a, es₁, rfl, hring, hnil⟩ := mapRing_trace hmap
    replace harea : sys.area = .ok bytes := harea
    replace hfill : Xdp.mapRing sys.fill (applyDefaults cfgIn).fillSize 8 = r₁.map Prod.fst := by
      rw [hfill]
      exact hring
    cases r₁ with
    | error rc =>
      refine umemFail_answered hcont ?_
      simp [Xdp.xskUmemCreate, harea, hfill, Except.map, bind, Except.bind]
    | ok r₁ =>
      obtain ⟨fill, map, mapSize⟩ := r₁
      obtain rfl := hnil _ rfl
      obtain ⟨es₃, es₄, r₂, rfl, hmap', hcont'⟩ := hcont.bind_inv
      obtain ⟨size', a', es₃, rfl, hring', hnil'⟩ := mapRing_trace hmap'
      replace hcomp : Xdp.mapRing sys.comp (applyDefaults cfgIn).compSize 8 = r₂.map Prod.fst := by
        rw [hcomp]
        exact hring'
      cases r₂ with
      | error rc =>
        refine umemFail_answered hcont' ?_
        simp [Xdp.xskUmemCreate, harea, hfill, hcomp, Except.map, bind, Except.bind]
      | ok r₂ =>
        obtain ⟨comp, map', mapSize'⟩ := r₂
        obtain rfl := hnil' _ rfl
        obtain ⟨hcreate, hindex⟩ := umemPool_trace harea hfill hcomp hcont' hpool
        exact ⟨hcreate, fun umem hr => by simpa [XskEvent.ifindex] using hindex umem hr⟩

theorem umemRegister_trace {area : Addr}
    (h : Trace (umemRegister (applyDefaults cfgIn) umem area bytes) es r)
    (harea : sys.area = (untilRings (es ++ rest)).map fun _ => bytes)
    (hfill : sys.fill = ((es ++ rest).findSome? (XskEvent.ring .fill)).getD (.error 0))
    (hcomp : sys.comp = ((es ++ rest).findSome? (XskEvent.ring .comp)).getD (.error 0))
    (hpool : sys.poolStack = ((es ++ rest).findSome? XskEvent.block).getD false) :
    UmemAnswered cfgIn sys es r.1 := by
  obtain ⟨a, es, rfl, hrest⟩ := h.ask_inv
  cases a with
  | error errno =>
    replace harea : sys.area = .error (negErrno errno) := harea
    refine umemFail_answered hrest ?_
    simp [Xdp.xskUmemCreate, harea, bind, Except.bind]
  | ok _ =>
    obtain ⟨es₁, es₂, r₁, rfl, hsizes, hcont⟩ := hrest.bind_inv
    obtain ⟨herror, hok⟩ := ringSizes_trace hsizes
    cases r₁ with
    | error errno =>
      have hfirst : untilRings (es₁ ++ es₂ ++ rest) = .error (negErrno errno) := by
        rw [List.append_assoc]
        exact herror errno rfl _
      replace harea : sys.area = .error (negErrno errno) :=
        harea.trans (congrArg (Except.map fun _ => bytes) hfirst)
      refine umemFail_answered hcont ?_
      simp [Xdp.xskUmemCreate, harea, bind, Except.bind]
    | ok _ =>
      obtain rfl := hok rfl
      obtain ⟨hcreate, hindex⟩ := umemRings_trace hcont harea hfill hcomp hpool
      exact ⟨hcreate, fun umem hr => by simpa [XskEvent.ifindex] using hindex umem hr⟩

end

/-- **`rewsr_xsk_umem_create`** returns what `Xdp.xskUmemCreate` says of the answers. -/
theorem xskUmemCreate_trace {cfgIn : Option XskConfig} {es : List XskEvent}
    {r : Except Int XskUmem × UmemHandle} (h : Trace (xskUmemCreate cfgIn) es r)
    (rest : List XskEvent) : UmemAnswered cfgIn (umemAnswers (es ++ rest)) es r.1 := by
  obtain ⟨a, es, rfl, hrest⟩ := h.ask_inv
  cases a with
  | error errno =>
    obtain ⟨rfl, rfl⟩ := hrest.pure_inv
    exact ⟨rfl, by simp⟩
  | ok a =>
    obtain ⟨area, bytes⟩ := a
    obtain ⟨a, es, rfl, hcont⟩ := hrest.ask_inv
    cases a with
    | error errno => exact umemFail_answered hcont rfl
    | ok fd =>
      have hregister : ∀ size, UmemAnswered cfgIn (umemAnswers (⟨.mmapArea size,
          .ok (area, bytes)⟩ :: ⟨.socket, .ok fd⟩ :: es ++ rest)) es r.1 :=
        fun size => umemRegister_trace hcont rfl rfl rfl rfl
      exact ⟨(hregister _).1, fun umem hr => by
        simpa [XskEvent.ifindex] using (hregister 0).2 umem hr⟩

section
variable {ifname : String} {queueId : UInt32} {cfgIn : Option XskConfig} {xsk : SocketHandle}
  {es : List XskEvent} {r : Except Int XskSocket × SocketHandle}

theorem socketFail_trace {rc : Int} (h : Trace (socketFail xsk rc) es r) : r.1 = .error rc := by
  obtain ⟨_, _, xsk', -, -, hret⟩ := h.bind_inv
  obtain ⟨-, rfl⟩ := hret.pure_inv
  rfl

variable {sys : SocketSyscalls} {rest : List XskEvent}

theorem xskSocketCreate_sizes {rc : Int} (hindex : sys.ifNametoindex ifname ≠ 0)
    (hsizes : sys.ringSizes = .error rc) :
    Xdp.xskSocketCreate ifname queueId cfgIn sys = .error rc := by
  simp [Xdp.xskSocketCreate, hindex, hsizes, bind, Except.bind]

theorem socketRings_trace (hindex : sys.ifNametoindex ifname ≠ 0)
    (h : Trace (socketRings (applyDefaults cfgIn) xsk (sys.ifNametoindex ifname) queueId) es r)
    (hsizes : sys.ringSizes = untilRings (es ++ rest))
    (hrx : sys.rx = ((es ++ rest).findSome? (XskEvent.ring .rx)).getD (.error 0))
    (htx : sys.tx = ((es ++ rest).findSome? (XskEvent.ring .tx)).getD (.error 0))
    (hbind : sys.bind = ((es ++ rest).findSome? XskEvent.bound).getD (.error 0)) :
    Xdp.xskSocketCreate ifname queueId cfgIn sys = r.1 := by
  obtain ⟨a, es, rfl, hrest⟩ := h.ask_inv
  cases a with
  | error errno =>
    obtain ⟨rfl, rfl⟩ := hrest.pure_inv
    exact xskSocketCreate_sizes hindex hsizes
  | ok offsets =>
    obtain ⟨es₁, es₂, r₁, rfl, hmap, hcont⟩ := hrest.bind_inv
    obtain ⟨size, a, es₁, rfl, hring, hnil⟩ := mapRing_trace hmap
    replace hsizes : sys.ringSizes = .ok () := hsizes
    replace hrx : Xdp.mapRing sys.rx (applyDefaults cfgIn).rxSize 16 = r₁.map Prod.fst := by
      rw [hrx]
      exact hring
    cases r₁ with
    | error rc =>
      obtain ⟨rfl, rfl⟩ := hcont.pure_inv
      simp [Xdp.xskSocketCreate, hindex, hsizes, hrx, Except.map, bind, Except.bind]
    | ok r₁ =>
      obtain ⟨rx, map, mapSize⟩ := r₁
      obtain rfl := hnil _ rfl
      obtain ⟨es₃, es₄, r₂, rfl, hmap', hcont'⟩ := hcont.bind_inv
      obtain ⟨size', a', es₃, rfl, hring', hnil'⟩ := mapRing_trace hmap'
      replace htx : Xdp.mapRing sys.tx (applyDefaults cfgIn).txSize 16 = r₂.map Prod.fst := by
        rw [htx]
        exact hring'
      cases r₂ with
      | error rc =>
        rw [socketFail_trace hcont']
        simp [Xdp.xskSocketCreate, hindex, hsizes, hrx, htx, Except.map, bind, Except.bind]
      | ok r₂ =>
        obtain ⟨tx, map', mapSize'⟩ := r₂
        obtain rfl := hnil' _ rfl
        obtain ⟨a, es₅, rfl, hlast⟩ := hcont'.ask_inv
        cases a with
        | error errno =>
          replace hbind : sys.bind = .error (negErrno errno) := hbind
          rw [socketFail_trace hlast]
          simp [Xdp.xskSocketCreate, hindex, hsizes, hrx, htx, hbind, Except.map, bind, Except.bind]
        | ok _ =>
          replace hbind : sys.bind = .ok () := hbind
          obtain ⟨rfl, rfl⟩ := hlast.pure_inv
          simp [Xdp.xskSocketCreate, hindex, hsizes, hrx, htx, hbind, Except.map, bind, Except.bind]
          rfl

/-- **`rewsr_xsk_socket_create`** returns what `Xdp.xskSocketCreate` says of the answers; its first
call asks for the interface. -/
theorem xskSocketCreate_trace {umemFd : Int}
    (h : Trace (xskSocketCreate umemFd ifname queueId cfgIn) es r) (rest : List XskEvent) :
    Xdp.xskSocketCreate ifname queueId cfgIn (socketAnswers (es ++ rest)) = r.1 ∧
      ∃ ifindex es', es = ⟨.ifNametoindex ifname, ifindex⟩ :: es' := by
  obtain ⟨ifindex, es, rfl, hrest⟩ := h.ask_inv
  refine ⟨?_, _, _, rfl⟩
  by_cases hindex : ifindex = 0
  · subst hindex
    obtain ⟨rfl, rfl⟩ := hrest.pure_inv
    rfl
  · simp only [if_neg hindex] at hrest
    obtain ⟨es₁, es₂, r₁, rfl, hsizes, hcont⟩ := hrest.bind_inv
    obtain ⟨herror, hok⟩ := ringSizes_trace hsizes
    cases r₁ with
    | error errno =>
      obtain ⟨rfl, rfl⟩ := hcont.pure_inv
      rw [List.append_nil]
      exact xskSocketCreate_sizes hindex (herror errno rfl rest)
    | ok _ =>
      obtain rfl := hok rfl
      exact socketRings_trace hindex hcont rfl rfl rfl rfl

end

end Rewsr.Xdp.Handles
