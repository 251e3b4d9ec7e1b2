import Mathlib.Tactic.Abel
import Rewsr.Dataplane.Handles
import Rewsr.Xdp.Proof.Handles

/-!
# What a worker holds

* `worker_holds`: over every sequence of set-ups, runs and destructions its owner may make, a worker
  holds its descriptor, its five mappings and its block while it is set up, and nothing otherwise;
  nothing is given back twice, and nothing is used that is not held.
* `dpWorkerInit_runs`: a set-up returns what `Dataplane.dpWorkerInit` says of the answers to its
  calls, and holds something exactly when it succeeds.
-/

namespace Rewsr.Dataplane.Handles

open Resource Rewsr.Net Rewsr.Sys Rewsr.Xdp Rewsr.Xdp.Handles

def WorkerHandle.owns (w : WorkerHandle) : Multiset Handle := w.xsk.owns + w.umem.owns

structure WorkerHandle.Up (w : WorkerHandle) : Prop where
  umem : w.umem.Up
  xsk : w.xsk.Up
  fd : w.xsk.fd = w.umem.fd

theorem dpWorkerDestroy_spec (w : WorkerHandle) :
    Spec (fun w' H => H = 0 ∧ w'.owns = 0) (dpWorkerDestroy w) w.owns := by
  refine (xskSocketDestroy_spec w.xsk).call w.umem.owns rfl fun xsk H hxsk => ?_
  obtain ⟨rfl, hxsk⟩ := hxsk
  refine ((xskUmemDestroy_spec w.umem).of_eq (zero_add _)).bind fun umem H humem => ?_
  exact ⟨humem.1, by rw [WorkerHandle.owns, hxsk, humem.2]; rfl⟩

/-! ## The data path -/

/-- A call of the data path keeps what is held. -/
theorem access_spec {maps : List (Option Addr × UInt64)} {block : Option Addr}
    {F H : Multiset Handle} (hmaps : ∀ m ∈ maps, m.1.isSome) (hblock : block.isSome)
    (hH : H = heldAccess maps block + F) :
    Spec (fun _ H' => H' = H) (syscall (.access maps block)) H :=
  ⟨⟨hmaps, hblock⟩, F, hH, fun _ => hH.symm⟩

section
variable {w : WorkerHandle} (hw : w.Up)
include hw

theorem xskFillRefill_spec : Spec (fun _ H => H = w.owns) (xskFillRefill w.umem) w.owns := by
  refine access_spec (by simp [hw.umem.fillMap]) hw.umem.poolStack (F := w.xsk.owns +
    (heldFd w.umem.fd + (heldMap w.umem.compMap w.umem.compMapSize +
      heldMap w.umem.area w.umem.areaSize))) ?_
  simp only [WorkerHandle.owns, UmemHandle.owns, heldAccess, List.map_cons, List.map_nil,
    List.sum_cons, List.sum_nil]
  abel

theorem xskRxBurst_spec : Spec (fun _ H => H = w.owns) (xskRxBurst w.umem w.xsk) w.owns := by
  refine Spec.bind (access_spec (by simp [hw.xsk.rxMap, hw.umem.area]) hw.umem.poolStack (F :=
    heldMap w.xsk.txMap w.xsk.txMapSize + ((if w.xsk.ownsUmem then heldFd w.xsk.fd else 0) +
      (heldFd w.umem.fd + (heldMap w.umem.fillMap w.umem.fillMapSize +
        heldMap w.umem.compMap w.umem.compMapSize)))) ?_) ?_
  · simp only [WorkerHandle.owns, SocketHandle.owns, UmemHandle.owns, heldAccess, List.map_cons,
      List.map_nil, List.sum_cons, List.sum_nil]
    abel
  · rintro got _ rfl
    exact (xskFillRefill_spec hw).bind fun _ _ h => h

theorem xskTxBurst_spec : Spec (fun _ H => H = w.owns) (xskTxBurst w.umem w.xsk) w.owns := by
  refine access_spec (by simp [hw.xsk.txMap, hw.umem.area]) hw.umem.poolStack (F :=
    heldMap w.xsk.rxMap w.xsk.rxMapSize + ((if w.xsk.ownsUmem then heldFd w.xsk.fd else 0) +
      (heldFd w.umem.fd + (heldMap w.umem.fillMap w.umem.fillMapSize +
        heldMap w.umem.compMap w.umem.compMapSize)))) ?_
  simp only [WorkerHandle.owns, SocketHandle.owns, UmemHandle.owns, heldAccess, List.map_cons,
    List.map_nil, List.sum_cons, List.sum_nil]
  abel

theorem xskTxComplete_spec : Spec (fun _ H => H = w.owns) (xskTxComplete w.umem) w.owns := by
  refine access_spec (by simp [hw.umem.compMap]) hw.umem.poolStack (F := w.xsk.owns +
    (heldFd w.umem.fd + (heldMap w.umem.fillMap w.umem.fillMapSize +
      heldMap w.umem.area w.umem.areaSize))) ?_
  simp only [WorkerHandle.owns, UmemHandle.owns, heldAccess, List.map_cons, List.map_nil,
    List.sum_cons, List.sum_nil]
  abel

/-- The kick is on the descriptor of the UMEM, which the socket shares. -/
theorem xskKick_spec : Spec (fun _ H => H = w.owns) (xskKick w.xsk) w.owns := by
  have howns : w.owns = {.fd w.xsk.fd} + (w.xsk.owns + (heldMap w.umem.fillMap w.umem.fillMapSize +
      (heldMap w.umem.compMap w.umem.compMapSize + (heldMap w.umem.area w.umem.areaSize +
        heldBlock w.umem.poolStack)))) := by
    simp only [WorkerHandle.owns, UmemHandle.owns, hw.fd, heldFd, hw.umem.fd, if_true]
    abel
  refine Spec.ask _ trivial howns fun a => ?_
  cases a with
  | error errno => exact howns.symm
  | ok _ => exact howns.symm

theorem workerTurn_spec (cfg : DpConfig) :
    Spec (fun _ H => H = w.owns) (workerTurn cfg w) w.owns := by
  have hrx : Spec (fun _ H => H = w.owns)
      (if cfg.role.receives then xskRxBurst w.umem w.xsk else pure 0) w.owns := by
    split
    · exact xskRxBurst_spec hw
    · rfl
  refine hrx.bind ?_
  rintro _ _ rfl
  split
  · refine (xskTxBurst_spec hw).bind ?_
    rintro sent _ rfl
    have hkick : Spec (fun _ H => H = w.owns) (if sent > 0 then xskKick w.xsk else pure 0)
        w.owns := by
      split
      · exact xskKick_spec hw
      · rfl
    refine hkick.bind ?_
    rintro _ _ rfl
    exact (xskTxComplete_spec hw).bind fun _ _ h => h
  · rfl

theorem dpWorkerRun_spec (cfg : DpConfig) (turns : Nat) :
    Spec (fun _ H => H = w.owns) (dpWorkerRun cfg w turns) w.owns := by
  induction turns with
  | zero => rfl
  | succ n ih =>
    refine (workerTurn_spec hw cfg).bind ?_
    rintro _ _ rfl
    exact ih

end

/-! ## Set-up -/

/-- What a set-up leaves. -/
structure WorkerMade (r : Except Int (Xsk Worker) × WorkerHandle) (H : Multiset Handle) : Prop where
  owns : H = r.2.owns
  ok : ∀ s, r.1 = .ok s → r.2.Up
  error : ∀ rc, r.1 = .error rc → rc ≠ 0 ∧ r.2.owns = 0

theorem workerMade_error {w : WorkerHandle} {rc : Int} (hrc : rc ≠ 0) (howns : w.owns = 0) :
    WorkerMade (.error rc, w) 0 where
  owns := howns.symm
  ok := by simp
  error := by simp [hrc, howns]

theorem workerMade_ok {w : WorkerHandle} (hw : w.Up) (s : Xsk Worker) :
    WorkerMade (.ok s, w) w.owns where
  owns := rfl
  ok := fun _ _ => hw
  error := by simp

theorem workerPrime_made (e : Endian) (cfg : DpConfig) (umem : XskUmem) (xsk : XskSocket)
    {w : WorkerHandle} (hw : w.Up) : Spec WorkerMade (workerPrime e cfg umem xsk w) w.owns := by
  refine (xskFillRefill_spec hw).bind ?_
  rintro _ _ rfl
  split
  · split
    · exact workerMade_ok hw _
    · refine (dpWorkerDestroy_spec w).bind fun w' H h => ?_
      obtain ⟨rfl, howns⟩ := h
      exact workerMade_error (by decide) howns
  · exact workerMade_ok hw _

theorem dpWorkerInit_spec (e : Endian) (cfg : DpConfig) :
    Spec WorkerMade (dpWorkerInit e cfg) 0 := by
  refine (xskUmemCreate_spec (some xskConfigDefault)).bind ?_
  rintro ⟨r, umem⟩ H hr
  cases r with
  | error rc =>
    obtain ⟨hrc, howns⟩ := hr.error rc rfl
    obtain rfl : H = 0 := hr.owns.trans howns
    refine workerMade_error hrc ?_
    rw [WorkerHandle.owns, howns]
    rfl
  | ok umemState =>
    have hup : umem.Up := hr.ok umemState rfl
    obtain rfl := hr.owns
    have howns : umem.owns = {.fd umem.fd} + (heldMap umem.fillMap umem.fillMapSize +
        (heldMap umem.compMap umem.compMapSize + (heldMap umem.area umem.areaSize +
          heldBlock umem.poolStack))) := by
      simp [UmemHandle.owns, heldFd, hup.fd]
    refine (xskSocketCreate_spec umem.fd cfg.ifname cfg.queueId _).call _ howns ?_
    rintro ⟨r, xsk⟩ H hs
    obtain rfl := hs.owns
    cases r with
    | error rc =>
      obtain ⟨hrc, hxsk⟩ := hs.error rc rfl
      refine Spec.of_eq ?_ ((xskUmemDestroy_spec umem).bind fun umem' H h => ?_)
      · rw [howns, hxsk, add_zero]
      obtain ⟨rfl, humem'⟩ := h
      refine workerMade_error hrc ?_
      rw [WorkerHandle.owns, hxsk, humem']
      rfl
    | ok xskState =>
      obtain ⟨hxsk, hfd⟩ := hs.ok xskState rfl
      refine Spec.of_eq ?_ (workerPrime_made e cfg umemState xskState ⟨hup, hxsk, hfd⟩)
      rw [WorkerHandle.owns, howns]
      abel

/-! ## A worker and its owner -/

def Slot.owns : Slot → Multiset Handle
  | .raw => 0
  | .failed w | .up _ w | .down w => w.owns

/-- A worker that is not set up owns nothing. -/
def Slot.Inv : Slot → Prop
  | .raw => True
  | .failed w | .down w => w.owns = 0
  | .up _ w => w.Up

def workerObject (e : Endian) : Object xskSys Slot WorkerOp where
  run := WorkerOp.exec e
  owns := Slot.owns
  inv := Slot.Inv
  ready := WorkerOp.Ready

theorem init_spec (e : Endian) (cfg : DpConfig) (t : Slot) :
    Spec (fun t' H => H = t'.owns ∧ t'.Inv) (WorkerOp.exec e (.init cfg) t) 0 := by
  refine (dpWorkerInit_spec e cfg).bind ?_
  rintro ⟨r, w⟩ H hr
  cases r with
  | error rc => exact ⟨hr.owns, (hr.error rc rfl).2⟩
  | ok s => exact ⟨hr.owns, hr.ok s rfl⟩

theorem destroy_spec (w : WorkerHandle) :
    Spec (fun t' H => H = t'.owns ∧ t'.Inv) (do return Slot.down (← dpWorkerDestroy w)) w.owns := by
  refine (dpWorkerDestroy_spec w).bind ?_
  rintro w' H ⟨rfl, hw'⟩
  exact ⟨hw'.symm, hw'⟩

theorem worker_sound (e : Endian) : (workerObject e).Sound := by
  intro op t hinv hready
  cases op with
  | init cfg =>
    have howns : t.owns = 0 := by
      cases t with
      | raw => rfl
      | failed w => exact hinv
      | up cfg w => exact absurd hready id
      | down w => exact hinv
    exact (init_spec e cfg t).of_eq howns
  | run turns =>
    cases t with
    | up cfg w =>
      refine (dpWorkerRun_spec hinv cfg turns).bind ?_
      rintro _ _ rfl
      exact ⟨rfl, hinv⟩
    | raw | failed w | down w => exact absurd hready id
  | destroy =>
    cases t with
    | raw => exact absurd hready id
    | failed w | up cfg w | down w => exact destroy_spec w

/-- The descriptor, the packet buffer, the four rings and the pool. -/
theorem WorkerHandle.Up.card_owns {w : WorkerHandle} (hw : w.Up) : w.owns.card = 7 := by
  obtain ⟨⟨hfd, harea, hfill, hcomp, hpool⟩, ⟨hrx, htx, hshared⟩, -⟩ := hw
  obtain ⟨_, harea⟩ := Option.isSome_iff_exists.1 harea
  obtain ⟨_, hfill⟩ := Option.isSome_iff_exists.1 hfill
  obtain ⟨_, hcomp⟩ := Option.isSome_iff_exists.1 hcomp
  obtain ⟨_, hpool⟩ := Option.isSome_iff_exists.1 hpool
  obtain ⟨_, hrx⟩ := Option.isSome_iff_exists.1 hrx
  obtain ⟨_, htx⟩ := Option.isSome_iff_exists.1 htx
  simp [WorkerHandle.owns, UmemHandle.owns, SocketHandle.owns, heldFd, *]

/-- **A worker over any use.** Whatever the system answers, and in whatever order its owner sets it
up, runs it and destroys it: besides what the process held before, a worker that is set up holds
seven things and any other nothing, and no operation that may come next gives back or uses what is
not held. -/
theorem worker_holds (e : Endian) {t : Slot} {F H : Multiset Handle}
    (hrun : Relation.ReflTransGen (workerObject e).Step (.raw, F) (t, H)) :
    (∀ cfg w, t = .up cfg w → w.Up ∧ w.owns.card = 7 ∧ H = w.owns + F) ∧
      ((∀ cfg w, t ≠ .up cfg w) → H = F) ∧
      ∀ op, WorkerOp.Ready op t → ¬ Misuses (WorkerOp.exec e op t) H := by
  rw [← zero_add F] at hrun
  have hraw : (workerObject e).inv .raw := trivial
  obtain ⟨hH, hinv, hsafe⟩ := (worker_sound e).held hraw hrun
  refine ⟨fun cfg w ht => ?_, fun ht => ?_, hsafe⟩
  · subst ht
    exact ⟨hinv, WorkerHandle.Up.card_owns hinv, hH⟩
  · have howns : t.owns = 0 := by
      cases t with
      | raw => rfl
      | failed w => exact hinv
      | up cfg w => exact absurd rfl (ht cfg w)
      | down w => exact hinv
    rw [hH]
    exact (congrArg (· + F) howns).trans (zero_add F)

/-- A kernel with AF_XDP: descriptor 3, and everything found at one address. -/
def granted : (r : XskReq) → r.Ans
  | .mmapArea _ => .ok (4096, fun _ => 0)
  | .mmapRing kind .. => .ok (4096, { producer := 0, consumer := 0, mem := fun _ => match kind with
      | .fill | .comp => (0 : UInt64)
      | .rx | .tx => { addr := 0, len := 0, options := 0 } })
  | .munmap .. | .close _ | .free _ => ()
  | .socket => .ok 3
  | .umemReg .. | .ringSize .. | .bind .. | .sendto _ => .ok ()
  | .mmapOffsets _ => .ok ⟨⟨0, 64, 128, 0⟩, ⟨0, 64, 128, 0⟩, ⟨0, 64, 128, 0⟩, ⟨0, 64, 128, 0⟩⟩
  | .calloc .. => some 4096
  | .ifNametoindex _ | .access .. => 1

def sinkConfig : DpConfig :=
  { ifname := "lo", queueId := 0, cpu := -1, role := .sink, batch := 0, payloadLen := 0
    flow := ⟨⟨2, 0, 0, 0, 0, 1⟩, ⟨2, 0, 0, 0, 0, 2⟩, 0, 0, 0, 0⟩, maxPackets := 0 }

def sinkHandle : WorkerHandle :=
  { umem := { area := some 4096, areaSize := 8388608, fd := 3, fillMap := some 4096
              fillMapSize := 16512, compMap := some 4096, compMapSize := 16512
              poolStack := some 4096 }
    xsk := { fd := 3, rxMap := some 4096, rxMapSize := 32896, txMap := some 4096
             txMapSize := 32896, ownsUmem := false } }

theorem worker_holds_sample : ∃ H, H = sinkHandle.owns + 0 ∧
    Relation.ReflTransGen (workerObject .little).Step (.raw, 0) (.up sinkConfig sinkHandle, H) := by
  have hready : (workerObject .little).ready (.init sinkConfig) .raw := trivial
  obtain ⟨H, hruns⟩ := (worker_sound .little (.init sinkConfig) .raw trivial hready).result granted
  have hresult : ((workerObject .little).run (.init sinkConfig) .raw).result granted =
      .up sinkConfig sinkHandle := rfl
  rw [hresult] at hruns
  have hrun := Relation.ReflTransGen.single (Object.Step.op hready hruns)
  exact ⟨H, ((worker_holds .little hrun).1 _ _ rfl).2.2, hrun⟩

/-! ## What a set-up returns -/

section
variable {e : Endian} {cfg : DpConfig}

theorem workerPrime_trace {umem : XskUmem} {xsk : XskSocket} {w : WorkerHandle}
    {es : List XskEvent} {r : Except Int (Xsk Worker) × WorkerHandle} {sys : WorkerSyscalls}
    (humem : Xdp.xskUmemCreate (some xskConfigDefault) sys.umem = .ok umem)
    (hxsk : Xdp.xskSocketCreate cfg.ifname cfg.queueId (some xskConfigDefault) sys.socket = .ok xsk)
    (h : Trace (workerPrime e cfg umem xsk w) es r) : Dataplane.dpWorkerInit e cfg sys = r.1 := by
  obtain ⟨_, _, _, rfl, -, hrest⟩ := h.bind_inv
  simp only [Dataplane.dpWorkerInit, humem, hxsk, bind, Except.bind]
  split at hrest
  · rename_i htx
    rw [if_pos htx]
    cases hgen : pktgenInit e cfg.flow cfg.plen.toNat with
    | none =>
      simp only [hgen] at hrest
      obtain ⟨_, _, _, -, -, hret⟩ := hrest.bind_inv
      obtain ⟨-, rfl⟩ := hret.pure_inv
      rfl
    | some g =>
      cases g with
      | error rc =>
        simp only [hgen] at hrest
        obtain ⟨_, _, _, -, -, hret⟩ := hrest.bind_inv
        obtain ⟨-, rfl⟩ := hret.pure_inv
        rfl
      | ok gen =>
        simp only [hgen] at hrest
        obtain ⟨-, rfl⟩ := hrest.pure_inv
        rfl
  · rename_i htx
    rw [if_neg htx]
    obtain ⟨-, rfl⟩ := hrest.pure_inv
    rfl

/-- A set-up returns what `Dataplane.dpWorkerInit` says of the answers it got. -/
theorem dpWorkerInit_trace {es : List XskEvent} {r : Except Int (Xsk Worker) × WorkerHandle}
    (h : Trace (dpWorkerInit e cfg) es r) :
    Dataplane.dpWorkerInit e cfg (workerAnswers es) = r.1 := by
  obtain ⟨es₁, es₂, ⟨r₁, umem⟩, rfl, hcreate, hrest⟩ := h.bind_inv
  obtain ⟨humem, hindex⟩ := xskUmemCreate_trace hcreate es₂
  cases r₁ with
  | error rc =>
    obtain ⟨rfl, rfl⟩ := hrest.pure_inv
    simp only [Dataplane.dpWorkerInit, workerAnswers, humem, bind, Except.bind]
  | ok umemState =>
    obtain ⟨es₃, es₄, ⟨r₂, xsk⟩, rfl, hsocket, hcont⟩ := hrest.bind_inv
    obtain ⟨hxsk, ifindex, es₅, rfl⟩ := xskSocketCreate_trace hsocket es₄
    have hdrop : (es₁ ++ (⟨.ifNametoindex cfg.ifname, ifindex⟩ :: es₅ ++ es₄)).dropWhile
        (fun ev : XskEvent => ev.ifindex.isNone) =
          ⟨.ifNametoindex cfg.ifname, ifindex⟩ :: es₅ ++ es₄ := by
      rw [List.dropWhile_append_of_pos fun ev hev => by rw [hindex _ rfl ev hev]; rfl]
      rfl
    have hsys : (workerAnswers (es₁ ++ (⟨.ifNametoindex cfg.ifname, ifindex⟩ :: es₅ ++
        es₄))).socket = socketAnswers (⟨.ifNametoindex cfg.ifname, ifindex⟩ :: es₅ ++ es₄) :=
      congrArg socketAnswers hdrop
    rw [← hsys] at hxsk
    cases r₂ with
    | error rc =>
      obtain ⟨_, _, _, -, -, hret⟩ := hcont.bind_inv
      obtain ⟨-, rfl⟩ := hret.pure_inv
      replace humem : Xdp.xskUmemCreate (some xskConfigDefault) (workerAnswers _).umem =
        .ok umemState := humem
      simp only [Dataplane.dpWorkerInit, humem, hxsk, bind, Except.bind]
    | ok xskState => exact workerPrime_trace humem hxsk hcont

end

/-- **A set-up** returns what `Dataplane.dpWorkerInit` says of the answers it got, holds the worker
on success, and leaves nothing held on an error. -/
theorem dpWorkerInit_runs {e : Endian} {cfg : DpConfig} {es : List XskEvent}
    {r : Except Int (Xsk Worker)} {w : WorkerHandle} {F H : Multiset Handle}
    (htrace : Trace (dpWorkerInit e cfg) es (r, w)) (heffect : Effect F es H) :
    Dataplane.dpWorkerInit e cfg (workerAnswers es) = r ∧
      match r with
      | .ok _ => w.Up ∧ H = w.owns + F
      | .error rc => rc ≠ 0 ∧ w.owns = 0 ∧ H = F := by
  refine ⟨dpWorkerInit_trace htrace, ?_⟩
  rw [← zero_add F] at heffect
  have hrun := runs_iff.2 ⟨es, htrace, heffect⟩
  obtain ⟨G, hG, rfl⟩ := ((dpWorkerInit_spec e cfg).frame F).runs hrun
  cases r with
  | ok s => exact ⟨hG.ok s rfl, by rw [hG.owns]⟩
  | error rc =>
    obtain ⟨hrc, howns⟩ := hG.error rc rfl
    exact ⟨hrc, howns, by rw [hG.owns, howns, zero_add]⟩

/-- A kernel without AF_XDP: `EAFNOSUPPORT`. -/
def unsupported : (r : XskReq) → r.Ans
  | .socket => .error 97
  | r => granted r

/-- A set-up that succeeds and one that fails. -/
theorem dpWorkerInit_runs_sample :
    (∃ es s H, Trace (dpWorkerInit .little sinkConfig) es (.ok s, sinkHandle) ∧ Effect 0 es H ∧
      Dataplane.dpWorkerInit .little sinkConfig (workerAnswers es) = .ok s ∧
        H = sinkHandle.owns + 0) ∧
    ∃ es w, Trace (dpWorkerInit .little sinkConfig) es (.error (-97), w) ∧ Effect 0 es 0 ∧
      Dataplane.dpWorkerInit .little sinkConfig (workerAnswers es) = .error (-97) := by
  constructor
  · obtain ⟨es, H, htrace, heffect⟩ := (dpWorkerInit_spec .little sinkConfig).trace granted
    obtain ⟨s, hs⟩ : ∃ s, (dpWorkerInit .little sinkConfig).result granted =
        (.ok s, sinkHandle) := ⟨_, rfl⟩
    rw [hs] at htrace
    obtain ⟨hresult, -, hH⟩ := dpWorkerInit_runs htrace heffect
    exact ⟨es, s, H, htrace, heffect, hresult, hH⟩
  · obtain ⟨es, H, htrace, heffect⟩ := (dpWorkerInit_spec .little sinkConfig).trace unsupported
    obtain ⟨w, hw⟩ : ∃ w, (dpWorkerInit .little sinkConfig).result unsupported =
        (.error (-97), w) := ⟨_, rfl⟩
    rw [hw] at htrace
    obtain ⟨hresult, -, -, rfl⟩ := dpWorkerInit_runs htrace heffect
    exact ⟨es, w, htrace, heffect, hresult⟩

end Rewsr.Dataplane.Handles
