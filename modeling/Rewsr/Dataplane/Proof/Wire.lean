import Rewsr.Dataplane.Proof.Loop
import Rewsr.Dataplane.Wire
import Rewsr.Xdp.Proof.WireRuns

/-!
# From one worker to the other

The worker as a client of the data path (`Traffic`): what it has sent are the generator's frames in
order, and its counters are about the frames it was given. The two parts of an iteration keep that
(`rxPart_wire`, `txPart_wire`), so that it holds in every run of the loop, and with it the division
of the chunks between the two directions (`Between`, `receive_share`).
-/

namespace Rewsr.Dataplane

open Interleave Counter Rewsr.Ring Rewsr.Net Rewsr.Wire Rewsr.Xdp

/-- The worker's data after the frames `out` and the frames `got`. -/
structure Traffic (e : Endian) (cfg : DpConfig) (out got : List (List UInt8)) (w : Worker) :
    Prop where
  frames : out = (List.range out.length).map (genFrame e cfg.flow cfg.plen.toNat)
  gen : cfg.role.transmits → 8 ≤ cfg.plen.toNat ∧ cfg.plen.toNat ≤ 2048 ∧
    w.gen = genAt e cfg.flow cfg.plen.toNat out.length
  seen : w.seen = got
  counted : Counted e w

section
variable {e : Endian} {cfg : DpConfig} {out got : List (List UInt8)} {w : Worker}

/-- A step on the worker's other fields. -/
theorem Traffic.of_eq (h : Traffic e cfg out got w) {w' : Worker} (hgen : w'.gen = w.gen)
    (hseen : w'.seen = w.seen) (hp : w'.stats.rxPackets = w.stats.rxPackets)
    (hb : w'.stats.rxBytes = w.stats.rxBytes) (he : w'.stats.parseErrors = w.stats.parseErrors) :
    Traffic e cfg out got w' := by
  have hacc : acceptedFrames e w' = acceptedFrames e w := by
    rw [acceptedFrames, hseen, acceptedFrames]
  refine ⟨h.frames, ?_, hseen.trans h.seen, ?_, ?_, ?_⟩
  · rw [hgen]
    exact h.gen
  · rw [hp, hacc, h.counted.rxPackets]
  · rw [hb, hacc, h.counted.rxBytes]
  · rw [hp, he, hseen, h.counted.rxAll]

theorem Traffic.stop (out got : List (List UInt8)) (w w' : Worker) (h : Traffic e cfg out got w)
    (hs : SetsStop w w') : Traffic e cfg out got w' := by
  obtain ⟨stop, rfl⟩ := hs
  exact h.of_eq rfl rfl rfl rfl rfl

theorem receives_rxCount (P : List UInt8 → Prop) :
    Receives (Traffic e cfg) P (some (rxCount e)) := by
  intro out got w frame h _
  refine ⟨h.frames, ?_, ?_, rxCount_counted h.counted frame⟩
  · rw [(rxCount_rest (e := e) frame w).1]
    exact h.gen
  · rw [rxCount_seen, h.seen]

/-- `tx_fill` makes the next frame of the generator, in a chunk with room for it. -/
theorem sends_txFill (ht : cfg.role.transmits) (hfit : cfg.Fits) :
    Sends (Traffic e cfg) 2048 (some txFill) := by
  refine ⟨txFill, rfl, fun out got w buf h hbuf => ?_⟩
  obtain ⟨h8, h2048, hgen⟩ := h.gen ht
  have hroom : 42 + cfg.plen.toNat ≤ buf.length := hbuf ▸ hfit ht
  have hlen : (genFrame e cfg.flow cfg.plen.toNat out.length).length = 42 + cfg.plen.toNat :=
    length_genFrame h8 _
  have hfill : txFill buf w = (UInt32.ofNat (42 + cfg.plen.toNat),
      genFrame e cfg.flow cfg.plen.toNat out.length ++ buf.drop (42 + cfg.plen.toNat),
      { w with gen := genAt e cfg.flow cfg.plen.toNat (out.length + 1)
               fills := w.fills ++ [UInt32.ofNat (42 + cfg.plen.toNat)] }) := by
    unfold txFill
    rw [hgen, pktgenNext_eq h8 h2048 _ hroom]
    rfl
  have hnat : (UInt32.ofNat (42 + cfg.plen.toNat)).toNat = 42 + cfg.plen.toNat :=
    cfg.frameLen_toNat h2048
  rw [hfill]
  dsimp only
  rw [hnat, List.take_left' hlen, List.length_append, List.length_drop, hlen]
  refine ⟨cfg.frameLen_ne_zero h2048, by omega, by omega, ?_, ?_, h.seen, ?_⟩
  · rw [List.length_append, List.length_singleton, List.range_succ, List.map_append, ← h.frames]
    rfl
  · rw [List.length_append, List.length_singleton]
    exact fun _ => ⟨h8, h2048, rfl⟩
  · exact ⟨h.counted.rxPackets, h.counted.rxBytes, h.counted.rxAll⟩

/-! ## The parts of an iteration -/

variable {P : List UInt8 → Prop}

/-- The context of the worker's calls. -/
abbrev trafficCtx (e : Endian) (cfg : DpConfig) (P : List UInt8 → Prop) : Ctx (Xsk Worker × Wire) :=
  wireCtx (Traffic e cfg) P 4096 2048

/-- Between two bursts: the receive side has the chunks of the first refill. -/
def Between (x : Xsk Worker × Wire) : Prop :=
  Idle x.1 ∧ Share xskConfigDefault.fillSize xskConfigDefault.fillSize.toNat 0 0 (feeding x)

theorem stable_between : Stable (trafficCtx e cfg P) Between :=
  stable_share (A := Idle) (fun _ => Iff.rfl) _

/-- A step on the worker's own data, from a state between two bursts. -/
theorem onWorker_wire {f : Worker → Worker}
    (hf : ∀ out got w, Traffic e cfg out got w → Traffic e cfg out got (f w)) :
    Triple (trafficCtx e cfg P) Between ((onWorker f).metered Wire.note) fun _ => Between := by
  refine keeps_share (Prog.keeps_atomic fun _ => rfl) _ (Triple.metered_atomic
    (stable_wire (A := Idle) fun _ => Iff.rfl) (fun _ => stable_wire (A := Idle) fun _ => Iff.rfl)
    fun x hx hi => ?_)
  exact ⟨⟨inv_user hi.1 _,
    hi.2.still ⟨rfl, rfl, rfl, rfl, rfl, rfl, rfl, rfl, rfl, rfl, rfl⟩ (hf _ _ _ hi.2.client)⟩,
    trivial, hx⟩

theorem setLoop_wire (l : LoopAt) : Triple (trafficCtx e cfg P) Between
    ((onWorker fun w => { w with loop := l }).metered Wire.note) fun _ => Between :=
  onWorker_wire fun _ _ _ h => h.of_eq rfl rfl rfl rfl rfl

theorem rxPart_wire : Triple (trafficCtx e cfg P) Between ((rxPart e cfg).metered Wire.note)
    fun _ => Between := by
  have hidle : Stable (trafficCtx e cfg P) fun x : Xsk Worker × Wire => Idle x.1 :=
    stable_wire (A := Idle) fun _ => Iff.rfl
  rw [rxPart, Prog.metered_bind]
  refine Triple.bind (Q := fun _ => Between) (keeps_share (Prog.keeps_atomic fun _ => rfl) _
    (Triple.metered_atomic hidle (fun _ => hidle) fun x hx hi => ?_)) fun stop => ?_
  · exact ⟨⟨hi.1, hi.2.still ⟨rfl, rfl, rfl, rfl, rfl, rfl, rfl, rfl, rfl, rfl, rfl⟩ hi.2.client⟩,
      trivial, hx⟩
  · cases stop with
    | true => exact setLoop_wire .stopped
    | false =>
      by_cases hrole : cfg.role.receives
      · rw [if_neg Bool.false_ne_true, if_pos hrole, Prog.metered_bind]
        exact Triple.bind (rxBurst_share (receives_rxCount P) cfg.burst) fun _ => setLoop_wire .tx
      · rw [if_neg Bool.false_ne_true, if_neg hrole]
        exact setLoop_wire .tx

theorem txPart_wire (hfit : cfg.Fits) {x : Xsk Worker × Wire} (hi : (trafficCtx e cfg P).inv x)
    (hx : Between x) (hroom : BatchRoom cfg x.1) :
    Now (trafficCtx e cfg P) (fun _ => Between) ((txPart cfg).metered Wire.note) x := by
  have hcheck : Triple (trafficCtx e cfg P) Between
      ((onWorker (checkMax cfg.maxPackets)).metered Wire.note) fun _ => Between := by
    refine onWorker_wire fun _ _ w h => ?_
    rw [checkMax_eq]
    exact h.of_eq rfl rfl rfl rfl rfl
  have hcount : ∀ n, Triple (trafficCtx e cfg P) Between
      ((onWorker (countSent cfg.burst n)).metered Wire.note) fun _ => Between := by
    intro n
    refine onWorker_wire fun _ _ w h => ?_
    unfold countSent
    split
    · exact h.of_eq rfl rfl rfl rfl rfl
    · exact h.of_eq rfl rfl rfl rfl rfl
  have hcomplete : Triple (trafficCtx e cfg P) Between
      ((txComplete cfg.burst).metered Wire.note) fun _ => Between :=
    keeps_share (txComplete_keeps (fun _ _ _ => rfl) _) _ (complete_wire cfg.burst)
  unfold txPart
  by_cases ht : cfg.role.transmits
  · rw [if_pos ht]
    simp only [Prog.metered_bind]
    have hkeeps := (feeding_keeps (txBurst_keeps (fun _ _ _ _ _ _ => rfl) cfg.burst
      (some txFill))).only (Share xskConfigDefault.fillSize xskConfigDefault.fillSize.toNat 0 0)
    have hburst := (txBurst_wire (sends_txFill ht hfit) hi hx.1 hroom).and
      ((hkeeps hx.2 trivial).now trivial) (fun _ _ => trivial) fun _ _ => feeding_rely
    refine hburst.bind (fun sent => ?_) hi
    refine Triple.bind (hcount sent) fun _ => ?_
    exact Triple.bind hcomplete fun _ => hcheck
  · rw [if_neg ht]
    exact (hcheck hx hi).now hi

end

/-! ## The initialised worker -/

section
variable {e : Endian} {cfg : DpConfig}

theorem mapRing_fresh {V : Type} {map : Except Int (RingMap V)} {entries : UInt32}
    {entrySize : Nat} {r : SharedRing V} (h : mapRing map entries entrySize = .ok r)
    (hempty : ∀ m, map = .ok m → m.consumer = m.producer) : FreshRing r entrySize := by
  obtain ⟨m, hm, h⟩ := bind_eq_ok.1 h
  split at h
  · cases h
  · rename_i view hview
    cases h
    obtain ⟨-, hsize, -⟩ := ringInit_some hview
    refine ⟨?_, hempty m hm, rfl⟩
    dsimp only
    rwa [hsize]

/-- With empty rings, the state before the first refill is fresh. -/
theorem xskStart_fresh {sys : WorkerSyscalls} (hempty : EmptyRings sys) {umem : XskUmem}
    {xsk : XskSocket} (humem : xskUmemCreate (some xskConfigDefault) sys.umem = .ok umem)
    (hxsk : xskSocketCreate cfg.ifname cfg.queueId (some xskConfigDefault) sys.socket = .ok xsk)
    (w : Worker) : FreshUmem 4096 2048 (xskStart umem xsk w) := by
  obtain ⟨area, -, h⟩ := bind_eq_ok.1 humem
  obtain ⟨fill, hfill, h⟩ := bind_eq_ok.1 h
  obtain ⟨comp, hcomp, h⟩ := bind_eq_ok.1 h
  unfold xskSocketCreate at hxsk
  dsimp only at h hxsk
  split at hxsk
  · cases hxsk
  split at h
  · cases h
  split at h
  · cases h
  rename_i pool hpool
  obtain ⟨-, -, h'⟩ := bind_eq_ok.1 hxsk
  obtain ⟨rx, hrx, h'⟩ := bind_eq_ok.1 h'
  obtain ⟨tx, htx, h'⟩ := bind_eq_ok.1 h'
  obtain ⟨-, -, h'⟩ := bind_eq_ok.1 h'
  cases h
  cases h'
  have hcomp' := mapRing_fresh hcomp hempty.comp
  have hrx' := mapRing_fresh hrx hempty.rx
  exact { fill := mapRing_fresh hfill hempty.fill, tx := mapRing_fresh htx hempty.tx
          comp := ⟨hcomp'.init, hcomp'.empty, hcomp'.empty⟩
          rx := ⟨hrx'.init, hrx'.empty, hrx'.empty⟩, kernelRx := rfl, kernelTx := rfl
          accepted := rfl, txSeen := rfl, popped := rfl, fillSeen := rfl, frees := rfl
          pool := hpool }

theorem zeroWorker_counted (gen : Pktgen) : Counted e { zeroWorker with gen } := ⟨rfl, rfl, rfl⟩

/-- The first refill, on a fresh state. The generator is set up after it. -/
theorem fillRefill_fresh {P : List UInt8 → Prop} {s s' : Xsk Worker} (h : FreshUmem 4096 2048 s)
    (hsize : s.frameSize = 2048) {gen : Pktgen} (huser : Traffic e cfg [] [] { s.user with gen })
    {nb : UInt32} (hnb : nb.toNat ≤ 4096) (hfill : s.fill.view.size = nb)
    (hs' : ((fillRefill nb).run s).2 = s') :
    (trafficCtx e cfg P).inv ({ s' with user := { s'.user with gen } }, Wire.empty) ∧ Idle s' ∧
      s'.fill.view.size = nb ∧ s'.popped.length = nb.toNat ∧ s'.user = s.user := by
  have hstart : ClientStart (Traffic e cfg) 4096 2048
      ({ s with user := { s.user with gen } }, Wire.empty) :=
    ⟨⟨⟨h.fill, h.comp, h.rx, h.tx, h.kernelRx, h.kernelTx, h.accepted, h.txSeen, h.popped,
      h.fillSeen, h.frees⟩, h.pool⟩, hsize, rfl, huser⟩
  obtain ⟨hwire, -⟩ := hstart.inv (P := P)
  obtain ⟨hi, hidle⟩ := h.inv (m := duplex 4096 2048)
  obtain ⟨-, hstack, -, -⟩ := FramePool.init_some h.pool
  have hlen : nb.toNat ≤ s.pool.stack.length := by
    rw [hstack, length_chunks]
    exact hnb
  have hfree : fillFree s = nb.toNat := by
    rw [fillFree, h.fill.empty, gap_self, hfill, Nat.sub_zero]
  have hkeep := (fillRefill_keeps (π := frames) (fun _ _ _ _ => rfl) nb).run s
  have hok : FillOk nb s := Nat.le_trans (Nat.min_le_left _ _) hlen
  have hnow := fillRefill_now id hi hidle hok
  obtain ⟨hr, hidle', -⟩ := hnow.run
  have hi' := (Safe.run (fillRefill_triple id nb ⟨hlen, hidle⟩ hi) hi).1
  have hstock : Share nb nb.toNat nb.toNat 0 (feeding (s, Wire.empty)) := by
    refine ⟨hfill, fun _ => ?_⟩
    rw [feeding, h.popped]
    exact Nat.add_comm 0 _
  obtain ⟨hview, hcount⟩ := (Safe.run (fillRefill_feeds nb hstock trivial) trivial).2
  obtain ⟨hret, hstate⟩ := Prog.run_metered Wire.note (fillRefill nb) (s, Wire.empty)
  have hquiet := ((fillRefill_keeps (π := fun s : Xsk Worker => s.rx.cur) (fun _ _ _ _ => rfl)
    nb).metered_part (g := Wire.delivered) fun _ _ w hs => note_delivered hs w).run (s, Wire.empty)
  have hnone := congrArg (fun v => v.2.length) hquiet
  have hpopped := hcount (Nat.le_refl _)
  dsimp only [feeding] at hview hpopped hnone
  rw [hstate] at hview hpopped
  rw [hret, hr, hfree, Nat.min_self, hnone] at hpopped
  rw [hs'] at hkeep hi' hidle' hview hpopped
  have hcs := (hi'.owned trivial).chunkSize.trans (hi.owned trivial).chunkSize.symm
  obtain ⟨hstill, huser'⟩ := still_of_frames hkeep hcs
  have hstill' : Still { s with user := { s.user with gen } }
      { s' with user := { s'.user with gen } } :=
    ⟨hstill.area, hstill.frameSize, hstill.chunkSize, hstill.txDescs, hstill.txCur,
      hstill.txConsumer, hstill.rxDescs, hstill.rxCur, hstill.rxProducer, hstill.kernelTx,
      hstill.fed⟩
  have hnext := hwire.2.still hstill' (huser' ▸ hwire.2.client)
  rw [hwire.2.note_still hstill'] at hnext
  exact ⟨⟨inv_user hi' _, hnext⟩, hidle', hview, Nat.add_right_cancel hpopped, huser'⟩

theorem WireStart.inv {P : List UInt8 → Prop} {x : Xsk Worker × Wire} (h : WireStart e cfg x) :
    (trafficCtx e cfg P).inv x ∧ Between x := by
  obtain ⟨s, w⟩ := x
  obtain ⟨rfl, sys, hempty, h⟩ : w = Wire.empty ∧ _ := h
  obtain ⟨umem, humem, h⟩ := bind_eq_ok.1 h
  obtain ⟨xsk, hxsk, h⟩ := bind_eq_ok.1 h
  have hfresh := xskStart_fresh hempty humem hxsk zeroWorker
  have hsize : (xskStart umem xsk zeroWorker).frameSize = 2048 := xskUmemCreate_frameSize humem
  have hfill : (xskStart umem xsk zeroWorker).fill.view.size = xskConfigDefault.fillSize :=
    xskUmemCreate_fillSize humem
  have hnb : xskConfigDefault.fillSize.toNat ≤ 4096 := by decide
  unfold Between
  generalize hs₀ : ((fillRefill xskConfigDefault.fillSize).run
    (xskStart umem xsk zeroWorker)).2 = s₀ at h
  generalize xskConfigDefault.fillSize = nb at hnb hfill hs₀ ⊢
  dsimp only at h
  split at h
  · split at h
    · rename_i gen hgen
      obtain ⟨h8, h2048, rfl⟩ := pktgenInit_ok_iff.1 hgen
      cases h
      obtain ⟨hinv, hidle, hview, hpopped, -⟩ := fillRefill_fresh (P := P) hfresh hsize
        ⟨rfl, fun _ => ⟨h8, h2048, rfl⟩, rfl, zeroWorker_counted _⟩ hnb hfill hs₀
      exact ⟨hinv, hidle, hview, fun _ => hpopped⟩
    · cases h
  · rename_i hrole
    cases h
    obtain ⟨hinv, hidle, hview, hpopped, huser⟩ := @fillRefill_fresh e cfg P _ _ hfresh hsize zeroGen
      ⟨rfl, fun ht => absurd ht hrole, rfl, zeroWorker_counted _⟩ _ hnb hfill hs₀
    have hgen : { s.user with gen := zeroGen } = s.user := by
      rw [huser]
      rfl
    rw [hgen] at hinv
    exact ⟨hinv, hidle, hview, fun _ => hpopped⟩

/-! ## Runs -/

/-- The proof outline of the loop. -/
def wireWorkerVerified (e : Endian) {cfg : DpConfig} (hfit : cfg.Fits) (P : List UInt8 → Prop) :
    Verified (wireWorker e cfg P) (WireStart e cfg) where
  inv := (trafficCtx e cfg P).inv
  rely _ := (trafficCtx e cfg P).rely
  guar _ _ _ := True
  idle _ := Between
  post _ _ _ _ := Between
  refl _ := (trafficCtx e cfg P).refl
  trans _ _ _ _ := (trafficCtx e cfg P).trans
  start_inv _ h := h.inv.1
  start_idle _ _ h := (h.inv (P := P)).2
  env_inv {x y} hi henv := by
    have := (wire_env_inv Traffic.stop hi henv.1).1
    rwa [← henv.2] at this
  env_rely _ x y hi henv := by
    have := (wire_env_inv Traffic.stop hi henv.1).2
    rwa [← henv.2] at this
  guar_rely hne := absurd rfl hne
  idle_stable _ _ _ h hr hi := stable_between h hr hi
  call _ op x hi hidle hok := by
    cases op with
    | rx => exact (rxPart_wire hidle hi).now hi
    | tx => exact txPart_wire hfit hi hidle hok.2
  done _ _ _ _ _ _ h := h

variable {P : List UInt8 → Prop} {c : Config Unit (Xsk Worker × Wire) PUnit WorkerOp}

theorem traffic_of_reach (hfit : cfg.Fits) (h : Reach (wireWorker e cfg P) (WireStart e cfg) c) :
    Traffic e cfg c.mem.2.sent c.mem.2.delivered c.mem.1.user ∧
      c.mem.2.taken <+: c.mem.2.sent ∧ ∀ frame ∈ c.mem.2.delivered, P frame := by
  have hw := ((wireWorkerVerified e hfit P).sound h).1.2
  refine ⟨hw.client, ⟨_, hw.sent.symm⟩, fun frame hframe => hw.heard frame ?_⟩
  rw [hw.posted]
  exact List.mem_append_left _ hframe

/-- The frames taken, as the generator's. -/
theorem taken_getElem (hfit : cfg.Fits) (h : Reach (wireWorker e cfg P) (WireStart e cfg) c) {n : Nat}
    (hn : n < c.mem.2.taken.length) :
    c.mem.2.taken[n] = genFrame e cfg.flow cfg.plen.toNat n := by
  obtain ⟨hclient, htaken, -⟩ := traffic_of_reach hfit h
  rw [htaken.getElem hn, List.getElem_of_eq hclient.frames, List.getElem_map, List.getElem_range]

end

/-! ## A sender's run on fixed inputs -/

/-- A worker of a role, one frame at a time. -/
def pairConfig (role : DpRole) : DpConfig :=
  { ifname := "eth0", queueId := 0, cpu := -1, role, batch := 1, payloadLen := 8
    flow := sampleFlow, maxPackets := 0 }

theorem pairConfig_fits (role : DpRole) : (pairConfig role).Fits :=
  fun _ => (by decide : 42 + 8 ≤ 2048)

theorem freshSyscalls_empty : EmptyRings freshSyscalls where
  fill m h := by cases h; rfl
  comp m h := by cases h; rfl
  rx m h := by cases h; rfl
  tx m h := by cases h; rfl

/-- The state after the first refill. -/
@[irreducible] def primed : Xsk Worker :=
  ((fillRefill xskConfigDefault.fillSize).run (xskStart freshUmem (freshSocket 0) zeroWorker)).2

theorem primed_eq : ((fillRefill xskConfigDefault.fillSize).run
    (xskStart freshUmem (freshSocket 0) zeroWorker)).2 = primed := by
  unfold primed
  rfl

/-- The sender's state, with its generator. -/
def primedSource : Xsk Worker :=
  { primed with user := { primed.user with gen := genAt .little sampleFlow 8 0 } }

theorem primedSource_start : WireStart .little (pairConfig .source) (primedSource, Wire.empty) :=
  ⟨rfl, freshSyscalls, freshSyscalls_empty, dpWorkerInit_transmits rfl freshUmem_create
    (freshSocket_create ..) (pktgenInit_eq (by decide) (by decide)) primed_eq⟩

theorem reach_wire {e : Endian} {cfg : DpConfig} {P : List UInt8 → Prop}
    {start : Xsk Worker × Wire → Prop} {s s' : Xsk Worker} {w : Wire}
    {th : Unit → Phase (Xsk Worker × Wire) PUnit WorkerOp} {a : KernelAct}
    (h : Reach (wireWorker e cfg P) start ⟨(s, w), th⟩) (ha : Faithful P a)
    (hk : kernelStep a s = some s') :
    Reach (wireWorker e cfg P) start ⟨(s', Wire.note s s' w), th⟩ :=
  h.tail (.env ⟨.inl ⟨a, ha, hk⟩, rfl⟩)

/-- The sender after the two parts of an iteration. -/
def outbox : Xsk Worker × Wire :=
  let x := (((rxPart .little (pairConfig .source)).metered Wire.note).run
    (primedSource, Wire.empty)).2
  (((txPart (pairConfig .source)).metered Wire.note).run x).2

theorem source_sample : ∃ c : Config Unit (Xsk Worker × Wire) PUnit WorkerOp,
    Reach (wireWorker .little (pairConfig .source) fun _ => True)
      (WireStart .little (pairConfig .source)) c ∧
    c.mem.2.taken = [genFrame .little sampleFlow 8 0] ∧ c.th () = .idle := by
  obtain ⟨htop, htx, hroom, hnext, htaken⟩ : primedSource.user.loop = .top ∧
      (((rxPart .little (pairConfig .source)).metered Wire.note).run
        (primedSource, Wire.empty)).2.1.user.loop = .tx ∧
      (pairConfig .source).burst.toNat ≤ (((rxPart .little (pairConfig .source)).metered
        Wire.note).run (primedSource, Wire.empty)).2.1.pool.available ∧
      outbox.1.tx.consumer ≠ outbox.1.tx.producer ∧
      (Wire.note outbox.1 (txTake outbox.1) outbox.2).taken = [genFrame .little sampleFlow 8 0] := by
    decide +kernel
  have h0 := Reach.initial (S := wireWorker .little (pairConfig .source) fun _ => True)
    primedSource_start
  have h1 := h0.call () .rx htop rfl
  have h2 : Reach _ _ ⟨outbox, fun _ => .idle⟩ := h1.call () .tx ⟨htx, .inr hroom⟩ rfl
  exact ⟨_, reach_wire h2 (a := .txTake) trivial (txTake_step hnext), htaken, rfl⟩

/-! ## Every run -/

/-- **On the wire** are the generator's frames: the kernel takes, in order, the frames that the
generator makes when it is run alone; each passes the checksum tests and the classifier and carries
its number. -/
theorem wire_is_generator {e : Endian} {cfg : DpConfig} {P : List UInt8 → Prop}
    {c : Config Unit (Xsk Worker × Wire) PUnit WorkerOp} (hfit : cfg.Fits) (ht : cfg.role.transmits)
    (h : Reach (wireWorker e cfg P) (WireStart e cfg) c) : ∃ g frames g',
      pktgenInit e cfg.flow cfg.plen.toNat = some (.ok g) ∧
      pktgenRun g (List.replicate c.mem.2.sent.length (List.replicate 2048 0)) =
        some (frames, g') ∧
      c.mem.2.sent = frames ∧ c.mem.2.taken <+: frames ∧ c.mem.1.user.gen = g' ∧
      ∀ n (hn : n < c.mem.2.taken.length), dpAccepts e c.mem.2.taken[n] ∧
        ∃ s : UInt64, s.toNat = n % 2 ^ 64 ∧
          pktgenReadSeq e c.mem.2.taken[n] = some (.ok s) := by
  obtain ⟨hclient, hprefix, -⟩ := traffic_of_reach hfit h
  obtain ⟨h8, h2048, hgen⟩ := hclient.gen ht
  have hroomy : roomy cfg.plen.toNat
      (List.replicate c.mem.2.sent.length (List.replicate 2048 0)) = c.mem.2.sent.length := by
    rw [roomy, List.countP_replicate, List.length_replicate, if_pos (decide_eq_true (hfit ht))]
  have hrun := @pktgenRun_eq e cfg.flow _ h8 h2048
    (List.replicate c.mem.2.sent.length (List.replicate 2048 0)) 0
  rw [hroomy, ← List.range_eq_range', ← hclient.frames, Nat.zero_add] at hrun
  refine ⟨_, _, _, pktgenInit_eq h8 h2048, hrun, rfl, hprefix, hgen, fun n hn => ?_⟩
  rw [taken_getElem hfit h hn]
  obtain ⟨p, -, hok⟩ := @dpClassify_genFrame e cfg.flow _ h8 h2048 n
  refine ⟨?_, readSeq_genFrame h8 h2048 n⟩
  rw [dpAccepts, hok]

theorem wire_is_generator_sample : ∃ c : Config Unit (Xsk Worker × Wire) PUnit WorkerOp,
    c.mem.2.taken = [genFrame .little sampleFlow 8 0] ∧
      ∀ n (hn : n < c.mem.2.taken.length), dpAccepts .little c.mem.2.taken[n] := by
  obtain ⟨c, h, htaken, -⟩ := source_sample
  obtain ⟨_, _, _, -, -, -, -, -, hok⟩ := wire_is_generator (pairConfig_fits .source) rfl h
  exact ⟨c, htaken, fun n hn => (hok n hn).1⟩

/-- The chunks that are not the receive side's. -/
def sendHeld (s : Xsk Worker) : Nat :=
  s.pool.stack.length + ((txHeld s).length + (s.kernelTx.length + (compHeld s).length))

/-- **Sending never takes from receiving.** Between two parts of an iteration, whatever the kernel
has done so far, the fill ring, the kernel and the receive ring have the 2048 chunks of the first
refill between them, and the other 2048 are in the pool, sent or on their way back. -/
theorem receive_share {e : Endian} {cfg : DpConfig} {P : List UInt8 → Prop}
    {c : Config Unit (Xsk Worker × Wire) PUnit WorkerOp} (hfit : cfg.Fits)
    (h : Reach (wireWorker e cfg P) (WireStart e cfg) c) (hidle : c.th () = .idle) :
    recvHeld c.mem.1 = 2048 ∧ sendHeld c.mem.1 = 2048 := by
  obtain ⟨hi, hwire⟩ := ((wireWorkerVerified e hfit P).sound h).1
  obtain ⟨-, -, hshare⟩ := (wireWorkerVerified e hfit P).idle_of_reach h hidle
  have hcount := hshare (Nat.le_refl _)
  have hrecv := hwire.recvHeld hi
  have howned := hi.owned trivial
  have hall := howned.length
  have hfill : xskConfigDefault.fillSize.toNat = 2048 := rfl
  have hcap : c.mem.1.pool.capacity.toNat = 4096 := by
    rw [howned.capacity]
    rfl
  dsimp only [feeding] at hcount
  rw [recvHeld] at hrecv ⊢
  rw [sendHeld]
  omega

theorem receive_share_sample : ∃ c : Config Unit (Xsk Worker × Wire) PUnit WorkerOp,
    c.mem.2.taken = [genFrame .little sampleFlow 8 0] ∧
      recvHeld c.mem.1 = 2048 ∧ sendHeld c.mem.1 = 2048 := by
  obtain ⟨c, h, htaken, hidle⟩ := source_sample
  exact ⟨c, htaken, receive_share (pairConfig_fits .source) h hidle⟩

end Rewsr.Dataplane
