import Rewsr.Dataplane.Proof.Bursts
import Rewsr.Xdp.Proof.Setup

/-!
# Transmit parts that run alone

`txPart_run` says what a transmit part leaves when the kernel does nothing meanwhile and has no
completions for it, `freshWorker_init` how a worker starts on rings that are all empty.
-/

namespace Rewsr.Dataplane

open Interleave Counter Rewsr.Ring Rewsr.Net Rewsr.Xdp

section
variable {e : Endian} {cfg : DpConfig}

/-! ## Bursts -/

/-- The fields a burst leaves alone. -/
def strip (w : Worker) : Worker := { w with gen := zeroGen, fills := [] }

theorem txSteps_any (w : Worker) :
    TxSteps e cfg (fun _ => True) fun _ d => GenOk e cfg d ∧ strip d.1.user = w where
  gen h _ := h.1
  queued h _ _ n _ := by
    obtain ⟨⟨hsize, h8, h2048, -⟩, hw⟩ := h
    exact ⟨trivial, ⟨hsize, h8, h2048, n + 1, rfl⟩, hw⟩
  skipped h _ _ := ⟨trivial, h⟩

/-- A burst in a state with any counters, among any steps of the kernel. -/
theorem txBurst_any {x : Xsk Worker × Totals} (h : GenOk e cfg (data x)) (nb : UInt32) :
    Now (workerCtx fun _ => True)
      (fun r y => r.toNat = cfg.queues (txSlots nb x.1).toNat x.1.pool.available ∧
        (GenOk e cfg (data y) ∧ strip (data y).1.user = strip (data x).1.user) ∧
        (cfg.frameLen ≤ 2048 → y.1.pool.available + r.toNat = x.1.pool.available))
      ((txBurst nb (some txFill)).metered countTotals) x :=
  txBurst_now (txSteps_any _) (B := fun _ d => GenOk e cfg d ∧ strip d.1.user = _)
    (fun _ _ hd _ => ⟨trivial, hd⟩) nb ⟨h, rfl⟩ trivial

theorem txFill_stop (buf : List UInt8) (w : Worker) : (txFill buf w).2.2.stop = w.stop := by
  unfold txFill
  split
  · rfl
  · rfl

/-- What the rounds of a burst leave alone besides. -/
def quiet (s : Xsk Worker) : XskRing × SharedRing UInt64 × Bool := (s.tx.view, s.comp, s.user.stop)

theorem txOne_quiet (slot : UInt32) (s : Xsk Worker) :
    quiet (txOne (some txFill) slot s).2 = quiet s := by
  unfold txOne
  split
  · rfl
  · dsimp only [Xdp.txFill]
    split
    · simp only [quiet, txFill_stop]
    · simp only [quiet, txFill_stop, SharedRing.put]

theorem txLoop_quiet (idx : UInt32) (n : Nat) (q : UInt32) :
    (txLoop (some txFill) idx n q).Keeps quiet := by
  induction n generalizing q with
  | zero => exact Prog.keeps_pure _
  | succ n ih =>
    refine Prog.Keeps.bind (Prog.keeps_atomic (txOne_quiet (idx + q))) fun r => ?_
    cases r with
    | empty => exact Prog.keeps_pure _
    | skipped => exact ih _
    | queued => exact ih _

theorem txBurst_run {s : Xsk Worker} {t : Totals} (h : GenOk e cfg (data (s, t))) (nb : UInt32) :
    ((txBurst nb (some txFill)).run s).1.toNat =
        cfg.queues (txSlots nb s).toNat s.pool.available ∧
      GenOk e cfg (data (((txBurst nb (some txFill)).run s).2, t)) ∧
      strip ((txBurst nb (some txFill)).run s).2.user = strip s.user ∧
      (cfg.frameLen ≤ 2048 → ((txBurst nb (some txFill)).run s).2.pool.available +
        ((txBurst nb (some txFill)).run s).1.toNat = s.pool.available) ∧
      quiet ((txBurst nb (some txFill)).run s).2 =
        ((prodReserve s.tx.view s.tx.consumer nb).2, s.comp, s.user.stop) := by
  have hrun := (txBurst_any h nb).run
  obtain ⟨hres, hstate⟩ := Prog.run_metered countTotals (txBurst nb (some txFill)) (s, t)
  have hquiet : quiet ((txBurst nb (some txFill)).run s).2 =
      ((prodReserve s.tx.view s.tx.consumer nb).2, s.comp, s.user.stop) := by
    rw [txBurst, Prog.run_bind]
    refine (Prog.Keeps.run ?_ _).trans rfl
    refine Prog.Keeps.bind (txLoop_quiet _ _ _) fun q => Prog.Keeps.bind ?_ fun _ => ?_
    · exact Prog.Keeps.bind (Prog.keeps_atomic fun _ => rfl) fun _ => Prog.keeps_atomic fun _ => rfl
    · exact Prog.keeps_pure _
  obtain ⟨hq, ⟨hgen, hstrip⟩, hpool⟩ := hrun
  generalize ((txBurst nb (some txFill)).metered countTotals).run (s, t) = y at *
  obtain ⟨q, s', t'⟩ := y
  obtain rfl : q = _ := hres
  obtain rfl : s' = _ := hstate
  have hstop := congrArg (fun p => p.2.2) hquiet
  refine ⟨hq, hgen, ?_, hpool, hquiet⟩
  have hwith := congrArg (fun w : Worker => { w with stop := s.user.stop }) hstrip
  dsimp only [data, own, strip, quiet] at hwith hstop ⊢
  rw [hstop]
  exact hwith

/-! ## Completions -/

/-- No completions wait. -/
def CompEmpty (r : SharedRing UInt64) : Prop :=
  r.view.cachedProd = r.view.cachedCons ∧ r.producer = r.view.cachedCons

theorem txComplete_run {s : Xsk Worker} (h : CompEmpty s.comp) (nb : UInt32) :
    ((txComplete nb).run s).2.pool = s.pool ∧ CompEmpty ((txComplete nb).run s).2.comp := by
  obtain ⟨hcached, hprod⟩ := h
  have hfirst : (compRing.consPeek nb).run s = ((0, s.comp.view.cachedCons), s) := by
    change ((consPeek s.comp.view s.comp.producer nb).1,
      compRing.set { s.comp with view := (consPeek s.comp.view s.comp.producer nb).2 } s) = _
    rw [consPeek_empty hcached hprod]
    rfl
  rw [txComplete, Prog.run_bind, hfirst]
  refine ⟨rfl, ?_, ?_⟩
  · exact hcached.trans (UInt32.add_zero _).symm
  · exact hprod.trans (UInt32.add_zero _).symm

/-! ## A transmit part -/

/-- What a transmit part leaves that queued `sent` frames, and was asked for no more. -/
structure Cycled (e : Endian) (cfg : DpConfig) (sent : UInt32) (s s' : Xsk Worker) : Prop where
  gen : GenOk e cfg (data (s', ⟨0, 0⟩))
  frames : s'.pool.available + sent.toNat = s.pool.available
  view : s'.tx.view = (prodReserve s.tx.view s.tx.consumer cfg.burst).2
  comp : CompEmpty s'.comp
  user : strip s'.user = strip { countSent cfg.burst sent s.user with loop := .top }

theorem GenOk.frameLen {d : Own × Totals} (h : GenOk e cfg d) :
    pktgenFrameLen d.1.user.gen = cfg.frameLen := by
  obtain ⟨-, -, -, n, hn⟩ := h
  rw [hn]
  rfl

theorem strip_countSent {w w' : Worker} (h : strip w = strip w')
    (hlen : pktgenFrameLen w.gen = pktgenFrameLen w'.gen) (batch sent : UInt32) :
    strip (countSent batch sent w) = strip (countSent batch sent w') := by
  change { strip w with
    txCycles := (strip w).txCycles + 1
    stats := if sent > 0 then { (strip w).stats with
        txPackets := (strip w).stats.txPackets + sent.toUInt64
        txBytes := (strip w).stats.txBytes + sent.toUInt64 * UInt64.ofNat (pktgenFrameLen w.gen) }
      else { (strip w).stats with txDrops := (strip w).stats.txDrops + batch.toUInt64 } } = _
  rw [h, hlen]
  rfl

theorem txPart_run (cfg : DpConfig) (ht : cfg.role.transmits) (hmax : cfg.maxPackets = 0)
    (hfit : cfg.frameLen ≤ 2048) {s : Xsk Worker} (hgen : GenOk e cfg (data (s, ⟨0, 0⟩)))
    (hcomp : CompEmpty s.comp) : ∃ sent : UInt32,
      sent.toNat = cfg.queues (txSlots cfg.burst s).toNat s.pool.available ∧
        Cycled e cfg sent s ((txPart cfg).run s).2 := by
  obtain ⟨hsent, hgen₁, hstrip, hframes, hquiet⟩ := txBurst_run hgen cfg.burst
  refine ⟨_, hsent, ?_⟩
  rw [txPart, if_pos ht, Prog.run_bind]
  generalize (txBurst cfg.burst (some txFill)).run s = y at *
  obtain ⟨sent, s₁⟩ := y
  dsimp only at *
  have hcomp₁ : CompEmpty s₁.comp := by
    rw [show s₁.comp = s.comp from congrArg (fun p => p.2.1) hquiet]
    exact hcomp
  have hlen : pktgenFrameLen s₁.user.gen = pktgenFrameLen s.user.gen :=
    hgen₁.frameLen.trans hgen.frameLen.symm
  have huser := strip_countSent hstrip hlen cfg.burst sent
  rw [Prog.run_bind, Prog.run_bind]
  change Cycled e cfg sent s ((onWorker (checkMax cfg.maxPackets)).run ((txComplete cfg.burst).run
    { s₁ with user := countSent cfg.burst sent s₁.user }).2).2
  have hkeep := (txComplete_keeps (π := fun s => (s.tx.view, s.user, s.frameSize))
    (fun _ _ _ => rfl) cfg.burst).run { s₁ with user := countSent cfg.burst sent s₁.user }
  obtain ⟨hpool, hcomp₂⟩ := txComplete_run (s := { s₁ with
    user := countSent cfg.burst sent s₁.user }) hcomp₁ cfg.burst
  generalize ((txComplete cfg.burst).run
    { s₁ with user := countSent cfg.burst sent s₁.user }).2 = s₂ at *
  obtain ⟨hview, huser₂, hsize⟩ : _ ∧ _ ∧ _ := by simpa only [Prod.mk.injEq] using hkeep
  have hmax₂ : checkMax cfg.maxPackets s₂.user = { s₂.user with loop := .top } := by
    rw [checkMax, hmax]
    exact if_neg fun h => absurd h.1 (by decide)
  change Cycled e cfg sent s { s₂ with user := checkMax cfg.maxPackets s₂.user }
  rw [hmax₂, huser₂]
  refine ⟨?_, ?_, ?_, hcomp₂, ?_⟩
  · obtain ⟨hsize₁, h8, h2048, n, hn⟩ := hgen₁
    exact ⟨hsize.trans hsize₁, h8, h2048, n, hn⟩
  · rw [← hframes hfit, ← hpool]
  · exact hview.trans (congrArg (fun p => p.1) hquiet)
  · exact congrArg (fun w : Worker => { w with loop := .top }) huser

/-- What `countSent` adds; a burst that sent nothing is a drop of the whole batch. -/
theorem countSent_stats (batch sent : UInt32) (w : Worker) :
    (countSent batch sent w).stats.txPackets = w.stats.txPackets + UInt64.ofNat sent.toNat ∧
      (countSent batch sent w).stats.txBytes =
        w.stats.txBytes + UInt64.ofNat (sent.toNat * pktgenFrameLen w.gen) ∧
      (countSent batch sent w).stats.txDrops =
        w.stats.txDrops + if sent = 0 then UInt64.ofNat batch.toNat else 0 := by
  have h64 : ∀ n : UInt32, n.toUInt64 = UInt64.ofNat n.toNat := fun n => by simp
  unfold countSent
  by_cases hsent : sent = 0
  · subst hsent
    simp
  · have hpos : sent > 0 := UInt32.pos_iff_ne_zero.2 hsent
    simp only [if_pos hpos, if_neg hsent, h64, UInt64.ofNat_mul, UInt64.add_zero, and_self]

theorem Cycled.counts {sent : UInt32} {s s' : Xsk Worker} (h : Cycled e cfg sent s s') :
    s'.user.stats.txPackets = s.user.stats.txPackets + UInt64.ofNat sent.toNat ∧
      s'.user.stats.txDrops =
        s.user.stats.txDrops + (if sent = 0 then UInt64.ofNat cfg.burst.toNat else 0) ∧
      s'.user.txCycles = s.user.txCycles + 1 ∧ s'.user.loop = .top ∧
      s'.user.stop = s.user.stop := by
  obtain ⟨hpackets, -, hdrops⟩ := countSent_stats cfg.burst sent s.user
  have hstats : s'.user.stats = (countSent cfg.burst sent s.user).stats :=
    (congrArg Worker.stats h.user :)
  have hcycles : s'.user.txCycles = s.user.txCycles + 1 := (congrArg Worker.txCycles h.user :)
  have hloop : s'.user.loop = .top := (congrArg Worker.loop h.user :)
  have hstop : s'.user.stop = s.user.stop := (congrArg Worker.stop h.user :)
  rw [hstats]
  exact ⟨hpackets, hdrops, hcycles, hloop, hstop⟩

/-! ## An iteration -/

theorem metered_pair {α : Type*} (p : Prog (Xsk Worker) α) (s : Xsk Worker) (t : Totals) :
    ∃ t', ((p.metered countTotals).run (s, t)).2 = ((p.run s).2, t') :=
  ⟨_, Prod.ext (Prog.run_metered countTotals p (s, t)).2 rfl⟩

/-- An iteration of a source, with nothing in between. -/
theorem source_iteration {ok : Xsk Worker → Prop} {start : Xsk Worker × Totals → Prop}
    (hrole : cfg.role = .source) {s : Xsk Worker} {t : Totals}
    (h : Reach (workerSys e cfg ok) start ⟨(s, t), fun _ => .idle⟩) (hl : s.user.loop = .top)
    (hstop : s.user.stop = false) (hok : ok { s with user := { s.user with loop := .tx } }) :
    ∃ t', Reach (workerSys e cfg ok) start
      ⟨(((txPart cfg).run { s with user := { s.user with loop := .tx } }).2, t'),
        fun _ => .idle⟩ := by
  have hrx : ((rxPart e cfg).run s).2 = { s with user := { s.user with loop := .tx } } := by
    rw [rxPart, Prog.run_bind]
    change ((if s.user.stop = true then _ else if cfg.role.receives = true then _ else _ :
      Prog (Xsk Worker) PUnit).run s).2 = _
    rw [hstop, hrole]
    rfl
  have htx : ∃ u k, (workerSys e cfg ok).body .tx = .act u k := by
    change ∃ u k, (txPart cfg).metered countTotals = .act u k
    rw [txPart, hrole]
    exact ⟨_, _, rfl⟩
  obtain ⟨t₁, ht₁⟩ := metered_pair (rxPart e cfg) s t
  have h₁ := h.call () .rx hl rfl
  change Reach _ _ ⟨(((rxPart e cfg).metered countTotals).run (s, t)).2, _⟩ at h₁
  rw [ht₁, hrx] at h₁
  obtain ⟨u, k, hact⟩ := htx
  obtain ⟨t₂, ht₂⟩ := metered_pair (txPart cfg) { s with user := { s.user with loop := .tx } } t₁
  have h₂ := h₁.call () .tx ⟨rfl, hok⟩ hact
  change Reach _ _ ⟨(((txPart cfg).metered countTotals).run _).2, _⟩ at h₂
  rw [ht₂] at h₂
  exact ⟨t₂, h₂⟩

/-! ## A worker on empty rings -/

/-- System calls that all succeed, and map rings whose counters are 0. -/
def freshSyscalls : WorkerSyscalls where
  umem := { area := .ok fun _ => 0, fill := .ok ⟨0, 0, fun _ => 0⟩, comp := .ok ⟨0, 0, fun _ => 0⟩
            poolStack := true }
  socket := { ifNametoindex := fun _ => 1, ringSizes := .ok (), rx := .ok ⟨0, 0, fun _ => ⟨0, 0, 0⟩⟩
              tx := .ok ⟨0, 0, fun _ => ⟨0, 0, 0⟩⟩, bind := .ok () }

/-- A ring of 2048 entries that is mapped so. -/
def emptyRing {V : Type} (descSize : Nat) (v : V) : SharedRing V :=
  ⟨⟨2047, 2048, descSize, 0, 0⟩, 0, 0, fun _ => v, 0⟩

def freshUmem : XskUmem :=
  { area := fun _ => 0, frameSize := 2048, numFrames := 4096, fill := emptyRing 8 0
    comp := emptyRing 8 0, pool := ⟨FramePool.seed 2048 4096 [], 4096, 2048⟩ }

def freshSocket (queueId : UInt32) : XskSocket :=
  { ifindex := 1, queueId, rx := emptyRing 16 ⟨0, 0, 0⟩, tx := emptyRing 16 ⟨0, 0, 0⟩ }

theorem freshUmem_create :
    xskUmemCreate (some xskConfigDefault) freshSyscalls.umem = .ok freshUmem := rfl

theorem freshSocket_create (ifname : String) (queueId : UInt32) :
    xskSocketCreate ifname queueId (some xskConfigDefault) freshSyscalls.socket =
      .ok (freshSocket queueId) := rfl

theorem fillLoop_run (idx : UInt32) (n : Nat) (posted : UInt32) (s : Xsk Worker) :
    ((fillLoop idx n posted).run s).2.pool.stack = s.pool.stack.drop n := by
  induction n generalizing posted s with
  | zero => rfl
  | succ n ih =>
    rw [fillLoop, Prog.run_bind]
    change ((if (fillOne (idx + posted) s).1 then _ else _ : Prog (Xsk Worker) UInt32).run
      (fillOne (idx + posted) s).2).2.pool.stack = _
    cases hstack : s.pool.stack with
    | nil =>
      have hone : fillOne (idx + posted) s = (false, s) := by
        rw [fillOne, FramePool.alloc, hstack]
      rw [hone]
      exact hstack
    | cons addr stack =>
      have hone : fillOne (idx + posted) s = (true, { s with
          pool := { s.pool with stack }
          fill := { s.fill.put (idx + posted) addr with cur := idx + posted + 1 }
          popped := s.popped ++ [addr] }) := by
        rw [fillOne, FramePool.alloc, hstack]
      rw [hone]
      exact ih _ _

/-- A refill of an empty ring takes what it asks for. -/
theorem fillRefill_run {s : Xsk Worker} (nb : UInt32)
    (hempty : s.fill.consumer = s.fill.view.cachedProd) (hle : nb ≤ s.fill.view.size) :
    ((fillRefill nb).run s).2.pool.stack = s.pool.stack.drop nb.toNat := by
  have hlast : ∀ (q : UInt32) (s : Xsk Worker),
      ((do fillRing.prodSubmit q id; return q : Prog (Xsk Worker) UInt32).run s).2.pool = s.pool :=
    fun _ _ => rfl
  have hfree : (fillRing.prodFree.run s).1 = s.fill.view.size := by
    change s.fill.view.size - (s.fill.view.cachedProd - s.fill.consumer) = _
    rw [hempty, UInt32.sub_self, UInt32.sub_zero]
  have hreserve : ((fillRing.prodReserve nb).run (fillRing.prodFree.run s).2).1.1 = nb := by
    change
      (prodReserve { s.fill.view with cachedCons := s.fill.consumer } s.fill.consumer nb).1.1 = _
    unfold prodReserve
    dsimp only
    rw [hempty, UInt32.sub_self, UInt32.sub_zero, if_neg (UInt32.not_lt.2 hle)]
  have hpool : ((fillRing.prodReserve nb).run (fillRing.prodFree.run s).2).2.pool = s.pool := rfl
  rw [fillRefill, Prog.run_bind, hfree]
  dsimp only
  rw [if_neg (UInt32.not_lt.2 hle), Prog.run_bind]
  generalize (fillRing.prodReserve nb).run (fillRing.prodFree.run s).2 = y at *
  obtain ⟨⟨reserved, idx⟩, s'⟩ := y
  obtain rfl : reserved = nb := hreserve
  dsimp only at *
  rw [Prog.run_bind, hlast, fillLoop_run, hpool]

theorem dpWorkerInit_transmits (ht : cfg.role.transmits) {sys : WorkerSyscalls} {umem : XskUmem}
    {xsk : XskSocket} {gen : Pktgen} {s : Xsk Worker}
    (humem : xskUmemCreate (some xskConfigDefault) sys.umem = .ok umem)
    (hxsk : xskSocketCreate cfg.ifname cfg.queueId (some xskConfigDefault) sys.socket = .ok xsk)
    (hgen : pktgenInit e cfg.flow cfg.plen.toNat = some (.ok gen))
    (hs : ((fillRefill xskConfigDefault.fillSize).run (xskStart umem xsk zeroWorker)).2 = s) :
    dpWorkerInit e cfg sys = .ok { s with user := { s.user with gen } } := by
  subst hs
  unfold dpWorkerInit
  dsimp only
  rw [humem, hxsk, hgen]
  exact if_pos ht

/-- A worker that starts on empty rings: half of the frames are in the fill ring. -/
structure Fresh (e : Endian) (cfg : DpConfig) (s : Xsk Worker) : Prop where
  gen : GenOk e cfg (data (s, ⟨0, 0⟩))
  frames : s.pool.available = 2048
  view : s.tx.view = ⟨2047, 2048, 16, 0, 0⟩
  consumer : s.tx.consumer = 0
  comp : CompEmpty s.comp
  user : strip s.user = zeroWorker

theorem freshWorker_init (e : Endian) (cfg : DpConfig) (ht : cfg.role.transmits)
    (h8 : 8 ≤ cfg.plen.toNat)
    (h2048 : cfg.plen.toNat ≤ 2048) :
    ∃ s, dpWorkerInit e cfg freshSyscalls = .ok s ∧ Fresh e cfg s := by
  have hgen : pktgenInit e cfg.flow cfg.plen.toNat =
    some (.ok (genAt e cfg.flow cfg.plen.toNat 0)) := pktgenInit_ok_iff.2 ⟨h8, h2048, rfl⟩
  have hframes := fillRefill_run (s := xskStart freshUmem (freshSocket cfg.queueId) zeroWorker)
    xskConfigDefault.fillSize rfl (UInt32.le_refl 2048)
  have hkeep := (fillRefill_keeps (π := fun s => (s.frameSize, s.tx, s.comp, s.user))
    (fun _ _ _ _ => rfl) xskConfigDefault.fillSize).run
    (xskStart freshUmem (freshSocket cfg.queueId) zeroWorker)
  obtain ⟨s, hs⟩ : ∃ s, ((fillRefill xskConfigDefault.fillSize).run
    (xskStart freshUmem (freshSocket cfg.queueId) zeroWorker)).2 = s := ⟨_, rfl⟩
  rw [hs] at hframes hkeep
  refine ⟨_, dpWorkerInit_transmits ht freshUmem_create (freshSocket_create ..) hgen hs, ?_⟩
  obtain ⟨hsize, htx, hcomp, huser⟩ : _ ∧ _ ∧ _ ∧ _ := by simpa only [Prod.mk.injEq] using hkeep
  refine ⟨⟨hsize, h8, h2048, 0, rfl⟩, ?_, ?_, ?_, ?_, ?_⟩
  · rw [FramePool.available, hframes, xskStart, freshUmem, List.length_drop, seed_eq,
      List.append_nil, length_chunks]
    decide
  · rw [htx]
    rfl
  · rw [htx]
    rfl
  · rw [hcomp]
    exact ⟨rfl, rfl⟩
  · rw [huser]
    rfl

end

/-! ## A run of two iterations -/

/-- A source that sends 2000 frames at a time. -/
def sampleConfig : DpConfig :=
  { ifname := "eth0", queueId := 0, cpu := -1, role := .source, batch := 2000, payloadLen := 64
    flow := sampleFlow, maxPackets := 0 }

/-- What a run of the source has come to, with `sent` frames in `cycles` transmit parts. -/
structure SampleAt (sent : UInt64) (frames cycles : Nat) (view : XskRing) (s : Xsk Worker) :
    Prop where
  gen : GenOk .little sampleConfig (data (s, ⟨0, 0⟩))
  frames : s.pool.available = frames
  view : s.tx.view = view
  comp : CompEmpty s.comp
  packets : s.user.stats.txPackets = sent
  drops : s.user.stats.txDrops = 0
  cycles : s.user.txCycles = cycles
  loop : s.user.loop = .top
  stop : s.user.stop = false

theorem sample_init : ∃ s, WorkerStart .little sampleConfig (s, ⟨0, 0⟩) ∧ s.tx.consumer = 0 ∧
    SampleAt 0 2048 0 ⟨2047, 2048, 16, 0, 0⟩ s := by
  obtain ⟨s, hinit, h⟩ := freshWorker_init .little sampleConfig rfl (by decide)
    (by decide)
  refine ⟨s, ⟨rfl, _, hinit⟩, h.consumer, h.gen, h.frames, h.view, h.comp, ?_, ?_, ?_, ?_, ?_⟩
  · exact (congrArg (fun w => w.stats.txPackets) h.user :)
  · exact (congrArg (fun w => w.stats.txDrops) h.user :)
  · exact (congrArg Worker.txCycles h.user :)
  · exact (congrArg Worker.loop h.user :)
  · exact (congrArg Worker.stop h.user :)

theorem sample_cycle {ok : Xsk Worker → Prop} {sent : UInt64} {L k : Nat} {v : XskRing}
    {s : Xsk Worker} {t : Totals}
    (h : Reach (workerSys .little sampleConfig ok) (WorkerStart .little sampleConfig)
      ⟨(s, t), fun _ => .idle⟩) (hs : SampleAt sent L k v s)
    (hok : ok { s with user := { s.user with loop := .tx } })
    (hroom : ¬ TxFull sampleConfig.burst s) (hL : 0 < L) : ∃ s' t',
      Reach (workerSys .little sampleConfig ok) (WorkerStart .little sampleConfig)
        ⟨(s', t'), fun _ => .idle⟩ ∧
      SampleAt (sent + UInt64.ofNat (min 2000 L)) (L - min 2000 L) (k + 1)
        (prodReserve v s.tx.consumer sampleConfig.burst).2 s' := by
  obtain ⟨t', hreach⟩ := source_iteration rfl h hs.loop hs.stop hok
  obtain ⟨n, hn, hcycle⟩ := txPart_run sampleConfig rfl rfl (by decide)
    (s := { s with user := { s.user with loop := .tx } }) hs.gen hs.comp
  obtain ⟨hpackets, hdrops, hcycles, hloop, hstop⟩ := hcycle.counts
  have hn : n.toNat = min 2000 L := by
    have hslots : txSlots sampleConfig.burst { s with user := { s.user with loop := .tx } } =
        sampleConfig.burst := if_neg hroom
    rw [hn, DpConfig.queues, if_pos (by decide), hslots, ← hs.frames]
    rfl
  have hne : n ≠ 0 := by
    rintro rfl
    rw [UInt32.toNat_zero] at hn
    omega
  refine ⟨_, t', hreach, hcycle.gen, ?_, ?_, hcycle.comp, ?_, ?_, ?_, hloop, ?_⟩
  · rw [← hn]
    exact Nat.eq_sub_of_add_eq (hcycle.frames.trans hs.frames)
  · rw [hcycle.view, ← hs.view]
  · rw [hpackets, ← hn, ← hs.packets]
  · rw [hdrops, if_neg hne, UInt64.add_zero]
    exact hs.drops
  · rw [hcycles, ← hs.cycles]
  · rw [hstop]
    exact hs.stop

theorem workerSys_kernel {e : Endian} {cfg : DpConfig} {ok : Xsk Worker → Prop} {s s' : Xsk Worker}
    (h : priv s' = priv s) (t : Totals) :
    (workerSys e cfg ok).env (s, t) (s', countTotals s s' t) := ⟨⟨s.user.stop, h⟩, rfl⟩

/-- After one iteration: all of the first batch is sent. -/
theorem sample_first (ok : Xsk Worker → Prop)
    (hok : ∀ s : Xsk Worker, sampleConfig.burst.toNat ≤ s.pool.available → ok s) : ∃ s t,
      Reach (workerSys .little sampleConfig ok) (WorkerStart .little sampleConfig)
        ⟨(s, t), fun _ => .idle⟩ ∧ SampleAt 2000 48 1 ⟨2047, 2048, 16, 2000, 0⟩ s := by
  obtain ⟨s, hstart, hcons, hs⟩ := sample_init
  have hroom : ¬ TxFull sampleConfig.burst s := by
    rw [TxFull, hs.view, hcons]
    decide
  have hinitial : Reach (workerSys .little sampleConfig ok) (WorkerStart .little sampleConfig)
    ⟨(s, ⟨0, 0⟩), fun _ => .idle⟩ := Reach.initial hstart
  obtain ⟨s', t', hreach, hs'⟩ := sample_cycle hinitial hs
    (hok _ (by rw [show FramePool.available _ = 2048 from hs.frames]; decide)) hroom (by decide)
  rw [hcons] at hs'
  exact ⟨s', t', hreach, hs'⟩

/-- After a second one, before which the kernel has taken the first batch: the 48 frames left in
the pool are sent, of a batch of 2000. -/
theorem sample_second : ∃ s t,
    Reach (workerSys .little sampleConfig fun _ => True) (WorkerStart .little sampleConfig)
      ⟨(s, t), fun _ => .idle⟩ ∧ SampleAt 2048 0 2 ⟨2047, 2048, 16, 4000, 2000⟩ s := by
  obtain ⟨s, t, hreach, hs⟩ := sample_first (fun _ => True) fun _ _ => trivial
  have hkernel : priv { s with tx := { s.tx with consumer := 2000 } } = priv s := rfl
  have hreach' := hreach.tail (.env (workerSys_kernel hkernel t))
  have hroom : ¬ TxFull sampleConfig.burst { s with tx := { s.tx with consumer := 2000 } } := by
    rw [TxFull]
    dsimp only
    rw [hs.view]
    decide
  obtain ⟨s', t', hreach₂, hs'⟩ := sample_cycle hreach'
    ⟨hs.gen, hs.frames, hs.view, hs.comp, hs.packets, hs.drops, hs.cycles, hs.loop, hs.stop⟩
    trivial hroom (by decide)
  have hview : (prodReserve ⟨2047, 2048, 16, 2000, 0⟩ 2000 sampleConfig.burst).2 =
      ⟨2047, 2048, 16, 4000, 2000⟩ := by decide
  have hsent : (2000 : UInt64) + UInt64.ofNat (min 2000 48) = 2048 := by decide
  rw [hsent] at hs'
  dsimp only at hs'
  rw [hview] at hs'
  exact ⟨s', t', hreach₂, hs'⟩

end Rewsr.Dataplane
