import Rewsr.Dataplane.Loop
import Rewsr.Net.Proof.Bounds
import Rewsr.Xdp.Proof.Area
import Rewsr.Xdp.Proof.Calls
import Rewsr.Xdp.Proof.Keeps

/-!
# The worker's counters

The counters are statements about what only the worker writes: its own fields, the descriptors it
has queued, and the ring counters on its side (`Own`). Nothing the kernel does changes that part
(`stable_own`), so that a burst is followed step by step with the kernel running in between.

* `rxBurst_triple`: a receive burst counts each frame it releases once, as a packet or as an error.
* `txBurst_now`: a transmit burst queues as many frames as the ring, the pool and the chunk size
  allow in the state it starts from (`DpConfig.queues`), and keeps whatever its steps keep
  (`TxSteps`).
-/

namespace Rewsr.Dataplane

open Interleave Counter Rewsr.Ring Rewsr.Net Rewsr.Wire Rewsr.Xdp

/-! ## What the counters are about -/

/-- The part of the state the counters are about: what only the worker writes. -/
structure Own where
  user : Worker
  accepted : List (UInt64 × UInt32)
  rxConsumer : UInt32
  txProducer : UInt32
  frameSize : UInt32

def own (s : Xsk Worker) : Own :=
  { user := { s.user with stop := false }, accepted := s.accepted, rxConsumer := s.rx.consumer
    txProducer := s.tx.producer, frameSize := s.frameSize }

def data (x : Xsk Worker × Totals) : Own × Totals := (own x.1, x.2)

section
variable (e : Endian) (cfg : DpConfig)

/-- The length of the frames the worker's generator makes. -/
def DpConfig.frameLen : Nat := 42 + cfg.plen.toNat

/-- What holds at every step. -/
structure DataInv (d : Own × Totals) : Prop where
  frameSize : d.1.frameSize = 2048
  gen : cfg.role.transmits → 8 ≤ cfg.plen.toNat ∧ cfg.plen.toNat ≤ 2048 ∧
    ∃ n, d.1.user.gen = genAt e cfg.flow cfg.plen.toNat n
  rxPackets : d.1.user.stats.rxPackets = UInt64.ofNat (acceptedFrames e d.1.user).length
  rxBytes : d.1.user.stats.rxBytes =
    UInt64.ofNat ((acceptedFrames e d.1.user).map List.length).sum
  rxAll : d.1.user.stats.rxPackets + d.1.user.stats.parseErrors =
    UInt64.ofNat d.1.user.seen.length
  lens : ∀ q ∈ d.1.accepted, q.2.toNat = cfg.frameLen
  fills : ∀ r ∈ d.1.user.fills, r.toNat = if cfg.frameLen ≤ 2048 then cfg.frameLen else 0

/-- The counters, with `r` frames counted and not yet released, `t` descriptors written and not yet
submitted, and `p` of them not yet counted. `exact` stands for runs without partial bursts. -/
structure Counts (exact : Prop) (r t p : Nat) (d : Own × Totals) : Prop where
  released : d.1.user.seen.length = d.2.released + r
  submitted : d.1.accepted.length = d.2.submitted + t
  packets : ∃ k, d.1.accepted.length = k + p ∧ d.1.user.stats.txPackets = UInt64.ofNat k ∧
    d.1.user.stats.txBytes = UInt64.ofNat (k * cfg.frameLen)
  drops : exact → d.1.user.stats.txPackets + d.1.user.stats.txDrops =
    UInt64.ofNat (cfg.burst.toNat * d.1.user.txCycles)

/-- Packets in both directions. -/
def total (d : Own × Totals) : Nat := (acceptedFrames e d.1.user).length + d.1.accepted.length

/-- The counters inside a part of an iteration, with `total` between two bounds. -/
structure Mid (exact : Prop) (l : LoopAt) (r t p M N : Nat) (d : Own × Totals) : Prop
    extends Counts cfg exact r t p d where
  lo : M ≤ total e d
  hi : total e d ≤ N
  loop : d.1.user.loop = l

/-! ## The context of the loop -/

/-- The context of the worker's calls: the kernel may do anything on its side, and another thread
may set `stop`. `I` is an invariant of the worker's own data. -/
def workerCtx (I : Own × Totals → Prop) : Ctx (Xsk Worker × Totals) where
  inv x := I (data x)
  rely x y := (∃ stop, priv y.1 = priv { x.1 with user := { x.1.user with stop } }) ∧ y.2 = x.2
  guar _ _ := True
  refl x := ⟨⟨x.1.user.stop, rfl⟩, rfl⟩
  trans {x y z} h h' := by
    obtain ⟨⟨stop, hxy⟩, ht⟩ := h
    obtain ⟨⟨stop', hyz⟩, ht'⟩ := h'
    refine ⟨⟨stop', hyz.trans ?_⟩, ht'.trans ht⟩
    exact congrArg (fun s : Xsk Worker => { s with user := { s.user with stop := stop' } }) hxy

variable {I : Own × Totals → Prop}

/-- Assertions about the worker's own data are stable. -/
theorem stable_own {P : Xsk Worker × Totals → Prop} (hP : ∀ (x : Xsk Worker × Totals) stop,
    P (priv { x.1 with user := { x.1.user with stop } }, x.2) ↔ P x) : Stable (workerCtx I) P := by
  intro x y h hr _
  obtain ⟨⟨stop, hp⟩, ht⟩ := hr
  have hy := hP y y.1.user.stop
  rw [← hy]
  change P (priv y.1, y.2)
  rw [hp, ht, hP x stop]
  exact h

theorem stable_data (A : Own × Totals → Prop) : Stable (workerCtx I) fun x => A (data x) :=
  stable_own fun _ _ => Iff.rfl

theorem countTotals_same {s s' : Xsk Worker} (h : own s' = own s) (t : Totals) :
    countTotals s s' t = t := by
  have hc : s'.rx.consumer = s.rx.consumer := congrArg Own.rxConsumer h
  have hp : s'.tx.producer = s.tx.producer := congrArg Own.txProducer h
  rw [countTotals, hc, hp, gap_self, gap_self]
  rfl

theorem data_same {x : Xsk Worker × Totals} {s' : Xsk Worker} (h : own s' = own x.1) :
    data (s', countTotals x.1 s' x.2) = data x := by
  rw [data, countTotals_same h, h]
  rfl

/-- The frame rule for calls that do not touch that data. -/
theorem keeps_triple {α : Type*} {p : Prog (Xsk Worker) α} (h : p.Keeps own)
    {A : Own × Totals → Prop} :
    Triple (workerCtx I) (fun x => A (data x)) (p.metered countTotals) fun _ x => A (data x) := by
  refine (h.metered (f := countTotals) fun s s' t hs => countTotals_same hs t).triple ?_ ?_ ?_
    (stable_data A)
  · intro x y hxy hi
    change I (data y)
    rw [show data y = data x from hxy]
    exact hi
  · exact fun _ _ _ => trivial
  · intro x y hxy hx
    rw [show data y = data x from hxy]
    exact hx

/-- A single step on that data. -/
theorem data_triple {α : Type*} {g : Xsk Worker → α × Xsk Worker} {A : Own × Totals → Prop}
    {B : α → Own × Totals → Prop} (h : ∀ x, A (data x) → I (data x) →
      let d := data ((g x.1).2, countTotals x.1 (g x.1).2 x.2)
      I d ∧ B (g x.1).1 d) :
    Triple (workerCtx I) (fun x => A (data x)) ((Prog.atomic g).metered countTotals)
      fun a x => B a (data x) := by
  refine Triple.metered_atomic (stable_data A) (fun a => stable_data (B a)) fun x hx hi => ?_
  obtain ⟨hi', ha⟩ := h x hx hi
  exact ⟨hi', trivial, ha⟩

/-- A single step that leaves that data alone. -/
theorem same_triple {α : Type*} {g : Xsk Worker → α × Xsk Worker} {A : Own × Totals → Prop}
    {B : α → Own × Totals → Prop} (hg : ∀ s, own (g s).2 = own s)
    (h : ∀ s t, A (own s, t) → B (g s).1 (own s, t)) :
    Triple (workerCtx I) (fun x => A (data x)) ((Prog.atomic g).metered countTotals)
      fun a x => B a (data x) := by
  refine data_triple fun x hx hi => ?_
  dsimp only
  rw [data_same (hg x.1)]
  exact ⟨hi, h x.1 x.2 hx⟩

end

/-! ## Receiving -/

section
variable {e : Endian} {cfg : DpConfig} {exact : Prop} {l : LoopAt} {r t p M N : Nat}

theorem rxCount_seen (frame : List UInt8) (w : Worker) :
    (rxCount e frame w).seen = w.seen ++ [frame] := by
  unfold rxCount
  dsimp only
  split
  · rfl
  · rfl

theorem rxCount_stop (frame : List UInt8) (w : Worker) (stop : Bool) :
    rxCount e frame { w with stop } = { rxCount e frame w with stop } := by
  unfold rxCount
  dsimp only
  split
  · rfl
  · rfl

/-- What `rx_count` leaves as it is. -/
theorem rxCount_rest (frame : List UInt8) (w : Worker) :
    (rxCount e frame w).gen = w.gen ∧ (rxCount e frame w).fills = w.fills ∧
      (rxCount e frame w).loop = w.loop ∧ (rxCount e frame w).txCycles = w.txCycles ∧
      (rxCount e frame w).stats.txPackets = w.stats.txPackets ∧
      (rxCount e frame w).stats.txBytes = w.stats.txBytes ∧
      (rxCount e frame w).stats.txDrops = w.stats.txDrops := by
  unfold rxCount
  dsimp only
  split
  · exact ⟨rfl, rfl, rfl, rfl, rfl, rfl, rfl⟩
  · exact ⟨rfl, rfl, rfl, rfl, rfl, rfl, rfl⟩

/-- The accepted frames after one more, and what `rx_count` adds for it. -/
theorem rxCount_frames (frame : List UInt8) (w : Worker) :
    (acceptedFrames e (rxCount e frame w) = acceptedFrames e w ++ [frame] ∧
      (rxCount e frame w).stats.rxPackets = w.stats.rxPackets + 1 ∧
      (rxCount e frame w).stats.rxBytes = w.stats.rxBytes + UInt64.ofNat frame.length ∧
      (rxCount e frame w).stats.parseErrors = w.stats.parseErrors) ∨
    (acceptedFrames e (rxCount e frame w) = acceptedFrames e w ∧
      (rxCount e frame w).stats.rxPackets = w.stats.rxPackets ∧
      (rxCount e frame w).stats.rxBytes = w.stats.rxBytes ∧
      (rxCount e frame w).stats.parseErrors = w.stats.parseErrors + 1) := by
  have hseen := rxCount_seen (e := e) frame w
  rw [acceptedFrames, hseen, List.filter_append, List.filter_singleton, dpAccepts, acceptedFrames]
  unfold rxCount
  dsimp only
  split
  · exact .inl ⟨rfl, rfl, rfl, rfl⟩
  · exact .inr ⟨List.append_nil _, rfl, rfl, rfl⟩

/-- The receive counters are about the frames that `rx_count` was given. -/
structure Counted (e : Endian) (w : Worker) : Prop where
  rxPackets : w.stats.rxPackets = UInt64.ofNat (acceptedFrames e w).length
  rxBytes : w.stats.rxBytes = UInt64.ofNat ((acceptedFrames e w).map List.length).sum
  rxAll : w.stats.rxPackets + w.stats.parseErrors = UInt64.ofNat w.seen.length

theorem rxCount_counted {w : Worker} (h : Counted e w) (frame : List UInt8) :
    Counted e (rxCount e frame w) := by
  refine ⟨?_, ?_, ?_⟩
  · rcases rxCount_frames (e := e) frame w with ⟨hf, hp, -⟩ | ⟨hf, hp, -⟩
    · rw [hp, h.rxPackets, hf, List.length_append, UInt64.ofNat_add]
      rfl
    · rw [hp, h.rxPackets, hf]
  · rcases rxCount_frames (e := e) frame w with ⟨hf, -, hb, -⟩ | ⟨hf, -, hb, -⟩
    · rw [hb, h.rxBytes, hf, List.map_append, List.sum_append, UInt64.ofNat_add]
      simp
    · rw [hb, h.rxBytes, hf]
  · rw [rxCount_seen, List.length_append, List.length_singleton, UInt64.ofNat_add, ← h.rxAll]
    rcases rxCount_frames (e := e) frame w with ⟨-, hp, -, he⟩ | ⟨-, hp, -, he⟩
    · rw [hp, he, UInt64.add_assoc, UInt64.add_comm 1, ← UInt64.add_assoc]
      rfl
    · rw [hp, he, UInt64.add_assoc]
      rfl

/-- The state's data after one frame. -/
def received (e : Endian) (frame : List UInt8) (d : Own × Totals) : Own × Totals :=
  ({ d.1 with user := rxCount e frame d.1.user }, d.2)

theorem received_inv {d : Own × Totals} (h : DataInv e cfg d) (frame : List UInt8) :
    DataInv e cfg (received e frame d) := by
  obtain ⟨hgen, hfills, -⟩ := rxCount_rest (e := e) frame d.1.user
  obtain ⟨hp, hb, hall⟩ := rxCount_counted ⟨h.rxPackets, h.rxBytes, h.rxAll⟩ frame
  refine ⟨h.frameSize, fun ht => ?_, hp, hb, hall, h.lens, ?_⟩
  · obtain ⟨h8, h2048, n, hn⟩ := h.gen ht
    exact ⟨h8, h2048, n, hgen.trans hn⟩
  · change ∀ r ∈ (rxCount e frame d.1.user).fills, _
    rw [hfills]
    exact h.fills

theorem received_mid {d : Own × Totals} (h : Mid e cfg exact l r t p M (N + r) d)
    (frame : List UInt8) : Mid e cfg exact l (r + 1) t p M (N + (r + 1)) (received e frame d) := by
  obtain ⟨-, -, hloop, hcycles, hpackets, hbytes, hdrops⟩ := rxCount_rest (e := e) frame d.1.user
  have htotal : total e d ≤ total e (received e frame d) ∧
      total e (received e frame d) ≤ total e d + 1 := by
    unfold total received
    rcases rxCount_frames (e := e) frame d.1.user with ⟨hf, -⟩ | ⟨hf, -⟩
    · rw [hf, List.length_append, List.length_singleton]
      dsimp only
      omega
    · rw [hf]
      dsimp only
      omega
  have hlo := h.lo
  have hhi := h.hi
  refine ⟨⟨?_, h.submitted, ?_, ?_⟩, by omega, by omega, hloop.trans h.loop⟩
  · change (rxCount e frame d.1.user).seen.length = _
    rw [rxCount_seen, List.length_append, List.length_singleton, h.released]
    rfl
  · change ∃ k, _ ∧ (rxCount e frame d.1.user).stats.txPackets = _ ∧
      (rxCount e frame d.1.user).stats.txBytes = _
    rw [hpackets, hbytes]
    exact h.packets
  · change exact → (rxCount e frame d.1.user).stats.txPackets +
      (rxCount e frame d.1.user).stats.txDrops =
        UInt64.ofNat (_ * (rxCount e frame d.1.user).txCycles)
    rw [hpackets, hdrops, hcycles]
    exact h.drops

/-- One round of a receive burst. -/
theorem data_rxOne (slot : UInt32) (x : Xsk Worker × Totals) : ∃ frame,
    data (rxOne (some (rxCount e)) slot x.1,
      countTotals x.1 (rxOne (some (rxCount e)) slot x.1) x.2) = received e frame (data x) := by
  refine ⟨readArea x.1.area (x.1.rx.at slot).addr (x.1.rx.at slot).len.toNat, ?_⟩
  have hcount : countTotals x.1 (rxOne (some (rxCount e)) slot x.1) x.2 = x.2 := by
    change Totals.mk (x.2.released + gap x.1.rx.consumer x.1.rx.consumer)
      (x.2.submitted + gap x.1.tx.producer x.1.tx.producer) = x.2
    rw [gap_self, gap_self]
    rfl
  rw [hcount, received, data, data, own, own, rxCount_stop]
  rfl

theorem rxLoop_triple (idx : UInt32) (n : Nat) (i : UInt32) :
    Triple (workerCtx (DataInv e cfg)) (fun x => Mid e cfg exact l r t p M (N + r) (data x))
      ((rxLoop (some (rxCount e)) idx n i).metered countTotals)
      fun _ x => Mid e cfg exact l (r + n) t p M (N + (r + n)) (data x) := by
  induction n generalizing r i with
  | zero => exact Triple.pure (stable_data _) fun x hx _ => hx
  | succ n ih =>
    rw [rxLoop, Prog.metered_bind]
    refine Triple.bind (Q := fun _ x => Mid e cfg exact l (r + 1) t p M (N + (r + 1)) (data x))
      (data_triple fun x hx hi => ?_) fun _ => ?_
    · obtain ⟨frame, hdata⟩ := data_rxOne (e := e) (idx + i) x
      dsimp only
      rw [hdata]
      exact ⟨received_inv hi frame, received_mid hx frame⟩
    · have h := ih (r := r + 1) (i + 1)
      rwa [Nat.add_right_comm r 1 n] at h

theorem Mid.hi_mono {d : Own × Totals} (h : Mid e cfg exact l r t p M N d) {N' : Nat}
    (hN : N ≤ N') : Mid e cfg exact l r t p M N' d :=
  ⟨h.toCounts, h.lo, Nat.le_trans h.hi hN, h.loop⟩

/-- The release of what a burst has received. -/
theorem rxRelease_triple (got : UInt32) :
    Triple (workerCtx (DataInv e cfg)) (fun x => Mid e cfg exact l got.toNat t p M N (data x))
      ((rxRing.consRelease got id).metered countTotals)
      fun _ x => Mid e cfg exact l 0 t p M N (data x) := by
  rw [Ref.consRelease, Prog.metered_bind]
  refine Triple.bind (Q := fun c x => c = (data x).1.rxConsumer ∧
    Mid e cfg exact l got.toNat t p M N (data x))
    (same_triple (B := fun c d => c = d.1.rxConsumer ∧ Mid e cfg exact l got.toNat t p M N d)
      (fun s => rfl) fun s t hx => ⟨rfl, hx⟩) fun c => ?_
  refine data_triple (A := fun d => c = d.1.rxConsumer ∧ Mid e cfg exact l got.toNat t p M N d)
    (B := fun _ d => Mid e cfg exact l 0 t p M N d) fun x hx hi => ?_
  obtain ⟨rfl, hmid⟩ := hx
  refine ⟨⟨hi.frameSize, hi.gen, hi.rxPackets, hi.rxBytes, hi.rxAll, hi.lens, hi.fills⟩,
    ⟨?_, ?_, hmid.packets, hmid.drops⟩, hmid.lo, hmid.hi, hmid.loop⟩
  · have hgap := gap_add_self x.1.rx.consumer got
    have hrel := hmid.released
    change x.1.user.seen.length = x.2.released + gap x.1.rx.consumer (x.1.rx.consumer + got) + 0
    change x.1.user.seen.length = x.2.released + got.toNat at hrel
    omega
  · have hgap := gap_self x.1.tx.producer
    have hsub := hmid.submitted
    change x.1.accepted.length = x.2.submitted + gap x.1.tx.producer x.1.tx.producer + t
    change x.1.accepted.length = x.2.submitted + t at hsub
    omega

/-- **A receive burst** counts and releases the same frames, at most as many as it asks for. -/
theorem rxBurst_triple (nb : UInt32) :
    Triple (workerCtx (DataInv e cfg)) (fun x => Mid e cfg exact l 0 t p M N (data x))
      ((rxBurst nb (some (rxCount e))).metered countTotals)
      fun _ x => Mid e cfg exact l 0 t p M (N + nb.toNat) (data x) := by
  rw [rxBurst, Prog.metered_bind]
  refine Triple.bind (Q := fun res x => res.1.toNat ≤ nb.toNat ∧
    Mid e cfg exact l 0 t p M N (data x))
    (same_triple (B := fun (res : UInt32 × UInt32) d => res.1.toNat ≤ nb.toNat ∧
        Mid e cfg exact l 0 t p M N d)
      (fun s => rfl) fun s t hx => ⟨consPeek_le _ _ _, hx⟩) fun res => Triple.of_fact fun hle => ?_
  obtain ⟨got, idx⟩ := res
  simp only [Prog.metered_bind]
  have hloop : Triple (workerCtx (DataInv e cfg))
      (fun x => Mid e cfg exact l 0 t p M (N + 0) (data x)) _ _ := rxLoop_triple idx got.toNat 0
  rw [Nat.zero_add] at hloop
  refine Triple.bind hloop fun _ => Triple.bind (rxRelease_triple got) fun _ => ?_
  refine Triple.bind (keeps_triple (fillRefill_keeps (fun _ _ _ _ => rfl) got)) fun _ => ?_
  exact Triple.pure (stable_data _) fun x hx _ => hx.hi_mono (Nat.add_le_add_left hle N)

end

/-! ## Transmitting -/

section
variable (e : Endian) (cfg : DpConfig)

/-- The data after a frame is written and queued in the chunk `addr`, by a generator that has
emitted `n`. -/
def queued (n : Nat) (addr : UInt64) (d : Own × Totals) : Own × Totals :=
  ({ d.1 with
      user := { d.1.user with
        gen := genAt e cfg.flow cfg.plen.toNat (n + 1)
        fills := d.1.user.fills ++ [UInt32.ofNat cfg.frameLen] }
      accepted := d.1.accepted ++ [(addr, UInt32.ofNat cfg.frameLen)] }, d.2)

/-- The data after a frame that does not fit its chunk. -/
def skipped (d : Own × Totals) : Own × Totals :=
  ({ d.1 with user := { d.1.user with fills := d.1.user.fills ++ [0] } }, d.2)

/-- A generator of the worker that `dpWorkerInit` accepts. -/
def GenOk (d : Own × Totals) : Prop :=
  d.1.frameSize = 2048 ∧ 8 ≤ cfg.plen.toNat ∧ cfg.plen.toNat ≤ 2048 ∧
    ∃ n, d.1.user.gen = genAt e cfg.flow cfg.plen.toNat n

/-- What the rounds of a transmit burst have to keep, with `A k` after `k` frames queued. -/
structure TxSteps (I : Own × Totals → Prop) (A : Nat → Own × Totals → Prop) : Prop where
  gen : ∀ {k d}, A k d → I d → GenOk e cfg d
  queued : ∀ {k d}, A k d → I d → cfg.frameLen ≤ 2048 → ∀ n addr,
    I (queued e cfg n addr d) ∧ A (k + 1) (queued e cfg n addr d)
  skipped : ∀ {k d}, A k d → I d → ¬ cfg.frameLen ≤ 2048 → I (skipped d) ∧ A k (skipped d)

/-- How many frames a burst queues of the `n` slots it reserved and `L` free frames. -/
def DpConfig.queues (n L : Nat) : Nat := if cfg.frameLen ≤ 2048 then min n L else 0

end

section
variable {e : Endian} {cfg : DpConfig}

theorem DpConfig.frameLen_toNat (h : cfg.plen.toNat ≤ 2048) :
    (UInt32.ofNat cfg.frameLen).toNat = cfg.frameLen := by
  unfold DpConfig.frameLen
  exact UInt32.toNat_ofNat_of_lt' (Nat.lt_of_le_of_lt (Nat.add_le_add_left h 42) (by decide))

theorem DpConfig.frameLen_ne_zero (h : cfg.plen.toNat ≤ 2048) : UInt32.ofNat cfg.frameLen ≠ 0 := by
  intro h0
  have := congrArg UInt32.toNat h0
  rw [cfg.frameLen_toNat h, DpConfig.frameLen, UInt32.toNat_zero] at this
  omega

/-- `tx_fill` on a buffer with room for the frame. -/
theorem txFill_fits {w : Worker} {n : Nat} (hw : w.gen = genAt e cfg.flow cfg.plen.toNat n)
    (h8 : 8 ≤ cfg.plen.toNat) (h2048 : cfg.plen.toNat ≤ 2048) {buf : List UInt8}
    (hbuf : cfg.frameLen ≤ buf.length) : ∃ buf', txFill buf w = (UInt32.ofNat cfg.frameLen, buf',
      { w with gen := genAt e cfg.flow cfg.plen.toNat (n + 1)
               fills := w.fills ++ [UInt32.ofNat cfg.frameLen] }) := by
  refine ⟨genFrame e cfg.flow cfg.plen.toNat n ++ buf.drop (42 + cfg.plen.toNat), ?_⟩
  unfold txFill
  rw [hw, pktgenNext_eq h8 h2048 n hbuf]
  rfl

/-- `tx_fill` on a buffer without. -/
theorem txFill_short {w : Worker} {buf : List UInt8} (hbuf : buf.length < w.gen.frameLen) :
    txFill buf w = (0, buf, { w with fills := w.fills ++ [0] }) := by
  unfold txFill
  rw [pktgenNext_short hbuf]
  rfl

/-- A round with a free frame that has room. -/
theorem txOne_fits {x : Xsk Worker × Totals} (hgen : GenOk e cfg (data x))
    (hfit : cfg.frameLen ≤ 2048) {addr : UInt64} {stack : List UInt64}
    (hpool : x.1.pool.stack = addr :: stack) (slot : UInt32) : ∃ n s',
    txOne (some txFill) slot x.1 = (.queued, s') ∧ s'.pool.stack = stack ∧
      data (s', countTotals x.1 s' x.2) = queued e cfg n addr (data x) := by
  obtain ⟨hsize, h8, h2048, n, hn⟩ := hgen
  have hcap : x.1.frameSize.toNat = 2048 := congrArg UInt32.toNat hsize
  have hbuf : cfg.frameLen ≤ (readArea x.1.area addr x.1.frameSize.toNat).length := by
    rw [length_readArea, hcap]
    exact hfit
  obtain ⟨buf', hfill⟩ := txFill_fits (w := x.1.user) hn h8 h2048 hbuf
  have hcb : Xdp.txFill (some txFill) x.1.frameSize addr x.1.area x.1.user =
      (UInt32.ofNat cfg.frameLen, writeArea x.1.area addr (buf'.take x.1.frameSize.toNat),
        { x.1.user with gen := genAt e cfg.flow cfg.plen.toNat (n + 1)
                        fills := x.1.user.fills ++ [UInt32.ofNat cfg.frameLen] }) := by
    simp only [Xdp.txFill, hfill]
  refine ⟨n, _, txOne_queued slot hpool ?_, rfl, ?_⟩
  · rw [hcb]
    exact cfg.frameLen_ne_zero h2048
  · rw [data, queued, countTotals, own, hcb]
    dsimp only [SharedRing.put]
    rw [gap_self, gap_self]
    rfl

/-- A round with a free frame that does not. -/
theorem txOne_short {x : Xsk Worker × Totals} (hgen : GenOk e cfg (data x))
    (hfit : ¬ cfg.frameLen ≤ 2048) {addr : UInt64} {stack : List UInt64}
    (hpool : x.1.pool.stack = addr :: stack) (slot : UInt32) : ∃ s',
    txOne (some txFill) slot x.1 = (.skipped, s') ∧
      data (s', countTotals x.1 s' x.2) = skipped (data x) := by
  obtain ⟨hsize, -, -, n, hn⟩ := hgen
  have hcap : x.1.frameSize.toNat = 2048 := congrArg UInt32.toNat hsize
  have hlen : x.1.user.gen.frameLen = cfg.frameLen := congrArg Pktgen.frameLen hn
  have hbuf : (readArea x.1.area addr x.1.frameSize.toNat).length < x.1.user.gen.frameLen := by
    rw [length_readArea, hcap, hlen]
    exact Nat.lt_of_not_le hfit
  have hone : txOne (some txFill) slot x.1 = (.skipped, { x.1 with
      pool := (FramePool.free { x.1.pool with stack } addr).2
      area := writeArea x.1.area addr
        ((readArea x.1.area addr x.1.frameSize.toNat).take x.1.frameSize.toNat)
      user := { x.1.user with fills := x.1.user.fills ++ [0] } }) := by
    unfold txOne FramePool.alloc Xdp.txFill
    simp only [hpool, txFill_short hbuf, if_pos]
  refine ⟨_, hone, ?_⟩
  rw [data, skipped, countTotals, own]
  dsimp only
  rw [gap_self, gap_self]
  rfl

variable {I : Own × Totals → Prop} {A : Nat → Own × Totals → Prop}

/-- After a round that found the pool empty, or queued its frame. -/
def AfterRound (A : Nat → Own × Totals → Prop) (L k : Nat) : TxRound → Xsk Worker × Totals → Prop
  | .empty, x => L = k ∧ A k (data x) ∧ x.1.pool.stack.length + k = L
  | .skipped, _ => False
  | .queued, x => A (k + 1) (data x) ∧ x.1.pool.stack.length + (k + 1) = L

theorem stable_afterRound (L k : Nat) (r : TxRound) :
    Stable (workerCtx I) (AfterRound A L k r) := by
  cases r with
  | empty => exact stable_own fun _ _ => Iff.rfl
  | skipped => exact stable_own fun _ _ => Iff.rfl
  | queued => exact stable_own fun _ _ => Iff.rfl

theorem txRound_triple (hA : TxSteps e cfg I A) (hfit : cfg.frameLen ≤ 2048) (L k : Nat)
    (slot : UInt32) :
    Triple (workerCtx I) (fun x => A k (data x) ∧ x.1.pool.stack.length + k = L)
      ((Prog.atomic (txOne (some txFill) slot)).metered countTotals) (AfterRound A L k) := by
  refine Triple.metered_atomic (stable_own fun _ _ => Iff.rfl) (stable_afterRound L k)
    fun x hx hi => ?_
  obtain ⟨ha, hlen⟩ := hx
  cases hpool : x.1.pool.stack with
  | nil =>
    have hone : txOne (some txFill) slot x.1 = (.empty, x.1) := by
      rw [txOne, FramePool.alloc, hpool]
    rw [hone]
    dsimp only
    rw [countTotals_same rfl]
    refine ⟨hi, trivial, ?_, ha, hlen⟩
    rw [hpool, List.length_nil, Nat.zero_add] at hlen
    exact hlen.symm
  | cons addr stack =>
    obtain ⟨n, s', hone, hstack, hdata⟩ := txOne_fits (hA.gen ha hi) hfit hpool slot
    obtain ⟨hi', ha'⟩ := hA.queued ha hi hfit n addr
    rw [← hdata] at hi' ha'
    rw [hone]
    refine ⟨hi', trivial, ha', ?_⟩
    rw [hpool, List.length_cons] at hlen
    dsimp only
    rw [hstack]
    omega

/-- The loop of a burst whose frames have room queues one for each free frame. -/
theorem txLoop_fits (hA : TxSteps e cfg I A) (hfit : cfg.frameLen ≤ 2048) (L : Nat) (idx : UInt32)
    (n : Nat) (q : UInt32) (hlt : q.toNat + n < 2 ^ 32) :
    Triple (workerCtx I) (fun x => A q.toNat (data x) ∧ x.1.pool.stack.length + q.toNat = L)
      ((txLoop (some txFill) idx n q).metered countTotals)
      fun r x => r.toNat = min (q.toNat + n) L ∧ A r.toNat (data x) ∧
        x.1.pool.stack.length + r.toNat = L := by
  induction n generalizing q with
  | zero =>
    refine Triple.pure (stable_own fun _ _ => Iff.rfl) fun x hx _ => ⟨?_, hx⟩
    have hlen := hx.2
    omega
  | succ n ih =>
    have hsucc : (q + 1).toNat = q.toNat + 1 := by
      rw [UInt32.toNat_add, UInt32.toNat_one]
      omega
    rw [txLoop, Prog.metered_bind]
    refine Triple.bind (txRound_triple hA hfit L q.toNat (idx + q)) fun r => ?_
    cases r with
    | empty =>
      refine Triple.pure (stable_own fun _ _ => Iff.rfl) fun x hx _ => ⟨?_, hx.2⟩
      have hlen := hx.1
      omega
    | skipped => exact fun x hx => hx.elim
    | queued =>
      have h := ih (q + 1) (by omega)
      rw [hsucc] at h
      rwa [Nat.add_assoc q.toNat, Nat.add_comm 1 n] at h

/-- The loop of a burst whose frames do not fit queues nothing. -/
theorem txLoop_short (hA : TxSteps e cfg I A) (hfit : ¬ cfg.frameLen ≤ 2048) (idx : UInt32)
    (n : Nat) : Triple (workerCtx I) (fun x => A 0 (data x))
      ((txLoop (some txFill) idx n 0).metered countTotals)
      fun r x => r.toNat = 0 ∧ A 0 (data x) := by
  induction n with
  | zero => exact Triple.pure ((stable_data _).and_fact _) fun x hx _ => ⟨rfl, hx⟩
  | succ n ih =>
    rw [txLoop, Prog.metered_bind]
    refine Triple.bind (Q := fun r x => r ≠ .queued ∧ A 0 (data x))
      (data_triple (B := fun r d => r ≠ TxRound.queued ∧ A 0 d) fun x hx hi => ?_)
      fun r => Triple.of_fact fun hr => ?_
    · cases hpool : x.1.pool.stack with
      | nil =>
        have hone : txOne (some txFill) (idx + 0) x.1 = (.empty, x.1) := by
          rw [txOne, FramePool.alloc, hpool]
        rw [hone]
        dsimp only
        rw [countTotals_same rfl]
        exact ⟨hi, (fun hr => by cases hr), hx⟩
      | cons addr stack =>
        obtain ⟨s', hone, hdata⟩ := txOne_short (hA.gen hx hi) hfit hpool (idx + 0)
        obtain ⟨hi', ha'⟩ := hA.skipped hx hi hfit
        rw [← hdata] at hi' ha'
        rw [hone]
        exact ⟨hi', (fun hr => by cases hr), ha'⟩
    · cases r with
      | empty => exact Triple.pure ((stable_data _).and_fact _) fun x hx _ => ⟨rfl, hx⟩
      | skipped => exact ih
      | queued => exact absurd rfl hr

/-- **The loop of a transmit burst.** -/
theorem txLoop_triple (hA : TxSteps e cfg I A) (L : Nat) (idx : UInt32) {n : Nat}
    (hlt : n < 2 ^ 32) :
    Triple (workerCtx I) (fun x => A 0 (data x) ∧ x.1.pool.stack.length = L)
      ((txLoop (some txFill) idx n 0).metered countTotals)
      fun r x => r.toNat = cfg.queues n L ∧ A r.toNat (data x) ∧
        (cfg.frameLen ≤ 2048 → x.1.pool.stack.length + r.toNat = L) := by
  unfold DpConfig.queues
  by_cases hfit : cfg.frameLen ≤ 2048
  · rw [if_pos hfit]
    have h := txLoop_fits hA hfit L idx n 0 (by rwa [UInt32.toNat_zero, Nat.zero_add])
    rw [UInt32.toNat_zero, Nat.zero_add] at h
    exact h.mono fun r x hx => ⟨hx.1, hx.2.1, fun _ => hx.2.2⟩
  · rw [if_neg hfit]
    refine ((txLoop_short hA hfit idx n).weaken fun x hx _ => hx.1).mono fun r x hx => ?_
    exact ⟨hx.1, by rw [hx.1]; exact hx.2, fun h => absurd h hfit⟩

/-- The transmit ring has no room for `nb` entries, by either copy of the consumer counter. -/
def TxFull (nb : UInt32) (s : Xsk Worker) : Prop :=
  s.tx.view.size - (s.tx.view.cachedProd - s.tx.view.cachedCons) < nb ∧
    s.tx.view.size - (s.tx.view.cachedProd - s.tx.consumer) < nb

instance (nb : UInt32) (s : Xsk Worker) : Decidable (TxFull nb s) :=
  inferInstanceAs (Decidable (_ ∧ _))

/-- The slots a burst reserves. -/
def txSlots (nb : UInt32) (s : Xsk Worker) : UInt32 := if TxFull nb s then 0 else nb

theorem prodReserve_slots (nb : UInt32) (s : Xsk Worker) :
    (prodReserve s.tx.view s.tx.consumer nb).1.1 = txSlots nb s := by
  unfold txSlots prodReserve
  dsimp only
  split
  · rename_i h1
    split
    · rename_i h2
      have hfull : TxFull nb s := ⟨h1, h2⟩
      rw [if_pos hfull]
    · rename_i h2
      have hfull : ¬ TxFull nb s := fun h => h2 h.2
      rw [if_neg hfull]
  · rename_i h1
    have hfull : ¬ TxFull nb s := fun h => h1 h.1
    rw [if_neg hfull]

/-- The data after `q` descriptors are submitted. -/
def submitted (q : UInt32) (d : Own × Totals) : Own × Totals :=
  ({ d.1 with txProducer := d.1.txProducer + q }, { d.2 with submitted := d.2.submitted + q.toNat })

theorem txSubmit_triple {A B : Own × Totals → Prop} (q : UInt32) (F : FramePool → Prop)
    (h : ∀ d, A d → I d → I (submitted q d) ∧ B (submitted q d)) :
    Triple (workerCtx I) (fun x => A (data x) ∧ F x.1.pool)
      ((txRing.prodSubmit q id).metered countTotals) fun _ x => B (data x) ∧ F x.1.pool := by
  rw [Ref.prodSubmit, Prog.metered_bind]
  refine Triple.bind (Q := fun p x => p = x.1.tx.producer ∧ A (data x) ∧ F x.1.pool)
    (Triple.metered_atomic (stable_own fun _ _ => Iff.rfl)
      (fun _ => stable_own fun _ _ => Iff.rfl) fun x hx hi => ?_) fun p => ?_
  · dsimp only [workerCtx]
    rw [countTotals_same rfl]
    exact ⟨hi, trivial, rfl, hx⟩
  · refine Triple.metered_atomic (stable_own fun _ _ => Iff.rfl)
      (fun _ => stable_own fun _ _ => Iff.rfl) fun x hx hi => ?_
    obtain ⟨rfl, ha, hF⟩ := hx
    have hdata : data (txRing.set { x.1.tx with producer := x.1.tx.producer + q } x.1,
        countTotals x.1 (txRing.set { x.1.tx with producer := x.1.tx.producer + q } x.1) x.2) =
        submitted q (data x) := by
      rw [data, countTotals]
      dsimp only [txRing]
      rw [gap_self, gap_add_self]
      rfl
    obtain ⟨hi', ha'⟩ := h _ ha hi
    rw [← hdata] at hi' ha'
    exact ⟨hi', trivial, ha', hF⟩

/-- **A transmit burst**, from the state that its first step finds. -/
theorem txBurst_now (hA : TxSteps e cfg I A) {B : UInt32 → Own × Totals → Prop}
    (hB : ∀ q d, A q.toNat d → I d → I (submitted q d) ∧ B q (submitted q d)) (nb : UInt32)
    {x : Xsk Worker × Totals} (hx : A 0 (data x)) (hi : I (data x)) :
    Now (workerCtx I) (fun r y => r.toNat = cfg.queues (txSlots nb x.1).toNat x.1.pool.available ∧
        B r (data y) ∧ (cfg.frameLen ≤ 2048 → y.1.pool.available + r.toNat = x.1.pool.available))
      ((txBurst nb (some txFill)).metered countTotals) x := by
  rw [txBurst, Prog.metered_bind]
  refine Now.metered_atomic_bind (Q := fun (res : UInt32 × UInt32) y => res.1 = txSlots nb x.1 ∧
    A 0 (data y) ∧ y.1.pool.stack.length = x.1.pool.available) ?_ fun res => Triple.of_fact ?_
  · refine ⟨?_, trivial, prodReserve_slots nb x.1, ?_, rfl⟩
    · change I (data (_, countTotals x.1 _ x.2))
      rw [data_same]
      · exact hi
      · rfl
    · rw [data_same]
      · exact hx
      · rfl
  · obtain ⟨n, idx⟩ := res
    rintro rfl
    simp only [Prog.metered_bind]
    refine Triple.bind (txLoop_triple hA _ idx (UInt32.toNat_lt _)) fun q => ?_
    refine Triple.of_fact fun hq => ?_
    refine Triple.bind (txSubmit_triple (B := B q) q
      (fun pool => cfg.frameLen ≤ 2048 → pool.available + q.toNat = x.1.pool.available)
      fun d => hB q d) fun _ => ?_
    exact Triple.pure (stable_own fun _ _ => Iff.rfl) fun y hy _ => ⟨hq, hy⟩

end

end Rewsr.Dataplane
