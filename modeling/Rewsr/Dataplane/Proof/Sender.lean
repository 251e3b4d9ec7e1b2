import Rewsr.Dataplane.Proof.Loop

/-!
# Which configurations can send

The initialiser accepts a payload of up to 2048 bytes and any batch. `sender_sends_iff` says for
which of them the frames fit their chunks and the batches the transmit ring.
-/

namespace Rewsr.Dataplane

open Interleave Counter Rewsr.Ring Rewsr.Net Rewsr.Xdp

/-! ## What sending means -/

/-- Every `tx_fill` in every run of the worker `w` returns the length of the generator's frames. -/
def FillsFit (e : Endian) (cfg : DpConfig) (w : Xsk Worker) : Prop :=
  ∀ c, Reach (workerSys e cfg fun _ => True) (fun x => x = (w, ⟨0, 0⟩)) c →
    ∀ r ∈ c.mem.1.user.fills, r ≠ 0 ∧ r.toNat = pktgenFrameLen w.user.gen

/-- A state of the worker `w` with its transmit ring idle and drained and at least a batch of free
frames. Its generator has emitted any number of frames, and its pool may have any content: for a
batch that is larger than the UMEM it has more entries than there are frames. -/
structure TxReady (cfg : DpConfig) (w s : Xsk Worker) : Prop where
  frameSize : s.frameSize = w.frameSize
  txSize : s.tx.view.size = w.tx.view.size
  gen : ∃ outs frames, pktgenRun w.user.gen outs = some (frames, s.user.gen)
  idle : s.tx.view.cachedProd = s.tx.producer
  drained : s.tx.consumer = s.tx.producer
  frames : cfg.burst.toNat ≤ s.pool.available

/-- Transmit bursts of the worker from such states. -/
def burstSys (cfg : DpConfig) (w : Xsk Worker) : Sys Unit (Xsk Worker) UInt32 Unit where
  body _ := txBurst cfg.burst (some txFill)
  ok _ _ s := TxReady cfg w s
  env s s' := ∃ stop, priv s' = priv { s with user := { s.user with stop } }

/-- Each of them queues the whole batch. -/
def QueuesAll (cfg : DpConfig) (w : Xsk Worker) : Prop :=
  ∀ c, Reach ((burstSys cfg w).metered countTotals) (fun _ => True) c →
    ∀ x r, c.th () = .busy () x (.ret r) → r = cfg.burst

section
variable {e : Endian} {cfg : DpConfig} {w : Xsk Worker}

/-! ## Frames -/

theorem Initialised.gen (h : Initialised e cfg w) (ht : cfg.role.transmits) :
    8 ≤ cfg.plen.toNat ∧ cfg.plen.toNat ≤ 2048 ∧
      w.user.gen = genAt e cfg.flow cfg.plen.toNat 0 := by
  obtain ⟨gen, huser, hgen⟩ := h.user
  rw [huser]
  exact hgen ht

theorem Initialised.fillsFit (h : Initialised e cfg w) (ht : cfg.role.transmits)
    (hstart : ∃ sys, dpWorkerInit e cfg sys = .ok w) (hfit : cfg.frameLen ≤ 2048) :
    FillsFit e cfg w := by
  intro c hreach r hr
  obtain ⟨-, h2048, hgen⟩ := h.gen ht
  have hreach' : Reach (workerSys e cfg fun _ => True) (WorkerStart e cfg) c := by
    obtain ⟨x, rfl, hrun⟩ := hreach
    exact ⟨_, ⟨rfl, hstart⟩, hrun⟩
  have hi : DataInv e cfg (data c.mem) := ((workerVerified e cfg _).sound hreach').1
  have hlen : r.toNat = cfg.frameLen := (hi.fills r hr).trans (if_pos hfit)
  constructor
  · rintro rfl
    unfold DpConfig.frameLen at hlen
    rw [UInt32.toNat_zero] at hlen
    omega
  · rw [hlen, hgen]
    rfl

/-! ## Batches -/

theorem TxReady.genOk (h : Initialised e cfg w) (ht : cfg.role.transmits) {s : Xsk Worker}
    (hs : TxReady cfg w s) (t : Totals) : GenOk e cfg (data (s, t)) := by
  obtain ⟨h8, h2048, hgen⟩ := h.gen ht
  obtain ⟨outs, frames, hrun⟩ := hs.gen
  rw [hgen, pktgenRun_eq h8 h2048, Option.some_inj, Prod.mk.injEq] at hrun
  exact ⟨hs.frameSize.trans h.frameSize, h8, h2048, _, hrun.2.symm⟩

/-- A drained ring has room for a batch of at most its size. -/
theorem TxReady.not_full (h : Initialised e cfg w) {s : Xsk Worker} (hs : TxReady cfg w s)
    (hle : cfg.burst.toNat ≤ 2048) : ¬ TxFull cfg.burst s := by
  rintro ⟨-, hfull⟩
  rw [hs.idle, hs.drained, UInt32.sub_self, UInt32.sub_zero, hs.txSize, h.txSize,
    UInt32.lt_iff_toNat_lt] at hfull
  exact absurd hfull (Nat.not_lt.2 hle)

theorem TxReady.queues (h : Initialised e cfg w) {s : Xsk Worker} (hs : TxReady cfg w s)
    (hfit : cfg.frameLen ≤ 2048) (hle : cfg.burst.toNat ≤ 2048) :
    cfg.queues (txSlots cfg.burst s).toNat s.pool.available = cfg.burst.toNat := by
  have hslots : txSlots cfg.burst s = cfg.burst := if_neg (hs.not_full h hle)
  rw [DpConfig.queues, if_pos hfit, hslots]
  exact Nat.min_eq_left hs.frames

/-- The proof outline of the bursts. -/
def burstVerified (h : Initialised e cfg w) (ht : cfg.role.transmits) (hfit : cfg.frameLen ≤ 2048)
    (hle : cfg.burst.toNat ≤ 2048) :
    Verified ((burstSys cfg w).metered countTotals) fun _ => True where
  inv _ := True
  rely _ := (workerCtx fun _ => True).rely
  guar _ _ _ := True
  idle _ _ := True
  post _ _ _ r _ := r = cfg.burst
  refl _ := (workerCtx fun _ => True).refl
  trans _ _ _ _ := (workerCtx fun _ => True).trans
  start_inv _ _ := trivial
  start_idle _ _ _ := trivial
  env_inv _ _ := trivial
  env_rely _ {x y} _ henv := rely_of_env henv
  guar_rely hne := absurd (Subsingleton.elim _ _) hne
  idle_stable _ _ _ _ _ _ := trivial
  call _ _ x _ _ hok := by
    refine (txBurst_any (TxReady.genOk h ht hok x.2) cfg.burst).mono fun r y hy => ?_
    rw [hok.queues h hfit hle] at hy
    exact UInt32.toNat_inj.1 hy.1
  done _ _ _ _ _ _ _ := trivial

theorem Initialised.queuesAll (h : Initialised e cfg w) (ht : cfg.role.transmits)
    (hfit : cfg.frameLen ≤ 2048) (hle : cfg.burst.toNat ≤ 2048) : QueuesAll cfg w :=
  fun _ hreach _ _ hret => (burstVerified h ht hfit hle).post_of_reach hreach hret

/-- The worker with a drained ring and a batch of frames. -/
def readied (cfg : DpConfig) (w : Xsk Worker) : Xsk Worker :=
  { w with
    pool := { w.pool with stack := List.replicate cfg.burst.toNat 0 }
    tx := { w.tx with
      view := { w.tx.view with cachedProd := w.tx.producer, cachedCons := w.tx.producer }
      consumer := w.tx.producer } }

theorem readied_txReady (cfg : DpConfig) (w : Xsk Worker) : TxReady cfg w (readied cfg w) :=
  ⟨rfl, rfl, ⟨[], [], rfl⟩, rfl, rfl, by simp [readied, FramePool.available]⟩

/-- Batches that are sent whole have frames with room for a packet, and are no larger than the
ring. -/
theorem Initialised.bounds (h : Initialised e cfg w) (ht : cfg.role.transmits)
    (hall : QueuesAll cfg w) : cfg.frameLen ≤ 2048 ∧ cfg.burst.toNat ≤ 2048 := by
  have hready := readied_txReady cfg w
  have hreach : Reach ((burstSys cfg w).metered countTotals) (fun _ => True)
      ⟨(readied cfg w, ⟨0, 0⟩), fun _ => .idle⟩ := Reach.initial trivial
  have hburst := hall _ (hreach.call_returns () () hready rfl) _ _ rfl
  change (((txBurst cfg.burst (some txFill)).metered countTotals).run _).1 = _ at hburst
  rw [(Prog.run_metered ..).1] at hburst
  obtain ⟨hsent, -⟩ := txBurst_run (hready.genOk h ht ⟨0, 0⟩) cfg.burst
  rw [hburst] at hsent
  have hpos : cfg.burst.toNat ≠ 0 := fun h0 => cfg.burst_ne_zero (UInt32.toNat_inj.1 h0)
  rw [DpConfig.queues] at hsent
  split at hsent
  · rename_i hfit
    refine ⟨hfit, Nat.le_of_not_lt fun hlt => hpos ?_⟩
    have hfree : (readied cfg w).tx.view.size - ((readied cfg w).tx.producer -
        (readied cfg w).tx.producer) < cfg.burst := by
      rw [UInt32.sub_self, UInt32.sub_zero, hready.txSize, h.txSize, UInt32.lt_iff_toNat_lt]
      exact hlt
    have hslots : txSlots cfg.burst (readied cfg w) = 0 := if_pos ⟨hfree, hfree⟩
    rw [hsent, hslots]
    exact Nat.zero_min _
  · exact absurd hsent hpos

/-- **Which configurations can send**: those whose payload leaves room for the headers in a chunk
of 2048 bytes, and whose batch is at most the size of the transmit ring. -/
theorem sender_sends_iff {sys : WorkerSyscalls} (ht : cfg.role.transmits)
    (hw : dpWorkerInit e cfg sys = .ok w) :
    FillsFit e cfg w ∧ QueuesAll cfg w ↔ cfg.plen.toNat ≤ 2006 ∧ cfg.burst.toNat ≤ 2048 := by
  have h := dpWorkerInit_ok hw
  have hlen : cfg.frameLen ≤ 2048 ↔ cfg.plen.toNat ≤ 2006 := by
    unfold DpConfig.frameLen
    omega
  rw [← hlen]
  constructor
  · intro hsend
    exact h.bounds ht hsend.2
  · intro hbounds
    exact ⟨h.fillsFit ht ⟨sys, hw⟩ hbounds.1, h.queuesAll ht hbounds.1 hbounds.2⟩

theorem sender_sends_sample : ∃ w, dpWorkerInit .little sampleConfig freshSyscalls = .ok w ∧
    FillsFit .little sampleConfig w ∧ QueuesAll sampleConfig w := by
  obtain ⟨w, hw, -⟩ := freshWorker_init .little sampleConfig rfl (by decide)
    (by decide)
  exact ⟨w, hw, (sender_sends_iff rfl hw).2 ⟨by decide, by decide⟩⟩

/-- A source of packets as large as the generator makes them. -/
def bigConfig : DpConfig := { sampleConfig with batch := 64, payloadLen := 2048 }

/-- It is accepted, and cannot send. -/
theorem bigConfig_silent : ∃ w, dpWorkerInit .little bigConfig freshSyscalls = .ok w ∧
    ¬ (FillsFit .little bigConfig w ∧ QueuesAll bigConfig w) := by
  obtain ⟨w, hw, -⟩ := freshWorker_init .little bigConfig rfl (by decide)
    (by decide)
  refine ⟨w, hw, fun hsend => ?_⟩
  obtain ⟨hfit, -⟩ := (dpWorkerInit_ok hw).bounds rfl hsend.2
  exact absurd hfit (by decide)

end

end Rewsr.Dataplane
