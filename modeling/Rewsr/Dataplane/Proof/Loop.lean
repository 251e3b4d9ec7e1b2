import Rewsr.Dataplane.Proof.Cycles

/-!
# The worker's loop

One iteration is a receive part, a transmit part and the test of `max_packets`; `Rest` holds between
them, and `rxPart_now` and `txPart_now` say that each part keeps it. Over whole runs, from an
initialised worker and with any behaviour of the kernel:

* `counters_exact`: the delivered counters are exact at every loop boundary, and the loop stops less
  than two batches past `max_packets`.
* `attempts_exact`: packets and drops add up to a batch for every transmit part, in the runs whose
  bursts queue all of the batch or nothing (`AllOrNothing`); `attempts_partial` is a run in which
  one does not.
-/

namespace Rewsr.Dataplane

open Interleave Counter Rewsr.Ring Rewsr.Net Rewsr.Xdp

/-! ## Between the parts of an iteration -/

section
variable (e : Endian) (cfg : DpConfig)

/-- The state before a transmit part in which the burst queues all of the batch, or nothing: the
ring is full, the pool has no frame or enough of them, or the frames have no room for a packet. -/
def AllOrNothing (s : Xsk Worker) : Prop :=
  TxFull cfg.burst s ∨ s.pool.available = 0 ∨ cfg.burst.toNat ≤ s.pool.available ∨
    s.frameSize.toNat < pktgenFrameLen s.user.gen

/-- The counters between the parts of an iteration. The bounds are about runs in which the sum that
is compared with `max_packets` has not wrapped around. -/
structure Rest (exact : Prop) (d : Own × Totals) : Prop extends Counts cfg exact 0 0 0 d where
  top : d.1.user.loop = .top → 0 < cfg.maxPackets.toNat →
    total e d < cfg.maxPackets.toNat ∨ 2 ^ 64 ≤ total e d
  tx : d.1.user.loop = .tx → 0 < cfg.maxPackets.toNat →
    total e d < cfg.maxPackets.toNat + cfg.burst.toNat ∨ 2 ^ 64 ≤ total e d
  reached : d.1.user.loop = .reached → cfg.maxPackets.toNat ≤ total e d ∧
    (total e d < cfg.maxPackets.toNat + 2 * cfg.burst.toNat ∨ 2 ^ 64 ≤ total e d)

end

section
variable {e : Endian} {cfg : DpConfig} {exact : Prop} {l : LoopAt} {r t p M N : Nat}
  {I : Own × Totals → Prop}

/-- The data after a step on the worker's fields. -/
def withUser (f : Worker → Worker) (d : Own × Totals) : Own × Totals :=
  ({ d.1 with user := f d.1.user }, d.2)

theorem onWorker_triple {f : Worker → Worker} (hf : ∀ w stop, f { w with stop } = { f w with stop })
    {A B : Own × Totals → Prop} (h : ∀ d, A d → I d → I (withUser f d) ∧ B (withUser f d)) :
    Triple (workerCtx I) (fun x => A (data x)) ((onWorker f).metered countTotals)
      fun _ x => B (data x) := by
  refine data_triple (B := fun _ => B) fun x hx hi => ?_
  have hdata : data ({ x.1 with user := f x.1.user },
      countTotals x.1 { x.1 with user := f x.1.user } x.2) = withUser f (data x) := by
    rw [data, countTotals, withUser, data, own, own]
    dsimp only
    rw [gap_self, gap_self, hf x.1.user false]
    rfl
  have hd := h _ hx hi
  rw [← hdata] at hd
  exact hd

/-- The invariant is about neither the transmit counters nor the loop's position. -/
theorem DataInv.withUser {d : Own × Totals} (h : DataInv e cfg d) {f : Worker → Worker}
    (hgen : (f d.1.user).gen = d.1.user.gen) (hseen : (f d.1.user).seen = d.1.user.seen)
    (hfills : (f d.1.user).fills = d.1.user.fills)
    (hpackets : (f d.1.user).stats.rxPackets = d.1.user.stats.rxPackets)
    (hbytes : (f d.1.user).stats.rxBytes = d.1.user.stats.rxBytes)
    (herrors : (f d.1.user).stats.parseErrors = d.1.user.stats.parseErrors) :
    DataInv e cfg (withUser f d) := by
  have hframes : acceptedFrames e (f d.1.user) = acceptedFrames e d.1.user := by
    rw [acceptedFrames, acceptedFrames, hseen]
  refine ⟨h.frameSize, ?_, ?_, ?_, ?_, h.lens, ?_⟩
  · rw [Dataplane.withUser, hgen]
    exact h.gen
  · rw [Dataplane.withUser, hpackets, hframes]
    exact h.rxPackets
  · rw [Dataplane.withUser, hbytes, hframes]
    exact h.rxBytes
  · rw [Dataplane.withUser, hpackets, herrors, hseen]
    exact h.rxAll
  · rw [Dataplane.withUser, hfills]
    exact h.fills

/-- A step that only moves the loop's control. -/
theorem setLoop_triple {A B : Own × Totals → Prop} (l : LoopAt)
    (h : ∀ d, A d → B (withUser (fun w => { w with loop := l }) d)) :
    Triple (workerCtx (DataInv e cfg)) (fun x => A (data x))
      ((onWorker fun w => { w with loop := l }).metered countTotals) fun _ x => B (data x) :=
  onWorker_triple (fun _ _ => rfl) fun d hd hi => ⟨hi.withUser rfl rfl rfl rfl rfl rfl, h d hd⟩

/-! ## The receive part -/

theorem Mid.rest {d : Own × Totals} (h : Mid e cfg exact l 0 0 0 M N d) (l' : LoopAt)
    (htop : l' = .top → 0 < cfg.maxPackets.toNat → N < cfg.maxPackets.toNat ∨ 2 ^ 64 ≤ M)
    (htx : l' = .tx → 0 < cfg.maxPackets.toNat →
      N < cfg.maxPackets.toNat + cfg.burst.toNat ∨ 2 ^ 64 ≤ M)
    (hreached : l' ≠ .reached) :
    Rest e cfg exact (withUser (fun w => { w with loop := l' }) d) := by
  have hlo := h.lo
  have hhi := h.hi
  have htotal : total e (withUser (fun w => { w with loop := l' }) d) = total e d := rfl
  refine ⟨⟨h.released, h.submitted, h.packets, h.drops⟩, fun hl hm => ?_, fun hl hm => ?_,
    fun hl => absurd hl hreached⟩
  · rcases htop hl hm with hN | hM
    · left
      omega
    · right
      omega
  · rcases htx hl hm with hN | hM
    · left
      omega
    · right
      omega

/-- The receive part of an iteration. -/
theorem rxPart_now {x : Xsk Worker × Totals} (hi : DataInv e cfg (data x))
    (hx : Rest e cfg exact (data x)) (hl : x.1.user.loop = .top) :
    Now (workerCtx (DataInv e cfg)) (fun _ y => Rest e cfg exact (data y))
      ((rxPart e cfg).metered countTotals) x := by
  have htop := hx.top hl
  have hmid : Mid e cfg exact .top 0 0 0 (total e (data x)) (total e (data x)) (data x) :=
    ⟨hx.toCounts, Nat.le_refl _, Nat.le_refl _, hl⟩
  generalize total e (data x) = T at htop hmid
  rw [rxPart, Prog.metered_bind]
  refine Now.metered_atomic_bind (Q := fun _ y => Mid e cfg exact .top 0 0 0 T T (data y)) ?_
    fun stop => ?_
  · dsimp only [workerCtx]
    rw [data_same rfl]
    exact ⟨hi, trivial, hmid⟩
  · cases stop with
    | true =>
      refine setLoop_triple .stopped fun d hd => hd.rest _ ?_ ?_ ?_ <;> intro hl <;> cases hl
    | false =>
      by_cases hrole : cfg.role.receives
      · rw [if_neg Bool.false_ne_true, if_pos hrole, Prog.metered_bind]
        refine Triple.bind (rxBurst_triple cfg.burst) fun _ => setLoop_triple .tx fun d hd => ?_
        refine hd.rest _ (fun hl => by cases hl) (fun _ hm => ?_) fun hl => by cases hl
        have := htop hm
        omega
      · rw [if_neg Bool.false_ne_true, if_neg hrole]
        refine setLoop_triple .tx fun d hd => ?_
        refine hd.rest _ (fun hl => by cases hl) (fun _ hm => ?_) fun hl => by cases hl
        have := htop hm
        omega

/-! ## The transmit part -/

theorem queued_inv {d : Own × Totals} (h : DataInv e cfg d) (h8 : 8 ≤ cfg.plen.toNat)
    (h2048 : cfg.plen.toNat ≤ 2048) (hfit : cfg.frameLen ≤ 2048) (n : Nat) (addr : UInt64) :
    DataInv e cfg (queued e cfg n addr d) := by
  refine ⟨h.frameSize, fun _ => ⟨h8, h2048, n + 1, rfl⟩, h.rxPackets, h.rxBytes, h.rxAll, ?_, ?_⟩
  · intro q hq
    rcases List.mem_append.1 hq with hq | hq
    · exact h.lens q hq
    · rw [List.mem_singleton.1 hq]
      exact cfg.frameLen_toNat h2048
  · intro r hr
    rcases List.mem_append.1 hr with hr | hr
    · exact h.fills r hr
    · rw [List.mem_singleton.1 hr, if_pos hfit]
      exact cfg.frameLen_toNat h2048

theorem skipped_inv {d : Own × Totals} (h : DataInv e cfg d) (hfit : ¬ cfg.frameLen ≤ 2048) :
    DataInv e cfg (skipped d) := by
  refine ⟨h.frameSize, h.gen, h.rxPackets, h.rxBytes, h.rxAll, h.lens, ?_⟩
  intro r hr
  rcases List.mem_append.1 hr with hr | hr
  · exact h.fills r hr
  · rw [List.mem_singleton.1 hr, if_neg hfit]
    rfl

theorem queued_mid {d : Own × Totals} {k : Nat} (h : Mid e cfg exact l r k k M (N + k) d) (n : Nat)
    (addr : UInt64) :
    Mid e cfg exact l r (k + 1) (k + 1) M (N + (k + 1)) (queued e cfg n addr d) := by
  have hlen : (queued e cfg n addr d).1.accepted.length = d.1.accepted.length + 1 := by
    rw [queued, List.length_append, List.length_singleton]
  have htotal : total e (queued e cfg n addr d) = total e d + 1 := by
    rw [total, total, hlen]
    rfl
  have hlo := h.lo
  have hhi := h.hi
  have hsub := h.submitted
  obtain ⟨j, hj, hpackets, hbytes⟩ := h.packets
  refine ⟨⟨h.released, ?_, ⟨j, ?_, hpackets, hbytes⟩, h.drops⟩, by omega, by omega, h.loop⟩
  · rw [hlen, hsub]
    rfl
  · rw [hlen, hj]
    rfl

/-- The rounds of the worker's transmit bursts. -/
theorem txSteps_mid (ht : cfg.role.transmits) :
    TxSteps e cfg (DataInv e cfg) fun k d => Mid e cfg exact l r k k M (N + k) d where
  gen _ hi := by
    obtain ⟨h8, h2048, hn⟩ := hi.gen ht
    exact ⟨hi.frameSize, h8, h2048, hn⟩
  queued h hi hfit n addr := by
    obtain ⟨h8, h2048, -⟩ := hi.gen ht
    exact ⟨queued_inv hi h8 h2048 hfit n addr, queued_mid h n addr⟩
  skipped h hi hfit := ⟨skipped_inv hi hfit,
    ⟨⟨h.released, h.submitted, h.packets, h.drops⟩, h.lo, h.hi, h.loop⟩⟩

theorem submitted_mid {d : Own × Totals} {q : UInt32} (h : Mid e cfg exact l r q.toNat p M N d) :
    Mid e cfg exact l r 0 p M N (submitted q d) :=
  ⟨⟨h.released, h.submitted, h.packets, h.drops⟩, h.lo, h.hi, h.loop⟩

theorem submitted_inv {d : Own × Totals} {q : UInt32} (h : DataInv e cfg d) :
    DataInv e cfg (submitted q d) :=
  ⟨h.frameSize, h.gen, h.rxPackets, h.rxBytes, h.rxAll, h.lens, h.fills⟩

theorem DpConfig.burst_ne_zero (cfg : DpConfig) : cfg.burst ≠ 0 := by
  unfold DpConfig.burst
  split
  · assumption
  · decide

/-- The counters after a burst; `exact` stands for bursts that queue all of the batch, or
nothing. -/
theorem countSent_mid {d : Own × Totals} {sent : UInt32} (hi : DataInv e cfg d)
    (ht : cfg.role.transmits) (h : Mid e cfg exact l r t sent.toNat M N d)
    (hexact : exact → sent = 0 ∨ sent = cfg.burst) :
    Mid e cfg exact l r t 0 M N (withUser (countSent cfg.burst sent) d) := by
  obtain ⟨k, hk, hpackets, hbytes⟩ := h.packets
  obtain ⟨-, -, n, hn⟩ := hi.gen ht
  have hlen : pktgenFrameLen d.1.user.gen = cfg.frameLen := by
    rw [hn]
    rfl
  obtain ⟨hpackets', hbytes', hdrops'⟩ := countSent_stats cfg.burst sent d.1.user
  refine ⟨⟨h.released, h.submitted, ⟨k + sent.toNat, hk, ?_, ?_⟩, fun hex => ?_⟩, h.lo, h.hi,
    h.loop⟩
  · rw [withUser, hpackets', hpackets, UInt64.ofNat_add]
  · rw [withUser, hbytes', hbytes, hlen, Nat.add_mul, UInt64.ofNat_add]
  · have hold := h.drops hex
    have hcycles : (countSent cfg.burst sent d.1.user).txCycles = d.1.user.txCycles + 1 := rfl
    rw [withUser, hpackets', hdrops', hcycles, Nat.mul_succ, UInt64.ofNat_add, ← hold]
    rcases hexact hex with rfl | rfl
    · rw [if_pos rfl, UInt64.add_assoc, ← UInt64.add_assoc (UInt64.ofNat _)]
      change _ + (0 + _ + _) = _
      rw [UInt64.zero_add, ← UInt64.add_assoc]
    · rw [if_neg cfg.burst_ne_zero, UInt64.add_zero, UInt64.add_assoc, UInt64.add_assoc,
        UInt64.add_comm d.1.user.stats.txDrops]

theorem countSent_stop (batch sent : UInt32) (w : Worker) (stop : Bool) :
    countSent batch sent { w with stop } = { countSent batch sent w with stop } := by
  unfold countSent
  split
  · rfl
  · rfl

theorem countSent_inv {d : Own × Totals} (h : DataInv e cfg d) (sent : UInt32) :
    DataInv e cfg (withUser (countSent cfg.burst sent) d) := by
  by_cases hsent : sent > 0
  · refine h.withUser rfl rfl rfl ?_ ?_ ?_
    all_goals simp only [countSent, if_pos hsent]
  · refine h.withUser rfl rfl rfl ?_ ?_ ?_
    all_goals simp only [countSent, if_neg hsent]

/-- How many frames a transmit part queues, in a state with `AllOrNothing`. -/
theorem queues_allOrNothing {s : Xsk Worker} (hsize : s.frameSize = 2048)
    (hlen : pktgenFrameLen s.user.gen = cfg.frameLen) (h : AllOrNothing cfg s) {sent : UInt32}
    (hsent : sent.toNat = cfg.queues (txSlots cfg.burst s).toNat s.pool.available) :
    sent = 0 ∨ sent = cfg.burst := by
  rw [← UInt32.toNat_inj, ← UInt32.toNat_inj, hsent, UInt32.toNat_zero]
  unfold DpConfig.queues txSlots
  rw [AllOrNothing, hsize, hlen] at h
  change _ ∨ _ ∨ _ ∨ 2048 < cfg.frameLen at h
  by_cases hfit : cfg.frameLen ≤ 2048
  · rw [if_pos hfit]
    rcases h with hfull | hempty | henough | hshort
    · left
      rw [if_pos hfull]
      exact Nat.zero_min _
    · left
      rw [hempty]
      exact Nat.min_zero _
    · by_cases hfull : TxFull cfg.burst s
      · left
        rw [if_pos hfull]
        exact Nat.zero_min _
      · right
        rw [if_neg hfull]
        exact Nat.min_eq_left henough
    · omega
  · exact .inl (if_neg hfit)

theorem queues_le_burst (s : Xsk Worker) (L : Nat) :
    cfg.queues (txSlots cfg.burst s).toNat L ≤ cfg.burst.toNat := by
  unfold DpConfig.queues txSlots
  split
  · refine Nat.le_trans (Nat.min_le_left _ _) ?_
    split
    · exact Nat.zero_le _
    · exact Nat.le_refl _
  · exact Nat.zero_le _

theorem checkMax_eq (m : UInt64) (w : Worker) :
    checkMax m w = { w with loop := (checkMax m w).loop } := by
  unfold checkMax
  split
  · rfl
  · rfl

theorem checkMax_stop (m : UInt64) (w : Worker) (stop : Bool) :
    checkMax m { w with stop } = { checkMax m w with stop } := by
  unfold checkMax
  dsimp only
  split
  · rfl
  · rfl

theorem checkMax_inv {d : Own × Totals} (h : DataInv e cfg d) (m : UInt64) :
    DataInv e cfg (withUser (checkMax m) d) := by
  have heq := checkMax_eq m d.1.user
  refine h.withUser ?_ ?_ ?_ ?_ ?_ ?_
  all_goals rw [heq]

/-- The sum that is compared with `max_packets`. -/
theorem packets_eq_total {d : Own × Totals} (hi : DataInv e cfg d)
    (h : Counts cfg exact r t 0 d) :
    d.1.user.stats.rxPackets + d.1.user.stats.txPackets = UInt64.ofNat (total e d) := by
  obtain ⟨k, hk, hpackets, -⟩ := h.packets
  rw [hi.rxPackets, hpackets, total, hk, Nat.add_zero, UInt64.ofNat_add]

/-- The end of an iteration. -/
theorem checkMax_rest {d : Own × Totals} (hi : DataInv e cfg d)
    (h : Mid e cfg exact l 0 0 0 M N d)
    (hN : 0 < cfg.maxPackets.toNat →
      N < cfg.maxPackets.toNat + 2 * cfg.burst.toNat ∨ 2 ^ 64 ≤ M) :
    Rest e cfg exact (withUser (checkMax cfg.maxPackets) d) := by
  have hlo := h.lo
  have hhi := h.hi
  have hsum := packets_eq_total hi h.toCounts
  have hmod : (UInt64.ofNat (total e d)).toNat = total e d % 2 ^ 64 := by simp
  by_cases hmax : cfg.maxPackets > 0 ∧
      d.1.user.stats.rxPackets + d.1.user.stats.txPackets ≥ cfg.maxPackets
  · have heq : checkMax cfg.maxPackets d.1.user = { d.1.user with loop := .reached } := if_pos hmax
    obtain ⟨hpos, hge⟩ := hmax
    have hN := hN (UInt64.lt_iff_toNat_lt.1 hpos)
    rw [hsum, ge_iff_le, UInt64.le_iff_toNat_le, hmod] at hge
    have hle := Nat.mod_le (total e d) (2 ^ 64)
    rw [withUser, heq]
    refine ⟨⟨h.released, h.submitted, h.packets, h.drops⟩, nofun, nofun, fun _ => ?_⟩
    change cfg.maxPackets.toNat ≤ total e d ∧ (total e d < _ ∨ _ ≤ total e d)
    omega
  · have heq : checkMax cfg.maxPackets d.1.user = { d.1.user with loop := .top } := if_neg hmax
    rw [withUser, heq]
    refine ⟨⟨h.released, h.submitted, h.packets, h.drops⟩, fun _ hpos => ?_, nofun, nofun⟩
    change total e d < _ ∨ _ ≤ total e d
    by_cases hwrap : total e d < 2 ^ 64
    · have hlt : ¬ cfg.maxPackets.toNat ≤ total e d := by
        intro hle
        refine hmax ⟨UInt64.lt_iff_toNat_lt.2 hpos, ?_⟩
        rw [hsum, ge_iff_le, UInt64.le_iff_toNat_le, hmod, Nat.mod_eq_of_lt hwrap]
        exact hle
      omega
    · omega

/-- The test of `max_packets`, after a transmit part or in its place. -/
theorem checkMax_triple (hN : 0 < cfg.maxPackets.toNat →
      N < cfg.maxPackets.toNat + 2 * cfg.burst.toNat ∨ 2 ^ 64 ≤ M) :
    Triple (workerCtx (DataInv e cfg)) (fun y => Mid e cfg exact l 0 0 0 M N (data y))
      ((onWorker (checkMax cfg.maxPackets)).metered countTotals)
      fun _ y => Rest e cfg exact (data y) :=
  onWorker_triple (checkMax_stop cfg.maxPackets) fun _ hd hi =>
    ⟨checkMax_inv hi _, checkMax_rest hi hd hN⟩

/-- The transmit part of an iteration. -/
theorem txPart_now {x : Xsk Worker × Totals} (hi : DataInv e cfg (data x))
    (hx : Rest e cfg exact (data x)) (hl : x.1.user.loop = .tx)
    (hexact : exact → AllOrNothing cfg x.1) :
    Now (workerCtx (DataInv e cfg)) (fun _ y => Rest e cfg exact (data y))
      ((txPart cfg).metered countTotals) x := by
  have htx := hx.tx hl
  have hmid : Mid e cfg exact .tx 0 0 0 (total e (data x)) (total e (data x)) (data x) :=
    ⟨hx.toCounts, Nat.le_refl _, Nat.le_refl _, hl⟩
  generalize total e (data x) = T at htx hmid
  by_cases ht : cfg.role.transmits
  · obtain ⟨-, -, n, hn⟩ := hi.gen ht
    have hlen : pktgenFrameLen x.1.user.gen = cfg.frameLen := congrArg Pktgen.frameLen hn
    have hsent {sent : UInt32}
        (h : sent.toNat = cfg.queues (txSlots cfg.burst x.1).toNat x.1.pool.available) :
        sent.toNat ≤ cfg.burst.toNat ∧ (exact → sent = 0 ∨ sent = cfg.burst) :=
      ⟨h ▸ queues_le_burst x.1 _, fun hex => queues_allOrNothing hi.frameSize hlen (hexact hex) h⟩
    rw [txPart, if_pos ht, Prog.metered_bind]
    refine Now.bind (txBurst_now (txSteps_mid ht)
      (B := fun q d => Mid e cfg exact .tx 0 0 q.toNat T (T + q.toNat) d)
      (fun q d h hi => ⟨submitted_inv hi, submitted_mid h⟩) cfg.burst hmid hi)
      (fun sent => Triple.of_fact fun hq => ?_) hi
    obtain ⟨hle, hex⟩ := hsent hq
    simp only [Prog.metered_bind]
    refine Triple.bind (Q := fun _ y => Mid e cfg exact .tx 0 0 0 T (T + cfg.burst.toNat) (data y))
      ((onWorker_triple (countSent_stop cfg.burst sent) fun d hd hi => ?_).weaken
        fun y hy _ => hy.1)
      fun _ => ?_
    · refine ⟨countSent_inv hi sent, ?_⟩
      exact (countSent_mid hi ht hd hex).hi_mono (Nat.add_le_add_left hle T)
    · refine Triple.bind (keeps_triple (txComplete_keeps (fun _ _ _ => rfl) cfg.burst)) fun _ => ?_
      refine checkMax_triple fun hm => ?_
      have := htx hm
      omega
  · rw [txPart, if_neg ht]
    have hN : 0 < cfg.maxPackets.toNat →
        T < cfg.maxPackets.toNat + 2 * cfg.burst.toNat ∨ 2 ^ 64 ≤ T := by
      intro hm
      have := htx hm
      omega
    exact (checkMax_triple hN hmid hi).now hi

end

/-! ## The initialised worker -/

section
variable {e : Endian} {cfg : DpConfig}

/-- What the initialiser gives. -/
structure Initialised (e : Endian) (cfg : DpConfig) (s : Xsk Worker) : Prop where
  frameSize : s.frameSize = 2048
  txSize : s.tx.view.size = 2048
  accepted : s.accepted = []
  user : ∃ gen, s.user = { zeroWorker with gen } ∧ (cfg.role.transmits →
    8 ≤ cfg.plen.toNat ∧ cfg.plen.toNat ≤ 2048 ∧ gen = genAt e cfg.flow cfg.plen.toNat 0)

theorem dpWorkerInit_ok {sys : WorkerSyscalls} {s : Xsk Worker}
    (h : dpWorkerInit e cfg sys = .ok s) : Initialised e cfg s := by
  obtain ⟨umem, humem, h⟩ := bind_eq_ok.1 h
  obtain ⟨xsk, hxsk, h⟩ := bind_eq_ok.1 h
  -- the first refill leaves everything here as it was
  have hkeep := (fillRefill_keeps (π := fun s => (s.frameSize, s.tx.view.size, s.accepted, s.user))
    (fun _ _ _ _ => rfl) xskConfigDefault.fillSize).run (xskStart umem xsk zeroWorker)
  generalize ((fillRefill xskConfigDefault.fillSize).run (xskStart umem xsk zeroWorker)).2 = s₀
    at h hkeep
  obtain ⟨hsize, htx, hacc, huser⟩ : _ ∧ _ ∧ _ ∧ _ := by simpa only [Prod.mk.injEq] using hkeep
  have hsize := hsize.trans (xskUmemCreate_frameSize humem)
  have htx := htx.trans (xskSocketCreate_txSize hxsk)
  dsimp only at h
  split at h
  · split at h
    · rename_i gen hgen
      obtain ⟨h8, h2048, rfl⟩ := pktgenInit_ok_iff.1 hgen
      cases h
      rw [huser]
      exact ⟨hsize, htx, hacc, _, rfl, fun _ => ⟨h8, h2048, rfl⟩⟩
    · cases h
  · rename_i hrole
    cases h
    exact ⟨hsize, htx, hacc, zeroGen, huser, fun ht => absurd ht hrole⟩

theorem Initialised.own_eq {s : Xsk Worker} (h : Initialised e cfg s) : ∃ gen,
    own s = ⟨{ zeroWorker with gen }, [], s.rx.consumer, s.tx.producer, 2048⟩ ∧
      (cfg.role.transmits → 8 ≤ cfg.plen.toNat ∧ cfg.plen.toNat ≤ 2048 ∧
        gen = genAt e cfg.flow cfg.plen.toNat 0) := by
  obtain ⟨gen, huser, hgen⟩ := h.user
  refine ⟨gen, ?_, hgen⟩
  rw [own, h.accepted, h.frameSize, huser]
  rfl

theorem Initialised.inv {s : Xsk Worker} (h : Initialised e cfg s) :
    DataInv e cfg (data (s, ⟨0, 0⟩)) := by
  obtain ⟨gen, hown, hgen⟩ := h.own_eq
  rw [data, hown]
  refine ⟨rfl, fun ht => ?_, rfl, rfl, rfl, List.forall_mem_nil _, List.forall_mem_nil _⟩
  obtain ⟨h8, h2048, rfl⟩ := hgen ht
  exact ⟨h8, h2048, 0, rfl⟩

theorem Initialised.rest {s : Xsk Worker} (h : Initialised e cfg s) (exact : Prop) :
    Rest e cfg exact (data (s, ⟨0, 0⟩)) := by
  obtain ⟨gen, hown, -⟩ := h.own_eq
  rw [data, hown]
  refine ⟨⟨rfl, rfl, ⟨0, rfl, rfl, ?_⟩, fun _ => rfl⟩, fun _ hm => .inl hm, fun hl => ?_,
    fun hl => ?_⟩
  · rw [Nat.zero_mul]
    rfl
  · cases hl
  · cases hl

/-! ## Whole runs -/

theorem own_of_priv {s s' : Xsk Worker} {stop : Bool}
    (h : priv s' = priv { s with user := { s.user with stop } }) : own s' = own s := by
  have hown := congrArg own h
  exact hown

/-- What the kernel and the thread that sets `stop` do does not move the totals. -/
theorem rely_of_env {I : Own × Totals → Prop} {x y : Xsk Worker × Totals}
    (henv : (∃ stop, priv y.1 = priv { x.1 with user := { x.1.user with stop } }) ∧
      y.2 = countTotals x.1 y.1 x.2) : (workerCtx I).rely x y := by
  obtain ⟨⟨stop, hp⟩, ht⟩ := henv
  rw [countTotals_same (own_of_priv hp)] at ht
  exact ⟨⟨stop, hp⟩, ht⟩

/-- The proof outline of the loop. -/
def workerVerified (e : Endian) (cfg : DpConfig) (ok : Xsk Worker → Prop) :
    Verified (workerSys e cfg ok) (WorkerStart e cfg) where
  inv x := DataInv e cfg (data x)
  rely _ := (workerCtx (DataInv e cfg)).rely
  guar _ _ _ := True
  idle _ x := Rest e cfg (∀ s, ok s → AllOrNothing cfg s) (data x)
  post _ _ _ _ x := Rest e cfg (∀ s, ok s → AllOrNothing cfg s) (data x)
  refl _ := (workerCtx (DataInv e cfg)).refl
  trans _ _ _ _ := (workerCtx (DataInv e cfg)).trans
  start_inv x hx := by
    obtain ⟨hzero, sys, hinit⟩ := hx
    have h := (dpWorkerInit_ok hinit).inv
    rwa [← hzero] at h
  start_idle _ x hx := by
    obtain ⟨hzero, sys, hinit⟩ := hx
    have h := (dpWorkerInit_ok hinit).rest (∀ s, ok s → AllOrNothing cfg s)
    rwa [← hzero] at h
  env_inv {x y} hi henv := by
    obtain ⟨⟨stop, hp⟩, ht⟩ := henv
    have hdata := data_same (x := x) (own_of_priv hp)
    rw [← ht] at hdata
    rw [show data y = data x from hdata]
    exact hi
  env_rely _ {x y} _ henv := rely_of_env henv
  guar_rely hne := absurd (Subsingleton.elim _ _) hne
  idle_stable _ {x y} hx hr hi := stable_data (Rest e cfg _) hx hr hi
  call _ op x hi hx hok := by
    cases op with
    | rx => exact rxPart_now hi hx hok
    | tx => exact txPart_now hi hx hok.1 fun hex => hex x.1 hok.2
  done _ _ _ _ _ _ h := h

/-- **Attempts** are counted exactly in runs whose transmit parts queue all of a batch or nothing:
in each state between parts, and for what a rate is computed from between any two of them. -/
theorem attempts_exact {c : Config Unit (Xsk Worker × Totals) PUnit WorkerOp}
    (h : Reach (workerSys e cfg (AllOrNothing cfg)) (WorkerStart e cfg) c)
    (hidle : c.th () = .idle) :
    c.mem.1.user.stats.txPackets + c.mem.1.user.stats.txDrops =
      UInt64.ofNat (cfg.burst.toNat * c.mem.1.user.txCycles) ∧
    ∀ c', Relation.ReflTransGen (Step (workerSys e cfg (AllOrNothing cfg))) c c' →
      c'.th () = .idle → dpAttempted (dpStatsDelta c.mem.1.user.stats c'.mem.1.user.stats) =
        UInt64.ofNat (cfg.burst.toNat * c'.mem.1.user.txCycles) -
          UInt64.ofNat (cfg.burst.toNat * c.mem.1.user.txCycles) := by
  have hsum {c : Config Unit (Xsk Worker × Totals) PUnit WorkerOp}
      (h : Reach (workerSys e cfg (AllOrNothing cfg)) (WorkerStart e cfg) c)
      (hidle : c.th () = .idle) : c.mem.1.user.stats.txPackets + c.mem.1.user.stats.txDrops =
        UInt64.ofNat (cfg.burst.toNat * c.mem.1.user.txCycles) :=
    ((workerVerified e cfg _).idle_of_reach h hidle).drops fun _ hs => hs
  refine ⟨hsum h hidle, fun c' hrun hidle' => ?_⟩
  obtain ⟨s, hs, hrun₀⟩ := h
  rw [← hsum ⟨s, hs, hrun₀⟩ hidle, ← hsum ⟨s, hs, hrun₀.trans hrun⟩ hidle']
  unfold dpAttempted dpStatsDelta
  grind

theorem attempts_exact_first : ∃ c,
    Reach (workerSys .little sampleConfig (AllOrNothing sampleConfig))
      (WorkerStart .little sampleConfig) c ∧ c.th () = .idle ∧ c.mem.1.user.txCycles = 1 ∧
      c.mem.1.user.stats.txPackets + c.mem.1.user.stats.txDrops = 2000 := by
  obtain ⟨s, t, hreach, hs⟩ := sample_first (AllOrNothing sampleConfig)
    fun _ h => .inr (.inr (.inl h))
  refine ⟨_, hreach, rfl, hs.cycles, ?_⟩
  rw [(attempts_exact hreach rfl).1]
  dsimp only
  rw [hs.cycles]
  rfl

/-- A partial burst is not counted: two batches of 2000 were tried, and 2048 frames count. -/
theorem attempts_partial : ∃ c,
    Reach (workerSys .little sampleConfig fun _ => True) (WorkerStart .little sampleConfig) c ∧
      c.th () = .idle ∧ c.mem.1.user.stats.txPackets + c.mem.1.user.stats.txDrops ≠
        UInt64.ofNat (sampleConfig.burst.toNat * c.mem.1.user.txCycles) := by
  obtain ⟨s, t, hreach, hs⟩ := sample_second
  refine ⟨_, hreach, rfl, ?_⟩
  dsimp only
  rw [hs.packets, hs.drops, hs.cycles]
  decide

end

end Rewsr.Dataplane
