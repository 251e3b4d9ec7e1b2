import Rewsr.Xdp.Proof.Calls

/-!
# Runs of the data path

What holds in every state of every run of calls and kernel steps that starts with fresh rings. A
burst or refill that does not use up its reservation leaves `cached_prod` ahead of the shared
producer counter, and the next one then publishes slots it has not written; the results about
transmit and refill runs are for runs in which no call does that, and a run that breaks them
stands next to each.

* `txRun_ownership`: every chunk is in the pool, in the transmit ring, with the kernel or in the
  completion ring, in exactly one of them.
* `txRun_stream`: the kernel reads the descriptors the callbacks accepted, in order.
* `fillRun_publication`: the kernel reads the addresses popped from the pool, in order, and each
  refill posts what it can.
* `sinkRun_conservation`: runs of receive bursts keep every chunk, whatever the kernel does.
-/

namespace Rewsr.Xdp

open Counter Interleave Rewsr.Ring

variable {κ : Type}

/-! ## Fresh states -/

/-- A ring just initialised over counters that are equal. -/
structure FreshRing {V : Type} (r : SharedRing V) (descSize : Nat) : Prop where
  init : ringInit (some r.producer) (some r.consumer) (some r.mem) r.view.size descSize =
    some r.view
  empty : r.consumer = r.producer
  cur : r.cur = r.producer

/-- Four fresh rings, and a kernel that holds no chunk. -/
structure FreshRings (s : Xsk κ) : Prop where
  fill : FreshRing s.fill 8
  comp : FreshRing s.comp 8
  rx : FreshRing s.rx 16
  tx : FreshRing s.tx 16
  kernelRx : s.kernelRx = []
  kernelTx : s.kernelTx = []
  accepted : s.accepted = []
  txSeen : s.txSeen = []
  popped : s.popped = []
  fillSeen : s.fillSeen = []
  frees : s.rxFreeFailures = 0

/-- A fresh UMEM of `numFrames` chunks. -/
structure FreshUmem (numFrames chunkSize : UInt32) (s : Xsk κ) : Prop extends FreshRings s where
  pool : FramePool.init numFrames chunkSize = some s.pool

section
variable {V : Type} {r : SharedRing V} {descSize : Nat}

theorem FreshRing.prodOk (h : FreshRing r descSize) : ProdOk r ∧ ProdIdle r := by
  obtain ⟨hwf, -, -, hp, hc⟩ := ringInit_some h.init
  refine ⟨⟨hwf, ?_⟩, h.cur, hp⟩
  rw [hp, hc, h.empty, h.cur, gap_self]
  exact Nat.zero_le _

theorem FreshRing.consOk (h : FreshRing r descSize) : ConsOk r ∧ ConsIdle r := by
  obtain ⟨hwf, -, -, hp, hc⟩ := ringInit_some h.init
  refine ⟨⟨hwf, hc, ?_⟩, h.cur.trans h.empty.symm⟩
  rw [hp, h.empty, h.cur, gap_self]
  exact Nat.zero_le _

theorem FreshRing.slots_nil (h : FreshRing r descSize) : slots r.at r.consumer r.cur = [] := by
  rw [h.empty, h.cur, slots_self]

end

theorem FreshRings.inv {m : Mode} {s : Xsk κ} (h : FreshRings s) (hown : m.own → Owned m s) :
    Inv m s ∧ Idle s := by
  refine ⟨{ fill := h.fill.prodOk.1, tx := h.tx.prodOk.1, comp := h.comp.consOk.1,
            rx := h.rx.consOk.1, txStream := ?_, fillStream := ?_, owned := hown,
            noRx := fun _ => ⟨h.fill.empty, h.fill.cur, h.kernelRx, h.rx.cur⟩,
            noTx := fun _ => ⟨h.tx.empty, h.tx.cur, h.kernelTx, h.comp.cur⟩ },
    h.fill.prodOk.2, h.tx.prodOk.2, h.comp.consOk.2, h.rx.consOk.2⟩
  · rw [h.accepted, h.txSeen, h.tx.slots_nil]
    rfl
  · rw [h.popped, h.fillSeen, h.fill.slots_nil]
    rfl

theorem FreshUmem.inv {m : Mode} {s : Xsk κ} (h : FreshUmem m.numFrames m.chunkSize s) :
    Inv m s ∧ Idle s := by
  refine h.toFreshRings.inv fun _ => ?_
  obtain ⟨hwf, hstack, hcap, hcs⟩ := FramePool.init_some h.pool
  refine ⟨hcap, hcs, hwf, ?_, h.frees⟩
  have hrx : rxHeld s = [] := by rw [rxHeld, h.rx.cur, slots_self, List.map_nil]
  have htx : txHeld s = [] := by rw [txHeld, h.tx.slots_nil, List.map_nil]
  have hcomp : compHeld s = [] := by rw [compHeld, h.comp.cur, slots_self]
  have hfill : fillHeld s = [] := h.fill.slots_nil
  rw [places, hrx, htx, hcomp, hfill, h.kernelRx, h.kernelTx, hstack, hcap, hcs]
  simp only [List.append_nil]
  exact List.Perm.refl _

theorem reach_kernel {ok : XskOp κ → Xsk κ → Prop} {start : Xsk κ → Prop} {s s' : Xsk κ}
    {th : Unit → Phase (Xsk κ) UInt32 (XskOp κ)} {a : KernelAct}
    (h : Reach (xskSys ok) start ⟨s, th⟩) (hk : kernelStep a s = some s') :
    Reach (xskSys ok) start ⟨s', th⟩ := h.tail (.env ⟨a, hk⟩)

theorem txTake_step {s : Xsk κ} (h : s.tx.consumer ≠ s.tx.producer) :
    kernelStep .txTake s = some (txTake s) := if_pos h

theorem compPost_step {s : Xsk κ} (addr : UInt64)
    (h : addr ∈ s.kernelTx ∧ gap s.comp.consumer s.comp.producer < s.comp.view.size.toNat) :
    kernelStep (.compPost addr) s = some (compPost addr s) := if_pos h

theorem fillTake_step {s : Xsk κ} (h : s.fill.consumer ≠ s.fill.producer) :
    kernelStep .fillTake s = some (fillTake s) := if_pos h

theorem rxPost_step {s : Xsk κ} (chunk : UInt64) (d : XdpDesc) (data : List UInt8)
    (h : chunk ∈ s.kernelRx ∧ gap s.rx.consumer s.rx.producer < s.rx.view.size.toNat ∧
      (d.addr - chunk).toNat < s.pool.chunkSize.toNat ∧
      (d.addr - chunk).toNat + data.length ≤ s.pool.chunkSize.toNat) :
    kernelStep (.rxPost chunk d data) s = some (rxPost chunk d data s) := if_pos h

/-- Four frames and rings of four entries, for runs on fixed inputs. -/
def sampleXsk : Xsk Unit :=
  let ring {V : Type} (descSize : Nat) (v : V) : SharedRing V :=
    ⟨⟨3, 4, descSize, 0, 0⟩, 0, 0, fun _ => v, 0⟩
  { area := fun _ => 0, frameSize := 2048, pool := ⟨[0, 2048, 4096, 6144], 4, 2048⟩
    fill := ring 8 0, comp := ring 8 0, rx := ring 16 ⟨0, 0, 0⟩, tx := ring 16 ⟨0, 0, 0⟩
    user := (), kernelRx := [], kernelTx := [], accepted := [], txSeen := [], popped := []
    fillSeen := [], rxFreeFailures := 0 }

theorem sampleXsk_fresh : FreshUmem 4 2048 sampleXsk where
  fill := ⟨rfl, rfl, rfl⟩
  comp := ⟨rfl, rfl, rfl⟩
  rx := ⟨rfl, rfl, rfl⟩
  tx := ⟨rfl, rfl, rfl⟩
  kernelRx := rfl
  kernelTx := rfl
  accepted := rfl
  txSeen := rfl
  popped := rfl
  fillSeen := rfl
  frees := rfl
  pool := rfl

/-! ## Transmit runs -/

def TxCall : XskOp κ → Prop
  | .txBurst _ _ => True
  | .txComplete _ => True
  | _ => False

/-- A call that is not a transmit burst, or one that queues all it reserves. -/
def FullBurst : XskOp κ → Xsk κ → Prop
  | .txBurst nb cb, s => TxOk nb cb s
  | _, _ => True

/-- The published part of the transmit ring. -/
def txPublished (s : Xsk κ) : List XdpDesc := slots s.tx.at s.tx.consumer s.tx.producer

/-- Where chunks are when only transmit calls are made: the pool, the transmit ring, the kernel,
the completion ring. -/
def txPlaces (s : Xsk κ) : List UInt64 :=
  s.pool.stack ++ ((txPublished s).map XdpDesc.addr ++
    (s.kernelTx ++ slots s.comp.at s.comp.consumer s.comp.producer))

theorem places_txOnly {s : Xsk κ} (hn : NoRx s) (hidle : Idle s) : places s = txPlaces s := by
  obtain ⟨hfill, hfillCur, hkernel, hrx⟩ := hn
  obtain ⟨-, htx, hcomp, -⟩ := hidle
  have h1 : fillHeld s = [] := by rw [fillHeld, hfillCur, hfill, slots_self]
  have h2 : rxHeld s = [] := by rw [rxHeld, hrx, slots_self, List.map_nil]
  have h3 : txHeld s = (txPublished s).map XdpDesc.addr := by rw [txHeld, htx.1, txPublished]
  have h4 : compHeld s = slots s.comp.at s.comp.consumer s.comp.producer := by
    rw [compHeld, show s.comp.cur = s.comp.consumer from hcomp]
  rw [places, h1, h2, h3, h4, hkernel, txPlaces, List.nil_append, List.nil_append, List.nil_append]

theorem Owned.exact {m : Mode} {s : Xsk κ} (h : Owned m s) :
    (chunks m.numFrames.toNat m.chunkSize).Perm (places s) ∧ (places s).Nodup := by
  have hpart := h.part
  refine ⟨?_, hpart.nodup_iff.1 (FramePool.nodup_chunks h.pool)⟩
  rwa [h.capacity, h.chunkSize] at hpart

/-- The outline of transmit runs on a UMEM. -/
def txVerified (numFrames chunkSize : UInt32) :
    Verified (xskSys (κ := κ) fun op s => TxCall op ∧ FullBurst op s)
      (FreshUmem numFrames chunkSize) := by
  refine xskVerified ⟨True, True, False, numFrames, chunkSize⟩ ?_ fun s hs => hs.inv
  rintro op s ⟨hcall, hfull⟩
  cases op with
  | txBurst nb cb => exact ⟨trivial, id, hfull⟩
  | txComplete nb => trivial
  | fillRefill nb => exact hcall.elim
  | rxBurst nb cb => exact hcall.elim
  | usePool f => exact hcall.elim

/-- **Transmit ownership**: between calls every chunk is in exactly one place. -/
theorem txRun_ownership {numFrames chunkSize : UInt32} {c : Config Unit (Xsk κ) UInt32 (XskOp κ)}
    (h : Reach (xskSys fun op s => TxCall op ∧ FullBurst op s) (FreshUmem numFrames chunkSize) c)
    (hidle : c.th () = .idle) :
    (chunks numFrames.toNat chunkSize).Perm (txPlaces c.mem) ∧ (txPlaces c.mem).Nodup := by
  let V := txVerified (κ := κ) numFrames chunkSize
  have hinv := (V.sound h).1
  rw [← places_txOnly (hinv.noRx trivial) (V.idle_of_reach h hidle)]
  exact (hinv.owned trivial).exact

/-- Callbacks that take every buffer, and none. -/
def acceptAll : Option (TxCb Unit) := some fun buf u => (64, buf, u)
def skipAll : Option (TxCb Unit) := some fun buf u => (0, buf, u)

/-- Two frames are sent and taken, and the chunk of the first one is completed and reaped. -/
theorem txRun_ownership_two : ∃ c : Config Unit (Xsk Unit) UInt32 (XskOp Unit),
    c.mem.kernelTx = [2048] ∧ c.mem.pool.stack = [0, 4096, 6144] ∧
      (chunks 4 2048).Perm (txPlaces c.mem) := by
  have hburst : FullBurst (.txBurst 2 acceptAll) sampleXsk :=
    .inr ⟨by decide, by decide, by decide, trivial⟩
  have hstart := Reach.initial (S := xskSys fun op s => TxCall op ∧ FullBurst op s) sampleXsk_fresh
  have h1 := hstart.call () (.txBurst 2 acceptAll) ⟨trivial, hburst⟩ rfl
  have h2 := reach_kernel h1 (txTake_step (by decide +kernel))
  have h3 := reach_kernel h2 (txTake_step (by decide +kernel))
  have h4 := reach_kernel h3 (compPost_step 0 (by decide +kernel))
  have h5 := h4.call () (.txComplete 2) ⟨trivial, trivial⟩ rfl
  exact ⟨_, by decide +kernel, by decide +kernel, (txRun_ownership h5 rfl).1⟩

/-- A burst of one that the callback skips, then one of two: the ring holds chunk 0 twice, and
chunk 2048 is nowhere. -/
theorem txRun_loses_chunk : ∃ c : Config Unit (Xsk Unit) UInt32 (XskOp Unit),
    Reach (xskSys fun op _ => TxCall op) (FreshUmem 4 2048) c ∧ c.th () = .idle ∧
      txPlaces c.mem = [4096, 6144, 0, 0] ∧ ¬ (chunks 4 2048).Perm (txPlaces c.mem) := by
  have hstart := Reach.initial (S := xskSys fun op _ => TxCall op) sampleXsk_fresh
  have hskip := hstart.call () (.txBurst 1 skipAll) trivial rfl
  refine ⟨_, hskip.call () (.txBurst 2 acceptAll) trivial rfl, rfl, ?_, ?_⟩
  · decide +kernel
  · decide +kernel

/-- Transmit calls, with any use of the pool between them. -/
def TxPoolCall : XskOp κ → Prop
  | .txBurst _ _ => True
  | .txComplete _ => True
  | .usePool _ => True
  | _ => False

def txPoolVerified :
    Verified (xskSys (κ := κ) fun op s => TxPoolCall op ∧ FullBurst op s) FreshRings := by
  refine xskVerified ⟨False, True, False, 0, 0⟩ ?_ fun s hs => hs.inv False.elim
  rintro op s ⟨hcall, hfull⟩
  cases op with
  | txBurst nb cb => exact ⟨trivial, id, hfull⟩
  | txComplete nb => trivial
  | usePool f => exact id
  | fillRefill nb => exact hcall.elim
  | rxBurst nb cb => exact hcall.elim

/-- **Transmit stream**: what the kernel has read and what is in the ring for it to read is what
the callbacks accepted, and between calls nothing is reserved. -/
theorem txRun_stream {c : Config Unit (Xsk κ) UInt32 (XskOp κ)}
    (h : Reach (xskSys fun op s => TxPoolCall op ∧ FullBurst op s) FreshRings c) :
    c.mem.txSeen <+: c.mem.accepted ∧
      (c.th () = .idle →
        c.mem.accepted = c.mem.txSeen ++ (txPublished c.mem).map (fun d => (d.addr, d.len)) ∧
        c.mem.tx.view.cachedProd = c.mem.tx.producer) := by
  let V := txPoolVerified (κ := κ)
  have hstream := (V.sound h).1.txStream
  refine ⟨⟨_, hstream.symm⟩, fun hidle => ?_⟩
  obtain ⟨-, ⟨hcur, hcached⟩, -⟩ : Idle c.mem := V.idle_of_reach h hidle
  rw [hcur] at hstream
  exact ⟨hstream, hcached⟩

theorem txRun_stream_two :
    ((txBurst 2 acceptAll).run sampleXsk).2.accepted = [(0, 64), (2048, 64)] ∧
      (txPublished ((txBurst 2 acceptAll).run sampleXsk).2).map (fun d => (d.addr, d.len)) =
        [(0, 64), (2048, 64)] := by
  have hburst : FullBurst (.txBurst 2 acceptAll) sampleXsk :=
    .inr ⟨by decide, by decide, by decide, trivial⟩
  have hstart := Reach.initial (S := xskSys fun op s => TxPoolCall op ∧ FullBurst op s)
    sampleXsk_fresh.toFreshRings
  have hrun := hstart.call () (.txBurst 2 acceptAll) ⟨trivial, hburst⟩ rfl
  have haccepted : ((txBurst 2 acceptAll).run sampleXsk).2.accepted = [(0, 64), (2048, 64)] := rfl
  exact ⟨haccepted, ((txRun_stream hrun).2 rfl).1.symm.trans haccepted⟩

/-- A burst of one that the callback skips, then one that it takes: the kernel reads a slot that
was never written. -/
theorem txRun_stale : ∃ c : Config Unit (Xsk Unit) UInt32 (XskOp Unit),
    Reach (xskSys fun op _ => TxPoolCall op) FreshRings c ∧ c.th () = .idle ∧
      c.mem.accepted = [(0, 64)] ∧ c.mem.txSeen = [(0, 0)] ∧
      c.mem.tx.view.cachedProd ≠ c.mem.tx.producer := by
  have hstart := Reach.initial (S := xskSys fun op _ => TxPoolCall op) sampleXsk_fresh.toFreshRings
  have hskip := hstart.call () (.txBurst 1 skipAll) trivial rfl
  have htake := hskip.call () (.txBurst 1 acceptAll) trivial rfl
  refine ⟨_, reach_kernel htake (txTake_step (by decide +kernel)), rfl, ?_, ?_, ?_⟩
  · decide +kernel
  · decide +kernel
  · decide +kernel

/-! ## Refill runs -/

/-- Refills, with any use of the pool between them. -/
def FillCall : XskOp κ → Prop
  | .fillRefill _ => True
  | .usePool _ => True
  | _ => False

/-- A call that is not a refill, or one that posts all it reserves. -/
def FullRefill : XskOp κ → Xsk κ → Prop
  | .fillRefill nb, s => FillOk nb s
  | _, _ => True

/-- The published part of the fill ring. -/
def fillPublished (s : Xsk κ) : List UInt64 := slots s.fill.at s.fill.consumer s.fill.producer

def fillVerified :
    Verified (xskSys (κ := κ) fun op s => FillCall op ∧ FullRefill op s) FreshRings := by
  refine xskVerified ⟨False, False, True, 0, 0⟩ ?_ fun s hs => hs.inv False.elim
  rintro op s ⟨hcall, hfull⟩
  cases op with
  | fillRefill nb => exact ⟨id, hfull⟩
  | usePool f => exact id
  | txBurst nb cb => exact hcall.elim
  | txComplete nb => exact hcall.elim
  | rxBurst nb cb => exact hcall.elim

/-- **Refill publication**: what the kernel has read and what is in the ring for it to read is what
was popped from the pool, and a refill returns, and publishes, as many entries as it was asked
for, as there are free slots and as there are frames, whichever is least. -/
theorem fillRun_publication {c : Config Unit (Xsk κ) UInt32 (XskOp κ)}
    (h : Reach (xskSys fun op s => FillCall op ∧ FullRefill op s) FreshRings c) :
    c.mem.fillSeen <+: c.mem.popped ∧
      (c.th () = .idle → c.mem.popped = c.mem.fillSeen ++ fillPublished c.mem) ∧
      ∀ nb s₀ r, c.th () = .busy (.fillRefill nb) s₀ (.ret r) →
        r.toNat = min nb.toNat (min (fillFree s₀) s₀.pool.available) ∧
        c.mem.fill.producer = s₀.fill.producer + r := by
  let V := fillVerified (κ := κ)
  have hstream := (V.sound h).1.fillStream
  refine ⟨⟨_, hstream.symm⟩, fun hidle => ?_, fun nb s₀ r hbusy => ?_⟩
  · obtain ⟨⟨hcur, -⟩, -⟩ : Idle c.mem := V.idle_of_reach h hidle
    rw [hcur] at hstream
    exact hstream
  · obtain ⟨-, hr, hp⟩ : OpPost (.fillRefill nb) s₀ r c.mem := V.post_of_reach h hbusy
    exact ⟨hr, hp⟩

theorem fillRun_publication_four :
    fillPublished ((fillRefill 9).run sampleXsk).2 = [0, 2048, 4096, 6144] := by
  have hrefill : FillOk 9 sampleXsk := by
    rw [FillOk]
    decide
  have hstart := Reach.initial (S := xskSys fun op s => FillCall op ∧ FullRefill op s)
    sampleXsk_fresh.toFreshRings
  have hrun := hstart.call () (.fillRefill 9) ⟨trivial, hrefill⟩ rfl
  have hpopped : ((fillRefill 9).run sampleXsk).2.popped = [0, 2048, 4096, 6144] := rfl
  exact ((fillRun_publication hrun).2.1 rfl).symm.trans hpopped

/-- A refill of two from a pool of one frame, then, with another frame freed, a refill of one: the
kernel reads a slot that was never written. -/
theorem fillRun_stale : ∃ c : Config Unit (Xsk Unit) UInt32 (XskOp Unit),
    Reach (xskSys fun op _ => FillCall op) FreshRings c ∧ c.th () = .idle ∧
      c.mem.popped = [0, 2048] ∧ c.mem.fillSeen = [0, 0] := by
  have hstart := Reach.initial (S := xskSys fun op _ => FillCall op) sampleXsk_fresh.toFreshRings
  have h1 := hstart.call () (.usePool fun p => { p with stack := [0] }) trivial rfl
  have h2 := h1.call () (.fillRefill 2) trivial rfl
  have h3 := h2.call () (.usePool fun p => (p.free 2048).2) trivial rfl
  have h4 := h3.call () (.fillRefill 1) trivial rfl
  have h5 := reach_kernel h4 (fillTake_step (by decide +kernel))
  refine ⟨_, reach_kernel h5 (fillTake_step (by decide +kernel)), rfl, ?_, ?_⟩
  · decide +kernel
  · decide +kernel

/-! ## Receive runs -/

/-- A fresh UMEM with no fewer chunks than the fill ring has slots. -/
def SinkStart (numFrames chunkSize : UInt32) (s : Xsk κ) : Prop :=
  FreshUmem numFrames chunkSize s ∧ s.fill.view.size ≤ numFrames

/-- The calls of a worker that only receives: a refill of the whole fill ring at the start, and
bursts. -/
def SinkCall (numFrames chunkSize : UInt32) : XskOp κ → Xsk κ → Prop
  | .fillRefill nb, s => nb = s.fill.view.size ∧ SinkStart numFrames chunkSize s
  | .rxBurst _ _, _ => True
  | _, _ => False

theorem SinkStart.fillOk {numFrames chunkSize : UInt32} {s : Xsk κ}
    (h : SinkStart numFrames chunkSize s) (nb : UInt32) : FillOk nb s := by
  obtain ⟨hfresh, hsize⟩ := h
  obtain ⟨-, hstack, -⟩ := FramePool.init_some hfresh.pool
  rw [UInt32.le_iff_toNat_le] at hsize
  rw [FillOk, fillFree, hstack, length_chunks]
  omega

def sinkVerified (numFrames chunkSize : UInt32) :
    Verified (xskSys (κ := κ) (SinkCall numFrames chunkSize)) (SinkStart numFrames chunkSize) := by
  refine xskVerified ⟨True, False, True, numFrames, chunkSize⟩ ?_ fun s hs => hs.1.inv
  intro op s hcall
  cases op with
  | fillRefill nb => exact ⟨id, hcall.2.fillOk nb⟩
  | rxBurst nb cb => exact ⟨trivial, id⟩
  | txBurst nb cb => exact hcall.elim
  | txComplete nb => exact hcall.elim
  | usePool f => exact hcall.elim

/-- Where chunks are when only receive calls are made: the pool, the published part of the fill
ring, the entries of it that a refill in progress has written, the kernel, and the frames of the
receive ring that a burst in progress has not recycled. -/
def rxPlaces (s : Xsk κ) : List UInt64 :=
  s.pool.stack ++ ((fillPublished s ++ slots s.fill.at s.fill.producer s.fill.cur) ++
    (s.kernelRx ++ (slots s.rx.at s.rx.cur s.rx.producer).map fun d => s.pool.chunkBase d.addr))

theorem places_rxOnly {s : Xsk κ} (hfill : ProdOk s.fill) (hn : NoTx s) :
    places s = rxPlaces s := by
  obtain ⟨htx, htxCur, hkernel, hcomp⟩ := hn
  have hlt := hfill.gaps_le
  have h1 : txHeld s = [] := by rw [txHeld, htxCur, htx, slots_self, List.map_nil]
  have h2 : compHeld s = [] := by rw [compHeld, hcomp, slots_self]
  have h3 : fillHeld s = fillPublished s ++ slots s.fill.at s.fill.producer s.fill.cur :=
    slots_append _ (by omega)
  rw [places, h1, h2, h3, hkernel, rxPlaces, rxHeld]
  simp only [List.append_nil]

/-- **Receive conservation**: at every step every chunk is in exactly one place, every free in a
burst has succeeded, and between calls the fill ring has nothing reserved, nothing written but
unpublished, and the receive ring nothing recycled but unreleased. -/
theorem sinkRun_conservation {numFrames chunkSize : UInt32}
    {c : Config Unit (Xsk κ) UInt32 (XskOp κ)}
    (h : Reach (xskSys (SinkCall numFrames chunkSize)) (SinkStart numFrames chunkSize) c) :
    (chunks numFrames.toNat chunkSize).Perm (rxPlaces c.mem) ∧ (rxPlaces c.mem).Nodup ∧
      c.mem.rxFreeFailures = 0 ∧
      (c.th () = .idle → c.mem.fill.view.cachedProd = c.mem.fill.producer ∧
        c.mem.fill.cur = c.mem.fill.producer ∧ c.mem.rx.cur = c.mem.rx.consumer) := by
  let V := sinkVerified (κ := κ) numFrames chunkSize
  have hinv := (V.sound h).1
  obtain ⟨hperm, hnodup⟩ := (hinv.owned trivial).exact
  rw [places_rxOnly hinv.fill (hinv.noTx trivial)] at hperm hnodup
  refine ⟨hperm, hnodup, (hinv.owned trivial).frees, fun hidle => ?_⟩
  obtain ⟨⟨hcur, hcached⟩, -, -, hrx⟩ : Idle c.mem := V.idle_of_reach h hidle
  exact ⟨hcached, hcur, hrx⟩

/-- A frame received at offset 256 of chunk 0, and a burst that recycles it. -/
theorem sinkRun_conservation_one : ∃ c : Config Unit (Xsk Unit) UInt32 (XskOp Unit),
    Reach (xskSys (SinkCall 4 2048)) (SinkStart 4 2048) c ∧ c.mem.fill.producer = 5 ∧
      (chunks 4 2048).Perm (rxPlaces c.mem) := by
  have hsample : SinkStart 4 2048 sampleXsk := ⟨sampleXsk_fresh, by decide⟩
  have hstart := Reach.initial (S := xskSys (SinkCall 4 2048)) hsample
  have h1 := hstart.call () (.fillRefill 4) ⟨rfl, hsample⟩ rfl
  have h2 := reach_kernel h1 (fillTake_step (by decide +kernel))
  have h3 := reach_kernel h2 (rxPost_step 0 ⟨256, 64, 0⟩ [1, 2] (by decide +kernel))
  have h4 := h3.call () (.rxBurst 8 none) trivial rfl
  exact ⟨_, h4, by decide +kernel, (sinkRun_conservation h4).1⟩

end Rewsr.Xdp
