import Rewsr.Xdp.Proof.Share

/-!
# The calls with the record

One triple for each call of the data path, in both directions at once and against a faithful
kernel. Refills and completions do not touch a frame, so what is proved of them on the state alone
carries over (`refill_wire`, `complete_wire`). The rounds of the two bursts are followed one by one.

A receive burst posts as many chunks as it passes on, for the receive side has no more than the fill
ring holds (`refill_share`): it leaves that side's share as it was (`rxBurst_share`).
-/

namespace Rewsr.Xdp

open Counter Interleave Rewsr.Ring

variable {κ : Type}

section
variable (J : List (List UInt8) → List (List UInt8) → κ → Prop) (P : List UInt8 → Prop)
  (numFrames chunkSize : UInt32)

/-- The context of the calls. The kernel's steps, and those of threads that change the callbacks'
data, leave the rest of what is private to the caller alone, and pass no frame on. -/
def wireCtx : Ctx (Xsk κ × Wire) where
  inv x := Inv (duplex numFrames chunkSize) x.1 ∧ WireInv J P x.1 x.2
  rely x y := Others (duplex numFrames chunkSize) (forget x.1) (forget y.1) ∧
    y.2.delivered = x.2.delivered
  guar _ _ := True
  refl _ := ⟨⟨rfl, fun _ => rfl⟩, rfl⟩
  trans h h' := ⟨⟨h'.1.1.trans h.1.1, fun hn => (h'.1.2 hn).trans (h.1.2 hn)⟩, h'.2.trans h.2⟩

end

section
variable {J : List (List UInt8) → List (List UInt8) → κ → Prop} {P : List UInt8 → Prop}
  {numFrames chunkSize : UInt32}

theorem inv_forget {m : Mode} {s : Xsk κ} : Inv m (forget s) ↔ Inv m s :=
  ⟨fun h => { h with owned := fun ho => { h.owned ho with } },
    fun h => { h with owned := fun ho => { h.owned ho with } }⟩

theorem inv_user {m : Mode} {s : Xsk κ} (h : Inv m s) (user : κ) : Inv m { s with user } :=
  { h with owned := fun ho => { h.owned ho with } }

/-- Assertions about the caller's own data, the callbacks' apart, are stable. -/
theorem stable_wire {A : Xsk Unit → Prop} (hA : ∀ s, A (priv s) ↔ A s) :
    Stable (wireCtx J P numFrames chunkSize) fun x => A (forget x.1) :=
  fun _ _ h hr hi => stable_of_priv (m := duplex numFrames chunkSize) hA h hr.1
    (inv_forget.2 hi.1)

theorem feeding_rely {x y : Xsk κ × Wire} (h : (wireCtx J P numFrames chunkSize).rely x y) :
    feeding y = feeding x := by
  have hpriv : priv (forget y.1) = priv (forget x.1) := h.1.1
  have hpopped : (priv (forget y.1)).popped = x.1.popped := congrArg Xsk.popped hpriv
  have hsize : (priv (forget y.1)).fill.view.size = x.1.fill.view.size :=
    congrArg (fun s => s.fill.view.size) hpriv
  change (_, _, _) = (_, _, _)
  rw [← hpopped, ← hsize, h.2]
  rfl

/-- Assertions about the caller's own data and the receive side's share. -/
theorem stable_share {A : Xsk Unit → Prop} (hA : ∀ s, A (priv s) ↔ A s)
    (B : Nat × Nat × UInt32 → Prop) :
    Stable (wireCtx J P numFrames chunkSize) fun x => A (forget x.1) ∧ B (feeding x) :=
  (stable_wire hA).and fun _ _ h hr _ => (feeding_rely hr).symm ▸ h

/-- A call that leaves the share alone. -/
theorem keeps_share {α : Type*} {p : Prog (Xsk κ) α}
    (hp : p.Keeps fun s => (s.popped, s.rx.cur, s.fill.view.size)) {A : Xsk κ × Wire → Prop}
    {Q : α → Xsk κ × Wire → Prop} (B : Nat × Nat × UInt32 → Prop)
    (h : Triple (wireCtx J P numFrames chunkSize) A (p.metered Wire.note) Q) :
    Triple (wireCtx J P numFrames chunkSize) (fun x => A x ∧ B (feeding x))
      (p.metered Wire.note) fun a x => Q a x ∧ B (feeding x) :=
  h.and ((feeding_keeps hp).only B) (fun _ _ => trivial) fun _ _ => feeding_rely

/-- What refills and completions keep. -/
def frames (s : Xsk κ) :
    (UInt64 → UInt8) × UInt32 × κ × SharedRing XdpDesc × SharedRing XdpDesc × List UInt64 ×
      List UInt64 × List UInt64 :=
  (s.area, s.frameSize, s.user, s.tx, s.rx, s.kernelTx, s.kernelRx, s.fillSeen)

theorem still_of_frames {s s' : Xsk κ} (h : frames s' = frames s)
    (hcs : s'.pool.chunkSize = s.pool.chunkSize) : Still s s' ∧ s'.user = s.user := by
  obtain ⟨harea, hsize, huser, htx, hrx, hkernel, hkernelRx, hseen⟩ :
      _ ∧ _ ∧ _ ∧ _ ∧ _ ∧ _ ∧ _ ∧ _ := by
    simpa only [frames, Prod.mk.injEq] using h
  refine ⟨⟨harea, hsize, hcs, ?_, ?_, ?_, ?_, ?_, ?_, hkernel, ?_⟩, huser⟩
  · rw [txDescs, htx, txDescs]
  · rw [htx]
  · rw [htx]
  · rw [rxDescs, hrx, rxDescs]
  · rw [hrx]
  · rw [hrx]
  · rw [hkernelRx, hseen]

/-- The data path's own context, seen without the callbacks' data, under that of the record. -/
theorem over_forget : Prog.Over forget frames Wire.note
    (xskCtx (duplex numFrames chunkSize)) (wireCtx J P numFrames chunkSize) where
  inv _ hi := inv_forget.2 hi.1
  rely _ _ hr := hr.1
  step x s' hi hs' hkeep := by
    have hi' := inv_forget.1 hs'
    have hcs := (hi'.owned trivial).chunkSize.trans (hi.1.owned trivial).chunkSize.symm
    obtain ⟨hstill, huser⟩ := still_of_frames hkeep hcs
    exact ⟨⟨hi', hi.2.still hstill (huser ▸ hi.2.client)⟩, trivial⟩

/-- A refill of no more than the frames there are. -/
theorem refill_wire (nb : UInt32) : Triple (wireCtx J P numFrames chunkSize)
    (fun x => nb.toNat ≤ x.1.pool.stack.length ∧ Idle x.1) ((fillRefill nb).metered Wire.note)
    fun _ x => Idle x.1 :=
  (fillRefill_through nb).triple (fillRefill_keeps (fun _ _ _ _ => rfl) nb) over_forget
    (fillRefill_triple id nb)

/-- A refill from a state in which it posts all it reserves. -/
theorem refill_wire_now {nb : UInt32} {x : Xsk κ × Wire}
    (hi : (wireCtx J P numFrames chunkSize).inv x) (hidle : Idle x.1) (hok : FillOk nb x.1) :
    Now (wireCtx J P numFrames chunkSize) (fun _ y => Idle y.1)
      ((fillRefill nb).metered Wire.note) x := by
  refine (fillRefill_through nb).now (Q := fun _ s => Idle s)
    (fillRefill_keeps (fun _ _ _ _ => rfl) nb) over_forget hi ?_
  exact (fillRefill_now id (over_forget.inv x hi) hidle hok).mono fun _ _ h => h.2.1

section
variable {size : UInt32} {share : Nat}

/-- In a fill ring with room for the receive side's share there is room for what was passed on. -/
theorem room_of_share {x : Xsk κ × Wire} (hi : (wireCtx J P numFrames chunkSize).inv x)
    (hidle : Idle x.1) {out : Nat} (hs : Share size share out 0 (feeding x))
    (hle : share ≤ size.toNat) : out ≤ fillFree x.1 := by
  obtain ⟨rfl, hheld⟩ := hs
  have hcount := hheld hle
  have hrecv := hi.2.recvHeld hi.1
  have hfill : (fillHeld x.1).length = gap x.1.fill.consumer x.1.fill.producer := by
    rw [fillHeld, length_slots, hidle.1.1]
  dsimp only [feeding] at hcount hle
  rw [recvHeld, hfill] at hrecv
  rw [fillFree]
  omega

/-- A refill that posts all it is asked for. -/
theorem refill_all (nb : UInt32) (hle : share ≤ size.toNat) :
    Triple (wireCtx J P numFrames chunkSize)
      (fun x => (nb.toNat ≤ x.1.pool.stack.length ∧ Idle x.1) ∧
        Share size share nb.toNat 0 (feeding x))
      ((fillRefill nb).metered Wire.note) fun r x => r = nb ∧ Idle x.1 := by
  rw [fillRefill_eq, Prog.metered_bind]
  refine Triple.bind (Q := fun free x => (if nb > free then free else nb) = nb ∧
    ∃ p₀, FillReady p₀ nb x.1) (Triple.metered_atomic (stable_share
      (A := fun s => nb.toNat ≤ s.pool.stack.length ∧ Idle s) (fun _ => Iff.rfl) _)
      (fun _ => (stable_wire (A := fun s => ∃ p₀, FillReady p₀ nb s) fun _ => Iff.rfl).and_fact _)
      fun x hx hi => ?_) fun free => Triple.of_fact fun hfree => Triple.of_exists fun p₀ => ?_
  · obtain ⟨⟨hlen, hidle⟩, hshare⟩ := hx
    have hroom := room_of_share hi hidle hshare hle
    obtain ⟨hinv, n, hn, hmin, hready⟩ := fillRefill_free hi.1 hidle
      (Nat.le_trans (Nat.min_le_left _ _) hlen) rfl
    have hall : n = nb := UInt32.toNat_inj.1 (hmin.trans (Nat.min_eq_left hroom))
    rw [hall] at hn hready
    exact ⟨⟨hinv, hi.2.still ⟨rfl, rfl, rfl, rfl, rfl, rfl, rfl, rfl, rfl, rfl, rfl⟩ hi.2.client⟩,
      trivial, hn.symm, _, hready⟩
  · rw [hfree]
    refine ((fillRest_through nb).triple (fillRest_keeps (fun _ _ _ _ => rfl) nb) over_forget
      (fillRest_triple id)).mono ?_
    rintro r x ⟨rfl, hidle, -⟩
    exact ⟨rfl, hidle⟩

/-- **A refill of what was passed on** makes up the receive side's share. -/
theorem refill_share (nb : UInt32) : Triple (wireCtx J P numFrames chunkSize)
    (fun x => (nb.toNat ≤ x.1.pool.stack.length ∧ Idle x.1) ∧
      Share size share nb.toNat 0 (feeding x))
    ((fillRefill nb).metered Wire.note)
    fun _ x => Idle x.1 ∧ Share size share 0 0 (feeding x) := by
  have hfeeds := @fillRefill_feeds κ size share nb.toNat nb
  by_cases hle : share ≤ size.toNat
  · refine (((refill_all nb hle).and hfeeds (fun _ _ => trivial) fun _ _ => feeding_rely).weaken
      fun x hx _ => ⟨hx, hx.2⟩).mono ?_
    rintro r x ⟨⟨rfl, hidle⟩, hsize, hheld⟩
    refine ⟨hidle, hsize, fun h => ?_⟩
    have hcount := hheld h
    omega
  · refine ((refill_wire nb).and hfeeds (fun _ _ => trivial) fun _ _ => feeding_rely).mono ?_
    rintro r x ⟨hidle, hsize, -⟩
    exact ⟨hidle, hsize, fun h => absurd h hle⟩

end

theorem complete_wire (nb : UInt32) : Triple (wireCtx J P numFrames chunkSize)
    (fun x => Idle x.1) ((txComplete nb).metered Wire.note) fun _ x => Idle x.1 :=
  (txComplete_through nb).triple (txComplete_keeps (fun _ _ _ => rfl) nb) over_forget
    (Triple.of_now stable_idle fun _ hs hi => txComplete_now hi hs)

/-! ## Receiving -/

/-- A step on the view of the receive ring. -/
theorem rxView_wire {x : Xsk κ × Wire} (hi : (wireCtx J P numFrames chunkSize).inv x) {v : XskRing}
    (hok : ConsOk { x.1.rx with view := v }) (hat : { x.1.rx with view := v }.at = x.1.rx.at) :
    let s' := { x.1 with rx := { x.1.rx with view := v } }
    (wireCtx J P numFrames chunkSize).inv (s', Wire.note x.1 s' x.2) := by
  have hdescs : rxDescs { x.1 with rx := { x.1.rx with view := v } } = rxDescs x.1 :=
    congrArg (slots · x.1.rx.cur x.1.rx.producer) hat
  exact ⟨rxView_inv hi.1 hok hat,
    hi.2.still ⟨rfl, rfl, rfl, rfl, rfl, rfl, hdescs, rfl, rfl, rfl, rfl⟩ hi.2.client⟩

section
variable {size : UInt32} {share : Nat}

theorem stable_rxLoop (c₀ total : UInt32) (n : Nat) (k : UInt32) (out : Nat) :
    Stable (wireCtx J P numFrames chunkSize) fun x : Xsk κ × Wire =>
      RxLoop c₀ total n k x.1 ∧ Share size share out 0 (feeding x) :=
  stable_share (A := RxLoop c₀ total n k) (fun _ => Iff.rfl) _

theorem rxLoop_wire {cb : Option (RxCb κ)} (hcb : Receives J P cb) {c₀ total : UInt32} (n : Nat)
    (k : UInt32) : Triple (wireCtx J P numFrames chunkSize)
      (fun x => RxLoop c₀ total n k x.1 ∧ Share size share k.toNat 0 (feeding x))
      ((rxLoop cb c₀ n k).metered Wire.note)
      fun _ x => RxLoop c₀ total 0 total x.1 ∧ Share size share total.toNat 0 (feeding x) := by
  induction n generalizing k with
  | zero =>
    refine Triple.pure (stable_rxLoop ..) fun x hx _ => ?_
    obtain rfl : k = total := UInt32.toNat_inj.1 hx.1.1.2.2.2
    exact hx
  | succ n ih =>
    rw [rxLoop, Prog.metered_bind]
    refine Triple.bind (Q := fun _ x => RxLoop c₀ total n (k + 1) x.1 ∧
      Share size share (k + 1).toNat 0 (feeding x)) (Triple.metered_atomic (stable_rxLoop ..)
        (fun _ => stable_rxLoop ..) fun x hx hi => ?_) fun _ => ih (k + 1)
    obtain ⟨⟨hr, hlen, hrest⟩, hsize, hheld⟩ := hx
    have hpos : 0 < gap x.1.rx.cur x.1.rx.view.cachedProd :=
      Nat.lt_of_lt_of_le (Nat.succ_pos n) hr.2.2.1
    have hsucc := toNat_succ_of_lt hr.2.2.2
    rw [← hr.2.1]
    obtain ⟨hinv, hpool⟩ := rxOne_inv hi.1 trivial cb hpos
    refine ⟨⟨hinv, hi.2.rxGet hi.1 trivial hcb hpos⟩, trivial, ⟨hr.next, ?_, hrest⟩, hsize,
      fun hle => ?_⟩
    · dsimp only
      omega
    · have hcount := hheld hle
      have hone : (Wire.note x.1 (rxOne cb x.1.rx.cur x.1) x.2).delivered.length =
          x.2.delivered.length + 1 :=
        (congrArg List.length (logIf_succ ..)).trans (List.length_append ..)
      dsimp only [feeding] at hcount ⊢
      rw [hone, hsucc]
      change x.1.popped.length + _ = _
      omega

/-- The release of the frames a burst has passed on. -/
theorem rxRelease_wire {c₀ got : UInt32} : Triple (wireCtx J P numFrames chunkSize)
    (fun x => RxLoop c₀ got 0 got x.1) ((rxRing.consRelease got id).metered Wire.note)
    fun _ x => got.toNat ≤ x.1.pool.stack.length ∧ Idle x.1 := by
  have hstable : Stable (wireCtx J P numFrames chunkSize)
      fun x : Xsk κ × Wire => RxLoop c₀ got 0 got x.1 :=
    stable_wire (A := RxLoop c₀ got 0 got) fun _ => Iff.rfl
  rw [Ref.consRelease, Prog.metered_bind]
  refine Triple.bind (Q := fun c x => c = c₀ ∧ RxLoop c₀ got 0 got x.1)
    (Triple.metered_atomic hstable (fun _ => hstable.and_fact _) fun x hx hi => ?_) fun c => ?_
  · exact ⟨⟨hi.1, hi.2.still ⟨rfl, rfl, rfl, rfl, rfl, rfl, rfl, rfl, rfl, rfl, rfl⟩ hi.2.client⟩,
      trivial, hx.1.1, hx⟩
  · refine Triple.metered_atomic (hstable.and_fact _) (fun _ => stable_wire
      (A := fun s => got.toNat ≤ s.pool.stack.length ∧ Idle s) fun _ => Iff.rfl) fun x hx hi => ?_
    obtain ⟨rfl, hr, hlen, hfill, htx, hcomp⟩ := hx
    have hcur := hr.finish
    refine ⟨⟨rxRelease_inv hi.1 hcur.symm ?_,
      hi.2.still ⟨rfl, rfl, rfl, rfl, rfl, rfl, rfl, rfl, rfl, rfl, rfl⟩ hi.2.client⟩, trivial, hlen,
      hfill, htx, hcomp, hcur⟩
    rw [hcur, ← hr.1]
    exact congrArg (· + got) hi.1.rx.own

theorem rxRelease_keeps (got : UInt32) : (rxRing.consRelease got id : Prog (Xsk κ) PUnit).Keeps
    fun s => (s.popped, s.rx.cur, s.fill.view.size) :=
  Prog.Keeps.bind (Prog.keeps_atomic fun _ => rfl) fun _ => Prog.keeps_atomic fun _ => rfl

/-- **A receive burst** passes the frames on and tops the fill ring up again. -/
theorem rxBurst_share {cb : Option (RxCb κ)} (hcb : Receives J P cb) (nb : UInt32) :
    Triple (wireCtx J P numFrames chunkSize)
      (fun x => Idle x.1 ∧ Share size share 0 0 (feeding x)) ((rxBurst nb cb).metered Wire.note)
      fun _ x => Idle x.1 ∧ Share size share 0 0 (feeding x) := by
  have hidle : Stable (wireCtx J P numFrames chunkSize)
      fun x : Xsk κ × Wire => Idle x.1 ∧ Share size share 0 0 (feeding x) :=
    stable_share (A := Idle) (fun _ => Iff.rfl) _
  rw [rxBurst, Prog.metered_bind]
  refine Triple.bind (Q := fun res x => ∃ c₀, res.2 = c₀ ∧ RxLoop c₀ res.1 res.1.toNat 0 x.1 ∧
    Share size share 0 0 (feeding x)) (Triple.metered_atomic hidle (fun res => ?_)
      fun x hx hi => ?_) fun res => Triple.of_exists fun c₀ => Triple.of_fact ?_
  · rintro x y ⟨c₀, hres, hx⟩ hr hi
    exact ⟨c₀, hres, stable_rxLoop c₀ _ _ _ _ hx hr hi⟩
  · obtain ⟨⟨hfill, htx, hcomp, hrx⟩, hshare⟩ := hx
    obtain ⟨hok, hat, hidx, -, hle⟩ := hi.1.rx.peek hrx nb rfl
    refine ⟨rxView_wire hi hok hat, trivial, _, hidx.trans hrx,
      ⟨⟨rfl, ?_, hle, Nat.zero_add _⟩, Nat.zero_le _, hfill, htx, hcomp⟩, hshare.1, fun h => ?_⟩
    · rw [UInt32.add_zero]
      exact hrx
    · dsimp only [feeding]
      rw [note_delivered]
      · exact hshare.2 h
      · rfl
  · obtain ⟨got, idx⟩ := res
    rintro rfl
    simp only [Prog.metered_bind]
    refine Triple.bind (rxLoop_wire hcb got.toNat 0) fun _ => ?_
    refine Triple.bind (keeps_share (rxRelease_keeps got) _ rxRelease_wire) fun _ => ?_
    refine Triple.bind (refill_share got) fun _ => ?_
    exact Triple.pure hidle fun x hx _ => hx

/-- A receive burst, whatever the receive side has. -/
theorem rxBurst_wire {cb : Option (RxCb κ)} (hcb : Receives J P cb) (nb : UInt32) :
    Triple (wireCtx J P numFrames chunkSize) (fun x => Idle x.1)
      ((rxBurst nb cb).metered Wire.note) fun _ x => Idle x.1 := by
  intro x hx hi
  have hrecv := hi.2.recvHeld hi.1
  have hshare : Share x.1.fill.view.size (recvHeld x.1) 0 0 (feeding x) := ⟨rfl, fun _ => hrecv⟩
  exact (rxBurst_share hcb nb ⟨hx, hshare⟩ hi).mono fun _ _ h => h.1

end

/-! ## Transmitting -/

/-- When a transmit burst queues all it reserves, for a callback that accepts every buffer: the
reservation fails, or the pool has the frames. -/
def TxRoom (nb : UInt32) (s : Xsk κ) : Prop :=
  s.tx.view.size.toNat < gap s.tx.consumer s.tx.producer + nb.toNat ∨
    nb.toNat ≤ s.pool.stack.length

/-- The loop of a transmit burst: the pool has a frame for every entry left. -/
def TxWriting (p₀ total : UInt32) (n : Nat) (k : UInt32) (s : Xsk κ) : Prop :=
  Writing s.tx p₀ total n k ∧ n ≤ s.pool.stack.length ∧ ProdIdle s.fill ∧ ConsIdle s.comp ∧
    ConsIdle s.rx

theorem stable_txWriting (p₀ total : UInt32) (n : Nat) (k : UInt32) :
    Stable (wireCtx J P numFrames chunkSize)
      fun x : Xsk κ × Wire => TxWriting p₀ total n k x.1 :=
  stable_wire (A := TxWriting p₀ total n k) fun _ => Iff.rfl

/-- A round with a frame queues it. -/
theorem txOne_wire {cb : Option (TxCb κ)} (hcb : Sends J chunkSize cb) {p₀ total : UInt32} {n : Nat}
    {k : UInt32} {x : Xsk κ × Wire} (hx : TxWriting p₀ total (n + 1) k x.1)
    (hi : (wireCtx J P numFrames chunkSize).inv x) : ∃ s',
      txOne cb (p₀ + k) x.1 = (.queued, s') ∧ TxWriting p₀ total n (k + 1) s' ∧
        (wireCtx J P numFrames chunkSize).inv (s', Wire.note x.1 s' x.2) := by
  obtain ⟨hw, hlen, hrest⟩ := hx
  obtain ⟨f, rfl, hf⟩ := hcb
  have hpos : 0 < gap x.1.tx.cur x.1.tx.view.cachedProd := by
    rw [hw.2.2.1]
    exact Nat.succ_pos n
  have hsize : x.1.frameSize = chunkSize := hi.2.frameSize.trans (hi.1.owned trivial).chunkSize
  cases hstack : x.1.pool.stack with
  | nil =>
    rw [hstack] at hlen
    cases hlen
  | cons addr stack =>
    rw [hstack, List.length_cons] at hlen
    obtain ⟨hne, hfits, hcap, hclient⟩ := hf _ _ _ (readArea x.1.area addr x.1.frameSize.toNat)
      hi.2.client (by rw [length_readArea, hsize])
    have hround := @txOne_queued _ (some f) _ x.1.tx.cur _ _ hstack hne
    rw [← hw.2.1, hround]
    refine ⟨_, rfl, ⟨hw.put _, Nat.le_of_succ_le_succ hlen, hrest⟩,
      txOne_inv hi.1 id _ _ hpos hstack, ?_⟩
    have htake : (f (readArea x.1.area addr x.1.frameSize.toNat) x.1.user).2.1.take
        x.1.frameSize.toNat = (f (readArea x.1.area addr x.1.frameSize.toNat) x.1.user).2.1 :=
      List.take_of_length_le (hsize ▸ hcap)
    simp only [Xdp.txFill, htake]
    exact hi.2.txPut hi.1 trivial hpos hstack hfits (hsize ▸ hcap) hclient

theorem txLoop_wire {cb : Option (TxCb κ)} (hcb : Sends J chunkSize cb) {p₀ total idx : UInt32}
    (n : Nat) (k : UInt32) (hidx : n = 0 ∨ idx = p₀) :
    Triple (wireCtx J P numFrames chunkSize) (fun x => TxWriting p₀ total n k x.1)
      ((txLoop cb idx n k).metered Wire.note)
      fun r x => r = total ∧ TxWriting p₀ total 0 total x.1 := by
  induction n generalizing k with
  | zero =>
    refine Triple.pure ((stable_txWriting ..).and_fact _) fun x hx _ => ?_
    obtain ⟨rfl, -, -⟩ := hx.1.finish
    exact ⟨rfl, hx⟩
  | succ n ih =>
    obtain rfl : idx = p₀ := hidx.resolve_left (Nat.succ_ne_zero n)
    rw [txLoop, Prog.metered_bind]
    refine Triple.bind (Q := fun r x => r = .queued ∧ TxWriting idx total n (k + 1) x.1)
      (Triple.metered_atomic (stable_txWriting ..) (fun _ => (stable_txWriting ..).and_fact _)
        fun x hx hi => ?_) fun r => Triple.of_fact ?_
    · obtain ⟨s', hround, hnext, hinv⟩ := txOne_wire hcb hx hi
      rw [hround]
      exact ⟨hinv, trivial, rfl, hnext⟩
    · rintro rfl
      exact ih (k + 1) (.inr rfl)

/-- Everything written is submitted. -/
theorem txSubmit_wire {p₀ q : UInt32} : Triple (wireCtx J P numFrames chunkSize)
    (fun x => TxWriting p₀ q 0 q x.1) ((txRing.prodSubmit q id).metered Wire.note)
    fun _ x => Idle x.1 := by
  rw [Ref.prodSubmit, Prog.metered_bind]
  refine Triple.bind (Q := fun p x => p = p₀ ∧ TxWriting p₀ q 0 q x.1)
    (Triple.metered_atomic (stable_txWriting ..) (fun _ => (stable_txWriting ..).and_fact _)
      fun x hx hi => ?_) fun p => ?_
  · exact ⟨⟨hi.1, hi.2.still ⟨rfl, rfl, rfl, rfl, rfl, rfl, rfl, rfl, rfl, rfl, rfl⟩ hi.2.client⟩,
      trivial, hx.1.1, hx⟩
  · refine Triple.metered_atomic ((stable_txWriting ..).and_fact _)
      (fun _ => stable_wire (A := Idle) fun _ => Iff.rfl) fun x hx hi => ?_
    obtain ⟨rfl, hw, -, hfill, hrest⟩ := hx
    obtain ⟨-, hcur, hcached⟩ := hw.finish
    exact ⟨⟨txSubmit_inv hi.1 id hcur.symm,
      hi.2.still ⟨rfl, rfl, rfl, rfl, rfl, rfl, rfl, rfl, rfl, rfl, rfl⟩ hi.2.client⟩, trivial, hfill,
      ⟨hcur, hcached.trans hcur⟩, hrest⟩

theorem txReserve_wire {x : Xsk κ × Wire} (hi : (wireCtx J P numFrames chunkSize).inv x)
    (hidle : Idle x.1) {nb n idx : UInt32} {v : XskRing} (hroom : TxRoom nb x.1)
    (heq : prodReserve x.1.tx.view x.1.tx.consumer nb = ((n, idx), v)) :
    let s' := { x.1 with tx := { x.1.tx with view := v } }
    (wireCtx J P numFrames chunkSize).inv (s', Wire.note x.1 s' x.2) ∧
      (n.toNat = 0 ∨ idx = x.1.tx.producer) ∧ TxWriting x.1.tx.producer n n.toNat 0 s' := by
  obtain ⟨hfill, htx, hrest⟩ := hidle
  obtain ⟨hring, hat, hgap, hcase⟩ := hi.1.tx.reserve htx heq
  have hcur : x.1.tx.cur = x.1.tx.producer + 0 := by rw [UInt32.add_zero, htx.1]
  have hdescs : txDescs { x.1 with tx := { x.1.tx with view := v } } = txDescs x.1 :=
    congrArg (slots · x.1.tx.consumer x.1.tx.cur) hat
  refine ⟨⟨txView_inv hi.1 hring hat,
    hi.2.still ⟨rfl, rfl, rfl, hdescs, rfl, rfl, rfl, rfl, rfl, rfl, rfl⟩ hi.2.client⟩, ?_⟩
  rcases hcase with ⟨rfl, rfl, hfit⟩ | ⟨rfl, -⟩
  · have hlen := hroom.resolve_left (by omega)
    exact ⟨.inr htx.1, ⟨rfl, hcur, hgap, Nat.zero_add _⟩, hlen, hfill, hrest⟩
  · exact ⟨.inl rfl, ⟨rfl, hcur, hgap, Nat.zero_add _⟩, Nat.zero_le _, hfill, hrest⟩

/-- **A transmit burst**, from a state in which it queues all it reserves. -/
theorem txBurst_wire {cb : Option (TxCb κ)} (hcb : Sends J chunkSize cb) {nb : UInt32}
    {x : Xsk κ × Wire} (hi : (wireCtx J P numFrames chunkSize).inv x) (hidle : Idle x.1)
    (hroom : TxRoom nb x.1) : Now (wireCtx J P numFrames chunkSize) (fun _ y => Idle y.1)
      ((txBurst nb cb).metered Wire.note) x := by
  obtain ⟨hinv, hidx, hloop⟩ := txReserve_wire hi hidle hroom rfl
  rw [txBurst, Prog.metered_bind]
  refine Now.metered_atomic_bind (Q := fun res y => (res.1.toNat = 0 ∨ res.2 = x.1.tx.producer) ∧
    TxWriting x.1.tx.producer res.1 res.1.toNat 0 y.1) ⟨hinv, trivial, hidx, hloop⟩
    fun res => Triple.of_fact fun hidx => ?_
  obtain ⟨reserved, idx⟩ := res
  simp only [Prog.metered_bind]
  refine Triple.bind (txLoop_wire hcb reserved.toNat 0 hidx) fun queued => Triple.of_fact ?_
  rintro rfl
  refine Triple.bind txSubmit_wire fun _ => ?_
  exact Triple.pure (stable_wire (A := Idle) fun _ => Iff.rfl) fun x hx _ => hx

end

end Rewsr.Xdp
