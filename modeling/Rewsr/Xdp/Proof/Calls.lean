import Rewsr.Xdp.Proof.Xsk

/-!
# The calls of the data path

One specification for each call, against any kernel steps in between. A refill or a transmit burst
uses up its whole reservation when the pool holds enough frames (`FillOk`) and, for a burst, the
callback accepts each of them (`TxOk`); then nothing is left reserved when it returns
(`fillRefill_now`, `txBurst_now`). A receive burst frees as many chunks as it then refills, so its
refill always does (`rxBurst_now`). `xskVerified` puts the calls together.
-/

namespace Rewsr.Xdp

open Counter Interleave Rewsr.Ring

variable {κ : Type} {m : Mode}

/-! ## Refilling -/

/-- The loop of a refill: the pool has a frame for every entry left. -/
def FillLoop (p₀ total : UInt32) (n : Nat) (k : UInt32) (s : Xsk κ) : Prop :=
  Writing s.fill p₀ total n k ∧ n ≤ s.pool.stack.length ∧ ProdIdle s.tx ∧ ConsIdle s.comp ∧
    ConsIdle s.rx

/-- A round with a frame to post. -/
theorem fillOne_posted {s : Xsk κ} (slot : UInt32) {addr : UInt64} {stack : List UInt64}
    (hstack : s.pool.stack = addr :: stack) :
    fillOne slot s = (true,
      { s with pool := { s.pool with stack }
               fill := { s.fill.put slot addr with cur := slot + 1 }
               popped := s.popped ++ [addr] }) := by
  rw [fillOne, FramePool.alloc, hstack]

theorem fillLoop_triple (hm : ¬ m.noRx) {p₀ total : UInt32} (n : Nat) (k : UInt32) :
    Triple (xskCtx m) (FillLoop (κ := κ) p₀ total n k) (fillLoop p₀ n k)
      fun r s => r = total ∧ FillLoop p₀ total 0 total s := by
  induction n generalizing k with
  | zero =>
    refine Triple.pure (stable_of_priv fun _ => Iff.rfl) fun s hs _ => ?_
    obtain ⟨rfl, -, -⟩ := hs.1.finish
    exact ⟨rfl, hs⟩
  | succ n ih =>
    refine Triple.bind (Q := fun more s => more = true ∧ FillLoop p₀ total n (k + 1) s)
      (Triple.atomic (stable_of_priv fun _ => Iff.rfl)
        (fun _ => stable_of_priv fun _ => Iff.rfl) ?_) fun more => ?_
    · intro s hs hi
      obtain ⟨hw, hlen, hrest⟩ := hs
      cases hstack : s.pool.stack with
      | nil =>
        rw [hstack] at hlen
        cases hlen
      | cons addr stack =>
        rw [hstack, List.length_cons] at hlen
        rw [← hw.2.1, fillOne_posted _ hstack]
        refine ⟨fillOne_inv hi hm (by rw [hw.2.2.1]; omega) hstack, trivial, rfl, hw.put addr, ?_,
          hrest⟩
        exact Nat.le_of_succ_le_succ hlen
    · cases more with
      | false => exact fun s hs => nomatch hs.1
      | true => exact (ih (k + 1)).weaken fun s hs _ => hs.2

/-- A refill that has found room for `nb` entries, with frames for all of them. -/
def FillReady (p₀ nb : UInt32) (s : Xsk κ) : Prop :=
  Idle s ∧ s.fill.producer = p₀ ∧
    gap s.fill.view.cachedCons s.fill.producer + nb.toNat ≤ s.fill.view.size.toNat ∧
    nb.toNat ≤ s.pool.stack.length

/-- What a refill leaves: nothing reserved, and `nb` entries published. -/
def FillDone (p₀ nb : UInt32) (s : Xsk κ) : Prop := Idle s ∧ s.fill.producer = p₀ + nb

theorem fillReserve_ok {s : Xsk κ} (h : Inv m s) {p₀ nb : UInt32} (hs : FillReady p₀ nb s)
    {res : UInt32 × UInt32} {v : XskRing}
    (heq : prodReserve s.fill.view s.fill.consumer nb = (res, v)) :
    res = (nb, p₀) ∧ Inv m { s with fill := { s.fill with view := v } } ∧
      FillLoop p₀ nb nb.toNat 0 { s with fill := { s.fill with view := v } } := by
  obtain ⟨⟨hidle, hrest⟩, rfl, hroom, hlen⟩ := hs
  obtain ⟨n, idx⟩ := res
  obtain ⟨hok, hat, hgap, hcase⟩ := h.fill.reserve hidle heq
  have hsum := h.fill.room
  have hlt := h.fill.gaps_le
  have htrans := gap_trans (a := s.fill.view.cachedCons) (b := s.fill.consumer)
    (c := s.fill.producer) (by omega)
  rcases hcase with ⟨rfl, rfl, -⟩ | ⟨-, hfull⟩
  · refine ⟨by rw [hidle.1], fillView_inv h hok hat, ⟨rfl, ?_, hgap, Nat.zero_add _⟩, hlen, hrest⟩
    rw [UInt32.add_zero]
    exact hidle.1
  · omega

theorem fillRest_triple (hm : ¬ m.noRx) {p₀ nb : UInt32} :
    Triple (xskCtx m) (FillReady (κ := κ) p₀ nb)
      (do
        let (reserved, idx) ← fillRing.prodReserve nb
        let posted ← fillLoop idx reserved.toNat 0
        fillRing.prodSubmit posted id
        return posted)
      fun r s => r = nb ∧ FillDone p₀ nb s := by
  refine Triple.bind (Q := fun res s => res = (nb, p₀) ∧ FillLoop p₀ nb nb.toNat 0 s)
    (Triple.atomic (stable_of_priv fun _ => Iff.rfl)
      (fun _ => stable_of_priv fun _ => Iff.rfl) ?_) fun res => Triple.of_fact ?_
  · intro s hs hi
    obtain ⟨hres, hinv, hloop⟩ := fillReserve_ok hi hs rfl
    exact ⟨hinv, trivial, hres, hloop⟩
  · rintro rfl
    refine Triple.bind (fillLoop_triple hm nb.toNat 0) fun posted => Triple.of_fact ?_
    rintro rfl
    refine Triple.bind (Q := fun _ s => FillDone p₀ posted s) ?_ fun _ => ?_
    · refine prodSubmit_triple p₀ (stable_of_priv fun _ => Iff.rfl)
        (stable_of_priv fun _ => Iff.rfl) (fun _ => trivial) (fun s hs => hs.1.1) ?_
      intro s hs hi
      obtain ⟨hw, -, hrest⟩ := hs
      obtain ⟨-, hcur, hcached⟩ := hw.finish
      exact ⟨fillSubmit_inv hi hm hcur.symm, trivial, ⟨⟨hcur, hcached.trans hcur⟩, hrest⟩, rfl⟩
    · exact Triple.pure (stable_of_priv fun _ => Iff.rfl) fun s hs _ => ⟨rfl, hs⟩

/-- The slots of the fill ring that are free for the caller. -/
def fillFree (s : Xsk κ) : Nat := s.fill.view.size.toNat - gap s.fill.consumer s.fill.producer

theorem fillRefill_free {s : Xsk κ} (h : Inv m s) (hidle : Idle s) {nb free : UInt32} {v : XskRing}
    (hlen : min nb.toNat (fillFree s) ≤ s.pool.stack.length)
    (heq : prodFree s.fill.view s.fill.consumer = (free, v)) :
    Inv m { s with fill := { s.fill with view := v } } ∧
      ∃ n : UInt32, n = (if nb > free then free else nb) ∧ n.toNat = min nb.toNat (fillFree s) ∧
        FillReady s.fill.producer n { s with fill := { s.fill with view := v } } := by
  have hroom := h.fill.room
  obtain ⟨rfl, rfl⟩ := Prod.mk.inj heq
  have hfree : (s.fill.view.size - (s.fill.view.cachedProd - s.fill.consumer)).toNat =
      fillFree s := by
    rw [freeSlots_toNat (by rw [hidle.1.2]; omega), hidle.1.2, fillFree]
  have hmin : ∀ free : UInt32,
      (if nb > free then free else nb).toNat = min nb.toNat free.toNat := by
    intro free
    split
    · rename_i hgt
      rw [gt_iff_lt, UInt32.lt_iff_toNat_lt] at hgt
      omega
    · rename_i hgt
      rw [gt_iff_lt, UInt32.lt_iff_toNat_lt] at hgt
      omega
  refine ⟨fillView_inv h h.fill.refresh rfl, _, rfl, ?_, hidle, rfl, ?_, ?_⟩
  · rw [hmin, hfree]
  · rw [hmin, hfree, fillFree]
    dsimp only
    omega
  · rw [hmin, hfree]
    exact hlen

/-- When a refill posts everything it reserves. -/
def FillOk (nb : UInt32) (s : Xsk κ) : Prop :=
  min nb.toNat (fillFree s) ≤ s.pool.stack.length

theorem fillRefill_now (hm : ¬ m.noRx) {s : Xsk κ} (h : Inv m s) (hidle : Idle s) {nb : UInt32}
    (hok : FillOk nb s) : Now (xskCtx m)
      (fun r s' => r.toNat = min nb.toNat (fillFree s) ∧ FillDone s.fill.producer r s')
      (fillRefill nb) s := by
  obtain ⟨hinv, n, hn, hmin, hready⟩ := fillRefill_free h hidle hok rfl
  refine Now.atomic_bind (Q := fun free s' => n = (if nb > free then free else nb) ∧
    FillReady s.fill.producer n s') ⟨hinv, trivial, hn, hready⟩ fun free => Triple.of_fact ?_
  rintro rfl
  refine (fillRest_triple hm).mono ?_
  rintro r s' ⟨rfl, hdone⟩
  exact ⟨hmin, hdone⟩

/-- A refill of no more than the frames there are, at any time. -/
theorem fillRefill_triple (hm : ¬ m.noRx) (nb : UInt32) :
    Triple (xskCtx m) (fun s : Xsk κ => nb.toNat ≤ s.pool.stack.length ∧ Idle s) (fillRefill nb)
      fun _ s => Idle s := by
  refine Triple.bind (Q := fun free s => ∃ p₀, FillReady p₀ (if nb > free then free else nb) s)
    (Triple.atomic (stable_of_priv fun _ => Iff.rfl)
      (fun _ => stable_of_priv fun _ => Iff.rfl) ?_) fun free => Triple.of_exists fun p₀ => ?_
  · rintro s ⟨hlen, hidle⟩ hi
    obtain ⟨hinv, n, rfl, -, hready⟩ := fillRefill_free hi hidle
      (Nat.le_trans (Nat.min_le_left _ _) hlen) rfl
    exact ⟨hinv, trivial, _, hready⟩
  · refine (fillRest_triple hm).mono ?_
    rintro r s ⟨-, hidle, -⟩
    exact hidle

/-! ## Transmitting -/

/-- The callback returns a length for each of the frames `addrs` in turn. -/
def Accepts (cb : Option (TxCb κ)) (cap : UInt32) : List UInt64 → (UInt64 → UInt8) → κ → Prop
  | [], _, _ => True
  | addr :: addrs, area, user =>
    (txFill cb cap addr area user).1 ≠ 0 ∧
      Accepts cb cap addrs (txFill cb cap addr area user).2.1 (txFill cb cap addr area user).2.2

/-- The loop of a transmit burst: the pool has a frame for every entry left, and the callback will
accept it. -/
def TxLoop (cb : Option (TxCb κ)) (p₀ total : UInt32) (n : Nat) (k : UInt32)
    (area : UInt64 → UInt8) (s : Xsk κ) : Prop :=
  Writing s.tx p₀ total n k ∧ n ≤ s.pool.stack.length ∧
    Accepts cb s.frameSize (s.pool.stack.take n) area s.user ∧ ProdIdle s.fill ∧ ConsIdle s.comp ∧
    ConsIdle s.rx

/-- A round with a frame that the callback accepts. -/
theorem txOne_queued {cb : Option (TxCb κ)} {s : Xsk κ} (slot : UInt32) {addr : UInt64}
    {stack : List UInt64} (hstack : s.pool.stack = addr :: stack)
    (hlen : (txFill cb s.frameSize addr s.area s.user).1 ≠ 0) :
    txOne cb slot s = (.queued,
      let f := txFill cb s.frameSize addr s.area s.user
      { s with pool := { s.pool with stack }, area := f.2.1, user := f.2.2
               tx := { s.tx.put slot ⟨addr, f.1, 0⟩ with cur := slot + 1 }
               accepted := s.accepted ++ [(addr, f.1)] }) := by
  rw [txOne, FramePool.alloc, hstack]
  exact if_neg hlen

theorem stable_txLoop (hn : m.noRx) (cb : Option (TxCb κ)) (p₀ total : UInt32) (n : Nat)
    (k : UInt32) : Stable (xskCtx m) fun s => TxLoop cb p₀ total n k s.area s :=
  stable_of_priv_area hn fun _ _ => Iff.rfl

theorem txLoop_triple (hn : m.noRx) (hm : ¬ m.noTx) (cb : Option (TxCb κ)) {p₀ total idx : UInt32}
    (n : Nat) (k : UInt32) (hidx : n = 0 ∨ idx = p₀) :
    Triple (xskCtx m) (fun s => TxLoop cb p₀ total n k s.area s) (txLoop cb idx n k)
      fun r s => r = total ∧ TxLoop cb p₀ total 0 total s.area s := by
  induction n generalizing k with
  | zero =>
    refine Triple.pure ((stable_txLoop hn ..).and_fact _) fun s hs _ => ?_
    obtain ⟨rfl, -, -⟩ := hs.1.finish
    exact ⟨rfl, hs⟩
  | succ n ih =>
    obtain rfl : idx = p₀ := hidx.resolve_left (Nat.succ_ne_zero n)
    refine Triple.bind (Q := fun r s => r = .queued ∧ TxLoop cb idx total n (k + 1) s.area s)
      (Triple.atomic (stable_txLoop hn ..) (fun _ => (stable_txLoop hn ..).and_fact _) ?_)
      fun r => Triple.of_fact ?_
    · intro s hs hi
      obtain ⟨hw, hlen, hacc, hrest⟩ := hs
      cases hstack : s.pool.stack with
      | nil =>
        rw [hstack] at hlen
        cases hlen
      | cons addr stack =>
        rw [hstack, List.take_succ_cons, Accepts] at hacc
        rw [hstack, List.length_cons] at hlen
        rw [← hw.2.1, txOne_queued _ hstack hacc.1]
        refine ⟨txOne_inv hi hm _ _ (by rw [hw.2.2.1]; omega) hstack, trivial, rfl, hw.put _, ?_,
          hacc.2, hrest⟩
        exact Nat.le_of_succ_le_succ hlen
    · rintro rfl
      exact ih (k + 1) (.inr rfl)

/-- When a transmit burst queues everything it reserves: the reservation fails, or the pool has
the frames and the callback accepts them. -/
def TxOk (nb : UInt32) (cb : Option (TxCb κ)) (s : Xsk κ) : Prop :=
  s.tx.view.size.toNat < gap s.tx.consumer s.tx.producer + nb.toNat ∨
    (nb.toNat ≤ s.pool.stack.length ∧
      Accepts cb s.frameSize (s.pool.stack.take nb.toNat) s.area s.user)

theorem txReserve_ok {s : Xsk κ} (h : Inv m s) (hidle : Idle s) {nb n idx : UInt32}
    {cb : Option (TxCb κ)} {v : XskRing} (hok : TxOk nb cb s)
    (heq : prodReserve s.tx.view s.tx.consumer nb = ((n, idx), v)) :
    Inv m { s with tx := { s.tx with view := v } } ∧ (n.toNat = 0 ∨ idx = s.tx.producer) ∧
      TxLoop cb s.tx.producer n n.toNat 0 s.area { s with tx := { s.tx with view := v } } := by
  obtain ⟨hfill, htx, hrest⟩ := hidle
  obtain ⟨hring, hat, hgap, hcase⟩ := h.tx.reserve htx heq
  have hcur : s.tx.cur = s.tx.producer + 0 := by rw [UInt32.add_zero, htx.1]
  refine ⟨txView_inv h hring hat, ?_⟩
  rcases hcase with ⟨rfl, rfl, hfit⟩ | ⟨rfl, -⟩
  · obtain ⟨hlen, hacc⟩ := hok.resolve_left (by omega)
    exact ⟨.inr htx.1, ⟨rfl, hcur, hgap, Nat.zero_add _⟩, hlen, hacc, hfill, hrest⟩
  · exact ⟨.inl rfl, ⟨rfl, hcur, hgap, Nat.zero_add _⟩, Nat.zero_le _, trivial, hfill, hrest⟩

theorem txBurst_now (hn : m.noRx) (hm : ¬ m.noTx) {s : Xsk κ} (h : Inv m s) (hidle : Idle s)
    {nb : UInt32} {cb : Option (TxCb κ)} (hok : TxOk nb cb s) : Now (xskCtx m)
      (fun r s' => Idle s' ∧ s'.tx.producer = s.tx.producer + r) (txBurst nb cb) s := by
  obtain ⟨hinv, hidx, hloop⟩ := txReserve_ok h hidle hok rfl
  refine Now.atomic_bind (Q := fun res s' => (res.1.toNat = 0 ∨ res.2 = s.tx.producer) ∧
    TxLoop cb s.tx.producer res.1 res.1.toNat 0 s'.area s') ⟨hinv, trivial, hidx, hloop⟩
    fun res => Triple.of_fact fun hidx => ?_
  obtain ⟨reserved, idx⟩ := res
  refine Triple.bind (txLoop_triple hn hm cb reserved.toNat 0 hidx) fun queued => Triple.of_fact ?_
  rintro rfl
  refine Triple.bind (Q := fun _ s' => Idle s' ∧ s'.tx.producer = s.tx.producer + queued) ?_
    fun _ => ?_
  · refine prodSubmit_triple s.tx.producer (stable_txLoop hn ..)
      (stable_of_priv fun _ => Iff.rfl) (fun _ => trivial) (fun s' hs => hs.1.1) ?_
    intro s' hs hi
    obtain ⟨hw, -, -, hfill, hrest⟩ := hs
    obtain ⟨-, hcur, hcached⟩ := hw.finish
    exact ⟨txSubmit_inv hi hm hcur.symm, trivial, ⟨hfill, ⟨hcur, hcached.trans hcur⟩, hrest⟩, rfl⟩
  · exact Triple.pure (stable_of_priv fun _ => Iff.rfl) fun s' hs _ => hs

/-! ## Completions -/

def CompLoop (c₀ total : UInt32) (n : Nat) (k : UInt32) (s : Xsk κ) : Prop :=
  Reading s.comp c₀ total n k ∧ ProdIdle s.fill ∧ ProdIdle s.tx ∧ ConsIdle s.rx

theorem completeLoop_triple {c₀ total : UInt32} (n : Nat) (k : UInt32) :
    Triple (xskCtx m) (CompLoop (κ := κ) c₀ total n k) (completeLoop c₀ n k)
      fun _ s => CompLoop c₀ total 0 total s := by
  induction n generalizing k with
  | zero =>
    refine Triple.pure (stable_of_priv fun _ => Iff.rfl) fun s hs _ => ?_
    obtain rfl : k = total := UInt32.toNat_inj.1 hs.1.2.2.2
    exact hs
  | succ n ih =>
    refine Triple.bind (Q := fun _ s => CompLoop c₀ total n (k + 1) s)
      (Triple.atomic (stable_of_priv fun _ => Iff.rfl)
        (fun _ => stable_of_priv fun _ => Iff.rfl) ?_) fun _ => ih (k + 1)
    intro s hs hi
    obtain ⟨hr, hrest⟩ := hs
    rw [← hr.2.1]
    exact ⟨completeOne_inv hi (Nat.lt_of_lt_of_le (Nat.succ_pos n) hr.2.2.1), trivial, hr.next,
      hrest⟩

theorem txComplete_now {s : Xsk κ} (h : Inv m s) (hidle : Idle s) {nb : UInt32} :
    Now (xskCtx m) (fun _ s' => Idle s') (txComplete nb) s := by
  obtain ⟨hfill, htx, hcomp, hrx⟩ := hidle
  obtain ⟨hok, hat, hidx, -, hle⟩ := h.comp.peek hcomp nb rfl
  refine Now.atomic_bind (Q := fun res s' => res.2 = s.comp.consumer ∧
    CompLoop s.comp.consumer res.1 res.1.toNat 0 s') ⟨compView_inv h hok hat, trivial, ?_⟩
    fun res => Triple.of_fact fun hres => ?_
  · refine ⟨hidx.trans hcomp, ⟨rfl, ?_, hle, Nat.zero_add _⟩, hfill, htx, hrx⟩
    rw [UInt32.add_zero]
    exact hcomp
  · obtain ⟨got, idx⟩ := res
    obtain rfl : idx = s.comp.consumer := hres
    refine Triple.bind (completeLoop_triple got.toNat 0) fun _ => ?_
    refine Triple.bind (Q := fun _ s' => Idle s') ?_ fun _ => ?_
    · refine consRelease_triple s.comp.consumer (stable_of_priv fun _ => Iff.rfl)
        (stable_of_priv fun _ => Iff.rfl) (fun _ => trivial) (fun s' hs => hs.1.1) ?_
      intro s' hs hi
      obtain ⟨hr, hfill, htx, hrx⟩ := hs
      have hcur := hr.finish
      refine ⟨compRelease_inv hi hcur.symm ?_, trivial, hfill, htx, hcur, hrx⟩
      rw [hcur, ← hr.1]
      exact congrArg (· + got) hi.comp.own
    · exact Triple.pure (stable_of_priv fun _ => Iff.rfl) fun s' hs _ => hs

/-! ## Receiving -/

/-- The loop of a receive burst: each entry read is a chunk in the pool. -/
def RxLoop (c₀ total : UInt32) (n : Nat) (k : UInt32) (s : Xsk κ) : Prop :=
  Reading s.rx c₀ total n k ∧ k.toNat ≤ s.pool.stack.length ∧ ProdIdle s.fill ∧ ProdIdle s.tx ∧
    ConsIdle s.comp

theorem rxLoop_triple (ho : m.own) (cb : Option (RxCb κ)) {c₀ total : UInt32} (n : Nat)
    (k : UInt32) : Triple (xskCtx m) (RxLoop c₀ total n k) (rxLoop cb c₀ n k)
      fun _ s => RxLoop c₀ total 0 total s := by
  induction n generalizing k with
  | zero =>
    refine Triple.pure (stable_of_priv fun _ => Iff.rfl) fun s hs _ => ?_
    obtain rfl : k = total := UInt32.toNat_inj.1 hs.1.2.2.2
    exact hs
  | succ n ih =>
    refine Triple.bind (Q := fun _ s => RxLoop c₀ total n (k + 1) s)
      (Triple.atomic (stable_of_priv fun _ => Iff.rfl)
        (fun _ => stable_of_priv fun _ => Iff.rfl) ?_) fun _ => ih (k + 1)
    intro s hs hi
    obtain ⟨hr, hlen, hrest⟩ := hs
    rw [← hr.2.1]
    obtain ⟨hinv, hpool⟩ :=
      rxOne_inv hi ho cb (Nat.lt_of_lt_of_le (Nat.succ_pos n) hr.2.2.1)
    refine ⟨hinv, trivial, hr.next, ?_, hrest⟩
    rw [toNat_succ_of_lt hr.2.2.2]
    dsimp only
    omega

theorem rxBurst_now (ho : m.own) (hm : ¬ m.noRx) {s : Xsk κ} (h : Inv m s) (hidle : Idle s)
    {nb : UInt32} {cb : Option (RxCb κ)} :
    Now (xskCtx m) (fun _ s' => Idle s') (rxBurst nb cb) s := by
  obtain ⟨hfill, htx, hcomp, hrx⟩ := hidle
  obtain ⟨hok, hat, hidx, -, hle⟩ := h.rx.peek hrx nb rfl
  refine Now.atomic_bind (Q := fun res s' => res.2 = s.rx.consumer ∧
    RxLoop s.rx.consumer res.1 res.1.toNat 0 s') ⟨rxView_inv h hok hat, trivial, ?_⟩
    fun res => Triple.of_fact fun hres => ?_
  · refine ⟨hidx.trans hrx, ⟨rfl, ?_, hle, Nat.zero_add _⟩, Nat.zero_le _, hfill, htx, hcomp⟩
    rw [UInt32.add_zero]
    exact hrx
  · obtain ⟨got, idx⟩ := res
    obtain rfl : idx = s.rx.consumer := hres
    refine Triple.bind (rxLoop_triple ho cb got.toNat 0) fun _ => ?_
    refine Triple.bind (Q := fun _ s' => got.toNat ≤ s'.pool.stack.length ∧ Idle s') ?_ fun _ => ?_
    · refine consRelease_triple s.rx.consumer (stable_of_priv fun _ => Iff.rfl)
        (stable_of_priv fun _ => Iff.rfl) (fun _ => trivial) (fun s' hs => hs.1.1) ?_
      intro s' hs hi
      obtain ⟨hr, hlen, hfill, htx, hcomp⟩ := hs
      have hcur := hr.finish
      refine ⟨rxRelease_inv hi hcur.symm ?_, trivial, hlen, hfill, htx, hcomp, hcur⟩
      rw [hcur, ← hr.1]
      exact congrArg (· + got) hi.rx.own
    · refine Triple.bind (fillRefill_triple hm got) fun _ => ?_
      exact Triple.pure (stable_of_priv fun _ => Iff.rfl) fun s' hs _ => hs

/-! ## The system -/

/-- The calls that keep the invariant of a mode. -/
def OpOk (m : Mode) : XskOp κ → Xsk κ → Prop
  | .fillRefill nb, s => ¬ m.noRx ∧ FillOk nb s
  | .rxBurst _ _, _ => m.own ∧ ¬ m.noRx
  | .txBurst nb cb, s => m.noRx ∧ ¬ m.noTx ∧ TxOk nb cb s
  | .txComplete _, _ => True
  | .usePool _, _ => ¬ m.own

/-- What a call made in `s₀` that returns `r` has done. -/
def OpPost (op : XskOp κ) (s₀ : Xsk κ) (r : UInt32) (s : Xsk κ) : Prop :=
  Idle s ∧ match op with
    | .fillRefill nb => r.toNat = min nb.toNat (min (fillFree s₀) s₀.pool.available) ∧
        s.fill.producer = s₀.fill.producer + r
    | .txBurst _ _ => s.tx.producer = s₀.tx.producer + r
    | _ => True

theorem stable_idle : Stable (xskCtx m) (Idle (κ := κ)) := stable_of_priv fun _ => Iff.rfl

theorem call_now {op : XskOp κ} {s : Xsk κ} (h : Inv m s) (hidle : Idle s) (hok : OpOk m op s) :
    Now (xskCtx m) (OpPost op s) op.body s := by
  cases op with
  | fillRefill nb =>
    obtain ⟨hm, hok⟩ := hok
    refine (fillRefill_now hm h hidle hok).mono ?_
    rintro r s' ⟨hr, hidle', hp⟩
    refine ⟨hidle', ?_, hp⟩
    rw [FillOk] at hok
    rw [FramePool.available]
    omega
  | rxBurst nb cb => exact (rxBurst_now hok.1 hok.2 h hidle).mono fun _ _ hs => ⟨hs, trivial⟩
  | txBurst nb cb => exact txBurst_now hok.1 hok.2.1 h hidle hok.2.2
  | txComplete nb => exact (txComplete_now h hidle).mono fun _ _ hs => ⟨hs, trivial⟩
  | usePool f =>
    have hidle' : Idle { s with pool := f s.pool } := hidle
    exact ⟨usePool_inv h hok _, trivial, fun s' hr hi => ⟨stable_idle hidle' hr hi, trivial⟩⟩

/-- The proof outline of a system whose calls are all in order. -/
def xskVerified (m : Mode) {ok : XskOp κ → Xsk κ → Prop} {start : Xsk κ → Prop}
    (hok : ∀ op s, ok op s → OpOk m op s) (hstart : ∀ s, start s → Inv m s ∧ Idle s) :
    Verified (xskSys ok) start where
  inv := Inv m
  rely := fun _ => Others m
  guar := fun _ _ _ => True
  idle := fun _ => Idle
  post := fun _ => OpPost
  refl := fun _ => (xskCtx m).refl
  trans := fun _ => (xskCtx m).trans
  start_inv := fun s hs => (hstart s hs).1
  start_idle := fun _ s hs => (hstart s hs).2
  env_inv := fun h ⟨_, hk⟩ => kernel_inv h hk
  env_rely := fun _ _ _ h ⟨_, hk⟩ => kernel_others h hk
  guar_rely := fun hne => absurd rfl hne
  idle_stable := fun _ _ _ h hr hi => stable_idle h hr hi
  call := fun _ op s h hidle hop => call_now h hidle (hok op s hop)
  done := fun _ _ _ _ _ _ h => h.1

end Rewsr.Xdp
