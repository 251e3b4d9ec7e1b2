import Rewsr.Xdp.Proof.FramePool
import Rewsr.Xdp.Xsk

/-!
# The data path's invariant

`Inv m s` holds in every state of a run: the counters of the four rings are in order, what the
kernel has read from the transmit and the fill ring and what these rings still hold make up what
was put in, and, in the modes that ask for it, every chunk of the UMEM is in exactly one place
(`Owned`). `kernel_inv` is its preservation by the kernel, which leaves the caller's own data alone
(`kernel_others`).
-/

namespace Rewsr.Xdp

open Counter Interleave Rewsr.Ring

variable {κ : Type}

/-! ## Where the chunks are -/

/-- The chunks in the transmit ring: published, or written by the burst in progress. -/
def txHeld (s : Xsk κ) : List UInt64 := (slots s.tx.at s.tx.consumer s.tx.cur).map XdpDesc.addr

/-- The chunks in the completion ring that no call has reclaimed. -/
def compHeld (s : Xsk κ) : List UInt64 := slots s.comp.at s.comp.cur s.comp.producer

/-- The chunks in the fill ring: published, or written by the refill in progress. -/
def fillHeld (s : Xsk κ) : List UInt64 := slots s.fill.at s.fill.consumer s.fill.cur

/-- The chunks of the frames in the receive ring that no burst has recycled. -/
def rxHeld (s : Xsk κ) : List UInt64 :=
  (slots s.rx.at s.rx.cur s.rx.producer).map fun d => s.pool.chunkBase d.addr

def places (s : Xsk κ) : List UInt64 :=
  s.pool.stack ++
    (fillHeld s ++ (s.kernelRx ++ (rxHeld s ++ (txHeld s ++ (s.kernelTx ++ compHeld s)))))

/-- The receive side is not used. -/
def NoRx (s : Xsk κ) : Prop :=
  s.fill.consumer = s.fill.producer ∧ s.fill.cur = s.fill.producer ∧ s.kernelRx = [] ∧
    s.rx.cur = s.rx.producer

/-- The transmit side is not used. -/
def NoTx (s : Xsk κ) : Prop :=
  s.tx.consumer = s.tx.producer ∧ s.tx.cur = s.tx.producer ∧ s.kernelTx = [] ∧
    s.comp.cur = s.comp.producer

/-- What a run is about: whether the chunks of a UMEM are accounted for, and which side is left
unused. -/
structure Mode where
  own : Prop
  noRx : Prop
  noTx : Prop
  numFrames : UInt32
  chunkSize : UInt32

/-- Every chunk of the UMEM is in exactly one place, and no free in a receive burst has failed. -/
structure Owned (m : Mode) (s : Xsk κ) : Prop where
  capacity : s.pool.capacity = m.numFrames
  chunkSize : s.pool.chunkSize = m.chunkSize
  pool : s.pool.Wf
  part : (chunks s.pool.capacity.toNat s.pool.chunkSize).Perm (places s)
  frees : s.rxFreeFailures = 0

structure Inv (m : Mode) (s : Xsk κ) : Prop where
  fill : ProdOk s.fill
  tx : ProdOk s.tx
  comp : ConsOk s.comp
  rx : ConsOk s.rx
  txStream : s.accepted = s.txSeen ++
    (slots s.tx.at s.tx.consumer s.tx.cur).map fun d => (d.addr, d.len)
  fillStream : s.popped = s.fillSeen ++ slots s.fill.at s.fill.consumer s.fill.cur
  owned : m.own → Owned m s
  noRx : m.noRx → NoRx s
  noTx : m.noTx → NoTx s

/-- Between calls no ring has reserved or peeked entries outstanding. -/
def Idle (s : Xsk κ) : Prop := ProdIdle s.fill ∧ ProdIdle s.tx ∧ ConsIdle s.comp ∧ ConsIdle s.rx

theorem count_places (s : Xsk κ) (a : UInt64) : (places s).count a =
    s.pool.stack.count a + (fillHeld s).count a + s.kernelRx.count a + (rxHeld s).count a +
      (txHeld s).count a + s.kernelTx.count a + (compHeld s).count a := by
  simp only [places, List.count_append]
  omega

/-- Moving entries between places keeps a partition. -/
theorem Owned.move {m : Mode} {s s' : Xsk κ} (h : Owned m s)
    (hcap : s'.pool.capacity = s.pool.capacity)
    (hcs : s'.pool.chunkSize = s.pool.chunkSize) (hf : s'.rxFreeFailures = s.rxFreeFailures)
    (hp : ∀ a, (places s').count a = (places s).count a) : Owned m s' := by
  refine ⟨hcap.trans h.capacity, hcs.trans h.chunkSize, ?_, ?_, hf.trans h.frees⟩
  · have := h.pool
    rwa [FramePool.Wf, ← hcs] at this
  · rw [hcap, hcs]
    exact h.part.trans (List.perm_iff_count.2 fun a => (hp a).symm)

theorem Owned.mem_chunks {m : Mode} {s : Xsk κ} (h : Owned m s) {a : UInt64} (ha : a ∈ places s) :
    a ∈ chunks s.pool.capacity.toNat s.pool.chunkSize := h.part.mem_iff.2 ha

theorem Owned.length {m : Mode} {s : Xsk κ} (h : Owned m s) :
    s.pool.stack.length + (fillHeld s).length + s.kernelRx.length + (rxHeld s).length +
        (txHeld s).length + s.kernelTx.length +
    (compHeld s).length = s.pool.capacity.toNat := by
  have := h.part.length_eq
  rw [length_chunks] at this
  simp only [places, List.length_append] at this
  omega

/-! ## Kernel steps -/

/-- Everything a kernel action can do. -/
theorem kernelStep_cases {a : KernelAct} {s s' : Xsk κ} (h : kernelStep a s = some s') :
    (s.tx.consumer ≠ s.tx.producer ∧ s' = txTake s) ∨
    (∃ addr ∈ s.kernelTx, gap s.comp.consumer s.comp.producer < s.comp.view.size.toNat ∧
      s' = compPost addr s) ∨
    (s.fill.consumer ≠ s.fill.producer ∧ s' = fillTake s) ∨
    (∃ chunk ∈ s.kernelRx, ∃ d data, gap s.rx.consumer s.rx.producer < s.rx.view.size.toNat ∧
      (d.addr - chunk).toNat < s.pool.chunkSize.toNat ∧ s' = rxPost chunk d data s) := by
  cases a with
  | txTake =>
    rw [kernelStep] at h
    split at h
    · rename_i hne
      cases h
      exact .inl ⟨hne, rfl⟩
    · cases h
  | compPost addr =>
    rw [kernelStep] at h
    split at h
    · rename_i hg
      cases h
      exact .inr (.inl ⟨addr, hg.1, hg.2, rfl⟩)
    · cases h
  | fillTake =>
    rw [kernelStep] at h
    split at h
    · rename_i hne
      cases h
      exact .inr (.inr (.inl ⟨hne, rfl⟩))
    · cases h
  | rxPost chunk d data =>
    rw [kernelStep] at h
    split at h
    · rename_i hg
      cases h
      exact .inr (.inr (.inr ⟨chunk, hg.1, d, data, hg.2.1, hg.2.2.1, rfl⟩))
    · cases h

section
variable {m : Mode} {s : Xsk κ}

/-- The oldest entry of a ring that is not empty, in front of the others. -/
theorem slots_consumer {V : Type} {r : SharedRing V} (h : ProdOk r)
    (hne : r.consumer ≠ r.producer) :
    slots r.at r.consumer r.cur = r.at r.consumer :: slots r.at (r.consumer + 1) r.cur := by
  have hcur := h.gap_consumer_cur
  have hpos : 0 < gap r.consumer r.producer := Nat.pos_of_ne_zero (mt gap_eq_zero.1 hne)
  refine slots_cons _ fun heq => ?_
  rw [← heq, gap_self] at hcur
  omega

theorem txTake_inv (h : Inv m s) (hne : s.tx.consumer ≠ s.tx.producer) : Inv m (txTake s) := by
  have hslots := slots_consumer h.tx hne
  refine { h with tx := h.tx.take hne, txStream := ?_, owned := fun ho => ?_, noTx := fun hn => ?_ }
  · have := h.txStream
    rw [hslots, List.map_cons, List.append_cons] at this
    exact this
  · refine (h.owned ho).move rfl rfl rfl fun a => ?_
    have hheld : txHeld s = (s.tx.at s.tx.consumer).addr :: txHeld (txTake s) := by
      rw [txHeld, hslots, List.map_cons]
      rfl
    rw [count_places, count_places, hheld]
    change s.pool.stack.count a + (fillHeld s).count a + s.kernelRx.count a + (rxHeld s).count a +
      (txHeld (txTake s)).count a + (s.kernelTx ++ [_]).count a + (compHeld s).count a = _
    simp only [List.count_append, List.count_cons, List.count_nil]
    omega
  · exact absurd (h.noTx hn).1 hne

theorem fillTake_inv (h : Inv m s) (hne : s.fill.consumer ≠ s.fill.producer) :
    Inv m (fillTake s) := by
  have hslots := slots_consumer h.fill hne
  refine { h with fill := h.fill.take hne, fillStream := ?_, owned := fun ho => ?_,
                  noRx := fun hn => ?_ }
  · have := h.fillStream
    rw [hslots, List.append_cons] at this
    exact this
  · refine (h.owned ho).move rfl rfl rfl fun a => ?_
    have hheld : fillHeld s = s.fill.at s.fill.consumer :: fillHeld (fillTake s) := hslots
    rw [count_places, count_places, hheld]
    change s.pool.stack.count a + (fillHeld (fillTake s)).count a + (s.kernelRx ++ [_]).count a +
      (rxHeld s).count a + (txHeld s).count a + s.kernelTx.count a + (compHeld s).count a = _
    simp only [List.count_append, List.count_cons, List.count_nil]
    omega
  · exact absurd (h.noRx hn).1 hne

theorem count_erase_add {l : List UInt64} {x : UInt64} (h : x ∈ l) (a : UInt64) :
    (l.erase x).count a + [x].count a = l.count a := by
  have := (List.perm_cons_erase h).count_eq a
  rw [this, List.count_cons, List.count_cons, List.count_nil]
  omega

theorem compPost_inv (h : Inv m s) {addr : UInt64} (hmem : addr ∈ s.kernelTx)
    (hroom : gap s.comp.consumer s.comp.producer < s.comp.view.size.toNat) :
    Inv m (compPost addr s) := by
  refine { h with comp := h.comp.post addr hroom, owned := fun ho => ?_, noTx := fun hn => ?_ }
  · refine (h.owned ho).move rfl rfl rfl fun a => ?_
    have hheld : compHeld (compPost addr s) = compHeld s ++ [addr] := h.comp.slots_post addr hroom
    have herase := count_erase_add hmem a
    rw [count_places, count_places, hheld]
    change s.pool.stack.count a + (fillHeld s).count a + s.kernelRx.count a + (rxHeld s).count a +
      (txHeld s).count a + (s.kernelTx.erase addr).count a + _ = _
    rw [List.count_append]
    omega
  · rw [(h.noTx hn).2.2.1] at hmem
    cases hmem

theorem rxPost_inv (h : Inv m s) {chunk : UInt64} {d : XdpDesc} (data : List UInt8)
    (hmem : chunk ∈ s.kernelRx) (hroom : gap s.rx.consumer s.rx.producer < s.rx.view.size.toNat)
    (hoff : (d.addr - chunk).toNat < s.pool.chunkSize.toNat) : Inv m (rxPost chunk d data s) := by
  refine { h with rx := h.rx.post d hroom, owned := fun ho => ?_, noRx := fun hn => ?_ }
  · have howned := h.owned ho
    refine howned.move rfl rfl rfl fun a => ?_
    have hbase : s.pool.chunkBase d.addr = chunk := by
      refine FramePool.chunkBase_of_inside howned.pool (howned.mem_chunks ?_) hoff
      simp only [places, List.mem_append, hmem, true_or, or_true]
    have hheld : rxHeld (rxPost chunk d data s) = rxHeld s ++ [chunk] := by
      rw [← hbase]
      exact (congrArg (List.map _) (h.rx.slots_post d hroom)).trans List.map_append
    have herase := count_erase_add hmem a
    rw [count_places, count_places, hheld]
    change s.pool.stack.count a + (fillHeld s).count a + (s.kernelRx.erase chunk).count a + _ +
      (txHeld s).count a + s.kernelTx.count a + (compHeld s).count a = _
    rw [List.count_append]
    omega
  · rw [(h.noRx hn).2.2.1] at hmem
    cases hmem

/-- The kernel keeps the invariant. -/
theorem kernel_inv {a : KernelAct} {s' : Xsk κ} (h : Inv m s) (hk : kernelStep a s = some s') :
    Inv m s' := by
  rcases kernelStep_cases hk with ⟨hne, rfl⟩ | ⟨addr, hmem, hroom, rfl⟩ | ⟨hne, rfl⟩ |
    ⟨chunk, hmem, d, data, hroom, hoff, rfl⟩
  · exact txTake_inv h hne
  · exact compPost_inv h hmem hroom
  · exact fillTake_inv h hne
  · exact rxPost_inv h data hmem hroom hoff

end

/-! ## What the caller can rely on -/

/-- The kernel's steps as the caller sees them. Without a receive side it leaves the UMEM area
alone too. -/
def Others (m : Mode) (s s' : Xsk κ) : Prop := priv s' = priv s ∧ (m.noRx → s'.area = s.area)

theorem kernel_others {m : Mode} {s s' : Xsk κ} {a : KernelAct} (h : Inv m s)
    (hk : kernelStep a s = some s') : Others m s s' := by
  rcases kernelStep_cases hk with ⟨-, rfl⟩ | ⟨_, -, -, rfl⟩ | ⟨-, rfl⟩ | ⟨_, hmem, _, _, -, -, rfl⟩
  · exact ⟨rfl, fun _ => rfl⟩
  · exact ⟨rfl, fun _ => rfl⟩
  · exact ⟨rfl, fun _ => rfl⟩
  · refine ⟨rfl, fun hn => ?_⟩
    rw [(h.noRx hn).2.2.1] at hmem
    cases hmem

/-- The context of a call. -/
def xskCtx (m : Mode) : Ctx (Xsk κ) where
  inv := Inv m
  rely := Others m
  guar := fun _ _ => True
  refl := fun _ => ⟨rfl, fun _ => rfl⟩
  trans := fun h h' => ⟨h'.1.trans h.1, fun hn => (h'.2 hn).trans (h.2 hn)⟩

/-- Assertions about the caller's own data are stable. -/
theorem stable_of_priv {m : Mode} {P : Xsk κ → Prop} (hP : ∀ s, P (priv s) ↔ P s) :
    Stable (xskCtx m) P := by
  intro s s' h hr _
  rw [← hP, hr.1, hP]
  exact h

/-- Without a receive side, so are assertions about the UMEM area. -/
theorem stable_of_priv_area {m : Mode} (hn : m.noRx) {P : (UInt64 → UInt8) → Xsk κ → Prop}
    (hP : ∀ area s, P area (priv s) ↔ P area s) : Stable (xskCtx m) fun s => P s.area s := by
  intro s s' h hr hi
  rw [← hr.2 hn] at h
  exact stable_of_priv (hP s'.area) h hr hi

/-! ## The caller's steps -/

section
variable {m : Mode} {s : Xsk κ}

theorem fillView_inv (h : Inv m s) {v : XskRing} (hok : ProdOk { s.fill with view := v })
    (hat : { s.fill with view := v }.at = s.fill.at) :
    Inv m { s with fill := { s.fill with view := v } } := by
  refine { h with fill := hok, fillStream := ?_, owned := fun ho => ?_ }
  · have := h.fillStream
    rwa [← hat] at this
  · refine (h.owned ho).move rfl rfl rfl fun a => ?_
    simp only [places, fillHeld, rxHeld, txHeld, compHeld, hat]

theorem txView_inv (h : Inv m s) {v : XskRing} (hok : ProdOk { s.tx with view := v })
    (hat : { s.tx with view := v }.at = s.tx.at) :
    Inv m { s with tx := { s.tx with view := v } } := by
  refine { h with tx := hok, txStream := ?_, owned := fun ho => ?_ }
  · have := h.txStream
    rwa [← hat] at this
  · refine (h.owned ho).move rfl rfl rfl fun a => ?_
    simp only [places, fillHeld, rxHeld, txHeld, compHeld, hat]

theorem compView_inv (h : Inv m s) {v : XskRing} (hok : ConsOk { s.comp with view := v })
    (hat : { s.comp with view := v }.at = s.comp.at) :
    Inv m { s with comp := { s.comp with view := v } } := by
  refine { h with comp := hok, owned := fun ho => ?_ }
  refine (h.owned ho).move rfl rfl rfl fun a => ?_
  simp only [places, fillHeld, rxHeld, txHeld, compHeld, hat]

theorem rxView_inv (h : Inv m s) {v : XskRing} (hok : ConsOk { s.rx with view := v })
    (hat : { s.rx with view := v }.at = s.rx.at) :
    Inv m { s with rx := { s.rx with view := v } } := by
  refine { h with rx := hok, owned := fun ho => ?_ }
  refine (h.owned ho).move rfl rfl rfl fun a => ?_
  simp only [places, fillHeld, rxHeld, txHeld, compHeld, hat]

/-- A popped frame goes into the next slot of the fill reservation. -/
theorem fillOne_inv (h : Inv m s) (hm : ¬ m.noRx) {addr : UInt64} {stack : List UInt64}
    (hpos : 0 < gap s.fill.cur s.fill.view.cachedProd) (hstack : s.pool.stack = addr :: stack) :
    Inv m { s with pool := { s.pool with stack }
                   fill := { s.fill.put s.fill.cur addr with cur := s.fill.cur + 1 }
                   popped := s.popped ++ [addr] } := by
  have hslots := h.fill.slots_put addr hpos
  refine { h with fill := h.fill.put addr hpos, fillStream := ?_, owned := fun ho => ?_,
                  noRx := fun hn => absurd hn hm }
  · change s.popped ++ [addr] =
      s.fillSeen ++ slots (s.fill.put s.fill.cur addr).at s.fill.consumer (s.fill.cur + 1)
    rw [hslots, h.fillStream, List.append_assoc]
  · refine (h.owned ho).move rfl rfl rfl fun a => ?_
    rw [count_places, count_places, hstack]
    change stack.count a +
      (slots (s.fill.put s.fill.cur addr).at s.fill.consumer (s.fill.cur + 1)).count a +
      s.kernelRx.count a + (rxHeld s).count a + (txHeld s).count a + s.kernelTx.count a +
      (compHeld s).count a = _
    rw [hslots, fillHeld]
    simp only [List.count_append, List.count_cons, List.count_nil]
    omega

theorem fillSubmit_inv (h : Inv m s) (hm : ¬ m.noRx) {p : UInt32} (hp : p = s.fill.cur) :
    Inv m { s with fill := { s.fill with producer := p } } :=
  { h with fill := h.fill.submit hp, noRx := fun hn => absurd hn hm
           owned := fun ho => (h.owned ho).move rfl rfl rfl fun _ => rfl }

/-- A popped frame goes into the next slot of the transmit reservation. -/
theorem txOne_inv (h : Inv m s) (hm : ¬ m.noTx) {d : XdpDesc} {stack : List UInt64}
    (area : UInt64 → UInt8) (user : κ) (hpos : 0 < gap s.tx.cur s.tx.view.cachedProd)
    (hstack : s.pool.stack = d.addr :: stack) :
    Inv m { s with pool := { s.pool with stack }, area, user
                   tx := { s.tx.put s.tx.cur d with cur := s.tx.cur + 1 }
                   accepted := s.accepted ++ [(d.addr, d.len)] } := by
  have hslots := h.tx.slots_put d hpos
  refine { h with tx := h.tx.put d hpos, txStream := ?_, owned := fun ho => ?_,
                  noTx := fun hn => absurd hn hm }
  · change s.accepted ++ [(d.addr, d.len)] = s.txSeen ++
      (slots (s.tx.put s.tx.cur d).at s.tx.consumer (s.tx.cur + 1)).map fun d => (d.addr, d.len)
    rw [hslots, h.txStream, List.append_assoc, List.map_append]
    rfl
  · refine (h.owned ho).move rfl rfl rfl fun a => ?_
    rw [count_places, count_places, hstack]
    change stack.count a + (fillHeld s).count a + s.kernelRx.count a + (rxHeld s).count a +
      ((slots (s.tx.put s.tx.cur d).at s.tx.consumer (s.tx.cur + 1)).map XdpDesc.addr).count a +
      s.kernelTx.count a + (compHeld s).count a = _
    rw [hslots, List.map_append, txHeld]
    simp only [List.count_append, List.count_cons, List.count_nil, List.map_cons, List.map_nil]
    omega

theorem txSubmit_inv (h : Inv m s) (hm : ¬ m.noTx) {p : UInt32} (hp : p = s.tx.cur) :
    Inv m { s with tx := { s.tx with producer := p } } :=
  { h with tx := h.tx.submit hp, noTx := fun hn => absurd hn hm
           owned := fun ho => (h.owned ho).move rfl rfl rfl fun _ => rfl }

/-- The pool has room for a chunk that is elsewhere. -/
theorem Owned.room (h : Owned m s) (hne : rxHeld s ≠ [] ∨ compHeld s ≠ []) :
    s.pool.stack.length < s.pool.capacity.toNat := by
  have hlen := h.length
  rcases hne with hne | hne
  · have := List.length_pos_iff.2 hne
    omega
  · have := List.length_pos_iff.2 hne
    omega

/-- A completed chunk goes back to the pool. -/
theorem completeOne_inv (h : Inv m s) (hpos : 0 < gap s.comp.cur s.comp.view.cachedProd) :
    Inv m (completeOne s.comp.cur s) := by
  have hheld : compHeld s = s.comp.at s.comp.cur :: compHeld (completeOne s.comp.cur s) :=
    h.comp.slots_next hpos
  refine { h with comp := h.comp.next hpos, owned := fun ho => ?_, noTx := fun hn => ?_ }
  · have howned := h.owned ho
    have hchunk := howned.mem_chunks (a := s.comp.at s.comp.cur) (by
      simp only [places, hheld, List.mem_append, List.mem_cons, true_or, or_true])
    have hfree := FramePool.free_chunk howned.pool hchunk
      (howned.room (.inr (hheld ▸ List.cons_ne_nil _ _)))
    have hpool : (completeOne s.comp.cur s).pool =
        { s.pool with stack := s.comp.at s.comp.cur :: s.pool.stack } := congrArg Prod.snd hfree
    refine howned.move (by rw [hpool]) (by rw [hpool]) rfl fun a => ?_
    have hrx : rxHeld (completeOne s.comp.cur s) = rxHeld s := by
      rw [rxHeld, hpool]
      rfl
    rw [count_places, count_places, hheld, hpool, hrx]
    change (_ :: s.pool.stack).count a + (fillHeld s).count a + s.kernelRx.count a +
      (rxHeld s).count a + (txHeld s).count a + s.kernelTx.count a + _ = _
    simp only [List.count_cons]
    omega
  · have hcomp := h.comp.gap_cur_producer
    rw [(h.noTx hn).2.2.2, gap_self] at hcomp
    rw [(h.noTx hn).2.2.2] at hpos
    omega

theorem compRelease_inv (h : Inv m s) {c cached : UInt32} (hc : c = s.comp.cur)
    (hcached : cached = s.comp.cur) :
    Inv m { s with comp := { s.comp with consumer := c
                                         view := { s.comp.view with cachedCons := cached } } } :=
  { h with comp := h.comp.release hc hcached
           owned := fun ho => (h.owned ho).move rfl rfl rfl fun _ => rfl }

/-- A received frame's chunk goes back to the pool; the free succeeds. -/
theorem rxOne_inv (h : Inv m s) (ho : m.own) (cb : Option (RxCb κ))
    (hpos : 0 < gap s.rx.cur s.rx.view.cachedProd) :
    Inv m (rxOne cb s.rx.cur s) ∧
      (rxOne cb s.rx.cur s).pool.stack.length = s.pool.stack.length + 1 := by
  have howned := h.owned ho
  have hslots := h.rx.slots_next hpos
  have hheld : rxHeld s = s.pool.chunkBase (s.rx.at s.rx.cur).addr ::
      (slots s.rx.at (s.rx.cur + 1) s.rx.producer).map fun d => s.pool.chunkBase d.addr := by
    rw [rxHeld, hslots, List.map_cons]
  have hchunk := howned.mem_chunks (a := s.pool.chunkBase (s.rx.at s.rx.cur).addr) (by
    simp only [places, hheld, List.mem_append, List.mem_cons, true_or, or_true])
  have hfree := FramePool.free_of_base hchunk howned.pool
    (howned.room (.inl (hheld ▸ List.cons_ne_nil _ _)))
  have hpool : (rxOne cb s.rx.cur s).pool = { s.pool with
      stack := s.pool.chunkBase (s.rx.at s.rx.cur).addr :: s.pool.stack } :=
    congrArg Prod.snd hfree
  have hfails : (rxOne cb s.rx.cur s).rxFreeFailures = s.rxFreeFailures :=
    if_pos (congrArg Prod.fst hfree)
  refine ⟨{ h with rx := h.rx.next hpos, owned := fun _ => ?_, noRx := fun hn => ?_ }, ?_⟩
  · refine howned.move (by rw [hpool]) (by rw [hpool]) hfails fun a => ?_
    have hrx : rxHeld (rxOne cb s.rx.cur s) =
        (slots s.rx.at (s.rx.cur + 1) s.rx.producer).map fun d => s.pool.chunkBase d.addr := by
      rw [rxHeld, hpool]
      rfl
    rw [count_places, count_places, hheld, hrx, hpool]
    change (_ :: s.pool.stack).count a + (fillHeld s).count a + s.kernelRx.count a + _ +
      (txHeld s).count a + s.kernelTx.count a + (compHeld s).count a = _
    simp only [List.count_cons]
    omega
  · have hrx := h.rx.gap_cur_producer
    rw [(h.noRx hn).2.2.2, gap_self] at hrx
    rw [(h.noRx hn).2.2.2] at hpos
    omega
  · rw [hpool, List.length_cons]

theorem rxRelease_inv (h : Inv m s) {c cached : UInt32} (hc : c = s.rx.cur)
    (hcached : cached = s.rx.cur) :
    Inv m { s with rx := { s.rx with consumer := c
                                     view := { s.rx.view with cachedCons := cached } } } :=
  { h with rx := h.rx.release hc hcached
           owned := fun ho => (h.owned ho).move rfl rfl rfl fun _ => rfl }

/-- Any other use of the pool, where chunks are not accounted for. -/
theorem usePool_inv (h : Inv m s) (ho : ¬ m.own) (pool : FramePool) : Inv m { s with pool } :=
  { h with owned := fun ho' => absurd ho' ho }

end

end Rewsr.Xdp
