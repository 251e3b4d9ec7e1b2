import Mathlib.Data.List.Infix
import Rewsr.Ring.Duplex
import Rewsr.Ring.Proof.XskRing

/-!
# The ring is a queue

In every state of every interleaving, what the consumer has released followed by what the slots
between the counters hold is what was there at the start followed by what was submitted
(`DuplexInv.stream`). The producer writes only slots it has reserved, which are not published, and
the consumer writes none, so each side can rely on the other: the producer on its own memory
(`ProdRely`), the consumer on the published slots (`ConsRely`). `duplex_fifo` collects what follows
for whole runs.
-/

namespace Rewsr.Ring

open Counter Interleave Duplex

/-! ## Slots of bytes -/

/-- The bytes of the slot a counter value stands for. -/
def slotAt (size : UInt32) (descSize : Nat) (mem : Nat → UInt8) (x : UInt32) : List UInt8 :=
  (List.range descSize).map fun j => mem ((x &&& (size - 1)).toNat * descSize + j)

/-- A view with the constants of the ring. -/
structure IsView (size : UInt32) (descSize : Nat) (v : XskRing) : Prop where
  wf : v.Wf
  size : v.size = size
  desc : v.descSize = descSize

section
variable {size : UInt32} {d : Nat} {v : XskRing} {mem : Nat → UInt8} {x y : UInt32} {j : Nat}

@[simp] theorem length_slotAt (size : UInt32) (d : Nat) (mem : Nat → UInt8) (x : UInt32) :
    (slotAt size d mem x).length = d := by simp [slotAt]

theorem IsView.ringDesc_eq (h : IsView size d v) (x : UInt32) :
    ringDesc v x = (x &&& (size - 1)).toNat * d := by
  rw [ringDesc, h.wf.mask, h.size, h.desc]

theorem IsView.getElem_slotAt (h : IsView size d v) (hj : j < d) :
    (slotAt size d mem x)[j]? = some (mem (ringDesc v x + j)) := by
  rw [slotAt, List.getElem?_map, List.getElem?_range hj, h.ringDesc_eq]
  rfl

/-- A byte written into one slot leaves the others less than the size away alone. -/
theorem IsView.slotAt_update_of_ne (h : IsView size d v) (hgap : gap y x < size.toNat) (hne : y ≠ x)
    (hj : j < d) (b : UInt8) :
    slotAt size d (Function.update mem (ringDesc v x + j) b) y = slotAt size d mem y := by
  refine List.map_congr_left fun i hi => Function.update_of_ne (fun heq => hne ?_) b mem
  have hi := List.mem_range.1 hi
  have hpow := h.wf.pow
  rw [h.size] at hpow
  rw [h.ringDesc_eq] at heq
  have hd : 0 < d := by omega
  have hslot : ∀ q r, r < d → (q * d + r) / d = q := by
    intro q r hr
    rw [Nat.add_comm, Nat.add_mul_div_right _ _ hd, Nat.div_eq_of_lt hr, Nat.zero_add]
  have hdiv := congrArg (· / d) heq
  rw [hslot _ _ hi, hslot _ _ hj] at hdiv
  exact eq_of_and_mask_eq hpow hgap (UInt32.toNat_inj.1 hdiv)

/-- A byte written behind the first `j` of its own slot adds to them. -/
theorem IsView.slotAt_update_take (h : IsView size d v) (hj : j < d) (b : UInt8) :
    (slotAt size d (Function.update mem (ringDesc v x + j) b) x).take (j + 1) =
      (slotAt size d mem x).take j ++ [b] := by
  have hold : ∀ i < j, Function.update mem (ringDesc v x + j) b (ringDesc v x + i) =
      mem (ringDesc v x + i) := fun i hi => Function.update_of_ne (by omega) b mem
  rw [List.take_add_one, h.getElem_slotAt hj, Function.update_self]
  congr 1
  rw [slotAt, slotAt, ← List.map_take, ← List.map_take]
  refine List.map_congr_left fun i hi => ?_
  rw [List.take_range, List.mem_range] at hi
  rw [← h.ringDesc_eq]
  exact hold i (by omega)

end

/-! ## The invariant -/

structure DuplexInv (size : UInt32) (descSize : Nat) (init : List (List UInt8)) (s : Duplex) :
    Prop where
  prodView : IsView size descSize s.prod
  consView : IsView size descSize s.cons
  prod : ProdOk (prodRing.get s)
  cons : ConsOk (consRing.get s)
  stream : init ++ s.submitted =
    s.released ++ slots (slotAt size descSize s.mem) s.consumer s.producer

/-- The state without what the consumer changes. -/
def prodPart (s : Duplex) : Duplex :=
  { s with consumer := 0, cons := ⟨0, 0, 0, 0, 0⟩, released := [] }

/-- The consumer's steps as the producer sees them. -/
def ProdRely (s s' : Duplex) : Prop := prodPart s' = prodPart s

/-- The producer's steps as the consumer sees them: published slots keep their values, and the
producer counter does not go back. -/
structure ConsRely (size : UInt32) (descSize : Nat) (s s' : Duplex) : Prop where
  consumer : s'.consumer = s.consumer
  cons : s'.cons = s.cons
  released : s'.released = s.released
  grows : gap s.consumer s.producer ≤ gap s.consumer s'.producer
  slots : ∀ x, gap s.consumer x < gap s.consumer s.producer →
    slotAt size descSize s'.mem x = slotAt size descSize s.mem x

theorem ConsRely.refl (size : UInt32) (d : Nat) (s : Duplex) : ConsRely size d s s :=
  ⟨rfl, rfl, rfl, Nat.le_refl _, fun _ _ => rfl⟩

theorem ConsRely.trans {size : UInt32} {d : Nat} {s₁ s₂ s₃ : Duplex} (h : ConsRely size d s₁ s₂)
    (h' : ConsRely size d s₂ s₃) : ConsRely size d s₁ s₃ := by
  have hgrows := h'.grows
  rw [h.consumer] at hgrows
  refine ⟨h'.consumer.trans h.consumer, h'.cons.trans h.cons, h'.released.trans h.released,
    Nat.le_trans h.grows hgrows, fun x hx => ?_⟩
  rw [h'.slots x (by rw [h.consumer]; exact Nat.lt_of_lt_of_le hx h.grows), h.slots x hx]

section
variable (size : UInt32) (descSize : Nat) (init : List (List UInt8))

def prodCtx : Ctx Duplex where
  inv := DuplexInv size descSize init
  rely := ProdRely
  guar := ConsRely size descSize
  refl := fun _ => rfl
  trans := fun h h' => Eq.trans h' h

def consCtx : Ctx Duplex where
  inv := DuplexInv size descSize init
  rely := ConsRely size descSize
  guar := ProdRely
  refl := ConsRely.refl size descSize
  trans := ConsRely.trans

end

section
variable {size : UInt32} {d : Nat} {init : List (List UInt8)} {s : Duplex}

theorem stable_of_prodPart {P : Duplex → Prop} (hP : ∀ s, P (prodPart s) ↔ P s) :
    Stable (prodCtx size d init) P := by
  intro s s' h hr _
  have hr : prodPart s' = prodPart s := hr
  rw [← hP, hr, hP]
  exact h

theorem DuplexInv.room (h : DuplexInv size d init s) :
    gap s.consumer s.producer + gap s.producer s.prod.cachedProd ≤ size.toNat := by
  have hroom := h.prod.room
  rw [← h.prodView.size]
  change gap s.prod.cachedCons s.consumer + gap s.consumer s.producer + gap s.producer s.producer +
    gap s.producer s.prod.cachedProd ≤ s.prod.size.toNat at hroom
  omega

theorem DuplexInv.size_le (h : DuplexInv size d init s) : size.toNat ≤ 2 ^ 31 := by
  have := h.prodView.wf.size_le
  rwa [h.prodView.size] at this

/-- A byte written into a reserved slot: the slots in front of it keep their values. -/
theorem DuplexInv.slotAt_writeByte (h : DuplexInv size d init s) {x y : UInt32} {j : Nat}
    (b : UInt8) (hx : gap s.consumer x < size.toNat) (hj : j < d)
    (hy : gap s.consumer y < gap s.consumer x) :
    slotAt size d (writeByte x j b s).mem y = slotAt size d s.mem y := by
  have hgap := gap_of_le (Nat.le_of_lt hy)
  refine h.prodView.slotAt_update_of_ne (by omega) ?_ hj b
  rintro rfl
  omega

/-- The distance from the consumer to a slot of the reservation. -/
theorem DuplexInv.gap_reserved (h : DuplexInv size d init s) {x : UInt32}
    (hx : gap s.producer x < gap s.producer s.prod.cachedProd) :
    gap s.consumer x = gap s.consumer s.producer + gap s.producer x ∧
      gap s.consumer x < size.toNat := by
  have hroom := h.room
  have hsize := h.size_le
  have htrans := gap_trans (a := s.consumer) (b := s.producer) (c := x) (by omega)
  exact ⟨htrans, by omega⟩

/-- In particular those of the reservation itself. -/
theorem DuplexInv.slots_writeByte (h : DuplexInv size d init s) {x : UInt32} {j : Nat} (b : UInt8)
    (hx : gap s.producer x < gap s.producer s.prod.cachedProd) (hj : j < d) :
    slots (slotAt size d (writeByte x j b s).mem) s.producer x =
      slots (slotAt size d s.mem) s.producer x := by
  obtain ⟨htrans, hlt⟩ := h.gap_reserved hx
  refine slots_congr fun y hy => h.slotAt_writeByte b hlt hj ?_
  have hsize := h.size_le
  have hy' := gap_trans (a := s.consumer) (b := s.producer) (c := y) (by omega)
  omega

theorem writeByte_inv (h : DuplexInv size d init s) {x : UInt32} {j : Nat} (b : UInt8)
    (hx : gap s.producer x < gap s.producer s.prod.cachedProd) (hj : j < d) :
    DuplexInv size d init (writeByte x j b s) ∧ ConsRely size d s (writeByte x j b s) := by
  obtain ⟨htrans, hlt⟩ := h.gap_reserved hx
  have hkeep : ∀ y, gap s.consumer y < gap s.consumer s.producer →
      slotAt size d (writeByte x j b s).mem y = slotAt size d s.mem y :=
    fun y hy => h.slotAt_writeByte b hlt hj (by omega)
  refine ⟨⟨h.prodView, h.consView, ⟨h.prod.wf, h.prod.room⟩, ⟨h.cons.wf, h.cons.own, h.cons.room⟩,
    ?_⟩, rfl, rfl, rfl, Nat.le_refl _, hkeep⟩
  have hslots : slots (slotAt size d (writeByte x j b s).mem) s.consumer s.producer =
      slots (slotAt size d s.mem) s.consumer s.producer := slots_congr hkeep
  change init ++ s.submitted =
    s.released ++ slots (slotAt size d (writeByte x j b s).mem) s.consumer s.producer
  rw [hslots]
  exact h.stream

/-! ## The producer's round -/

/-- Of a reservation of `n` slots from `p₀`, the first ones are written with `done`. -/
def Written (size : UInt32) (d : Nat) (p₀ n : UInt32) (done : List (List UInt8)) (s : Duplex) :
    Prop :=
  s.producer = p₀ ∧ s.prod.cachedProd = p₀ + n ∧
    slots (slotAt size d s.mem) p₀ (p₀ + UInt32.ofNat done.length) = done

theorem gap_add_ofNat (a : UInt32) {i : Nat} {n : UInt32} (h : i ≤ n.toNat) :
    gap a (a + UInt32.ofNat i) = i := by
  have hlt := n.toNat_lt
  rw [gap_add_self, UInt32.toNat_ofNat']
  omega

/-- The rest `bs` of a value is stored behind its first bytes `pre`. -/
theorem writeBytes_triple (p₀ : UInt32) {n : UInt32} {done : List (List UInt8)}
    (hlt : done.length < n.toNat) (bs : List UInt8) (pre : List UInt8)
    (hd : pre.length + bs.length = d) :
    let x := p₀ + UInt32.ofNat done.length
    Triple (prodCtx size d init)
      (fun s => Written size d p₀ n done s ∧ (slotAt size d s.mem x).take pre.length = pre)
      (writeBytes x pre.length bs)
      fun _ s => Written size d p₀ n done s ∧ slotAt size d s.mem x = pre ++ bs := by
  intro x
  have hx : gap p₀ x = done.length := gap_add_ofNat p₀ (Nat.le_of_lt hlt)
  induction bs generalizing pre with
  | nil =>
    refine Triple.pure (stable_of_prodPart fun _ => Iff.rfl) fun s hs _ => ⟨hs.1, ?_⟩
    have htake := hs.2
    rw [List.take_of_length_le (by rw [length_slotAt, ← hd]; exact Nat.le_refl _)] at htake
    rw [htake, List.append_nil]
  | cons b bs ih =>
    rw [List.length_cons] at hd
    have hih := ih (pre ++ [b]) (by rw [List.length_append, List.length_singleton]; omega)
    rw [List.length_append, List.length_singleton, List.append_assoc, List.singleton_append] at hih
    refine Triple.bind (Q := fun _ s => Written size d p₀ n done s ∧
      (slotAt size d s.mem x).take (pre.length + 1) = pre ++ [b])
      (Triple.atomic (stable_of_prodPart fun _ => Iff.rfl)
        (fun _ => stable_of_prodPart fun _ => Iff.rfl) ?_) fun _ => hih
    rintro s ⟨⟨hp, hcached, hdone⟩, htake⟩ hi
    have hres : gap s.producer x < gap s.producer s.prod.cachedProd := by
      rw [hp, hcached, hx, gap_add_self]
      exact hlt
    obtain ⟨hinv, hguar⟩ := writeByte_inv hi b hres (j := pre.length) (by omega)
    refine ⟨hinv, hguar, ⟨hp, hcached, ?_⟩, ?_⟩
    · have hkeep := hi.slots_writeByte b hres (j := pre.length) (by omega)
      rw [hp] at hkeep
      exact hkeep.trans hdone
    · have hset : (slotAt size d (writeByte x pre.length b s).mem x).take (pre.length + 1) =
          (slotAt size d s.mem x).take pre.length ++ [b] :=
        hi.prodView.slotAt_update_take (by omega) b
      rw [htake] at hset
      exact hset

theorem Written.snoc {p₀ n : UInt32} {done : List (List UInt8)} {v : List UInt8}
    (h : Written size d p₀ n done s) (hlt : done.length < n.toNat)
    (hv : slotAt size d s.mem (p₀ + UInt32.ofNat done.length) = v) :
    Written size d p₀ n (done ++ [v]) s := by
  obtain ⟨hp, hcached, hdone⟩ := h
  have hn := n.toNat_lt
  have hgap := gap_add_ofNat p₀ (Nat.le_of_lt hlt)
  refine ⟨hp, hcached, ?_⟩
  rw [List.length_append, List.length_singleton, UInt32.ofNat_add, ← UInt32.add_assoc]
  rw [show UInt32.ofNat 1 = 1 from rfl, slots_snoc _ (by omega), hdone, hv]

theorem writeSlots_triple {p₀ n : UInt32} (vs : List (List UInt8)) (done : List (List UInt8))
    (hn : done.length + vs.length = n.toNat) (hd : ∀ v ∈ vs, v.length = d) :
    Triple (prodCtx size d init) (Written size d p₀ n done)
      (writeSlots (p₀ + UInt32.ofNat done.length) vs)
      fun _ => Written size d p₀ n (done ++ vs) := by
  induction vs generalizing done with
  | nil =>
    rw [List.append_nil]
    exact Triple.pure (stable_of_prodPart fun _ => Iff.rfl) fun s hs _ => hs
  | cons v vs ih =>
    rw [List.length_cons] at hn
    have hih := ih (done ++ [v]) (by rw [List.length_append, List.length_singleton]; omega)
      fun w hw => hd w (List.mem_cons_of_mem v hw)
    rw [List.length_append, List.length_singleton, List.append_assoc, List.singleton_append,
      UInt32.ofNat_add, ← UInt32.add_assoc] at hih
    have hlt : done.length < n.toNat := by omega
    have hv : ([] : List UInt8).length + v.length = d := by
      rw [List.length_nil, Nat.zero_add]
      exact hd v List.mem_cons_self
    refine Triple.bind ((writeBytes_triple p₀ hlt v [] hv).weaken fun s hs _ => ⟨hs, rfl⟩)
      fun _ => ?_
    exact hih.weaken fun s hs _ => hs.1.snoc hlt hs.2

/-- Nothing is reserved between the producer's rounds. -/
def ProdFree (s : Duplex) : Prop := s.prod.cachedProd = s.producer

theorem reserve_inv (h : DuplexInv size d init s) (hfree : ProdFree s) (nb : UInt32)
    {n idx : UInt32} {v : XskRing} (heq : prodReserve s.prod s.consumer nb = ((n, idx), v)) :
    DuplexInv size d init { s with prod := v } ∧ ConsRely size d s { s with prod := v } ∧
      Written size d s.producer n [] { s with prod := v } ∧
      ((n = nb ∧ idx = s.producer ∧ gap s.consumer s.producer + nb.toNat ≤ size.toNat) ∨
        (n = 0 ∧ size.toNat < gap s.consumer s.producer + nb.toNat)) := by
  have hidle : ProdIdle (prodRing.get s) := ⟨rfl, hfree⟩
  obtain ⟨hok, -, hgap, hcase⟩ := h.prod.reserve hidle heq
  have hconst := prodReserve_const s.prod s.consumer nb
  rw [heq] at hconst
  have hview : IsView size d v :=
    ⟨hok.wf, hconst.1.trans h.prodView.size, hconst.2.trans h.prodView.desc⟩
  have hcached : v.cachedProd = s.producer + n := by
    have := add_ofNat_gap s.producer v.cachedProd
    rw [show gap s.producer v.cachedProd = n.toNat from hgap, UInt32.ofNat_toNat] at this
    exact this.symm
  refine ⟨⟨hview, h.consView, hok, h.cons, h.stream⟩,
    ⟨rfl, rfl, rfl, Nat.le_refl _, fun _ _ => rfl⟩,
    ⟨rfl, hcached, ?_⟩, ?_⟩
  · exact (congrArg (slots _ s.producer) (UInt32.add_zero s.producer)).trans (slots_self _ _)
  · rw [← h.prodView.size]
    exact hcase

theorem submit_inv (h : DuplexInv size d init s) {p₀ n : UInt32} {vals : List (List UInt8)}
    (hw : Written size d p₀ n vals s) (hlen : vals.length = n.toNat) :
    let s' := { s with producer := p₀ + n, submitted := s.submitted ++ vals }
    DuplexInv size d init s' ∧ ConsRely size d s s' ∧ ProdFree s' := by
  intro s'
  obtain ⟨rfl, hcached, hslots⟩ := hw
  rw [hlen, UInt32.ofNat_toNat] at hslots
  have hroom := h.room
  have hsize := h.size_le
  have hgap := gap_add_self s.producer n
  rw [hcached, hgap] at hroom
  have hadd := gap_add_right (a := s.consumer) (b := s.producer) (k := n) (by omega)
  have hprod := h.prod.publish (k := n) rfl (by
    change n.toNat ≤ gap s.producer s.prod.cachedProd
    rw [hcached, hgap])
  have hcons := h.cons.publish (k := n) (by
    change gap s.consumer s.producer + n.toNat ≤ s.cons.size.toNat
    rw [h.consView.size]
    exact hroom)
  refine ⟨⟨h.prodView, h.consView, hprod, hcons, ?_⟩, ⟨rfl, rfl, rfl, ?_, fun _ _ => rfl⟩, hcached⟩
  · change init ++ (s.submitted ++ vals) =
      s.released ++ slots (slotAt size d s.mem) s.consumer (s.producer + n)
    rw [slots_append _ (b := s.producer) (by omega), hslots, ← List.append_assoc, h.stream,
      List.append_assoc]
  · change gap s.consumer s.producer ≤ gap s.consumer (s.producer + n)
    omega

/-- What a producer's round made in `s₀` has done: all its values were submitted if there was room
for them, and none otherwise. -/
def ProducePost (size : UInt32) (vals : List (List UInt8)) (s₀ : Duplex) (n : UInt32) : Prop :=
  n.toNat = if gap s₀.consumer s₀.producer + vals.length ≤ size.toNat then vals.length else 0

/-- The values a round will write, and where. -/
theorem reserve_values (h : DuplexInv size d init s) (hfree : ProdFree s) {vals : List (List UInt8)}
    (hlen : vals.length < 2 ^ 32) {n idx : UInt32} {v : XskRing}
    (heq : prodReserve s.prod s.consumer (UInt32.ofNat vals.length) = ((n, idx), v)) :
    ProducePost size vals s n ∧ (vals.take n.toNat).length = n.toNat ∧
      (vals.take n.toNat = [] ∨ idx = s.producer) := by
  obtain ⟨-, -, -, hcase⟩ := reserve_inv h hfree _ heq
  have hnb : (UInt32.ofNat vals.length).toNat = vals.length := by
    rw [UInt32.toNat_ofNat']
    omega
  rw [hnb] at hcase
  rcases hcase with ⟨rfl, rfl, hfit⟩ | ⟨rfl, hfull⟩
  · refine ⟨?_, ?_, .inr rfl⟩
    · rw [ProducePost, if_pos hfit, hnb]
    · rw [hnb, List.take_length]
  · refine ⟨?_, rfl, .inl rfl⟩
    rw [ProducePost, if_neg (by omega)]
    rfl

theorem writeSlots_all {p₀ n idx : UInt32} {vs : List (List UInt8)} (hn : vs.length = n.toNat)
    (hd : ∀ v ∈ vs, v.length = d) (hidx : vs = [] ∨ idx = p₀) :
    Triple (prodCtx size d init) (Written size d p₀ n []) (writeSlots idx vs)
      fun _ => Written size d p₀ n vs := by
  rcases hidx with rfl | rfl
  · exact Triple.pure (stable_of_prodPart fun _ => Iff.rfl) fun s hs _ => hs
  · have htriple : Triple (prodCtx size d init) (Written size d idx n [])
        (writeSlots (idx + 0) vs) fun _ => Written size d idx n vs :=
      writeSlots_triple vs [] (by rw [List.length_nil, Nat.zero_add]; exact hn) hd
    rwa [UInt32.add_zero] at htriple

theorem produce_now (h : DuplexInv size d init s) (hfree : ProdFree s) {vals : List (List UInt8)}
    (hvals : ∀ v ∈ vals, v.length = d) (hlen : vals.length < 2 ^ 32) :
    Now (prodCtx size d init) (fun r s' => ProducePost size vals s r.1 ∧ ProdFree s')
      (produce vals) s := by
  obtain ⟨hinv, hguar, hw, -⟩ := reserve_inv h hfree (UInt32.ofNat vals.length) rfl
  refine Now.atomic_bind (Q := fun res s' => (ProducePost size vals s res.1 ∧
    (vals.take res.1.toNat).length = res.1.toNat ∧
    (vals.take res.1.toNat = [] ∨ res.2 = s.producer)) ∧ Written size d s.producer res.1 [] s')
    ⟨hinv, hguar, reserve_values h hfree hlen rfl, hw⟩ fun res => Triple.of_fact ?_
  obtain ⟨n, idx⟩ := res
  rintro ⟨hpost, hn, hidx⟩
  have hmem : ∀ v ∈ vals.take n.toNat, v.length = d := fun v hv => hvals v (List.mem_of_mem_take hv)
  refine Triple.bind (writeSlots_all hn hmem hidx) fun _ => ?_
  refine Triple.bind (Q := fun _ => ProdFree) ?_ fun _ => ?_
  · refine prodSubmit_triple s.producer (stable_of_prodPart fun _ => Iff.rfl)
      (stable_of_prodPart fun _ => Iff.rfl) (ConsRely.refl size d) (fun s' hs => hs.1) ?_
    intro s' hs hi
    exact submit_inv hi hs hn
  · exact Triple.pure (stable_of_prodPart fun _ => Iff.rfl) fun s' hs _ => ⟨hpost, hs⟩

/-! ## The consumer's round -/

/-- Of a peek of `n` slots from `c₀`, the first ones have been read as `acc`. -/
def ReadSoFar (size : UInt32) (d : Nat) (c₀ n : UInt32) (acc : List (List UInt8)) (s : Duplex) :
    Prop :=
  s.consumer = c₀ ∧ n.toNat ≤ gap c₀ s.cons.cachedProd ∧ n.toNat ≤ gap c₀ s.producer ∧
    acc.length ≤ n.toNat ∧ slots (slotAt size d s.mem) c₀ (c₀ + UInt32.ofNat acc.length) = acc

theorem stable_readSoFar (c₀ n : UInt32) (acc : List (List UInt8)) :
    Stable (consCtx size d init) (ReadSoFar size d c₀ n acc) := by
  rintro s s' ⟨rfl, hcached, hprod, hlen, hslots⟩ hr _
  have hr : ConsRely size d s s' := hr
  refine ⟨hr.consumer, ?_, Nat.le_trans hprod hr.grows, hlen, ?_⟩
  · rw [hr.cons]
    exact hcached
  · refine Eq.trans (slots_congr fun x hx => ?_) hslots
    rw [gap_add_ofNat _ hlen] at hx
    exact hr.slots x (by omega)

/-- The first bytes of the next slot have been read as `pre`. -/
def ReadBytes (size : UInt32) (d : Nat) (c₀ n : UInt32) (acc : List (List UInt8)) (pre : List UInt8)
    (s : Duplex) : Prop :=
  (slotAt size d s.mem (c₀ + UInt32.ofNat acc.length)).take pre.length = pre ∧
    ReadSoFar size d c₀ n acc s

theorem stable_readBytes {c₀ n : UInt32} {acc : List (List UInt8)} (hlt : acc.length < n.toNat)
    (pre : List UInt8) : Stable (consCtx size d init) (ReadBytes size d c₀ n acc pre) := by
  rintro s s' ⟨hpre, hread⟩ hr hi
  refine ⟨?_, stable_readSoFar c₀ n acc hread hr hi⟩
  obtain ⟨rfl, -, hprod, hlen, -⟩ := hread
  have hr : ConsRely size d s s' := hr
  rw [hr.slots _ (by rw [gap_add_ofNat _ hlen]; omega)]
  exact hpre

theorem readBytes_triple {c₀ n : UInt32} {acc : List (List UInt8)} (hlt : acc.length < n.toNat)
    (k : Nat) (pre : List UInt8) (hd : pre.length + k = d) :
    Triple (consCtx size d init) (ReadBytes size d c₀ n acc pre)
      (readBytes (c₀ + UInt32.ofNat acc.length) k pre)
      fun v s => v.length = d ∧ ReadBytes size d c₀ n acc v s := by
  induction k generalizing pre with
  | zero =>
    exact Triple.pure ((stable_readBytes hlt pre).and_fact _) fun s hs _ => ⟨hd, hs⟩
  | succ k ih =>
    refine Triple.bind (Q := fun b => ReadBytes size d c₀ n acc (pre ++ [b]))
      (Triple.atomic (stable_readBytes hlt pre) (fun b => stable_readBytes hlt (pre ++ [b])) ?_)
      fun b => ih (pre ++ [b]) (by rw [List.length_append, List.length_singleton]; omega)
    rintro s ⟨hpre, hread⟩ hi
    refine ⟨hi, rfl, ?_, hread⟩
    dsimp only
    rw [List.length_append, List.length_singleton, List.take_add_one, hpre,
      hi.consView.getElem_slotAt (by omega)]
    rfl

theorem ReadBytes.snoc {c₀ n : UInt32} {acc : List (List UInt8)} {v : List UInt8}
    (h : ReadBytes size d c₀ n acc v s) (hlt : acc.length < n.toNat) (hv : v.length = d) :
    ReadSoFar size d c₀ n (acc ++ [v]) s := by
  obtain ⟨hslot, hcons, hcached, hprod, hlen, hslots⟩ := h
  have hn := n.toNat_lt
  have hgap := gap_add_ofNat c₀ hlen
  rw [List.take_of_length_le (by rw [length_slotAt, hv])] at hslot
  refine ⟨hcons, hcached, hprod, ?_, ?_⟩
  · rw [List.length_append, List.length_singleton]
    exact hlt
  · rw [List.length_append, List.length_singleton, UInt32.ofNat_add, ← UInt32.add_assoc]
    rw [show UInt32.ofNat 1 = 1 from rfl, slots_snoc _ (by omega), hslots, hslot]

theorem readSlots_triple {c₀ n : UInt32} (k : Nat) (acc : List (List UInt8))
    (hk : acc.length + k = n.toNat) :
    Triple (consCtx size d init) (ReadSoFar size d c₀ n acc)
      (readSlots d (c₀ + UInt32.ofNat acc.length) k acc)
      fun vals s => vals.length = n.toNat ∧ ReadSoFar size d c₀ n vals s := by
  induction k generalizing acc with
  | zero =>
    exact Triple.pure ((stable_readSoFar c₀ n acc).and_fact _) fun s hs _ => ⟨hk, hs⟩
  | succ k ih =>
    have hlt : acc.length < n.toNat := by omega
    refine Triple.bind ((readBytes_triple hlt d [] (Nat.zero_add d)).weaken
      fun s hs _ => ⟨rfl, hs⟩) fun v => Triple.of_fact fun hv => ?_
    have hih := ih (acc ++ [v]) (by rw [List.length_append, List.length_singleton]; omega)
    rw [List.length_append, List.length_singleton, UInt32.ofNat_add, ← UInt32.add_assoc] at hih
    exact hih.weaken fun s hs _ => hs.snoc hlt hv

theorem peek_inv (h : DuplexInv size d init s) (nb : UInt32) {n idx : UInt32} {v : XskRing}
    (heq : consPeek s.cons s.producer nb = ((n, idx), v)) :
    DuplexInv size d init { s with cons := v } ∧ idx = s.consumer ∧
      ReadSoFar size d s.consumer n [] { s with cons := v } := by
  obtain ⟨hok, -, hidx, hn, hle⟩ := h.cons.peek rfl nb heq
  have hconst := consPeek_const s.cons s.producer nb
  rw [heq] at hconst
  have hview : IsView size d v :=
    ⟨hok.wf, hconst.1.trans h.consView.size, hconst.2.trans h.consView.desc⟩
  refine ⟨⟨h.prodView, hview, h.prod, hok, h.stream⟩, hidx, rfl, hle, ?_, Nat.zero_le _, ?_⟩
  · rw [hn]
    exact Nat.min_le_right _ _
  · exact (congrArg (slots _ s.consumer) (UInt32.add_zero s.consumer)).trans (slots_self _ _)

theorem release_inv (h : DuplexInv size d init s) {c₀ n k : UInt32} {vals : List (List UInt8)}
    (hr : ReadSoFar size d c₀ n vals s) (hlen : vals.length = n.toNat) (hk : k ≤ n) :
    DuplexInv size d init { s with
      consumer := c₀ + k
      cons := { s.cons with cachedCons := s.cons.cachedCons + k }
      released := s.released ++ vals.take k.toNat } := by
  obtain ⟨rfl, hcached, hprod, -, hslots⟩ := hr
  rw [hlen, UInt32.ofNat_toNat] at hslots
  have htake := slots_take (slotAt size d s.mem) (a := s.consumer) hk
  rw [hslots] at htake
  rw [UInt32.le_iff_toNat_le] at hk
  have hsize := h.size_le
  have hroom := h.room
  have hgap := gap_add_self s.consumer k
  have hleft := gap_add_left (k := k) (a := s.consumer) (b := s.producer) (by omega)
  have hcons := h.cons.drop (k := k) rfl (Nat.le_trans hk hcached)
  refine ⟨h.prodView, ⟨hcons.wf, h.consView.size, h.consView.desc⟩,
    h.prod.consume (Nat.le_trans hk hprod), hcons, ?_⟩
  change init ++ s.submitted = s.released ++ vals.take k.toNat ++
    slots (slotAt size d s.mem) (s.consumer + k) s.producer
  rw [h.stream, ← htake, List.append_assoc, ← slots_append _ (by omega)]

theorem consume_now (h : DuplexInv size d init s) (nb : UInt32)
    (choose : List (List UInt8) → UInt32) :
    Now (consCtx size d init) (fun _ _ => True) (consume d nb choose) s := by
  obtain ⟨hinv, hidx, hread⟩ := peek_inv h nb rfl
  refine Now.atomic_bind (Q := fun res s' => res.2 = s.consumer ∧
    ReadSoFar size d s.consumer res.1 [] s') ⟨hinv, rfl, hidx, hread⟩
    fun res => Triple.of_fact fun hres => ?_
  obtain ⟨n, idx⟩ := res
  obtain rfl : idx = s.consumer := hres
  have hslots : Triple (consCtx size d init) (ReadSoFar size d s.consumer n [])
      (readSlots d (s.consumer + 0) n.toNat []) fun vals s' =>
        vals.length = n.toNat ∧ ReadSoFar size d s.consumer n vals s' :=
    readSlots_triple n.toNat [] (Nat.zero_add _)
  rw [UInt32.add_zero] at hslots
  refine Triple.bind hslots fun vals => Triple.of_fact fun hlen => ?_
  have hk : (if choose vals > n then n else choose vals) ≤ n := by
    split
    · exact UInt32.le_refl n
    · rename_i hle
      exact UInt32.not_lt.1 hle
  refine Triple.bind (Q := fun _ _ => True) ?_ fun _ => ?_
  · refine consRelease_triple s.consumer (stable_readSoFar ..) (fun _ _ _ _ _ => trivial)
      (fun _ => rfl) (fun s' hs => hs.1) ?_
    intro s' hs hi
    exact ⟨release_inv hi hs hlen hk, rfl, trivial⟩
  · exact Triple.pure (fun _ _ _ _ _ => trivial) fun _ _ _ => trivial

end

/-! ## Runs -/

/-- Two views just initialised over counters no further apart than the size, with `init` in the
slots between them. -/
structure DuplexStart (size : UInt32) (descSize : Nat) (init : List (List UInt8)) (s : Duplex) :
    Prop where
  prod : ringInit (some s.producer) (some s.consumer) (some s.mem) size descSize = some s.prod
  cons : ringInit (some s.producer) (some s.consumer) (some s.mem) size descSize = some s.cons
  room : s.producer - s.consumer ≤ size
  init : slots (slotAt size descSize s.mem) s.consumer s.producer = init
  submitted : s.submitted = []
  released : s.released = []

section
variable {size : UInt32} {d : Nat} {init : List (List UInt8)}

theorem DuplexStart.inv {s : Duplex} (h : DuplexStart size d init s) :
    DuplexInv size d init s ∧ ProdFree s := by
  obtain ⟨hpwf, hpsize, hpdesc, hpprod, hpcons⟩ := ringInit_some h.prod
  obtain ⟨hcwf, hcsize, hcdesc, hcprod, hccons⟩ := ringInit_some h.cons
  have hroom : gap s.consumer s.producer ≤ size.toNat := UInt32.le_iff_toNat_le.1 h.room
  refine ⟨⟨⟨hpwf, hpsize, hpdesc⟩, ⟨hcwf, hcsize, hcdesc⟩, ⟨hpwf, ?_⟩, ⟨hcwf, hccons, ?_⟩, ?_⟩,
    hpprod⟩
  · change gap s.prod.cachedCons s.consumer + gap s.consumer s.producer +
      gap s.producer s.producer + gap s.producer s.prod.cachedProd ≤ s.prod.size.toNat
    rw [hpprod, hpcons, hpsize, gap_self, gap_self]
    omega
  · change gap s.consumer s.consumer + gap s.consumer s.cons.cachedProd +
      gap s.cons.cachedProd s.producer ≤ s.cons.size.toNat
    rw [hcprod, hcsize, gap_self, gap_self]
    omega
  · rw [h.submitted, h.released, h.init, List.append_nil, List.nil_append]

def duplexVerified (size : UInt32) (d : Nat) (init : List (List UInt8)) :
    Verified (duplexSys d) (DuplexStart size d init) where
  inv := DuplexInv size d init
  rely
    | .producer => ProdRely
    | .consumer => ConsRely size d
  guar
    | .producer => ConsRely size d
    | .consumer => ProdRely
  idle
    | .producer => ProdFree
    | .consumer => fun _ => True
  post
    | .producer, .produce vals, s₀, r, s => ProducePost size vals s₀ r.1 ∧ ProdFree s
    | .producer, .consume _ _, _, _, _ => False
    | .consumer, _, _, _, _ => True
  refl
    | .producer => (prodCtx size d init).refl
    | .consumer => (consCtx size d init).refl
  trans
    | .producer => (prodCtx size d init).trans
    | .consumer => (consCtx size d init).trans
  start_inv := fun s hs => hs.inv.1
  start_idle
    | .producer, s, hs => hs.inv.2
    | .consumer, _, _ => trivial
  env_inv := fun _ he => he.elim
  env_rely := fun _ _ _ _ he => he.elim
  guar_rely := by
    intro i j s s' hne _ _ hg
    cases i with
    | producer =>
      cases j with
      | producer => exact absurd rfl hne
      | consumer => exact hg
    | consumer =>
      cases j with
      | producer => exact hg
      | consumer => exact absurd rfl hne
  idle_stable := by
    intro i s s' h hr hi
    cases i with
    | producer =>
      have hstable : Stable (prodCtx size d init) ProdFree := stable_of_prodPart fun _ => Iff.rfl
      exact hstable h hr hi
    | consumer => trivial
  call := by
    intro i op s h hidle hok
    cases i with
    | producer =>
      cases op with
      | produce vals => exact produce_now h hidle hok.1 hok.2
      | consume nb choose => exact hok.elim
    | consumer =>
      cases op with
      | produce vals => exact hok.elim
      | consume nb choose => exact consume_now h nb choose
  done := by
    intro i op s₀ r s _ hpost
    cases i with
    | producer =>
      cases op with
      | produce vals => exact hpost.2
      | consume nb choose => exact hpost.elim
    | consumer => trivial

/-- **The ring is a queue**, in every run, across wraps of the counters: the released values are a
prefix of the initial ones followed by the submitted ones, the slots between the counters hold the
rest, these are never more than the size, no step changes them, a reservation succeeds exactly
when the slots are free, and one that fails changes neither the cached producer counter nor the
shared ones. -/
theorem duplex_fifo {c : Config Side Duplex (UInt32 × List (List UInt8)) DuplexOp}
    (h : Reach (duplexSys d) (DuplexStart size d init) c) :
    c.mem.released <+: init ++ c.mem.submitted ∧
    init ++ c.mem.submitted = c.mem.released ++
      slots (slotAt size d c.mem.mem) c.mem.consumer c.mem.producer ∧
    c.mem.producer - c.mem.consumer ≤ size ∧
    (∀ c', Step (duplexSys d) c c' → ∀ x,
      gap c.mem.consumer x < gap c.mem.consumer c.mem.producer →
      slotAt size d c'.mem.mem x = slotAt size d c.mem.mem x) ∧
    (∀ vals s₀ r, c.th .producer = .busy (.produce vals) s₀ (.ret r) →
      r.1.toNat =
        if gap s₀.consumer s₀.producer + vals.length ≤ size.toNat then vals.length else 0) ∧
    ∀ nb res s', (prodRing.prodReserve nb).run c.mem = (res, s') → res.1 ≠ nb →
      s'.prod.cachedProd = c.mem.prod.cachedProd ∧ s'.producer = c.mem.producer ∧
        s'.consumer = c.mem.consumer := by
  let V := duplexVerified size d init
  have hinv : DuplexInv size d init c.mem := (V.sound h).1
  have hroom := hinv.room
  refine ⟨⟨_, hinv.stream.symm⟩, hinv.stream, UInt32.le_iff_toNat_le.2 ?_, ?_, ?_, ?_⟩
  · exact Nat.le_trans (Nat.le_add_right _ _) hroom
  · intro c' hstep x hx
    rcases V.step_guar h hstep with heq | ⟨i, hguar⟩ | henv
    · rw [heq]
    · cases i with
      | producer => exact ConsRely.slots hguar x hx
      | consumer =>
        have hpart : prodPart c'.mem = prodPart c.mem := hguar
        change slotAt size d (prodPart c'.mem).mem x = slotAt size d (prodPart c.mem).mem x
        rw [hpart]
    · exact henv.elim
  · intro vals s₀ r hbusy
    exact (V.post_of_reach h hbusy).1
  · intro nb res s' hrun hne
    obtain ⟨rfl, rfl⟩ := Prod.mk.inj hrun
    exact ⟨prodReserve_failed hne, rfl, rfl⟩

end

/-- An empty ring of two slots whose counters are about to wrap. -/
def sampleDuplex : Duplex :=
  let view : XskRing := ⟨1, 2, 1, 0xffffffff, 0xffffffff⟩
  ⟨fun _ => 0, 0xffffffff, 0xffffffff, view, view, [], []⟩

theorem duplex_fifo_wrap : ∃ c : Config Side Duplex (UInt32 × List (List UInt8)) DuplexOp,
    Reach (duplexSys 1) (DuplexStart 2 1 []) c ∧ c.mem.producer = 1 ∧
      c.mem.submitted = [[7], [8]] ∧ c.mem.released = [[7]] ∧
      c.mem.released <+: c.mem.submitted := by
  have hsample : DuplexStart 2 1 [] sampleDuplex :=
    ⟨rfl, rfl, by decide, rfl, rfl, rfl⟩
  have hstart := Reach.initial (S := duplexSys 1) hsample
  have h1 := hstart.call .producer (.produce [[7], [8]]) ⟨by decide, by decide⟩ rfl
  have h2 := h1.call .consumer (.consume 2 fun _ => 1) trivial rfl
  exact ⟨_, h2, by decide +kernel, by decide +kernel, by decide +kernel, (duplex_fifo h2).1⟩

end Rewsr.Ring
