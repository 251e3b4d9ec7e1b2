import Rewsr.Lib.Counter
import Rewsr.Ring.XskRing

/-!
# One side of a ring

What the view operations do, in distances between counters. A producer's view is in order
(`ProdOk`) when going from its cached consumer counter over the shared consumer and producer to its
own reservations takes at most `size`; a consumer's (`ConsOk`) when going from the consumer over
its cached producer counter to the shared one does. `prodReserve_cases` and `consPeek_cases` are
the outcomes of the two operations that may refresh a cached counter: they decide as if they had
read the shared one.
-/

namespace Rewsr.Ring

open Counter

theorem isPow2_iff (v : UInt32) : isPow2 v = true ↔ v.toNat.isPowerOfTwo := by
  rw [← Nat.ne_zero_and_sub_one_eq_zero_iff_isPowerOfTwo, isPow2, Bool.and_eq_true, bne_iff_ne,
    beq_iff_eq, Ne, ← UInt32.toNat_inj, ← UInt32.toNat_inj, UInt32.toNat_zero]
  have hv := v.toNat_lt
  constructor
  · rintro ⟨h0, h⟩
    rw [UInt32.toNat_and, UInt32.toNat_sub, UInt32.toNat_one,
      show (2 ^ 32 - 1 + v.toNat) % 2 ^ 32 = v.toNat - 1 by omega] at h
    exact ⟨h0, h⟩
  · rintro ⟨h0, h⟩
    rw [UInt32.toNat_and, UInt32.toNat_sub, UInt32.toNat_one,
      show (2 ^ 32 - 1 + v.toNat) % 2 ^ 32 = v.toNat - 1 by omega]
    exact ⟨h0, h⟩

/-- The constants of a view as the initialiser sets them. -/
structure XskRing.Wf (r : XskRing) : Prop where
  pow : r.size.toNat.isPowerOfTwo
  mask : r.mask = r.size - 1
  desc : 0 < r.descSize

namespace XskRing.Wf

variable {r : XskRing} (h : r.Wf)
include h

theorem size_le : r.size.toNat ≤ 2 ^ 31 := pow2_le h.pow

/-- Counter values less than the size apart share a slot only if they are equal. -/
theorem desc_inj {a b : UInt32} (hgap : gap a b < r.size.toNat)
    (hab : ringDesc r a = ringDesc r b) : a = b := by
  have hand : a &&& r.mask = b &&& r.mask :=
    UInt32.toNat_inj.1 (Nat.eq_of_mul_eq_mul_right h.desc hab)
  rw [h.mask] at hand
  exact eq_of_and_mask_eq h.pow hgap hand

end XskRing.Wf

theorem ringInit_some {M : Type} {producer consumer size : UInt32} {descSize : Nat} {m : M}
    {r : XskRing} (h : ringInit (some producer) (some consumer) (some m) size descSize = some r) :
    r.Wf ∧ r.size = size ∧ r.descSize = descSize ∧ r.cachedProd = producer ∧
      r.cachedCons = consumer := by
  unfold ringInit at h
  dsimp only at h
  split at h
  · cases h
  · rename_i hne
    rw [Bool.or_eq_true, not_or, beq_iff_eq, Bool.not_eq_true, Bool.not_eq_false'] at hne
    cases h
    exact ⟨⟨(isPow2_iff size).1 hne.2, rfl, Nat.pos_of_ne_zero hne.1⟩, rfl, rfl, rfl, rfl⟩

/-! ## The producer's operations -/

section
variable {r : XskRing} {consumer producer : UInt32}

/-- The free slots as the code computes them. -/
theorem freeSlots_toNat {c : UInt32} (h : gap c r.cachedProd ≤ r.size.toNat) :
    (r.size - (r.cachedProd - c)).toNat = r.size.toNat - gap c r.cachedProd := by
  have hlt := r.size.toNat_lt
  rw [UInt32.toNat_sub, show (r.cachedProd - c).toNat = gap c r.cachedProd from rfl]
  omega

/-- A reservation succeeds exactly when the slots are free by the shared consumer counter. -/
theorem prodReserve_cases (nb : UInt32)
    (h : gap r.cachedCons consumer + gap consumer r.cachedProd ≤ r.size.toNat) :
    (gap consumer r.cachedProd + nb.toNat ≤ r.size.toNat ∧
      ∃ c, (c = r.cachedCons ∨ c = consumer) ∧ gap c r.cachedProd + nb.toNat ≤ r.size.toNat ∧
        prodReserve r consumer nb =
          ((nb, r.cachedProd), { r with cachedCons := c, cachedProd := r.cachedProd + nb })) ∨
    (r.size.toNat < gap consumer r.cachedProd + nb.toNat ∧
      prodReserve r consumer nb = ((0, 0), { r with cachedCons := consumer })) := by
  have hlt := r.size.toNat_lt
  have htrans := gap_trans (a := r.cachedCons) (b := consumer) (c := r.cachedProd) (by omega)
  have hfree := freeSlots_toNat (r := r) (c := r.cachedCons) (by omega)
  have hfree' := freeSlots_toNat (r := r) (c := consumer) (by omega)
  unfold prodReserve
  dsimp only
  by_cases h1 : r.size - (r.cachedProd - r.cachedCons) < nb
  · rw [if_pos h1]
    by_cases h2 : r.size - (r.cachedProd - consumer) < nb
    · rw [if_pos h2]
      rw [UInt32.lt_iff_toNat_lt, hfree'] at h2
      exact .inr ⟨by omega, rfl⟩
    · rw [if_neg h2]
      rw [UInt32.lt_iff_toNat_lt, hfree'] at h2
      exact .inl ⟨by omega, consumer, .inr rfl, by omega, rfl⟩
  · rw [if_neg h1]
    rw [UInt32.lt_iff_toNat_lt, hfree] at h1
    exact .inl ⟨by omega, r.cachedCons, .inl rfl, by omega, rfl⟩

/-- A reservation changes the cached counters only. -/
theorem prodReserve_const (r : XskRing) (consumer nb : UInt32) :
    (prodReserve r consumer nb).2.size = r.size ∧
      (prodReserve r consumer nb).2.descSize = r.descSize := by
  unfold prodReserve
  dsimp only
  split
  · split
    · exact ⟨rfl, rfl⟩
    · exact ⟨rfl, rfl⟩
  · exact ⟨rfl, rfl⟩

/-- A reservation that fails reserves nothing. -/
theorem prodReserve_failed {r : XskRing} {consumer nb : UInt32}
    (h : (prodReserve r consumer nb).1.1 ≠ nb) :
    (prodReserve r consumer nb).2.cachedProd = r.cachedProd := by
  unfold prodReserve at h ⊢
  dsimp only at h ⊢
  split at h
  · rename_i h1
    rw [if_pos h1]
    split at h
    · rename_i h2
      rw [if_pos h2]
    · exact absurd rfl h
  · exact absurd rfl h

/-! ## The consumer's operations -/

/-- A peek at an empty ring. -/
theorem consPeek_empty {r : XskRing} {producer : UInt32} (hcached : r.cachedProd = r.cachedCons)
    (hprod : producer = r.cachedCons) (nb : UInt32) :
    consPeek r producer nb = ((0, r.cachedCons), r) := by
  obtain ⟨mask, size, descSize, cachedProd, cachedCons⟩ := r
  obtain rfl : cachedProd = cachedCons := hcached
  obtain rfl : producer = cachedProd := hprod
  simp only [consPeek, UInt32.sub_self, ite_self, gt_iff_lt, UInt32.not_lt_zero, if_false]

/-- A peek finds at most what it asks for, whatever the shared counter is. -/
theorem consPeek_le (r : XskRing) (producer nb : UInt32) :
    (consPeek r producer nb).1.1.toNat ≤ nb.toNat := by
  unfold consPeek
  dsimp only
  generalize (if r.cachedProd - r.cachedCons < nb then _ else _ : UInt32) = avail
  split
  · exact Nat.le_refl _
  · rename_i h
    rw [gt_iff_lt, UInt32.lt_iff_toNat_lt] at h
    omega

theorem consPeek_const (r : XskRing) (producer nb : UInt32) :
    (consPeek r producer nb).2.size = r.size ∧
      (consPeek r producer nb).2.descSize = r.descSize := by
  unfold consPeek
  dsimp only
  split
  · exact ⟨rfl, rfl⟩
  · exact ⟨rfl, rfl⟩

/-- A peek reports what is there by the shared producer counter, up to `nb`. -/
theorem consPeek_cases (nb : UInt32)
    (h : gap r.cachedCons r.cachedProd + gap r.cachedProd producer ≤ r.size.toNat) :
    ∃ n p, (p = r.cachedProd ∨ p = producer) ∧
      consPeek r producer nb = ((n, r.cachedCons), { r with cachedProd := p }) ∧
      n.toNat = min nb.toNat (gap r.cachedCons producer) ∧ n.toNat ≤ gap r.cachedCons p := by
  have hlt := r.size.toNat_lt
  have htrans := gap_trans (a := r.cachedCons) (b := r.cachedProd) (c := producer) (by omega)
  have hgap : ∀ p, (p - r.cachedCons).toNat = gap r.cachedCons p := fun _ => rfl
  unfold consPeek
  dsimp only
  by_cases h1 : r.cachedProd - r.cachedCons < nb
  · rw [if_pos h1, if_pos h1]
    dsimp only
    refine ⟨_, producer, .inr rfl, rfl, ?_⟩
    by_cases h2 : producer - r.cachedCons > nb
    · rw [if_pos h2]
      rw [gt_iff_lt, UInt32.lt_iff_toNat_lt, hgap] at h2
      omega
    · rw [if_neg h2]
      rw [gt_iff_lt, UInt32.lt_iff_toNat_lt, hgap] at h2
      rw [hgap]
      omega
  · rw [if_neg h1, if_neg h1]
    rw [UInt32.lt_iff_toNat_lt, hgap] at h1
    refine ⟨_, r.cachedProd, .inl rfl, rfl, ?_⟩
    by_cases h2 : r.cachedProd - r.cachedCons > nb
    · rw [if_pos h2]
      omega
    · rw [if_neg h2]
      rw [gt_iff_lt, UInt32.lt_iff_toNat_lt, hgap] at h2
      rw [hgap]
      omega

end

/-! ## Slots -/

section
variable {V : Type} {r : SharedRing V}

theorem at_put_self (idx : UInt32) (v : V) : (r.put idx v).at idx = v := if_pos rfl

/-- A write leaves the slots of other counter values less than the size away alone. -/
theorem at_put_of_ne (hwf : r.view.Wf) {idx x : UInt32} (v : V)
    (hgap : gap x idx < r.view.size.toNat) (hne : x ≠ idx) : (r.put idx v).at x = r.at x :=
  if_neg fun h => hne (hwf.desc_inj hgap h)

/-- The entries in front of a written slot stay. -/
theorem slots_put (hwf : r.view.Wf) {a idx : UInt32} (v : V) (h : gap a idx < r.view.size.toNat) :
    slots (r.put idx v).at a idx = slots r.at a idx := by
  refine slots_congr fun x hx => at_put_of_ne hwf v ?_ ?_
  · have hback := gap_of_le (Nat.le_of_lt hx)
    omega
  · rintro rfl
    omega

end

/-! ## A producer's ring -/

/-- The counters of a ring in the order in which a producer's view has them, from the cached
consumer counter to the end of its reservations. -/
structure ProdOk {V : Type} (r : SharedRing V) : Prop where
  wf : r.view.Wf
  room : gap r.view.cachedCons r.consumer + gap r.consumer r.producer + gap r.producer r.cur +
    gap r.cur r.view.cachedProd ≤ r.view.size.toNat

/-- Between calls nothing is reserved. -/
def ProdIdle {V : Type} (r : SharedRing V) : Prop :=
  r.cur = r.producer ∧ r.view.cachedProd = r.producer

namespace ProdOk

variable {V : Type} {r : SharedRing V} (h : ProdOk r)
include h

theorem gaps_le : gap r.view.cachedCons r.consumer + gap r.consumer r.producer +
    gap r.producer r.cur + gap r.cur r.view.cachedProd ≤ 2 ^ 31 := by
  have := h.wf.size_le
  have := h.room
  omega

/-- The consumer takes entries. -/
theorem consume {k : UInt32} (hk : k.toNat ≤ gap r.consumer r.producer) :
    ProdOk { r with consumer := r.consumer + k } := by
  have hroom := h.room
  have hlt := h.gaps_le
  have hl := gap_add_left (k := k) (a := r.consumer) (b := r.producer) hk
  have hr := gap_add_right (k := k) (a := r.view.cachedCons) (b := r.consumer) (by omega)
  refine ⟨h.wf, ?_⟩
  dsimp only
  omega

theorem take (hne : r.consumer ≠ r.producer) : ProdOk { r with consumer := r.consumer + 1 } :=
  h.consume (Nat.one_le_iff_ne_zero.2 (mt gap_eq_zero.1 hne))

theorem gap_consumer_cur :
    gap r.consumer r.cur = gap r.consumer r.producer + gap r.producer r.cur :=
  gap_trans (by have := h.gaps_le; omega)

/-- A refresh of the cached consumer counter. -/
theorem refresh : ProdOk { r with view := { r.view with cachedCons := r.consumer } } := by
  refine ⟨⟨h.wf.pow, h.wf.mask, h.wf.desc⟩, ?_⟩
  have hroom := h.room
  dsimp only
  rw [gap_self]
  omega

/-- One more entry is written into the reservation. -/
theorem put (v : V) (hpos : 0 < gap r.cur r.view.cachedProd) :
    ProdOk { r.put r.cur v with cur := r.cur + 1 } := by
  have hroom := h.room
  have hlt := h.gaps_le
  have hl := gap_add_left (k := 1) (a := r.cur) (b := r.view.cachedProd) hpos
  have hr := gap_add_right (k := 1) (a := r.producer) (b := r.cur) (by
    rw [UInt32.toNat_one]
    omega)
  rw [UInt32.toNat_one] at hl hr
  refine ⟨h.wf, ?_⟩
  dsimp only [SharedRing.put]
  omega

theorem slots_put (v : V) (hpos : 0 < gap r.cur r.view.cachedProd) :
    slots (r.put r.cur v).at r.consumer (r.cur + 1) = slots r.at r.consumer r.cur ++ [v] := by
  have hroom := h.room
  have hlt := h.gaps_le
  have hcur := h.gap_consumer_cur
  rw [slots_snoc _ (by omega), Ring.slots_put h.wf v (by omega), at_put_self]

/-- Reserved entries are published without a count of those written. -/
theorem publish {k : UInt32} (hcur : r.cur = r.producer)
    (hk : k.toNat ≤ gap r.producer r.view.cachedProd) :
    ProdOk { r with producer := r.producer + k, cur := r.producer + k } := by
  have hroom := h.room
  have hlt := h.gaps_le
  rw [hcur, gap_self] at hroom hlt
  have hl := gap_add_left (k := k) (a := r.producer) (b := r.view.cachedProd) hk
  have hr := gap_add_right (k := k) (a := r.consumer) (b := r.producer) (by omega)
  refine ⟨h.wf, ?_⟩
  dsimp only
  rw [gap_self]
  omega

/-- Everything written is published. -/
theorem submit {p : UInt32} (hp : p = r.cur) : ProdOk { r with producer := p } := by
  subst hp
  refine ⟨h.wf, ?_⟩
  have hroom := h.room
  have hcur := h.gap_consumer_cur
  dsimp only
  rw [gap_self]
  omega

end ProdOk

/-- A reservation between calls: all that was asked for, or nothing. -/
theorem ProdOk.reserve {V : Type} {r : SharedRing V} (h : ProdOk r) (hidle : ProdIdle r)
    {nb n idx : UInt32} {v : XskRing} (heq : prodReserve r.view r.consumer nb = ((n, idx), v)) :
    ProdOk { r with view := v } ∧ { r with view := v }.at = r.at ∧
      gap r.cur v.cachedProd = n.toNat ∧
      ((n = nb ∧ idx = r.cur ∧ gap r.consumer r.producer + nb.toNat ≤ r.view.size.toNat) ∨
        (n = 0 ∧ r.view.size.toNat < gap r.consumer r.producer + nb.toNat)) := by
  obtain ⟨hcur, hprod⟩ := hidle
  have hroom := h.room
  have hlt := h.gaps_le
  have hsize := h.wf.size_le
  rw [hcur, hprod, gap_self] at hroom
  have hview : gap r.view.cachedCons r.consumer + gap r.consumer r.view.cachedProd ≤
      r.view.size.toNat := by
    rw [hprod]
    omega
  rcases prodReserve_cases nb hview with ⟨hfit, c, hc, hcfit, heq'⟩ | ⟨hfull, heq'⟩
  · rw [heq'] at heq
    obtain ⟨⟨rfl, rfl⟩, rfl⟩ : (nb = n ∧ r.view.cachedProd = idx) ∧ _ := by
      simpa only [Prod.mk.injEq] using heq
    rw [hprod] at hfit hcfit
    refine ⟨⟨⟨h.wf.pow, h.wf.mask, h.wf.desc⟩, ?_⟩, rfl, ?_,
      .inl ⟨rfl, hprod.trans hcur.symm, hfit⟩⟩
    · dsimp only
      rw [hcur, hprod, gap_self, gap_add_self]
      rcases hc with rfl | rfl
      · have := gap_trans (a := r.view.cachedCons) (b := r.consumer) (c := r.producer) (by omega)
        omega
      · rw [gap_self]
        omega
    · dsimp only
      rw [hcur, hprod, gap_add_self]
  · rw [heq'] at heq
    obtain ⟨⟨rfl, rfl⟩, rfl⟩ : (0 = n ∧ 0 = idx) ∧ _ := by
      simpa only [Prod.mk.injEq] using heq
    rw [hprod] at hfull
    refine ⟨h.refresh, rfl, ?_, .inr ⟨rfl, hfull⟩⟩
    dsimp only
    rw [hcur, hprod, gap_self]
    rfl

/-! ## A consumer's ring -/

/-- The counters of a ring in the order in which a consumer's view has them. -/
structure ConsOk {V : Type} (r : SharedRing V) : Prop where
  wf : r.view.Wf
  own : r.view.cachedCons = r.consumer
  room : gap r.consumer r.cur + gap r.cur r.view.cachedProd + gap r.view.cachedProd r.producer ≤
    r.view.size.toNat

/-- Between calls everything the consumer has worked on is released. -/
def ConsIdle {V : Type} (r : SharedRing V) : Prop := r.cur = r.consumer

namespace ConsOk

variable {V : Type} {r : SharedRing V} (h : ConsOk r)
include h

theorem gaps_le : gap r.consumer r.cur + gap r.cur r.view.cachedProd +
    gap r.view.cachedProd r.producer ≤ 2 ^ 31 := by
  have := h.wf.size_le
  have := h.room
  omega

theorem gap_cur_producer : gap r.cur r.producer =
    gap r.cur r.view.cachedProd + gap r.view.cachedProd r.producer :=
  gap_trans (by have := h.gaps_le; omega)

theorem gap_consumer_producer : gap r.consumer r.producer =
    gap r.consumer r.cur + gap r.cur r.producer := by
  have := h.gaps_le
  have := h.gap_cur_producer
  exact gap_trans (by omega)

/-- The producer publishes entries, given room. -/
theorem publish {k : UInt32} (hroom : gap r.consumer r.producer + k.toNat ≤ r.view.size.toNat) :
    ConsOk { r with producer := r.producer + k } := by
  have hlt := h.gaps_le
  have hsize := h.wf.size_le
  have h1 := h.gap_cur_producer
  have h2 := h.gap_consumer_producer
  have hr := gap_add_right (k := k) (a := r.view.cachedProd) (b := r.producer) (by omega)
  refine ⟨h.wf, h.own, ?_⟩
  dsimp only
  omega

theorem post (v : V) (hroom : gap r.consumer r.producer < r.view.size.toNat) :
    ConsOk { r.put r.producer v with producer := r.producer + 1 } := by
  have hpub := h.publish (k := 1) hroom
  exact ⟨hpub.wf, hpub.own, hpub.room⟩

theorem slots_post (v : V) (hroom : gap r.consumer r.producer < r.view.size.toNat) :
    slots (r.put r.producer v).at r.cur (r.producer + 1) = slots r.at r.cur r.producer ++ [v] := by
  have hlt := h.gaps_le
  have h1 := h.gap_cur_producer
  have h2 := h.gap_consumer_producer
  rw [slots_snoc _ (by omega), Ring.slots_put h.wf v (by omega), at_put_self]

/-- The consumer has worked on one entry more. -/
theorem next (hpos : 0 < gap r.cur r.view.cachedProd) : ConsOk { r with cur := r.cur + 1 } := by
  have hroom := h.room
  have hlt := h.gaps_le
  have hl := gap_add_left (k := 1) (a := r.cur) (b := r.view.cachedProd) hpos
  have hr := gap_add_right (k := 1) (a := r.consumer) (b := r.cur) (by
    rw [UInt32.toNat_one]
    omega)
  rw [UInt32.toNat_one] at hl hr
  refine ⟨h.wf, h.own, ?_⟩
  dsimp only
  omega

/-- An entry the consumer has peeked is there. -/
theorem slots_next (hpos : 0 < gap r.cur r.view.cachedProd) :
    slots r.at r.cur r.producer = r.at r.cur :: slots r.at (r.cur + 1) r.producer := by
  refine slots_cons _ fun heq => ?_
  have h1 := h.gap_cur_producer
  rw [← heq, gap_self] at h1
  omega

/-- Entries are released without a count of those worked on. -/
theorem drop {k : UInt32} (hcur : r.cur = r.consumer)
    (hk : k.toNat ≤ gap r.consumer r.view.cachedProd) :
    ConsOk { r with consumer := r.consumer + k, cur := r.consumer + k
                    view := { r.view with cachedCons := r.view.cachedCons + k } } := by
  have hroom := h.room
  have hl := gap_add_left (k := k) (a := r.consumer) (b := r.view.cachedProd) hk
  rw [hcur, gap_self] at hroom
  refine ⟨⟨h.wf.pow, h.wf.mask, h.wf.desc⟩, congrArg (· + k) h.own, ?_⟩
  dsimp only
  rw [gap_self]
  omega

/-- Everything worked on is released. -/
theorem release {c cached : UInt32} (hc : c = r.cur) (hcached : cached = r.cur) :
    ConsOk { r with consumer := c, view := { r.view with cachedCons := cached } } := by
  subst hc hcached
  refine ⟨⟨h.wf.pow, h.wf.mask, h.wf.desc⟩, rfl, ?_⟩
  have hroom := h.room
  dsimp only
  rw [gap_self]
  omega

end ConsOk

/-- A peek between calls: what is there by the shared counter, up to `nb`. -/
theorem ConsOk.peek {V : Type} {r : SharedRing V} (h : ConsOk r) (hidle : ConsIdle r)
    (nb : UInt32) {n idx : UInt32} {v : XskRing}
    (heq : consPeek r.view r.producer nb = ((n, idx), v)) :
    ConsOk { r with view := v } ∧ { r with view := v }.at = r.at ∧ idx = r.cur ∧
      n.toNat = min nb.toNat (gap r.consumer r.producer) ∧ n.toNat ≤ gap r.cur v.cachedProd := by
  have hcur : r.cur = r.consumer := hidle
  have hroom := h.room
  have hlt := h.gaps_le
  have htrans := h.gap_cur_producer
  rw [hcur, gap_self] at hroom
  rw [hcur] at htrans
  have hview : gap r.view.cachedCons r.view.cachedProd + gap r.view.cachedProd r.producer ≤
      r.view.size.toNat := by
    rw [h.own]
    omega
  obtain ⟨m, p, hp, heq', hm, hle⟩ := consPeek_cases nb hview
  rw [heq'] at heq
  obtain ⟨⟨rfl, rfl⟩, rfl⟩ : (m = n ∧ r.view.cachedCons = idx) ∧ _ := by
    simpa only [Prod.mk.injEq] using heq
  rw [h.own] at hm hle
  refine ⟨⟨⟨h.wf.pow, h.wf.mask, h.wf.desc⟩, h.own, ?_⟩, rfl, h.own.trans hcur.symm, hm, ?_⟩
  · dsimp only
    rw [hcur, gap_self]
    rcases hp with rfl | rfl
    · omega
    · rw [gap_self]
      omega
  · rw [hcur]
    exact hle

/-- `consAvailable` between calls: the entries published and not released, which a peek finds. -/
theorem ConsOk.available {V : Type} {r : SharedRing V} (h : ConsOk r) (hidle : ConsIdle r)
    {n : UInt32} {v : XskRing} (heq : consAvailable r.view r.producer = (n, v)) :
    ConsOk { r with view := v } ∧ n.toNat = gap r.consumer r.producer ∧
      ∀ nb, (consPeek v r.producer nb).1.1.toNat = min nb.toNat n.toNat := by
  have hcur : r.cur = r.consumer := hidle
  have hroom := h.room
  have htrans := h.gap_cur_producer
  rw [hcur, gap_self] at hroom
  rw [hcur] at htrans
  obtain ⟨rfl, rfl⟩ := Prod.mk.inj heq
  have hok : ConsOk { r with view := { r.view with cachedProd := r.producer } } := by
    refine ⟨⟨h.wf.pow, h.wf.mask, h.wf.desc⟩, h.own, ?_⟩
    dsimp only
    rw [hcur, gap_self, gap_self]
    omega
  have hn : (r.producer - r.view.cachedCons).toNat = gap r.consumer r.producer := by
    rw [h.own]
    rfl
  refine ⟨hok, hn, fun nb => ?_⟩
  obtain ⟨-, -, -, hpeek, -⟩ := hok.peek hidle nb rfl
  rw [hn]
  exact hpeek

/-! ## Reservations and peeks in progress -/

/-- Of a reservation of `total` entries from `p₀`, `k` are written and `n` are left. -/
def Writing {V : Type} (r : SharedRing V) (p₀ total : UInt32) (n : Nat) (k : UInt32) : Prop :=
  r.producer = p₀ ∧ r.cur = p₀ + k ∧ gap r.cur r.view.cachedProd = n ∧ k.toNat + n = total.toNat

/-- Of a peek of `total` entries from `c₀`, `k` are read and `n` are left. -/
def Reading {V : Type} (r : SharedRing V) (c₀ total : UInt32) (n : Nat) (k : UInt32) : Prop :=
  r.consumer = c₀ ∧ r.cur = c₀ + k ∧ n ≤ gap r.cur r.view.cachedProd ∧ k.toNat + n = total.toNat

theorem toNat_succ_of_lt {k total : UInt32} {n : Nat} (h : k.toNat + (n + 1) = total.toNat) :
    (k + 1).toNat = k.toNat + 1 := by
  have hlt := total.toNat_lt
  rw [UInt32.toNat_add, UInt32.toNat_one]
  omega

section
variable {V : Type} {r : SharedRing V} {p₀ c₀ total k : UInt32} {n : Nat}

theorem Writing.put (h : Writing r p₀ total (n + 1) k) (v : V) :
    Writing { r.put r.cur v with cur := r.cur + 1 } p₀ total n (k + 1) := by
  obtain ⟨hp, hc, hgap, hsum⟩ := h
  have hl := gap_add_left (k := 1) (a := r.cur) (b := r.view.cachedProd) (by
    rw [hgap]
    exact Nat.le_add_left 1 n)
  rw [hgap, UInt32.toNat_one] at hl
  refine ⟨hp, ?_, hl, ?_⟩
  · change r.cur + 1 = _
    rw [hc, UInt32.add_assoc]
  · rw [toNat_succ_of_lt hsum]
    omega

theorem Writing.finish (h : Writing r p₀ total 0 k) :
    k = total ∧ r.cur = p₀ + total ∧ r.view.cachedProd = r.cur := by
  obtain ⟨-, hc, hgap, hsum⟩ := h
  obtain rfl : k = total := UInt32.toNat_inj.1 hsum
  exact ⟨rfl, hc, (gap_eq_zero.1 hgap).symm⟩

theorem Reading.next (h : Reading r c₀ total (n + 1) k) :
    Reading { r with cur := r.cur + 1 } c₀ total n (k + 1) := by
  obtain ⟨hcons, hc, hgap, hsum⟩ := h
  have hl := gap_add_left (k := 1) (a := r.cur) (b := r.view.cachedProd) (by
    rw [UInt32.toNat_one]
    omega)
  rw [UInt32.toNat_one] at hl
  refine ⟨hcons, ?_, ?_, ?_⟩
  · dsimp only
    rw [hc, UInt32.add_assoc]
  · dsimp only
    omega
  · rw [toNat_succ_of_lt hsum]
    omega

theorem Reading.finish (h : Reading r c₀ total 0 k) : r.cur = c₀ + total := by
  obtain ⟨-, hc, -, hsum⟩ := h
  obtain rfl : k = total := UInt32.toNat_inj.1 hsum
  exact hc

end

/-! ## The two-step operations -/

section
open Interleave
variable {σ V : Type} {Γ : Ctx σ} {ring : Ref σ (SharedRing V)} {P Q : σ → Prop}
  {nb : UInt32} {note : σ → σ}

/-- A submit from an assertion that fixes the producer counter: its load finds `p₀`. -/
theorem prodSubmit_triple (p₀ : UInt32) (hP : Stable Γ P) (hQ : Stable Γ Q)
    (hrefl : ∀ s, Γ.guar s s) (hload : ∀ s, P s → (ring.get s).producer = p₀)
    (hstore : ∀ s, P s → Γ.inv s →
      let s' := note (ring.set { ring.get s with producer := p₀ + nb } s)
      Γ.inv s' ∧ Γ.guar s s' ∧ Q s') :
    Triple Γ P (ring.prodSubmit nb note) fun _ => Q := by
  have hP' : ∀ p, Stable Γ fun s => p = p₀ ∧ P s := fun _ => hP.and_fact _
  refine Triple.bind (Q := fun p s => p = p₀ ∧ P s) (Triple.atomic hP hP' ?_) fun p => ?_
  · intro s hs hi
    exact ⟨hi, hrefl s, hload s hs, hs⟩
  · refine Triple.atomic (hP' p) (fun _ => hQ) ?_
    rintro s ⟨rfl, hs⟩ hi
    exact hstore s hs hi

/-- A release from an assertion that fixes the consumer counter. -/
theorem consRelease_triple (c₀ : UInt32) (hP : Stable Γ P) (hQ : Stable Γ Q)
    (hrefl : ∀ s, Γ.guar s s) (hload : ∀ s, P s → (ring.get s).consumer = c₀)
    (hstore : ∀ s, P s → Γ.inv s →
      let r := ring.get s
      let s' := note (ring.set { r with
        consumer := c₀ + nb, view := { r.view with cachedCons := r.view.cachedCons + nb } } s)
      Γ.inv s' ∧ Γ.guar s s' ∧ Q s') :
    Triple Γ P (ring.consRelease nb note) fun _ => Q := by
  have hP' : ∀ c, Stable Γ fun s => c = c₀ ∧ P s := fun _ => hP.and_fact _
  refine Triple.bind (Q := fun c s => c = c₀ ∧ P s) (Triple.atomic hP hP' ?_) fun c => ?_
  · intro s hs hi
    exact ⟨hi, hrefl s, hload s hs, hs⟩
  · refine Triple.atomic (hP' c) (fun _ => hQ) ?_
    rintro s ⟨rfl, hs⟩ hi
    exact hstore s hs hi

end

end Rewsr.Ring
