import Mathlib.Data.Nat.ModEq
import Rewsr.Lib.Counter
import Rewsr.Ring.Spsc

/-!
# The single-producer single-consumer ring is a bounded queue

`spsc_fifo` is about every interleaving of the steps of a producer, a consumer and an observer. Its
invariant, `SpscInv`, counts the items published and taken; the indices are these counts modulo
the size, and as at most one item less than the size is live, the producer's and the consumer's
tests tell exactly whether the ring is full or empty (`SpscInv.full_iff`, `SpscInv.empty_iff`).
-/

namespace Rewsr.Ring

open Interleave Counter

/-! ## The size -/

theorem roundupPow2_toNat {v : UInt32} (h : 2 ≤ v.toNat) :
    (roundupPow2 v).toNat = 2 ^ ((v.toNat - 1).log2 + 1) % 2 ^ 32 := by
  have hv : ¬ v < 2 := by
    rw [UInt32.lt_iff_toNat_lt]
    exact Nat.not_lt.2 h
  have hsub : (v - 1).toNat = v.toNat - 1 := by
    have hlt := v.toNat_lt
    rw [UInt32.toNat_sub, UInt32.toNat_one]
    omega
  have hsmear := smear_eq (v := v.toNat - 1) (by omega) (by have := v.toNat_lt; omega)
  have hone := Nat.one_le_two_pow (n := (v.toNat - 1).log2 + 1)
  rw [show 2 ^ ((v.toNat - 1).log2 + 1) = smear (v.toNat - 1) 5 + 1 by omega]
  unfold roundupPow2
  rw [if_neg hv]
  simp only [UInt32.toNat_add, UInt32.toNat_or, UInt32.toNat_shiftRight, hsub, smear]
  rfl

/-- The size of a ring for any capacity up to 2^31. -/
theorem roundupPow2_isPowerOfTwo {v : UInt32} (h : v.toNat ≤ 2 ^ 31) :
    (roundupPow2 v).toNat.isPowerOfTwo := by
  by_cases h2 : 2 ≤ v.toNat
  · have hlog : (v.toNat - 1).log2 < 31 := (Nat.log2_lt (by omega)).2 (by omega)
    refine ⟨(v.toNat - 1).log2 + 1, ?_⟩
    rw [roundupPow2_toNat h2]
    exact Nat.mod_eq_of_lt (Nat.pow_lt_pow_right (by decide) (by omega))
  · have hv : v < 2 := UInt32.lt_iff_toNat_lt.2 (Nat.lt_of_not_le h2)
    rw [roundupPow2, if_pos hv]
    exact ⟨1, rfl⟩

/-- The slots that the indices of a ring range over. Past a capacity of 2^31 the rounded capacity
is 0, and the mask all ones. -/
def slotCount (capacity : UInt32) : Nat := (roundupPow2 capacity - 1).toNat + 1

theorem slotCount_eq {capacity : UInt32} (h : capacity.toNat ≤ 2 ^ 31) :
    slotCount capacity = (roundupPow2 capacity).toNat := by
  have hpow := roundupPow2_isPowerOfTwo h
  have hpos := pow2_pos hpow
  rw [slotCount, toNat_mask hpow]
  omega

/-- Past 2^31 the rounded capacity wraps. -/
theorem roundupPow2_eq_zero {v : UInt32} (h : 2 ^ 31 < v.toNat) : roundupPow2 v = 0 := by
  have hlog : (v.toNat - 1).log2 = 31 := by
    rw [Nat.log2_eq_iff (by omega)]
    have hlt := v.toNat_lt
    omega
  rw [← UInt32.toNat_inj, roundupPow2_toNat (by omega), hlog]
  rfl

theorem slotCount_isPowerOfTwo (capacity : UInt32) : (slotCount capacity).isPowerOfTwo := by
  by_cases h : capacity.toNat ≤ 2 ^ 31
  · rw [slotCount_eq h]
    exact roundupPow2_isPowerOfTwo h
  · rw [slotCount, roundupPow2_eq_zero (Nat.lt_of_not_le h)]
    exact ⟨32, rfl⟩

/-! ## The invariant -/

/-- The indices are the numbers of items published and taken, modulo the size, and the slots of
the items in between hold them. -/
structure SpscInv (size : Nat) (slotSize : UInt32) (r : Spsc) : Prop where
  pow2 : size.isPowerOfTwo
  mask : r.mask.toNat + 1 = size
  slotSize : r.slotSize = slotSize
  head : r.head.toNat = r.consumed.length % size
  tail : r.tail.toNat = r.published.length % size
  taken : r.consumed <+: r.published
  room : r.published.length < r.consumed.length + size
  items : ∀ i item, r.consumed.length ≤ i → r.published[i]? = some item →
    r.slot (UInt32.ofNat (i % size)) = item
  filling : ∀ j, r.filling = some j →
    j = r.tail ∧ r.published.length + 1 < r.consumed.length + size
  copying : ∀ j, r.copying = some j → j = r.head ∧ r.consumed.length < r.published.length

section
variable {size : Nat} {slotSize : UInt32} {r : Spsc}

theorem mod_inj_of_lt {a b n : Nat} (hle : a ≤ b) (hlt : b < a + n) (h : a % n = b % n) :
    a = b := by
  have hsub := Nat.sub_mod_eq_zero_of_mod_eq h.symm
  rw [Nat.mod_eq_of_lt (by omega)] at hsub
  omega

namespace SpscInv

variable (h : SpscInv size slotSize r)
include h

theorem size_pos : 0 < size := h.mask ▸ Nat.succ_pos _

theorem size_le : size ≤ 2 ^ 32 := h.mask ▸ r.mask.toNat_lt

theorem size_dvd : size ∣ 2 ^ 32 := by
  have hle := h.size_le
  obtain ⟨n, rfl⟩ := h.pow2
  exact Nat.pow_dvd_pow 2 ((Nat.pow_le_pow_iff_right (by decide)).1 hle)

theorem le : r.consumed.length ≤ r.published.length := h.taken.length_le

theorem mask_toNat : r.mask.toNat = size - 1 := by
  rw [← h.mask, Nat.add_sub_cancel]

theorem and_mask_toNat (a : UInt32) : (a &&& r.mask).toNat = a.toNat % size := by
  have hmask := h.mask_toNat
  obtain ⟨n, rfl⟩ := h.pow2
  rw [UInt32.toNat_and, hmask, Nat.and_two_pow_sub_one_eq_mod]

/-- The index after that of item number `k`. -/
theorem next_toNat {i : UInt32} {k : Nat} (hi : i.toNat = k % size) :
    (r.next i).toNat = (k + 1) % size := by
  rw [Spsc.next, h.and_mask_toNat, UInt32.toNat_add, UInt32.toNat_one, hi,
    Nat.mod_mod_of_dvd _ h.size_dvd, Nat.mod_add_mod]

/-- The producer's test finds a full ring. -/
theorem full_iff : r.next r.tail = r.head ↔ r.live = (spscCapacity r).toNat := by
  have hle := h.le
  have hroom := h.room
  rw [← UInt32.toNat_inj, h.next_toNat h.tail, h.head, spscCapacity, h.mask_toNat, Spsc.live]
  constructor
  · intro heq
    by_contra hne
    have := mod_inj_of_lt (a := r.consumed.length) (b := r.published.length + 1) (by omega)
      (by omega) heq.symm
    omega
  · intro heq
    rw [show r.published.length + 1 = r.consumed.length + size by omega, Nat.add_mod_right]

/-- The consumer's test finds an empty ring. -/
theorem empty_iff : r.head = r.tail ↔ r.live = 0 := by
  have hle := h.le
  have hroom := h.room
  rw [← UInt32.toNat_inj, h.head, h.tail, Spsc.live]
  constructor
  · intro heq
    have := mod_inj_of_lt hle hroom heq
    omega
  · intro heq
    rw [show r.published.length = r.consumed.length by omega]

end SpscInv

/-! ## Slots -/

theorem slot_putSlot_self {item : List UInt8} (hlen : item.length = r.slotSize.toNat) (i : UInt32) :
    (r.putSlot i item).slot i = item := by
  refine List.ext_getElem ?_ fun j hj hj' => ?_
  · simp [Spsc.slot, Spsc.putSlot, hlen]
  · have hin : i.toNat * r.slotSize.toNat ≤ i.toNat * r.slotSize.toNat + j ∧
        i.toNat * r.slotSize.toNat + j < i.toNat * r.slotSize.toNat + r.slotSize.toNat := by omega
    simp only [Spsc.slot, Spsc.putSlot, List.getElem_map, List.getElem_range, if_pos hin,
      Nat.add_sub_cancel_left]
    rw [List.getD_eq_getElem?_getD, List.getElem?_eq_getElem hj', Option.getD_some]

/-- The bytes of slot `j`. -/
def Spsc.InSlot (r : Spsc) (j : UInt32) (off : Nat) : Prop :=
  j.toNat * r.slotSize.toNat ≤ off ∧ off < j.toNat * r.slotSize.toNat + r.slotSize.toNat

/-- Different slots do not overlap. -/
theorem Spsc.InSlot.unique {i j : UInt32} {off : Nat} (hi : r.InSlot i off) (hj : r.InSlot j off) :
    i = j := by
  have hdiv : ∀ k, r.InSlot k off → off / r.slotSize.toNat = k.toNat := by
    intro k hk
    refine Nat.div_eq_of_lt_le hk.1 ?_
    rw [Nat.succ_mul]
    exact hk.2
  exact UInt32.toNat_inj.1 ((hdiv i hi).symm.trans (hdiv j hj))

theorem slot_congr {r' : Spsc} (hsize : r'.slotSize = r.slotSize) {j : UInt32}
    (h : ∀ off, r.InSlot j off → r'.slots off = r.slots off) : r'.slot j = r.slot j := by
  rw [Spsc.slot, Spsc.slot, hsize]
  refine List.map_congr_left fun b hb => h _ ?_
  rw [List.mem_range] at hb
  exact ⟨Nat.le_add_right _ _, Nat.add_lt_add_left hb _⟩

theorem slot_putSlot_of_ne {i j : UInt32} (hne : i ≠ j) (item : List UInt8) :
    (r.putSlot i item).slot j = r.slot j := by
  have hsize : (r.putSlot i item).slotSize = r.slotSize := rfl
  exact slot_congr hsize fun off hj => if_neg fun hi => hne (Spsc.InSlot.unique hi hj)

/-- The slot of an item that is live is not the one the producer fills. -/
theorem SpscInv.slot_ne_tail (h : SpscInv size slotSize r) {i : Nat}
    (hlo : r.consumed.length ≤ i) (hhi : i < r.published.length) :
    r.tail ≠ UInt32.ofNat (i % size) := by
  intro heq
  have hle := h.size_le
  have hlt := Nat.mod_lt i h.size_pos
  have hroom := h.room
  have hnat := congrArg UInt32.toNat heq
  rw [h.tail, UInt32.toNat_ofNat_of_lt' (Nat.lt_of_lt_of_le hlt (Nat.le_trans hle (by decide)))]
    at hnat
  have := mod_inj_of_lt (Nat.le_of_lt hhi) (by omega) hnat.symm
  omega

/-! ## The producer's steps -/

theorem loadHead_inv (h : SpscInv size slotSize r) :
    SpscInv size slotSize (r.loadHead r.tail).2 := by
  refine ⟨h.pow2, h.mask, h.slotSize, h.head, h.tail, h.taken, h.room, h.items, ?_, h.copying⟩
  intro j hj
  change (if r.next r.tail = r.head then none else some r.tail) = some j at hj
  split at hj
  · cases hj
  · rename_i hne
    cases hj
    have hfull := mt h.full_iff.2 hne
    have hroom := h.room
    have hle := h.le
    rw [Spsc.live, spscCapacity, h.mask_toNat] at hfull
    refine ⟨rfl, ?_⟩
    change r.published.length + 1 < r.consumed.length + size
    omega

theorem putSlot_inv (h : SpscInv size slotSize r) (item : List UInt8) :
    SpscInv size slotSize (r.putSlot r.tail item) := by
  refine ⟨h.pow2, h.mask, h.slotSize, h.head, h.tail, h.taken, h.room, ?_, h.filling, h.copying⟩
  intro i v hlo hv
  have hhi : i < r.published.length := (List.getElem?_eq_some_iff.1 hv).1
  rw [slot_putSlot_of_ne (h.slot_ne_tail hlo hhi)]
  exact h.items i v hlo hv

theorem publish_inv (h : SpscInv size slotSize r) (hfill : r.filling = some r.tail)
    {item : List UInt8} (hslot : r.slot r.tail = item) :
    SpscInv size slotSize (r.publish r.tail item) := by
  have hlen : (r.publish r.tail item).published.length = r.published.length + 1 := by
    rw [Spsc.publish, List.length_append, List.length_singleton]
  refine ⟨h.pow2, h.mask, h.slotSize, h.head, ?_, ?_, ?_, ?_, nofun, ?_⟩
  · rw [hlen]
    exact h.next_toNat h.tail
  · exact h.taken.trans (List.prefix_append _ _)
  · rw [hlen]
    exact (h.filling _ hfill).2
  · intro i v hlo hv
    change (r.published ++ [item])[i]? = some v at hv
    by_cases hi : i < r.published.length
    · rw [List.getElem?_append_left hi] at hv
      exact h.items i v hlo hv
    · rw [List.getElem?_append_right (Nat.le_of_not_lt hi)] at hv
      obtain ⟨hi', rfl⟩ := List.getElem?_eq_some_iff.1 hv
      obtain rfl : i = r.published.length := by
        rw [List.length_singleton] at hi'
        omega
      rw [List.getElem_singleton, ← h.tail, UInt32.ofNat_toNat]
      exact hslot
  · intro j hj
    rw [hlen]
    obtain ⟨hj, hlt⟩ := h.copying j hj
    exact ⟨hj, Nat.lt_succ_of_lt hlt⟩

/-! ## The consumer's steps -/

theorem loadTail_inv (h : SpscInv size slotSize r) :
    SpscInv size slotSize (r.loadTail r.head).2 := by
  refine ⟨h.pow2, h.mask, h.slotSize, h.head, h.tail, h.taken, h.room, h.items, h.filling, ?_⟩
  intro j hj
  change (if r.head = r.tail then none else some r.head) = some j at hj
  split at hj
  · cases hj
  · rename_i hne
    cases hj
    have hlive := mt h.empty_iff.2 hne
    rw [Spsc.live] at hlive
    refine ⟨rfl, ?_⟩
    change r.consumed.length < r.published.length
    omega

/-- The item the consumer copies. -/
theorem SpscInv.slot_head (h : SpscInv size slotSize r) (hcopy : r.copying = some r.head) :
    r.published[r.consumed.length]? = some (r.slot r.head) := by
  obtain ⟨-, hlt⟩ := h.copying _ hcopy
  have hitem := List.getElem?_eq_getElem hlt
  have hslot := h.items _ _ (Nat.le_refl _) hitem
  rw [← h.head, UInt32.ofNat_toNat] at hslot
  rw [hitem, hslot]

theorem prefix_snoc {α : Type} {l₁ l₂ : List α} {a : α} (h : l₁ <+: l₂)
    (ha : l₂[l₁.length]? = some a) : l₁ ++ [a] <+: l₂ := by
  obtain ⟨t, rfl⟩ := h
  rw [List.getElem?_append_right (Nat.le_refl _), Nat.sub_self] at ha
  cases t with
  | nil => cases ha
  | cons b t =>
    cases ha
    exact ⟨t, by simp⟩

theorem take_inv (h : SpscInv size slotSize r) {out : List UInt8}
    (hout : r.published[r.consumed.length]? = some out) :
    SpscInv size slotSize (r.take r.head out) := by
  have hlen : (r.take r.head out).consumed.length = r.consumed.length + 1 := by
    rw [Spsc.take, List.length_append, List.length_singleton]
  have hroom := h.room
  refine ⟨h.pow2, h.mask, h.slotSize, ?_, h.tail, prefix_snoc h.taken hout, ?_, ?_, ?_, nofun⟩
  · rw [hlen]
    exact h.next_toNat h.head
  · rw [hlen]
    change r.published.length < _
    omega
  · intro i v hlo hv
    rw [hlen] at hlo
    exact h.items i v (Nat.le_of_succ_le hlo) hv
  · intro j hj
    rw [hlen]
    obtain ⟨hj, hlt⟩ := h.filling j hj
    refine ⟨hj, ?_⟩
    change r.published.length + 1 < _
    omega

/-- The observer changes nothing that the invariant is about. -/
theorem snap_inv (h : SpscInv size slotSize r) (snap : CountSnap) :
    SpscInv size slotSize { r with snap } :=
  ⟨h.pow2, h.mask, h.slotSize, h.head, h.tail, h.taken, h.room, h.items, h.filling, h.copying⟩

/-- A count from a tail loaded in one state and a head loaded in another: the items published by
the first less those taken by the second, modulo the size. -/
theorem SpscInv.count_modEq (h : SpscInv size slotSize r) {r₀ : Spsc}
    (h₀ : SpscInv size slotSize r₀) :
    ((r₀.tail - r.head) &&& r.mask).toNat + r.consumed.length ≡ r₀.published.length [MOD size] := by
  have hlt : r.head.toNat < 2 ^ 32 := r.head.toNat_lt
  have hhead : r.consumed.length ≡ r.head.toNat [MOD size] := by
    rw [h.head]
    exact (Nat.mod_modEq _ _).symm
  have htail : r₀.tail.toNat ≡ r₀.published.length [MOD size] := by
    rw [h₀.tail]
    exact Nat.mod_modEq _ _
  rw [h.and_mask_toNat, UInt32.toNat_sub, Nat.mod_mod_of_dvd _ h.size_dvd]
  calc (2 ^ 32 - r.head.toNat + r₀.tail.toNat) % size + r.consumed.length
      ≡ 2 ^ 32 - r.head.toNat + r₀.tail.toNat + r.head.toNat [MOD size] :=
        (Nat.mod_modEq _ _).add hhead
    _ = 2 ^ 32 + r₀.tail.toNat := by omega
    _ ≡ 0 + r₀.published.length [MOD size] :=
        ((Nat.modEq_zero_iff_dvd).2 h.size_dvd).add htail
    _ = r₀.published.length := Nat.zero_add _

/-- A count in one go. -/
theorem count_live (h : SpscInv size slotSize r) :
    ((r.tail - r.head) &&& r.mask).toNat = r.live := by
  have hle := h.le
  have hroom := h.room
  have hlt : ((r.tail - r.head) &&& r.mask).toNat < size := by
    rw [h.and_mask_toNat]
    exact Nat.mod_lt _ h.size_pos
  have hcount := h.count_modEq h
  rw [show r.published.length = r.live + r.consumed.length by rw [Spsc.live]; omega] at hcount
  refine (Nat.ModEq.add_right_cancel' _ hcount).eq_of_lt_of_lt hlt ?_
  rw [Spsc.live]
  omega

end

/-! ## The threads -/

section
variable (size : Nat) (slotSize : UInt32)

/-- What the producer alone changes. -/
def prodSide (r : Spsc) : Spsc :=
  { r with head := 0, consumed := [], copying := none, consSaw := 0, snap := ⟨0, 0, 0⟩ }

/-- What the consumer alone changes, and the sizes. -/
def consSide (r : Spsc) : Spsc :=
  { r with slots := fun _ => 0, tail := 0, published := [], filling := none, prodSaw := 0
           snap := ⟨0, 0, 0⟩ }

def SpscRely : SpscThread → Spsc → Spsc → Prop
  | .producer, r, r' => prodSide r' = prodSide r
  | .consumer, r, r' => consSide r' = consSide r ∧ r.published <+: r'.published
  | .observer, _, _ => True

/-- The steps of each thread. The producer writes only into the slot it is filling. -/
def SpscGuar : SpscThread → Spsc → Spsc → Prop
  | .producer, r, r' => (consSide r' = consSide r ∧ r.published <+: r'.published) ∧
      ∀ off, (∀ j, r.filling = some j → ¬ r.InSlot j off) → r'.slots off = r.slots off
  | .consumer, r, r' => prodSide r' = prodSide r ∧ r.consumed <+: r'.consumed
  | .observer, r, r' => ∃ snap, r' = { r with snap }

def spscCtx (i : SpscThread) : Ctx Spsc where
  inv := SpscInv size slotSize
  rely := SpscRely i
  guar := SpscGuar i
  refl r := by
    cases i with
    | producer => exact rfl
    | consumer => exact ⟨rfl, List.prefix_rfl⟩
    | observer => exact trivial
  trans h h' := by
    cases i with
    | producer => exact Eq.trans h' h
    | consumer => exact ⟨h'.1.trans h.1, h.2.trans h'.2⟩
    | observer => exact trivial

variable {size slotSize}

theorem stable_prodSide {P : Spsc → Prop} (hP : ∀ r, P (prodSide r) ↔ P r) :
    Stable (spscCtx size slotSize .producer) P := by
  intro r r' h hr _
  have hside : prodSide r' = prodSide r := hr
  rw [← hP, hside, hP]
  exact h

theorem stable_consSide {P : Spsc → Prop} (hP : ∀ r, P (consSide r) ↔ P r) :
    Stable (spscCtx size slotSize .consumer) P := by
  intro r r' h hr _
  have hside : consSide r' = consSide r := hr.1
  rw [← hP, hside, hP]
  exact h

/-! ## Calls -/

/-- How a call of the producer ends: it found the ring full, or has published its item. -/
def Produced (size : Nat) (item : List UInt8) (res : UInt32) (r : Spsc) : Prop :=
  (res = 0 ∧ r.prodSaw = size - 1 ∨ res = 1 ∧ r.published.getLast? = some item) ∧
    r.filling = none

theorem stable_produced (item : List UInt8) (res : UInt32) :
    Stable (spscCtx size slotSize .producer) (Produced size item res) :=
  stable_prodSide fun _ => Iff.rfl

/-- From the load that found room to the publishing store, before and after the copy. -/
def Filling (tail : UInt32) (item : List UInt8) (r : Spsc) : Prop :=
  tail = r.tail ∧ r.filling = some tail ∧ item.length = r.slotSize.toNat

def Filled (tail : UInt32) (item : List UInt8) (r : Spsc) : Prop :=
  tail = r.tail ∧ r.filling = some tail ∧ r.slot tail = item

theorem putSlot_triple (tail : UInt32) (item : List UInt8) :
    Triple (spscCtx size slotSize .producer) (Filling tail item)
      (Prog.store fun r => r.putSlot tail item) fun _ => Filled tail item := by
  refine Triple.atomic (stable_prodSide fun _ => Iff.rfl)
    (fun _ => stable_prodSide fun _ => Iff.rfl) fun r hr hi => ?_
  obtain ⟨rfl, hfill, hlen⟩ := hr
  exact ⟨putSlot_inv hi item, ⟨⟨rfl, List.prefix_rfl⟩, fun off hoff => if_neg (hoff _ hfill)⟩, rfl,
    hfill, slot_putSlot_self hlen _⟩

theorem publish_triple (tail : UInt32) (item : List UInt8) :
    Triple (spscCtx size slotSize .producer) (Filled tail item)
      (Prog.store fun r => r.publish tail item) fun _ => Produced size item 1 := by
  refine Triple.atomic (stable_prodSide fun _ => Iff.rfl) (fun _ => stable_produced item 1)
    fun r hr hi => ?_
  obtain ⟨rfl, hfill, hslot⟩ := hr
  refine ⟨publish_inv hi hfill hslot, ⟨⟨rfl, List.prefix_append _ _⟩, fun _ _ => rfl⟩, ?_, rfl⟩
  exact .inr ⟨rfl, List.getLast?_concat⟩

theorem spscProduce_now {r : Spsc} (h : SpscInv size slotSize r) (hidle : r.filling = none)
    {item : List UInt8} (hlen : item.length = r.slotSize.toNat) :
    Now (spscCtx size slotSize .producer) (fun res r' => Produced size item res.1 r')
      (spscProduce item) r := by
  refine Now.atomic_bind (Q := fun tail r => tail = r.tail ∧ r.filling = none ∧
    item.length = r.slotSize.toNat) ?_ fun tail => ?_
  · exact ⟨h, ⟨⟨rfl, List.prefix_rfl⟩, fun _ _ => rfl⟩, rfl, hidle, hlen⟩
  refine Triple.bind (Q := fun res r => if res.1 = res.2 then Produced size item 0 r
    else Filling tail item r) (Triple.atomic (stable_prodSide fun _ => Iff.rfl) (fun res => ?_)
      fun r hr hi => ?_) fun res => ?_
  · split
    · exact stable_produced item 0
    · exact stable_prodSide fun _ => Iff.rfl
  · obtain ⟨rfl, hnone, hlen⟩ := hr
    refine ⟨loadHead_inv hi, ⟨⟨rfl, List.prefix_rfl⟩, fun _ _ => rfl⟩, ?_⟩
    change if r.next r.tail = r.head then Produced size item 0 (r.loadHead r.tail).2
      else Filling r.tail item (r.loadHead r.tail).2
    by_cases hfull : r.next r.tail = r.head
    · rw [if_pos hfull]
      refine ⟨.inl ⟨rfl, ?_⟩, if_pos hfull⟩
      rw [← hi.mask_toNat]
      exact hi.full_iff.1 hfull
    · rw [if_neg hfull]
      exact ⟨rfl, if_neg hfull, hlen⟩
  · obtain ⟨next, head⟩ := res
    dsimp only
    split
    · exact Triple.pure (stable_produced item 0) fun r hr _ => hr
    · refine Triple.bind (putSlot_triple tail item) fun _ => ?_
      refine Triple.bind (publish_triple tail item) fun _ => ?_
      exact Triple.pure (stable_produced item 1) fun r hr _ => hr

/-- How a call of the consumer ends: it found the ring empty, or has taken what it returns. -/
def Taken (res : UInt32) (out : List UInt8) (r : Spsc) : Prop :=
  (res = 0 ∧ r.consSaw = 0 ∨ res = 1 ∧ r.consumed.getLast? = some out) ∧ r.copying = none

theorem stable_taken (res : UInt32) (out : List UInt8) :
    Stable (spscCtx size slotSize .consumer) (Taken res out) :=
  stable_consSide fun _ => Iff.rfl

/-- From the load that found an item to the store, before and after the copy. -/
def Copying (head : UInt32) (r : Spsc) : Prop := head = r.head ∧ r.copying = some head

def Copied (head : UInt32) (out : List UInt8) (r : Spsc) : Prop :=
  Copying head r ∧ r.published[r.consumed.length]? = some out

theorem stable_copied (head : UInt32) (out : List UInt8) :
    Stable (spscCtx size slotSize .consumer) (Copied head out) := by
  intro r r' h hr hi
  obtain ⟨hcopy, hout⟩ := h
  refine ⟨stable_consSide (P := Copying head) (fun _ => Iff.rfl) hcopy hr hi, ?_⟩
  -- what is published stays where it is
  have hsame : r'.consumed = r.consumed := (congrArg Spsc.consumed hr.1 :)
  obtain ⟨t, ht⟩ := hr.2
  rw [hsame, ← ht, List.getElem?_append_left (List.getElem?_eq_some_iff.1 hout).1]
  exact hout

theorem copySlot_triple (head : UInt32) :
    Triple (spscCtx size slotSize .consumer) (Copying head) (Prog.load fun r => r.slot head)
      (Copied head) := by
  refine Triple.atomic (stable_consSide fun _ => Iff.rfl) (stable_copied head) fun r hr hi => ?_
  obtain ⟨rfl, hcopy⟩ := hr
  exact ⟨hi, ⟨rfl, List.prefix_rfl⟩, ⟨rfl, hcopy⟩, hi.slot_head hcopy⟩

theorem take_triple (head : UInt32) (out : List UInt8) :
    Triple (spscCtx size slotSize .consumer) (Copied head out)
      (Prog.store fun r => r.take head out) fun _ => Taken 1 out := by
  refine Triple.atomic (stable_copied head out) (fun _ => stable_taken 1 out) fun r hr hi => ?_
  obtain ⟨⟨rfl, hcopy⟩, hout⟩ := hr
  exact ⟨take_inv hi hout, ⟨rfl, List.prefix_append _ _⟩, .inr ⟨rfl, List.getLast?_concat⟩, rfl⟩

theorem spscConsume_now {r : Spsc} (h : SpscInv size slotSize r) (hidle : r.copying = none) :
    Now (spscCtx size slotSize .consumer) (fun res r' => Taken res.1 res.2 r') spscConsume r := by
  refine Now.atomic_bind (Q := fun head r => head = r.head ∧ r.copying = none) ?_ fun head => ?_
  · exact ⟨h, ⟨rfl, List.prefix_rfl⟩, rfl, hidle⟩
  refine Triple.bind (Q := fun tail r => if head = tail then Taken 0 [] r else Copying head r)
    (Triple.atomic (stable_consSide fun _ => Iff.rfl) (fun tail => ?_) fun r hr hi => ?_)
    fun tail => ?_
  · split
    · exact stable_taken 0 []
    · exact stable_consSide fun _ => Iff.rfl
  · obtain ⟨rfl, hnone⟩ := hr
    refine ⟨loadTail_inv hi, ⟨rfl, List.prefix_rfl⟩, ?_⟩
    change if r.head = r.tail then Taken 0 [] (r.loadTail r.head).2
      else Copying r.head (r.loadTail r.head).2
    by_cases hempty : r.head = r.tail
    · rw [if_pos hempty]
      exact ⟨.inl ⟨rfl, hi.empty_iff.1 hempty⟩, if_pos hempty⟩
    · rw [if_neg hempty]
      exact ⟨rfl, if_neg hempty⟩
  · split
    · exact Triple.pure (stable_taken 0 []) fun r hr _ => hr
    · refine Triple.bind (copySlot_triple head) fun out => ?_
      refine Triple.bind (take_triple head out) fun _ => ?_
      exact Triple.pure (stable_taken 1 out) fun r hr _ => hr

/-- A count leaves everything else alone. -/
theorem spscCount_now {r : Spsc} (h : SpscInv size slotSize r) :
    Now (spscCtx size slotSize .observer) (fun _ _ => True) spscCount r := by
  refine Now.atomic_bind (Q := fun _ _ => True) ⟨snap_inv h _, ⟨_, rfl⟩, trivial⟩ fun tail => ?_
  refine Triple.bind (Q := fun _ _ => True) (Triple.atomic (fun _ _ _ _ _ => trivial)
    (fun _ _ _ _ _ _ => trivial) fun r _ hi => ⟨snap_inv hi _, ⟨_, rfl⟩, trivial⟩) fun res => ?_
  exact Triple.pure (fun _ _ _ _ _ => trivial) fun _ _ _ => trivial

/-! ## The system -/

/-- A ring that the initialiser has set up. -/
def SpscStart (capacity slotSize : UInt32) (r : Spsc) : Prop :=
  ∃ slots, spscInit slots capacity slotSize = some r

theorem SpscStart.inv {capacity slotSize : UInt32} {r : Spsc}
    (h : SpscStart capacity slotSize r) :
    SpscInv (slotCount capacity) slotSize r ∧ r.filling = none ∧ r.copying = none := by
  obtain ⟨slots, h⟩ := h
  cases slots with
  | none => cases h
  | some slots =>
    rw [spscInit] at h
    split at h
    · cases h
    · cases h
      have hpow := slotCount_isPowerOfTwo capacity
      refine ⟨⟨hpow, rfl, rfl, ?_, ?_, List.prefix_rfl, ?_, ?_, nofun, nofun⟩, rfl, rfl⟩
      · exact (Nat.zero_mod _).symm
      · exact (Nat.zero_mod _).symm
      · exact Nat.lt_add_of_pos_right (Nat.succ_pos _)
      · intro i item _ hitem
        cases hitem

/-- What one thread guarantees is what the others rely on. -/
theorem guar_rely {i j : SpscThread} (hne : i ≠ j) {r r' : Spsc} (h : SpscGuar i r r') :
    SpscRely j r r' := by
  cases j with
  | producer =>
    cases i with
    | producer => exact absurd rfl hne
    | consumer => exact h.1
    | observer =>
      obtain ⟨snap, rfl⟩ := h
      exact rfl
  | consumer =>
    cases i with
    | producer => exact h.1
    | consumer => exact absurd rfl hne
    | observer =>
      obtain ⟨snap, rfl⟩ := h
      exact ⟨rfl, List.prefix_rfl⟩
  | observer => exact trivial

/-- The proof outline of the ring. -/
def spscVerified (capacity slotSize : UInt32) :
    Verified spscSys (SpscStart capacity slotSize) where
  inv := SpscInv (slotCount capacity) slotSize
  rely := SpscRely
  guar := SpscGuar
  idle
    | .producer, r => r.filling = none
    | .consumer, r => r.copying = none
    | .observer, _ => True
  post
    | .producer, .produce item, _, res, r => Produced (slotCount capacity) item res.1 r
    | .consumer, _, _, res, r => Taken res.1 res.2 r
    | .producer, _, _, _, _ => False
    | .observer, _, _, _, _ => True
  refl i := (spscCtx (slotCount capacity) slotSize i).refl
  trans i _ _ _ := (spscCtx (slotCount capacity) slotSize i).trans
  start_inv r hr := hr.inv.1
  start_idle i r hr := by
    cases i with
    | producer => exact hr.inv.2.1
    | consumer => exact hr.inv.2.2
    | observer => exact trivial
  env_inv _ henv := henv.elim
  env_rely _ _ _ _ henv := henv.elim
  guar_rely {i j r r'} hne _ _ hg := guar_rely hne hg
  idle_stable i {r r'} hidle hr hi := by
    cases i with
    | producer =>
      exact stable_prodSide (P := fun r => r.filling = none) (fun _ => Iff.rfl) hidle hr hi
    | consumer =>
      exact stable_consSide (P := fun r => r.copying = none) (fun _ => Iff.rfl) hidle hr hi
    | observer => exact trivial
  call i op r hi hidle hok := by
    cases i with
    | producer =>
      cases op with
      | produce item => exact spscProduce_now hi hidle hok
      | consume => exact hok.elim
      | count => exact hok.elim
    | consumer =>
      cases op with
      | produce item => exact hok.elim
      | consume => exact spscConsume_now hi hidle
      | count => exact hok.elim
    | observer =>
      cases op with
      | produce item => exact hok.elim
      | consume => exact hok.elim
      | count => exact spscCount_now hi
  done i op _ _ r _ hpost := by
    cases i with
    | producer =>
      cases op with
      | produce item => exact hpost.2
      | consume => exact hpost.elim
      | count => exact hpost.elim
    | consumer => exact hpost.2
    | observer => exact trivial

/-- Only the producer's copy changes bytes, and only those of the slot it is filling. -/
theorem step_bytes {capacity slotSize : UInt32}
    {c c' : Config SpscThread Spsc (UInt32 × List UInt8) SpscOp}
    (h : Reach spscSys (SpscStart capacity slotSize) c) (hstep : Step spscSys c c') {off : Nat}
    (hoff : ∀ j, c.mem.filling = some j → ¬ c.mem.InSlot j off) :
    c'.mem.slots off = c.mem.slots off := by
  rcases (spscVerified capacity slotSize).step_guar h hstep with hsame | ⟨i, hguar⟩ | henv
  · rw [hsame]
  · cases i with
    | producer => exact hguar.2 off hoff
    | consumer =>
      have hside : prodSide c'.mem = prodSide c.mem := hguar.1
      exact (congrArg (fun r => r.slots off) hside :)
    | observer =>
      obtain ⟨snap, hsnap⟩ := hguar
      rw [hsnap]
  · exact henv.elim

theorem step_slots {capacity slotSize : UInt32}
    {c c' : Config SpscThread Spsc (UInt32 × List UInt8) SpscOp}
    (h : Reach spscSys (SpscStart capacity slotSize) c) (hstep : Step spscSys c c') {j : UInt32}
    (hj : c.mem.filling ≠ some j) : c'.mem.slot j = c.mem.slot j := by
  have hsize : c'.mem.slotSize = c.mem.slotSize := by
    rw [((spscVerified capacity slotSize).sound h).1.slotSize,
      ((spscVerified capacity slotSize).sound (h.tail hstep)).1.slotSize]
  refine slot_congr hsize fun off hoff => step_bytes h hstep fun i hi hin => hj ?_
  rw [hi, Spsc.InSlot.unique hin hoff]

/-- **The ring is a bounded queue**, in every run of a producer, a consumer and an observer: what is
taken is a prefix of what is published, no more than the capacity is live, the slot being filled is
not the one being copied, and calls fail only on a ring that is full, or empty. -/
theorem spsc_fifo {capacity slotSize : UInt32} (hcap : capacity.toNat ≤ 2 ^ 31)
    {c : Config SpscThread Spsc (UInt32 × List UInt8) SpscOp}
    (h : Reach spscSys (SpscStart capacity slotSize) c) :
    (c.mem.consumed <+: c.mem.published ∧ c.mem.live ≤ (spscCapacity c.mem).toNat) ∧
    ((∀ i j, c.mem.filling = some i → c.mem.copying = some j → i ≠ j) ∧
      ∀ c', Step spscSys c c' → ∀ j, c.mem.filling ≠ some j → c'.mem.slot j = c.mem.slot j) ∧
    (∀ item r₀ res, c.th .producer = .busy (.produce item) r₀ (.ret res) →
      res.1 = 0 ∧ c.mem.prodSaw = (spscCapacity c.mem).toNat ∨
        res.1 = 1 ∧ c.mem.published.getLast? = some item) ∧
    (∀ r₀ res, c.th .consumer = .busy .consume r₀ (.ret res) →
      res.1 = 0 ∧ c.mem.consSaw = 0 ∨ res.1 = 1 ∧ c.mem.consumed.getLast? = some res.2) ∧
    (c.th .producer = .idle → c.th .consumer = .idle →
      (spscCount.run c.mem).1.1.toNat = c.mem.live) := by
  have hsize := slotCount_eq hcap
  have hi : SpscInv (slotCount capacity) slotSize c.mem :=
    ((spscVerified capacity slotSize).sound h).1
  rw [hsize] at hi
  have hroom := hi.room
  refine ⟨⟨hi.taken, ?_⟩, ⟨fun i j hfill hcopy heq => ?_, fun c' hstep j hj => ?_⟩,
    fun item r₀ res hret => ?_, fun r₀ res hret => ?_, fun _ _ => ?_⟩
  · rw [Spsc.live, spscCapacity, hi.mask_toNat]
    omega
  · obtain ⟨rfl, -⟩ := hi.filling i hfill
    obtain ⟨rfl, hlt⟩ := hi.copying j hcopy
    have hlive := hi.empty_iff.1 heq.symm
    rw [Spsc.live] at hlive
    omega
  · exact step_slots h hstep hj
  · rw [spscCapacity, hi.mask_toNat, ← hsize]
    exact ((spscVerified capacity slotSize).post_of_reach h hret).1
  · exact ((spscVerified capacity slotSize).post_of_reach h hret).1
  · exact count_live hi

/-- A ring of two slots of one byte. -/
def sampleSpsc : Spsc :=
  { mask := 1, slotSize := 1, slots := fun _ => 0, head := 0, tail := 0, published := []
    consumed := [], filling := none, copying := none, prodSaw := 0, consSaw := 0
    snap := ⟨0, 0, 0⟩ }

theorem spsc_fifo_wrap : ∃ c, Reach spscSys (SpscStart 2 1) c ∧ c.mem.published = [[1], [2], [3]] ∧
    c.mem.consumed = [[1], [2]] ∧ (spscCount.run c.mem).1.1.toNat = 1 := by
  have hstart : SpscStart 2 1 sampleSpsc := ⟨some fun _ => 0, rfl⟩
  have h₁ := (Reach.initial (S := spscSys) hstart).call .producer (.produce [1]) rfl rfl
  have h₂ := h₁.call .consumer .consume trivial rfl
  have h₃ := h₂.call .producer (.produce [2]) rfl rfl
  have h₄ := h₃.call .consumer .consume trivial rfl
  have h₅ := h₄.call .producer (.produce [3]) rfl rfl
  obtain ⟨-, -, -, -, hcount⟩ := spsc_fifo (by decide) h₅
  exact ⟨_, h₅, by decide +kernel, by decide +kernel, (hcount rfl rfl).trans (by decide +kernel)⟩

end

end Rewsr.Ring
