import Mathlib.Order.Bounds.Defs
import Rewsr.Ring.Proof.Spsc

/-!
# The size of the ring: its storage and its counts

* `spsc_storage_iff`: the slots stay inside the storage a caller provides exactly up to a capacity
  of 2^31. Past it the rounded capacity is 0 and the indices range over 2^32 slots
  (`spsc_storage_wraps`).
* `spsc_count_iff`: an observer's count subtracts a head from an older tail. It is the number of
  items that were live at its first load less those taken since, modulo the number of slots; the
  theorem says when that is at most what was live and what was produced since, and when it is the
  capacity. A consumer that overtakes the tail makes a ring with a single item look full
  (`spsc_count_overtaken`).
-/

namespace Rewsr.Ring

open Interleave Counter

/-! ## The storage -/

theorem roundupPow2_isLeast {v : UInt32} (h : v.toNat ≤ 2 ^ 31) :
    IsLeast {n : Nat | n.isPowerOfTwo ∧ max 2 v.toNat ≤ n} (roundupPow2 v).toNat := by
  have hpow := roundupPow2_isPowerOfTwo h
  by_cases h2 : 2 ≤ v.toNat
  · have hlog : (v.toNat - 1).log2 < 31 := (Nat.log2_lt (by omega)).2 (by omega)
    have hn : (roundupPow2 v).toNat = 2 ^ ((v.toNat - 1).log2 + 1) := by
      rw [roundupPow2_toNat h2]
      exact Nat.mod_eq_of_lt (Nat.pow_lt_pow_right (by decide) (by omega))
    have hlt : v.toNat - 1 < 2 ^ ((v.toNat - 1).log2 + 1) := Nat.lt_log2_self
    refine ⟨⟨hpow, ?_⟩, ?_⟩
    · rw [hn]
      omega
    · intro m hm
      obtain ⟨⟨k, rfl⟩, hle⟩ := hm
      have hself : 2 ^ (v.toNat - 1).log2 ≤ v.toNat - 1 := Nat.log2_self_le (by omega)
      have hk : 2 ^ (v.toNat - 1).log2 < 2 ^ k := by omega
      rw [hn]
      exact Nat.pow_le_pow_right (by decide) ((Nat.pow_lt_pow_iff_right (by decide)).1 hk)
  · have hv : v < 2 := UInt32.lt_iff_toNat_lt.2 (Nat.lt_of_not_le h2)
    rw [roundupPow2, if_pos hv]
    refine ⟨⟨⟨1, rfl⟩, ?_⟩, fun m hm => ?_⟩
    · change max 2 v.toNat ≤ 2
      omega
    · have hle : max 2 v.toNat ≤ m := hm.2
      change 2 ≤ m
      omega

/-- What a caller relies on to provide `roundupPow2 capacity` slots: this is the smallest power of
two that will do, the capacity is one less, and in every run the slots that the producer writes and
the consumer copies are among them, so that no byte behind them changes. -/
def StorageBound (capacity slotSize : UInt32) : Prop :=
  IsLeast {n : Nat | n.isPowerOfTwo ∧ max 2 capacity.toNat ≤ n} (roundupPow2 capacity).toNat ∧
  (∀ r, SpscStart capacity slotSize r →
    (spscCapacity r).toNat + 1 = (roundupPow2 capacity).toNat) ∧
  ∀ c, Reach spscSys (SpscStart capacity slotSize) c →
    (∀ i, c.mem.filling = some i ∨ c.mem.copying = some i →
      i.toNat < (roundupPow2 capacity).toNat ∧
        ∀ off, c.mem.InSlot i off → off < (roundupPow2 capacity).toNat * slotSize.toNat) ∧
    ∀ c', Step spscSys c c' → ∀ off, (roundupPow2 capacity).toNat * slotSize.toNat ≤ off →
      c'.mem.slots off = c.mem.slots off

theorem Spsc.InSlot.lt {r : Spsc} {i : UInt32} {off n : Nat} (h : r.InSlot i off)
    (hi : i.toNat < n) : off < n * r.slotSize.toNat := by
  have hmul : (i.toNat + 1) * r.slotSize.toNat ≤ n * r.slotSize.toNat := Nat.mul_le_mul_right _ hi
  rw [Nat.succ_mul] at hmul
  exact Nat.lt_of_lt_of_le h.2 hmul

/-- The slots in use are below the size. -/
theorem SpscInv.slot_lt {size : Nat} {slotSize : UInt32} {r : Spsc} (h : SpscInv size slotSize r)
    {i : UInt32} (hi : r.filling = some i ∨ r.copying = some i) : i.toNat < size := by
  rcases hi with hi | hi
  · rw [(h.filling i hi).1, h.tail]
    exact Nat.mod_lt _ h.size_pos
  · rw [(h.copying i hi).1, h.head]
    exact Nat.mod_lt _ h.size_pos

/-- **The storage** is enough exactly for the capacities up to 2^31. -/
theorem spsc_storage_iff (capacity slotSize : UInt32) :
    StorageBound capacity slotSize ↔ capacity.toNat ≤ 2 ^ 31 := by
  constructor
  · intro h
    by_contra hcap
    obtain ⟨⟨⟨-, hle⟩, -⟩, -⟩ := h
    rw [roundupPow2_eq_zero (Nat.lt_of_not_le hcap)] at hle
    change max 2 capacity.toNat ≤ 0 at hle
    omega
  · intro hcap
    refine ⟨roundupPow2_isLeast hcap, fun r hr => ?_, fun c hc => ?_⟩
    · rw [← slotCount_eq hcap]
      exact hr.inv.1.mask
    · have hi : SpscInv (slotCount capacity) slotSize c.mem :=
        ((spscVerified capacity slotSize).sound hc).1
      rw [slotCount_eq hcap] at hi
      have hbytes : ∀ i, c.mem.filling = some i ∨ c.mem.copying = some i → ∀ off,
          c.mem.InSlot i off → off < (roundupPow2 capacity).toNat * slotSize.toNat := by
        intro i hslot off hoff
        rw [← hi.slotSize]
        exact Spsc.InSlot.lt hoff (hi.slot_lt hslot)
      refine ⟨fun i hslot => ⟨hi.slot_lt hslot, hbytes i hslot⟩, fun c' hstep off hoff => ?_⟩
      refine step_bytes hc hstep fun i hfill hin => ?_
      exact absurd (hbytes i (.inl hfill) off hin) (Nat.not_lt.2 hoff)

/-- A ring of one byte slots with a capacity of 2^31 + 1. -/
def wrappedSpsc : Spsc :=
  { mask := 0xFFFFFFFF, slotSize := 1, slots := fun _ => 0, head := 0, tail := 0, published := []
    consumed := [], filling := none, copying := none, prodSaw := 0, consSaw := 0
    snap := ⟨0, 0, 0⟩ }

/-- There the caller is to provide no storage at all, and the first item goes into slot 0. -/
theorem spsc_storage_wraps :
    spscInit (some fun _ => 0) 2147483649 1 = some wrappedSpsc ∧
    (roundupPow2 2147483649).toNat = 0 ∧
    (∃ c, Reach spscSys (SpscStart 2147483649 1) c ∧ c.mem.filling = some 0) ∧
    ¬ StorageBound 2147483649 1 := by
  have hinit : spscInit (some fun _ => 0) 2147483649 1 = some wrappedSpsc := by rfl
  have hround : (roundupPow2 2147483649).toNat = 0 := by decide
  refine ⟨hinit, hround, ?_, ?_⟩
  · have hstart : SpscStart 2147483649 1 wrappedSpsc := ⟨_, hinit⟩
    have hload := (Reach.initial (S := spscSys) hstart).starts .producer (.produce [1]) rfl rfl rfl
    exact ⟨_, hload.tail (.step (i := SpscThread.producer) rfl), rfl⟩
  · intro h
    obtain ⟨⟨⟨-, hle⟩, -⟩, -⟩ := h
    rw [hround] at hle
    exact absurd hle (by decide)

/-! ## Counts -/

/-- What is left of a count after its first load. -/
def countRest (tail : UInt32) : Prog Spsc (UInt32 × List UInt8) := do
  let (head, mask) ← Prog.atomic fun r => (((r.countHead).1, r.mask), (r.countHead).2)
  return ((tail - head) &&& mask, [])

/-- The items published and taken only grow. -/
theorem step_grows {capacity slotSize : UInt32}
    {c c' : Config SpscThread Spsc (UInt32 × List UInt8) SpscOp}
    (h : Reach spscSys (SpscStart capacity slotSize) c) (hstep : Step spscSys c c') :
    c.mem.published <+: c'.mem.published ∧ c.mem.consumed <+: c'.mem.consumed := by
  rcases (spscVerified capacity slotSize).step_guar h hstep with hsame | ⟨i, hguar⟩ | henv
  · rw [hsame]
    exact ⟨List.prefix_rfl, List.prefix_rfl⟩
  · cases i with
    | producer =>
      have hside : consSide c'.mem = consSide c.mem := hguar.1.1
      have hsame : c'.mem.consumed = c.mem.consumed := (congrArg Spsc.consumed hside :)
      exact ⟨hguar.1.2, hsame ▸ List.prefix_rfl⟩
    | consumer =>
      have hside : prodSide c'.mem = prodSide c.mem := hguar.1
      have hsame : c'.mem.published = c.mem.published := (congrArg Spsc.published hside :)
      exact ⟨hsame ▸ List.prefix_rfl, hguar.2⟩
    | observer =>
      obtain ⟨snap, hsnap⟩ := hguar
      rw [hsnap]
      exact ⟨List.prefix_rfl, List.prefix_rfl⟩
  · exact henv.elim

/-- A count that has loaded the tail in the state `r₀`, with `p` left to run. -/
structure Counting (size : Nat) (slotSize : UInt32) (r₀ : Spsc)
    (p : Prog Spsc (UInt32 × List UInt8)) (r : Spsc) : Prop where
  inv : SpscInv size slotSize r₀
  published : r₀.published <+: r.published
  consumed : r₀.consumed <+: r.consumed
  rest : p = countRest r₀.tail ∨ ∃ v, p = .ret v

/-- The observer is only ever between its two loads, or about to return. -/
theorem counting_of_reach {capacity slotSize : UInt32}
    {c : Config SpscThread Spsc (UInt32 × List UInt8) SpscOp}
    (h : Reach spscSys (SpscStart capacity slotSize) c) {op : SpscOp} {r₀ : Spsc}
    {p : Prog Spsc (UInt32 × List UInt8)} (hp : c.th .observer = .busy op r₀ p) :
    Counting (slotCount capacity) slotSize r₀ p c.mem := by
  obtain ⟨s, hs, hrun⟩ := h
  induction hrun generalizing op r₀ p with
  | refl => cases hp
  | @tail c c' hrun hstep ih =>
    have hreach : Reach spscSys (SpscStart capacity slotSize) c := ⟨s, hs, hrun⟩
    have hgrow := step_grows hreach hstep
    rcases hstep.thread .observer with hsame | ⟨op', u, k, -, hok, hbody, -, hcall⟩ |
      ⟨op', s₀, u, k, hbusy, -, hnext⟩ | hidle
    · obtain ⟨hinv, hpub, hcons, hrest⟩ := ih (hsame.symm.trans hp)
      exact ⟨hinv, hpub.trans hgrow.1, hcons.trans hgrow.2, hrest⟩
    · cases op' with
      | produce item => exact hok.elim
      | consume => exact hok.elim
      | count =>
        cases hbody
        cases hcall.symm.trans hp
        exact ⟨((spscVerified capacity slotSize).sound hreach).1, hgrow.1, hgrow.2, .inl rfl⟩
    · obtain ⟨hinv, hpub, hcons, hrest⟩ := ih hbusy
      cases hnext.symm.trans hp
      refine ⟨hinv, hpub.trans hgrow.1, hcons.trans hgrow.2, .inr ?_⟩
      rcases hrest with hrest | ⟨v, hrest⟩
      · cases hrest
        exact ⟨_, rfl⟩
      · cases hrest
    · cases hidle.symm.trans hp

/-- The items live at the first load (`p₀ - c₀`), those published since (`p - p₀`) and those taken
since (`c - c₀`), for a count `v` that is `p₀ - c` modulo the size. -/
theorem count_le_iff {n p₀ c₀ p c v : Nat} (hv : v < n) (hmod : v + c ≡ p₀ [MOD n])
    (hc : c₀ ≤ c) (hp : p₀ ≤ p) (hle₀ : c₀ ≤ p₀) (hroom : p₀ < c₀ + n) (hle : c ≤ p) :
    v ≤ p₀ - c₀ + (p - p₀) ↔ c - c₀ ≤ p₀ - c₀ ∨ n ≤ c - c₀ + (p - p₀) := by
  by_cases hover : c ≤ p₀
  · -- the head has not passed the tail
    have heq : v = p₀ - c := by
      rw [show p₀ = p₀ - c + c by omega] at hmod
      exact (Nat.ModEq.add_right_cancel' c hmod).eq_of_lt_of_lt hv (by omega)
    omega
  · have hdvd : n ∣ v + c - p₀ := (Nat.modEq_iff_dvd' (by omega)).1 hmod.symm
    obtain ⟨q, hq⟩ := hdvd
    match q with
    | 0 => omega
    | 1 => omega
    | q + 2 =>
      have hbig : n * 2 ≤ n * (q + 2) := Nat.mul_le_mul_left n (by omega)
      omega

theorem count_full_iff {n p₀ c₀ c v : Nat} (hv : v < n) (hmod : v + c ≡ p₀ [MOD n])
    (hc : c₀ ≤ c) (hle₀ : c₀ ≤ p₀) : v = n - 1 ↔ c - c₀ ≡ p₀ - c₀ + 1 [MOD n] := by
  have hsub : v + (c - c₀) ≡ p₀ - c₀ [MOD n] := by
    refine Nat.ModEq.add_right_cancel' c₀ ?_
    rwa [show v + (c - c₀) + c₀ = v + c by omega, Nat.sub_add_cancel hle₀]
  have hsucc : v + 1 + (c - c₀) ≡ p₀ - c₀ + 1 [MOD n] := by
    rw [Nat.add_right_comm]
    exact hsub.add_right 1
  constructor
  · intro heq
    rw [heq, Nat.sub_add_cancel (by omega)] at hsucc
    simpa [Nat.ModEq] using hsucc
  · intro htaken
    have hzero : v + 1 ≡ 0 [MOD n] := by
      refine Nat.ModEq.add_right_cancel' (c - c₀) (hsucc.trans ?_)
      rw [Nat.zero_add]
      exact htaken.symm
    have hn := Nat.le_of_dvd (Nat.succ_pos v) ((Nat.modEq_zero_iff_dvd).1 hzero)
    omega

/-- **What a count returns**, in every run: `r₀` is the state in which the observer loads the tail,
`c` the configuration in which it loads the head and `v` what it then returns. The count is at most
what was live and what was produced in between exactly if no more was taken in between than was
live, or as much was taken and produced as there are slots; and it is the capacity exactly if one
item more was taken than was live, up to whole turns of the ring. -/
theorem spsc_count_iff {capacity slotSize : UInt32}
    {c c' : Config SpscThread Spsc (UInt32 × List UInt8) SpscOp}
    (h : Reach spscSys (SpscStart capacity slotSize) c) (hstep : Step spscSys c c') {r₀ : Spsc}
    {u : Spsc → Spsc} {k : Spsc → Prog Spsc (UInt32 × List UInt8)} {v : UInt32 × List UInt8}
    (hload : c.th .observer = .busy .count r₀ (.act u k))
    (hret : c'.th .observer = .busy .count r₀ (.ret v)) :
    let slots := (spscCapacity c.mem).toNat + 1
    let produced := c.mem.published.length - r₀.published.length
    let taken := c.mem.consumed.length - r₀.consumed.length
    (v.1.toNat ≤ r₀.live + produced ↔ taken ≤ r₀.live ∨ slots ≤ taken + produced) ∧
    (v.1 = spscCapacity c.mem ↔ taken ≡ r₀.live + 1 [MOD slots]) := by
  obtain ⟨hinv, hpub, hcons, hrest⟩ := counting_of_reach h hload
  have hi : SpscInv (slotCount capacity) slotSize c.mem :=
    ((spscVerified capacity slotSize).sound h).1
  have hval : v.1 = (r₀.tail - c.mem.head) &&& c.mem.mask := by
    rcases hstep.thread .observer with
      hsame | ⟨_, _, _, hidle, -⟩ | ⟨op, s₀, u', k', hbusy, -, hnext⟩ | hidle
    · cases (hload.symm.trans hsame.symm).trans hret
    · cases hload.symm.trans hidle
    · cases hload.symm.trans hbusy
      rcases hrest with hrest | ⟨v', hrest⟩
      · cases hrest
        cases hnext.symm.trans hret
        rfl
      · cases hrest
    · cases hidle.symm.trans hret
  have hmod : v.1.toNat + c.mem.consumed.length ≡ r₀.published.length [MOD slotCount capacity] := by
    rw [hval]
    exact hi.count_modEq hinv
  have hlt : v.1.toNat < slotCount capacity := by
    rw [hval, hi.and_mask_toNat]
    exact Nat.mod_lt _ hi.size_pos
  have hsize : (spscCapacity c.mem).toNat + 1 = slotCount capacity := hi.mask
  dsimp only
  rw [hsize, ← UInt32.toNat_inj, show (spscCapacity c.mem).toNat = slotCount capacity - 1 by omega]
  exact ⟨count_le_iff hlt hmod hcons.length_le hpub.length_le hinv.le hinv.room hi.le,
    count_full_iff hlt hmod hcons.length_le hinv.le⟩

/-- A ring of four slots of one byte. -/
def fourSpsc : Spsc := { sampleSpsc with mask := 3 }

theorem fourSpsc_start : SpscStart 4 1 fourSpsc := ⟨some fun _ => 0, rfl⟩

/-- With nothing in between, a count of one item. -/
theorem spsc_count_one : ∃ c c' r₀ u k v, Reach spscSys (SpscStart 4 1) c ∧ Step spscSys c c' ∧
    c.th .observer = .busy .count r₀ (.act u k) ∧ c'.th .observer = .busy .count r₀ (.ret v) ∧
    r₀.live = 1 ∧ v.1.toNat ≤ r₀.live + (c.mem.published.length - r₀.published.length) ∧
    v.1 ≠ spscCapacity c.mem := by
  have h₁ := (Reach.initial (S := spscSys) fourSpsc_start).call .producer (.produce [1]) rfl rfl
  have h₂ := h₁.starts .observer .count rfl trivial rfl
  obtain ⟨hle, hfull⟩ := spsc_count_iff h₂ (.step (i := SpscThread.observer) rfl) rfl rfl
  exact ⟨_, _, _, _, _, _, h₂, .step (i := SpscThread.observer) rfl, rfl, rfl, by decide +kernel,
    hle.2 (.inl (by decide +kernel)), fun heq => absurd (hfull.1 heq) (by decide +kernel)⟩

/-- An item is produced and taken between the two loads. The only item there ever was in a ring
with room for three, and it is counted as full. -/
theorem spsc_count_overtaken : ∃ c c' r₀ u k v, Reach spscSys (SpscStart 4 1) c ∧
    Step spscSys c c' ∧ c.th .observer = .busy .count r₀ (.act u k) ∧
    c'.th .observer = .busy .count r₀ (.ret v) ∧ c.mem.published.length = 1 ∧
    (spscCapacity c.mem).toNat = 3 ∧ v.1 = spscCapacity c.mem ∧
    ¬ v.1.toNat ≤ r₀.live + (c.mem.published.length - r₀.published.length) := by
  have h₁ := (Reach.initial (S := spscSys) fourSpsc_start).starts .observer .count rfl trivial rfl
  have h₂ := h₁.call_among .producer (.produce [1]) rfl rfl rfl
  have h₃ := h₂.call_among .consumer .consume rfl trivial rfl
  exact ⟨_, _, _, _, _, _, h₃, .step (i := SpscThread.observer) rfl, rfl, rfl, by decide +kernel,
    by decide +kernel, by decide +kernel, by decide +kernel⟩

end Rewsr.Ring
