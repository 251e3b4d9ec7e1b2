import Mathlib.Data.Nat.ModEq

/-!
# Free-running counters

32-bit counters that are only ever increased and wrap. The distance from one to another is taken
modulo `2 ^ 32` (`gap`); over stretches shorter than that, distances add up as natural numbers
(`gap_add_right`, `gap_add_left`, `gap_trans`).

A ring of a power-of-two size maps a counter value to a slot by a mask. Two values less than the
size apart have different slots (`eq_of_and_mask_eq`), so that the slots between two counters
(`slots`) read as a queue: it grows at the end (`slots_snoc`), shrinks at the front (`slots_cons`)
and is not changed by a write behind its end (`slots_congr`).

`smear_eq`: copying the top bit of a word into all the bits below it gives the number that is one
less than the next power of two.
-/

namespace Counter

/-- How far `b` is ahead of `a`. -/
def gap (a b : UInt32) : Nat := (b - a).toNat

variable {a b c k : UInt32}

theorem gap_lt (a b : UInt32) : gap a b < 2 ^ 32 := (b - a).toNat_lt

@[simp] theorem gap_self (a : UInt32) : gap a a = 0 := by simp [gap]

theorem toNat_gap (a b : UInt32) : gap a b = (2 ^ 32 - a.toNat + b.toNat) % 2 ^ 32 := by
  rw [gap, UInt32.toNat_sub]

theorem gap_eq_zero : gap a b = 0 ↔ a = b := by
  have ha := a.toNat_lt
  have hb := b.toNat_lt
  rw [toNat_gap, ← UInt32.toNat_inj]
  omega

/-- The front counter moves on. -/
theorem gap_add_right (h : gap a b + k.toNat < 2 ^ 32) : gap a (b + k) = gap a b + k.toNat := by
  have ha := a.toNat_lt
  have hb := b.toNat_lt
  rw [toNat_gap] at h ⊢
  rw [toNat_gap, UInt32.toNat_add]
  omega

/-- The rear counter moves on, up to the front one. -/
theorem gap_add_left (h : k.toNat ≤ gap a b) : gap (a + k) b = gap a b - k.toNat := by
  have ha := a.toNat_lt
  have hb := b.toNat_lt
  rw [toNat_gap] at h ⊢
  rw [toNat_gap, UInt32.toNat_add]
  omega

theorem gap_trans (h : gap a b + gap b c < 2 ^ 32) : gap a c = gap a b + gap b c := by
  have ha := a.toNat_lt
  have hb := b.toNat_lt
  have hc := c.toNat_lt
  rw [toNat_gap, toNat_gap] at h ⊢
  rw [toNat_gap]
  omega

/-- A counter on the way from `a` to `b`. -/
theorem gap_of_le (h : gap a c ≤ gap a b) : gap c b = gap a b - gap a c := by
  have hleft := gap_add_left (a := a) (b := b) (k := c - a) h
  rwa [UInt32.add_comm, UInt32.sub_add_cancel] at hleft

theorem gap_add_self (a k : UInt32) : gap a (a + k) = k.toNat := by
  have hk := k.toNat_lt
  rw [gap_add_right (by rw [gap_self]; omega), gap_self, Nat.zero_add]

/-! ## Slots of a power-of-two ring -/

theorem pow2_pos {size : UInt32} (hsize : size.toNat.isPowerOfTwo) : 0 < size.toNat := by
  obtain ⟨n, hn⟩ := hsize
  rw [hn]
  exact Nat.two_pow_pos n

theorem pow2_dvd {size : UInt32} (hsize : size.toNat.isPowerOfTwo) : size.toNat ∣ 2 ^ 31 := by
  obtain ⟨n, hn⟩ := hsize
  have hlt := size.toNat_lt
  rw [hn] at hlt ⊢
  exact Nat.pow_dvd_pow 2 (Nat.le_of_lt_succ ((Nat.pow_lt_pow_iff_right (by decide)).1 hlt))

theorem pow2_le {size : UInt32} (hsize : size.toNat.isPowerOfTwo) : size.toNat ≤ 2 ^ 31 :=
  Nat.le_of_dvd (by decide) (pow2_dvd hsize)

theorem toNat_mask {size : UInt32} (hsize : size.toNat.isPowerOfTwo) :
    (size - 1).toNat = size.toNat - 1 := by
  have hpos := pow2_pos hsize
  have hlt := size.toNat_lt
  rw [UInt32.toNat_sub, UInt32.toNat_one]
  omega

theorem toNat_and_mask {size : UInt32} (hsize : size.toNat.isPowerOfTwo) (a : UInt32) :
    (a &&& (size - 1)).toNat = a.toNat % size.toNat := by
  have hsub := toNat_mask hsize
  obtain ⟨n, hn⟩ := hsize
  rw [UInt32.toNat_and, hsub, hn, Nat.and_two_pow_sub_one_eq_mod]

/-- Counters less than the size apart share a slot only if they are equal. -/
theorem eq_of_and_mask_eq {size : UInt32} (hsize : size.toNat.isPowerOfTwo)
    (hgap : gap a b < size.toNat) (h : a &&& (size - 1) = b &&& (size - 1)) : a = b := by
  have hab := congrArg UInt32.toNat h
  rw [toNat_and_mask hsize, toNat_and_mask hsize] at hab
  have hdvd : size.toNat ∣ 2 ^ 32 := (pow2_dvd hsize).trans (by decide)
  -- the distance is a multiple of the size, as both counters have the same remainder
  have hmod : gap a b % size.toNat = 0 := by
    have ha := a.toNat_lt
    have hsum : (gap a b + a.toNat) % size.toNat = b.toNat % size.toNat := by
      rw [toNat_gap, Nat.add_mod, Nat.mod_mod_of_dvd _ hdvd, ← Nat.add_mod,
        show 2 ^ 32 - a.toNat + b.toNat + a.toNat = b.toNat + 2 ^ 32 by omega, Nat.add_mod,
        Nat.mod_eq_zero_of_dvd hdvd, Nat.add_zero, Nat.mod_mod]
    rw [← hab] at hsum
    exact Nat.ModEq.add_right_cancel' (b := 0) a.toNat (by simpa [Nat.ModEq] using hsum)
  rw [Nat.mod_eq_of_lt hgap] at hmod
  exact gap_eq_zero.1 hmod

/-- Masking with the complement of `2 ^ k - 1` clears the low `k` bits. -/
theorem toNat_and_not {w : Nat} (x : BitVec w) (k : Nat) :
    (x &&& ~~~ (BitVec.ofNat w (2 ^ k - 1))).toNat = x.toNat / 2 ^ k * 2 ^ k := by
  apply Nat.eq_of_testBit_eq
  intro i
  rw [BitVec.testBit_toNat, BitVec.getLsbD_and, BitVec.getLsbD_not, BitVec.getLsbD_ofNat,
    Nat.testBit_two_pow_sub_one, Nat.testBit_mul_two_pow, Nat.testBit_div_two_pow]
  by_cases hki : k ≤ i
  · rw [Nat.sub_add_cancel hki, BitVec.testBit_toNat]
    by_cases hi : i < w
    · simp [hki, hi]
    · simp [hi, BitVec.getLsbD_of_ge x i (by omega)]
  · have hik : i < k := by omega
    by_cases hi : i < w <;> simp [hki, hik, hi]

theorem toNat_and_not_mask {x m : UInt64} {k : Nat} (hm : m.toNat = 2 ^ k) :
    (x &&& ~~~ (m - 1)).toNat = x.toNat / 2 ^ k * 2 ^ k := by
  have hsub : (m - 1).toBitVec = BitVec.ofNat 64 (2 ^ k - 1) := by
    apply BitVec.eq_of_toNat_eq
    have hk := Nat.two_pow_pos k
    have hlt := m.toNat_lt
    rw [UInt64.toNat_toBitVec, UInt64.toNat_sub, UInt64.toNat_one, BitVec.toNat_ofNat]
    omega
  have h := toNat_and_not x.toBitVec k
  rw [← hsub] at h
  exact h

/-! ## Rounding up to a power of two -/

/-- The bits of `v` smeared over the `2 ^ k` places below each. -/
def smear (v k : Nat) : Nat :=
  match k with
  | 0 => v
  | k + 1 => smear v k ||| (smear v k >>> 2 ^ k)

theorem testBit_smear (v k i : Nat) :
    (smear v k).testBit i = true ↔ ∃ d < 2 ^ k, v.testBit (i + d) = true := by
  induction k generalizing i with
  | zero => simp [smear]
  | succ k ih =>
    rw [smear, Nat.testBit_or, Nat.testBit_shiftRight, Bool.or_eq_true, ih, ih, Nat.pow_succ]
    constructor
    · intro h
      rcases h with ⟨d, hd, hv⟩ | ⟨d, hd, hv⟩
      · exact ⟨d, by omega, hv⟩
      · exact ⟨2 ^ k + d, by omega, by rwa [← Nat.add_assoc, Nat.add_comm i]⟩
    · intro h
      obtain ⟨d, hd, hv⟩ := h
      by_cases hlt : d < 2 ^ k
      · exact .inl ⟨d, hlt, hv⟩
      · refine .inr ⟨d - 2 ^ k, by omega, ?_⟩
        rwa [show 2 ^ k + i + (d - 2 ^ k) = i + d by omega]

/-- A word with its bits smeared all the way down. -/
theorem smear_eq {v : Nat} (hpos : v ≠ 0) (hlt : v < 2 ^ 32) :
    smear v 5 = 2 ^ (v.log2 + 1) - 1 := by
  refine Nat.eq_of_testBit_eq fun i => ?_
  rw [Nat.testBit_two_pow_sub_one, Bool.eq_iff_iff, testBit_smear, decide_eq_true_iff]
  constructor
  · intro h
    obtain ⟨d, -, hv⟩ := h
    have hle : 2 ^ (i + d) ≤ v := Nat.ge_two_pow_of_testBit hv
    have := (Nat.le_log2 hpos).2 hle
    omega
  · intro h
    have hlog : v.log2 < 32 := (Nat.log2_lt hpos).2 hlt
    refine ⟨v.log2 - i, by omega, ?_⟩
    rw [show i + (v.log2 - i) = v.log2 by omega]
    exact Nat.testBit_log2 hpos

/-! ## The entries between two counters -/

section
variable {V : Type*} (get : UInt32 → V)

/-- What a ring holds from counter `a` up to counter `b`. -/
def slots (a b : UInt32) : List V := (List.range (gap a b)).map fun i => get (a + UInt32.ofNat i)

@[simp] theorem length_slots (a b : UInt32) : (slots get a b).length = gap a b := by simp [slots]

@[simp] theorem slots_self (a : UInt32) : slots get a a = [] := by simp [slots]

theorem add_ofNat_gap (a b : UInt32) : a + UInt32.ofNat (gap a b) = b := by
  have ha := a.toNat_lt
  have hb := b.toNat_lt
  rw [← UInt32.toNat_inj, UInt32.toNat_add, UInt32.toNat_ofNat', toNat_gap]
  omega

theorem slots_append (h : gap a b + gap b c < 2 ^ 32) :
    slots get a c = slots get a b ++ slots get b c := by
  have hmap : (fun i => get (a + UInt32.ofNat (gap a b + i))) =
      fun i => get (b + UInt32.ofNat i) := by
    funext i
    rw [UInt32.ofNat_add, ← UInt32.add_assoc, add_ofNat_gap]
  rw [slots, gap_trans h, List.range_add, List.map_append, List.map_map, slots, slots]
  congr 1
  simpa only [Function.comp_def] using congrArg (List.map · _) hmap

theorem slots_one (a : UInt32) : slots get a (a + 1) = [get a] := by
  have h : gap a (a + 1) = 1 := by rw [gap_add_self, UInt32.toNat_one]
  simp [slots, h]

theorem slots_snoc (h : gap a b + 1 < 2 ^ 32) : slots get a (b + 1) = slots get a b ++ [get b] := by
  rw [slots_append get (b := b) (by rw [gap_add_self, UInt32.toNat_one]; exact h), slots_one]

theorem slots_cons (h : a ≠ b) : slots get a b = get a :: slots get (a + 1) b := by
  have hpos : 1 ≤ gap a b := Nat.one_le_iff_ne_zero.2 (mt gap_eq_zero.1 h)
  have hleft := gap_add_left (k := 1) hpos
  have hlt := gap_lt a b
  rw [UInt32.toNat_one] at hleft
  rw [slots_append get (b := a + 1), slots_one, List.singleton_append]
  rw [gap_add_self, UInt32.toNat_one]
  omega

/-- The first `k` of `n` entries. -/
theorem slots_take {n : UInt32} (h : k ≤ n) :
    slots get a (a + k) = (slots get a (a + n)).take k.toNat := by
  rw [UInt32.le_iff_toNat_le] at h
  have hk := gap_add_self a k
  have hn := gap_add_self a n
  have hkn := gap_of_le (a := a) (b := a + n) (c := a + k) (by omega)
  have hlt := n.toNat_lt
  rw [slots_append get (b := a + k) (c := a + n) (by omega), List.take_left']
  rw [length_slots, hk]

variable {get}

theorem slots_congr {get' : UInt32 → V}
    (h : ∀ x, gap a x < gap a b → get x = get' x) : slots get a b = slots get' a b := by
  apply List.map_congr_left
  intro i hi
  have hlt := gap_lt a b
  have hi := List.mem_range.1 hi
  apply h
  rw [gap_add_self, UInt32.toNat_ofNat']
  omega

end

end Counter
