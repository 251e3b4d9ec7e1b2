import Mathlib.Algebra.BigOperators.Group.Finset.Basic
import Mathlib.Algebra.Order.BigOperators.Group.Finset
import Mathlib.Data.Nat.Count

/-!
# Maps that respect exclusive or

`XorMap n k f`: on the numbers of `n` bits, `f` takes exclusive ors to exclusive ors of `k` bits.

* The values that such a map takes are each taken equally often (`XorMap.count_eq`), for an
  exclusive or with any `t` moves the arguments of one value to those of another.
* One that takes every value takes each `2 ^ n / 2 ^ k` times (`XorMap.spread`), and it takes every
  value if it takes those with a single bit (`XorMap.onto_of_bits`).
* A list of numbers with one value shows how often that is taken at least
  (`XorMap.length_le_count`).
* The low bits of such a map are one again (`XorMap.low`).
-/

/-- On the numbers of `n` bits `f` has `k` bits and respects exclusive or. -/
structure XorMap (n k : Nat) (f : Nat → Nat) : Prop where
  lt : ∀ a < 2 ^ n, f a < 2 ^ k
  xor : ∀ a < 2 ^ n, ∀ b < 2 ^ n, f (a ^^^ b) = f a ^^^ f b

namespace XorMap

variable {n k : Nat} {f : Nat → Nat}

theorem xor_xor_self (a t : Nat) : a ^^^ t ^^^ t = a := by
  rw [Nat.xor_assoc, Nat.xor_self, Nat.xor_zero]

theorem xor_eq_iff {a b c : Nat} : a ^^^ b = c ↔ b = a ^^^ c := by
  constructor
  · rintro rfl
    rw [← Nat.xor_assoc, Nat.xor_self, Nat.zero_xor]
  · rintro rfl
    rw [← Nat.xor_assoc, Nat.xor_self, Nat.zero_xor]

theorem map_zero (h : XorMap n k f) : f 0 = 0 := by
  have hpos := Nat.two_pow_pos n
  have hzero := h.xor 0 hpos 0 hpos
  rw [Nat.xor_self, Nat.xor_self] at hzero
  exact hzero

/-- A value that is taken is taken as often as zero is. -/
theorem count_eq (h : XorMap n k f) {t : Nat} (ht : t < 2 ^ n) :
    Nat.count (f · = f t) (2 ^ n) = Nat.count (f · = 0) (2 ^ n) := by
  have hmem : ∀ a v, a ∈ (Finset.range (2 ^ n)).filter (f · = v) ↔ a < 2 ^ n ∧ f a = v := by
    intro a v
    rw [Finset.mem_filter, Finset.mem_range]
  rw [Nat.count_eq_card_filter_range, Nat.count_eq_card_filter_range]
  refine Finset.card_nbij' (· ^^^ t) (· ^^^ t) (fun a ha => ?_) (fun a ha => ?_) (fun a _ => ?_)
    fun a _ => ?_
  · obtain ⟨hlt, hval⟩ := (hmem a _).1 ha
    refine (hmem _ _).2 ⟨Nat.xor_lt_two_pow hlt ht, ?_⟩
    rw [h.xor a hlt t ht, hval, Nat.xor_self]
  · obtain ⟨hlt, hval⟩ := (hmem a _).1 ha
    refine (hmem _ _).2 ⟨Nat.xor_lt_two_pow hlt ht, ?_⟩
    rw [h.xor a hlt t ht, hval, Nat.zero_xor]
  · exact xor_xor_self a t
  · exact xor_xor_self a t

/-- Numbers with `p`, listed. -/
theorem length_le_count {p : Nat → Prop} [DecidablePred p] {l : List Nat} (hl : l.Nodup) {n : Nat}
    (h : ∀ a ∈ l, a < n ∧ p a) : l.length ≤ Nat.count p n := by
  rw [Nat.count_eq_card_filter_range, ← List.toFinset_card_of_nodup hl]
  refine Finset.card_le_card fun a ha => ?_
  rw [Finset.mem_filter, Finset.mem_range]
  exact h a (List.mem_toFinset.1 ha)

/-- **Even spread.** -/
theorem spread (h : XorMap n k f) (honto : ∀ v < 2 ^ k, ∃ a < 2 ^ n, f a = v) {v : Nat}
    (hv : v < 2 ^ k) : Nat.count (f · = v) (2 ^ n) * 2 ^ k = 2 ^ n := by
  have hsame : ∀ u < 2 ^ k, Nat.count (f · = u) (2 ^ n) = Nat.count (f · = v) (2 ^ n) := by
    intro u hu
    obtain ⟨a, ha, rfl⟩ := honto u hu
    obtain ⟨b, hb, rfl⟩ := honto v hv
    rw [h.count_eq ha, h.count_eq hb]
  have hsum : (Finset.range (2 ^ n)).card =
      ∑ u ∈ Finset.range (2 ^ k), ((Finset.range (2 ^ n)).filter (f · = u)).card :=
    Finset.card_eq_sum_card_fiberwise fun a ha =>
      Finset.mem_coe.2 (Finset.mem_range.2 (h.lt a (Finset.mem_range.1 (Finset.mem_coe.1 ha))))
  have hconst : ∀ u ∈ Finset.range (2 ^ k), ((Finset.range (2 ^ n)).filter (f · = u)).card =
      Nat.count (f · = v) (2 ^ n) := by
    intro u hu
    rw [← Nat.count_eq_card_filter_range]
    exact hsame u (Finset.mem_range.1 hu)
  rw [Finset.sum_const_nat hconst, Finset.card_range, Finset.card_range] at hsum
  rw [Nat.mul_comm, ← hsum]

/-- A number of `j + 1` bits is one of `j` bits, or the exclusive or of one with the top bit. -/
theorem top_bit {v j : Nat} (hv : v < 2 ^ (j + 1)) (hle : 2 ^ j ≤ v) : v ^^^ 2 ^ j < 2 ^ j := by
  have hpos := Nat.two_pow_pos j
  have hdiv : v / 2 ^ j = 1 := by
    rw [Nat.div_eq_iff hpos]
    rw [Nat.pow_succ] at hv
    omega
  have hhigh : (v ^^^ 2 ^ j) / 2 ^ j = 0 := by
    rw [Nat.xor_div_two_pow, hdiv, Nat.div_self hpos, Nat.xor_self]
  exact Nat.lt_of_div_eq_zero hpos hhigh

theorem onto_of_bits (h : XorMap n k f) (hbits : ∀ j < k, ∃ a < 2 ^ n, f a = 2 ^ j) :
    ∀ v < 2 ^ k, ∃ a < 2 ^ n, f a = v := by
  have hup : ∀ j ≤ k, ∀ v < 2 ^ j, ∃ a < 2 ^ n, f a = v := by
    intro j
    induction j with
    | zero =>
      intro _ v hv
      obtain rfl : v = 0 := by omega
      exact ⟨0, Nat.two_pow_pos n, h.map_zero⟩
    | succ j ih =>
      intro hj v hv
      rcases Nat.lt_or_ge v (2 ^ j) with hlt | hge
      · exact ih (by omega) v hlt
      · obtain ⟨a, ha, hfa⟩ := ih (by omega) _ (top_bit hv hge)
        obtain ⟨b, hb, hfb⟩ := hbits j (by omega)
        refine ⟨a ^^^ b, Nat.xor_lt_two_pow ha hb, ?_⟩
        rw [h.xor a ha b hb, hfa, hfb]
        exact xor_xor_self v _
  exact hup k (Nat.le_refl k)

theorem low (h : XorMap n k f) (j : Nat) : XorMap n j fun a => f a % 2 ^ j where
  lt _ _ := Nat.mod_lt _ (Nat.two_pow_pos j)
  xor a ha b hb := by rw [h.xor a ha b hb, Nat.xor_mod_two_pow]

/-- Every value of fewer bits is taken by the low bits. -/
theorem onto_low (honto : ∀ v < 2 ^ k, ∃ a < 2 ^ n, f a % 2 ^ k = v) {j : Nat} (hj : j ≤ k) :
    ∀ v < 2 ^ j, ∃ a < 2 ^ n, f a % 2 ^ j = v := by
  intro v hv
  obtain ⟨a, ha, hfa⟩ := honto v (Nat.lt_of_lt_of_le hv (Nat.pow_le_pow_right (by decide) hj))
  refine ⟨a, ha, ?_⟩
  rw [← Nat.mod_mod_of_dvd (f a) (Nat.pow_dvd_pow 2 hj), hfa, Nat.mod_eq_of_lt hv]

end XorMap
