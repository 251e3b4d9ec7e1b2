import Mathlib.Data.Finset.Card
import Mathlib.Data.Finset.Range
import Rewsr.Lib.BitCount
import Rewsr.Sys.Affinity

/-!
# CPU sets as sets

`has s c`: CPU `c` is in the set. `isset_eq_one` reads it, `has_setRange` adds a range, and the
count and the first CPU are those of the set (`count_eq`, `first_spec`).
-/

namespace Rewsr.Sys.CpuSet

/-- The bit of a CPU. -/
def has (s : CpuSet) (c : Nat) : Bool := (s.word (c / 64)).toNat.testBit (c % 64)

theorem has_word (s : CpuSet) (w : Nat) {b : Nat} (hb : b < 64) :
    has s (w * 64 + b) = (s.word w).toNat.testBit b := by
  have hw : (w * 64 + b) / 64 = w := by omega
  have hbit : (w * 64 + b) % 64 = b := by omega
  rw [has, hw, hbit]

/-- The word of a CPU. -/
theorem div_lt_words {c : Nat} : c / 64 < cpusetWords ↔ c < cpusetMax := by
  have hmax : cpusetMax = 1024 := rfl
  rw [cpusetWords]
  omega

/-- The array holds the CPUs below the maximum only. -/
theorem lt_of_has {s : CpuSet} {c : Nat} (h : has s c) : c < cpusetMax := by
  by_contra hge
  have hlen : s.bits.length ≤ c / 64 := by
    rw [s.length_bits]
    exact Nat.le_of_not_lt (mt div_lt_words.mp hge)
  rw [has, word, List.getD_eq_default _ _ hlen] at h
  simp at h

/-- `(word >> b) & 1` -/
theorem shiftRight_and_one (v : UInt64) {b : Nat} (hb : b < 64) :
    ((v >>> UInt64.ofNat b) &&& 1).toNat = (v.toNat.testBit b).toNat := by
  rw [UInt64.toNat_and, UInt64.toNat_shiftRight, UInt64.toNat_ofNat',
    Nat.mod_eq_of_lt (show b < 2 ^ 64 by omega), Nat.mod_eq_of_lt hb, UInt64.toNat_one,
    Nat.and_one_is_mod, Nat.testBit_eq_decide_div_mod_eq, Nat.shiftRight_eq_div_pow]
  rcases Nat.mod_two_eq_zero_or_one (v.toNat / 2 ^ b) with h | h <;> simp [h]

theorem isset_eq_one {s : CpuSet} {cpu : Int} :
    isset s cpu = 1 ↔ ∃ c : Nat, cpu = c ∧ has s c := by
  rw [isset]
  split
  next hout =>
    refine iff_of_false (by decide) ?_
    rintro ⟨c, rfl, hc⟩
    have := lt_of_has hc
    omega
  next hin =>
    obtain ⟨c, rfl⟩ := Int.eq_ofNat_of_zero_le (show 0 ≤ cpu by omega)
    rw [Int.toNat_natCast, shiftRight_and_one _ (Nat.mod_lt _ (by decide))]
    have hone : ((has s c).toNat : Int) = 1 ↔ has s c := by cases has s c <;> simp
    refine hone.trans ⟨fun h => ⟨c, rfl, h⟩, ?_⟩
    rintro ⟨d, heq, h⟩
    rwa [Int.natCast_inj.mp heq]

/-! ## Adding CPUs -/

@[simp] theorem has_zero (c : Nat) : has zero c = false := by
  have hword : word zero (c / 64) = 0 := by
    rw [word, zero, List.getD_eq_getElem?_getD, List.getElem?_replicate]
    split <;> rfl
  rw [has, hword]
  simp

/-- A store to the word of a CPU. -/
theorem word_store {s t : CpuSet} {c : Nat} (hc : c < cpusetMax) {v : UInt64}
    (h : t.bits = s.bits.set (c / 64) v) (w : Nat) :
    word t w = if w = c / 64 then v else s.word w := by
  have hlen : c / 64 < s.bits.length := by
    rw [s.length_bits]
    exact div_lt_words.mpr hc
  rw [word, h, List.getD_eq_getElem?_getD, List.getElem?_set]
  by_cases hw : w = c / 64
  · subst hw
    simp [hlen]
  · simp [hw, Ne.symm hw, word]

theorem bits_set (s : CpuSet) {c : Nat} (hc : c < cpusetMax) : (set s c).bits =
    s.bits.set (c / 64) (s.word (c / 64) ||| 1 <<< UInt64.ofNat (c % 64)) := by
  rw [set, if_neg (by omega)]
  rfl

theorem bits_clr (s : CpuSet) {c : Nat} (hc : c < cpusetMax) : (clr s c).bits =
    s.bits.set (c / 64) (s.word (c / 64) &&& ~~~ (1 <<< UInt64.ofNat (c % 64))) := by
  rw [clr, if_neg (by omega)]
  rfl

theorem has_set (s : CpuSet) {c : Nat} (hc : c < cpusetMax) (d : Nat) :
    has (set s c) d = (has s d || decide (d = c)) := by
  have hmask := BitCount.toNat_one_shiftLeft (Nat.mod_lt c (show 0 < 64 by decide))
  rw [has, word_store hc (bits_set s hc)]
  by_cases hw : d / 64 = c / 64
  · rw [if_pos hw, UInt64.toNat_or, Nat.testBit_or, hmask, Nat.testBit_two_pow]
    have hiff : (c % 64 = d % 64) = (d = c) := propext (by omega)
    simp only [has, hiff, hw]
  · have hne : d ≠ c := fun h => hw (h ▸ rfl)
    simp [has, hw, hne]

theorem has_clr (s : CpuSet) {c : Nat} (hc : c < cpusetMax) (d : Nat) :
    has (clr s c) d = (has s d && decide (d ≠ c)) := by
  have hmask := BitCount.toNat_one_shiftLeft (Nat.mod_lt c (show 0 < 64 by decide))
  rw [has, word_store hc (bits_clr s hc)]
  by_cases hw : d / 64 = c / 64
  · rw [if_pos hw, UInt64.toNat_and, Nat.testBit_and,
      BitCount.testBit_not _ (Nat.mod_lt d (by decide)), hmask, Nat.testBit_two_pow]
    have hiff : (c % 64 = d % 64) = (d = c) := propext (by omega)
    simp only [has, hiff, hw, ne_eq, decide_not]
  · have hne : d ≠ c := fun h => hw (h ▸ rfl)
    simp [has, hw, hne]

/-- The CPUs of a range are added. -/
theorem has_setRange (s : CpuSet) {lo hi : Int} (hlo : 0 ≤ lo) (hhi : hi < cpusetMax) (c : Nat) :
    has (setRange s lo hi) c ↔ has s c ∨ (lo ≤ c ∧ c ≤ hi) := by
  have hrange : ∀ n : Nat, lo + n ≤ cpusetMax →
      (has ((List.range n).foldl (fun s (k : Nat) => s.set (lo + k)) s) c ↔
        has s c ∨ (lo ≤ c ∧ c < lo + n)) := by
    intro n hn
    induction n with
    | zero =>
      have hempty : ¬ (lo ≤ (c : Int) ∧ (c : Int) < lo + (0 : Nat)) := by omega
      simp only [hempty, or_false]
      rfl
    | succ n ih =>
      obtain ⟨k, hk⟩ := Int.eq_ofNat_of_zero_le (show 0 ≤ lo + n by omega)
      rw [List.range_succ, List.foldl_append, List.foldl_cons, List.foldl_nil, hk,
        has_set _ (by omega), Bool.or_eq_true, ih (by omega), decide_eq_true_eq, or_assoc]
      refine or_congr_right ?_
      omega
  rw [setRange]
  by_cases hle : lo ≤ hi
  · rw [hrange _ (by omega)]
    refine or_congr_right ?_
    omega
  · rw [show (hi - lo + 1).toNat = 0 by omega]
    have hempty : ¬ (lo ≤ (c : Int) ∧ (c : Int) ≤ hi) := by omega
    simp only [hempty, or_false]
    rfl

/-! ## The count and the first CPU -/

theorem countWord_eq (b : UInt64) (count : Nat) :
    countWord b count = count + (List.range 64).countP b.toNat.testBit := by
  fun_induction countWord b count with
  | case1 count => simp
  | case2 b count h ih =>
    have hpos : 0 < b.toNat := Nat.pos_of_ne_zero (mt (UInt64.toNat_inj (b := 0)).mp h)
    have hle : (1 : UInt64) ≤ b := UInt64.le_iff_toNat_le.mpr hpos
    have hclear := BitCount.countP_clear_lowest hpos b.toNat_lt
    rw [ih, UInt64.toNat_and, UInt64.toNat_sub_of_le _ _ hle, UInt64.toNat_one, ← hclear]
    omega

theorem count_eq (s : CpuSet) : count s = (List.range cpusetMax).countP (has s) := by
  rw [count, show cpusetMax = 64 * cpusetWords from rfl, BitCount.countP_words]
  congr 1
  funext n w
  rw [countWord_eq]
  refine congrArg _ (List.countP_congr fun b hb => ?_)
  rw [has_word s w (List.mem_range.mp hb)]

theorem count_eq_card (s : CpuSet) :
    count s = ((Finset.range cpusetMax).filter fun c => has s c).card := by
  have hset : (Finset.range cpusetMax).filter (fun c => has s c) =
      ((List.range cpusetMax).filter (has s)).toFinset := by
    ext c
    rw [Finset.mem_filter, Finset.mem_range, List.mem_toFinset, List.mem_filter, List.mem_range]
  rw [hset, List.toFinset_card_of_nodup (List.nodup_range.filter _), count_eq,
    List.countP_eq_length_filter]

/-- A search of a range for the first number that is found there. -/
theorem findSome?_range {α : Type} {f : Nat → Option α} {n : Nat} {a : α}
    (h : (List.range n).findSome? f = some a) : ∃ i < n, f i = some a ∧ ∀ j < i, f j = none := by
  induction n with
  | zero => cases h
  | succ n ih =>
    rw [List.range_succ, List.findSome?_append, Option.or_eq_some_iff] at h
    rcases h with h | ⟨hnone, h⟩
    · obtain ⟨i, hi, hf, hbefore⟩ := ih h
      exact ⟨i, by omega, hf, hbefore⟩
    · refine ⟨n, by omega, by simpa using h, fun j hj => ?_⟩
      exact List.findSome?_eq_none_iff.mp hnone j (List.mem_range.mpr hj)

/-- The test of a bit. -/
theorem bit_eq_zero (s : CpuSet) (w : Nat) {b : Nat} (hb : b < 64) :
    (s.word w >>> UInt64.ofNat b) &&& 1 = 0 ↔ has s (w * 64 + b) = false := by
  rw [has_word s w hb, ← UInt64.toNat_inj, shiftRight_and_one _ hb]
  cases (s.word w).toNat.testBit b <;> simp

theorem firstOfWord_none {s : CpuSet} {w : Nat} (h : firstOfWord s w = none) {b : Nat}
    (hb : b < 64) : has s (w * 64 + b) = false := by
  rw [firstOfWord] at h
  split at h
  · have hbit := List.findSome?_eq_none_iff.mp h b (List.mem_range.mpr hb)
    simpa [bit_eq_zero s w hb] using hbit
  next hzero =>
    rw [has_word s w hb, not_not.mp hzero]
    simp

theorem firstOfWord_some {s : CpuSet} {w c : Nat} (h : firstOfWord s w = some c) :
    has s c ∧ c / 64 = w ∧ ∀ b, w * 64 + b < c → has s (w * 64 + b) = false := by
  rw [firstOfWord] at h
  split at h
  · obtain ⟨b, hb, hf, hbefore⟩ := findSome?_range h
    obtain ⟨hbit, hc⟩ := Option.ite_none_right_eq_some.mp hf
    obtain rfl := Option.some.inj hc
    rw [ne_eq, bit_eq_zero s w hb] at hbit
    refine ⟨by simpa using hbit, by omega, fun b' hlt => ?_⟩
    simpa [bit_eq_zero s w (show b' < 64 by omega)] using hbefore b' (by omega)
  · cases h

/-- The first CPU is the least one, or -1 for an empty set. -/
theorem first_spec (s : CpuSet) :
    (first s = -1 ∧ ∀ c, has s c = false) ∨
      ∃ c : Nat, first s = c ∧ has s c ∧ ∀ d < c, has s d = false := by
  have hcpu : ∀ d : Nat, d / 64 * 64 + d % 64 = d := fun d => by omega
  rw [first]
  cases hfound : (List.range cpusetWords).findSome? s.firstOfWord with
  | none =>
    refine Or.inl ⟨rfl, fun c => ?_⟩
    by_contra hc
    have hword := div_lt_words.mpr (lt_of_has (by simpa using hc))
    have hnone := List.findSome?_eq_none_iff.mp hfound (c / 64) (List.mem_range.mpr hword)
    have hbit := firstOfWord_none hnone (Nat.mod_lt c (by decide))
    rw [hcpu] at hbit
    exact hc hbit
  | some c =>
    obtain ⟨w, hw, hf, hbefore⟩ := findSome?_range hfound
    obtain ⟨hc, hword, hleast⟩ := firstOfWord_some hf
    refine Or.inr ⟨c, rfl, hc, fun d hd => ?_⟩
    rw [← hcpu d]
    rcases Nat.lt_or_ge (d / 64) w with hlt | hge
    · exact firstOfWord_none (hbefore _ hlt) (Nat.mod_lt d (by decide))
    · have heq : d / 64 = w := by omega
      rw [heq]
      refine hleast _ ?_
      omega

end Rewsr.Sys.CpuSet
