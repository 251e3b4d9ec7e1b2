import Mathlib.Data.Nat.Bitwise
import Mathlib.Data.List.Basic

/-!
# Bits of words

Clearing the lowest bit that is set makes one less of them (`countP_clear_lowest`), and the bits of
an array of words are those of its words (`countP_words`).
-/

namespace BitCount

/-- The mask of a bit. -/
theorem toNat_one_shiftLeft {i : Nat} (hi : i < 64) :
    (1 <<< UInt64.ofNat i : UInt64).toNat = 2 ^ i := by
  rw [UInt64.toNat_shiftLeft, UInt64.toNat_one, UInt64.toNat_ofNat',
    Nat.mod_eq_of_lt (show i < 2 ^ 64 by omega), Nat.mod_eq_of_lt hi, Nat.one_shiftLeft]
  exact Nat.mod_eq_of_lt (Nat.pow_lt_pow_right (by decide) hi)

theorem testBit_not (x : UInt64) {i : Nat} (hi : i < 64) :
    (~~~ x).toNat.testBit i = !x.toNat.testBit i := by
  have hnot : (~~~ x).toNat = 2 ^ 64 - (x.toNat + 1) := by
    rw [UInt64.toNat_not, Nat.sub_add_eq, Nat.sub_right_comm]
    rfl
  rw [hnot, Nat.testBit_two_pow_sub_succ x.toNat_lt, decide_eq_true hi, Bool.true_and]

/-- The bits of a number from its lowest one up. -/
theorem countP_testBit_succ (n w : Nat) :
    (List.range (w + 1)).countP n.testBit = n % 2 + (List.range w).countP (n / 2).testBit := by
  rw [List.range_succ_eq_map, List.countP_cons, List.countP_map, Nat.add_comm]
  have hshift : n.testBit ∘ Nat.succ = (n / 2).testBit := by
    funext i
    rw [Function.comp, Nat.succ_eq_add_one, Nat.testBit_add_one]
  rw [hshift, Nat.testBit_zero]
  rcases Nat.mod_two_eq_zero_or_one n with h | h <;> simp [h]

/-- `n &&& (n - 1)` is `n` without its lowest bit that is set. -/
theorem countP_clear_lowest {n w : Nat} (hpos : 0 < n) (hlt : n < 2 ^ w) :
    (List.range w).countP (n &&& (n - 1)).testBit + 1 = (List.range w).countP n.testBit := by
  induction w generalizing n with
  | zero => omega
  | succ w ih =>
    have hlow : (n &&& (n - 1)) % 2 = 0 := by
      rw [← Nat.mod_two_ne_one, ne_eq, Nat.and_mod_two_eq_one]
      omega
    rw [countP_testBit_succ, countP_testBit_succ, Nat.and_div_two, hlow]
    rcases Nat.mod_two_eq_zero_or_one n with heven | hodd
    · have hhalf : (n - 1) / 2 = n / 2 - 1 := by omega
      rw [hhalf, heven, Nat.zero_add, Nat.zero_add]
      exact ih (by omega) (by omega)
    · have hhalf : (n - 1) / 2 = n / 2 := by omega
      rw [hhalf, hodd, Nat.and_self]
      omega

/-- The words of an array, one after the other. -/
theorem countP_words (p : Nat → Bool) (size words : Nat) :
    (List.range (size * words)).countP p =
      (List.range words).foldl
        (fun n w => n + (List.range size).countP fun b => p (w * size + b)) 0 := by
  induction words with
  | zero => simp
  | succ words ih =>
    rw [List.range_succ, List.foldl_append, ← ih, Nat.mul_succ, List.range_add, List.countP_append,
      List.countP_map, Nat.mul_comm]
    rfl

end BitCount
