import Mathlib.Data.List.TakeWhile

/-!
# Decimal digits

The number that a string of ASCII digits writes, and the digits that start a string.
-/

namespace Decimal

/-- An ASCII digit. -/
def isDigit (b : UInt8) : Bool := 0x30 ≤ b ∧ b ≤ 0x39

/-- The number that digits write, the highest first. -/
def value (ds : List UInt8) : Nat := ds.foldl (fun n b => n * 10 + (b.toNat - 0x30)) 0

/-- Digits only. -/
def IsNumber (ds : List UInt8) : Prop := ∀ b ∈ ds, isDigit b = true

instance (ds : List UInt8) : Decidable (IsNumber ds) :=
  List.decidableBAll (fun b => isDigit b = true) ds

theorem value_snoc (ds : List UInt8) (b : UInt8) :
    value (ds ++ [b]) = value ds * 10 + (b.toNat - 0x30) := by
  rw [value, List.foldl_append]
  rfl

theorem IsNumber.append {as bs : List UInt8} (ha : IsNumber as) (hb : IsNumber bs) :
    IsNumber (as ++ bs) := by
  intro b hmem
  rcases List.mem_append.mp hmem with hmem | hmem
  · exact ha b hmem
  · exact hb b hmem

/-- The digits that start a string. -/
theorem takeWhile_append {ds rest : List UInt8} (h : IsNumber ds)
    (hrest : rest.head?.all fun b => !isDigit b) :
    (ds ++ rest).takeWhile isDigit = ds := by
  rw [List.takeWhile_append_of_pos h]
  cases rest with
  | nil => simp
  | cons b rest => simp_all

theorem dropWhile_append {ds rest : List UInt8} (h : IsNumber ds)
    (hrest : rest.head?.all fun b => !isDigit b) :
    (ds ++ rest).dropWhile isDigit = rest := by
  rw [List.dropWhile_append_of_pos h]
  cases rest with
  | nil => rfl
  | cons b rest => simp_all

theorem isNumber_takeWhile (s : List UInt8) : IsNumber (s.takeWhile isDigit) :=
  fun _ hmem => List.mem_takeWhile_imp hmem

end Decimal
