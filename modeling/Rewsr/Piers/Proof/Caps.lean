import Mathlib.Data.List.Nodup
import Rewsr.Lib.BitCount
import Rewsr.Piers.Caps

/-!
# The capability audit

`Meets` says what privileges a tier's requirements demand; `deficit_eq_nil_iff`: the audit finds no
gap exactly when they are met. The full set stands for root: `and_full_eq_full_iff` reads its mask
test as every known capability being held.
-/

namespace Rewsr.Piers

/-! ## Names and bits -/

theorem capNames_length : capNames.length = 41 := rfl

theorem capNames_nodup : capNames.Nodup := by decide +kernel

/-- A name's bit is its place in the table. -/
theorem capBit_getElem {i : Nat} (hi : i < capNames.length) : capBit capNames[i] = some i := by
  unfold capBit
  rw [List.idxOf?_eq_some_iff]
  refine ⟨hi, rfl, fun j hj heq => ?_⟩
  have := (List.Nodup.getElem_inj_iff capNames_nodup).mp heq
  omega

namespace CapSet

/-- A bit's mask meets a set where the set has the bit. -/
theorem hasIndex_natCast (c : CapSet) {i : Nat} (hi : i < 64) :
    hasIndex c i = c.toNat.testBit i := by
  unfold hasIndex
  rw [if_neg (by omega), Int.toNat_natCast]
  simp only [ne_eq, ← UInt64.toNat_inj, UInt64.toNat_and, BitCount.toNat_one_shiftLeft hi,
    Nat.and_two_pow]
  cases c.toNat.testBit i <;> simp

theorem has_getElem (c : CapSet) {i : Nat} (hi : i < capNames.length) :
    has c capNames[i] = c.toNat.testBit i := by
  unfold has
  rw [capBit_getElem hi]
  exact hasIndex_natCast c (by rw [capNames_length] at hi; omega)

theorem toNat_full : full.toNat = 2 ^ 41 - 1 := by decide

/-- The mask test for root: every known capability is held. -/
theorem and_full_eq_full_iff (c : CapSet) :
    c &&& full = full ↔ ∀ name ∈ capNames, has c name := by
  rw [← UInt64.toNat_inj, UInt64.toNat_and, toNat_full]
  constructor
  · intro h name hname
    obtain ⟨i, hi, rfl⟩ := List.mem_iff_getElem.mp hname
    have hbit := congrArg (·.testBit i) h
    have hi' : i < 41 := hi
    simp only [Nat.testBit_and, Nat.testBit_two_pow_sub_one, hi', decide_true, Bool.and_true]
      at hbit
    rw [has_getElem c hi, hbit]
  · intro h
    apply Nat.eq_of_testBit_eq
    intro i
    rw [Nat.testBit_and, Nat.testBit_two_pow_sub_one]
    by_cases hi : i < 41
    · have := h _ (List.getElem_mem (l := capNames) hi)
      rw [has_getElem c hi] at this
      simp [this]
    · simp [hi]

end CapSet

/-! ## Requirements -/

/-- The privileges that `req` demands are held. -/
structure Meets (c : CapSet) (r : Rlimits) (req : TierRequirements) : Prop where
  capabilities : ∀ name ∈ req.capabilities, CapSet.has c name
  anyOf : req.anyOfCapabilities ≠ [] → ∃ name ∈ req.anyOfCapabilities, CapSet.has c name
  memlock : 0 < req.minMemlockBytes → r.supported ∧ req.minMemlockBytes ≤ r.memlockCur
  root : req.requiresRoot → ∀ name ∈ capNames, CapSet.has c name

theorem capabilityGaps_eq_nil {c : CapSet} {names : List String} :
    capabilityGaps c names = [] ↔ ∀ name ∈ names, CapSet.has c name := by
  simp [capabilityGaps]

theorem anyOfGaps_eq_nil {c : CapSet} {names : List String} :
    anyOfGaps c names = [] ↔ (names ≠ [] → ∃ name ∈ names, CapSet.has c name) := by
  unfold anyOfGaps
  cases names with
  | nil => simp
  | cons n ns =>
    cases hany : (n :: ns).any (CapSet.has c) with
    | false => simpa using hany
    | true => simpa using List.any_eq_true.mp hany

theorem memlockGaps_eq_nil {r : Rlimits} {need : UInt64} :
    memlockGaps r need = [] ↔ (0 < need → r.supported ∧ need ≤ r.memlockCur) := by
  unfold memlockGaps
  by_cases hneed : need > 0
  · cases hs : r.supported <;> simp [hneed]
  · simp [hneed]

theorem rootGaps_eq_nil {c : CapSet} {root : Bool} :
    rootGaps c root = [] ↔ (root → ∀ name ∈ capNames, CapSet.has c name) := by
  rw [← CapSet.and_full_eq_full_iff]
  cases root <;> simp [rootGaps]

/-- **The audit finds no gap exactly when the requirements are met.** -/
theorem deficit_eq_nil_iff {c : CapSet} {r : Rlimits} {req : TierRequirements} :
    deficit c r req = [] ↔ Meets c r req := by
  unfold deficit
  rw [List.append_eq_nil_iff, List.append_eq_nil_iff, List.append_eq_nil_iff,
    capabilityGaps_eq_nil, anyOfGaps_eq_nil, memlockGaps_eq_nil, rootGaps_eq_nil]
  constructor
  · rintro ⟨⟨⟨hcaps, hany⟩, hmem⟩, hroot⟩
    exact ⟨hcaps, hany, hmem, hroot⟩
  · intro h
    exact ⟨⟨⟨h.capabilities, h.anyOf⟩, h.memlock⟩, h.root⟩

/-! ## The lines of the audit -/

theorem length_capabilityGaps (c : CapSet) (names : List String) :
    (capabilityGaps c names).length = names.countP fun name => !CapSet.has c name := by
  rw [capabilityGaps, List.length_map, List.countP_eq_length_filter]

theorem length_anyOfGaps (c : CapSet) (names : List String) : (anyOfGaps c names).length =
    if names ≠ [] ∧ ∀ name ∈ names, ¬ CapSet.has c name then 1 else 0 := by
  unfold anyOfGaps
  cases names with
  | nil => simp
  | cons n ns =>
    cases hany : (n :: ns).any (CapSet.has c) with
    | false =>
      have hnone : n :: ns ≠ [] ∧ ∀ name ∈ n :: ns, ¬ CapSet.has c name :=
        ⟨List.cons_ne_nil n ns, List.any_eq_false.mp hany⟩
      rw [if_pos hnone]
      rfl
    | true =>
      obtain ⟨name, hmem, hheld⟩ := List.any_eq_true.mp hany
      have hsome : ¬ (n :: ns ≠ [] ∧ ∀ name ∈ n :: ns, ¬ CapSet.has c name) :=
        fun h => h.2 name hmem hheld
      rw [if_neg hsome]
      rfl

theorem length_memlockGaps (r : Rlimits) (need : UInt64) : (memlockGaps r need).length =
    if 0 < need ∧ (r.supported = false ∨ r.memlockCur < need) then 1 else 0 := by
  unfold memlockGaps
  by_cases hneed : 0 < need
  · cases hs : r.supported with
    | false => simp [hneed]
    | true => by_cases hcur : r.memlockCur < need <;> simp [hneed, hcur]
  · simp [hneed]

theorem length_rootGaps (c : CapSet) (root : Bool) : (rootGaps c root).length =
    if root = true ∧ ∃ name ∈ capNames, ¬ CapSet.has c name then 1 else 0 := by
  have hfull : (∃ name ∈ capNames, ¬ CapSet.has c name) ↔ ¬ c &&& CapSet.full = CapSet.full := by
    rw [CapSet.and_full_eq_full_iff]
    push Not
    rfl
  unfold rootGaps
  cases root with
  | false => simp
  | true =>
    simp only [hfull, true_and]
    by_cases hroot : c &&& CapSet.full = CapSet.full <;> simp [hroot]

/-! ## More privileges -/

/-- What is held of one set is held of every set that contains it. -/
theorem CapSet.has_mono {c c' : CapSet} (h : c &&& c' = c) {name : String}
    (hheld : CapSet.has c name = true) : CapSet.has c' name = true := by
  unfold has at hheld ⊢
  cases hbit : capBit name with
  | none => simp [hbit] at hheld
  | some i =>
    simp only [hbit] at hheld ⊢
    have hi : i < 64 := by
      have hlt : i < capNames.length := (List.idxOf?_eq_some_iff.mp hbit).1
      rw [capNames_length] at hlt
      omega
    rw [hasIndex_natCast c hi, ← h, UInt64.toNat_and, Nat.testBit_and, Bool.and_eq_true] at hheld
    rw [hasIndex_natCast c' hi]
    exact hheld.2

/-- Limits under which at least as much memory can be locked. -/
def Rlimits.Covers (r' r : Rlimits) : Prop :=
  r.supported = true → r'.supported = true ∧ r.memlockCur ≤ r'.memlockCur

theorem ite_mono {p q : Prop} [Decidable p] [Decidable q] (h : p → q) :
    (if p then 1 else 0) ≤ if q then 1 else 0 := by
  by_cases hp : p
  · rw [if_pos hp, if_pos (h hp)]
  · rw [if_neg hp]
    exact Nat.zero_le _

/-- More capabilities or memory add no line. -/
theorem deficit_length_mono {c c' : CapSet} {r r' : Rlimits} (hc : c &&& c' = c)
    (hr : r'.Covers r) (req : TierRequirements) :
    (deficit c' r' req).length ≤ (deficit c r req).length := by
  have hheld : ∀ name, ¬ CapSet.has c' name → ¬ CapSet.has c name :=
    fun name hnot hhas => hnot (CapSet.has_mono hc hhas)
  have hcaps : (capabilityGaps c' req.capabilities).length ≤
      (capabilityGaps c req.capabilities).length := by
    rw [length_capabilityGaps, length_capabilityGaps]
    exact List.countP_mono_left fun name _ hnot => by simpa using hheld name (by simpa using hnot)
  have hany : (anyOfGaps c' req.anyOfCapabilities).length ≤
      (anyOfGaps c req.anyOfCapabilities).length := by
    rw [length_anyOfGaps, length_anyOfGaps]
    exact ite_mono fun h => ⟨h.1, fun name hmem => hheld name (h.2 name hmem)⟩
  have hmem : (memlockGaps r' req.minMemlockBytes).length ≤
      (memlockGaps r req.minMemlockBytes).length := by
    rw [length_memlockGaps, length_memlockGaps]
    refine ite_mono fun ⟨hneed, hlack⟩ => ⟨hneed, ?_⟩
    cases hs : r.supported with
    | false => exact .inl rfl
    | true =>
      obtain ⟨hs', hle⟩ := hr hs
      rcases hlack with hunsup | hlow
      · rw [hs'] at hunsup
        cases hunsup
      · exact .inr (UInt64.lt_of_le_of_lt hle hlow)
  have hroot : (rootGaps c' req.requiresRoot).length ≤ (rootGaps c req.requiresRoot).length := by
    rw [length_rootGaps, length_rootGaps]
    refine ite_mono fun ⟨hreq, name, hname, hnot⟩ => ⟨hreq, name, hname, hheld name hnot⟩
  unfold deficit
  simp only [List.length_append]
  omega

theorem CapSet.has_zero (name : String) : CapSet.has 0 name = false := by
  cases hheld : CapSet.has 0 name with
  | false => rfl
  | true =>
    unfold has at hheld
    cases hbit : capBit name with
    | none => simp [hbit] at hheld
    | some i =>
      have hi : i < capNames.length := (List.idxOf?_eq_some_iff.mp hbit).1
      rw [capNames_length] at hi
      simp [hbit, hasIndex_natCast 0 (show i < 64 by omega)] at hheld

/-- Without any privilege there is a gap unless nothing is demanded. -/
theorem trivial_iff {req : TierRequirements} :
    req.trivial = true ↔ ∀ c r, deficit c r req = [] := by
  constructor
  · intro h c r
    simp only [TierRequirements.trivial, Bool.and_eq_true, decide_eq_true_eq, Bool.not_eq_true',
      List.length_eq_zero_iff] at h
    obtain ⟨⟨⟨hcaps, hany⟩, hmem⟩, hroot⟩ := h
    simp [deficit, hcaps, hany, hmem, hroot, capabilityGaps, anyOfGaps, memlockGaps, rootGaps]
  · intro h
    have hmeets := deficit_eq_nil_iff.mp (h 0 ⟨false, 0, 0, 0, 0⟩)
    have hnone : ∀ name, ¬ CapSet.has 0 name := fun name => by simp [CapSet.has_zero]
    have hcaps : req.capabilities = [] :=
      List.eq_nil_iff_forall_not_mem.mpr fun name hname =>
        hnone name (hmeets.capabilities name hname)
    have hany : req.anyOfCapabilities = [] := by
      by_contra hne
      obtain ⟨name, -, hheld⟩ := hmeets.anyOf hne
      exact hnone name hheld
    have hmem : req.minMemlockBytes = 0 := by
      by_contra hne
      have hpos : 0 < req.minMemlockBytes := UInt64.pos_iff_ne_zero.mpr hne
      cases (hmeets.memlock hpos).1
    have hroot : req.requiresRoot = false := by
      cases hreq : req.requiresRoot with
      | false => rfl
      | true => exact absurd (hmeets.root hreq "CAP_CHOWN" (by decide)) (hnone _)
    simp [TierRequirements.trivial, hcaps, hany, hmem, hroot]

/-- **The audit is exact and monotone.** It has one line for each required capability that is not
held, one if there are alternatives and none is held, one if memory has to be locked and the limit
is unknown or too low, one if root is required and a known capability is missing, and no other; it
is empty exactly when the requirements are met, more privileges add no line, and the requirements
are trivial exactly when no host has a gap. -/
theorem deficit_exact (c : CapSet) (r : Rlimits) (req : TierRequirements) :
    ((deficit c r req).length =
      req.capabilities.countP (fun name => !CapSet.has c name) +
      (if req.anyOfCapabilities ≠ [] ∧ ∀ name ∈ req.anyOfCapabilities, ¬ CapSet.has c name
        then 1 else 0) +
      (if 0 < req.minMemlockBytes ∧ (r.supported = false ∨ r.memlockCur < req.minMemlockBytes)
        then 1 else 0) +
      (if req.requiresRoot = true ∧ ∃ name ∈ capNames, ¬ CapSet.has c name then 1 else 0)) ∧
    (deficit c r req).take (req.capabilities.countP fun name => !CapSet.has c name) =
      (req.capabilities.filter fun name => !CapSet.has c name).map
        (fun name => "missing required capability " ++ name) ∧
    (deficit c r req = [] ↔ Meets c r req) ∧
    (∀ c' r', c &&& c' = c → Rlimits.Covers r' r →
      (deficit c' r' req).length ≤ (deficit c r req).length) ∧
    (req.trivial = true ↔ ∀ c r, deficit c r req = []) := by
  refine ⟨?_, ?_, deficit_eq_nil_iff, fun c' r' hc hr => deficit_length_mono hc hr req,
    trivial_iff⟩
  · simp only [deficit, List.length_append, length_capabilityGaps, length_anyOfGaps,
      length_memlockGaps, length_rootGaps]
  · rw [← length_capabilityGaps, deficit, List.append_assoc, List.append_assoc, List.take_left]
    rfl

end Rewsr.Piers
