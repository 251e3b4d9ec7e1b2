import Rewsr.Go.Proof.Strings
import Rewsr.Piers.CapText
import Rewsr.Piers.Proof.Caps

/-!
# The forms of a capability set

The hexadecimal text of a set reads back (`parseCapMask_string`), a bit's name is its own
(`mem_names_known`), and `CapSetOf` adds up the bits of the names (`capSetOfFrom_known`):
`forms_inverse`.
-/

namespace Rewsr.Piers

open Rewsr.Go

/-! ## Masks as text -/

theorem parseCapMask_string (c : CapSet) : parseCapMask c.string = (c, none) := by
  have hclean := (graphic_sprintf016x c).clean (sprintf016x_ne_nil c)
  -- Neither `x` is a hexadecimal digit.
  have hfree : ∀ start ∈ [ascii "0x", ascii "0X"], ¬ start <+: sprintf016x c := by
    intro start hstart hpre
    have hhex : start ⊆ (List.range 16).map hexChar :=
      fun b hb => mem_sprintf016x (hpre.subset hb)
    clear hpre
    revert start
    decide
  rw [parseCapMask, CapSet.string, trimSpace_of_clean hclean,
    trimPrefix_of_not_prefix (hfree (ascii "0x") (by decide)),
    trimPrefix_of_not_prefix (hfree (ascii "0X") (by decide))]
  simp only [if_neg (sprintf016x_ne_nil c), parseUint_sprintf016x]

namespace CapSet

theorem unmarshalJSON_marshalJSON (c old : CapSet) :
    unmarshalJSON old (marshalJSON c) = (c, none) := by
  have hfree : (0x22 : UInt8) ∉ string c := by
    intro hmem
    have hhex := mem_sprintf016x hmem
    revert hhex
    decide
  rw [unmarshalJSON, marshalJSON, trim_quoted hfree, parseCapMask_string]

/-! ## Names -/

/-- The bits of a set, in ascending order. -/
def bits (c : CapSet) : List Nat := (List.range 64).filter c.toNat.testBit

theorem mem_bits {c : CapSet} {bit : Nat} : bit ∈ bits c ↔ bit < 64 ∧ c.toNat.testBit bit := by
  rw [bits, List.mem_filter, List.mem_range]

theorem bits_pairwise (c : CapSet) : (bits c).Pairwise (· < ·) :=
  List.pairwise_lt_range.filter _

theorem names_eq (c : CapSet) : names c = (bits c).map capName := by
  rw [names, bits]
  refine congrArg _ (List.filter_congr fun bit hbit => ?_)
  have hindex := hasIndex_natCast c (List.mem_range.mp hbit)
  rwa [hasIndex, if_neg (by have := List.mem_range.mp hbit; omega), Int.toNat_natCast] at hindex

theorem capName_nodup : ((List.range 64).map capName).Nodup := by decide +kernel

theorem length_names (c : CapSet) : (names c).length = count c := by
  rw [names_eq, List.length_map, bits, count, List.countP_eq_length_filter]

theorem names_nodup (c : CapSet) : (names c).Nodup := by
  rw [names_eq]
  exact capName_nodup.sublist (List.filter_sublist.map capName)

end CapSet

/-! ## Names and bits -/

theorem capBit_eq_some {n : String} {i : Nat} :
    capBit n = some i ↔ i < capNames.length ∧ CapSet.capName i = n := by
  constructor
  · intro h
    obtain ⟨hi, hget, -⟩ := List.idxOf?_eq_some_iff.mp h
    exact ⟨hi, by rw [CapSet.capName, dif_pos hi, hget]⟩
  · rintro ⟨hi, rfl⟩
    rw [CapSet.capName, dif_pos hi]
    exact capBit_getElem hi

theorem capBit_eq_none {n : String} : capBit n = none ↔ n ∉ capNames := List.idxOf?_eq_none_iff

theorem exists_capBit {n : String} (h : n ∈ capNames) : ∃ i, capBit n = some i :=
  Option.ne_none_iff_exists'.mp fun hnone => capBit_eq_none.mp hnone h

/-- The table fits a mask. -/
theorem capBit_lt {n : String} {i : Nat} (h : capBit n = some i) : i < 64 :=
  Nat.lt_trans (capBit_eq_some.mp h).1 (by decide)

theorem capName_mem {i : Nat} (h : i < capNames.length) : CapSet.capName i ∈ capNames := by
  rw [CapSet.capName, dif_pos h]
  exact List.getElem_mem h

/-- One bit more. -/
theorem testBit_or_shift (c : CapSet) {bit : Nat} (hbit : bit < 64) (i : Nat) :
    (c ||| (1 <<< UInt64.ofNat bit)).toNat.testBit i = (c.toNat.testBit i || decide (bit = i)) := by
  rw [UInt64.toNat_or, Nat.testBit_or, BitCount.toNat_one_shiftLeft hbit, Nat.testBit_two_pow]

/-- Known names add their bits. -/
theorem capSetOfFrom_known {ns : List String} (h : ∀ n ∈ ns, n ∈ capNames) (c : CapSet) :
    ∃ c', capSetOfFrom c ns = (c', none) ∧
      ∀ i, c'.toNat.testBit i ↔ c.toNat.testBit i ∨ ∃ n ∈ ns, capBit n = some i := by
  induction ns generalizing c with
  | nil => exact ⟨c, rfl, by simp⟩
  | cons n ns ih =>
    obtain ⟨bit, hbit⟩ := exists_capBit (h n List.mem_cons_self)
    obtain ⟨c', heq, hbits⟩ := ih (fun m hm => h m (List.mem_cons_of_mem n hm))
      (c ||| (1 <<< UInt64.ofNat bit))
    refine ⟨c', by rw [capSetOfFrom, hbit]; exact heq, fun i => ?_⟩
    rw [hbits, testBit_or_shift c (capBit_lt hbit), List.exists_mem_cons_iff, hbit]
    simp [or_assoc]

/-- The first unknown name is the error. -/
theorem capSetOfFrom_unknown {ns : List String} {n : String} (c : CapSet)
    (h : ns.find? (· ∉ capNames) = some n) : capSetOfFrom c ns = (0, some (.unknownName n)) := by
  induction ns generalizing c with
  | nil => cases h
  | cons m ns ih =>
    rw [capSetOfFrom]
    by_cases hm : m ∈ capNames
    · obtain ⟨bit, hbit⟩ := exists_capBit hm
      rw [hbit]
      exact ih _ (by rwa [List.find?_cons_of_neg (by simpa using hm)] at h)
    · rw [List.find?_cons_of_pos (by simpa using hm)] at h
      obtain rfl := Option.some.inj h
      rw [capBit_eq_none.mpr hm]

/-- The known names of a set. -/
theorem mem_names_known {c : CapSet} {n : String} (hn : n ∈ capNames) :
    n ∈ CapSet.names c ↔ ∃ i, capBit n = some i ∧ c.toNat.testBit i := by
  obtain ⟨i, hi⟩ := exists_capBit hn
  obtain ⟨-, hname⟩ := capBit_eq_some.mp hi
  have hi64 := capBit_lt hi
  rw [CapSet.names_eq, List.mem_map, hi]
  constructor
  · rintro ⟨j, hj, heq⟩
    obtain ⟨hj64, hset⟩ := CapSet.mem_bits.mp hj
    have hinj := List.inj_on_of_nodup_map CapSet.capName_nodup (List.mem_range.mpr hj64)
      (List.mem_range.mpr hi64) (heq.trans hname.symm)
    exact ⟨i, rfl, hinj ▸ hset⟩
  · rintro ⟨_, ⟨⟩, hset⟩
    exact ⟨i, CapSet.mem_bits.mpr ⟨hi64, hset⟩, hname⟩

/-- The bits of a set of known capabilities are in the table. -/
theorem lt_of_testBit {c : CapSet} (hc : c &&& CapSet.full = c) {i : Nat}
    (hi : c.toNat.testBit i) : i < capNames.length := by
  rw [← hc, UInt64.toNat_and, CapSet.toNat_full, Nat.testBit_and, Nat.testBit_two_pow_sub_one,
    Bool.and_eq_true, decide_eq_true_eq] at hi
  exact hi.2

/-- A set of known capabilities has no other names. -/
theorem known_of_mem_names {c : CapSet} (hc : c &&& CapSet.full = c) {n : String}
    (hn : n ∈ CapSet.names c) : n ∈ capNames := by
  rw [CapSet.names_eq] at hn
  obtain ⟨i, hi, rfl⟩ := List.mem_map.mp hn
  exact capName_mem (lt_of_testBit hc (CapSet.mem_bits.mp hi).2)

theorem has_iff_mem_names {c : CapSet} (hc : c &&& CapSet.full = c) (n : String) :
    CapSet.has c n ↔ n ∈ CapSet.names c := by
  by_cases hn : n ∈ capNames
  · rw [mem_names_known hn, CapSet.has]
    obtain ⟨i, hi⟩ := exists_capBit hn
    simp [hi, CapSet.hasIndex_natCast c (capBit_lt hi)]
  · have hnot : n ∉ CapSet.names c := fun hmem => hn (known_of_mem_names hc hmem)
    simp [CapSet.has, capBit_eq_none.mpr hn, hnot]

/-- A list of known names makes the set that has them. -/
theorem capSetOf_known {ns : List String} (h : ∀ n ∈ ns, n ∈ capNames) :
    ∃ c, capSetOf ns = (c, none) ∧ ∀ n, n ∈ CapSet.names c ↔ n ∈ ns := by
  obtain ⟨c, heq, hbits⟩ := capSetOfFrom_known h 0
  refine ⟨c, heq, fun n => ?_⟩
  constructor
  · intro hmem
    rw [CapSet.names_eq] at hmem
    obtain ⟨i, hi, rfl⟩ := List.mem_map.mp hmem
    rcases (hbits i).mp (CapSet.mem_bits.mp hi).2 with hzero | ⟨m, hm, hbit⟩
    · simp at hzero
    · rwa [(capBit_eq_some.mp hbit).2]
  · intro hmem
    obtain ⟨i, hi⟩ := exists_capBit (h n hmem)
    exact (mem_names_known (h n hmem)).mpr ⟨i, hi, (hbits i).mpr (Or.inr ⟨n, hmem, hi⟩)⟩

/-- A set of known capabilities is the set of its names. -/
theorem capSetOf_names {c : CapSet} (hc : c &&& CapSet.full = c) :
    capSetOf (CapSet.names c) = (c, none) := by
  obtain ⟨c', heq, hbits⟩ := capSetOfFrom_known (fun n => known_of_mem_names hc (n := n)) 0
  have hsame : c' = c := by
    rw [← UInt64.toNat_inj]
    apply Nat.eq_of_testBit_eq
    intro i
    rw [Bool.eq_iff_iff, hbits i]
    constructor
    · rintro (hzero | ⟨n, hmem, hbit⟩)
      · simp at hzero
      · obtain ⟨j, hj, hset⟩ := (mem_names_known (known_of_mem_names hc hmem)).mp hmem
        obtain rfl := Option.some.inj (hbit.symm.trans hj)
        exact hset
    · intro hset
      have hlt := lt_of_testBit hc hset
      have hbit : capBit (CapSet.capName i) = some i := capBit_eq_some.mpr ⟨hlt, rfl⟩
      have hmem := (mem_names_known (capName_mem hlt)).mpr ⟨i, hbit, hset⟩
      exact Or.inr ⟨CapSet.capName i, hmem, hbit⟩
  rw [capSetOf, heq, hsame]

/-- **The forms of a capability set are inverse to each other.** The text and the text in JSON read
back as the set. The names are one for each bit, in the bits' order and distinct. A set of known
capabilities is the set of its names and has just these; a list of known names makes the set with
these names; and an unknown name is an error. -/
theorem forms_inverse :
    (∀ c : CapSet, parseCapMask c.string = (c, none)) ∧
      (∀ c old : CapSet, CapSet.unmarshalJSON old c.marshalJSON = (c, none)) ∧
      (∀ c : CapSet, c.names.length = c.count ∧ c.names.Nodup ∧
        ∃ bits : List Nat, c.names = bits.map CapSet.capName ∧ bits.Pairwise (· < ·) ∧
          ∀ bit, bit ∈ bits ↔ c.hasIndex bit) ∧
      (∀ c : CapSet, c &&& CapSet.full = c → capSetOf c.names = (c, none) ∧
        ∀ n, CapSet.has c n ↔ n ∈ c.names) ∧
      (∀ ns : List String, (∀ n ∈ ns, n ∈ capNames) →
        ∃ c, capSetOf ns = (c, none) ∧ ∀ n, n ∈ CapSet.names c ↔ n ∈ ns) ∧
      ∀ ns : List String, (∃ n ∈ ns, n ∉ capNames) →
        ∃ n ∈ ns, n ∉ capNames ∧ capSetOf ns = (0, some (.unknownName n)) := by
  refine ⟨parseCapMask_string, CapSet.unmarshalJSON_marshalJSON, fun c => ?_, fun c hc => ?_,
    fun ns => capSetOf_known, fun ns hns => ?_⟩
  · refine ⟨c.length_names, c.names_nodup, c.bits, c.names_eq, c.bits_pairwise, fun bit => ?_⟩
    rw [CapSet.mem_bits]
    by_cases hbit : bit < 64
    · rw [CapSet.hasIndex_natCast c hbit]
      simp [hbit]
    · rw [CapSet.hasIndex, if_pos (by omega)]
      simp [hbit]
  · exact ⟨capSetOf_names hc, has_iff_mem_names hc⟩
  · have hsome : (ns.find? (· ∉ capNames)).isSome := by simpa using hns
    obtain ⟨n, hn⟩ := Option.isSome_iff_exists.mp hsome
    exact ⟨n, List.mem_of_find?_eq_some hn, by simpa using List.find?_some hn,
      capSetOfFrom_unknown 0 hn⟩

end Rewsr.Piers
