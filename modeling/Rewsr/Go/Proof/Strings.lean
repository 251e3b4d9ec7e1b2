import Mathlib.Data.List.Induction
import Mathlib.Data.List.Infix
import Rewsr.Go.Strings
import Rewsr.Lib.Decimal

/-!
# Lemmas about the Go strings

What white space does to a string (`trimSpace_of_clean`, `trimSpace_trimSpace`), the fields of a
line (`fields_append`, `fields_word`), and numbers as digits write them (`atoi_eq`,
`parseUint_sprintf016x`).
-/

namespace Rewsr.Go

open Decimal

/-! ## Strings without white space -/

/-- A printable ASCII byte other than the space. -/
def Graphic (s : List UInt8) : Prop := ∀ b ∈ s, 0x21 ≤ b ∧ b < 0x80

instance (s : List UInt8) : Decidable (Graphic s) :=
  List.decidableBAll (fun b => 0x21 ≤ b ∧ b < 0x80) s

theorem ne_nil_of_mem_spaceRunes : ∀ r ∈ spaceRunes, r ≠ [] := by decide

/-- Each space has a byte that is not graphic at its start and at its end. -/
theorem not_graphic_of_mem_spaceRunes : ∀ r ∈ spaceRunes,
    (∀ b ∈ r.head?, ¬ (0x21 ≤ b ∧ b < 0x80)) ∧ ∀ b ∈ r.getLast?, ¬ (0x21 ≤ b ∧ b < 0x80) := by
  simp [spaceRunes]

theorem graphic_of_isDigit {b : UInt8} (h : isDigit b = true) : 0x21 ≤ b ∧ b < 0x80 := by
  simp only [isDigit, decide_eq_true_eq] at h
  exact ⟨UInt8.le_trans (by decide) h.1, UInt8.lt_of_le_of_lt h.2 (by decide)⟩

/-- No space starts a string that starts with a graphic byte. -/
theorem not_prefix_of_graphic {b : UInt8} (h : 0x21 ≤ b ∧ b < 0x80) (s : List UInt8) :
    ∀ r ∈ spaceRunes, ¬ r <+: b :: s := by
  rintro r hr hpre
  cases r with
  | nil => exact ne_nil_of_mem_spaceRunes _ hr rfl
  | cons c r =>
    obtain ⟨rfl, -⟩ := List.cons_prefix_cons.mp hpre
    exact (not_graphic_of_mem_spaceRunes _ hr).1 c rfl h

/-! ## Trimming -/

section
variable {runes : List (List UInt8)} {s : List UInt8}

theorem trimRunes_of_clean (h : ∀ r ∈ runes, ¬ r <+: s) (n : Nat) : trimRunes runes n s = s := by
  cases n with
  | zero => rfl
  | succ n =>
    have hnone : runes.find? (·.isPrefixOf s) = none := by
      simpa [List.isPrefixOf_iff_prefix] using h
    rw [trimRunes, hnone]

/-- Where there is enough fuel, no rune is left at the start. -/
theorem trimRunes_clean (hne : ∀ r ∈ runes, r ≠ []) {n : Nat} (hn : s.length ≤ n) :
    ∀ r ∈ runes, ¬ r <+: trimRunes runes n s := by
  induction n generalizing s with
  | zero =>
    obtain rfl := List.length_eq_zero_iff.mp (Nat.le_zero.mp hn)
    intro r hr hpre
    exact hne r hr (List.prefix_nil.mp hpre)
  | succ n ih =>
    rw [trimRunes]
    cases hfind : runes.find? (·.isPrefixOf s) with
    | none => simpa [List.isPrefixOf_iff_prefix] using hfind
    | some r =>
      have hpos := List.length_pos_iff.mpr (hne r (List.mem_of_find?_eq_some hfind))
      refine ih ?_
      rw [List.length_drop]
      omega

theorem trimRunes_suffix (n : Nat) : trimRunes runes n s <:+ s := by
  induction n generalizing s with
  | zero => exact List.suffix_rfl
  | succ n ih =>
    rw [trimRunes]
    split
    · exact ih.trans (List.drop_suffix _ _)
    · exact List.suffix_rfl

end

/-- No space starts or ends the string. -/
structure Clean (s : List UInt8) : Prop where
  front : ∀ r ∈ spaceRunes, ¬ r <+: s
  back : ∀ r ∈ spaceRunes, ¬ r <:+ s

theorem trimSpace_of_clean {s : List UInt8} (h : Clean s) : trimSpace s = s := by
  have hfront : trimLeft s = s := trimRunes_of_clean h.front _
  rw [trimSpace, hfront, trimRight, trimRunes_of_clean, List.reverse_reverse]
  intro r hr hpre
  obtain ⟨r', hr', rfl⟩ := List.mem_map.mp hr
  exact h.back r' hr' (List.reverse_prefix.mp hpre)

/-- What is left after trimming has no space at either end. -/
theorem clean_trimSpace (s : List UInt8) : Clean (trimSpace s) := by
  have hne : ∀ r ∈ spaceRunes.map List.reverse, r ≠ [] := by decide
  have hright : trimSpace s <+: trimLeft s := by
    rw [trimSpace, trimRight, ← List.reverse_suffix, List.reverse_reverse]
    exact trimRunes_suffix _
  constructor
  · intro r hr hpre
    exact trimRunes_clean ne_nil_of_mem_spaceRunes (Nat.le_refl _) r hr (hpre.trans hright)
  · intro r hr hsuf
    have hlen : (trimLeft s).reverse.length ≤ (trimLeft s).length :=
      Nat.le_of_eq List.length_reverse
    refine trimRunes_clean hne hlen r.reverse (List.mem_map_of_mem hr) ?_
    rwa [← List.reverse_suffix, List.reverse_reverse]

theorem trimSpace_trimSpace (s : List UInt8) : trimSpace (trimSpace s) = trimSpace s :=
  trimSpace_of_clean (clean_trimSpace s)

theorem Graphic.clean {s : List UInt8} (h : Graphic s) (hne : s ≠ []) : Clean s := by
  constructor
  · cases s with
    | nil => exact absurd rfl hne
    | cons b s => exact not_prefix_of_graphic (h b List.mem_cons_self) s
  · rintro r hr ⟨t, rfl⟩
    have hrne := ne_nil_of_mem_spaceRunes r hr
    exact (not_graphic_of_mem_spaceRunes r hr).2 _ (List.getLast?_eq_some_getLast hrne)
      (h _ (List.mem_append_right t (List.getLast_mem hrne)))

theorem trimPrefix_of_not_prefix {s start : List UInt8} (h : ¬ start <+: s) :
    trimPrefix s start = s := by
  rw [trimPrefix, if_neg (by rwa [List.isPrefixOf_iff_prefix])]

/-- `Trim` takes quotes off. -/
theorem trim_quoted {s : List UInt8} {b : UInt8} (h : b ∉ s) : trim ([b] ++ s ++ [b]) b = s := by
  have hself : ∀ {t : List UInt8}, b ∉ t → t.dropWhile (· = b) = t := by
    intro t ht
    cases t with
    | nil => rfl
    | cons c t =>
      have hc : c ≠ b := fun heq => ht (heq ▸ List.mem_cons_self)
      exact List.dropWhile_cons_of_neg (by simp [hc])
  have hopen : ([b] ++ s ++ [b]).dropWhile (· = b) = (s ++ [b]).dropWhile (· = b) := by simp
  rw [trim, hopen]
  cases s with
  | nil => simp
  | cons c s =>
    have hc : c ≠ b := fun heq => h (heq ▸ List.mem_cons_self)
    have hclose : (c :: s ++ [b]).dropWhile (· = b) = c :: s ++ [b] :=
      List.dropWhile_cons_of_neg (by simp [hc])
    rw [hclose, List.reverse_append, List.reverse_singleton, List.singleton_append,
      List.dropWhile_cons_of_pos (by simp), hself (by rwa [List.mem_reverse]), List.reverse_reverse]

/-! ## Fields -/

theorem spaceLen_of_graphic {b : UInt8} (h : 0x21 ≤ b ∧ b < 0x80) (s : List UInt8) :
    spaceLen (b :: s) = 0 := by
  have hnone : spaceRunes.find? (·.isPrefixOf (b :: s)) = none := by
    simpa [List.isPrefixOf_iff_prefix] using not_prefix_of_graphic h s
  rw [spaceLen, hnone]

/-- Graphic bytes go to the field so far. -/
theorem fieldsFrom_graphic {w : List UInt8} (h : Graphic w) (word s : List UInt8) :
    fieldsFrom word 0 (w ++ s) = fieldsFrom (word ++ w) 0 s := by
  induction w generalizing word with
  | nil => rw [List.append_nil, List.nil_append]
  | cons b w ih =>
    have htail : Graphic w := fun c hc => h c (List.mem_cons_of_mem b hc)
    rw [List.cons_append, fieldsFrom, spaceLen_of_graphic (h b List.mem_cons_self)]
    simp only
    rw [ih htail, List.append_assoc, List.singleton_append]

theorem spaceLen_of_blank {b : UInt8} (h : isBlank b = true) (s : List UInt8) :
    spaceLen (b :: s) = 1 := by
  simp only [isBlank, decide_eq_true_eq] at h
  rcases h with rfl | rfl <;> rfl

/-- Blanks in front of a field count for nothing. -/
theorem fieldsFrom_blanks {bs : List UInt8} (h : ∀ b ∈ bs, isBlank b = true) (s : List UInt8) :
    fieldsFrom [] 0 (bs ++ s) = fieldsFrom [] 0 s := by
  induction bs with
  | nil => rfl
  | cons b bs ih =>
    rw [List.cons_append, fieldsFrom, spaceLen_of_blank (h b List.mem_cons_self)]
    simp only [if_true]
    exact ih fun c hc => h c (List.mem_cons_of_mem b hc)

/-- A field ends at a blank. -/
theorem fieldsFrom_blank {b : UInt8} (h : isBlank b = true) {word : List UInt8} (hne : word ≠ [])
    (s : List UInt8) : fieldsFrom word 0 (b :: s) = word :: fields s := by
  rw [fieldsFrom, spaceLen_of_blank h]
  simp only [if_neg hne]
  rfl

/-- A word alone is the only field. -/
theorem fields_word {w : List UInt8} (h : Graphic w) (hne : w ≠ []) : fields w = [w] := by
  have hw := fieldsFrom_graphic h [] []
  rw [List.append_nil, List.nil_append] at hw
  rw [fields, hw, fieldsFrom, if_neg hne]

/-- A word and a blank in front of more fields. -/
theorem fields_append {w : List UInt8} (h : Graphic w) (hne : w ≠ []) {b : UInt8}
    (hb : isBlank b = true) (s : List UInt8) : fields (w ++ b :: s) = w :: fields s := by
  rw [fields, fieldsFrom_graphic h, List.nil_append, fieldsFrom_blank hb hne]

/-! ## Numbers -/

theorem digit_of_isDigit {b : UInt8} (h : isDigit b = true) : digit b = some (b.toNat - 0x30) := by
  simp only [isDigit, decide_eq_true_eq] at h
  rw [digit, if_pos h]

theorem digit_of_not_isDigit {b : UInt8} (h : isDigit b = false) : digit b = none := by
  simp only [isDigit, decide_eq_false_iff_not] at h
  rw [digit, if_neg h]

theorem digits_snoc (s : List UInt8) (b : UInt8) :
    digits (s ++ [b]) = (digits s).bind fun n => (digit b).map (n * 10 + ·) := by
  simp [digits, List.foldlM_append]

/-- The digits of a number are read as its value, and nothing else is. -/
theorem digits_eq (s : List UInt8) :
    digits s = if IsNumber s then some (value s) else none := by
  induction s using List.reverseRecOn with
  | nil => rfl
  | append_singleton s b ih =>
    rw [digits_snoc, ih]
    by_cases hs : IsNumber s
    · rw [if_pos hs, Option.bind_some]
      cases hb : isDigit b with
      | true =>
        have hall : IsNumber (s ++ [b]) := hs.append (by simpa [IsNumber] using hb)
        rw [if_pos hall, digit_of_isDigit hb, value_snoc]
        rfl
      | false =>
        have hnot : ¬ IsNumber (s ++ [b]) := by
          intro hall
          rw [hall b (by simp)] at hb
          cases hb
        rw [if_neg hnot, digit_of_not_isDigit hb]
        rfl
    · have hnot : ¬ IsNumber (s ++ [b]) := fun hall => hs fun c hc => hall c (by simp [hc])
      rw [if_neg hs, if_neg hnot]
      rfl

/-- A string without a sign is a number if it consists of digits and fits. -/
theorem atoi_of_no_sign {b : UInt8} (s : List UInt8) (hminus : b ≠ 0x2D) (hplus : b ≠ 0x2B) :
    atoi (b :: s) =
      if IsNumber (b :: s) ∧ value (b :: s) < 2 ^ 63 then some (value (b :: s) : Int)
      else none := by
  unfold atoi
  simp only [if_neg hminus, if_neg hplus, List.cons_ne_nil, if_false, digits_eq]
  by_cases hnum : IsNumber (b :: s)
  · simp [hnum]
  · simp [hnum]

theorem isDigit_ne_sign {b : UInt8} (h : isDigit b = true) : b ≠ 0x2D ∧ b ≠ 0x2B := by
  constructor <;> rintro rfl <;> exact absurd h (by decide)

/-- A number in digits. -/
theorem atoi_eq {s : List UInt8} (h : IsNumber s) (hne : s ≠ []) :
    atoi s = if value s < 2 ^ 63 then some (value s : Int) else none := by
  cases s with
  | nil => exact absurd rfl hne
  | cons b s =>
    obtain ⟨hminus, hplus⟩ := isDigit_ne_sign (h b List.mem_cons_self)
    rw [atoi_of_no_sign s hminus hplus]
    simp [h]

/-! ## Hexadecimal text -/

theorem baseDigit_hexChar : ∀ d < 16, baseDigit (hexChar d) = some d := by decide

theorem length_sprintf016x (v : UInt64) : (sprintf016x v).length = 16 := by
  rw [sprintf016x, List.length_map, List.length_range]

theorem sprintf016x_ne_nil (v : UInt64) : sprintf016x v ≠ [] := by
  rw [← List.length_pos_iff, length_sprintf016x]
  decide

/-- Only hexadecimal digits in lower case. -/
theorem mem_sprintf016x {v : UInt64} {b : UInt8} (h : b ∈ sprintf016x v) :
    b ∈ (List.range 16).map hexChar := by
  obtain ⟨i, -, rfl⟩ := List.mem_map.mp h
  exact List.mem_map_of_mem (List.mem_range.mpr (Nat.mod_lt _ (by decide)))

theorem graphic_sprintf016x (v : UInt64) : Graphic (sprintf016x v) := by
  have hhex : Graphic ((List.range 16).map hexChar) := by decide
  exact fun b hmem => hhex b (mem_sprintf016x hmem)

/-- The text reads back as its value. -/
theorem parseUint_sprintf016x (v : UInt64) : parseUint 16 (sprintf016x v) = some v := by
  -- After `k` digits the number read is the value's highest `k` digits.
  have hread : ∀ k ≤ 16, ((List.range k).map fun i =>
      hexChar (v.toNat / 16 ^ (15 - i) % 16)).foldlM (fun n b => do
        let d ← baseDigit b
        if d < 16 then some (n * 16 + d) else none) 0 = some (v.toNat / 16 ^ (16 - k)) := by
    intro k hk
    induction k with
    | zero =>
      have hzero : v.toNat / 16 ^ 16 = 0 := Nat.div_eq_of_lt v.toNat_lt
      rw [hzero]
      rfl
    | succ k ih =>
      have hdigit : v.toNat / 16 ^ (15 - k) % 16 < 16 := Nat.mod_lt _ (by decide)
      have hpow : v.toNat / 16 ^ (16 - k) = v.toNat / 16 ^ (15 - k) / 16 := by
        rw [Nat.div_div_eq_div_mul, ← Nat.pow_succ, show (15 - k).succ = 16 - k by omega]
      rw [List.range_succ, List.map_append, List.foldlM_append, ih (by omega)]
      simp only [List.map_cons, List.map_nil, List.foldlM_cons, List.foldlM_nil,
        Option.bind_eq_bind, Option.bind_some, baseDigit_hexChar _ hdigit, if_pos hdigit, hpow,
        show 16 - (k + 1) = 15 - k by omega]
      rw [Nat.div_add_mod']
      rfl
  rw [parseUint, if_neg (sprintf016x_ne_nil v), sprintf016x, hread 16 (Nat.le_refl 16)]
  simp [v.toNat_lt]

end Rewsr.Go
