import Mathlib.Data.Nat.ModEq

/-!
# One's complement sums

Arithmetic with an end-around carry in base `b`: digits are `0, …, b - 1`, and a sum's carry out
of the top is added back in at the bottom, so that a sum is determined modulo `b - 1` and zero
has two digits, `0` and `b - 1`.

* `canon b s`: the digit that an end-around sum of total `s` ends on. It is `0` only for the
  total `0` (`canon_eq_zero`), else the digit in `1, …, b - 1` congruent to `s`
  (`canon_eq_iff`, `canon_eq_top`).
* `endAround_canon`, `endAroundSum_eq`: adding with the carry put back at every step ends on the
  same digit as adding all up and reducing once (`canon_carry`: one round of reducing).
* `words`: a byte string as big-endian 16-bit digits, an odd last byte padded with zero. Its
  total (`wordSum`) splits at even offsets only (`wordSum_append`), and survives an exchange of
  the bytes of every word in the cases of `swapSum_modEq_iff`.
* `wordSum_set`, `swapSum_set`: what a change of one byte does to the total. It never leaves the
  total where it was modulo `65535` (`not_dvd_of_set`).
-/

namespace OnesComplement

/-- The digit an end-around sum of total `s` ends on. -/
def canon (b s : Nat) : Nat := if s = 0 then 0 else (s - 1) % (b - 1) + 1

/-- Addition of two digits, the carry added back in. -/
def endAround (b x y : Nat) : Nat := (x + y) % b + (x + y) / b

/-- The end-around sum of a list of digits. -/
def endAroundSum (b : Nat) (ws : List Nat) : Nat := ws.foldl (endAround b) 0

section
variable {b : Nat}

theorem canon_pos {s : Nat} (hs : 0 < s) : canon b s = (s - 1) % (b - 1) + 1 := by
  simp [canon, Nat.ne_of_gt hs]

theorem canon_eq_zero {s : Nat} : canon b s = 0 ↔ s = 0 := by
  unfold canon
  split <;> simp_all

theorem canon_lt (hb : 1 < b) (s : Nat) : canon b s < b := by
  unfold canon
  split
  · omega
  · have := Nat.mod_lt (s - 1) (show 0 < b - 1 by omega)
    omega

theorem canon_modEq (s : Nat) : canon b s ≡ s [MOD b - 1] := by
  unfold canon
  split
  · simp_all [Nat.ModEq]
  · have h := (Nat.mod_modEq (s - 1) (b - 1)).add_right 1
    rwa [Nat.sub_add_cancel (by omega)] at h

theorem canon_of_lt {s : Nat} (h : s < b) : canon b s = s := by
  unfold canon
  split
  · omega
  · rw [Nat.mod_eq_of_lt (by omega)]; omega

/-- Totals that are not zero end on the same digit exactly when they are congruent. -/
theorem canon_eq_iff {s t : Nat} (hs : 0 < s) (ht : 0 < t) :
    canon b s = canon b t ↔ s ≡ t [MOD b - 1] := by
  refine ⟨fun h => (canon_modEq s).symm.trans (h ▸ canon_modEq t), fun h => ?_⟩
  have h' : s - 1 ≡ t - 1 [MOD b - 1] := by
    refine Nat.ModEq.add_right_cancel' 1 ?_
    rwa [Nat.sub_add_cancel hs, Nat.sub_add_cancel ht]
  rw [canon_pos hs, canon_pos ht, h']

theorem canon_congr {s t : Nat} (h0 : s = 0 ↔ t = 0) (h : s ≡ t [MOD b - 1]) :
    canon b s = canon b t := by
  rcases Nat.eq_zero_or_pos s with hs | hs
  · rw [hs, h0.1 hs]
  · have ht : 0 < t := Nat.pos_of_ne_zero fun e => by rw [h0.2 e] at hs; omega
    exact (canon_eq_iff hs ht).2 h

/-- The other digit for zero: a positive multiple of `b - 1`. -/
theorem canon_eq_top {s : Nat} (hb : 1 < b) (hs : 0 < s) : canon b s = b - 1 ↔ s % (b - 1) = 0 := by
  have hm : canon b (b - 1) = b - 1 := canon_of_lt (by omega)
  rw [← hm, canon_eq_iff hs (by omega), hm, Nat.ModEq, Nat.mod_self]

/-- One round of putting the carries back keeps the digit the sum ends on. -/
theorem canon_carry (hb : 1 < b) (s : Nat) : canon b (s % b + s / b) = canon b s := by
  have hs := Nat.div_add_mod s b
  refine canon_congr ⟨fun h => ?_, fun h => by simp [h]⟩ ?_
  · obtain ⟨h1, h2⟩ := Nat.add_eq_zero_iff.1 h
    rw [← hs, h1, h2, Nat.mul_zero]
  · have h1 : s / b ≡ b * (s / b) [MOD b - 1] := by
      have hb1 : b ≡ 1 [MOD b - 1] := by
        have := (Nat.modEq_zero_iff_dvd.2 (dvd_refl (b - 1))).add_right 1
        rwa [Nat.sub_add_cancel (by omega)] at this
      simpa using (hb1.mul_right (s / b)).symm
    have h2 := h1.add_right (s % b)
    rw [hs] at h2
    rwa [Nat.add_comm (s % b)]

theorem endAround_canon (hb : 1 < b) (s : Nat) {y : Nat} (hy : y < b) :
    endAround b (canon b s) y = canon b (s + y) := by
  have hc := canon_lt hb s
  have hlt : endAround b (canon b s) y < b := by
    unfold endAround
    rcases Nat.lt_or_ge (canon b s + y) b with h | h
    · rw [Nat.mod_eq_of_lt h, Nat.div_eq_of_lt h]; omega
    · rw [Nat.mod_eq_sub_mod h, Nat.mod_eq_of_lt (by omega),
        Nat.div_eq_of_lt_le (show 1 * b ≤ _ by omega) (by omega)]
      omega
  rw [← canon_of_lt hlt, endAround, canon_carry hb]
  refine canon_congr ?_ ((canon_modEq s).add_right y)
  have := canon_eq_zero (b := b) (s := s)
  omega

/-- A total and the complement of its digit sum to the top digit. -/
theorem canon_add_complement (hb : 1 < b) (s : Nat) :
    canon b (s + (b - 1 - canon b s)) = b - 1 := by
  have hc := canon_lt hb s
  have hpos : 0 < s + (b - 1 - canon b s) := by
    rcases Nat.eq_zero_or_pos s with rfl | hs
    · rw [canon_eq_zero.2 rfl]; omega
    · omega
  have h := (canon_modEq (b := b) s).symm.add_right (b - 1 - canon b s)
  rw [Nat.add_sub_cancel' (by omega)] at h
  rw [canon_eq_top hb hpos, h, Nat.mod_self]

theorem endAroundSum_eq (hb : 1 < b) {ws : List Nat} (h : ∀ w ∈ ws, w < b) :
    endAroundSum b ws = canon b ws.sum := by
  suffices ∀ (ws : List Nat) (s : Nat), (∀ w ∈ ws, w < b) →
      ws.foldl (endAround b) (canon b s) = canon b (s + ws.sum) by
    simpa [endAroundSum, canon] using this ws 0 h
  intro ws
  induction ws with
  | nil => simp
  | cons w ws ih =>
    intro s h
    rw [List.foldl_cons, endAround_canon hb s (h w List.mem_cons_self),
      ih _ fun v hv => h v (List.mem_cons_of_mem _ hv), List.sum_cons, Nat.add_assoc]

end

/-! ## Byte strings -/

/-- A byte string as big-endian 16-bit words; an odd last byte is the high byte of a word whose
low byte is zero. -/
def words : List UInt8 → List Nat
  | hi :: lo :: rest => (256 * hi.toNat + lo.toNat) :: words rest
  | [hi] => [256 * hi.toNat]
  | [] => []

/-- The plain total of the words. -/
def wordSum (bs : List UInt8) : Nat := (words bs).sum

@[simp] theorem wordSum_nil : wordSum [] = 0 := rfl

@[simp] theorem wordSum_single (hi : UInt8) : wordSum [hi] = 256 * hi.toNat := rfl

@[simp] theorem wordSum_cons (hi lo : UInt8) (rest : List UInt8) :
    wordSum (hi :: lo :: rest) = 256 * hi.toNat + lo.toNat + wordSum rest := by
  simp [wordSum, words]

theorem words_lt (bs : List UInt8) : ∀ w ∈ words bs, w < 65536 := by
  induction bs using words.induct with
  | case1 hi lo rest ih =>
    intro w hw
    rw [words, List.mem_cons] at hw
    rcases hw with rfl | hw
    · have := hi.toNat_lt; have := lo.toNat_lt; omega
    · exact ih w hw
  | case2 hi =>
    intro w hw
    rw [words, List.mem_singleton] at hw
    have := hi.toNat_lt
    omega
  | case3 => simp [words]

theorem wordSum_append {as bs : List UInt8} (h : as.length % 2 = 0) :
    wordSum (as ++ bs) = wordSum as + wordSum bs := by
  induction as using words.induct with
  | case1 hi lo rest ih =>
    have := ih (by simp at h; omega)
    simp only [List.cons_append, wordSum_cons, this]
    omega
  | case2 hi => simp at h
  | case3 => simp

theorem wordSum_le (bs : List UInt8) : wordSum bs ≤ 65535 * ((bs.length + 1) / 2) := by
  induction bs using words.induct with
  | case1 hi lo rest ih =>
    have := hi.toNat_lt; have := lo.toNat_lt
    rw [wordSum_cons, List.length_cons, List.length_cons]
    omega
  | case2 hi =>
    have := hi.toNat_lt
    rw [wordSum_single, List.length_singleton]
    omega
  | case3 => simp

/-- The total is zero only for zero bytes. -/
theorem wordSum_pos {bs : List UInt8} (h : ∃ b ∈ bs, b ≠ 0) : 0 < wordSum bs := by
  induction bs using words.induct with
  | case1 hi lo rest ih =>
    obtain ⟨b, hb, hne⟩ := h
    have hpos : 0 < b.toNat := Nat.pos_of_ne_zero fun h0 => hne (UInt8.toNat_inj.1 h0)
    rw [wordSum_cons]
    rcases List.mem_cons.1 hb with rfl | hb
    · omega
    rcases List.mem_cons.1 hb with rfl | hb
    · omega
    · have := ih ⟨b, hb, hne⟩
      omega
  | case2 hi =>
    obtain ⟨b, hb, hne⟩ := h
    obtain rfl := List.mem_singleton.1 hb
    have hpos : 0 < b.toNat := Nat.pos_of_ne_zero fun h0 => hne (UInt8.toNat_inj.1 h0)
    rw [wordSum_single]
    omega
  | case3 => simp at h

/-- The totals of the bytes at even and at odd positions. -/
def evenSum : List UInt8 → Nat
  | hi :: _ :: rest => hi.toNat + evenSum rest
  | [hi] => hi.toNat
  | [] => 0

def oddSum : List UInt8 → Nat
  | _ :: lo :: rest => lo.toNat + oddSum rest
  | [_] => 0
  | [] => 0

theorem wordSum_eq (bs : List UInt8) : wordSum bs = 256 * evenSum bs + oddSum bs := by
  induction bs using words.induct with
  | case1 hi lo rest ih =>
    rw [wordSum_cons, ih, evenSum, oddSum]
    omega
  | case2 hi => rfl
  | case3 => rfl

/-- The word total with the bytes of every word exchanged. -/
def swapSum (bs : List UInt8) : Nat := 256 * oddSum bs + evenSum bs

/-- Exchanging the bytes of every word keeps the sum exactly when the two byte totals agree
modulo 257: `65535 = 255 * 257`. -/
theorem swapSum_modEq_iff (bs : List UInt8) :
    swapSum bs ≡ wordSum bs [MOD 65535] ↔ evenSum bs % 257 = oddSum bs % 257 := by
  rw [wordSum_eq, swapSum, Nat.ModEq]
  omega

/-! ## One byte changed -/

/-- What the byte at position `i` counts in the total. -/
def weight (i : Nat) : Nat := if i % 2 = 0 then 256 else 1

theorem evenSum_set (bs : List UInt8) {i : Nat} (h : i < bs.length) (b : UInt8) :
    evenSum (bs.set i b) + (if i % 2 = 0 then (bs.getD i 0).toNat else 0) =
      evenSum bs + if i % 2 = 0 then b.toNat else 0 := by
  induction bs using words.induct generalizing i with
  | case1 hi lo rest ih =>
    match i with
    | 0 => simp [evenSum]; omega
    | 1 => simp [evenSum]
    | i + 2 =>
      have hi := ih (i := i) (by simpa using h)
      simp only [List.set_cons_succ, evenSum, List.getD_cons_succ, Nat.add_mod_right]
      omega
  | case2 hi =>
    obtain rfl : i = 0 := by simpa using h
    simp [evenSum]; omega
  | case3 => simp at h

theorem oddSum_set (bs : List UInt8) {i : Nat} (h : i < bs.length) (b : UInt8) :
    oddSum (bs.set i b) + (if i % 2 = 0 then 0 else (bs.getD i 0).toNat) =
      oddSum bs + if i % 2 = 0 then 0 else b.toNat := by
  induction bs using words.induct generalizing i with
  | case1 hi lo rest ih =>
    match i with
    | 0 => simp [oddSum]
    | 1 => simp [oddSum]; omega
    | i + 2 =>
      have hi := ih (i := i) (by simpa using h)
      simp only [List.set_cons_succ, oddSum, List.getD_cons_succ, Nat.add_mod_right]
      omega
  | case2 hi =>
    obtain rfl : i = 0 := by simpa using h
    simp [oddSum]
  | case3 => simp at h

/-- The total moves by the difference of the two bytes. -/
theorem wordSum_set (bs : List UInt8) {i : Nat} (h : i < bs.length) (b : UInt8) :
    wordSum (bs.set i b) + weight i * (bs.getD i 0).toNat = wordSum bs + weight i * b.toNat := by
  have heven := evenSum_set bs h b
  have hodd := oddSum_set bs h b
  rw [wordSum_eq, wordSum_eq, weight]
  split at heven <;> simp_all <;> omega

theorem swapSum_set (bs : List UInt8) {i : Nat} (h : i < bs.length) (b : UInt8) :
    swapSum (bs.set i b) + weight (i + 1) * (bs.getD i 0).toNat =
      swapSum bs + weight (i + 1) * b.toNat := by
  have heven := evenSum_set bs h b
  have hodd := oddSum_set bs h b
  rw [swapSum, swapSum, weight]
  rcases Nat.mod_two_eq_zero_or_one i with hi | hi
  · rw [if_neg (by omega)]
    simp_all
    omega
  · rw [if_pos (by omega)]
    simp_all
    omega

/-- Two bytes at one place that count the same modulo 65535 are equal. -/
theorem weight_cancel {i : Nat} {a b : UInt8}
    (h : weight i * a.toNat ≡ weight i * b.toNat [MOD 65535]) : a = b := by
  have ha := a.toNat_lt
  have hb := b.toNat_lt
  apply UInt8.toNat_inj.1
  unfold weight Nat.ModEq at h
  split at h <;> omega

/-- A change of one byte moves a total that is a multiple of 65535 off the multiples. -/
theorem not_dvd_of_set {s s' i : Nat} {a b : UInt8}
    (h : s' + weight i * a.toNat = s + weight i * b.toNat) (hne : b ≠ a) (hs : s % 65535 = 0) :
    s' % 65535 ≠ 0 := by
  intro hs'
  have hmod : weight i * b.toNat ≡ weight i * a.toNat [MOD 65535] := by
    have hleft := congrArg (· % 65535) h
    simp only [Nat.add_mod s', Nat.add_mod s, hs, hs', Nat.zero_add, Nat.mod_mod] at hleft
    exact hleft.symm
  exact hne (weight_cancel hmod)

/-- The end-around sum of a byte string's words. -/
def onesSum (bs : List UInt8) : Nat := endAroundSum 65536 (words bs)

theorem onesSum_eq (bs : List UInt8) : onesSum bs = canon 65536 (wordSum bs) :=
  endAroundSum_eq (by decide) (words_lt bs)

end OnesComplement
