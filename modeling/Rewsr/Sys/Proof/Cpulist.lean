import Rewsr.Sys.Cpulist

/-!
# Reading a token

`strtol` reads a numeral up to the byte behind it (`strtol_text`), and what it reads is one
(`strtol_numeral`); so `readToken` takes the tokens of a list and nothing else (`readToken_text`,
`readToken_some`).
-/

namespace Rewsr.Sys

open Decimal

theorem isspace_of_isDigit {b : UInt8} (h : isDigit b = true) : isspace b = false := by
  simp only [isDigit, decide_eq_true_eq] at h
  rw [isspace, decide_eq_false_iff_not]
  rintro (rfl | ⟨-, hhi⟩)
  · exact absurd h (by decide)
  · exact absurd (UInt8.le_trans h.1 hhi) (by decide)

/-! ## Signs -/

theorem takeSign_text (sign : Sign) {b : UInt8} (hb : isDigit b = true) (s : List UInt8) :
    takeSign (sign.text ++ b :: s) = (decide (sign = .minus), b :: s) := by
  cases sign with
  | none =>
    have hminus : b ≠ 0x2D := by
      rintro rfl
      exact absurd hb (by decide)
    have hplus : b ≠ 0x2B := by
      rintro rfl
      exact absurd hb (by decide)
    simp [Sign.text, takeSign, hminus, hplus]
  | plus => rfl
  | minus => rfl

theorem takeSign_spec (s : List UInt8) :
    ∃ sign : Sign, s = sign.text ++ (takeSign s).2 ∧ (takeSign s).1 = decide (sign = .minus) := by
  cases s with
  | nil => exact ⟨.none, rfl, rfl⟩
  | cons b s =>
    rw [takeSign]
    by_cases hminus : b = 0x2D
    · subst hminus
      exact ⟨.minus, rfl, rfl⟩
    by_cases hplus : b = 0x2B
    · subst hplus
      exact ⟨.plus, rfl, rfl⟩
    rw [if_neg hminus, if_neg hplus]
    exact ⟨.none, rfl, rfl⟩

/-! ## Numerals -/

/-- What follows a numeral. -/
def NoDigit (rest : List UInt8) : Prop := (rest.head?.all fun b => !isDigit b) = true

namespace Numeral

variable (x : Numeral)

theorem exists_digit : ∃ b s, x.digits = b :: s ∧ isDigit b = true := by
  obtain ⟨b, s, heq⟩ := List.exists_cons_of_ne_nil x.digits_ne
  exact ⟨b, s, heq, x.digits_number b (heq ▸ List.mem_cons_self)⟩

/-- Behind the white space is a sign or a digit. -/
theorem dropWhile_spaces (rest : List UInt8) :
    (x.text ++ rest).dropWhile isspace = x.sign.text ++ (x.digits ++ rest) := by
  obtain ⟨b, s, heq, hb⟩ := x.exists_digit
  have hstop : (x.sign.text ++ (x.digits ++ rest)).dropWhile isspace =
      x.sign.text ++ (x.digits ++ rest) := by
    rw [heq]
    cases x.sign with
    | none => exact List.dropWhile_cons_of_neg (by simp [isspace_of_isDigit hb])
    | plus | minus => exact List.dropWhile_cons_of_neg (by decide)
  rw [text, List.append_assoc, List.append_assoc,
    List.dropWhile_append_of_pos x.spaces_space, hstop]

theorem strtol_text {rest : List UInt8} (hrest : NoDigit rest) :
    strtol (x.text ++ rest) = (x.val, rest) := by
  obtain ⟨b, s, heq, hb⟩ := x.exists_digit
  have hsign : takeSign (x.sign.text ++ (x.digits ++ rest)) =
      (decide (x.sign = .minus), x.digits ++ rest) := by
    rw [heq]
    exact takeSign_text x.sign hb _
  rw [strtol, dropWhile_spaces, hsign]
  simp only [takeWhile_append x.digits_number hrest, dropWhile_append x.digits_number hrest,
    if_neg x.digits_ne, val, decide_eq_true_eq]

/-- A numeral starts with a byte that ends no string and is no comma. -/
theorem text_ne_nil : x.text ≠ [] := by
  intro h
  have hlen := congrArg List.length h
  have hpos := List.length_pos_iff.mpr x.digits_ne
  simp only [text, List.length_append, List.length_nil] at hlen
  omega

theorem mem_text {b : UInt8} (h : b ∈ x.text) :
    isspace b = true ∨ b ∈ ([0x2B, 0x2D] : List UInt8) ∨ isDigit b = true := by
  rw [text, List.mem_append, List.mem_append] at h
  rcases h with hspace | hsign | hdigit
  · exact Or.inl (x.spaces_space b hspace)
  · right
    left
    have hplus : ascii "+" = [0x2B] := rfl
    have hminus : ascii "-" = [0x2D] := rfl
    cases hs : x.sign <;> simp_all [Sign.text]
  · exact Or.inr (Or.inr (x.digits_number b hdigit))

end Numeral

/-- Where `strtol` moves on, it has read a numeral. -/
theorem strtol_numeral {p e : List UInt8} {n : Int} (h : strtol p = (n, e)) (hne : e ≠ p) :
    ∃ x : Numeral, p = x.text ++ e ∧ x.val = n := by
  obtain ⟨sign, hsign, hminus⟩ := takeSign_spec (p.dropWhile isspace)
  rw [strtol] at h
  simp only [hminus] at h
  generalize (takeSign (p.dropWhile isspace)).2 = s at h hsign
  split at h
  · cases h
    exact absurd rfl hne
  next hdigits =>
    obtain ⟨rfl, rfl⟩ := Prod.mk.inj h
    refine ⟨⟨p.takeWhile isspace, sign, s.takeWhile isDigit, fun b hb => List.mem_takeWhile_imp hb,
      hdigits, isNumber_takeWhile s⟩, ?_, ?_⟩
    · rw [Numeral.text, List.append_assoc, List.append_assoc, List.takeWhile_append_dropWhile,
        ← hsign, List.takeWhile_append_dropWhile]
    · simp only [Numeral.val, decide_eq_true_eq]

/-! ## Tokens -/

/-- The string ends, or the next token follows. -/
def Ends (rest : List UInt8) : Prop := rest = [] ∨ ∃ s, rest = 0x2C :: s

theorem Ends.noDigit {rest : List UInt8} (h : Ends rest) : NoDigit rest := by
  rcases h with rfl | ⟨s, rfl⟩ <;> rfl

theorem Ends.deref_ne {rest : List UInt8} (h : Ends rest) : deref rest ≠ 0x2D := by
  rcases h with rfl | ⟨s, rfl⟩
  · decide
  · exact (by decide : (0x2C : UInt8) ≠ 0x2D)

theorem ne_append {s rest : List UInt8} (h : s ≠ []) : rest ≠ s ++ rest := by
  intro heq
  have hlen := congrArg List.length heq
  have hpos := List.length_pos_iff.mpr h
  rw [List.length_append] at hlen
  omega

/-- The bounds that `readToken` checks. -/
def Token.Within (below : Int → Bool) (t : Token) : Prop :=
  0 ≤ t.first ∧ below t.first ∧ t.first ≤ t.last ∧ below t.last

instance (below : Int → Bool) (t : Token) : Decidable (t.Within below) :=
  inferInstanceAs (Decidable (_ ∧ _ ∧ _ ∧ _))

/-- A token is read if its range is within the bounds. -/
theorem readToken_text (below : Int → Bool) (t : Token) {rest : List UInt8} (hrest : Ends rest) :
    readToken below (t.text ++ rest) =
      if t.Within below then some (t.first, t.last, rest) else none := by
  obtain ⟨lo, _ | hi⟩ := t
  · have hwithin : Token.Within below ⟨lo, none⟩ ↔ ¬ (lo.val < 0 ∨ (!below lo.val) = true) := by
      cases hbelow : below lo.val <;> simp [Token.Within, Token.first, Token.last, hbelow]
    rw [readToken, Token.text]
    simp only [lo.strtol_text hrest.noDigit, ne_append lo.text_ne_nil, hrest.deref_ne, if_false,
      false_or, hwithin, ite_not]
    rfl
  · have hwithin : Token.Within below ⟨lo, some hi⟩ ↔ ¬ (lo.val < 0 ∨ (!below lo.val) = true) ∧
        ¬ (hi.val < lo.val ∨ (!below hi.val) = true) := by
      cases hlo : below lo.val <;> cases hhi : below hi.val <;>
        simp [Token.Within, Token.first, Token.last, hlo, hhi]
    have hdash : NoDigit (0x2D :: (hi.text ++ rest)) := rfl
    have htext : Token.text ⟨lo, some hi⟩ ++ rest = lo.text ++ 0x2D :: (hi.text ++ rest) := by
      rw [Token.text, List.append_assoc, List.cons_append]
    have hderef : deref (0x2D :: (hi.text ++ rest)) = 0x2D := rfl
    rw [readToken, htext]
    simp only [lo.strtol_text hdash, ne_append lo.text_ne_nil, hderef, if_true, List.drop_one,
      List.tail_cons, hi.strtol_text hrest.noDigit, ne_append hi.text_ne_nil, false_or, hwithin]
    split_ifs <;> first | rfl | tauto

/-- What is read is a token. -/
theorem readToken_some {below : Int → Bool} {p e : List UInt8} {lo hi : Int}
    (h : readToken below p = some (lo, hi, e)) :
    ∃ t : Token, p = t.text ++ e ∧ t.first = lo ∧ t.last = hi ∧ t.Within below := by
  rw [readToken] at h
  rcases hlo : strtol p with ⟨n, q⟩
  rw [hlo] at h
  simp only at h
  split at h
  · cases h
  next hfirst =>
    obtain ⟨hq, hpos, hbelow⟩ : q ≠ p ∧ 0 ≤ n ∧ below n = true := by
      simp only [not_or, not_lt, Bool.not_eq_true, Bool.not_eq_false'] at hfirst
      exact hfirst
    obtain ⟨x, hp, hx⟩ := strtol_numeral hlo hq
    split at h
    next hdash =>
      obtain ⟨q, rfl⟩ : ∃ s, q = 0x2D :: s := by
        cases q with
        | nil => cases hdash
        | cons b s => exact ⟨s, congrArg (· :: s) hdash⟩
      rcases hhi : strtol q with ⟨m, r⟩
      rw [List.drop_one, List.tail_cons, hhi] at h
      simp only at h
      split at h
      · cases h
      next hlast =>
        obtain ⟨hr, hle, hbelow'⟩ : r ≠ q ∧ n ≤ m ∧ below m = true := by
          simp only [not_or, not_lt, Bool.not_eq_true, Bool.not_eq_false'] at hlast
          exact hlast
        obtain ⟨y, hq', hy⟩ := strtol_numeral hhi hr
        cases h
        refine ⟨⟨x, some y⟩, ?_, hx, hy, ?_⟩
        · rw [Token.text, List.append_assoc, List.cons_append, ← hq', hp]
        · simp only [Token.Within, Token.first, Token.last, hx, hy]
          exact ⟨hpos, hbelow, hle, hbelow'⟩
    · cases h
      refine ⟨⟨x, none⟩, hp, hx, hx, ?_⟩
      simp only [Token.Within, Token.first, Token.last, hx]
      exact ⟨hpos, hbelow, le_refl lo, hbelow⟩

end Rewsr.Sys
