import Rewsr.Sys.Proof.CpuSet
import Rewsr.Sys.Proof.Cpulist

/-!
# The reader of cpulists

A round of the loop takes a token (`cpusetParseFrom_token`). So the loop gets through a list of
ranges and adds each of them (`cpusetParseFrom_valid`), what it accepts is such a list
(`cpusetParseFrom_accepted`), and it ends on every string (`cpusetParseFrom_total`).
-/

namespace Rewsr.Sys

open Decimal

/-! ## The first byte of a token -/

theorem Numeral.not_nul (x : Numeral) : 0 ∉ x.text := by
  intro h
  rcases x.mem_text h with h | h | h
  · exact absurd h (by decide)
  · exact absurd h (by decide)
  · exact absurd h (by decide)

theorem Token.exists_lo (t : Token) (rest : List UInt8) :
    ∃ s, t.text ++ rest = t.lo.text ++ s := by
  obtain ⟨lo, _ | hi⟩ := t
  · exact ⟨rest, rfl⟩
  · exact ⟨0x2D :: hi.text ++ rest, List.append_assoc ..⟩

/-- A token starts with a byte of the string. -/
theorem Token.deref_mem (t : Token) (rest : List UInt8) :
    deref (t.text ++ rest) ∈ t.lo.text := by
  obtain ⟨s, hs⟩ := t.exists_lo rest
  obtain ⟨b, text, hb⟩ := List.exists_cons_of_ne_nil t.lo.text_ne_nil
  rw [hs, hb]
  exact List.mem_cons_self

theorem Token.deref_mem_append (t : Token) (rest : List UInt8) :
    deref (t.text ++ rest) ∈ t.text ++ rest := by
  have hmem := t.deref_mem rest
  obtain ⟨s, hs⟩ := t.exists_lo rest
  rw [hs] at hmem ⊢
  exact List.mem_append_left s hmem

theorem Token.deref_ne_nul (t : Token) (rest : List UInt8) : deref (t.text ++ rest) ≠ 0 :=
  fun h => t.lo.not_nul (h ▸ t.deref_mem rest)

theorem Token.length_pos (t : Token) (rest : List UInt8) :
    rest.length < (t.text ++ rest).length := by
  have hpos : 0 < t.text.length := by
    obtain ⟨s, hs⟩ := t.exists_lo []
    rw [List.append_nil] at hs
    have := List.length_pos_iff.mpr t.lo.text_ne_nil
    rw [hs, List.length_append]
    omega
  rw [List.length_append]
  omega

/-- With more fuel than bytes, the last token leaves some for the end of the string. -/
theorem Token.fuel_last (t : Token) {fuel : Nat} (h : t.text.length < fuel) :
    ∃ k, fuel = k + 1 + 1 := by
  have hlen := t.length_pos []
  rw [List.append_nil, List.length_nil] at hlen
  exact ⟨fuel - 2, by omega⟩

/-- With more fuel than bytes, any other token leaves more fuel than bytes. -/
theorem Token.fuel_comma (t : Token) {p : List UInt8} {fuel : Nat}
    (h : (t.text ++ 0x2C :: p).length < fuel) : ∃ k, fuel = k + 1 ∧ p.length < k := by
  have hlen := t.length_pos (0x2C :: p)
  rw [List.length_cons] at hlen
  exact ⟨fuel - 1, by omega, by omega⟩

/-! ## The loop -/

/-- The bound that `rewsr_cpuset_parse` checks. -/
theorem Token.within_max_iff (t : Token) :
    t.Within (fun cpu => cpu < cpusetMax) ↔ t.Valid := by
  simp only [Within, Valid, decide_eq_true_eq]
  omega

/-- The set after some tokens. -/
def addTokens (s : CpuSet) (ts : List Token) : CpuSet :=
  ts.foldl (fun s t => s.setRange t.first t.last) s

/-- One round. -/
theorem cpusetParseFrom_token (fuel : Nat) (s : CpuSet) (t : Token) {rest : List UInt8}
    (hrest : Ends rest) :
    cpusetParseFrom (fuel + 1) s (t.text ++ rest) =
      if t.Valid then cpusetParseFrom fuel (s.setRange t.first t.last) (rest.drop 1)
      else some (-1, s) := by
  rw [cpusetParseFrom, if_neg (t.deref_ne_nul rest), readToken_text _ t hrest]
  simp only [t.within_max_iff]
  by_cases hvalid : t.Valid
  · rw [if_pos hvalid, if_pos hvalid]
    rcases hrest with rfl | ⟨p, rfl⟩
    · rfl
    · rfl
  · rw [if_neg hvalid, if_neg hvalid]

/-- The loop gets through a list of ranges. -/
theorem cpusetParseFrom_valid {ts : List Token} {p : List UInt8} (h : Cpulist ts p)
    (hvalid : ∀ t ∈ ts, t.Valid) (s : CpuSet) {fuel : Nat} (hfuel : p.length < fuel) :
    cpusetParseFrom fuel s p = some (0, addTokens s ts) := by
  induction h generalizing s fuel with
  | empty =>
    obtain ⟨fuel, rfl⟩ := Nat.exists_eq_succ_of_ne_zero (Nat.ne_of_gt hfuel)
    rfl
  | last t =>
    obtain ⟨fuel, rfl⟩ := t.fuel_last hfuel
    have hround := cpusetParseFrom_token (fuel + 1) s t (Or.inl rfl)
    rw [List.append_nil, if_pos (hvalid t List.mem_cons_self)] at hround
    rw [hround]
    rfl
  | @comma t ts p h ih =>
    obtain ⟨fuel, rfl, hp⟩ := t.fuel_comma hfuel
    rw [cpusetParseFrom_token fuel s t (Or.inr ⟨p, rfl⟩), if_pos (hvalid t List.mem_cons_self)]
    exact ih (fun t' ht' => hvalid t' (List.mem_cons_of_mem t ht')) _ hp

/-- A list that the loop accepts consists of ranges, and these are added. -/
theorem cpusetParseFrom_ranges {ts : List Token} {p : List UInt8} (h : Cpulist ts p)
    {s s' : CpuSet} {fuel : Nat} (hparse : cpusetParseFrom fuel s p = some (0, s')) :
    (∀ t ∈ ts, t.Valid) ∧ s' = addTokens s ts := by
  induction h generalizing s fuel with
  | empty =>
    cases fuel with
    | zero => cases hparse
    | succ fuel =>
      cases hparse
      exact ⟨by simp, rfl⟩
  | last t =>
    cases fuel with
    | zero => cases hparse
    | succ fuel =>
      have hround := cpusetParseFrom_token fuel s t (Or.inl rfl)
      rw [List.append_nil, hparse] at hround
      split at hround
      next hvalid =>
        cases fuel with
        | zero => cases hround
        | succ fuel =>
          cases hround
          exact ⟨by simpa using hvalid, rfl⟩
      · cases hround
  | @comma t ts p h ih =>
    cases fuel with
    | zero => cases hparse
    | succ fuel =>
      rw [cpusetParseFrom_token fuel s t (Or.inr ⟨p, rfl⟩)] at hparse
      split at hparse
      next hvalid =>
        obtain ⟨hall, hset⟩ := ih hparse
        exact ⟨by simpa using ⟨hvalid, hall⟩, hset⟩
      · cases hparse

theorem eq_nil_of_deref {p : List UInt8} (hnul : 0 ∉ p) (h : deref p = 0) : p = [] := by
  cases p with
  | nil => rfl
  | cons b p => exact absurd (h ▸ List.mem_cons_self) hnul

theorem eq_cons_of_deref {p : List UInt8} {b : UInt8} (hb : b ≠ 0) (h : deref p = b) :
    ∃ s, p = b :: s := by
  cases p with
  | nil => exact absurd h.symm hb
  | cons c p => exact ⟨p, congrArg (· :: p) h⟩

/-- A round refuses the string or takes a token of it. -/
theorem cpusetParseFrom_round {p : List UInt8} (hnul : 0 ∉ p) (hne : p ≠ []) (fuel : Nat)
    (s : CpuSet) :
    (∃ s', cpusetParseFrom (fuel + 1) s p = some (-1, s')) ∨
      ∃ (t : Token) (rest : List UInt8), p = t.text ++ rest ∧ Ends rest ∧
        cpusetParseFrom (fuel + 1) s p =
          cpusetParseFrom fuel (s.setRange t.first t.last) (rest.drop 1) := by
  cases hread : readToken (fun cpu => cpu < cpusetMax) p with
  | none =>
    left
    refine ⟨s, ?_⟩
    rw [cpusetParseFrom, if_neg (fun h => hne (eq_nil_of_deref hnul h)), hread]
  | some token =>
    obtain ⟨lo, hi, e⟩ := token
    obtain ⟨t, rfl, rfl, rfl, hwithin⟩ := readToken_some hread
    have he : 0 ∉ e := fun h => hnul (List.mem_append_right _ h)
    by_cases hends : Ends e
    · right
      refine ⟨t, e, rfl, hends, ?_⟩
      rw [cpusetParseFrom_token fuel s t hends, if_pos (t.within_max_iff.mp hwithin)]
    · left
      have hcomma : deref e ≠ 0x2C := fun h => hends (Or.inr (eq_cons_of_deref (by decide) h))
      have hend : deref e ≠ 0 := fun h => hends (Or.inl (eq_nil_of_deref he h))
      refine ⟨s.setRange t.first t.last, ?_⟩
      rw [cpusetParseFrom, if_neg (t.deref_ne_nul e), hread]
      simp only [if_neg hcomma, if_pos hend]

/-- What the loop accepts is a list. -/
theorem cpusetParseFrom_accepted {fuel : Nat} {s s' : CpuSet} {p : List UInt8} (hnul : 0 ∉ p)
    (hparse : cpusetParseFrom fuel s p = some (0, s')) : ∃ ts, Cpulist ts p := by
  induction fuel generalizing s p with
  | zero => cases hparse
  | succ fuel ih =>
    by_cases hne : p = []
    · exact ⟨[], hne ▸ .empty⟩
    rcases cpusetParseFrom_round hnul hne fuel s with ⟨s'', hbad⟩ | ⟨t, rest, rfl, hends, hround⟩
    · rw [hbad] at hparse
      cases hparse
    · rw [hround] at hparse
      rcases hends with rfl | ⟨p, rfl⟩
      · exact ⟨[t], by rw [List.append_nil]; exact .last t⟩
      · have hp : 0 ∉ p := fun h => hnul (List.mem_append_right _ (List.mem_cons_of_mem _ h))
        obtain ⟨ts, hts⟩ := ih hp hparse
        exact ⟨t :: ts, hts.comma t⟩

/-- The loop ends on every string. -/
theorem cpusetParseFrom_total {fuel : Nat} {p : List UInt8} (hnul : 0 ∉ p) (hfuel : p.length < fuel)
    (s : CpuSet) :
    ∃ result s', cpusetParseFrom fuel s p = some (result, s') ∧ (result = 0 ∨ result = -1) := by
  induction fuel generalizing s p with
  | zero => cases hfuel
  | succ fuel ih =>
    by_cases hne : p = []
    · subst hne
      exact ⟨0, s, rfl, Or.inl rfl⟩
    rcases cpusetParseFrom_round hnul hne fuel s with ⟨s'', hbad⟩ | ⟨t, rest, rfl, hends, hround⟩
    · exact ⟨-1, s'', hbad, Or.inr rfl⟩
    · have hrest : 0 ∉ rest.drop 1 :=
        fun h => hnul (List.mem_append_right _ (List.mem_of_mem_drop h))
      have hlen := t.length_pos rest
      have hdrop : (rest.drop 1).length ≤ rest.length := by simp
      rw [hround]
      exact ih hrest (by omega) _

/-! ## The set -/

theorem has_addTokens {ts : List Token} (hvalid : ∀ t ∈ ts, t.Valid) (s : CpuSet) (c : Nat) :
    (addTokens s ts).has c ↔ s.has c ∨ ∃ t ∈ ts, t.Names c := by
  induction ts generalizing s with
  | nil => simp [addTokens]
  | cons t ts ih =>
    obtain ⟨hlo, -, hhi⟩ := hvalid t List.mem_cons_self
    have htail :=
      ih (fun t' ht' => hvalid t' (List.mem_cons_of_mem t ht')) (s.setRange t.first t.last)
    rw [List.exists_mem_cons_iff, ← or_assoc]
    exact htail.trans (or_congr_left (s.has_setRange hlo hhi c))

/-- The set that the tokens make holds the CPUs that they name. -/
theorem has_iff_mem_named {ts : List Token} (hvalid : ∀ t ∈ ts, t.Valid) (c : Nat) :
    (addTokens .zero ts).has c ↔ c ∈ named ts := by
  have hadd := has_addTokens hvalid .zero c
  rw [named, Finset.mem_filter, Finset.mem_range, hadd, CpuSet.has_zero]
  simp only [Bool.false_eq_true, false_or]
  constructor
  · intro h
    have hlt := CpuSet.lt_of_has (hadd.mpr (Or.inr h))
    exact ⟨hlt, h⟩
  · exact And.right

theorem count_addTokens {ts : List Token} (hvalid : ∀ t ∈ ts, t.Valid) :
    (addTokens .zero ts).count = (named ts).card := by
  have hset : named ts = (Finset.range cpusetMax).filter fun c => (addTokens .zero ts).has c := by
    ext c
    rw [Finset.mem_filter, Finset.mem_range, ← has_iff_mem_named hvalid]
    exact ⟨fun h => ⟨CpuSet.lt_of_has h, h⟩, And.right⟩
  rw [hset, CpuSet.count_eq_card]

/-- **What the reader of cpulists reads.** It ends on every string, accepts exactly the lists of
ranges of CPUs, and the set it makes of one holds exactly the CPUs of the ranges. -/
theorem cpusetParse_spec (list : CString) (extra : Nat) :
    ∃ result set, cpusetParse (list.bytes.length + 1 + extra) (some list) = some (result, set) ∧
      (result = 0 ∨ result = -1) ∧
      (result = 0 ↔ ∃ ts, Cpulist ts list.bytes ∧ ∀ t ∈ ts, t.Valid) ∧
      ∀ ts, Cpulist ts list.bytes → result = 0 →
        (∀ cpu : Int, set.isset cpu = 1 ↔ ∃ t ∈ ts, t.first ≤ cpu ∧ cpu ≤ t.last) ∧
        set.count = (named ts).card ∧
        ((named ts = ∅ ∧ set.first = -1) ∨
          ∃ c ∈ named ts, set.first = c ∧ ∀ d ∈ named ts, c ≤ d) := by
  have hfuel : list.bytes.length < list.bytes.length + 1 + extra := by omega
  obtain ⟨result, set, hparse, hresult⟩ := cpusetParseFrom_total list.nul hfuel .zero
  refine ⟨result, set, hparse, hresult, ⟨?_, ?_⟩, ?_⟩
  · rintro rfl
    obtain ⟨ts, hts⟩ := cpusetParseFrom_accepted list.nul hparse
    exact ⟨ts, hts, (cpusetParseFrom_ranges hts hparse).1⟩
  · rintro ⟨ts, hts, hvalid⟩
    rw [cpusetParseFrom_valid hts hvalid .zero hfuel] at hparse
    cases hparse
    rfl
  · rintro ts hts rfl
    obtain ⟨hvalid, rfl⟩ := cpusetParseFrom_ranges hts hparse
    refine ⟨fun cpu => ?_, count_addTokens hvalid, ?_⟩
    · rw [CpuSet.isset_eq_one]
      constructor
      · rintro ⟨c, rfl, hc⟩
        exact ((has_addTokens hvalid .zero c).mp hc).resolve_left (by simp)
      · rintro ⟨t, ht, hlo, hhi⟩
        obtain ⟨c, rfl⟩ := Int.eq_ofNat_of_zero_le (le_trans (hvalid t ht).1 hlo)
        exact ⟨c, rfl, (has_addTokens hvalid .zero c).mpr (Or.inr ⟨t, ht, hlo, hhi⟩)⟩
    · rcases (addTokens .zero ts).first_spec with ⟨hfirst, hnone⟩ | ⟨c, hfirst, hc, hleast⟩
      · left
        refine ⟨Finset.eq_empty_of_forall_notMem fun c hmem => ?_, hfirst⟩
        rw [← has_iff_mem_named hvalid, hnone c] at hmem
        cases hmem
      · right
        refine ⟨c, (has_iff_mem_named hvalid c).mp hc, hfirst, fun d hd => ?_⟩
        by_contra hlt
        rw [← has_iff_mem_named hvalid, hleast d (by omega)] at hd
        cases hd

end Rewsr.Sys
