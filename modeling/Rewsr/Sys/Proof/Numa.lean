import Mathlib.Order.Interval.Finset.Nat
import Rewsr.Sys.Numa
import Rewsr.Sys.Proof.Affinity

/-!
# The two readers of cpulists

On a list that the CPU sets' reader accepts, the NUMA reader adds up the sizes of the same ranges
(`numaCountCpusFrom_valid`). The sum is the number of CPUs named unless two tokens name one
(`card_named`).
-/

namespace Rewsr.Sys

/-! ## The sum -/

theorem Token.Valid.size_pos {t : Token} (h : t.Valid) : 0 < t.size ∧ t.size ≤ cpusetMax := by
  obtain ⟨hlo, hle, hhi⟩ := h
  rw [size]
  omega

theorem total_nonneg {ts : List Token} (h : ∀ t ∈ ts, t.Valid) : 0 ≤ total ts := by
  induction ts with
  | nil => exact le_refl 0
  | cons t ts ih =>
    have hpos := (h t List.mem_cons_self).size_pos
    have htail := ih fun t' ht' => h t' (List.mem_cons_of_mem t ht')
    simp only [total, List.map_cons, List.sum_cons] at htail ⊢
    omega

/-- A range of CPUs is added without an overflow. -/
theorem addRange_valid {t : Token} (h : t.Valid) {count : Int} (hcount : 0 ≤ count)
    (hsum : count + t.size ≤ intMax) : addRange count t.first t.last = some (count + t.size) := by
  obtain ⟨hpos, hmax⟩ := h.size_pos
  have h1024 : cpusetMax = 1024 := rfl
  have hint : intMax = 2147483647 := rfl
  have hlong : longMax = 9223372036854775807 := rfl
  have hmod : t.size.bmod (2 ^ 32) = t.size := Int.bmod_eq_of_le (by omega) (by omega)
  rw [addRange, show t.last - t.first + 1 = t.size from rfl, if_neg (by omega), hmod]
  exact if_neg (by omega)

/-- One round. -/
theorem numaCountCpusFrom_token (fuel : Nat) {t : Token} (h : t.Valid) {rest : List UInt8}
    (hrest : Ends rest) (hnl : 0x0A ∉ t.text ++ rest) {count : Int} (hcount : 0 ≤ count)
    (hsum : count + t.size ≤ intMax) :
    numaCountCpusFrom (fuel + 1) count (t.text ++ rest) =
      numaCountCpusFrom fuel (count + t.size) (rest.drop 1) := by
  have hwithin : t.Within fun _ => true := ⟨h.1, rfl, h.2.1, rfl⟩
  have hline : deref (t.text ++ rest) ≠ 0x0A := fun heq => hnl (heq ▸ t.deref_mem_append rest)
  rw [numaCountCpusFrom, if_neg (not_or.mpr ⟨t.deref_ne_nul rest, hline⟩), readToken_text _ t hrest,
    if_pos hwithin]
  simp only [addRange_valid h hcount hsum]
  rcases hrest with rfl | ⟨p, rfl⟩
  · rfl
  · rfl

/-- The loop gets through a list of ranges. -/
theorem numaCountCpusFrom_valid {ts : List Token} {p : List UInt8} (h : Cpulist ts p)
    (hvalid : ∀ t ∈ ts, t.Valid) (hnl : 0x0A ∉ p) {count : Int} (hcount : 0 ≤ count)
    (hsum : count + total ts ≤ intMax) {fuel : Nat} (hfuel : p.length < fuel) :
    numaCountCpusFrom fuel count p = some (count + total ts) := by
  induction h generalizing count fuel with
  | empty =>
    obtain ⟨fuel, rfl⟩ := Nat.exists_eq_succ_of_ne_zero (Nat.ne_of_gt hfuel)
    rw [total, List.map_nil, List.sum_nil, Int.add_zero]
    rfl
  | last t =>
    obtain ⟨fuel, rfl⟩ := t.fuel_last hfuel
    have htotal : total [t] = t.size := by simp [total]
    rw [htotal] at hsum ⊢
    have hround := numaCountCpusFrom_token (fuel + 1) (hvalid t List.mem_cons_self) (Or.inl rfl)
      (by rwa [List.append_nil]) hcount hsum
    rw [List.append_nil] at hround
    rw [hround]
    rfl
  | @comma t ts p h ih =>
    obtain ⟨fuel, rfl, hlen⟩ := t.fuel_comma hfuel
    have htail : ∀ t' ∈ ts, t'.Valid := fun t' ht' => hvalid t' (List.mem_cons_of_mem t ht')
    have hpos := (hvalid t List.mem_cons_self).size_pos
    have hnonneg := total_nonneg htail
    have htotal : total (t :: ts) = t.size + total ts := by simp [total]
    have hp : 0x0A ∉ p := fun hmem => hnl (List.mem_append_right _ (List.mem_cons_of_mem _ hmem))
    rw [htotal] at hsum ⊢
    rw [numaCountCpusFrom_token fuel (hvalid t List.mem_cons_self) (Or.inr ⟨p, rfl⟩) hnl hcount
      (by omega), ← Int.add_assoc]
    exact ih htail hp (by omega) (by omega) hlen

/-! ## The number of CPUs -/

theorem mem_named {ts : List Token} (h : ∀ t ∈ ts, t.Valid) {c : Nat} :
    c ∈ named ts ↔ ∃ t ∈ ts, t.Names c := by
  rw [named, Finset.mem_filter, Finset.mem_range]
  refine ⟨And.right, fun hnames => ⟨?_, hnames⟩⟩
  obtain ⟨t, ht, -, hhi⟩ := hnames
  have hmax := (h t ht).2.2
  omega

/-- The CPUs of a token. -/
theorem card_named_singleton {t : Token} (h : t.Valid) : ((named [t]).card : Int) = t.size := by
  obtain ⟨hlo, hle, hhi⟩ := h
  have hrange : named [t] = Finset.Icc t.first.toNat t.last.toNat := by
    ext c
    rw [mem_named (by simpa using ⟨hlo, hle, hhi⟩), Finset.mem_Icc, List.exists_mem_cons_iff]
    simp only [List.not_mem_nil, false_and, exists_false, or_false, Token.Names]
    omega
  rw [hrange, Nat.card_Icc, Token.size]
  omega

theorem named_cons {t : Token} {ts : List Token} (h : ∀ t' ∈ t :: ts, t'.Valid) :
    named (t :: ts) = named [t] ∪ named ts := by
  have hts : ∀ t' ∈ ts, t'.Valid := fun t' ht' => h t' (List.mem_cons_of_mem t ht')
  have ht : ∀ t' ∈ [t], t'.Valid := by simpa using h t List.mem_cons_self
  ext c
  rw [Finset.mem_union, mem_named h, mem_named ht, mem_named hts, List.exists_mem_cons_iff,
    List.exists_mem_cons_iff]
  simp

/-- No CPU is named by both tokens. -/
def Token.Disjoint (t t' : Token) : Prop := ∀ c, ¬ (t.Names c ∧ t'.Names c)

/-- The sizes add up to the number of CPUs at least, and to it exactly if no CPU is named twice. -/
theorem card_named {ts : List Token} (h : ∀ t ∈ ts, t.Valid) :
    ((named ts).card : Int) ≤ total ts ∧
      (total ts = (named ts).card ↔ ts.Pairwise Token.Disjoint) := by
  induction ts with
  | nil => simp [named, total]
  | cons t ts ih =>
    have hts : ∀ t' ∈ ts, t'.Valid := fun t' ht' => h t' (List.mem_cons_of_mem t ht')
    obtain ⟨hle, hiff⟩ := ih hts
    have ht : ∀ t' ∈ [t], t'.Valid := by simpa using h t List.mem_cons_self
    have hone := card_named_singleton (h t List.mem_cons_self)
    have hcard := Finset.card_union_add_card_inter (named [t]) (named ts)
    have htotal : total (t :: ts) = t.size + total ts := by simp [total]
    rw [List.pairwise_cons, ← hiff, htotal, named_cons h]
    have hdisjoint : (named [t] ∩ named ts).card = 0 ↔ ∀ t' ∈ ts, t.Disjoint t' := by
      rw [Finset.card_eq_zero, Finset.eq_empty_iff_forall_notMem]
      simp only [Finset.mem_inter, mem_named ht, mem_named hts, Token.Disjoint]
      constructor
      · rintro hnone t' ht' c ⟨hc, hc'⟩
        exact hnone c ⟨⟨t, List.mem_cons_self, hc⟩, t', ht', hc'⟩
      · rintro hdis c ⟨⟨t₁, ht₁, hc⟩, t', ht', hc'⟩
        obtain rfl := List.mem_singleton.mp ht₁
        exact hdis t' ht' c ⟨hc, hc'⟩
    rw [← hdisjoint]
    omega

/-- **The two readers agree.** On a list without a newline that the CPU sets' reader accepts, and
whose sizes add up to an `int`, the NUMA reader returns the sum of the sizes. It is no less than the
number of CPUs in the set, and the same unless two tokens name a CPU. -/
theorem numaCountCpus_of_cpusetParse (list : CString) (hnl : 0x0A ∉ list.bytes) {fuel : Nat}
    {set : CpuSet} (hparse : cpusetParse fuel (some list) = some (0, set)) :
    (∃ ts, Cpulist ts list.bytes) ∧ ∀ ts, Cpulist ts list.bytes → total ts ≤ intMax →
      (∀ extra, numaCountCpus (list.bytes.length + 1 + extra) (some list) = some (total ts)) ∧
        set.count ≤ total ts ∧ (total ts = set.count ↔ ts.Pairwise Token.Disjoint) := by
  refine ⟨cpusetParseFrom_accepted list.nul hparse, fun ts hts hsum => ?_⟩
  obtain ⟨hvalid, rfl⟩ := cpusetParseFrom_ranges hts hparse
  have hrun : ∀ extra, numaCountCpusFrom (list.bytes.length + 1 + extra) 0 list.bytes =
      some (0 + total ts) :=
    fun extra => numaCountCpusFrom_valid hts hvalid hnl (le_refl 0) (by omega) (by omega)
  rw [count_addTokens hvalid]
  refine ⟨fun extra => ?_, card_named hvalid⟩
  rw [numaCountCpus, hrun, Int.zero_add]

/-- Two tokens that name CPU 2. -/
theorem numaCountCpus_overlap :
    numaCountCpus 6 (some ⟨ascii "0-3,2", by decide⟩) = some 5 ∧
      ((CpuSet.zero.setRange 0 3).setRange 2 2).count ≤ (5 : Int) := by
  let zero : Numeral := ⟨[], .none, ascii "0", by simp, by decide, by decide⟩
  let two : Numeral := ⟨[], .none, ascii "2", by simp, by decide, by decide⟩
  let three : Numeral := ⟨[], .none, ascii "3", by simp, by decide, by decide⟩
  have hlist : Cpulist [⟨zero, some three⟩, ⟨two, none⟩] (ascii "0-3,2") :=
    (Cpulist.last ⟨two, none⟩).comma ⟨zero, some three⟩
  obtain ⟨-, hagree⟩ := @numaCountCpus_of_cpusetParse ⟨ascii "0-3,2", by decide⟩ (by decide) 6
    ((CpuSet.zero.setRange 0 3).setRange 2 2) (by decide)
  obtain ⟨hcount, hle, -⟩ := hagree _ hlist (by decide)
  exact ⟨hcount 0, hle⟩

end Rewsr.Sys
