import Rewsr.Go.Proof.Strings

/-!
# Lines of text

How the Go functions take apart texts that are put together from lines (`split_unlines`), from words
and blanks (`trimSpace_blanks`, `trimSpace_snoc`) and around separators (`cut_append`,
`cutAt_append`).
-/

namespace Rewsr.Go

/-! ## White space -/

theorem Graphic.not_mem {s : List UInt8} (h : Graphic s) {b : UInt8}
    (hb : ¬ (0x21 ≤ b ∧ b < 0x80)) : b ∉ s :=
  fun hmem => hb (h b hmem)

theorem not_mem_blanks {bs : List UInt8} (h : ∀ b ∈ bs, isBlank b = true) {b : UInt8}
    (hb : isBlank b ≠ true) : b ∉ bs :=
  fun hmem => hb (h b hmem)

theorem not_graphic_of_mem : ∀ r ∈ spaceRunes, ∀ b ∈ r, ¬ (0x21 ≤ b ∧ b < 0x80) := by
  simp [spaceRunes]

/-- No space ends the string. -/
def CleanBack (s : List UInt8) : Prop := ∀ r ∈ spaceRunes, ¬ r <:+ s

instance (s : List UInt8) : Decidable (CleanBack s) :=
  List.decidableBAll (fun r => ¬ r <:+ s) spaceRunes

theorem CleanBack.nil : CleanBack [] := by
  intro r hr hsuf
  exact ne_nil_of_mem_spaceRunes r hr (List.suffix_nil.mp hsuf)

/-- A suffix that starts before `b`. -/
theorem cons_suffix_of_suffix {before r s : List UInt8} {b : UInt8} (hnot : ¬ r <:+ s)
    (hsuf : r <:+ before ++ b :: s) : b :: s <:+ r := by
  have hs : s <:+ before ++ b :: s := (List.suffix_cons b s).trans (List.suffix_append before _)
  rcases List.suffix_or_suffix_of_suffix hsuf hs with hin | hover
  · exact absurd hin hnot
  · refine List.suffix_of_suffix_length_le (List.suffix_append before _) hsuf ?_
    rcases Nat.lt_or_ge s.length r.length with hlt | hge
    · exact hlt
    · have heq := hover.eq_of_length (Nat.le_antisymm hover.length_le hge)
      exact absurd (heq ▸ List.suffix_rfl) hnot

/-- A graphic byte parts the spaces behind it from what is before it. -/
theorem CleanBack.append {s : List UInt8} (h : CleanBack s) {b : UInt8} (hb : 0x21 ≤ b ∧ b < 0x80)
    (before : List UInt8) : CleanBack (before ++ b :: s) := by
  intro r hr hsuf
  have hmem := cons_suffix_of_suffix (h r hr) hsuf
  exact not_graphic_of_mem r hr b (hmem.subset List.mem_cons_self) hb

/-- The spaces of several bytes have none in ASCII. -/
theorem not_ascii_of_mem : ∀ r ∈ spaceRunes, 2 ≤ r.length → ∀ b ∈ r, ¬ b < 0x80 := by
  simp [spaceRunes]

theorem spaceRune_of_blank {b : UInt8} (h : isBlank b = true) (s : List UInt8) :
    spaceRunes.find? (·.isPrefixOf (b :: s)) = some [b] := by
  simp only [isBlank, decide_eq_true_eq] at h
  rcases h with rfl | rfl <;> rfl

/-- Blanks in front are trimmed. -/
theorem trimSpace_blanks {bs s : List UInt8} (hbs : ∀ b ∈ bs, isBlank b = true) (h : Clean s) :
    trimSpace (bs ++ s) = s := by
  have hleft : ∀ n, bs.length ≤ n → trimRunes spaceRunes n (bs ++ s) = s := by
    induction bs with
    | nil => exact fun n _ => trimRunes_of_clean h.front n
    | cons b bs ih =>
      intro n hn
      rw [List.length_cons] at hn
      obtain ⟨n, rfl⟩ := Nat.exists_eq_add_of_lt (Nat.lt_of_lt_of_le (Nat.succ_pos _) hn)
      rw [Nat.zero_add, List.cons_append, trimRunes,
        spaceRune_of_blank (hbs b List.mem_cons_self)]
      exact ih (fun c hc => hbs c (List.mem_cons_of_mem b hc)) n (by omega)
  have htrim : trimLeft (bs ++ s) = s := hleft _ (by simp)
  have hself : trimLeft s = s := trimRunes_of_clean h.front _
  have hs := trimSpace_of_clean h
  rw [trimSpace, hself] at hs
  rw [trimSpace, htrim, hs]

/-- A byte of ASCII parts the spaces in front of it from what is behind it. -/
theorem not_prefix_append_ascii {s : List UInt8} (h : ∀ r ∈ spaceRunes, ¬ r <+: s) (hne : s ≠ [])
    {b : UInt8} (hb : b < 0x80) (rest : List UInt8) : ∀ r ∈ spaceRunes, ¬ r <+: s ++ b :: rest := by
  intro r hr hpre
  rcases List.prefix_or_prefix_of_prefix hpre (List.prefix_append s (b :: rest)) with hin | hover
  · exact h r hr hin
  · obtain ⟨t, rfl⟩ := hover
    cases t with
    | nil => exact h _ hr (by rw [List.append_nil])
    | cons c t =>
      obtain ⟨rfl, -⟩ := List.cons_prefix_cons.mp ((List.prefix_append_right_inj s).mp hpre)
      have hpos := List.length_pos_iff.mpr hne
      refine not_ascii_of_mem _ hr ?_ c (List.mem_append_right s List.mem_cons_self) hb
      rw [List.length_append, List.length_cons]
      omega

/-- A newline or a blank behind a string is trimmed. -/
theorem trimSpace_snoc {s : List UInt8} (hclean : Clean s) (hne : s ≠ []) {b : UInt8}
    (hb : b = 0x0A ∨ b = 0x20) : trimSpace (s ++ [b]) = s := by
  have hascii : b < 0x80 := by rcases hb with rfl | rfl <;> decide
  have hleft : trimLeft (s ++ [b]) = s ++ [b] :=
    trimRunes_of_clean (not_prefix_append_ascii hclean.front hne hascii []) _
  have hback : ∀ r ∈ spaceRunes.map List.reverse, ¬ r <+: s.reverse := by
    intro r hr hpre
    obtain ⟨r', hr', rfl⟩ := List.mem_map.mp hr
    exact hclean.back r' hr' (List.reverse_prefix.mp hpre)
  have hspace : (spaceRunes.map List.reverse).find? (·.isPrefixOf (b :: s.reverse)) =
      some [b] := by
    rcases hb with rfl | rfl <;> rfl
  have hstep : trimRunes (spaceRunes.map List.reverse) (s.length + 1) (b :: s.reverse) =
      s.reverse := by
    rw [trimRunes, hspace]
    exact trimRunes_of_clean hback _
  rw [trimSpace, hleft, trimRight, List.reverse_append, List.length_append]
  exact (congrArg List.reverse hstep).trans s.reverse_reverse

/-! ## Separators -/

theorem cut_append {sep : UInt8} {s : List UInt8} (h : sep ∉ s) (rest : List UInt8) :
    cut sep (s ++ sep :: rest) = some (s, rest) := by
  have hne : ∀ b ∈ s, decide (b ≠ sep) = true := by
    intro b hb
    rw [decide_eq_true_eq]
    rintro rfl
    exact h hb
  rw [cut, if_pos (by simp), List.takeWhile_append_of_pos hne, List.dropWhile_append_of_pos hne]
  simp

theorem cut_none {sep : UInt8} {s : List UInt8} (h : sep ∉ s) : cut sep s = none := if_neg h

theorem split_intercalate {lines : List (List UInt8)} (h : ∀ line ∈ lines, 0x0A ∉ line)
    (hne : lines ≠ []) : split 0x0A ([0x0A].intercalate lines) = lines :=
  List.splitOn_intercalate 0x0A h hne

/-- A scan of the lines, on which an empty one does nothing. -/
theorem foldl_lines {σ : Type*} {step : σ → List UInt8 → σ} (hempty : ∀ s, step s [] = s)
    {lines : List (List UInt8)} (h : ∀ line ∈ lines, 0x0A ∉ line) (s : σ) :
    (split 0x0A ([0x0A].intercalate lines)).foldl step s = lines.foldl step s := by
  cases lines with
  | nil => exact hempty s
  | cons line lines => rw [split_intercalate h (List.cons_ne_nil line lines)]

/-! ## Words -/

theorem fieldsFrom_ne_nil (word : List UInt8) (skip : Nat) (s : List UInt8) :
    ∀ w ∈ fieldsFrom word skip s, w ≠ [] := by
  fun_induction fieldsFrom word skip s with
  | case1 => simp
  | case2 => simp_all
  | case3 _ _ _ _ ih => exact ih
  | case4 _ _ _ _ ih => exact ih
  | case5 _ _ _ _ ih => exact ih
  | case6 _ _ _ _ _ hne ih => exact List.forall_mem_cons.2 ⟨hne, ih⟩

theorem fields_ne_nil (s : List UInt8) : ∀ w ∈ fields s, w ≠ [] := fieldsFrom_ne_nil [] 0 s

end Rewsr.Go
