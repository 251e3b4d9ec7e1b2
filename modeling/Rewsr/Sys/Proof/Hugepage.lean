import Rewsr.Go.Proof.Strings
import Rewsr.Probe.Hugepages
import Rewsr.Sys.Hugepage

/-!
# The two readers of the hugepage counters
-/

namespace Rewsr.Sys

open Decimal

/-! ## Comparing strings -/

/-- A string without a byte, as the functions that look for that byte read it. -/
theorem all_ne {b : UInt8} {s : List UInt8} (h : b ∉ s) : ∀ c ∈ s, decide (c ≠ b) = true := by
  intro c hc
  simpa using fun heq : c = b => h (heq ▸ hc)

/-- A key starts the string. -/
theorem strncmp_eq_zero {a key : List UInt8} (h : 0 ∉ key) :
    strncmp a key key.length = 0 ↔ key <+: a := by
  induction key generalizing a with
  | nil => simp [strncmp]
  | cons b key ih =>
    have hb : b ≠ 0 := fun heq => h (heq ▸ List.mem_cons_self)
    have hpos : b.toNat ≠ 0 := mt (UInt8.toNat_inj (b := 0)).mp hb
    cases a with
    | nil => simp [strncmp, deref, Ne.symm hb, hpos]
    | cons c a =>
      by_cases hc : c = b
      · subst hc
        have htail := ih (a := a) fun hmem => h (List.mem_cons_of_mem _ hmem)
        simpa [strncmp, deref, hb] using htail
      · have hdiff : (c.toNat : Int) - b.toNat ≠ 0 := by
          have := mt UInt8.toNat_inj.mp hc
          omega
        simp [strncmp, deref, hc, hdiff, Ne.symm hc]

/-! ## Numbers -/

theorem toUInt64_sub_zero {b : UInt8} (h : isDigit b = true) :
    (b - 0x30).toUInt64 = UInt64.ofNat (b.toNat - 0x30) := by
  simp only [isDigit, decide_eq_true_eq] at h
  have hsub : (b - 0x30).toNat = b.toNat - 0x30 := UInt8.toNat_sub_of_le _ _ h.1
  rw [← UInt64.toNat_inj, UInt8.toNat_toUInt64, hsub, UInt64.toNat_ofNat', Nat.mod_eq_of_lt]
  have := b.toNat_lt
  omega

/-- The loop over the digits computes their value, in 64 bits. -/
theorem kvDigits_eq {ds rest : List UInt8} (hds : IsNumber ds)
    (hrest : rest.head?.all fun b => !isDigit b) (m n : Nat) :
    kvDigits (UInt64.ofNat m) n (ds ++ rest) =
      (UInt64.ofNat (ds.foldl (fun n b => n * 10 + (b.toNat - 0x30)) m), n + ds.length) := by
  induction ds generalizing m n with
  | nil =>
    cases rest with
    | nil => rfl
    | cons b rest =>
      have hb : isDigit b = false := by simpa using hrest
      simp only [isDigit, decide_eq_false_iff_not] at hb
      rw [List.nil_append, kvDigits, if_neg hb]
      rfl
  | cons b ds ih =>
    have hb := hds b List.mem_cons_self
    have hstep : UInt64.ofNat m * 10 + (b - 0x30).toUInt64 =
        UInt64.ofNat (m * 10 + (b.toNat - 0x30)) := by
      rw [toUInt64_sub_zero hb, UInt64.ofNat_add, UInt64.ofNat_mul]
      rfl
    simp only [isDigit, decide_eq_true_eq] at hb
    rw [List.cons_append, kvDigits, if_pos hb, hstep,
      ih fun c hc => hds c (List.mem_cons_of_mem b hc)]
    rw [List.foldl_cons, List.length_cons, Nat.add_right_comm, Nat.add_assoc]

/-! ## Documents -/

/-- The parts of a line of `/proc/meminfo`. -/
structure MeminfoParts where
  key : List UInt8
  blanks : List UInt8
  digits : List UInt8
  /-- whether ` kB` follows the number -/
  unit : Bool

namespace MeminfoParts

/-- What follows the number. -/
def suffix (l : MeminfoParts) : List UInt8 := if l.unit then ascii " kB" else []

def text (l : MeminfoParts) : List UInt8 :=
  l.key ++ 0x3A :: (l.blanks ++ (l.digits ++ l.suffix))

end MeminfoParts

/-- A line of `/proc/meminfo`. -/
structure MeminfoLine extends MeminfoParts where
  key_colon : 0x3A ∉ key
  key_nul : 0 ∉ key
  key_space : ∀ r ∈ Go.spaceRunes, ¬ r <:+: key
  blanks_blank : ∀ b ∈ blanks, isBlank b = true
  digits_ne : digits ≠ []
  digits_number : IsNumber digits
  digits_lt : value digits < 2 ^ 63
  length_le : toMeminfoParts.text.length ≤ 255

namespace MeminfoLine

/-- The last number of a key, or 0. -/
def lastValue (lines : List MeminfoLine) (key : List UInt8) : Nat :=
  ((lines.filter (·.key = key)).getLast?.map fun l => value l.digits).getD 0

theorem lastValue_snoc (lines : List MeminfoLine) (l : MeminfoLine) (key : List UInt8) :
    lastValue (lines ++ [l]) key = if l.key = key then value l.digits else lastValue lines key := by
  by_cases hkey : l.key = key <;> simp [lastValue, hkey]

/-- The values fit 64 bits. -/
theorem lastValue_lt (lines : List MeminfoLine) (key : List UInt8) :
    lastValue lines key < 2 ^ 64 := by
  induction lines using List.reverseRecOn with
  | nil => exact Nat.two_pow_pos 64
  | append_singleton lines l ih =>
    have := l.digits_lt
    rw [lastValue_snoc]
    split <;> omega

/-- The lines, with a final newline or without. -/
def document (lines : List MeminfoLine) (final : Bool) : List UInt8 :=
  if final then lines.flatMap fun l => l.text ++ [0x0A]
  else [0x0A].intercalate (lines.map fun l => l.text)

variable (l : MeminfoLine)

/-- A byte of the line is one of its key or a colon, a blank, a digit or a letter of the unit. -/
theorem mem_text {b : UInt8} (h : b ∈ l.text) :
    b ∈ l.key ∨ (b = 0x09 ∨ 0x20 ≤ b) ∧ b < 0x80 := by
  simp only [MeminfoParts.text, List.mem_append, List.mem_cons] at h
  rcases h with hkey | rfl | hblank | hdigit | hunit
  · exact Or.inl hkey
  · exact Or.inr (by decide)
  · have hb := l.blanks_blank b hblank
    simp only [isBlank, decide_eq_true_eq] at hb
    rcases hb with rfl | rfl
    · exact Or.inr (by decide)
    · exact Or.inr (by decide)
  · obtain ⟨hlo, hhi⟩ := Go.graphic_of_isDigit (l.digits_number b hdigit)
    exact Or.inr ⟨Or.inr (UInt8.le_trans (by decide) hlo), hhi⟩
  · right
    rw [MeminfoParts.suffix] at hunit
    split at hunit
    · have hkb : ascii " kB" = [0x20, 0x6B, 0x42] := rfl
      simp only [hkb, List.mem_cons, List.not_mem_nil, or_false] at hunit
      rcases hunit with rfl | rfl | rfl <;> decide
    · cases hunit

theorem text_newline : 0x0A ∉ l.text := by
  intro h
  rcases l.mem_text h with hkey | hother
  · exact l.key_space [0x0A] (by decide) ((List.singleton_infix_iff _ _).mpr hkey)
  · revert hother
    decide

theorem text_nul : 0 ∉ l.text := by
  intro h
  rcases l.mem_text h with hkey | hother
  · exact l.key_nul hkey
  · revert hother
    decide

theorem unit_not_digit : l.suffix.head?.all fun b => !isDigit b := by
  rw [MeminfoParts.suffix]
  split <;> decide

/-! ## One line -/

theorem takeWhile_text : l.text.takeWhile (· ≠ 0x3A) = l.key := by
  rw [MeminfoParts.text, List.takeWhile_append_of_pos (all_ne l.key_colon)]
  simp

theorem dropWhile_text : l.text.dropWhile (· ≠ 0x3A) =
    0x3A :: (l.blanks ++ (l.digits ++ l.suffix)) := by
  rw [MeminfoParts.text, List.dropWhile_append_of_pos (all_ne l.key_colon)]
  simp

/-- Behind the blanks are the digits. -/
theorem dropWhile_blanks : (l.blanks ++ (l.digits ++ l.suffix)).dropWhile
    (fun b => b = 0x20 ∨ b = 0x09) = l.digits ++ l.suffix := by
  obtain ⟨b, s, heq⟩ := List.exists_cons_of_ne_nil l.digits_ne
  have hb := l.digits_number b (heq ▸ List.mem_cons_self)
  have hdigits : (l.digits ++ l.suffix).dropWhile isBlank = l.digits ++ l.suffix := by
    rw [heq, List.cons_append]
    refine List.dropWhile_cons_of_neg ?_
    simp only [isDigit, decide_eq_true_eq] at hb
    rw [isBlank, decide_eq_true_eq]
    rintro (rfl | rfl)
    · exact absurd hb (by decide)
    · exact absurd hb (by decide)
  exact (List.dropWhile_append_of_pos l.blanks_blank).trans hdigits

/-- `parse_kv_u64` on a line finds the number of its key, and no other key. -/
theorem parseKvU64_text {key : List UInt8} (hcolon : 0x3A ∉ key) (hnul : 0 ∉ key) :
    parseKvU64 l.text key =
      if l.key = key then some (UInt64.ofNat (value l.digits)) else none := by
  rw [parseKvU64]
  by_cases hkey : l.key = key
  · subst hkey
    have hdrop : l.text.drop l.key.length = 0x3A :: (l.blanks ++ (l.digits ++ l.suffix)) :=
      List.drop_left
    have hprefix : l.key <+: l.text := List.prefix_append _ _
    have hlen : l.digits.length ≠ 0 := mt List.length_eq_zero_iff.mp l.digits_ne
    have hdigits := kvDigits_eq l.digits_number l.unit_not_digit 0 0
    rw [Nat.zero_add] at hdigits
    rw [if_neg (by rw [(strncmp_eq_zero hnul).mpr hprefix, hdrop]; simp [deref]), if_pos rfl,
      ← List.drop_drop, hdrop, List.drop_one, List.tail_cons, dropWhile_blanks]
    simp only [show (0 : UInt64) = UInt64.ofNat 0 from rfl, hdigits, if_neg hlen]
    rfl
  · rw [if_neg hkey, if_pos]
    by_contra hboth
    obtain ⟨hcmp, hderef⟩ := not_or.mp hboth
    obtain ⟨rest, hrest⟩ := (strncmp_eq_zero hnul).mp (not_not.mp hcmp)
    rw [← hrest, List.drop_left, not_not] at hderef
    cases rest with
    | nil => cases hderef
    | cons b rest =>
      obtain rfl : b = 0x3A := hderef
      have htake := l.takeWhile_text
      rw [← hrest, List.takeWhile_append_of_pos (all_ne hcolon)] at htake
      exact hkey (by simpa using htake.symm)

/-- The Go reader takes the line's number under its key. -/
theorem cut_text : Go.cut 0x3A l.text = some (l.key, l.blanks ++ (l.digits ++ l.suffix)) := by
  have hmem : 0x3A ∈ l.text := by simp [MeminfoParts.text]
  rw [Go.cut, if_pos hmem, takeWhile_text, dropWhile_text, List.drop_one, List.tail_cons]

theorem graphic_digits : Go.Graphic l.digits :=
  fun b hb => Go.graphic_of_isDigit (l.digits_number b hb)

theorem fields_value :
    ∃ more, Go.fields (l.blanks ++ (l.digits ++ l.suffix)) = l.digits :: more := by
  rw [Go.fields, Go.fieldsFrom_blanks l.blanks_blank, MeminfoParts.suffix]
  split
  · have hkb := Go.fields_append l.graphic_digits l.digits_ne (b := 0x20) (by decide) (ascii "kB")
    exact ⟨_, hkb⟩
  · rw [List.append_nil]
    exact ⟨[], Go.fields_word l.graphic_digits l.digits_ne⟩

theorem trimSpace_key : Go.trimSpace l.key = l.key :=
  Go.trimSpace_of_clean ⟨fun r hr hpre => l.key_space r hr hpre.isInfix,
    fun r hr hsuf => l.key_space r hr hsuf.isInfix⟩

end MeminfoLine

/-! ## What both readers compute -/

/-- The number of the last line so far with each key. -/
structure Counts where
  total : Nat := 0
  free : Nat := 0
  size : Nat := 0

namespace Counts

/-- One line more. -/
def read (c : Counts) (l : MeminfoLine) : Counts :=
  if l.key = ascii "HugePages_Total" then { c with total := value l.digits }
  else if l.key = ascii "HugePages_Free" then { c with free := value l.digits }
  else if l.key = ascii "Hugepagesize" then { c with size := value l.digits }
  else c

/-- As the C reader holds them. -/
def toInfo (c : Counts) : HugepageInfo :=
  ⟨UInt64.ofNat c.total, UInt64.ofNat c.free, UInt64.ofNat c.size⟩

/-- As the Go reader holds them. -/
def toCounters (c : Counts) : Probe.HugepageCounters := ⟨c.total, c.free, c.size⟩

theorem info_readLine (c : Counts) (l : MeminfoLine) :
    c.toInfo.readLine l.text = (c.read l).toInfo := by
  rw [HugepageInfo.readLine, l.parseKvU64_text (by decide) (by decide),
    l.parseKvU64_text (by decide) (by decide), l.parseKvU64_text (by decide) (by decide), read]
  split_ifs <;> rfl

theorem counters_readLine (c : Counts) (l : MeminfoLine) :
    c.toCounters.readLine l.text = (c.read l).toCounters := by
  obtain ⟨more, hfields⟩ := l.fields_value
  rw [Probe.HugepageCounters.readLine, l.cut_text]
  simp only [hfields, Go.atoi_eq l.digits_number l.digits_ne, if_pos l.digits_lt, l.trimSpace_key,
    read]
  split_ifs <;> rfl

/-- The lines of a document and the empty one that may follow. -/
theorem info_lines (c : Counts) (lines : List MeminfoLine) {empty : List (List UInt8)}
    (h : empty = [] ∨ empty = [[]]) :
    (lines.map (fun l => l.text) ++ empty).foldl
      (fun out l => out.readLine (cstr (l.take 255))) c.toInfo = (lines.foldl read c).toInfo := by
  induction lines generalizing c with
  | nil => rcases h with rfl | rfl <;> rfl
  | cons l lines ih =>
    have hline : cstr (l.text.take 255) = l.text := by
      rw [List.take_of_length_le l.length_le, cstr,
        List.takeWhile_eq_self_iff.mpr (all_ne l.text_nul)]
    rw [List.map_cons, List.cons_append, List.foldl_cons, hline, info_readLine]
    exact ih (c.read l)

theorem counters_lines (c : Counts) (lines : List MeminfoLine) {empty : List (List UInt8)}
    (h : empty = [] ∨ empty = [[]]) :
    (lines.map (fun l => l.text) ++ empty).foldl Probe.HugepageCounters.readLine c.toCounters =
      (lines.foldl read c).toCounters := by
  induction lines generalizing c with
  | nil => rcases h with rfl | rfl <;> rfl
  | cons l lines ih =>
    rw [List.map_cons, List.cons_append, List.foldl_cons, counters_readLine]
    exact ih (c.read l)

/-- The counts after some lines are the last values. -/
theorem foldl_read (lines : List MeminfoLine) :
    (lines.foldl read {}).total = MeminfoLine.lastValue lines (ascii "HugePages_Total") ∧
      (lines.foldl read {}).free = MeminfoLine.lastValue lines (ascii "HugePages_Free") ∧
      (lines.foldl read {}).size = MeminfoLine.lastValue lines (ascii "Hugepagesize") := by
  induction lines using List.reverseRecOn with
  | nil => exact ⟨rfl, rfl, rfl⟩
  | append_singleton lines l ih =>
    obtain ⟨htotal, hfree, hsize⟩ := ih
    simp only [List.foldl_append, List.foldl_cons, List.foldl_nil, MeminfoLine.lastValue_snoc,
      ← htotal, ← hfree, ← hsize]
    generalize lines.foldl read {} = c
    have hkeys : ascii "HugePages_Free" ≠ ascii "HugePages_Total" ∧
        ascii "Hugepagesize" ≠ ascii "HugePages_Total" ∧
        ascii "Hugepagesize" ≠ ascii "HugePages_Free" := by decide
    rw [read]
    by_cases ht : l.key = ascii "HugePages_Total"
    · simp [ht, hkeys.1.symm, hkeys.2.1.symm]
    by_cases hf : l.key = ascii "HugePages_Free"
    · simp [hf, hkeys.1, hkeys.2.2.symm]
    by_cases hs : l.key = ascii "Hugepagesize"
    · simp [hs, hkeys.2.1, hkeys.2.2]
    · simp [ht, hf, hs]

end Counts

/-! ## The scan for lines -/

theorem copyLine_eq {buf rest line : List UInt8} {start : Nat}
    (hbuf : buf.drop start = line ++ rest) :
    copyLine buf start (start + line.length) = cstr (line.take 255) := by
  rw [copyLine, hbuf, Nat.add_sub_cancel_left]
  have hsize : lineSize = 256 := rfl
  by_cases hlong : line.length ≥ lineSize
  · simp only [if_pos hlong]
    rw [List.take_append_of_le_length (by omega)]
    rfl
  · simp only [if_neg hlong]
    rw [List.take_left, List.take_of_length_le (by omega)]

/-- The loop reads the lines, each up to its 255th byte. -/
theorem meminfoFrom_eq {buf rest line : List UInt8} {start : Nat}
    (hbuf : buf.drop start = line ++ rest) (hline : 0x0A ∉ line) (out : HugepageInfo) :
    meminfoFrom buf start out (start + line.length) rest =
      ((line ++ rest).splitOn 0x0A).foldl (fun out l => out.readLine (cstr (l.take 255))) out := by
  induction rest generalizing start line out with
  | nil =>
    rw [meminfoFrom, copyLine_eq hbuf, List.append_nil, List.splitOn_eq_singleton hline]
    rfl
  | cons b rest ih =>
    rw [meminfoFrom]
    by_cases hb : b = 0x0A
    · subst hb
      have hnext : buf.drop (start + line.length + 1) = [] ++ rest := by
        rw [Nat.add_assoc, ← List.drop_drop, hbuf, List.drop_length_add_append]
        rfl
      rw [if_pos rfl, copyLine_eq hbuf, List.splitOn_append_cons_self_of_not_mem hline]
      exact ih hnext (by simp) _
    · have hnext : buf.drop start = (line ++ [b]) ++ rest := by rw [hbuf, List.append_cons]
      have hmem : 0x0A ∉ line ++ [b] := by simp [hline, Ne.symm hb]
      have hlen : start + line.length + 1 = start + (line ++ [b]).length := by
        rw [List.length_append, List.length_singleton, Nat.add_assoc]
      rw [if_neg hb, hlen, ih hnext hmem out, ← List.append_cons]

/-! ## Documents -/

/-- The lines of a document; a final newline leaves an empty one behind. -/
theorem MeminfoLine.split_document (lines : List MeminfoLine) (final : Bool) :
    ∃ empty : List (List UInt8), (empty = [] ∨ empty = [[]]) ∧
      (document lines final).splitOn 0x0A = lines.map (fun l => l.text) ++ empty := by
  have hnl : ∀ l ∈ lines.map (fun l => l.text), 0x0A ∉ l := by
    intro text hmem
    obtain ⟨l, -, rfl⟩ := List.mem_map.mp hmem
    exact l.text_newline
  cases final with
  | true =>
    refine ⟨[[]], Or.inr rfl, ?_⟩
    clear hnl
    induction lines with
    | nil => rfl
    | cons l lines ih =>
      have hdoc : document (l :: lines) true = l.text ++ 0x0A :: document lines true := by
        simp [document]
      rw [hdoc, List.splitOn_append_cons_self_of_not_mem l.text_newline, ih]
      rfl
  | false =>
    rw [document, if_neg (by decide)]
    cases lines with
    | nil => exact ⟨[[]], by simp, rfl⟩
    | cons l lines =>
      exact ⟨[], by simp, by rw [List.append_nil]; exact List.splitOn_intercalate _ hnl (by simp)⟩

/-- **The C reader and the Go reader find the same counters**, the last number of each key. -/
theorem meminfo_agree (lines : List MeminfoLine) (final : Bool) (out : HugepageInfo) :
    ∃ info, hugepageParseMeminfo (some (MeminfoLine.document lines final)) out = (0, info) ∧
      (info.totalPages.toNat = MeminfoLine.lastValue lines (ascii "HugePages_Total") ∧
        info.freePages.toNat = MeminfoLine.lastValue lines (ascii "HugePages_Free") ∧
        info.pageSizeKb.toNat = MeminfoLine.lastValue lines (ascii "Hugepagesize")) ∧
      Probe.parseMeminfoHugepages (MeminfoLine.document lines final) =
        ⟨info.totalPages.toNat, info.freePages.toNat, info.pageSizeKb.toNat⟩ := by
  obtain ⟨empty, hempty, hsplit⟩ := MeminfoLine.split_document lines final
  have hinfo := Counts.info_lines {} lines hempty
  have hcounters := Counts.counters_lines {} lines hempty
  obtain ⟨htotal, hfree, hsize⟩ := Counts.foldl_read lines
  have hscan : hugepageParseMeminfo (some (MeminfoLine.document lines final)) out =
      (0, (lines.foldl Counts.read {}).toInfo) := by
    rw [← hinfo, ← hsplit, hugepageParseMeminfo]
    exact congrArg _ (@meminfoFrom_eq _ _ [] 0 rfl (by simp) {})
  have hwords : ∀ key, (UInt64.ofNat (MeminfoLine.lastValue lines key)).toNat =
      MeminfoLine.lastValue lines key :=
    fun key => UInt64.toNat_ofNat_of_lt (MeminfoLine.lastValue_lt lines key)
  refine ⟨_, hscan, ?_, ?_⟩
  · simp only [Counts.toInfo, htotal, hfree, hsize, hwords, and_self]
  · simp only [Counts.toInfo, htotal, hfree, hsize, hwords]
    rw [Probe.parseMeminfoHugepages, Go.split, hsplit, ← htotal, ← hfree, ← hsize]
    exact hcounters

/-- Five lines: two with the total, and one whose key neither reader looks for. -/
def sampleLines : List MeminfoLine :=
  [{ key := ascii "HugePages_Total", blanks := ascii "       ", digits := ascii "8", unit := false
     key_colon := by decide, key_nul := by decide, key_space := by decide
     blanks_blank := List.all_eq_true.1 (by decide), digits_ne := by decide
     digits_number := List.all_eq_true.1 (by decide), digits_lt := by decide
     length_le := by decide },
   { key := ascii "HugePages_Free", blanks := ascii " \t", digits := ascii "3", unit := false
     key_colon := by decide, key_nul := by decide, key_space := by decide
     blanks_blank := List.all_eq_true.1 (by decide), digits_ne := by decide
     digits_number := List.all_eq_true.1 (by decide), digits_lt := by decide
     length_le := by decide },
   { key := ascii "DirectMap4k", blanks := ascii "    ", digits := ascii "264876", unit := true
     key_colon := by decide, key_nul := by decide, key_space := by decide
     blanks_blank := List.all_eq_true.1 (by decide), digits_ne := by decide
     digits_number := List.all_eq_true.1 (by decide), digits_lt := by decide
     length_le := by decide },
   { key := ascii "HugePages_Total", blanks := ascii "", digits := ascii "16", unit := false
     key_colon := by decide, key_nul := by decide, key_space := by decide
     blanks_blank := List.all_eq_true.1 (by decide), digits_ne := by decide
     digits_number := List.all_eq_true.1 (by decide), digits_lt := by decide
     length_le := by decide },
   { key := ascii "Hugepagesize", blanks := ascii "       ", digits := ascii "2048", unit := true
     key_colon := by decide, key_nul := by decide, key_space := by decide
     blanks_blank := List.all_eq_true.1 (by decide), digits_ne := by decide
     digits_number := List.all_eq_true.1 (by decide), digits_lt := by decide
     length_le := by decide }]

/-- Both readers on these lines take the second total. -/
theorem meminfo_agree_sample : ∃ info,
    hugepageParseMeminfo (some (MeminfoLine.document sampleLines true)) ⟨0, 0, 0⟩ = (0, info) ∧
      (info.totalPages.toNat = 16 ∧ info.freePages.toNat = 3 ∧ info.pageSizeKb.toNat = 2048) ∧
      Probe.parseMeminfoHugepages (MeminfoLine.document sampleLines true) = ⟨16, 3, 2048⟩ := by
  obtain ⟨info, hscan, ⟨htotal, hfree, hsize⟩, hgo⟩ := meminfo_agree sampleLines true ⟨0, 0, 0⟩
  have h16 : info.totalPages.toNat = 16 := htotal.trans (by decide)
  have h3 : info.freePages.toNat = 3 := hfree.trans (by decide)
  have h2048 : info.pageSizeKb.toNat = 2048 := hsize.trans (by decide)
  refine ⟨info, hscan, ⟨h16, h3, h2048⟩, ?_⟩
  rw [hgo, h16, h3, h2048]
  rfl

end Rewsr.Sys
