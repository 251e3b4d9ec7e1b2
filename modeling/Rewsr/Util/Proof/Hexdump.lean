import Mathlib.Data.List.Basic
import Mathlib.Tactic.IntervalCases
import Rewsr.Util.Hexdump

/-!
# Reading a dump

The columns of a line have its bytes (`lineBytes_hexdumpText`), so the whole dump has those of the
buffer (`hexdump_reads`).
-/

namespace Rewsr.Util

/-! ## Digits -/

/-- The number that a digit stands for. -/
def unhex (c : UInt8) : Option Nat := (ascii "0123456789abcdef").idxOf? c

theorem toNat_and_15 (b : UInt8) : (b &&& 0x0F).toNat = b.toNat % 16 := by
  rw [UInt8.toNat_and]
  exact Nat.and_two_pow_sub_one_eq_mod b.toNat 4

theorem unhex_digit : ∀ d < 16, unhex ((ascii "0123456789abcdef").getD d 0) = some d := by decide

theorem unhex_hexDigit (b : UInt8) : unhex (hexDigit b) = some (b.toNat % 16) := by
  rw [hexDigit, toNat_and_15]
  exact unhex_digit _ (Nat.mod_lt _ (by decide))

/-- A character that a line may have. -/
def Printable (c : UInt8) : Prop := 0x20 ≤ c ∧ c < 0x7F

instance (c : UInt8) : Decidable (Printable c) := inferInstanceAs (Decidable (0x20 ≤ c ∧ c < 0x7F))

theorem printable_digit : ∀ d < 16, Printable ((ascii "0123456789abcdef").getD d 0) := by decide

theorem printable_hexDigit (b : UInt8) : Printable (hexDigit b) := by
  rw [hexDigit, toNat_and_15]
  exact printable_digit _ (Nat.mod_lt _ (by decide))

theorem printable_gutter (c : UInt8) : Printable (gutter c) := by
  rw [gutter]
  split
  · assumption
  · decide

/-! ## Lines -/

theorem length_hexColumns (bytes : List UInt8) : (hexColumns bytes).length = 49 := rfl

theorem length_hexdumpText (offset : Nat) (bytes : List UInt8) :
    (hexdumpText offset bytes).length = 61 + bytes.length := by
  simp only [hexdumpText, List.length_append, List.length_cons, List.length_map,
    length_hexColumns, List.length_nil]
  omega

theorem hexColumns_getElem? (bytes : List UInt8) {i : Nat} (hi : i < 16) :
    (hexColumns bytes)[3 * i + i / 8]? = some (hexHigh bytes[i]?) ∧
      (hexColumns bytes)[3 * i + i / 8 + 1]? = some (hexLow bytes[i]?) := by
  interval_cases i <;> exact ⟨rfl, rfl⟩

/-- The byte in a column. -/
def column (text : List UInt8) (i : Nat) : Option UInt8 := do
  let high ← unhex (← text[10 + (3 * i + i / 8)]?)
  let low ← unhex (← text[10 + (3 * i + i / 8 + 1)]?)
  return UInt8.ofNat (16 * high + low)

/-- The bytes in the columns. -/
def lineBytes (line : List UInt8) : List UInt8 := (List.range 16).filterMap (column line)

theorem hexdumpText_getElem? (offset : Nat) (bytes : List UInt8) {j : Nat} (hj : j < 49) :
    (hexdumpText offset bytes)[10 + j]? = (hexColumns bytes)[j]? := by
  have hlen := length_hexColumns bytes
  rw [hexdumpText, List.append_assoc, List.getElem?_append_right (by simp),
    List.getElem?_append_left (by simp; omega)]
  simp

theorem column_hexdumpText (offset : Nat) (bytes : List UInt8) {i : Nat} (hi : i < 16) :
    column (hexdumpText offset bytes) i = bytes[i]? := by
  obtain ⟨hhigh, hlow⟩ := hexColumns_getElem? bytes hi
  rw [column, hexdumpText_getElem? offset bytes (by omega),
    hexdumpText_getElem? offset bytes (by omega), hhigh, hlow]
  cases bytes[i]? with
  | none => rfl
  | some b =>
    have hshift : (b >>> 4).toNat % 16 = b.toNat / 16 := by
      rw [UInt8.toNat_shiftRight]
      have hlt := b.toNat_lt
      simp only [Nat.shiftRight_eq_div_pow]
      have hfour : (4 : UInt8).toNat % 8 = 4 := rfl
      rw [hfour]
      omega
    have hboth : 16 * (b.toNat / 16) + b.toNat % 16 = b.toNat := Nat.div_add_mod _ _
    simp only [hexHigh, hexLow, unhex_hexDigit, hshift, Option.bind_eq_bind, Option.bind_some,
      hboth, Option.pure_def, UInt8.ofNat_toNat]

theorem filterMap_range_getElem? {α : Type*} (l : List α) (n : Nat) :
    (List.range n).filterMap (fun i => l[i]?) = l.take n := by
  induction n with
  | zero => rfl
  | succ n ih =>
    rw [List.range_succ, List.filterMap_append, ih, List.take_add_one]
    cases h : l[n]? <;> simp [h]

theorem lineBytes_hexdumpText (offset : Nat) {bytes : List UInt8} (h : bytes.length ≤ 16) :
    lineBytes (hexdumpText offset bytes) = bytes := by
  have hcols : (List.range 16).filterMap (column (hexdumpText offset bytes)) =
      (List.range 16).filterMap fun i => bytes[i]? :=
    List.filterMap_congr fun i hi => column_hexdumpText offset bytes (List.mem_range.mp hi)
  rw [lineBytes, hcols, filterMap_range_getElem?, List.take_of_length_le h]

theorem printable_hexdumpText (offset : Nat) (bytes : List UInt8) :
    ∀ c ∈ hexdumpText offset bytes, Printable c := by
  have hhigh : ∀ b, Printable (hexHigh b) := by
    intro b
    cases b with
    | none => decide
    | some b => exact printable_hexDigit _
  have hlow : ∀ b, Printable (hexLow b) := by
    intro b
    cases b with
    | none => decide
    | some b => exact printable_hexDigit _
  have hspace : Printable 0x20 := by decide
  have hbar : Printable 0x7C := by decide
  have hcolumns : ∀ c ∈ hexColumns bytes, Printable c := by
    intro c hc
    obtain ⟨i, -, hc⟩ := List.mem_flatMap.mp hc
    simp only [List.mem_cons] at hc
    rcases hc with rfl | rfl | rfl | hc
    · exact hhigh _
    · exact hlow _
    · exact hspace
    · split at hc
      · exact List.mem_singleton.mp hc ▸ hspace
      · exact absurd hc List.not_mem_nil
  intro c hc
  simp only [hexdumpText, List.mem_append, List.mem_map, List.mem_cons, List.not_mem_nil,
    or_false] at hc
  rcases hc with ((⟨_, -, rfl⟩ | rfl | rfl) | hc) | rfl | ⟨_, -, rfl⟩ | rfl
  · exact printable_hexDigit _
  · exact hspace
  · exact hspace
  · exact hcolumns c hc
  · exact hbar
  · exact printable_gutter _
  · exact hbar

example : hexdumpText 0x12345678 [0x41, 0x01, 0x42] =
    ascii "12345678  41 01 42                                         |A.B|" := by decide

/-- A line and its NUL fit the buffer, and the rest of it stays. -/
theorem hexdumpLine_eq {buf data : List UInt8} (hbuf : hexdumpLineMax ≤ buf.length) (offset : Nat)
    {n : Nat} (hn : min n 16 ≤ data.length) : hexdumpLine buf offset data n =
      some (61 + min n 16,
        hexdumpText offset (data.take (min n 16)) ++ 0 :: buf.drop (62 + min n 16)) := by
  have hmin : (if n > 16 then 16 else n) = min n 16 := by split <;> omega
  have hread : readN data 0 (min n 16) = some (data.take (min n 16)) := by
    rw [readN, if_pos (by omega), List.drop_zero]
  have hlen : (hexdumpText offset (data.take (min n 16))).length = 61 + min n 16 := by
    rw [length_hexdumpText, List.length_take, Nat.min_eq_left hn]
  have hmax : hexdumpLineMax = 80 := rfl
  have hwrite : writeN buf 0 (hexdumpText offset (data.take (min n 16)) ++ [0]) =
      some (hexdumpText offset (data.take (min n 16)) ++ 0 :: buf.drop (62 + min n 16)) := by
    rw [writeN, List.length_append, hlen, List.length_singleton, if_pos (by omega)]
    have hend : 0 + (61 + min n 16 + 1) = 62 + min n 16 := by omega
    rw [hend, List.take_zero, List.nil_append, List.append_assoc, List.singleton_append]
  rw [hexdumpLine]
  simp only [hmin, hread, hwrite, hlen, Option.bind_eq_bind, Option.bind_some, Option.pure_def]

theorem cstr_hexdumpText (offset : Nat) (bytes rest : List UInt8) :
    Sys.cstr (hexdumpText offset bytes ++ 0 :: rest) = hexdumpText offset bytes := by
  have hnul : ∀ c ∈ hexdumpText offset bytes, decide (c ≠ 0) = true := by
    intro c hc
    rw [decide_eq_true_eq]
    rintro rfl
    exact absurd (printable_hexdumpText offset bytes 0 hc) (by decide)
  rw [Sys.cstr, List.takeWhile_append_of_pos hnul]
  simp

/-! ## The dump -/

/-- The bytes that the lines of a dump have. -/
def undump (text : List UInt8) : List UInt8 := (text.splitOn 0x0A).flatMap lineBytes

theorem undump_line {line : List UInt8} (h : 0x0A ∉ line) (rest : List UInt8) :
    undump (line ++ 0x0A :: rest) = lineBytes line ++ undump rest := by
  rw [undump, List.splitOn_append_cons_self_of_not_mem h, List.flatMap_cons, undump]

theorem hexdumpFrom_reads {data : List UInt8} (fuel : Nat) {line : List UInt8} {off : Nat}
    (hline : hexdumpLineMax ≤ line.length) (hfuel : data.length - off < fuel) :
    ∃ text, hexdumpFrom data fuel line off = some text ∧ undump text = data.drop off := by
  induction fuel generalizing line off with
  | zero => exact absurd hfuel (Nat.not_lt_zero _)
  | succ fuel ih =>
    rw [hexdumpFrom]
    by_cases hoff : off < data.length
    · have hmin : (if data.length - off > 16 then 16 else data.length - off) =
          min (data.length - off) 16 := by split <;> omega
      have hn : min (min (data.length - off) 16) 16 ≤ (data.drop off).length := by
        rw [List.length_drop]
        omega
      have hsame : min (min (data.length - off) 16) 16 = min (data.length - off) 16 := by omega
      have hput := hexdumpLine_eq hline off hn
      rw [hsame] at hput
      have htake : (data.drop off).take (min (data.length - off) 16) = (data.drop off).take 16 := by
        rw [← List.length_drop, Nat.min_comm, ← List.take_take, List.take_length]
      rw [htake] at hput
      have hroom : hexdumpLineMax ≤ (hexdumpText off ((data.drop off).take 16) ++
          0 :: line.drop (62 + min (data.length - off) 16)).length := by
        rw [List.length_append, length_hexdumpText, List.length_cons, List.length_drop,
          List.length_take, List.length_drop]
        omega
      obtain ⟨rest, hrest, hread⟩ := @ih _ (off + 16) hroom (by omega)
      refine ⟨hexdumpText off ((data.drop off).take 16) ++ 0x0A :: rest, ?_, ?_⟩
      · simp only [if_pos hoff, hmin, hput, hrest, cstr_hexdumpText, Option.bind_eq_bind,
          Option.bind_some, Option.pure_def]
      · have hnl : (0x0A : UInt8) ∉ hexdumpText off ((data.drop off).take 16) := fun hmem =>
          absurd (printable_hexdumpText _ _ _ hmem) (by decide)
        have hbytes : ((data.drop off).take 16).length ≤ 16 := List.length_take_le _ _
        rw [undump_line hnl, lineBytes_hexdumpText off hbytes, hread, ← List.drop_drop,
          List.take_append_drop]
    · refine ⟨[], if_neg hoff, ?_⟩
      rw [List.drop_eq_nil_of_le (Nat.le_of_not_lt hoff)]
      rfl

/-- **A dump loses nothing.** With room for a line the dump of any buffer is printed without a write
outside of the array, and the columns of its lines are the bytes of the buffer in order. -/
theorem hexdump_reads (data : List UInt8) {line : List UInt8}
    (h : hexdumpLineMax ≤ line.length) :
    ∃ text, hexdump line data = some text ∧ undump text = data :=
  hexdumpFrom_reads (data.length + 1) h (by omega)

/-- Two full lines and one of eight bytes, over an array that holds a bar everywhere. -/
theorem hexdump_reads_forty : ∃ text,
    hexdump (List.replicate 80 0x7C) ((List.range 40).map fun i => UInt8.ofNat (6 * i)) =
      some text ∧
    undump text = (List.range 40).map fun i => UInt8.ofNat (6 * i) :=
  hexdump_reads _ (by decide)

end Rewsr.Util
