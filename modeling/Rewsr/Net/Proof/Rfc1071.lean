import Rewsr.Net.Proof.Checksum
import Rewsr.Net.Wire

/-!
# The checksum of a buffer

Up to 131074 bytes the accumulator holds the plain total of the words
(`cksumPartial_eq`), so that the checksum is that of RFC 1071: the complement of the end-around sum
(`cksum_rfc1071`). Storing a word moves the total by the difference to the word that was there
(`wordSum_setWord`), which is what `cksumUpdate` computes: over any chain of words stored it keeps
up with the checksum computed anew, as long as no buffer is all zero (`cksum_update_chain`).

A sum that is chained through segments of even length is that of all of them in one buffer
(`cksum_segments`).
-/

namespace Rewsr.Net

open OnesComplement Rewsr.Wire

/-! ## The sum -/

section
variable {data : List UInt8} (h : data.length ≤ 131074)
include h

theorem wordSum_lt : wordSum data < 2 ^ 32 := by
  have hle := wordSum_le data
  omega

theorem cksumPartial_eq : (cksumPartial data 0).toNat = wordSum data := by
  rw [cksumPartial_toNat, UInt32.toNat_zero, Nat.zero_add, Nat.mod_eq_of_lt (wordSum_lt h)]

theorem cksum_eq : (cksum data).toNat = 65535 - canon 65536 (wordSum data) := by
  rw [cksum_toNat, Nat.mod_eq_of_lt (wordSum_lt h)]

/-- The accumulator of every stretch of the loop. -/
theorem cksumPartial_take (k : Nat) :
    (cksumPartial (data.take k) 0).toNat = wordSum (data.take k) :=
  cksumPartial_eq (Nat.le_trans (List.length_take_le' k data) h)

end

/-- How often the loop of `cksumFold` runs. -/
def cksumFoldRounds (sum : UInt32) : Nat :=
  if sum >>> 16 ≠ 0 then cksumFoldRounds ((sum &&& (0xffff : UInt32)) + (sum >>> 16)) + 1 else 0
termination_by sum.toNat
decreasing_by exact fold_decreases ‹_›

theorem cksumFoldRounds_eq_zero {sum : UInt32} (h : sum.toNat < 65536) :
    cksumFoldRounds sum = 0 := by
  have hzero : sum >>> 16 = 0 := by
    rw [← UInt32.toNat_inj, toNat_shiftRight16]
    exact Nat.div_eq_of_lt h
  rw [cksumFoldRounds, if_neg (by simp [hzero])]

theorem cksumFoldRounds_le_succ (sum : UInt32) : cksumFoldRounds sum ≤
    cksumFoldRounds ((sum &&& (0xffff : UInt32)) + (sum >>> 16)) + 1 := by
  rw [cksumFoldRounds]
  split
  · exact Nat.le_refl _
  · exact Nat.zero_le _

/-- One round of the loop. -/
theorem round_toNat (sum : UInt32) : ((sum &&& (0xffff : UInt32)) + (sum >>> 16)).toNat =
    sum.toNat % 65536 + sum.toNat / 65536 := by
  have hlt := sum.toNat_lt
  rw [UInt32.toNat_add, toNat_and_ffff, toNat_shiftRight16]
  omega

/-- Two rounds are enough for every accumulator: the first leaves at most one carry. -/
theorem cksumFoldRounds_le_two (sum : UInt32) : cksumFoldRounds sum ≤ 2 := by
  have hlt := sum.toNat_lt
  have hfirst := round_toNat sum
  generalize hs : (sum &&& (0xffff : UInt32)) + (sum >>> 16) = s at hfirst
  have hsecond := round_toNat s
  have hzero : cksumFoldRounds ((s &&& (0xffff : UInt32)) + (s >>> 16)) = 0 :=
    cksumFoldRounds_eq_zero (by omega)
  have h₁ := cksumFoldRounds_le_succ sum
  have h₂ := cksumFoldRounds_le_succ s
  rw [hs] at h₁
  omega

/-! ## Segments -/

/-- The partial sums of segments, each the seed of the next. -/
def cksumChain (segs : List (List UInt8)) (seed : UInt32) : UInt32 :=
  segs.foldl (fun sum seg => cksumPartial seg sum) seed

theorem cksumChain_eq {segs : List (List UInt8)} (h : ∀ seg ∈ segs.dropLast, seg.length % 2 = 0)
    (seed : UInt32) : cksumChain segs seed = cksumPartial segs.flatten seed := by
  induction segs generalizing seed with
  | nil => rfl
  | cons seg segs ih =>
    cases segs with
    | nil => simp [cksumChain]
    | cons next segs =>
      simp only [List.dropLast_cons_cons, List.mem_cons, forall_eq_or_imp] at h
      rw [List.flatten_cons, cksumPartial_append h.1]
      exact ih h.2 _

/-- **Scattered sums compose.** Chained through segments of which at most the last has an odd
length, the sum is that of the segments in one buffer, from every seed. Folded and complemented it
is the buffer's checksum: that of RFC 1071 up to 131074 bytes. -/
theorem cksum_segments {segs : List (List UInt8)}
    (h : ∀ seg ∈ segs.dropLast, seg.length % 2 = 0) :
    (∀ seed, cksumChain segs seed = cksumPartial segs.flatten seed ∧
      cksumFold (cksumChain segs seed) = cksumFold (cksumPartial segs.flatten seed)) ∧
    ~~~ cksumFold (cksumChain segs 0) = cksum segs.flatten ∧
    (segs.flatten.length ≤ 131074 →
      (~~~ cksumFold (cksumChain segs 0)).toNat = 0xffff - onesSum segs.flatten) := by
  refine ⟨fun seed => ?_, ?_, fun hlen => ?_⟩
  · rw [cksumChain_eq h]
    exact ⟨rfl, rfl⟩
  · rw [cksumChain_eq h]
    rfl
  · rw [cksumChain_eq h, onesSum_eq]
    exact cksum_eq hlen

/-- A header of four bytes and a payload of three. -/
theorem cksum_segments_two :
    cksumChain [[0x45, 0x00, 0xab, 0xcd], [0x11, 0x22, 0x33]] 7 =
      cksumPartial [0x45, 0x00, 0xab, 0xcd, 0x11, 0x22, 0x33] 7 ∧
    ~~~ cksumFold (cksumChain [[0x45, 0x00, 0xab, 0xcd], [0x11, 0x22, 0x33]] 0) =
      cksum [0x45, 0x00, 0xab, 0xcd, 0x11, 0x22, 0x33] := by
  have heven : ∀ seg ∈ [[0x45, 0x00, 0xab, 0xcd], [0x11, 0x22, (0x33 : UInt8)]].dropLast,
      seg.length % 2 = 0 := by decide
  obtain ⟨hchain, hcksum, -⟩ := cksum_segments heven
  exact ⟨(hchain 7).1, hcksum⟩

/-! ## Words of a buffer -/

/-- A buffer with the big-endian word `w` stored at byte `k`. -/
def setWord (data : List UInt8) (k : Nat) (w : UInt16) : List UInt8 :=
  (data.set k (w >>> 8).toUInt8).set (k + 1) w.toUInt8

@[simp] theorem length_setWord (data : List UInt8) (k : Nat) (w : UInt16) :
    (setWord data k w).length = data.length := by simp [setWord]

section
variable {data : List UInt8} {k : Nat} (heven : k % 2 = 0) (hin : k + 2 ≤ data.length)
include heven hin

theorem wordSum_setWord (w : UInt16) :
    wordSum (setWord data k w) + be16At data k = wordSum data + w.toNat := by
  have hw := w.toNat_lt
  have hhi : ((w >>> 8).toUInt8).toNat = w.toNat / 256 := by
    simp [UInt16.toNat_shiftRight, Nat.shiftRight_eq_div_pow]
    omega
  have hlo : (w.toUInt8).toNat = w.toNat % 256 := by simp
  have hfirst := wordSum_set data (i := k) (by omega) (w >>> 8).toUInt8
  have hsecond := wordSum_set (data.set k (w >>> 8).toUInt8) (i := k + 1) (by simp; omega) w.toUInt8
  have hkeep : (data.set k (w >>> 8).toUInt8).getD (k + 1) 0 = data.getD (k + 1) 0 := by
    simp [List.getD_eq_getElem?_getD]
  rw [weight, if_pos heven, hhi] at hfirst
  rw [weight, if_neg (by omega), hkeep, hlo] at hsecond
  rw [setWord, be16At, byte, byte]
  omega

end

/-- **The Internet checksum** of every buffer up to 131074 bytes is that of RFC 1071, with no
overflow of the accumulator on the way and at most two rounds of folding. Stored into a field that
was zero before, it makes the checksum of the whole 0. -/
theorem cksum_rfc1071 {data : List UInt8} (h : data.length ≤ 131074) :
    ((cksum data).toNat = 0xffff - onesSum data ∧
      (∀ k, (cksumPartial (data.take k) 0).toNat = wordSum (data.take k)) ∧
      cksumFoldRounds (cksumPartial data 0) ≤ 2) ∧
    ∀ k, k % 2 = 0 → k + 2 ≤ data.length →
      cksum (setWord data k (cksum (setWord data k 0))) = 0 := by
  refine ⟨⟨?_, cksumPartial_take h, cksumFoldRounds_le_two _⟩, fun k heven hin => ?_⟩
  · rw [cksum_eq h, onesSum_eq]
  · have hzero : (setWord data k 0).length ≤ 131074 := by simpa using h
    have hsum := wordSum_setWord heven hin (cksum (setWord data k 0))
    have hsum0 := wordSum_setWord heven hin 0
    have htotal : wordSum (setWord data k (cksum (setWord data k 0))) =
        wordSum (setWord data k 0) + (65535 - canon 65536 (wordSum (setWord data k 0))) := by
      rw [cksum_eq hzero] at hsum
      rw [UInt16.toNat_zero] at hsum0
      omega
    rw [← UInt16.toNat_inj, cksum_eq (by simpa using h), htotal,
      canon_add_complement (b := 65536) (by decide)]
    rfl

/-- An odd buffer, and its checksum stored in the field at byte 2. -/
theorem cksum_rfc1071_five : (cksum [0x45, 0x00, 0xab, 0xcd, 0x11]).toNat = 0xfe31 ∧
    cksum (setWord [0x45, 0x00, 0xab, 0xcd, 0x11] 2
      (cksum (setWord [0x45, 0x00, 0xab, 0xcd, 0x11] 2 0))) = 0 := by
  have hlen : [0x45, 0x00, 0xab, 0xcd, (0x11 : UInt8)].length ≤ 131074 := by decide
  obtain ⟨⟨hsum, -⟩, hstore⟩ := cksum_rfc1071 hlen
  exact ⟨hsum.trans (by decide), hstore 2 (by decide) (by decide)⟩

/-! ## Updates -/

/-- The checksum after a word is stored, from the checksum before. -/
theorem cksumUpdate_setWord {data : List UInt8} (h : data.length ≤ 131074) {k : Nat}
    (heven : k % 2 = 0) (hin : k + 2 ≤ data.length) {w : UInt16}
    (hne : ∃ b ∈ setWord data k w, b ≠ 0) :
    cksumUpdate (cksum data) (UInt16.ofNat (be16At data k)) w = cksum (setWord data k w) := by
  have hm : be16At data k < 65536 := by
    have := (byte data k).toNat_lt
    have := (byte data (k + 1)).toNat_lt
    unfold be16At
    omega
  have hcanon := canon_lt (b := 65536) (by decide) (wordSum data)
  have hpos := wordSum_pos hne
  have hsum := wordSum_setWord heven hin w
  rw [← UInt16.toNat_inj, cksumUpdate_toNat, cksum_eq h, cksum_eq (by simpa using h),
    UInt16.toNat_ofNat_of_lt' hm, show 65535 - (65535 - canon 65536 (wordSum data)) =
      canon 65536 (wordSum data) by omega]
  -- both totals are positive, and they differ by a multiple of 65535
  have hpos' : 0 < canon 65536 (wordSum data) + (65535 - be16At data k) + w.toNat := by
    have hzero := canon_eq_zero (b := 65536) (s := wordSum data)
    omega
  congr 1
  rw [canon_eq_iff hpos' hpos]
  refine Nat.ModEq.add_right_cancel' (be16At data k) ?_
  calc canon 65536 (wordSum data) + (65535 - be16At data k) + w.toNat + be16At data k
      = canon 65536 (wordSum data) + w.toNat + 65535 := by omega
    _ ≡ wordSum data + w.toNat + 0 [MOD 65535] :=
        ((canon_modEq _).add_right _).add (by decide : 65535 ≡ 0 [MOD 65535])
    _ = wordSum (setWord data k w) + be16At data k := by omega

/-- Words that can be stored one after the other: each at an even offset inside the buffer, and no
buffer on the way all zero. -/
def Storable : List UInt8 → List (Nat × UInt16) → Prop
  | _, [] => True
  | data, (k, w) :: ws => (k % 2 = 0 ∧ k + 2 ≤ data.length ∧ ∃ b ∈ setWord data k w, b ≠ 0) ∧
      Storable (setWord data k w) ws

/-- A word stored into a buffer with a checksum that is kept up to date. -/
def storeWord (buf : List UInt8 × UInt16) (kw : Nat × UInt16) : List UInt8 × UInt16 :=
  (setWord buf.1 kw.1 kw.2, cksumUpdate buf.2 (UInt16.ofNat (be16At buf.1 kw.1)) kw.2)

/-- **Updates keep up.** One update gives the checksum of the buffer it leaves, and so does any
chain of updates through buffers that are not all zero. -/
theorem cksum_update_chain {data : List UInt8} (h : data.length ≤ 131074) :
    (∀ k w, k % 2 = 0 → k + 2 ≤ data.length → (∃ b ∈ setWord data k w, b ≠ 0) →
      cksumUpdate (cksum data) (UInt16.ofNat (be16At data k)) w = cksum (setWord data k w)) ∧
    ∀ ws, Storable data ws → ws.foldl storeWord (data, cksum data) =
      (ws.foldl (fun data kw => setWord data kw.1 kw.2) data,
        cksum (ws.foldl (fun data kw => setWord data kw.1 kw.2) data)) := by
  refine ⟨fun k w heven hin hne => cksumUpdate_setWord h heven hin hne, fun ws hws => ?_⟩
  induction ws generalizing data with
  | nil => rfl
  | cons kw ws ih =>
    obtain ⟨k, w⟩ := kw
    obtain ⟨⟨heven, hin, hne⟩, hrest⟩ := hws
    have hstep : storeWord (data, cksum data) (k, w) =
        (setWord data k w, cksum (setWord data k w)) := by
      rw [storeWord, cksumUpdate_setWord h heven hin hne]
    rw [List.foldl_cons, List.foldl_cons, hstep, ih (by simpa using h) hrest]

/-- Two words of a buffer of zeros. -/
theorem cksum_update_chain_two :
    [(0, 0x1234), (2, 0xffff)].foldl storeWord ([0, 0, 0, 0], cksum [0, 0, 0, 0]) =
      ([0x12, 0x34, 0xff, 0xff], cksum [0x12, 0x34, 0xff, 0xff]) := by
  have hlen : [0, 0, 0, (0 : UInt8)].length ≤ 131074 := by decide
  refine (cksum_update_chain hlen).2 [(0, 0x1234), (2, 0xffff)] ?_
  exact ⟨⟨rfl, by decide, 0x12, by decide, by decide⟩, ⟨rfl, by decide, 0xff, by decide, by decide⟩,
    trivial⟩

end Rewsr.Net
