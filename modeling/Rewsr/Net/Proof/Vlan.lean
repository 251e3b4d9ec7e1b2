import Rewsr.Net.Proof.ByteOrder
import Rewsr.Net.Vlan

/-!
# Tags are put on and taken off a frame

A buffer that holds a tagged frame is `macs ++ (tag tci ++ (rest ++ spare))`: twelve bytes of
addresses, the tag, the rest of the frame and what the buffer has left. `vlanInsert_append` and
`vlanStrip_append` say what the two functions do to buffers of that form, and `tagged_or_not` that
every buffer has it or is left alone.

`vlan_round_trip` puts together what follows. A stack of any number of tags comes off as it went on.
Stripping a frame and inserting the tag again restores it, and stripping does what reading says,
exactly as long as the length fits the `int` that is returned.
-/

namespace Rewsr.Net

/-! ## Lengths -/

/-- The conversion of an `int` to a `size_t`. -/
def toSize (i : Int) : Nat := (i % 2 ^ 64).toNat

theorem toInt_lt (n : Nat) : toInt n < 2 ^ 31 := Int.bmod_lt (by decide)

/-- A length is returned as it is exactly if it fits an `int`. -/
theorem toInt_eq_iff {n : Nat} : toInt n = n ↔ n < 2 ^ 31 := by
  constructor
  · intro h
    have hlt := toInt_lt n
    omega
  · exact toInt_of_lt

theorem toSize_toInt {n : Nat} (h : n < 2 ^ 31) : toSize (toInt n) = n := by
  rw [toInt_of_lt h, toSize]
  omega

/-! ## The bytes of a tag -/

def tag (tci : UInt16) : List UInt8 := [0x81, 0x00, (tci >>> 8).toUInt8, tci.toUInt8]

@[simp] theorem length_tag (tci : UInt16) : (tag tci).length = 4 := rfl

theorem vlanTci_fields (pcp : UInt8) (dei : Int) (vid : UInt16) :
    vlanPcp (vlanTci pcp dei vid) = pcp &&& (0x7 : UInt8) ∧
    vlanDei (vlanTci pcp dei vid) = (if dei ≠ 0 then 1 else 0) ∧
    vlanVid (vlanTci pcp dei vid) = vid &&& (0x0fff : UInt16) := by
  have hbit : ∀ x : UInt16, (x >>> 12) &&& 1 = if x.toBitVec.getLsbD 12 then 1 else 0 := by
    intro x
    apply UInt16.toBitVec_inj.1
    ext i hi
    simp
    interval_cases i <;> split <;> simp_all
  refine ⟨?_, ?_, ?_⟩
  · unfold vlanPcp vlanTci
    apply UInt8.toBitVec_inj.1
    split <;> simp <;> ext i hi <;> simp <;> interval_cases i <;> simp
  · rw [vlanDei, hbit, vlanTci]
    by_cases hd : dei = 0 <;> simp [hd]
  · unfold vlanVid vlanTci
    apply UInt16.toBitVec_inj.1
    split <;> simp <;> ext i hi <;> simp <;> interval_cases i <;> simp

theorem load16_eq_8100 {a b : UInt8} (h : Endian.big.load16 a b = 0x8100) : a = 0x81 ∧ b = 0 := by
  have ha := a.toNat_lt
  have hb := b.toNat_lt
  have hnat := congrArg UInt16.toNat h
  rw [load16_big_toNat] at hnat
  change 256 * a.toNat + b.toNat = 0x8100 at hnat
  constructor
  · apply UInt8.toNat_inj.1
    change a.toNat = 0x81
    omega
  · apply UInt8.toNat_inj.1
    change b.toNat = 0
    omega

theorem tag_load16 (a b : UInt8) : tag (Endian.big.load16 a b) = [0x81, 0x00, a, b] := by
  have ha := a.toNat_lt
  have hb := b.toNat_lt
  have hhi : (Endian.big.load16 a b >>> 8).toUInt8 = a := by
    apply UInt8.toNat_inj.1
    rw [UInt16.toNat_toUInt8, UInt16.toNat_shiftRight, load16_big_toNat]
    simp only [UInt16.reduceToNat, Nat.shiftRight_eq_div_pow, Nat.reduceMod]
    omega
  have hlo : (Endian.big.load16 a b).toUInt8 = b := by
    apply UInt8.toNat_inj.1
    rw [UInt16.toNat_toUInt8, load16_big_toNat]
    omega
  rw [tag, hhi, hlo]

/-! ## The functions on a buffer -/

theorem readWord_append {as cs : List UInt8} {a b : UInt8} {i : Nat} (hi : as.length = i) :
    readWord (as ++ a :: b :: cs) i = some (Endian.big.load16 a b) := by
  subst hi
  simp [readWord, read8, Endian.load16]

/-- A stretch moved to the right. -/
theorem memmove_right (as bs : List UInt8) {cs : List UInt8} {k : Nat} (hk : k ≤ cs.length) :
    memmove (as ++ (bs ++ cs)) (as.length + k) as.length bs.length =
      some (as ++ ((bs ++ cs).take k ++ (bs ++ cs.drop k))) := by
  have hdrop : (as ++ (bs ++ cs)).drop (as.length + k + bs.length) = cs.drop k := by
    rw [Nat.add_assoc, Nat.add_comm k, List.drop_length_add_append, List.drop_length_add_append]
  rw [memmove, readN_append rfl rfl, Option.bind_some, writeN,
    if_pos (by simp only [List.length_append]; omega), List.take_length_add_append, hdrop]
  simp only [List.append_assoc]

/-- A stretch moved to the left, over `ds`. -/
theorem memmove_left (as ds bs cs : List UInt8) :
    memmove (as ++ (ds ++ (bs ++ cs))) as.length (as.length + ds.length) bs.length =
      some (as ++ (bs ++ (ds ++ (bs ++ cs)).drop bs.length)) := by
  have hsplit : as ++ (ds ++ (bs ++ cs)) = (as ++ ds) ++ (bs ++ cs) := by simp
  have hread : readN (as ++ (ds ++ (bs ++ cs))) (as.length + ds.length) bs.length = some bs := by
    rw [hsplit, readN_append (by simp) rfl]
  rw [memmove, hread, Option.bind_some, writeN,
    if_pos (by simp only [List.length_append]; omega), List.take_left, List.drop_length_add_append]
  simp only [List.append_assoc]

section
variable {macs rest spare : List UInt8} (hm : macs.length = 12)
include hm

theorem vlanIsTagged_append {a b : UInt8} {cs : List UInt8} {len : Nat} (h : 14 ≤ len) :
    vlanIsTagged (macs ++ a :: b :: cs) len = some (Endian.big.load16 a b == 0x8100) := by
  have hword : readWord (macs ++ a :: b :: cs) vlanTpidOff = some (Endian.big.load16 a b) :=
    readWord_append hm
  rw [vlanIsTagged, if_neg (by unfold ethHlen; omega), hword]
  rfl

theorem vlanIsTagged_tag (tci : UInt16) {len : Nat} (h : 14 ≤ len) :
    vlanIsTagged (macs ++ (tag tci ++ spare)) len = some true := by
  rw [tag, List.cons_append, List.cons_append, vlanIsTagged_append hm h]
  rfl

theorem storeTci_tag (tci : UInt16) (tciOut : Option UInt16) :
    storeTci (macs ++ (tag tci ++ spare)) tciOut = some (tciOut.map fun _ => tci) := by
  cases tciOut with
  | none => rfl
  | some t =>
    have hsplit : macs ++ (tag tci ++ spare) =
        (macs ++ [(0x81 : UInt8), 0x00]) ++ (tci >>> 8).toUInt8 :: tci.toUInt8 :: spare := by
      simp [tag]
    rw [storeTci, hsplit, readWord_append (by simp [hm, vlanTciOff]), load16_be16]
    rfl

theorem vlanInsert_append (hr : 2 ≤ rest.length) (hs : 4 ≤ spare.length)
    (hlt : 16 + rest.length < 2 ^ 64) (tci : UInt16) :
    vlanInsert (macs ++ (rest ++ spare)) (12 + rest.length) tci =
      some (toInt (16 + rest.length), macs ++ (tag tci ++ (rest ++ spare.drop 4))) := by
  have hsize : (12 + rest.length + vlanTagLen) % sizeMod = 16 + rest.length := by
    unfold vlanTagLen sizeMod
    omega
  have hmove : memmove (macs ++ (rest ++ spare)) (vlanTpidOff + vlanTagLen) vlanTpidOff
      (12 + rest.length - vlanTpidOff) =
        some (macs ++ ((rest ++ spare).take 4 ++ (rest ++ spare.drop 4))) := by
    have hright := memmove_right macs rest hs
    rw [hm] at hright
    rw [vlanTpidOff, vlanTagLen, Nat.add_sub_cancel_left]
    exact hright
  have hstore : writeN (macs ++ ((rest ++ spare).take 4 ++ (rest ++ spare.drop 4))) vlanTpidOff
      [(ethP8021Q >>> 8).toUInt8, ethP8021Q.toUInt8, (tci >>> 8).toUInt8, tci.toUInt8] =
        some (macs ++ (tag tci ++ (rest ++ spare.drop 4))) := by
    rw [writeN_append (by rw [hm]; rfl) (by simp; omega)]
    rfl
  rw [vlanInsert, hsize, if_neg (by simp [hm, ethHlen]; omega)]
  simp only [hmove, Option.bind_eq_bind, Option.bind_some, hstore]
  rfl

theorem vlanStrip_append (hr : 2 ≤ rest.length) (tci : UInt16) (tciOut : Option UInt16) :
    vlanStrip (macs ++ (tag tci ++ (rest ++ spare))) (16 + rest.length) tciOut =
      some (toInt (12 + rest.length),
        macs ++ (rest ++ (tag tci ++ (rest ++ spare)).drop rest.length),
        tciOut.map fun _ => tci) := by
  have hmove : memmove (macs ++ (tag tci ++ (rest ++ spare))) vlanTpidOff
      (vlanTpidOff + vlanTagLen) (16 + rest.length - (vlanTpidOff + vlanTagLen)) =
        some (macs ++ (rest ++ (tag tci ++ (rest ++ spare)).drop rest.length)) := by
    have hleft := memmove_left macs (tag tci) rest spare
    rw [hm, length_tag] at hleft
    rw [vlanTpidOff, vlanTagLen, Nat.add_sub_cancel_left]
    exact hleft
  have hlen : 16 + rest.length - vlanTagLen = 12 + rest.length := by
    unfold vlanTagLen
    omega
  have hlong : ¬ 16 + rest.length < ethHlen + vlanTagLen := by
    unfold ethHlen vlanTagLen
    omega
  rw [vlanStrip, vlanIsTagged_tag hm tci (by omega), storeTci_tag hm, hlen]
  simp [hlong, hmove]

theorem vlanRead_append (hr : 2 ≤ rest.length) (tci : UInt16) (tciOut : Option UInt16) :
    vlanRead (macs ++ (tag tci ++ (rest ++ spare))) (16 + rest.length) tciOut =
      some (0, tciOut.map fun _ => tci) := by
  have hlong : ¬ 16 + rest.length < ethHlen + vlanTagLen := by
    unfold ethHlen vlanTagLen
    omega
  rw [vlanRead, vlanIsTagged_tag hm tci (by omega), storeTci_tag hm]
  simp [hlong]

end

/-- A frame that is not tagged, or too short for a tag. -/
theorem untagged {buf : List UInt8} {len : Nat} {b : Bool} (htag : vlanIsTagged buf len = some b)
    (h : b = false ∨ len < 18) (tciOut : Option UInt16) :
    vlanRead buf len tciOut = some (-1, tciOut) ∧
      vlanStrip buf len tciOut = some (toInt len, buf, tciOut) := by
  rw [vlanRead, vlanStrip, htag]
  rcases h with rfl | hshort
  · simp
  · simp [ethHlen, vlanTagLen, hshort]

/-- Every frame carries a tag and two more bytes, or is left alone. -/
theorem tagged_or_not {buf : List UInt8} {len : Nat} (hlen : len ≤ buf.length) :
    (∃ macs tci rest spare, buf = macs ++ (tag tci ++ (rest ++ spare)) ∧ macs.length = 12 ∧
      2 ≤ rest.length ∧ len = 16 + rest.length) ∨
    ((vlanIsTagged buf len = some false ∨ len < 18) ∧
      ∀ tciOut, vlanRead buf len tciOut = some (-1, tciOut) ∧
        vlanStrip buf len tciOut = some (toInt len, buf, tciOut)) := by
  by_cases h14 : len < 14
  · have htag : vlanIsTagged buf len = some false := by
      rw [vlanIsTagged, ethHlen, if_pos h14]
    exact .inr ⟨.inl htag, untagged htag (.inl rfl)⟩
  · obtain ⟨macs, a, b, cs, rfl, hm⟩ : ∃ macs a b cs, buf = macs ++ a :: b :: cs ∧
        macs.length = 12 := by
      refine ⟨buf.take 12, buf[12], buf[13], buf.drop 14, ?_, by simp; omega⟩
      rw [List.getElem_cons_drop, List.getElem_cons_drop, List.take_append_drop]
    have htag : vlanIsTagged (macs ++ a :: b :: cs) len = some (Endian.big.load16 a b == 0x8100) :=
      vlanIsTagged_append hm (Nat.le_of_not_lt h14)
    by_cases h18 : len < 18
    · exact .inr ⟨.inr h18, untagged htag (.inr h18)⟩
    by_cases htpid : Endian.big.load16 a b = 0x8100
    · obtain ⟨rfl, rfl⟩ := load16_eq_8100 htpid
      rw [List.length_append, List.length_cons, List.length_cons, hm] at hlen
      match cs with
      | c :: d :: more =>
        rw [List.length_cons, List.length_cons] at hlen
        refine .inl ⟨macs, Endian.big.load16 c d, more.take (len - 16), more.drop (len - 16), ?_,
          hm, by simp; omega, by simp; omega⟩
        rw [tag_load16, List.take_append_drop]
        rfl
      | [_] => simp at hlen; omega
      | [] => simp at hlen; omega
    · have hfalse : (Endian.big.load16 a b == 0x8100) = false := by simpa using htpid
      rw [hfalse] at htag
      exact .inr ⟨.inl htag, untagged htag (.inl rfl)⟩

/-! ## Stacks of tags -/

/-- A caller that puts tags on one after the other, each time with the length returned. -/
def vlanInsertAll (buf : List UInt8) (len : Nat) : List UInt16 → Option (Nat × List UInt8)
  | [] => some (len, buf)
  | tci :: tcis => do
    let (r, buf) ← vlanInsert buf len tci
    vlanInsertAll buf (toSize r) tcis

/-- A caller that takes `n` tags off, and the TCIs it gets. -/
def vlanStripAll (buf : List UInt8) (len : Nat) : Nat → Option (Nat × List UInt8 × List UInt16)
  | 0 => some (len, buf, [])
  | n + 1 => do
    let (r, buf, tciOut) ← vlanStrip buf len (some 0)
    let (len, buf, tcis) ← vlanStripAll buf (toSize r) n
    return (len, buf, tciOut.getD 0 :: tcis)

/-- The bytes of a stack of tags, the outermost first. -/
def tags (tcis : List UInt16) : List UInt8 := tcis.flatMap tag

@[simp] theorem length_tags (tcis : List UInt16) : (tags tcis).length = 4 * tcis.length := by
  induction tcis with
  | nil => rfl
  | cons tci tcis ih =>
    rw [tags, List.flatMap_cons, List.length_append, length_tag, ← tags, ih, List.length_cons]
    omega

theorem vlanInsertAll_append {macs rest spare : List UInt8} (hm : macs.length = 12)
    (hr : 2 ≤ rest.length) (tcis : List UInt16) (hs : 4 * tcis.length ≤ spare.length)
    (hmax : 12 + rest.length + 4 * tcis.length < 2 ^ 31) :
    vlanInsertAll (macs ++ (rest ++ spare)) (12 + rest.length) tcis =
      some (12 + rest.length + 4 * tcis.length,
        macs ++ (tags tcis.reverse ++ (rest ++ spare.drop (4 * tcis.length)))) := by
  induction tcis generalizing rest spare with
  | nil => rfl
  | cons tci tcis ih =>
    rw [List.length_cons] at hs hmax
    have hlen : 16 + rest.length = 12 + (tag tci ++ rest).length := by
      rw [List.length_append, length_tag]
      omega
    have hrec := @ih (tag tci ++ rest) (spare.drop 4) (by simp; omega) (by simp; omega)
      (by simp; omega)
    rw [vlanInsertAll, vlanInsert_append hm hr (by omega) (by omega)]
    simp only [Option.bind_eq_bind, Option.bind_some]
    rw [toSize_toInt (by omega), hlen, ← List.append_assoc (tag tci), hrec]
    refine congrArg some (Prod.ext ?_ ?_)
    · simp only [List.length_append, length_tag, List.length_cons]
      omega
    · simp [tags, Nat.mul_add, Nat.add_comm]

theorem vlanStripAll_append {macs rest spare : List UInt8} (hm : macs.length = 12)
    (hr : 2 ≤ rest.length) (tcis : List UInt16) {k : Nat} (hk : k ≤ tcis.length)
    (hmax : 12 + rest.length + 4 * tcis.length < 2 ^ 31) :
    ∃ spare', vlanStripAll (macs ++ (tags tcis ++ (rest ++ spare)))
        (12 + rest.length + 4 * tcis.length) k =
      some (12 + rest.length + 4 * (tcis.length - k),
        macs ++ (tags (tcis.drop k) ++ (rest ++ spare')), tcis.take k) := by
  induction k generalizing tcis spare with
  | zero => exact ⟨spare, by simp [vlanStripAll]⟩
  | succ k ih =>
    match tcis with
    | [] => simp at hk
    | tci :: tcis =>
      rw [List.length_cons] at hk hmax
      have hbuf : macs ++ (tags (tci :: tcis) ++ (rest ++ spare)) =
          macs ++ (tag tci ++ ((tags tcis ++ rest) ++ spare)) := by simp [tags]
      have hlen : 12 + rest.length + 4 * (tcis.length + 1) =
          16 + (tags tcis ++ rest).length := by
        rw [List.length_append, length_tags]
        omega
      have hlen' : 12 + (tags tcis ++ rest).length = 12 + rest.length + 4 * tcis.length := by
        rw [List.length_append, length_tags]
        omega
      obtain ⟨spare', hrec⟩ := @ih
        ((tag tci ++ ((tags tcis ++ rest) ++ spare)).drop (tags tcis ++ rest).length) tcis
        (by omega) (by omega)
      refine ⟨spare', ?_⟩
      rw [List.length_cons, hbuf, hlen, vlanStripAll, vlanStrip_append hm (by simp; omega)]
      simp only [Option.bind_eq_bind, Option.bind_some]
      rw [toSize_toInt (by rw [hlen']; omega), hlen', List.append_assoc (tags tcis), hrec]
      simp

/-! ## The properties -/

/-- All the tags go on, come off in reverse and leave the frame as it was, the addresses untouched
after every call. -/
def TagStack (frame spare : List UInt8) (tcis : List UInt16) : Prop :=
  (∀ k ≤ tcis.length, ∃ buf, vlanInsertAll (frame ++ spare) frame.length (tcis.take k) =
      some (frame.length + 4 * k, buf) ∧ buf.take 12 = frame.take 12) ∧
  ∃ buf, vlanInsertAll (frame ++ spare) frame.length tcis =
      some (frame.length + 4 * tcis.length, buf) ∧
    (∀ k ≤ tcis.length, ∃ buf' tcis', vlanStripAll buf (frame.length + 4 * tcis.length) k =
      some (frame.length + 4 * (tcis.length - k), buf', tcis') ∧ buf'.take 12 = frame.take 12) ∧
    ∃ buf', vlanStripAll buf (frame.length + 4 * tcis.length) tcis.length =
      some (frame.length, buf', tcis.reverse) ∧ buf'.take frame.length = frame

/-- A tag that is taken off and put on again, with the lengths returned, restores the buffer. -/
def StripInsert (buf : List UInt8) (len : Nat) : Prop :=
  ∃ r buf' tci r' buf'', vlanStrip buf len (some 0) = some (r, buf', some tci) ∧
    vlanInsert buf' (toSize r) tci = some (r', buf'') ∧ r' = len ∧ buf'' = buf

/-- Stripping takes the tag off and returns its TCI where reading finds one, and leaves the length,
the bytes and `tci_out` alone where it does not. -/
def StripExact (buf : List UInt8) (len : Nat) (tciOut : Option UInt16) : Prop :=
  ∃ rc read r buf' stripped, vlanRead buf len tciOut = some (rc, read) ∧
    vlanStrip buf len tciOut = some (r, buf', stripped) ∧
    ((rc = 0 ∧ r = (len - 4 : Nat) ∧ stripped = read ∧
        buf'.take (len - 4) = buf.take 12 ++ (buf.take len).drop 16) ∨
      (rc = -1 ∧ r = len ∧ buf' = buf ∧ stripped = tciOut))

/-- The length of a frame without its tag, if it has one. -/
def strippedLen (buf : List UInt8) (len : Nat) : Nat :=
  if vlanIsTagged buf len = some true ∧ 18 ≤ len then len - 4 else len

theorem tagStack {frame spare : List UInt8} {tcis : List UInt16} (h14 : 14 ≤ frame.length)
    (hs : 4 * tcis.length ≤ spare.length) (hmax : frame.length + 4 * tcis.length < 2 ^ 31) :
    TagStack frame spare tcis := by
  obtain ⟨macs, rest, rfl, hm⟩ : ∃ macs rest, frame = macs ++ rest ∧ macs.length = 12 :=
    ⟨frame.take 12, frame.drop 12, (List.take_append_drop 12 frame).symm, by simp; omega⟩
  have htake : ∀ bs : List UInt8, (macs ++ bs).take 12 = macs := fun bs => List.take_left' hm
  rw [List.length_append, hm] at h14 hmax
  have hinsert : ∀ k ≤ tcis.length, vlanInsertAll (macs ++ rest ++ spare) (12 + rest.length)
      (tcis.take k) = some (12 + rest.length + 4 * k,
        macs ++ (tags (tcis.take k).reverse ++ (rest ++ spare.drop (4 * k)))) := by
    intro k hk
    have hlen : (tcis.take k).length = k := by simp [hk]
    rw [List.append_assoc, vlanInsertAll_append hm (by omega) _ (by omega) (by omega), hlen]
  have hall := hinsert tcis.length (Nat.le_refl _)
  rw [List.take_length] at hall
  have hstrip : ∀ k ≤ tcis.length, ∃ spare', vlanStripAll
      (macs ++ (tags tcis.reverse ++ (rest ++ spare.drop (4 * tcis.length))))
      (12 + rest.length + 4 * tcis.length) k =
        some (12 + rest.length + 4 * (tcis.length - k),
          macs ++ (tags (tcis.reverse.drop k) ++ (rest ++ spare')), tcis.reverse.take k) := by
    intro k hk
    have hk' : k ≤ tcis.reverse.length := by simpa using hk
    have hmax' : 12 + rest.length + 4 * tcis.reverse.length < 2 ^ 31 := by simpa using hmax
    rw [← List.length_reverse]
    exact vlanStripAll_append hm (by omega) tcis.reverse hk' hmax'
  have hlen : (macs ++ rest).length = 12 + rest.length := by rw [List.length_append, hm]
  unfold TagStack
  rw [hlen]
  refine ⟨fun k hk => ?_, _, hall, fun k hk => ?_, ?_⟩
  · exact ⟨_, hinsert k hk, by rw [htake, htake]⟩
  · obtain ⟨spare', hk'⟩ := hstrip k hk
    exact ⟨_, _, hk', by rw [htake, htake]⟩
  · obtain ⟨spare', hfull⟩ := hstrip tcis.length (Nat.le_refl _)
    refine ⟨macs ++ (rest ++ spare'), ?_, ?_⟩
    · have hnone : tcis.reverse.drop tcis.length = [] := List.drop_eq_nil_of_le (by simp)
      have hevery : tcis.reverse.take tcis.length = tcis.reverse := List.take_of_length_le (by simp)
      rw [hfull, hnone, hevery, Nat.sub_self]
      rfl
    · rw [← List.append_assoc]
      exact List.take_left' hlen

theorem stripInsert_iff {buf : List UInt8} {len : Nat} (hlen : len ≤ buf.length) (h18 : 18 ≤ len)
    (htag : vlanIsTagged buf len = some true) : StripInsert buf len ↔ len < 2 ^ 31 := by
  constructor
  · intro h
    obtain ⟨r, buf', tci, r', buf'', -, hinsert, hr', -⟩ := h
    -- what the insertion returns fits an `int`
    have hlt : r' < 2 ^ 31 := by
      unfold vlanInsert at hinsert
      split at hinsert
      · cases hinsert
        decide
      · simp only [Option.bind_eq_bind, Option.bind_eq_some_iff] at hinsert
        obtain ⟨b₁, -, b₂, -, hret⟩ := hinsert
        rw [Option.pure_def, Option.some.injEq, Prod.mk.injEq] at hret
        rw [← hret.1]
        exact toInt_lt _
    omega
  · intro hmax
    rcases tagged_or_not hlen with ⟨macs, tci, rest, spare, rfl, hm, hr, hlen'⟩ | ⟨hnot, -⟩
    · subst hlen'
      have hdrop : ((tag tci ++ (rest ++ spare)).drop rest.length).drop 4 = spare := by
        rw [List.drop_drop, ← List.append_assoc]
        exact List.drop_left' (by simp; omega)
      have hroom : 4 ≤ ((tag tci ++ (rest ++ spare)).drop rest.length).length := by
        simp
        omega
      have hinsert := vlanInsert_append hm hr hroom (by omega) tci
      rw [hdrop] at hinsert
      refine ⟨_, _, tci, _, _, vlanStrip_append hm hr tci (some 0), ?_, toInt_of_lt hmax, rfl⟩
      rw [toSize_toInt (by omega), hinsert]
    · rw [htag] at hnot
      rcases hnot with hnot | hnot
      · cases hnot
      · omega

/-- Each of the two calls has one result. -/
theorem stripExact_of_eq {buf buf' : List UInt8} {len : Nat} {tciOut read stripped : Option UInt16}
    {rc r : Int} (hread : vlanRead buf len tciOut = some (rc, read))
    (hstrip : vlanStrip buf len tciOut = some (r, buf', stripped)) :
    StripExact buf len tciOut ↔
      (rc = 0 ∧ r = (len - 4 : Nat) ∧ stripped = read ∧
        buf'.take (len - 4) = buf.take 12 ++ (buf.take len).drop 16) ∨
      (rc = -1 ∧ r = len ∧ buf' = buf ∧ stripped = tciOut) := by
  refine ⟨?_, fun h => ⟨_, _, _, _, _, hread, hstrip, h⟩⟩
  intro h
  obtain ⟨rc', read', r', buf'', stripped', hread', hstrip', hcases⟩ := h
  rw [hread] at hread'
  rw [hstrip] at hstrip'
  cases hread'
  cases hstrip'
  exact hcases

theorem stripExact_iff {buf : List UInt8} {len : Nat} (hlen : len ≤ buf.length)
    (tciOut : Option UInt16) : StripExact buf len tciOut ↔ strippedLen buf len < 2 ^ 31 := by
  rcases tagged_or_not hlen with ⟨macs, tci, rest, spare, rfl, hm, hr, rfl⟩ | ⟨hplain, hnot⟩
  · have hstripped : strippedLen (macs ++ (tag tci ++ (rest ++ spare))) (16 + rest.length) =
        12 + rest.length := by
      rw [strippedLen, if_pos ⟨vlanIsTagged_tag hm tci (by omega), by omega⟩]
      omega
    have hlen' : 16 + rest.length - 4 = 12 + rest.length := by omega
    rw [hstripped, ← toInt_eq_iff,
      stripExact_of_eq (vlanRead_append hm hr tci tciOut) (vlanStrip_append hm hr tci tciOut),
      hlen']
    constructor
    · intro h
      rcases h with ⟨-, h, -⟩ | ⟨hrc, -⟩
      · exact h
      · cases hrc
    · intro h
      refine .inl ⟨rfl, h, rfl, ?_⟩
      have hsplit : macs ++ (tag tci ++ (rest ++ spare)) = (macs ++ tag tci ++ rest) ++ spare := by
        simp
      have hframe : (macs ++ (tag tci ++ (rest ++ spare))).take (16 + rest.length) =
          macs ++ tag tci ++ rest := by
        rw [hsplit]
        exact List.take_left' (by simp [hm]; omega)
      have htail : (macs ++ tag tci ++ rest).drop 16 = rest := List.drop_left' (by simp [hm])
      rw [hframe, htail, List.take_left' hm, ← List.append_assoc macs rest,
        List.take_left' (by simp [hm])]
  · have hstripped : strippedLen buf len = len := by
      rw [strippedLen, if_neg]
      rintro ⟨htag, h18⟩
      rcases hplain with hfalse | hshort
      · rw [hfalse] at htag
        cases htag
      · omega
    rw [hstripped, ← toInt_eq_iff, stripExact_of_eq (hnot tciOut).1 (hnot tciOut).2]
    constructor
    · intro h
      rcases h with ⟨hrc, -⟩ | ⟨-, h, -⟩
      · cases hrc
      · exact h
    · intro h
      exact .inr ⟨rfl, h, rfl, rfl⟩

/-- **Tags round trip.** Any stack of tags that fits the buffer and an `int` comes off as it went
on. For a tagged frame, stripping the tag and inserting it again is the identity exactly if its
length fits an `int`; and stripping agrees with reading on every buffer exactly if the length of
what is left does. -/
theorem vlan_round_trip (frame spare : List UInt8) (tcis : List UInt16) (tciOut : Option UInt16)
    {buf : List UInt8} {len : Nat} (hlen : len ≤ buf.length) :
    (14 ≤ frame.length → 4 * tcis.length ≤ spare.length →
      frame.length + 4 * tcis.length < 2 ^ 31 → TagStack frame spare tcis) ∧
    (18 ≤ len → vlanIsTagged buf len = some true → (StripInsert buf len ↔ len < 2 ^ 31)) ∧
    (StripExact buf len tciOut ↔ strippedLen buf len < 2 ^ 31) :=
  ⟨tagStack, stripInsert_iff hlen, stripExact_iff hlen tciOut⟩

/-- Two tags on a frame of 14 bytes, and a frame of 18 bytes with a tag. -/
theorem vlan_round_trip_two :
    TagStack (List.replicate 12 7 ++ [0x08, 0x00]) (List.replicate 8 0) [0x2005, 0x0064] ∧
    StripInsert (List.replicate 12 7 ++ [0x81, 0x00, 0x20, 0x05, 0x08, 0x00]) 18 := by
  have hlen : 18 ≤ (List.replicate 12 7 ++ [0x81, 0x00, 0x20, 0x05, 0x08, (0x00 : UInt8)]).length :=
    by decide
  obtain ⟨hstack, hinsert, -⟩ := vlan_round_trip (List.replicate 12 7 ++ [0x08, 0x00])
    (List.replicate 8 0) [0x2005, 0x0064] none hlen
  exact ⟨hstack (by decide) (by decide) (by decide),
    (hinsert (by decide) (by decide)).2 (by decide)⟩

theorem zeros_untagged {n : Nat} (h : 14 ≤ n) :
    vlanIsTagged (List.replicate n 0) n = some false := by
  have hword : readWord (List.replicate n 0) vlanTpidOff = some 0 := by
    rw [readWord, read8, read8, List.getElem?_replicate, List.getElem?_replicate,
      if_pos (by unfold vlanTpidOff; omega), if_pos (by unfold vlanTpidOff; omega)]
    rfl
  rw [vlanIsTagged, if_neg (by unfold ethHlen; omega), hword]
  rfl

/-- A buffer of 2^31 zero bytes is not tagged, and the length returned is negative. -/
theorem vlanStrip_truncates :
    vlanRead (List.replicate (2 ^ 31) 0) (2 ^ 31) (some 7) = some (-1, some 7) ∧
    vlanStrip (List.replicate (2 ^ 31) 0) (2 ^ 31) (some 7) =
      some (-2147483648, List.replicate (2 ^ 31) 0, some 7) ∧
    ¬ StripExact (List.replicate (2 ^ 31) 0) (2 ^ 31) (some 7) := by
  have hint : toInt (2 ^ 31) = -2147483648 := by decide
  have hzeros := zeros_untagged (n := 2 ^ 31) (by decide)
  have hboth := untagged hzeros (.inl rfl)
  have hread := (hboth (some 7)).1
  have hstrip := (hboth (some 7)).2
  rw [hint] at hstrip
  refine ⟨hread, hstrip, fun h => ?_⟩
  rw [stripExact_iff (by rw [List.length_replicate]), strippedLen, hzeros, if_neg (by simp)] at h
  omega

end Rewsr.Net
