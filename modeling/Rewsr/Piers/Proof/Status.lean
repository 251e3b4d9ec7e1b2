import Rewsr.Piers.Proof.CapText

/-!
# The sets of the status file

`values k ls` are the masks that the lines give for a key. The loop reads each of them, and the last
one stays (`lines_ok`); it stops at the first that is none (`lines_error`).
-/

namespace Rewsr.Piers

open Rewsr.Go

/-- A mask that `ParseCapMask` accepts. -/
def Accepted (v : List UInt8) : Prop := (parseCapMask v).2 = none

/-- The second field of a line with the key as its first. -/
def lineValue (k : StatusKey) (line : List UInt8) : Option (List UInt8) :=
  match fields line with
  | key :: value :: _ => if key = k.field then some value else none
  | _ => none

/-- The values of a key, line by line. -/
def values (k : StatusKey) (ls : List (List UInt8)) : List (List UInt8) :=
  ls.filterMap (lineValue k)

/-! ## One line -/

theorem StatusKey.field_inj (k k' : StatusKey) : k.field = k'.field ↔ k' = k := by
  cases k <;> cases k' <;> decide

theorem StatusKey.ofField_eq_some {s : List UInt8} {k : StatusKey} :
    StatusKey.ofField s = some k ↔ s = k.field := by
  constructor
  · intro h
    simpa using List.find?_some h
  · rintro rfl
    cases k <;> rfl

/-- What a line does to the variables. -/
inductive LineStep (st : StatusScan) (line : List UInt8) : Except CapError StatusScan → Prop
  | skip : (∀ k, lineValue k line = none) → LineStep st line (.ok st)
  | store {k : StatusKey} {v : List UInt8} :
    (∀ k', lineValue k' line = if k' = k then some v else none) → Accepted v →
      LineStep st line (.ok { sc := st.sc.store k (parseCapMask v).1,
                              got := Function.update st.got k true })
  | fail {k : StatusKey} {v : List UInt8} {err : CapError} :
    lineValue k line = some v → (parseCapMask v).2 = some err →
      LineStep st line (.error (.badLine k.name err))

theorem StatusScan.line_step (st : StatusScan) (line : List UInt8) :
    LineStep st line (st.line line) := by
  unfold StatusScan.line
  split
  next key value rest hfields =>
    cases hkey : StatusKey.ofField key with
    | none =>
      refine .skip fun k => ?_
      have hne : key ≠ k.field := by
        intro heq
        rw [StatusKey.ofField_eq_some.mpr heq] at hkey
        cases hkey
      simp [lineValue, hfields, hne]
    | some k =>
      rw [StatusKey.ofField_eq_some] at hkey
      subst hkey
      have hvalue : ∀ k', lineValue k' line = if k' = k then some value else none := by
        intro k'
        simp [lineValue, hfields, k.field_inj k']
      rcases hmask : parseCapMask value with ⟨m, _ | err⟩
      · have hacc : Accepted value := by simp [Accepted, hmask]
        have hstep := @LineStep.store st line k value hvalue hacc
        rw [hmask] at hstep
        exact hstep
      · exact .fail (v := value) (by simp [hvalue]) (by rw [hmask])
  next hfields =>
    refine .skip fun k => ?_
    unfold lineValue
    split
    next key value rest heq => exact absurd heq (hfields key value rest)
    next => rfl

/-! ## The loop -/

theorem StatusCaps.get_store (sc : StatusCaps) (k k' : StatusKey) (v : CapSet) :
    (sc.store k v).get k' = if k' = k then v else sc.get k' := by
  cases k <;> cases k' <;> rfl

theorem values_cons (k : StatusKey) (l : List UInt8) (ls : List (List UInt8)) :
    values k (l :: ls) = (lineValue k l).toList ++ values k ls := by
  rw [values, List.filterMap_cons]
  cases lineValue k l <;> rfl

/-- The mask that the last value writes over `c`. -/
def lastMask (c : CapSet) (vs : List (List UInt8)) : CapSet :=
  vs.foldl (fun _ v => (parseCapMask v).1) c

theorem lastMask_eq (c : CapSet) {vs : List (List UInt8)} {v : List UInt8}
    (h : vs.getLast? = some v) : lastMask c vs = (parseCapMask v).1 := by
  obtain ⟨init, rfl⟩ := List.getLast?_eq_some_iff.mp h
  simp [lastMask]

/-- A loop that runs to its end has read every value, and the last one of each key stays. -/
theorem StatusScan.lines_ok {ls : List (List UInt8)} {st st' : StatusScan}
    (h : st.lines ls = .ok st') (k : StatusKey) :
    (∀ v ∈ values k ls, Accepted v) ∧ (st'.got k ↔ st.got k ∨ values k ls ≠ []) ∧
      st'.sc.get k = lastMask (st.sc.get k) (values k ls) := by
  induction ls generalizing st with
  | nil =>
    cases h
    simp [values, lastMask]
  | cons l ls ih =>
    have hstep := st.line_step l
    rw [StatusScan.lines] at h
    rw [values_cons]
    generalize st.line l = r at h hstep
    cases hstep with
    | skip hnone =>
      obtain ⟨hall, hgot, hset⟩ := ih h
      rw [hnone k]
      exact ⟨hall, hgot, hset⟩
    | @store k' v hvalue hacc =>
      obtain ⟨hall, hgot, hset⟩ := ih h
      rw [hvalue k]
      rw [StatusCaps.get_store] at hset
      by_cases hk : k = k'
      · subst hk
        rw [if_pos rfl] at hset ⊢
        refine ⟨?_, by simpa using hgot, hset⟩
        simpa using ⟨hacc, hall⟩
      · rw [if_neg hk] at hset ⊢
        simp only [Function.update_of_ne hk] at hgot
        exact ⟨hall, hgot, hset⟩
    | fail => cases h

/-- A loop that an error ends has met a value that is no mask. -/
theorem StatusScan.lines_error {ls : List (List UInt8)} {st : StatusScan} {err : CapError}
    (h : st.lines ls = .error err) : ∃ k, ∃ v ∈ values k ls, ¬ Accepted v := by
  induction ls generalizing st with
  | nil => cases h
  | cons l ls ih =>
    have hstep := st.line_step l
    rw [StatusScan.lines] at h
    generalize st.line l = r at h hstep
    cases hstep with
    | skip | store =>
      obtain ⟨k, v, hmem, hbad⟩ := ih h
      refine ⟨k, v, ?_, hbad⟩
      rw [values_cons]
      exact List.mem_append_right _ hmem
    | @fail k v e hvalue herr =>
      refine ⟨k, v, ?_, by simp [Accepted, herr]⟩
      rw [values_cons, hvalue]
      exact List.mem_append_left _ (by simp)

/-! ## The file -/

/-- The line that shows a set. -/
def renderLine (k : StatusKey) (c : CapSet) : List UInt8 := k.field ++ [0x09] ++ c.string

theorem fields_renderLine (k : StatusKey) (c : CapSet) :
    fields (renderLine k c) = [k.field, c.string] := by
  have hkey : Graphic k.field ∧ k.field ≠ [] := by cases k <;> decide
  rw [renderLine, List.append_assoc, List.singleton_append, fields_append hkey.1 hkey.2 (by decide)]
  exact congrArg _ (fields_word (graphic_sprintf016x c) (sprintf016x_ne_nil c))

theorem lineValue_renderLine (k k' : StatusKey) (c : CapSet) :
    lineValue k (renderLine k' c) = if k' = k then some c.string else none := by
  rw [lineValue, fields_renderLine]
  simp [k'.field_inj k, eq_comm]

/-- The sets of the file, or the zero value and an error. -/
theorem parseStatusCaps_cases (data : List UInt8) :
    (∃ err, parseStatusCaps data = (.zero, some err) ∧ ∃ k, values k (split 0x0A data) = [] ∨
      ∃ v ∈ values k (split 0x0A data), ¬ Accepted v) ∨
    ∃ sc, parseStatusCaps data = (sc, none) ∧ sc.supported = true ∧
      ∀ k, values k (split 0x0A data) ≠ [] ∧ (∀ v ∈ values k (split 0x0A data), Accepted v) ∧
        sc.get k = lastMask 0 (values k (split 0x0A data)) := by
  unfold parseStatusCaps
  rcases hrun : StatusScan.lines {} (split 0x0A data) with err | st
  · obtain ⟨k, hbad⟩ := StatusScan.lines_error hrun
    exact Or.inl ⟨err, rfl, k, Or.inr hbad⟩
  · have hok := StatusScan.lines_ok hrun
    by_cases hmissing : ∃ k, st.got k = false
    · obtain ⟨k, hk⟩ := hmissing
      have hcond : (!st.got .eff || !st.got .prm || !st.got .bnd) = true := by
        cases k <;> simp [hk]
      refine Or.inl ⟨_, if_pos hcond, k, Or.inl ?_⟩
      by_contra hne
      have hgot := (hok k).2.1.mpr (Or.inr hne)
      rw [hk] at hgot
      cases hgot
    · have hgot : ∀ k, st.got k = true := by simpa using hmissing
      refine Or.inr ⟨{ st.sc with supported := true }, by simp [hgot], rfl, fun k => ?_⟩
      obtain ⟨hall, hiff, hset⟩ := hok k
      have hzero : StatusCaps.get .zero k = 0 := by cases k <;> rfl
      refine ⟨?_, hall, ?_⟩
      · rcases hiff.mp (hgot k) with hinit | hne
        · cases hinit
        · exact hne
      · rw [← hzero, ← hset]
        cases k <;> rfl

/-- The last value of each key, where the file is one. -/
theorem parseStatusCaps_rendered {sets : StatusKey → CapSet} {lines : List (List UInt8)}
    (hnl : ∀ l ∈ lines, 0x0A ∉ l) (hall : ∀ k, renderLine k (sets k) ∈ lines)
    (honly : ∀ l ∈ lines, (∃ k, l = renderLine k (sets k)) ∨ ∀ k, lineValue k l = none) :
    parseStatusCaps ([0x0A].intercalate lines) =
      (⟨true, sets .eff, sets .prm, sets .bnd⟩, none) := by
  have hsplit : split 0x0A ([0x0A].intercalate lines) = lines :=
    List.splitOn_intercalate 0x0A hnl (List.ne_nil_of_mem (hall .eff))
  have hvalue : ∀ k, ∀ v ∈ values k lines, v = (sets k).string := by
    intro k v hmem
    obtain ⟨l, hl, heq⟩ := List.mem_filterMap.mp hmem
    rcases honly l hl with ⟨k', rfl⟩ | hnone
    · rw [lineValue_renderLine, Option.ite_none_right_eq_some] at heq
      obtain ⟨rfl, heq⟩ := heq
      exact (Option.some.inj heq).symm
    · rw [hnone k] at heq
      cases heq
  rcases parseStatusCaps_cases ([0x0A].intercalate lines) with ⟨err, -, k, hbad⟩ |
    ⟨sc, heq, hsup, hsets⟩
  · rw [hsplit] at hbad
    exfalso
    rcases hbad with hnil | ⟨v, hmem, hbad⟩
    · have hmem : (sets k).string ∈ values k lines :=
        List.mem_filterMap.mpr ⟨_, hall k, by simp [lineValue_renderLine]⟩
      rw [hnil] at hmem
      cases hmem
    · rw [hvalue k v hmem] at hbad
      exact hbad (by rw [Accepted, parseCapMask_string])
  · rw [hsplit] at hsets
    have hget : ∀ k, sc.get k = sets k := by
      intro k
      obtain ⟨hne, -, hset⟩ := hsets k
      have hlast := List.getLast?_eq_some_getLast hne
      rw [hset, lastMask_eq 0 hlast, hvalue k _ (List.getLast_mem hne), parseCapMask_string]
    rw [heq, ← hget .eff, ← hget .prm, ← hget .bnd, ← hsup]
    rfl

/-- **What the status file's parser reads.** It succeeds exactly when each key has a line and every
line of a key a mask that is accepted; each set is then the mask of the key's last line. Any failure
leaves the zero value. Three sets that are rendered among other lines are read back. -/
theorem parseStatusCaps_spec (data : List UInt8) :
    ((parseStatusCaps data).2 = none ↔
        ∀ k, values k (split 0x0A data) ≠ [] ∧ ∀ v ∈ values k (split 0x0A data), Accepted v) ∧
      ((parseStatusCaps data).2 = none → (parseStatusCaps data).1.supported = true ∧
        ∀ k, ∃ v, (values k (split 0x0A data)).getLast? = some v ∧
          (parseStatusCaps data).1.get k = (parseCapMask v).1) ∧
      ((parseStatusCaps data).2 ≠ none → (parseStatusCaps data).1 = ⟨false, 0, 0, 0⟩) ∧
      ∀ (sets : StatusKey → CapSet) (lines : List (List UInt8)),
        (∀ l ∈ lines, 0x0A ∉ l) → (∀ k, renderLine k (sets k) ∈ lines) →
        (∀ l ∈ lines, (∃ k, l = renderLine k (sets k)) ∨ ∀ k, lineValue k l = none) →
        parseStatusCaps ([0x0A].intercalate lines) =
          (⟨true, sets .eff, sets .prm, sets .bnd⟩, none) := by
  refine ⟨?_, ?_, ?_, fun sets lines => parseStatusCaps_rendered⟩
  all_goals
    rcases parseStatusCaps_cases data with ⟨err, heq, k, hbad⟩ | ⟨sc, heq, hsup, hsets⟩
    all_goals rw [heq]
  · constructor
    · rintro ⟨⟩
    · intro h
      rcases hbad with hnil | ⟨v, hmem, hbad⟩
      · exact absurd hnil (h k).1
      · exact absurd ((h k).2 v hmem) hbad
  · exact iff_of_true rfl fun k => ⟨(hsets k).1, (hsets k).2.1⟩
  · rintro ⟨⟩
  · rintro -
    refine ⟨hsup, fun k => ?_⟩
    obtain ⟨hne, -, hset⟩ := hsets k
    have hlast := List.getLast?_eq_some_getLast hne
    exact ⟨_, hlast, by rw [hset, lastMask_eq 0 hlast]⟩
  · exact fun _ => rfl
  · exact fun h => absurd rfl h

end Rewsr.Piers
