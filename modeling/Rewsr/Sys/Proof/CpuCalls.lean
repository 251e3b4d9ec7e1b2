import Rewsr.Sys.Proof.CpuSet

/-!
# CPU sets refine sets

`Represents s S`: what the queries answer about the bitmap `s` are the facts about the set `S`.
Every bitmap represents one set, its `members`, and the calls that change a bitmap do to it what
`CpuCall.onSet` does to a set (`members_run`); so does every sequence of calls (`cpuset_refines`).
-/

namespace Rewsr.Sys

/-- A call that changes a set of CPUs. -/
inductive CpuCall where
  | zero
  | set (cpu : Int)
  | clr (cpu : Int)
  deriving DecidableEq, Repr

namespace CpuCall

/-- What it does to the bitmap. -/
def run (s : CpuSet) : CpuCall → CpuSet
  | zero => CpuSet.zero
  | set cpu => s.set cpu
  | clr cpu => s.clr cpu

/-- What it does to a set; a CPU out of range is ignored. -/
def onSet (S : Finset Int) : CpuCall → Finset Int
  | zero => ∅
  | set cpu => if 0 ≤ cpu ∧ cpu < cpusetMax then insert cpu S else S
  | clr cpu => if 0 ≤ cpu ∧ cpu < cpusetMax then S.erase cpu else S

end CpuCall

/-- The bitmap stands for the set. -/
structure Represents (s : CpuSet) (S : Finset Int) : Prop where
  inRange : ∀ cpu ∈ S, 0 ≤ cpu ∧ cpu < cpusetMax
  isset : ∀ cpu, s.isset cpu = if cpu ∈ S then 1 else 0
  count : s.count = S.card
  first : (S = ∅ ∧ s.first = -1) ∨ (s.first ∈ S ∧ ∀ cpu ∈ S, s.first ≤ cpu)

namespace CpuSet

/-! ## The members of a bitmap -/

/-- The CPUs whose bits are set. -/
def members (s : CpuSet) : Finset Int :=
  ((Finset.range cpusetMax).filter fun c => has s c).image fun c : Nat => (c : Int)

theorem mem_members {s : CpuSet} {cpu : Int} : cpu ∈ members s ↔ ∃ c : Nat, cpu = c ∧ has s c := by
  simp only [members, Finset.mem_image, Finset.mem_filter, Finset.mem_range]
  constructor
  · rintro ⟨c, ⟨-, hc⟩, rfl⟩
    exact ⟨c, rfl, hc⟩
  · rintro ⟨c, rfl, hc⟩
    exact ⟨c, ⟨lt_of_has hc, hc⟩, rfl⟩

theorem mem_members_natCast {s : CpuSet} {c : Nat} : (c : Int) ∈ members s ↔ has s c := by
  rw [mem_members]
  constructor
  · rintro ⟨d, heq, hd⟩
    rwa [Int.natCast_inj.mp heq]
  · intro hc
    exact ⟨c, rfl, hc⟩

theorem card_members (s : CpuSet) : (members s).card = count s := by
  rw [members, Finset.card_image_of_injective _ fun _ _ => Int.natCast_inj.mp, count_eq_card]

/-- The test of a bit has no other answers. -/
theorem isset_or (s : CpuSet) (cpu : Int) : isset s cpu = 0 ∨ isset s cpu = 1 := by
  rw [isset]
  split
  · exact Or.inl rfl
  · rw [shiftRight_and_one _ (Nat.mod_lt _ (by decide))]
    cases (s.word (cpu.toNat / 64)).toNat.testBit (cpu.toNat % 64) <;> simp

theorem represents_members (s : CpuSet) : Represents s (members s) where
  inRange := by
    intro cpu hcpu
    obtain ⟨c, rfl, hc⟩ := mem_members.mp hcpu
    have hlt := lt_of_has hc
    omega
  isset := by
    intro cpu
    have hiff : isset s cpu = 1 ↔ cpu ∈ members s := isset_eq_one.trans mem_members.symm
    by_cases hcpu : cpu ∈ members s
    · rw [if_pos hcpu, hiff.mpr hcpu]
    · rw [if_neg hcpu]
      exact (isset_or s cpu).resolve_right (mt hiff.mp hcpu)
  count := (card_members s).symm
  first := by
    rcases first_spec s with ⟨hfirst, hnone⟩ | ⟨c, hfirst, hc, hleast⟩
    · refine Or.inl ⟨Finset.eq_empty_of_forall_notMem fun cpu hcpu => ?_, hfirst⟩
      obtain ⟨c, rfl, hc⟩ := mem_members.mp hcpu
      simp [hnone c] at hc
    · rw [hfirst]
      refine Or.inr ⟨mem_members_natCast.mpr hc, fun cpu hcpu => ?_⟩
      obtain ⟨d, rfl, hd⟩ := mem_members.mp hcpu
      by_contra hlt
      simp [hleast d (by omega)] at hd

/-! ## Calls -/

theorem members_zero : members zero = ∅ := by
  ext cpu
  simp [mem_members]

theorem members_set (s : CpuSet) {cpu : Int} (hlo : 0 ≤ cpu) (hhi : cpu < cpusetMax) :
    members (set s cpu) = insert cpu (members s) := by
  obtain ⟨c, rfl⟩ := Int.eq_ofNat_of_zero_le hlo
  have hc : c < cpusetMax := Int.ofNat_lt.mp hhi
  ext d
  rw [Finset.mem_insert, mem_members, mem_members]
  constructor
  · rintro ⟨d, rfl, hd⟩
    rw [has_set s hc, Bool.or_eq_true, decide_eq_true_eq] at hd
    rcases hd with hd | rfl
    · exact Or.inr ⟨d, rfl, hd⟩
    · exact Or.inl rfl
  · rintro (rfl | ⟨d, rfl, hd⟩)
    · exact ⟨c, rfl, by simp [has_set s hc]⟩
    · exact ⟨d, rfl, by simp [has_set s hc, hd]⟩

theorem members_clr (s : CpuSet) {cpu : Int} (hlo : 0 ≤ cpu) (hhi : cpu < cpusetMax) :
    members (clr s cpu) = (members s).erase cpu := by
  obtain ⟨c, rfl⟩ := Int.eq_ofNat_of_zero_le hlo
  have hc : c < cpusetMax := Int.ofNat_lt.mp hhi
  ext d
  rw [Finset.mem_erase, mem_members, mem_members]
  constructor
  · rintro ⟨d, rfl, hd⟩
    rw [has_clr s hc, Bool.and_eq_true, decide_eq_true_eq] at hd
    exact ⟨fun heq => hd.2 (Int.natCast_inj.mp heq), d, rfl, hd.1⟩
  · rintro ⟨hne, d, rfl, hd⟩
    refine ⟨d, rfl, ?_⟩
    rw [has_clr s hc, hd, Bool.true_and, decide_eq_true_eq]
    rintro rfl
    exact hne rfl

/-- A call does to the members what it does to a set. -/
theorem members_run (s : CpuSet) (call : CpuCall) :
    members (call.run s) = call.onSet (members s) := by
  cases call with
  | zero => exact members_zero
  | set cpu =>
    rw [CpuCall.run, CpuCall.onSet]
    split
    next hin => exact members_set s hin.1 hin.2
    next hout => rw [set, if_pos (by omega)]
  | clr cpu =>
    rw [CpuCall.run, CpuCall.onSet]
    split
    next hin => exact members_clr s hin.1 hin.2
    next hout => rw [clr, if_pos (by omega)]

theorem members_foldl (s : CpuSet) (calls : List CpuCall) :
    members (calls.foldl CpuCall.run s) = calls.foldl CpuCall.onSet (members s) := by
  induction calls generalizing s with
  | nil => rfl
  | cons call calls ih => rw [List.foldl_cons, List.foldl_cons, ih, members_run]

end CpuSet

/-- A bitmap represents no other set. -/
theorem Represents.eq_members {s : CpuSet} {S : Finset Int} (h : Represents s S) :
    S = s.members := by
  ext cpu
  have hS := h.isset cpu
  rw [s.represents_members.isset cpu] at hS
  by_cases hcpu : cpu ∈ S <;> by_cases hmem : cpu ∈ s.members <;> simp_all

/-- **The bitmap refines a set.** Every bitmap represents a set. From a bitmap and a set that it
represents, every sequence of calls leads to a bitmap and a set that it represents; in particular
from the empty ones. -/
theorem cpuset_refines (s : CpuSet) :
    (∃ S, Represents s S) ∧
      (∀ S, Represents s S → ∀ calls : List CpuCall,
        Represents (calls.foldl CpuCall.run s) (calls.foldl CpuCall.onSet S)) ∧
      ∀ calls : List CpuCall,
        Represents (calls.foldl CpuCall.run .zero) (calls.foldl CpuCall.onSet ∅) := by
  have hrun : ∀ (s : CpuSet) (calls : List CpuCall),
      Represents (calls.foldl CpuCall.run s) (calls.foldl CpuCall.onSet s.members) := by
    intro s calls
    rw [← CpuSet.members_foldl]
    exact CpuSet.represents_members _
  refine ⟨⟨s.members, s.represents_members⟩, fun S hS calls => ?_, fun calls => ?_⟩
  · rw [hS.eq_members]
    exact hrun s calls
  · rw [← CpuSet.members_zero]
    exact hrun .zero calls

end Rewsr.Sys
