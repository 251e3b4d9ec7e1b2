import Mathlib.Data.List.Nodup
import Mathlib.Data.List.TakeWhile
import Rewsr.Piers.Preflight
import Rewsr.Piers.Proof.Ladder

/-!
# The preflight report agrees with the walk

`preflight` selects by detection in its first loop and cuts the skips at the name of the tier
selected in its second; `selectFrom` does both in one pass. `audit_eq` and `skipsFrom_eq` say what
the two loops compute. The name cuts where the detection did because no other tier has it
(`takeWhile_name`), and an empty name cuts nowhere because no tier has it: on every list of tiers
with distinct names that are not empty the two agree (`preflight_mirrors_select`).
-/

namespace Rewsr.Piers

/-! ## The loops -/

theorem tierPreflight_pier (h : Host) (proc : Process) (p : Pier) :
    (tierPreflight h proc p).pier = p.name := by
  unfold tierPreflight
  cases requirementsForTier p.name <;> rfl

theorem tierPreflight_detected (h : Host) (proc : Process) (p : Pier) :
    (tierPreflight h proc p).detected = p.detect h := by
  unfold tierPreflight
  cases requirementsForTier p.name <;> rfl

/-- The name of the first tier detected, empty if there is none. -/
def firstDetected (h : Host) (ps : List Pier) : String :=
  ((ps.find? (·.detect h)).map Pier.name).getD ""

/-- The first loop audits every tier and keeps the first one detected. -/
theorem audit_eq (h : Host) (proc : Process) {ps : List Pier} (hne : ∀ p ∈ ps, p.name ≠ "")
    (r : PreflightReport) : ps.foldl (auditStep h proc) r =
      { r with
        tiers := r.tiers ++ ps.map (tierPreflight h proc)
        selected := if r.selected = "" then firstDetected h ps else r.selected } := by
  induction ps generalizing r with
  | nil =>
    by_cases hr : r.selected = ""
    · simp [firstDetected, ← hr]
    · simp [hr]
  | cons p ps ih =>
    have hp : p.name ≠ "" := hne p List.mem_cons_self
    rw [List.foldl_cons, ih fun q hq => hne q (List.mem_cons_of_mem _ hq)]
    unfold auditStep
    simp only [tierPreflight_detected]
    cases hd : p.detect h with
    | true =>
      by_cases hr : r.selected = ""
      · simp [hr, hp, firstDetected, hd]
      · simp [hr]
    | false => simp [firstDetected, hd]

/-- The second loop stops at the tier of that name. -/
theorem skipsFrom_eq (selected : String) (skips : List SkipReason) (tps : List TierPreflight) :
    skipsFrom selected skips tps = skips ++
      (tps.takeWhile (·.pier ≠ selected)).map fun tp =>
        { pier := tp.pier, reason := skipText tp } := by
  induction tps generalizing skips with
  | nil => simp [skipsFrom]
  | cons tp tps ih =>
    unfold skipsFrom
    by_cases htp : tp.pier = selected
    · simp [htp]
    · simp [htp, ih]

/-! ## Names and detection -/

/-- With distinct names that are not empty, the name of the first tier detected comes first at that
tier. -/
theorem takeWhile_name (h : Host) {ps : List Pier} (hne : ∀ p ∈ ps, p.name ≠ "")
    (hnodup : (ps.map Pier.name).Nodup) :
    ps.takeWhile (·.name ≠ firstDetected h ps) = ps.takeWhile (! ·.detect h) := by
  unfold firstDetected
  cases hfind : ps.find? (·.detect h) with
  | none =>
    have hnone : ∀ p ∈ ps, p.detect h = false := by simpa using hfind
    rw [List.takeWhile_eq_self_iff.mpr (by simpa using hne),
      List.takeWhile_eq_self_iff.mpr (by simpa using hnone)]
  | some p =>
    obtain ⟨hp, as, bs, rfl, has⟩ := List.find?_eq_some_iff_append.mp hfind
    have hbefore : ∀ a ∈ as, a.name ≠ p.name := by
      intro a ha heq
      rw [List.map_append, List.map_cons, List.nodup_append] at hnodup
      exact hnodup.2.2 a.name (List.mem_map_of_mem ha) p.name List.mem_cons_self heq
    simp only [Option.map_some, Option.getD_some]
    rw [List.takeWhile_append_of_pos (by simpa using hbefore),
      List.takeWhile_append_of_pos (by simpa using has)]
    simp [hp]

/-! ## The report -/

/-- **Preflight mirrors Select.** On every list of tiers with distinct names that are not empty, the
report selects the first tier detected, lists all tiers in order and skips those before it: the
selection and the skipped names of the walk over that list. -/
theorem preflight_mirrors_select (h : Host) (proc : Process) {ps : List Pier}
    (hne : ∀ p ∈ ps, p.name ≠ "") (hnodup : (ps.map Pier.name).Nodup) :
    let r := preflight h proc ps
    r.selected = ((ps.find? (·.detect h)).map Pier.name).getD "" ∧
    (r.tiers = ps.map (tierPreflight h proc) ∧ r.tiers.map (·.pier) = ps.map Pier.name) ∧
    r.skips.map (·.pier) = (ps.takeWhile (! ·.detect h)).map Pier.name ∧
    (r.selected = ((selectFrom h [] ps).1.map Pier.name).getD "" ∧
      r.skips.map (·.pier) = (selectFrom h [] ps).2.map (·.pier)) := by
  have hselected : (preflight h proc ps).selected = firstDetected h ps := by
    simp only [preflight, audit_eq h proc hne, if_true]
  have htiers : (preflight h proc ps).tiers = ps.map (tierPreflight h proc) := by
    simp only [preflight, audit_eq h proc hne, List.nil_append]
  have hnames : (preflight h proc ps).skips.map (·.pier) =
      (ps.takeWhile (! ·.detect h)).map Pier.name := by
    simp only [preflight, audit_eq h proc hne, if_true, List.nil_append, skipsFrom_eq,
      List.takeWhile_map, List.map_map]
    rw [← takeWhile_name h hne hnodup]
    simp [Function.comp_def, tierPreflight_pier]
  refine ⟨hselected, ⟨htiers, ?_⟩, hnames, ?_, ?_⟩
  · rw [htiers, List.map_map]
    exact List.map_congr_left fun p _ => tierPreflight_pier h proc p
  · rw [selectFrom_eq]
    exact hselected
  · rw [selectFrom_eq, hnames, List.nil_append, List.map_map]
    rfl

/-- What that host reports of the process. -/
def unprivilegedProcess : Process where
  now := 1700000000
  hostname := "host"
  goos := "linux"
  euid := 1000
  caps := { supported := true, effective := 0, permitted := 0, bounding := 0 }
  rlimits := unprivilegedHost.rlimits

/-- On the ladder itself the report of that host selects the AF_XDP tier and skips the tier above
it. -/
theorem preflight_ladder :
    (preflight unprivilegedHost unprivilegedProcess ladder).selected = "tier1-afxdp" ∧
    (preflight unprivilegedHost unprivilegedProcess ladder).skips.map (·.pier) =
      ["tier2-privileged"] := by
  have hrdma : tier2Privileged.detect unprivilegedHost = false := by decide
  have hafxdp : tier1AFXDP.detect unprivilegedHost = true := by decide
  obtain ⟨hselected, -, hskips, -⟩ :=
    preflight_mirrors_select unprivilegedHost unprivilegedProcess
      (show ∀ p ∈ ladder, p.name ≠ "" by decide) (by decide)
  rw [hselected, hskips]
  have hfind : ladder.find? (·.detect unprivilegedHost) = some tier1AFXDP := by
    simp [ladder, hrdma, hafxdp]
  have htake : ladder.takeWhile (! ·.detect unprivilegedHost) = [tier2Privileged] := by
    simp [ladder, hrdma, hafxdp]
  rw [hfind, htake]
  exact ⟨rfl, rfl⟩

end Rewsr.Piers
