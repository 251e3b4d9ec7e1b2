import Rewsr.Go.Proof.Strings
import Rewsr.Piers.Ladder
import Rewsr.Probe.Kernel

/-!
# The probe and the ladder on the kernel

The ladder reads the whole minor part as a number, the probe its leading digits. They give the same
verdict unless the minor part is digits with something behind them, which only the probe reads, or a
sign and digits, which only the ladder reads, and the version is recent (`verdicts_agree_iff`).
-/

namespace Rewsr.Probe

open Rewsr.Go Rewsr.Piers Decimal

/-- The verdict on a version. -/
def Recent (major minor : Int) : Prop := major > 4 ∨ (major = 4 ∧ minor ≥ 18)

/-- A minor part that the probe takes for a recent version and the ladder for none: digits with
something behind them. -/
def SuffixedMinor (major : Int) (minor : List UInt8) : Prop :=
  ∃ ds b rest, minor = ds ++ b :: rest ∧ ds ≠ [] ∧ IsNumber ds ∧ isDigit b = false ∧
    value ds < 2 ^ 63 ∧ Recent major (value ds)

/-- A minor part that the ladder takes for a recent version and the probe for none: digits with a
sign. -/
def SignedMinor (major : Int) (minor : List UInt8) : Prop :=
  ∃ ds, ds ≠ [] ∧ IsNumber ds ∧
    ((minor = 0x2B :: ds ∧ value ds < 2 ^ 63 ∧ Recent major (value ds)) ∨
      (minor = 0x2D :: ds ∧ value ds ≤ 2 ^ 63 ∧ Recent major (-(value ds : Int))))

/-- A release whose minor part is odd. -/
def OddRelease (data : List UInt8) : Prop :=
  ∃ major minor rest, splitN 0x2E 3 (trimSpace data) = major :: minor :: rest ∧
    ∃ n, atoi major = some n ∧ (SuffixedMinor n minor ∨ SignedMinor n minor)

theorem atoi_plus {ds : List UInt8} (hne : ds ≠ []) : atoi (0x2B :: ds) =
    if IsNumber ds ∧ value ds < 2 ^ 63 then some (value ds : Int) else none := by
  unfold atoi
  simp only [hne, if_false, if_true, digits_eq, show (0x2B : UInt8) ≠ 0x2D by decide]
  by_cases hnum : IsNumber ds <;> simp [hnum]

theorem atoi_minus {ds : List UInt8} (hne : ds ≠ []) : atoi (0x2D :: ds) =
    if IsNumber ds ∧ value ds ≤ 2 ^ 63 then some (-(value ds : Int)) else none := by
  unfold atoi
  simp only [hne, if_false, if_true, digits_eq]
  by_cases hnum : IsNumber ds <;> simp [hnum]

/-- A number that does not start with a digit starts with a sign. -/
theorem atoi_signed {b : UInt8} {s : List UInt8} {n : Int} (hb : isDigit b = false)
    (h : atoi (b :: s) = some n) :
    s ≠ [] ∧ IsNumber s ∧
      ((b = 0x2B ∧ value s < 2 ^ 63 ∧ n = value s) ∨
        (b = 0x2D ∧ value s ≤ 2 ^ 63 ∧ n = -(value s : Int))) := by
  by_cases hplus : b = 0x2B
  · subst hplus
    have hne : s ≠ [] := by
      rintro rfl
      cases h
    rw [atoi_plus hne, Option.ite_none_right_eq_some] at h
    obtain ⟨⟨hnum, hlt⟩, hn⟩ := h
    exact ⟨hne, hnum, Or.inl ⟨rfl, hlt, (Option.some.inj hn).symm⟩⟩
  by_cases hminus : b = 0x2D
  · subst hminus
    have hne : s ≠ [] := by
      rintro rfl
      cases h
    rw [atoi_minus hne, Option.ite_none_right_eq_some] at h
    obtain ⟨⟨hnum, hle⟩, hn⟩ := h
    exact ⟨hne, hnum, Or.inr ⟨rfl, hle, (Option.some.inj hn).symm⟩⟩
  rw [atoi_of_no_sign s hminus hplus, Option.ite_none_right_eq_some] at h
  have hdigit := h.1.1 b List.mem_cons_self
  rw [hb] at hdigit
  cases hdigit

/-- A minor part that starts with a digit: only what follows the digits makes a difference. -/
theorem readings_of_digit (major : Int) {b : UInt8} (s : List UInt8) (hb : isDigit b = true) :
    ((∃ n, atoi (b :: s) = some n ∧ Recent major n) ↔
      ∃ n, atoi ((b :: s).takeWhile isDigit) = some n ∧ Recent major n) ↔
    ¬ (SuffixedMinor major (b :: s) ∨ SignedMinor major (b :: s)) := by
  obtain ⟨hminus, hplus⟩ := isDigit_ne_sign hb
  have hsigned : ¬ SignedMinor major (b :: s) := by
    rintro ⟨ds, -, -, ⟨heq, -⟩ | ⟨heq, -⟩⟩
    · exact hplus (List.cons.inj heq).1
    · exact hminus (List.cons.inj heq).1
  by_cases hnum : IsNumber (b :: s)
  · have hwhole : (b :: s).takeWhile isDigit = b :: s := List.takeWhile_eq_self_iff.mpr hnum
    rw [hwhole]
    refine iff_of_true Iff.rfl ?_
    rintro (⟨ds, c, rest, heq, -, -, hc, -⟩ | h)
    · have hdigit := hnum c (by rw [heq]; simp)
      rw [hc] at hdigit
      cases hdigit
    · exact hsigned h
  · have hnone : atoi (b :: s) = none := by
      rw [atoi_of_no_sign s hminus hplus, if_neg fun h => hnum h.1]
    generalize hds : (b :: s).takeWhile isDigit = ds
    have hne : ds ≠ [] := by
      rw [← hds, List.takeWhile_cons_of_pos hb]
      exact List.cons_ne_nil _ _
    have hdigits : IsNumber ds := hds ▸ isNumber_takeWhile (b :: s)
    have hsplit := List.takeWhile_append_dropWhile (p := isDigit) (l := b :: s)
    rw [hds] at hsplit
    rw [hnone, atoi_eq hdigits hne]
    have hsuffix : SuffixedMinor major (b :: s) ↔ value ds < 2 ^ 63 ∧ Recent major (value ds) := by
      constructor
      · rintro ⟨ds', c, rest, heq, -, hnum', hc, hlt, hrecent⟩
        have htake : (b :: s).takeWhile isDigit = ds' := by
          rw [heq]
          exact takeWhile_append hnum' (by simp [hc])
        rw [← hds, htake]
        exact ⟨hlt, hrecent⟩
      · rintro ⟨hlt, hrecent⟩
        cases hdrop : (b :: s).dropWhile isDigit with
        | nil =>
          rw [hdrop, List.append_nil] at hsplit
          exact absurd (hsplit ▸ hdigits) hnum
        | cons c rest =>
          have hc : isDigit c = false := by
            have hhead := List.head?_dropWhile_not isDigit (b :: s)
            simpa [hdrop] using hhead
          exact ⟨ds, c, rest, by rw [← hsplit, hdrop], hne, hdigits, hc, hlt, hrecent⟩
    rw [hsuffix]
    simp [hsigned]

/-- A minor part that starts with something else: only a sign makes a difference. -/
theorem readings_of_not_digit (major : Int) {b : UInt8} (s : List UInt8) (hb : isDigit b = false) :
    ((∃ n, atoi (b :: s) = some n ∧ Recent major n) ↔
      ∃ n, atoi ((b :: s).takeWhile isDigit) = some n ∧ Recent major n) ↔
    ¬ (SuffixedMinor major (b :: s) ∨ SignedMinor major (b :: s)) := by
  have hempty : (b :: s).takeWhile isDigit = [] := List.takeWhile_cons_of_neg (by simp [hb])
  have hnil : atoi [] = none := rfl
  have hsuffix : ¬ SuffixedMinor major (b :: s) := by
    rintro ⟨ds, c, rest, heq, hne, hnum, -⟩
    cases ds with
    | nil => exact hne rfl
    | cons d ds =>
      obtain rfl := (List.cons.inj heq).1
      rw [hnum b List.mem_cons_self] at hb
      cases hb
  have hsigned : SignedMinor major (b :: s) ↔ ∃ n, atoi (b :: s) = some n ∧ Recent major n := by
    constructor
    · rintro ⟨ds, hne, hnum, ⟨heq, hlt, hrecent⟩ | ⟨heq, hle, hrecent⟩⟩
      · exact ⟨_, by rw [heq, atoi_plus hne, if_pos ⟨hnum, hlt⟩], hrecent⟩
      · exact ⟨_, by rw [heq, atoi_minus hne, if_pos ⟨hnum, hle⟩], hrecent⟩
    · rintro ⟨n, hatoi, hrecent⟩
      obtain ⟨hne, hnum, ⟨rfl, hlt, rfl⟩ | ⟨rfl, hle, rfl⟩⟩ := atoi_signed hb hatoi
      · exact ⟨s, hne, hnum, Or.inl ⟨rfl, hlt, hrecent⟩⟩
      · exact ⟨s, hne, hnum, Or.inr ⟨rfl, hle, hrecent⟩⟩
  rw [hempty, hnil, hsigned]
  simp [hsuffix]

/-- The two readings of a minor part differ in the verdict exactly where it is odd. -/
theorem readings_iff (major : Int) (minor : List UInt8) :
    ((∃ n, atoi minor = some n ∧ Recent major n) ↔
      ∃ n, atoi (minor.takeWhile isDigit) = some n ∧ Recent major n) ↔
    ¬ (SuffixedMinor major minor ∨ SignedMinor major minor) := by
  cases minor with
  | nil =>
    refine iff_of_true Iff.rfl ?_
    rintro (⟨ds, b, rest, heq, -⟩ | ⟨ds, -, -, ⟨heq, -⟩ | ⟨heq, -⟩⟩)
    · simp at heq
    · cases heq
    · cases heq
  | cons b s =>
    cases hb : isDigit b with
    | true => exact readings_of_digit major s hb
    | false => exact readings_of_not_digit major s hb

/-- The verdict on a release string by a reader of minor parts. -/
def Supports (readMinor : List UInt8 → Option Int) (data : List UInt8) : Prop :=
  ∃ major minor rest, splitN 0x2E 3 (trimSpace data) = major :: minor :: rest ∧
    ∃ m, atoi major = some m ∧ ∃ n, readMinor minor = some n ∧ Recent m n

/-- The ladder reads the whole minor part. -/
theorem kernelSupportsAFXDP_iff (h : Host) (data : List UInt8) :
    kernelSupportsAFXDP { h with osrelease := some data } = true ↔ Supports atoi data := by
  unfold kernelSupportsAFXDP parseKernelVersion Supports
  simp only
  rcases hsplit : splitN 0x2E 3 (trimSpace data) with _ | ⟨major, _ | ⟨minor, rest⟩⟩
  · simp
  · simp
  · cases hmajor : atoi major with
    | none => simp [hmajor]
    | some m =>
      cases hminor : atoi minor with
      | none => simp [hmajor, hminor]
      | some n => by_cases hm : m > 4 <;> simp [hmajor, hminor, Recent, hm]

/-- The probe reads its leading digits. -/
theorem xdpProbeKernel_iff (data : List UInt8) :
    (xdpProbeKernel (some data)).kernelSupportsXDP = true ↔
      Supports (fun minor => atoi (minor.takeWhile isDigit)) data := by
  unfold xdpProbeKernel parseKernelRelease Supports
  simp only [trimSpace_trimSpace]
  rcases hsplit : splitN 0x2E 3 (trimSpace data) with _ | ⟨major, _ | ⟨minor, rest⟩⟩
  · simp
  · simp
  · cases hmajor : atoi major with
    | none => simp [hmajor]
    | some m =>
      cases hminor : atoi (minor.takeWhile isDigit) with
      | none => simp [hmajor, hminor]
      | some n => simp [hmajor, hminor, Recent]

/-- The two verdicts agree exactly on the releases that are not odd. -/
theorem verdicts_agree_iff (h : Host) (data : List UInt8) :
    kernelSupportsAFXDP { h with osrelease := some data } =
        (xdpProbeKernel (some data)).kernelSupportsXDP ↔
      ¬ OddRelease data := by
  rw [Bool.eq_iff_iff, kernelSupportsAFXDP_iff, xdpProbeKernel_iff]
  unfold Supports OddRelease
  rcases hsplit : splitN 0x2E 3 (trimSpace data) with _ | ⟨major, _ | ⟨minor, rest⟩⟩
  · simp
  · simp
  · cases hmajor : atoi major with
    | none => simp [hmajor]
    | some m => simpa [hmajor] using readings_iff m minor

/-- A suffix on the minor number: the ladder walks past the tier that the probe reports support
for. -/
theorem verdicts_differ :
    ¬ ∀ (h : Host) (data : List UInt8),
      kernelSupportsAFXDP { h with osrelease := some data } =
        (xdpProbeKernel (some data)).kernelSupportsXDP := by
  intro h
  have hdata := h ⟨none, none, none, 0, ⟨true, 0, 0, 0, 0⟩⟩
    [0x35, 0x2E, 0x31, 0x35, 0x72, 0x63, 0x32]
  revert hdata
  decide

end Rewsr.Probe
