import Rewsr.Piers.Ladder
import Rewsr.Piers.Proof.Caps

/-!
# The tier selected and the privileges held

Detection reads the kernel's version and the file system; the audit reads capabilities and limits.
`selectFrom_eq` says what the walk returns on any ladder, `detect_rdma_iff` and `detect_afxdp_iff`
what the two higher tiers detect. No detection looks at a privilege, so a detected tier passes its
audit exactly on the hosts where the process holds what the tier needs (`selected_audited_iff`).
-/

namespace Rewsr.Piers

open Rewsr.Go

/-! ## The walk -/

/-- The walk stops at the first tier detected and reports the tiers above it, in order. -/
theorem selectFrom_eq (h : Host) (skips : List SkipReason) (ps : List Pier) :
    selectFrom h skips ps =
      (ps.find? (·.detect h), skips ++ (ps.takeWhile (! ·.detect h)).map skipReason) := by
  induction ps generalizing skips with
  | nil => simp [selectFrom]
  | cons p ps ih =>
    unfold selectFrom
    cases hp : p.detect h with
    | true => simp [hp]
    | false => simp [hp, ih]

theorem select_fst (h : Host) : (select h).1 = ladder.find? (·.detect h) := by
  rw [select, selectFrom_eq]

/-! ## Detection -/

/-- `/dev/infiniband` shows a device. -/
def RdmaDevice (h : Host) : Prop :=
  ∃ names, h.infiniband = some names ∧ ∃ name ∈ names, name.head? ≠ some 0x2E

/-- The kernel's release is 4.18 or later, and `/sys/fs/bpf` is a directory. -/
def AfxdpKernel (h : Host) : Prop :=
  (∃ data major minor, h.osrelease = some data ∧
    parseKernelVersion (trimSpace data) = some (major, minor) ∧
    (4 < major ∨ major = 4 ∧ 18 ≤ minor)) ∧
  ∃ mode, h.bpfMode = some mode ∧ sIsDir mode

theorem detect_rdma_iff (h : Host) : tier2Privileged.detect h ↔ RdmaDevice h := by
  have hprobe : rdmaProbe h = 1 ↔ RdmaDevice h := by
    unfold rdmaProbe RdmaDevice
    cases h.infiniband with
    | none => simp
    | some names => simp
  simp only [tier2Privileged, decide_eq_true_eq, hprobe]

theorem kernelSupportsAFXDP_iff (h : Host) :
    kernelSupportsAFXDP h ↔ ∃ data major minor, h.osrelease = some data ∧
      parseKernelVersion (trimSpace data) = some (major, minor) ∧
      (4 < major ∨ major = 4 ∧ 18 ≤ minor) := by
  unfold kernelSupportsAFXDP
  cases h.osrelease with
  | none => simp
  | some data =>
    cases hv : parseKernelVersion (trimSpace data) with
    | none => simp [hv]
    | some v =>
      obtain ⟨major, minor⟩ := v
      by_cases hm : 4 < major
      · simp [hv, hm]
      · simp [hv, hm]

theorem detect_afxdp_iff (h : Host) : tier1AFXDP.detect h ↔ AfxdpKernel h := by
  have hprobe : afxdpProbe h = 1 ↔ ∃ mode, h.bpfMode = some mode ∧ sIsDir mode := by
    unfold afxdpProbe
    cases h.bpfMode with
    | none => simp
    | some mode => cases hd : sIsDir mode <;> simp [hd]
  simp only [tier1AFXDP, AfxdpKernel, ← kernelSupportsAFXDP_iff, ← hprobe]
  cases kernelSupportsAFXDP h <;> simp

/-! ## The audit of a tier -/

/-- The audit of `p` against its entry of the requirements table finds no gap. -/
def Audited (h : Host) (p : Pier) : Prop :=
  ∃ req, requirementsForTier p.name = some req ∧ deficit h.caps h.rlimits req = []

/-- Every known capability is held. -/
def RootPrivileges (h : Host) : Prop := ∀ name ∈ capNames, CapSet.has h.caps name

/-- What an AF_XDP socket needs is held: raw sockets, loading programs and 16 MiB of locked
memory. -/
def AfxdpPrivileges (h : Host) : Prop :=
  CapSet.has h.caps "CAP_NET_RAW" ∧
  (CapSet.has h.caps "CAP_BPF" ∨ CapSet.has h.caps "CAP_SYS_ADMIN") ∧
  h.rlimits.supported ∧ 16 * 2 ^ 20 ≤ h.rlimits.memlockCur.toNat

theorem audited_iff_meets {h : Host} {p : Pier} {req : TierRequirements}
    (hreq : requirementsForTier p.name = some req) :
    Audited h p ↔ Meets h.caps h.rlimits req := by
  unfold Audited
  simp only [hreq, Option.some.injEq, exists_eq_left', deficit_eq_nil_iff]

/-- The base tier demands nothing. -/
theorem audited_udp (h : Host) : Audited h tier0UDP := by
  refine (audited_iff_meets rfl).mpr ?_
  constructor <;> simp

theorem audited_afxdp_iff (h : Host) : Audited h tier1AFXDP ↔ AfxdpPrivileges h := by
  refine (audited_iff_meets rfl).trans ?_
  have hmem : afxdpMinMemlockBytes.toNat = 16 * 2 ^ 20 := by decide
  constructor
  · intro m
    have hbpf := m.anyOf (by simp)
    have hlock := m.memlock (by decide)
    rw [UInt64.le_iff_toNat_le, hmem] at hlock
    exact ⟨m.capabilities _ (by simp), by simpa using hbpf, hlock⟩
  · rintro ⟨hraw, hbpf, hsup, hlock⟩
    refine ⟨by simpa using hraw, fun _ => by simpa using hbpf, fun _ => ⟨hsup, ?_⟩, by simp⟩
    rw [UInt64.le_iff_toNat_le, hmem]
    exact hlock

/-- The top tier's other requirement, `CAP_NET_ADMIN`, is one of root's. -/
theorem audited_rdma_iff (h : Host) : Audited h tier2Privileged ↔ RootPrivileges h := by
  refine (audited_iff_meets rfl).trans ?_
  constructor
  · intro m
    exact m.root rfl
  · intro hroot
    refine ⟨?_, by simp, by simp, fun _ => hroot⟩
    have hadmin := hroot "CAP_NET_ADMIN" (by decide)
    simpa using hadmin

/-! ## The tier selected -/

/-- **Detection and privileges.** The tier selected passes its audit exactly where a detected
device comes with root's capabilities and, where there is none, a capable kernel comes with what an
AF_XDP socket needs; and every tier detected passes its audit exactly where both do. -/
theorem selected_audited_iff (h : Host) :
    ((∃ p, (select h).1 = some p ∧ Audited h p) ↔
      (RdmaDevice h → RootPrivileges h) ∧
      (¬ RdmaDevice h → AfxdpKernel h → AfxdpPrivileges h)) ∧
    ((∀ p ∈ ladder, p.detect h → Audited h p) ↔
      (RdmaDevice h → RootPrivileges h) ∧ (AfxdpKernel h → AfxdpPrivileges h)) := by
  rw [select_fst, ← detect_rdma_iff, ← detect_afxdp_iff, ← audited_rdma_iff, ← audited_afxdp_iff]
  constructor
  · unfold ladder
    cases h2 : tier2Privileged.detect h with
    | true => simp [h2]
    | false =>
      cases h1 : tier1AFXDP.detect h with
      | true => simp [h2, h1]
      | false =>
        have h0 : tier0UDP.detect h = true := rfl
        simp [h2, h1, h0, audited_udp]
  · simp [ladder, audited_udp]

/-- A process without privileges on an ordinary host: release 6.8.0, the bpf file system mounted,
no RDMA device, no capability and 8 MiB of locked memory. -/
def unprivilegedHost : Host where
  osrelease := some [0x36, 0x2E, 0x38, 0x2E, 0x30, 0x0A]
  bpfMode := some 0o041700
  infiniband := none
  caps := 0
  rlimits :=
    { supported := true, memlockCur := 8388608, memlockMax := 8388608, nofileCur := 1024
      nofileMax := 1048576 }

/-- There the AF_XDP tier is detected and selected, and its audit finds a gap. -/
theorem unprivilegedHost_selected :
    (select unprivilegedHost).1 = some tier1AFXDP ∧
    ¬ (∃ p, (select unprivilegedHost).1 = some p ∧ Audited unprivilegedHost p) ∧
    ¬ (∀ p ∈ ladder, p.detect unprivilegedHost → Audited unprivilegedHost p) := by
  have hdet : tier1AFXDP.detect unprivilegedHost = true := by decide
  have hgap : ¬ Audited unprivilegedHost tier1AFXDP := by
    rw [audited_afxdp_iff]
    intro hpriv
    exact absurd hpriv.1 (by decide)
  have hsel : (select unprivilegedHost).1 = some tier1AFXDP := by
    have hrdma : tier2Privileged.detect unprivilegedHost = false := by decide
    rw [select_fst]
    simp [ladder, hrdma, hdet]
  refine ⟨hsel, ?_, ?_⟩
  · intro hall
    obtain ⟨p, hp, haud⟩ := hall
    rw [hsel] at hp
    cases hp
    exact hgap haud
  · intro hall
    exact hgap (hall tier1AFXDP (by simp [ladder]) hdet)

end Rewsr.Piers
