import Rewsr.Go.Strings
import Rewsr.Piers.Caps

/-!
# The ladder of tiers (`pier/ladder.go` and the tiers' files, linux with cgo)

Each tier's detection on a host, the privileges its entry of the requirements table demands, and
the walk down the ladder that picks the first tier detected.
-/

namespace Rewsr.Piers

open Rewsr.Go

/-! ## The host -/

/-- What detection and the audit read of a host. -/
structure Host where
  /-- `/proc/sys/kernel/osrelease`, where it can be read -/
  osrelease : Option (List UInt8)
  /-- `st_mode` of `/sys/fs/bpf`, where `stat` succeeds -/
  bpfMode : Option UInt32
  /-- the names in `/dev/infiniband`, where it can be opened, as `readdir` gives them -/
  infiniband : Option (List (List UInt8))
  /-- the effective capability set -/
  caps : CapSet
  rlimits : Rlimits

/-- `S_ISDIR` -/
def sIsDir (mode : UInt32) : Bool := mode &&& 0o170000 = 0o040000

/-- `rewsr_afxdp_probe` -/
def afxdpProbe (h : Host) : Int :=
  match h.bpfMode with
  | none => 0
  | some mode => if !sIsDir mode then 0 else 1

/-- `rewsr_rdma_probe`: an entry other than a dot file. -/
def rdmaProbe (h : Host) : Int :=
  match h.infiniband with
  | none => 0
  | some names => if names.any fun name => name.head? ≠ some 0x2E then 1 else 0

/-! ## Kernel version -/

/-- `parseKernelVersion` -/
def parseKernelVersion (release : List UInt8) : Option (Int × Int) :=
  match splitN 0x2E 3 release with
  | major :: minor :: _ => do return (← atoi major, ← atoi minor)
  | _ => none

/-- `kernelSupportsAFXDP` -/
def kernelSupportsAFXDP (h : Host) : Bool :=
  match h.osrelease with
  | none => false
  | some data =>
    match parseKernelVersion (trimSpace data) with
    | none => false
    | some (major, minor) => if major > 4 then true else major = 4 && minor ≥ 18

/-! ## Tiers -/

/-- `Guarantees` -/
structure Guarantees where
  requiresRoot : Bool
  requiresKernelModule : Bool
  maxThroughputMbps : Int
  latencyBudgetUs : Int
  description : String
  deriving DecidableEq, Repr

/-- `Pier`, one rung of the ladder. -/
structure Pier where
  name : String
  detect : Host → Bool
  guarantees : Guarantees

/-- `Tier0UDP` -/
def tier0UDP : Pier where
  name := "tier0-udp"
  detect _ := true
  guarantees :=
    { requiresRoot := false
      requiresKernelModule := false
      maxThroughputMbps := 1000
      latencyBudgetUs := 2000
      description := "plain UDP sockets, pure Go, no privileges required, works anywhere" }

/-- `Tier1AFXDP` -/
def tier1AFXDP : Pier where
  name := "tier1-afxdp"
  detect h := if !kernelSupportsAFXDP h then false else afxdpProbe h = 1
  guarantees :=
    { requiresRoot := true
      requiresKernelModule := false
      maxThroughputMbps := 40000
      latencyBudgetUs := 50
      description := "AF_XDP zero-copy socket on a real NIC queue, needs Linux 4.18+ with " ++
        "bpf fs mounted and normally CAP_NET_RAW or root" }

/-- `Tier2Privileged` -/
def tier2Privileged : Pier where
  name := "tier2-privileged"
  detect h := rdmaProbe h = 1
  guarantees :=
    { requiresRoot := true
      requiresKernelModule := true
      maxThroughputMbps := 100000
      latencyBudgetUs := 5
      description := "RDMA/DPDK-class kernel-bypass NIC, needs RDMA-capable hardware, a loaded " ++
        "verbs driver, and normally root" }

/-- `TierRequirementsTable` -/
def tierRequirementsTable : List (String × TierRequirements) :=
  [(tier0UDP.name, { tier := tier0UDP.name }),
    (tier1AFXDP.name,
      { tier := tier1AFXDP.name
        capabilities := ["CAP_NET_RAW"]
        anyOfCapabilities := ["CAP_BPF", "CAP_SYS_ADMIN"]
        minMemlockBytes := afxdpMinMemlockBytes }),
    (tier2Privileged.name,
      { tier := tier2Privileged.name
        capabilities := ["CAP_NET_ADMIN"]
        requiresRoot := true
        requiresKernelModule := true })]

/-- `RequirementsForTier` -/
def requirementsForTier (name : String) : Option TierRequirements :=
  tierRequirementsTable.lookup name

/-! ## Selection -/

/-- `SkipReason` -/
structure SkipReason where
  pier : String
  reason : String
  deriving DecidableEq, Repr

/-- `Ladder`, the highest tier first. -/
def ladder : List Pier := [tier2Privileged, tier1AFXDP, tier0UDP]

/-- The report of `Select` on a tier it passes over. -/
def skipReason (p : Pier) : SkipReason :=
  let g := p.guarantees
  { pier := p.name
    reason := s!"not available on this host right now (needs: {g.description})" }

/-- `Select`'s loop from `skips` on over the rungs left. -/
def selectFrom (h : Host) (skips : List SkipReason) : List Pier → Option Pier × List SkipReason
  | [] => (none, skips)
  | p :: ps => if p.detect h then (some p, skips) else selectFrom h (skips ++ [skipReason p]) ps

/-- `Select` -/
def select (h : Host) : Option Pier × List SkipReason := selectFrom h [] ladder

end Rewsr.Piers
