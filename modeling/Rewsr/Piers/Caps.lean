import Mathlib.Data.List.Basic

/-!
# Capabilities and what a tier requires (`pier/caps.go`)

Linux capability sets, the resource limits beside them, each tier's privilege requirements, and the
audit `deficit` that compares the two.
-/

namespace Rewsr.Piers

/-! ## Capability sets -/

/-- `capNames`, in the order of the capabilities' bits. -/
def capNames : List String :=
  ["CAP_CHOWN", "CAP_DAC_OVERRIDE", "CAP_DAC_READ_SEARCH", "CAP_FOWNER", "CAP_FSETID", "CAP_KILL",
    "CAP_SETGID", "CAP_SETUID", "CAP_SETPCAP", "CAP_LINUX_IMMUTABLE", "CAP_NET_BIND_SERVICE",
    "CAP_NET_BROADCAST", "CAP_NET_ADMIN", "CAP_NET_RAW", "CAP_IPC_LOCK", "CAP_IPC_OWNER",
    "CAP_SYS_MODULE", "CAP_SYS_RAWIO", "CAP_SYS_CHROOT", "CAP_SYS_PTRACE", "CAP_SYS_PACCT",
    "CAP_SYS_ADMIN", "CAP_SYS_BOOT", "CAP_SYS_NICE", "CAP_SYS_RESOURCE", "CAP_SYS_TIME",
    "CAP_SYS_TTY_CONFIG", "CAP_MKNOD", "CAP_LEASE", "CAP_AUDIT_WRITE", "CAP_AUDIT_CONTROL",
    "CAP_SETFCAP", "CAP_MAC_OVERRIDE", "CAP_MAC_ADMIN", "CAP_SYSLOG", "CAP_WAKE_ALARM",
    "CAP_BLOCK_SUSPEND", "CAP_AUDIT_READ", "CAP_PERFMON", "CAP_BPF", "CAP_CHECKPOINT_RESTORE"]

/-- `capBit`, the reverse lookup; the names are distinct. -/
def capBit (name : String) : Option Nat := capNames.idxOf? name

/-- A capability set as a mask, one bit per capability. -/
abbrev CapSet := UInt64

namespace CapSet

/-- `FullCapSet` -/
def full : CapSet := (1 <<< UInt64.ofNat capNames.length) - 1

/-- `HasIndex` -/
def hasIndex (c : CapSet) (bit : Int) : Bool :=
  if bit < 0 ∨ bit > 63 then false
  else decide (c &&& (1 <<< UInt64.ofNat bit.toNat) ≠ 0)

/-- `Has`: an unknown name is in no set. -/
def has (c : CapSet) (name : String) : Bool :=
  match capBit name with
  | none => false
  | some bit => hasIndex c bit

/-- `Count`, the bits that are set. -/
def count (c : CapSet) : Nat := (List.range 64).countP c.toNat.testBit

end CapSet

/-- `StatusCaps`, the sets of `/proc/self/status`. -/
structure StatusCaps where
  supported : Bool
  effective : CapSet
  permitted : CapSet
  bounding : CapSet
  deriving DecidableEq, Repr

/-! ## Limits and requirements -/

/-- `Rlimits` -/
structure Rlimits where
  supported : Bool
  memlockCur : UInt64
  memlockMax : UInt64
  nofileCur : UInt64
  nofileMax : UInt64
  deriving DecidableEq, Repr

/-- `TierRequirements` -/
structure TierRequirements where
  tier : String
  capabilities : List String := []
  anyOfCapabilities : List String := []
  minMemlockBytes : UInt64 := 0
  requiresRoot : Bool := false
  requiresKernelModule : Bool := false
  deriving DecidableEq, Repr

/-- `Trivial`: nothing at all is demanded. -/
def TierRequirements.trivial (req : TierRequirements) : Bool :=
  req.capabilities.length = 0 && req.anyOfCapabilities.length = 0 && req.minMemlockBytes = 0 &&
    !req.requiresRoot

/-- `afxdpMinMemlockBytes` -/
def afxdpMinMemlockBytes : UInt64 := (16 : UInt64) <<< 20

/-! ## The audit -/

/-- The gaps of `Deficit`'s loop over the required capabilities. -/
def capabilityGaps (c : CapSet) (names : List String) : List String :=
  (names.filter fun name => !CapSet.has c name).map fun name =>
    s!"missing required capability {name}"

/-- The gap of `Deficit` where none of the alternatives is held. -/
def anyOfGaps (c : CapSet) (names : List String) : List String :=
  if names.length > 0 then
    let joined := ", ".intercalate names
    if names.any (CapSet.has c) then []
    else [s!"missing all of {joined} (at least one required)"]
  else []

/-- The gap of `Deficit` in locked memory. -/
def memlockGaps (r : Rlimits) (need : UInt64) : List String :=
  if need > 0 then
    if !r.supported then
      ["RLIMIT_MEMLOCK could not be read on this host, cannot verify the required " ++
        s!"{need} bytes of locked memory"]
    else if r.memlockCur < need then
      [s!"RLIMIT_MEMLOCK current limit {r.memlockCur} bytes is below the required {need} bytes " ++
        s!"(hard limit {r.memlockMax})"]
    else []
  else []

/-- The gap of `Deficit` in the full set. -/
def rootGaps (c : CapSet) (requiresRoot : Bool) : List String :=
  if requiresRoot then
    let full := CapSet.full
    if c &&& full ≠ full then
      let missing : Int := CapSet.count full - CapSet.count (c &&& full)
      [s!"needs root: effective capability set is missing {missing} of the " ++
        s!"{CapSet.count full} capabilities a root process holds"]
    else []
  else []

/-- `Deficit`: one line for each gap between what is held and what a tier requires. -/
def deficit (c : CapSet) (r : Rlimits) (req : TierRequirements) : List String :=
  capabilityGaps c req.capabilities ++ anyOfGaps c req.anyOfCapabilities ++
    memlockGaps r req.minMemlockBytes ++ rootGaps c req.requiresRoot

end Rewsr.Piers
