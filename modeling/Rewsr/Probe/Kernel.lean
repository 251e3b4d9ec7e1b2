import Rewsr.Go.Strings
import Rewsr.Lib.Decimal

/-!
# The kernel's part of the XDP report (`probe/probe_xdp.go`)

What `XDPProbe` finds out about the kernel release, by a parser of its own.
-/

namespace Rewsr.Probe

open Rewsr.Go

/-- `ParseKernelRelease`: of the minor part only the leading digits count. -/
def parseKernelRelease (release : List UInt8) : Option (Int × Int) :=
  match splitN 0x2E 3 (trimSpace release) with
  | major :: minor :: _ =>
    let minorStr := minor.takeWhile Decimal.isDigit
    match atoi major, atoi minorStr with
    | some major, some minor => some (major, minor)
    | _, _ => none
  | _ => none

/-- The fields of `XDPReport` about the kernel release. -/
structure KernelReport where
  kernelRelease : List UInt8 := []
  kernelMajor : Int := 0
  kernelMinor : Int := 0
  kernelSupportsXDP : Bool := false
  deriving DecidableEq, Repr

/-- What `XDPProbe` reports of `proc/sys/kernel/osrelease`, where it can be read. -/
def xdpProbeKernel (osrelease : Option (List UInt8)) : KernelReport :=
  match osrelease with
  | none => {}
  | some release =>
    let kernelRelease := trimSpace release
    match parseKernelRelease kernelRelease with
    | none => { kernelRelease }
    | some (major, minor) =>
      { kernelRelease, kernelMajor := major, kernelMinor := minor
        kernelSupportsXDP := major > 4 || (major = 4 && minor ≥ 18) }

end Rewsr.Probe
