import Rewsr.Lib.Assign
import Rewsr.Probe.Kernel

/-!
# The XDP report (`probe/probe_xdp.go`)

The kernel's configuration and what `bpftool` says, next to the kernel release. The files and tools
of the host are arguments; `gunzip` is what the `gzip` package makes of a file.
-/

namespace Rewsr.Probe

open Rewsr.Go

/-- A result, or the text of an error. -/
abbrev Outcome (α : Type) := Except (List UInt8) α

/-! ## The kernel's configuration -/

/-- What `runTool` keeps of a tool's output. -/
def runTool (result : Outcome (List UInt8)) : Outcome (List UInt8) := result.map trimSpace

/-- A host as `XDPProbe` reads it: files by their path below the root, and the outcome of
`bpftool feature probe` where `bpftool` is installed. -/
structure XdpHost where
  file : List UInt8 → Outcome (List UInt8)
  gunzip : List UInt8 → Outcome (List UInt8)
  bpftool : Option (Outcome (List UInt8))

end Rewsr.Probe
