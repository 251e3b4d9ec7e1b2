import Rewsr.Probe.Xdp

/-!
# The tuning of the network interfaces (`probe/probe_net.go`)

The directories and files of the host are arguments, as is what `tc` prints.
-/

namespace Rewsr.Probe

open Rewsr.Go

/-! ## Queueing disciplines -/

/-- The word behind the first `dev`. -/
def qdiscDev : List (List UInt8) → List UInt8
  | f :: next :: rest => if f = ascii "dev" then next else qdiscDev (next :: rest)
  | _ => []

/-- The device and the kind in a line of `ParseTcQdisc`. -/
def qdiscLine (line : List UInt8) : Option (List UInt8 × List UInt8) :=
  let fields := fields line
  if fields.length < 5 ∨ fields.getD 0 [] ≠ ascii "qdisc" then none
  else
    let kind := fields.getD 1 []
    let dev := qdiscDev fields
    if dev = [] then none else some (dev, kind)

/-- `result` and `seen` of `ParseTcQdisc`; a missing entry is empty. -/
structure QdiscScan where
  result : List UInt8 → List (List UInt8) := fun _ => []
  seen : List UInt8 → List UInt8 → Bool := fun _ _ => false

/-- One line of `ParseTcQdisc`. -/
def QdiscScan.line (s : QdiscScan) (line : List UInt8) : QdiscScan :=
  match qdiscLine line with
  | none => s
  | some (dev, kind) =>
    if s.seen dev kind then s
    else
      { seen := Function.update s.seen dev (Function.update (s.seen dev) kind true)
        result := Function.update s.result dev (s.result dev ++ [kind]) }

/-- `ParseTcQdisc` -/
def parseTcQdisc (out : List UInt8) : List UInt8 → List (List UInt8) :=
  ((split 0x0A out).foldl QdiscScan.line {}).result

/-! ## Interfaces -/

/-- `readIntFile` -/
def readIntFile (file : Option (List UInt8)) : Int :=
  match file with
  | none => 0
  | some data => (atoi (trimSpace data)).getD 0

/-- `IfaceTuning` -/
structure IfaceTuning where
  name : List UInt8
  mtu : Int
  txQueueLen : Int
  operState : List UInt8
  rxQueues : Nat
  txQueues : Nat
  deriving DecidableEq

/-- A directory of `sys/class/net`: its name, its files where they can be read, and the names in
its `queues`. -/
structure NetDir where
  name : List UInt8
  mtu : Option (List UInt8)
  txQueueLen : Option (List UInt8)
  operState : Option (List UInt8)
  queues : Option (List (List UInt8))

/-- One entry of `queues`. -/
def IfaceTuning.countQueue (iface : IfaceTuning) (queue : List UInt8) : IfaceTuning :=
  if hasPrefix queue (ascii "rx-") then { iface with rxQueues := iface.rxQueues + 1 }
  else if hasPrefix queue (ascii "tx-") then { iface with txQueues := iface.txQueues + 1 }
  else iface

/-- `iface` of `NetTuningProbe` -/
def NetDir.tuning (dir : NetDir) : IfaceTuning :=
  let iface : IfaceTuning :=
    { name := dir.name, mtu := readIntFile dir.mtu, txQueueLen := readIntFile dir.txQueueLen
      operState := (dir.operState.map trimSpace).getD [], rxQueues := 0, txQueues := 0 }
  match dir.queues with
  | none => iface
  | some queues => queues.foldl IfaceTuning.countQueue iface

/-! ## The report -/

/-- A host as `NetTuningProbe` reads it. A listing that failed may have given some entries. -/
structure NetHost where
  dirs : List NetDir
  dirsError : Option (List UInt8)
  tc : Option (Outcome (List UInt8))

/-- `NetTuningReport` -/
structure NetTuningReport where
  interfaces : List IfaceTuning := []
  qdiscs : List UInt8 → List (List UInt8) := fun _ => []
  jumboFrames : Bool := false
  notes : List (List UInt8) := []

/-- One directory of `NetTuningProbe`. -/
def NetTuningReport.readDir (r : NetTuningReport) (dir : NetDir) : NetTuningReport :=
  let iface := dir.tuning
  let r := { r with interfaces := r.interfaces ++ [iface] }
  if dir.name ≠ ascii "lo" ∧ iface.mtu ≥ 9000 then { r with jumboFrames := true } else r

/-- `NetTuningProbe` -/
def netTuningProbe (host : NetHost) : NetTuningReport :=
  let r : NetTuningReport :=
    match host.dirsError with
    | none => {}
    | some err => { notes := [ascii "sys/class/net unreadable: " ++ err] }
  let r := host.dirs.foldl NetTuningReport.readDir r
  match host.tc.map runTool with
  | none => { r with notes := r.notes ++ [ascii "tc not on PATH, qdisc layout skipped"] }
  | some (.error err) =>
    { r with notes := r.notes ++ [ascii "tc qdisc show failed: " ++ err] }
  | some (.ok out) => { r with qdiscs := parseTcQdisc out }

end Rewsr.Probe
