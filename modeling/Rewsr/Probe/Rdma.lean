import Rewsr.Probe.Xdp

/-!
# The RDMA report (`probe/probe_rdma.go`)

What the tools print is an argument, and so is what `encoding/json` makes of a text.
-/

namespace Rewsr.Probe

open Rewsr.Go

/-- `RdmaLink` -/
structure RdmaLink where
  ifname : List UInt8
  port : Int
  state : List UInt8
  physicalState : List UInt8
  netdev : List UInt8

/-- `IbvDevice` -/
structure IbvDevice where
  hca : List UInt8
  transport : List UInt8 := []
  portState : List UInt8 := []
  linkLayer : List UInt8 := []
  deriving DecidableEq

/-! ## Devices -/

/-- `trimParen` -/
def trimParen (v : List UInt8) : List UInt8 :=
  match cut 0x28 v with
  | none => v
  | some (name, _) => trimSpace name

/-- What `ParseIbvDevinfo` writes to `cur`. -/
def IbvDevice.set (d : IbvDevice) (key value : List UInt8) : IbvDevice :=
  if key = ascii "transport" then { d with transport := trimParen value }
  else if key = ascii "state" then { d with portState := trimParen value }
  else if key = ascii "link_layer" then { d with linkLayer := value }
  else d

/-- `devices` of `ParseIbvDevinfo`, the one that `cur` points to apart from those before it. -/
structure IbvScan where
  before : List IbvDevice := []
  cur : Option IbvDevice := none

def IbvScan.devices (s : IbvScan) : List IbvDevice := s.before ++ s.cur.toList

/-- The `switch` of `ParseIbvDevinfo`. -/
def IbvScan.set (s : IbvScan) (key value : List UInt8) : IbvScan :=
  if key = ascii "hca_id" then { before := s.devices, cur := some { hca := value } }
  else { s with cur := s.cur.map fun d => d.set key value }

/-- One line of `ParseIbvDevinfo`. -/
def IbvScan.line (s : IbvScan) (line : List UInt8) : IbvScan :=
  match cut 0x3A line with
  | none => s
  | some (key, value) => s.set (trimSpace key) (trimSpace value)

/-- `ParseIbvDevinfo` -/
def parseIbvDevinfo (out : List UInt8) : List IbvDevice :=
  ((split 0x0A out).foldl IbvScan.line {}).devices

/-! ## The report -/

/-- `RDMAReport` -/
structure RdmaReport where
  sysfsDevices : List (List UInt8) := []
  links : List RdmaLink := []
  devices : List IbvDevice := []
  notes : List (List UInt8) := []

/-- A host as `RDMAProbe` reads it. `linkJson` is `ParseRdmaLinkJSON`, which is `json.Unmarshal`. -/
structure RdmaHost where
  infiniband : Outcome (List (List UInt8))
  rdma : Option (Outcome (List UInt8))
  linkJson : List UInt8 → Outcome (List RdmaLink)
  ibvDevinfo : Option (Outcome (List UInt8))

/-- What `RDMAProbe` does with the `rdma` tool. -/
def RdmaReport.readLinks (r : RdmaReport) (host : RdmaHost) : RdmaReport :=
  match host.rdma.map runTool with
  | none => { r with notes := r.notes ++ [ascii "rdma tool not on PATH"] }
  | some (.error err) => { r with notes := r.notes ++ [ascii "rdma link show failed: " ++ err] }
  | some (.ok out) =>
    match host.linkJson out with
    | .error err => { r with notes := r.notes ++ [ascii "rdma link JSON: " ++ err] }
    | .ok links => { r with links }

/-- `RDMAProbe` -/
def rdmaProbe (host : RdmaHost) : RdmaReport :=
  let r : RdmaReport :=
    match host.infiniband with
    | .ok names => { sysfsDevices := names }
    | .error err => { notes := [ascii "sys/class/infiniband unreadable: " ++ err] }
  let r := r.readLinks host
  match host.ibvDevinfo.map runTool with
  | none => { r with notes := r.notes ++ [ascii "ibv_devinfo not on PATH"] }
  | some (.error err) => { r with notes := r.notes ++ [ascii "ibv_devinfo failed: " ++ err] }
  | some (.ok out) => { r with devices := parseIbvDevinfo out }

/-- `HasActiveRDMA` -/
def RdmaReport.hasActiveRdma (r : RdmaReport) : Bool :=
  r.links.any (fun l => equalFold l.state (ascii "ACTIVE")) ||
    r.devices.any fun d => equalFold (trimPrefix d.portState (ascii "PORT_")) (ascii "ACTIVE")

end Rewsr.Probe
