import Rewsr.Sys.Numa

/-!
# The NUMA nodes of a host (`csrc/sys/numa.c`)

The files of sysfs are arguments: what `fopen` finds at the path of a node, an interface. The fuel
of a scan is the length of its line and one, for every round takes a byte.
-/

namespace Rewsr.Sys

/-- `EINVAL`, `ENOENT` -/
def einval : Int := 22
def enoent : Int := 2

/-- `REWSR_NUMA_MAX_NODES` -/
def numaMaxNodes : Nat := 16

/-- `struct rewsr_numa_topology` -/
structure NumaTopology where
  numNodes : Int
  distance : List (List UInt8)
  cpuCount : List Int
  deriving DecidableEq, Repr

/-- `memset(topo, 0, sizeof *topo)` -/
def NumaTopology.zero : NumaTopology where
  numNodes := 0
  distance := List.replicate numaMaxNodes (List.replicate numaMaxNodes 0)
  cpuCount := List.replicate numaMaxNodes 0

/-! ## Rows of distances -/

/-- The loop of `rewsr_numa_parse_distance` for as many rounds as `fuel` at most: what it returns,
and `out`. -/
def numaParseDistanceFrom (max : Nat) :
    Nat → Nat → List UInt8 → List UInt8 → Option (Int × List UInt8)
  | 0, _, _, _ => none
  | fuel + 1, n, out, p =>
    if deref p = 0 ∨ ¬ n < max then some (n, out)
    else
      let p := p.dropWhile isBlank
      if deref p = 0 ∨ deref p = 0x0A then some (n, out)
      else
        let (v, e) := strtol p
        if e = p ∨ v < 0 ∨ v > 255 then some (-1, out)
        else
          match writeN out n [UInt8.ofNat v.toNat] with
          | none => none
          | some out => numaParseDistanceFrom max fuel (n + 1) out e

/-- `rewsr_numa_parse_distance` -/
def numaParseDistance (line : Option CString) (out : List UInt8) (max : Nat) :
    Option (Int × List UInt8) :=
  match line with
  | none => some (-1, out)
  | some line => numaParseDistanceFrom max (line.bytes.length + 1) 0 out line.bytes

/-! ## Files -/

/-- `fgets` on a file from its start: up to a newline, and `cap - 1` bytes at most. -/
def fgets (bytes : List UInt8) (cap : Nat) : Option (List UInt8) :=
  let line := bytes.take (cap - 1)
  if bytes = [] then none else some (line.take ((line.takeWhile (· ≠ 0x0A)).length + 1))

theorem nul_not_mem_cstr (buf : List UInt8) : 0 ∉ cstr buf :=
  fun h => by simpa using List.mem_takeWhile_imp h

/-- `read_line_file`: the line without its newline. -/
def readLineFile (file : Option (List UInt8)) (cap : Nat) : Option CString :=
  match file.bind (fgets · cap) with
  | none => none
  | some buf =>
    let line := cstr buf
    some ⟨if line.getLast? = some 0x0A then line.dropLast else line, by
      split
      · exact fun h => nul_not_mem_cstr buf (List.dropLast_subset _ h)
      · exact nul_not_mem_cstr buf⟩

/-- The files of a node. -/
structure NodeFiles where
  distance : Option (List UInt8)
  cpulist : Option (List UInt8)

/-- The loop of `rewsr_numa_read_topology` with `k` nodes left. -/
def numaReadNodes (sys : Nat → NodeFiles) : Nat → Nat → NumaTopology → Option (Int × NumaTopology)
  | 0, _, topo => some (if topo.numNodes > 0 then 0 else -enoent, topo)
  | k + 1, node, topo =>
    match readLineFile (sys node).distance 512 with
    | none => some (if topo.numNodes > 0 then 0 else -enoent, topo)
    | some line =>
      match numaParseDistance (some line) (topo.distance.getD node []) numaMaxNodes with
      | none => none
      | some (d, row) =>
        let topo := { topo with distance := topo.distance.set node row }
        if d < 0 then some (-einval, topo)
        else
          let topo := { topo with numNodes := node + 1 }
          match readLineFile (sys node).cpulist 512 with
          | none => numaReadNodes sys k (node + 1) topo
          | some line =>
            match numaCountCpus (line.bytes.length + 1) (some line) with
            | none => none
            | some c =>
              numaReadNodes sys k (node + 1)
                { topo with cpuCount := topo.cpuCount.set node (if c < 0 then 0 else c) }

/-- `rewsr_numa_read_topology` -/
def numaReadTopology (sys : Nat → NodeFiles) : Option (Int × NumaTopology) :=
  numaReadNodes sys numaMaxNodes 0 .zero

/-- `rewsr_numa_node_of_netdev` -/
def numaNodeOfNetdev (file : Option (List UInt8)) : Int :=
  match readLineFile file 32 with
  | none => -1
  | some line => (strtol line.bytes).1.bmod (2 ^ 32)

/-! ## The nearest node -/

end Rewsr.Sys
