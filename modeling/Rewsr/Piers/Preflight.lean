import Rewsr.Piers.Ladder

/-!
# The preflight report (`pier/preflight.go`)

An audit of a list of tiers: for each tier whether it is detected and what privileges it lacks, and
which tier the ladder lands on. Selection and skips are computed in two passes, the second one
over the report of the first.
-/

namespace Rewsr.Piers

/-- What a report says of the process: the time, `os.Hostname`, `runtime.GOOS`, and what
`CurrentEUID`, `CurrentCaps` and `CurrentRlimits` return. -/
structure Process where
  now : Int
  hostname : String
  goos : String
  euid : Int
  caps : StatusCaps
  rlimits : Rlimits

/-- `TierPreflight` -/
structure TierPreflight where
  pier : String
  detected : Bool
  guarantees : Guarantees
  requirements : Option TierRequirements
  deficits : List String
  deriving DecidableEq, Repr

/-- `PreflightReport` -/
structure PreflightReport where
  generatedAt : Int
  hostname : String
  goos : String
  euid : Int
  caps : StatusCaps
  rlimits : Rlimits
  tiers : List TierPreflight
  selected : String
  skips : List SkipReason
  deriving DecidableEq, Repr

/-- The audit of one tier, `tp` of the first loop. -/
def tierPreflight (h : Host) (proc : Process) (p : Pier) : TierPreflight :=
  let tp : TierPreflight :=
    { pier := p.name, detected := p.detect h, guarantees := p.guarantees, requirements := none
      deficits := [] }
  match requirementsForTier p.name with
  | none => tp
  | some req =>
    { tp with
      requirements := some req
      deficits := if !req.trivial then deficit proc.caps.effective proc.rlimits req else [] }

/-- One turn of the first loop; an empty `Selected` stands for none so far. -/
def auditStep (h : Host) (proc : Process) (r : PreflightReport) (p : Pier) : PreflightReport :=
  let tp := tierPreflight h proc p
  let r := { r with tiers := r.tiers ++ [tp] }
  if r.selected = "" ∧ tp.detected then { r with selected := p.name } else r

/-- The reason a tier was skipped: its deficits, or what it needs. -/
def skipText (tp : TierPreflight) : String :=
  match tp.deficits with
  | [] => "not available on this host right now (needs: " ++ tp.guarantees.description ++ ")"
  | d :: ds => ds.foldl (fun reason d => reason ++ ("; " ++ d)) d

/-- The second loop, from `skips` on over the tiers left. -/
def skipsFrom (selected : String) (skips : List SkipReason) : List TierPreflight → List SkipReason
  | [] => skips
  | tp :: tps =>
    if tp.pier = selected then skips
    else skipsFrom selected (skips ++ [{ pier := tp.pier, reason := skipText tp }]) tps

/-- `Preflight` -/
def preflight (h : Host) (proc : Process) (piers : List Pier) : PreflightReport :=
  let r : PreflightReport :=
    { generatedAt := proc.now, hostname := proc.hostname, goos := proc.goos, euid := proc.euid
      caps := proc.caps, rlimits := proc.rlimits, tiers := [], selected := "", skips := [] }
  let r := piers.foldl (auditStep h proc) r
  { r with skips := skipsFrom r.selected r.skips r.tiers }

end Rewsr.Piers
