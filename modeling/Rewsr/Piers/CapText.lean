import Rewsr.Go.Strings
import Rewsr.Piers.Caps

/-!
# Capability sets as text (`pier/caps.go`)

The four forms of a capability set: the mask, its hexadecimal text, the text in JSON, and the names;
and the three sets of `/proc/self/status`. A function that returns a value and an error returns both
here, as the source does.
-/

namespace Rewsr.Piers

open Rewsr.Go

/-- The errors, with the values that their texts name. -/
inductive CapError where
  /-- `empty capability mask` -/
  | emptyMask
  /-- `bad capability mask %q: %w` -/
  | badMask (s : List UInt8)
  /-- `unknown capability name %q` -/
  | unknownName (name : String)
  /-- `%s: %w`, the name of a status line and the error of its mask -/
  | badLine (name : List UInt8) (err : CapError)
  /-- `status data is missing %s lines` -/
  | missingLines (names : List (List UInt8))
  deriving DecidableEq, Repr

/-! ## Masks -/

/-- `ParseCapMask` -/
def parseCapMask (s : List UInt8) : CapSet × Option CapError :=
  let s := trimSpace s
  let s := trimPrefix (trimPrefix s (ascii "0x")) (ascii "0X")
  if s = [] then (0, some .emptyMask)
  else
    match parseUint 16 s with
    | none => (0, some (.badMask s))
    | some v => (v, none)

namespace CapSet

/-- `String` -/
def string (c : CapSet) : List UInt8 := sprintf016x c

/-- `MarshalJSON` -/
def marshalJSON (c : CapSet) : List UInt8 := [0x22] ++ string c ++ [0x22]

/-- `UnmarshalJSON`: the new value of `c`. -/
def unmarshalJSON (c : CapSet) (data : List UInt8) : CapSet × Option CapError :=
  match parseCapMask (trim data 0x22) with
  | (_, some err) => (c, some err)
  | (v, none) => (v, none)

/-! ## Names -/

/-- What `Names` calls a bit: `CAP_%d` beyond the table. -/
def capName (bit : Nat) : String :=
  if h : bit < capNames.length then capNames[bit] else s!"CAP_{bit}"

/-- `Names` -/
def names (c : CapSet) : List String :=
  ((List.range 64).filter fun bit => c &&& (1 <<< UInt64.ofNat bit) ≠ 0).map capName

end CapSet

/-- The loop of `CapSetOf` from the set so far on. -/
def capSetOfFrom (c : CapSet) : List String → CapSet × Option CapError
  | [] => (c, none)
  | n :: names =>
    match capBit n with
    | none => (0, some (.unknownName n))
    | some bit => capSetOfFrom (c ||| (1 <<< UInt64.ofNat bit)) names

/-- `CapSetOf` -/
def capSetOf (names : List String) : CapSet × Option CapError := capSetOfFrom 0 names

/-! ## The status file -/

/-- The lines of `/proc/self/status` that `ParseStatusCaps` reads. -/
inductive StatusKey where
  | eff
  | prm
  | bnd
  deriving DecidableEq, Repr

namespace StatusKey

/-- `CapEff`, `CapPrm` or `CapBnd`. -/
def name : StatusKey → List UInt8
  | eff => ascii "CapEff"
  | prm => ascii "CapPrm"
  | bnd => ascii "CapBnd"

/-- The line's first field. -/
def field (k : StatusKey) : List UInt8 := k.name ++ ascii ":"

/-- The `switch` on the first field. -/
def ofField (s : List UInt8) : Option StatusKey := [eff, prm, bnd].find? fun k => s = k.field

end StatusKey

/-- A set of the status file. -/
def StatusCaps.get (sc : StatusCaps) : StatusKey → CapSet
  | .eff => sc.effective
  | .prm => sc.permitted
  | .bnd => sc.bounding

/-- `*dst = v` -/
def StatusCaps.store (sc : StatusCaps) (k : StatusKey) (v : CapSet) : StatusCaps :=
  match k with
  | .eff => { sc with effective := v }
  | .prm => { sc with permitted := v }
  | .bnd => { sc with bounding := v }

/-- The zero value. -/
def StatusCaps.zero : StatusCaps :=
  { supported := false, effective := 0, permitted := 0, bounding := 0 }

/-- The variables of `ParseStatusCaps`: the sets so far, and `gotEff`, `gotPrm` and `gotBnd`. -/
structure StatusScan where
  sc : StatusCaps := .zero
  got : StatusKey → Bool := fun _ => false

/-- One line of `ParseStatusCaps`. The key counts as seen before its mask is read. -/
def StatusScan.line (st : StatusScan) (line : List UInt8) : Except CapError StatusScan :=
  match fields line with
  | key :: value :: _ =>
    match StatusKey.ofField key with
    | none => .ok st
    | some k =>
      let got := Function.update st.got k true
      match parseCapMask value with
      | (_, some err) => .error (.badLine k.name err)
      | (v, none) => .ok { sc := st.sc.store k v, got }
  | _ => .ok st

/-- The loop of `ParseStatusCaps`; an error ends it. -/
def StatusScan.lines (st : StatusScan) : List (List UInt8) → Except CapError StatusScan
  | [] => .ok st
  | l :: ls =>
    match st.line l with
    | .error err => .error err
    | .ok st => st.lines ls

/-- `ParseStatusCaps` -/
def parseStatusCaps (data : List UInt8) : StatusCaps × Option CapError :=
  match StatusScan.lines {} (split 0x0A data) with
  | .error err => (.zero, some err)
  | .ok st =>
    if !st.got .eff || !st.got .prm || !st.got .bnd then
      (.zero, some (.missingLines (([.eff, .prm, .bnd].filter fun k => !st.got k).map
        StatusKey.name)))
    else ({ st.sc with supported := true }, none)

end Rewsr.Piers
