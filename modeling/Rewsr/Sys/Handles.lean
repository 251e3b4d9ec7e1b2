import Rewsr.Lib.Resource

/-!
# What the C code holds of the system

The descriptors, mappings and blocks that system calls give and take back. A pointer that may be
`NULL` is an `Option`; `errno` is an argument of what failed.
-/

namespace Rewsr.Sys

open Resource

abbrev Addr := UInt64

inductive Handle where
  | fd (fd : Int)
  | map (addr : Addr) (size : UInt64)
  | block (addr : Addr)
  | thread (id : Nat) (fd : Int) (stop : Bool)
  deriving DecidableEq, Repr

/-- `neg_errno`, and the same expression elsewhere. -/
def negErrno (errno : Int) : Int := if errno ≠ 0 then -errno else -1

theorem negErrno_ne_zero (errno : Int) : negErrno errno ≠ 0 := by
  unfold negErrno
  split <;> omega

/-! ## What a field stands for -/

/-- A descriptor in an `int` that is negative where there is none. -/
def heldFd (fd : Int) : Multiset Handle := if 0 ≤ fd then {.fd fd} else 0

/-- A mapping, from the pointer and the size beside it. -/
def heldMap (map : Option Addr) (size : UInt64) : Multiset Handle :=
  match map with
  | some addr => {.map addr size}
  | none => 0

def heldBlock (p : Option Addr) : Multiset Handle :=
  match p with
  | some addr => {.block addr}
  | none => 0

@[simp] theorem heldFd_none : heldFd (-1) = 0 := rfl

@[simp] theorem heldFd_ofNat (fd : Nat) : heldFd (fd : Int) = {.fd (fd : Int)} := by simp [heldFd]

@[simp] theorem heldMap_none (size : UInt64) : heldMap none size = 0 := rfl

@[simp] theorem heldMap_some (addr : Addr) (size : UInt64) :
    heldMap (some addr) size = {.map addr size} := rfl

@[simp] theorem heldBlock_none : heldBlock none = 0 := rfl

@[simp] theorem heldBlock_some (addr : Addr) : heldBlock (some addr) = {.block addr} := rfl

end Rewsr.Sys
