import Mathlib.Algebra.Ring.Int.Defs
import Mathlib.Data.Finset.Card
import Mathlib.Data.Finset.Range
import Rewsr.Sys.Affinity

/-!
# Cpulists

The lists of CPUs that the kernel writes, such as `0-3,8,12-15`: what they look like, and the CPUs
they name. The readers of such lists are compared with it.
-/

namespace Rewsr.Sys

/-- The sign of a number. -/
inductive Sign where
  | none
  | plus
  | minus
  deriving DecidableEq, Repr

def Sign.text : Sign → List UInt8
  | .none => []
  | .plus => ascii "+"
  | .minus => ascii "-"

/-- A number as `strtol` reads it. -/
structure Numeral where
  spaces : List UInt8
  sign : Sign
  digits : List UInt8
  spaces_space : ∀ b ∈ spaces, isspace b = true
  digits_ne : digits ≠ []
  digits_number : Decimal.IsNumber digits

namespace Numeral

def text (x : Numeral) : List UInt8 := x.spaces ++ (x.sign.text ++ x.digits)

/-- The number, or the bound of `long` next to it. -/
def val (x : Numeral) : Int :=
  if x.sign = .minus then max (-(Decimal.value x.digits : Int)) (-(2 ^ 63))
  else min (Decimal.value x.digits : Int) (2 ^ 63 - 1)

end Numeral

/-- A token of a list: `lo` or `lo-hi`. -/
structure Token where
  lo : Numeral
  hi : Option Numeral

namespace Token

def text (t : Token) : List UInt8 :=
  match t.hi with
  | none => t.lo.text
  | some hi => t.lo.text ++ 0x2D :: hi.text

/-- The first CPU. -/
def first (t : Token) : Int := t.lo.val

/-- The last CPU. -/
def last (t : Token) : Int :=
  match t.hi with
  | none => t.lo.val
  | some hi => hi.val

/-- A range of CPUs that a set can hold. -/
def Valid (t : Token) : Prop := 0 ≤ t.first ∧ t.first ≤ t.last ∧ t.last < cpusetMax

instance (t : Token) : Decidable t.Valid := inferInstanceAs (Decidable (_ ∧ _ ∧ _))

/-- A CPU of the token's range. -/
def Names (t : Token) (c : Nat) : Prop := t.first ≤ c ∧ (c : Int) ≤ t.last

instance (t : Token) (c : Nat) : Decidable (t.Names c) :=
  inferInstanceAs (Decidable (_ ∧ _))

/-- How many CPUs the token names. -/
def size (t : Token) : Int := t.last - t.first + 1

end Token

/-- A list of tokens: a comma behind each, which the last one may lack. -/
inductive Cpulist : List Token → List UInt8 → Prop
  | empty : Cpulist [] []
  | last (t : Token) : Cpulist [t] t.text
  | comma (t : Token) {ts : List Token} {s : List UInt8} :
    Cpulist ts s → Cpulist (t :: ts) (t.text ++ 0x2C :: s)

/-- The sum of the ranges' sizes. -/
def total (ts : List Token) : Int := (ts.map Token.size).sum

/-- The CPUs that some token names. -/
def named (ts : List Token) : Finset Nat :=
  (Finset.range cpusetMax).filter fun c => ∃ t ∈ ts, t.Names c

end Rewsr.Sys
