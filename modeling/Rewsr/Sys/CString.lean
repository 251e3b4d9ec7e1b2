import Rewsr.Host
import Rewsr.Lib.Decimal

/-!
# C strings

A pointer into a string is the bytes from it on, the terminating NUL left out: `p + n` is
`p.drop n`, and a loop that stops at the NUL stops at the end. The functions of the C library follow
their standard behaviour in the C locale.
-/

namespace Rewsr.Sys

/-- `*p` -/
def deref (p : List UInt8) : UInt8 := p.headD 0

/-- The string that starts a buffer. -/
def cstr (buf : List UInt8) : List UInt8 := buf.takeWhile (· ≠ 0)

/-- `strncmp` -/
def strncmp (a b : List UInt8) : Nat → Int
  | 0 => 0
  | n + 1 =>
    if deref a ≠ deref b then (deref a).toNat - (deref b).toNat
    else if deref a = 0 then 0
    else strncmp a.tail b.tail n

/-- `isspace` -/
def isspace (b : UInt8) : Bool := b = 0x20 ∨ (0x09 ≤ b ∧ b ≤ 0x0D)

/-- The sign that may precede the digits: whether it is a minus, and what follows. -/
def takeSign : List UInt8 → Bool × List UInt8
  | [] => (false, [])
  | b :: s => if b = 0x2D then (true, s) else if b = 0x2B then (false, s) else (false, b :: s)

/-- `strtol(p, &end, 10)` where `long` has 64 bits: the number, and `end`. White space and a sign
may precede the digits, and a number out of range is the bound next to it. Without digits `end` is
`p`. -/
def strtol (p : List UInt8) : Int × List UInt8 :=
  let (minus, s) := takeSign (p.dropWhile isspace)
  let ds := s.takeWhile Decimal.isDigit
  if ds = [] then (0, p)
  else
    let n : Int := Decimal.value ds
    (if minus then max (-n) (-(2 ^ 63)) else min n (2 ^ 63 - 1), s.dropWhile Decimal.isDigit)

/-- A string as a C function is given one. -/
structure CString where
  bytes : List UInt8
  nul : 0 ∉ bytes

end Rewsr.Sys
