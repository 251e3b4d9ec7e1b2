import Rewsr.Sys.CString

/-!
# The dump of a buffer (`util/hexdump.c`)

Offsets are numbers: no object is so long that `off` would wrap.
-/

namespace Rewsr.Util

/-- `REWSR_HEXDUMP_LINE_MAX` -/
def hexdumpLineMax : Nat := 80

/-- `hex_digit` -/
def hexDigit (nibble : UInt8) : UInt8 :=
  (ascii "0123456789abcdef").getD (nibble &&& 0x0F).toNat 0

/-- The first character of a column; a missing byte is shown as spaces. -/
def hexHigh (b : Option UInt8) : UInt8 :=
  match b with
  | some b => hexDigit (b >>> 4)
  | none => 0x20

def hexLow (b : Option UInt8) : UInt8 :=
  match b with
  | some b => hexDigit b
  | none => 0x20

/-- The columns, with one more space behind the eighth. -/
def hexColumns (bytes : List UInt8) : List UInt8 :=
  (List.range 16).flatMap fun i =>
    hexHigh bytes[i]? :: hexLow bytes[i]? :: 0x20 :: if i = 7 then [0x20] else []

/-- A character of the gutter. -/
def gutter (c : UInt8) : UInt8 := if 0x20 ≤ c ∧ c < 0x7F then c else 0x2E

/-- What `rewsr_hexdump_line` writes in front of the NUL. -/
def hexdumpText (offset : Nat) (bytes : List UInt8) : List UInt8 :=
  let digits := [28, 24, 20, 16, 12, 8, 4, 0].map fun shift =>
    hexDigit (UInt8.ofNat (offset >>> shift &&& 0x0F))
  digits ++ [0x20, 0x20] ++ hexColumns bytes ++ 0x7C :: (bytes.map gutter ++ [0x7C])

/-- `rewsr_hexdump_line`: the length, and `buf`. -/
def hexdumpLine (buf : List UInt8) (offset : Nat) (data : List UInt8) (n : Nat) :
    Option (Nat × List UInt8) := do
  let n := if n > 16 then 16 else n
  let bytes ← readN data 0 n
  let text := hexdumpText offset bytes
  let buf ← writeN buf 0 (text ++ [0])
  return (text.length, buf)

/-- The loop of `rewsr_hexdump` from `off` on, for at most as many rounds as there is fuel. -/
def hexdumpFrom (data : List UInt8) : Nat → List UInt8 → Nat → Option (List UInt8)
  | 0, _, _ => none
  | fuel + 1, line, off =>
    if off < data.length then do
      let n := data.length - off
      let n := if n > 16 then 16 else n
      let (_, line) ← hexdumpLine line off (data.drop off) n
      let rest ← hexdumpFrom data fuel line (off + 16)
      return Sys.cstr line ++ 0x0A :: rest
    else some []

/-- `rewsr_hexdump`: what it prints. `line` is what the array holds before. -/
def hexdump (line data : List UInt8) : Option (List UInt8) :=
  hexdumpFrom data (data.length + 1) line 0

end Rewsr.Util
