import Rewsr.Sys.CString

/-!
# The hugepage counters (`csrc/sys/hugepage.c`)
-/

namespace Rewsr.Sys

/-- The `while` loop of `parse_kv_u64` over the digits: `v`, and how many there are. -/
def kvDigits (v : UInt64) (digits : Nat) : List UInt8 → UInt64 × Nat
  | [] => (v, digits)
  | b :: p =>
    if 0x30 ≤ b ∧ b ≤ 0x39 then kvDigits (v * 10 + (b - 0x30).toUInt64) (digits + 1) p
    else (v, digits)

/-- `parse_kv_u64`: the number behind the key, where the line is one of it. -/
def parseKvU64 (line key : List UInt8) : Option UInt64 :=
  let klen := key.length
  if strncmp line key klen ≠ 0 ∨ deref (line.drop klen) ≠ 0x3A then none
  else
    let p := (line.drop (klen + 1)).dropWhile fun b => b = 0x20 ∨ b = 0x09
    let (v, digits) := kvDigits 0 0 p
    if digits = 0 then none else some v

/-- `struct rewsr_hugepage_info` -/
structure HugepageInfo where
  totalPages : UInt64 := 0
  freePages : UInt64 := 0
  pageSizeKb : UInt64 := 0
  deriving DecidableEq, Repr

/-- What `rewsr_hugepage_parse_meminfo` does with a line. -/
def HugepageInfo.readLine (out : HugepageInfo) (line : List UInt8) : HugepageInfo :=
  match parseKvU64 line (ascii "HugePages_Total") with
  | some v => { out with totalPages := v }
  | none =>
    match parseKvU64 line (ascii "HugePages_Free") with
    | some v => { out with freePages := v }
    | none =>
      match parseKvU64 line (ascii "Hugepagesize") with
      | some v => { out with pageSizeKb := v }
      | none => out

/-- `sizeof line` -/
def lineSize : Nat := 256

/-- The copy of bytes `start` up to `i` in the array `line`, with a NUL behind it. -/
def copyLine (buf : List UInt8) (start i : Nat) : List UInt8 :=
  let n := i - start
  let n := if n ≥ lineSize then lineSize - 1 else n
  cstr ((buf.drop start).take n)

/-- The loop of `rewsr_hugepage_parse_meminfo` from byte `i` on, where `rest` is left to scan. -/
def meminfoFrom (buf : List UInt8) (start : Nat) (out : HugepageInfo) (i : Nat) :
    List UInt8 → HugepageInfo
  | [] => out.readLine (copyLine buf start i)
  | b :: rest =>
    if b = 0x0A then meminfoFrom buf (i + 1) (out.readLine (copyLine buf start i)) (i + 1) rest
    else meminfoFrom buf start out (i + 1) rest

/-- `rewsr_hugepage_parse_meminfo` for the `len` bytes at `buf`: the result, and `*out`. -/
def hugepageParseMeminfo (buf : Option (List UInt8)) (out : HugepageInfo) : Int × HugepageInfo :=
  match buf with
  | none => (-1, out)
  | some buf => (0, meminfoFrom buf 0 {} 0 buf)

end Rewsr.Sys
