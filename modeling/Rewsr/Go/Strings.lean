import Mathlib.Data.List.Basic
import Rewsr.Host

/-!
# Strings of the Go code

What the Go packages use of `strings` and `strconv`. A Go string is a sequence of bytes; the
functions here follow the standard library on every sequence, well-formed UTF-8 or not.
-/

namespace Rewsr.Go

/-! ## White space -/

/-- The UTF-8 encodings of the runes that `unicode.IsSpace` accepts. -/
def spaceRunes : List (List UInt8) :=
  [[0x09], [0x0A], [0x0B], [0x0C], [0x0D], [0x20],
    [0xC2, 0x85], [0xC2, 0xA0], [0xE1, 0x9A, 0x80],
    [0xE2, 0x80, 0x80], [0xE2, 0x80, 0x81], [0xE2, 0x80, 0x82], [0xE2, 0x80, 0x83],
    [0xE2, 0x80, 0x84], [0xE2, 0x80, 0x85], [0xE2, 0x80, 0x86], [0xE2, 0x80, 0x87],
    [0xE2, 0x80, 0x88], [0xE2, 0x80, 0x89], [0xE2, 0x80, 0x8A], [0xE2, 0x80, 0xA8],
    [0xE2, 0x80, 0xA9], [0xE2, 0x80, 0xAF], [0xE2, 0x81, 0x9F], [0xE3, 0x80, 0x80]]

/-- Strips leading runs of `runes`, at most `n` of them. -/
def trimRunes (runes : List (List UInt8)) : Nat → List UInt8 → List UInt8
  | 0, s => s
  | n + 1, s =>
    match runes.find? (·.isPrefixOf s) with
    | some r => trimRunes runes n (s.drop r.length)
    | none => s

/-- `strings.TrimLeftFunc(s, unicode.IsSpace)`; no rune is empty, so `s` has at most its length of
them. -/
def trimLeft (s : List UInt8) : List UInt8 := trimRunes spaceRunes s.length s

/-- `strings.TrimRightFunc(s, unicode.IsSpace)`. The first byte of a rune starts no other, so what a
decoder reading from the end finds is a rune that ends the string. -/
def trimRight (s : List UInt8) : List UInt8 :=
  (trimRunes (spaceRunes.map List.reverse) s.length s.reverse).reverse

/-- `strings.TrimSpace` -/
def trimSpace (s : List UInt8) : List UInt8 := trimRight (trimLeft s)

/-- The length of the space that starts a string, or 0. -/
def spaceLen (s : List UInt8) : Nat :=
  match spaceRunes.find? (·.isPrefixOf s) with
  | some r => r.length
  | none => 0

/-- The loop of `strings.Fields`: `word` is the field so far, and `skip` bytes are left of a space.
Only the first byte of a space starts one, so a scan by bytes finds the spaces that a decoder
does. -/
def fieldsFrom (word : List UInt8) : Nat → List UInt8 → List (List UInt8)
  | _, [] => if word = [] then [] else [word]
  | skip + 1, _ :: s => fieldsFrom word skip s
  | 0, b :: s =>
    match spaceLen (b :: s) with
    | 0 => fieldsFrom (word ++ [b]) 0 s
    | n + 1 => if word = [] then fieldsFrom [] n s else word :: fieldsFrom [] n s

/-- `strings.Fields` -/
def fields (s : List UInt8) : List (List UInt8) := fieldsFrom [] 0 s

/-! ## Splitting -/

/-- `strings.SplitN(s, sep, n)` for a separator of one byte: at most `n` parts, the last one
unsplit. -/
def splitN (sep : UInt8) : Nat → List UInt8 → List (List UInt8)
  | 0, _ => []
  | 1, s => [s]
  | n + 2, s =>
    if sep ∈ s then
      s.takeWhile (· ≠ sep) :: splitN sep (n + 1) ((s.dropWhile (· ≠ sep)).drop 1)
    else [s]

/-- `strings.Split` for a separator of one byte. -/
def split (sep : UInt8) (s : List UInt8) : List (List UInt8) := s.splitOn sep

/-- `strings.Cut` for a separator of one byte: what is before and after it. -/
def cut (sep : UInt8) (s : List UInt8) : Option (List UInt8 × List UInt8) :=
  if sep ∈ s then some (s.takeWhile (· ≠ sep), (s.dropWhile (· ≠ sep)).drop 1) else none

/-- `strings.HasPrefix` -/
def hasPrefix (s start : List UInt8) : Bool := start.isPrefixOf s

/-- `strings.TrimPrefix` -/
def trimPrefix (s start : List UInt8) : List UInt8 :=
  if start.isPrefixOf s then s.drop start.length else s

/-- `strings.Trim` for a cutset of one byte. -/
def trim (s : List UInt8) (b : UInt8) : List UInt8 :=
  ((s.dropWhile (· = b)).reverse.dropWhile (· = b)).reverse

/-- The lower case of an ASCII letter. -/
def lower (b : UInt8) : UInt8 := if 0x41 ≤ b ∧ b ≤ 0x5A then b + 0x20 else b

/-- `strings.EqualFold` with a string of ASCII letters other than `K` and `S`, which no rune outside
ASCII folds to. -/
def equalFold (s t : List UInt8) : Bool := s.map lower = t.map lower

/-! ## Numbers -/

/-- A decimal digit's value. -/
def digit (b : UInt8) : Option Nat :=
  if 0x30 ≤ b ∧ b ≤ 0x39 then some (b.toNat - 0x30) else none

/-- The number that decimal digits write; `none` where a byte is no digit. -/
def digits (s : List UInt8) : Option Nat :=
  s.foldlM (fun n b => (digit b).map (n * 10 + ·)) 0

/-- `strconv.Atoi`: a sign and at least one digit, in the range of a 64-bit `int`. -/
def atoi (s : List UInt8) : Option Int :=
  let (neg, ds) :=
    match s with
    | b :: r => if b = 0x2D then (true, r) else if b = 0x2B then (false, r) else (false, b :: r)
    | [] => (false, [])
  if ds = [] then none
  else
    match digits ds with
    | none => none
    | some n =>
      if neg then if n ≤ 2 ^ 63 then some (-(n : Int)) else none
      else if n < 2 ^ 63 then some (n : Int) else none

/-- A digit's value in bases up to 36, letters in either case. -/
def baseDigit (b : UInt8) : Option Nat :=
  let l := b ||| 0x20
  if 0x30 ≤ b ∧ b ≤ 0x39 then some (b.toNat - 0x30)
  else if 0x61 ≤ l ∧ l ≤ 0x7A then some (l.toNat - 0x61 + 10)
  else none

/-- `strconv.ParseUint(s, base, 64)` for a base other than 0: digits below the base, at least one,
and a number of 64 bits. -/
def parseUint (base : Nat) (s : List UInt8) : Option UInt64 :=
  if s = [] then none
  else do
    let n ← s.foldlM (fun n b => do
      let d ← baseDigit b
      if d < base then some (n * base + d) else none) 0
    if n < 2 ^ 64 then some (UInt64.ofNat n) else none

/-- A hexadecimal digit, in lower case. -/
def hexChar (d : Nat) : UInt8 := if d < 10 then UInt8.ofNat (0x30 + d) else UInt8.ofNat (0x57 + d)

/-- `fmt.Sprintf("%016x", v)`; sixteen digits hold every value. -/
def sprintf016x (v : UInt64) : List UInt8 :=
  (List.range 16).map fun i => hexChar (v.toNat / 16 ^ (15 - i) % 16)

end Rewsr.Go
