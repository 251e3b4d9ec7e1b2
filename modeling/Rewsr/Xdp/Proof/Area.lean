import Rewsr.Xdp.Proof.FramePool
import Rewsr.Xdp.Xsk

/-!
# The packet buffer

A write into one chunk leaves the bytes of a frame in another alone (`readArea_write_other`), and is
read back where it was made (`readArea_write`).
-/

namespace Rewsr.Xdp

/-- A range of `n` bytes at `addr` inside the chunk `a`. -/
def Inside (chunkSize : UInt32) (a addr : UInt64) (n : Nat) : Prop :=
  (addr - a).toNat + n ≤ chunkSize.toNat

@[simp] theorem length_readArea (area : UInt64 → UInt8) (addr : UInt64) (n : Nat) :
    (readArea area addr n).length = n := by simp [readArea]

theorem readArea_congr {area area' : UInt64 → UInt8} {addr : UInt64} {n : Nat}
    (h : ∀ i < n, area (addr + UInt64.ofNat i) = area' (addr + UInt64.ofNat i)) :
    readArea area addr n = readArea area' addr n :=
  List.map_congr_left fun i hi => h i (List.mem_range.1 hi)

theorem readArea_write (area : UInt64 → UInt8) (addr : UInt64) {bs : List UInt8} {n : Nat}
    (hn : n ≤ bs.length) (hlt : bs.length < 2 ^ 64) :
    readArea (writeArea area addr bs) addr n = bs.take n := by
  refine List.ext_getElem ?_ fun i hi hi' => ?_
  · rw [length_readArea, List.length_take, Nat.min_eq_left hn]
  · rw [length_readArea] at hi
    have hlt' : i < 2 ^ 64 := by omega
    have hoff : (addr + UInt64.ofNat i - addr).toNat = i := by
      rw [UInt64.add_comm, UInt64.add_sub_cancel, UInt64.toNat_ofNat_of_lt' hlt']
    simp only [readArea, writeArea, List.getElem_map, List.getElem_range, hoff, List.getElem_take]
    rw [List.getD_eq_getElem?_getD, List.getElem?_eq_getElem (by omega), Option.getD_some]

section
variable {p : FramePool}

/-- Where the bytes of a range inside a chunk are, as numbers. -/
theorem Inside.toNat_add {a addr : UInt64} {n i : Nat} (h : Inside p.chunkSize a addr n)
    (ha : a ∈ chunks p.capacity.toNat p.chunkSize) (hi : i < n) :
    ∃ k < p.capacity.toNat, k * p.chunkSize.toNat ≤ (addr + UInt64.ofNat i).toNat ∧
      (addr + UInt64.ofNat i).toNat < (k + 1) * p.chunkSize.toNat ∧
      a.toNat = k * p.chunkSize.toNat := by
  obtain ⟨k, hk, hak⟩ := FramePool.mem_chunks ha
  have hs := p.chunkSize.toNat_lt
  have hc := p.capacity.toNat_lt
  have hprod : (k + 1) * p.chunkSize.toNat ≤ (2 ^ 32 - 1) * (2 ^ 32 - 1) :=
    Nat.mul_le_mul (by omega) (by omega)
  rw [Nat.add_mul, Nat.one_mul] at hprod
  rw [Inside] at h
  have haddr : addr + UInt64.ofNat i = a + (addr - a) + UInt64.ofNat i := by
    rw [UInt64.add_comm a, UInt64.sub_add_cancel]
  have hnat : (addr + UInt64.ofNat i).toNat = k * p.chunkSize.toNat + (addr - a).toNat + i := by
    have hlt : i < 2 ^ 64 := by omega
    rw [haddr, UInt64.toNat_add, UInt64.toNat_add, UInt64.toNat_ofNat_of_lt' hlt, hak]
    omega
  refine ⟨k, hk, ?_, ?_, hak⟩
  · rw [hnat]
    omega
  · rw [hnat, Nat.add_mul, Nat.one_mul]
    omega

/-- A write into one chunk does not reach a range inside another. -/
theorem readArea_write_other {a b addr dest : UInt64} {n : Nat} {bs : List UInt8}
    (ha : a ∈ chunks p.capacity.toNat p.chunkSize) (hb : b ∈ chunks p.capacity.toNat p.chunkSize)
    (hne : a ≠ b) (hin : Inside p.chunkSize a addr n) (hdest : Inside p.chunkSize b dest bs.length)
    (area : UInt64 → UInt8) : readArea (writeArea area dest bs) addr n = readArea area addr n := by
  refine readArea_congr fun i hi => ?_
  by_cases hlt : bs.length ≤ (addr + UInt64.ofNat i - dest).toNat
  · rw [writeArea, List.getD_eq_getElem?_getD, List.getElem?_eq_none hlt, Option.getD_none]
  rw [Nat.not_le] at hlt
  -- the byte would lie in both chunks
  have hback : dest + UInt64.ofNat (addr + UInt64.ofNat i - dest).toNat =
      addr + UInt64.ofNat i := by
    rw [UInt64.ofNat_toNat, UInt64.add_comm, UInt64.sub_add_cancel]
  obtain ⟨k, -, hlo, hhi, hak⟩ := hin.toNat_add ha hi
  obtain ⟨k', -, hlo', hhi', hbk⟩ := hdest.toNat_add hb hlt
  rw [hback] at hlo' hhi'
  have h1 : k < k' + 1 := Nat.lt_of_mul_lt_mul_right (Nat.lt_of_le_of_lt hlo hhi')
  have h2 : k' < k + 1 := Nat.lt_of_mul_lt_mul_right (Nat.lt_of_le_of_lt hlo' hhi)
  obtain rfl : k = k' := by omega
  exact absurd (UInt64.toNat_inj.1 (hak.trans hbk.symm)) hne

end

end Rewsr.Xdp
