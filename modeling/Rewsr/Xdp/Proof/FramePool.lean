import Mathlib.Data.List.Nodup
import Mathlib.Logic.Relation
import Rewsr.Ring.Proof.XskRing
import Rewsr.Xdp.FramePool

/-!
# Chunks and the pool

The chunks of a pool are the multiples of its chunk size below its capacity (`chunks`). An address
inside a chunk is masked down to it (`chunkBase_of_inside`), so freeing one pushes its chunk as long
as the pool is not full (`free_of_base`).

A client that allocates chunks and frees what it holds, by any address inside, keeps the stack and
what it holds a partition of the chunks (`PoolInv`); `pool_conserves` is about all its runs.
-/

namespace Rewsr.Xdp

/-- The addresses of `n` chunks. -/
def chunks (n : Nat) (chunkSize : UInt32) : List UInt64 :=
  (List.range n).map fun i => UInt64.ofNat i * chunkSize.toUInt64

theorem seed_eq (chunkSize : UInt32) (n : Nat) (stack : List UInt64) :
    FramePool.seed chunkSize n stack = chunks n chunkSize ++ stack := by
  induction n generalizing stack with
  | zero => rfl
  | succ n ih => rw [FramePool.seed, ih, chunks, chunks, List.range_succ]; simp

@[simp] theorem length_chunks (n : Nat) (chunkSize : UInt32) : (chunks n chunkSize).length = n := by
  simp [chunks]

namespace FramePool

/-- The chunk size is a power of two, as the initialiser checks. -/
def Wf (p : FramePool) : Prop := p.chunkSize.toNat.isPowerOfTwo

theorem init_some {n cs : UInt32} {p : FramePool} (h : init n cs = some p) :
    p.Wf ∧ p.stack = chunks n.toNat cs ∧ p.capacity = n ∧ p.chunkSize = cs := by
  unfold init at h
  split at h
  · cases h
  · rename_i hne
    rw [Bool.or_eq_true, not_or, Bool.not_eq_true', Bool.not_eq_false] at hne
    cases h
    exact ⟨(Ring.isPow2_iff cs).1 hne.2, by rw [seed_eq, List.append_nil], rfl, rfl⟩

variable {p : FramePool}

theorem chunk_toNat {i : Nat} (hi : i < p.capacity.toNat) :
    (UInt64.ofNat i * p.chunkSize.toUInt64).toNat = i * p.chunkSize.toNat := by
  have hc := p.capacity.toNat_lt
  have hs := p.chunkSize.toNat_lt
  have hprod : i * p.chunkSize.toNat < 2 ^ 32 * 2 ^ 32 :=
    Nat.mul_lt_mul'' (Nat.lt_trans hi hc) hs
  rw [UInt64.toNat_mul, UInt64.toNat_ofNat', UInt32.toNat_toUInt64,
    Nat.mod_eq_of_lt (a := i) (by omega), Nat.mod_eq_of_lt (by omega)]

theorem mem_chunks {a : UInt64} (h : a ∈ chunks p.capacity.toNat p.chunkSize) :
    ∃ i < p.capacity.toNat, a.toNat = i * p.chunkSize.toNat := by
  obtain ⟨i, hi, rfl⟩ := List.mem_map.1 h
  have hi := List.mem_range.1 hi
  exact ⟨i, hi, chunk_toNat hi⟩

theorem nodup_chunks (hwf : p.Wf) : (chunks p.capacity.toNat p.chunkSize).Nodup := by
  refine List.Nodup.map_on ?_ List.nodup_range
  intro i hi j hj hij
  have hij := congrArg UInt64.toNat hij
  rw [chunk_toNat (List.mem_range.1 hi), chunk_toNat (List.mem_range.1 hj)] at hij
  exact Nat.eq_of_mul_eq_mul_right (Nat.pos_of_isPowerOfTwo hwf) hij

theorem chunkBase_of_inside (hwf : p.Wf) {a addr : UInt64}
    (ha : a ∈ chunks p.capacity.toNat p.chunkSize)
    (hoff : (addr - a).toNat < p.chunkSize.toNat) : p.chunkBase addr = a := by
  obtain ⟨i, hi, hai⟩ := mem_chunks ha
  obtain ⟨k, hk⟩ := hwf
  have hs := p.chunkSize.toNat_lt
  have hc := p.capacity.toNat_lt
  have hprod : (i + 1) * p.chunkSize.toNat ≤ (2 ^ 32 - 1) * (2 ^ 32 - 1) :=
    Nat.mul_le_mul (by omega) (by omega)
  have haddr : addr.toNat = a.toNat + (addr - a).toNat := by
    have hadd : addr = a + (addr - a) := by rw [UInt64.add_comm, UInt64.sub_add_cancel]
    have := congrArg UInt64.toNat hadd
    rw [UInt64.toNat_add, Nat.mod_eq_of_lt] at this
    · exact this
    · rw [hai]
      rw [Nat.add_mul, Nat.one_mul] at hprod
      omega
  apply UInt64.toNat_inj.1
  rw [chunkBase, Counter.toNat_and_not_mask (k := k) (by rw [UInt32.toNat_toUInt64, hk]), haddr,
    hai, ← hk, Nat.add_comm, Nat.add_mul_div_right _ _ (by omega), Nat.div_eq_of_lt hoff,
    Nat.zero_add]

theorem chunkBase_chunk (hwf : p.Wf) {a : UInt64} (ha : a ∈ chunks p.capacity.toNat p.chunkSize) :
    p.chunkBase a = a := by
  refine chunkBase_of_inside hwf ha ?_
  rw [UInt64.sub_self]
  exact Nat.pos_of_isPowerOfTwo hwf

/-- The product that bounds the addresses fits 64 bits. -/
theorem limit_toNat (p : FramePool) : (p.capacity.toUInt64 * p.chunkSize.toUInt64).toNat =
    p.capacity.toNat * p.chunkSize.toNat := by
  have hs := p.chunkSize.toNat_lt
  have hc := p.capacity.toNat_lt
  have hprod : p.capacity.toNat * p.chunkSize.toNat ≤ (2 ^ 32 - 1) * (2 ^ 32 - 1) :=
    Nat.mul_le_mul (by omega) (by omega)
  rw [UInt64.toNat_mul, UInt32.toNat_toUInt64, UInt32.toNat_toUInt64, Nat.mod_eq_of_lt (by omega)]

/-- Freeing an address of a chunk pushes the chunk, as long as the pool is not full. -/
theorem free_of_base {addr : UInt64} (ha : p.chunkBase addr ∈ chunks p.capacity.toNat p.chunkSize)
    (hwf : p.Wf) (hroom : p.stack.length < p.capacity.toNat) :
    p.free addr = (true, { p with stack := p.chunkBase addr :: p.stack }) := by
  obtain ⟨i, hi, hai⟩ := mem_chunks ha
  have hpos := Nat.pos_of_isPowerOfTwo hwf
  have hle : (i + 1) * p.chunkSize.toNat ≤ p.capacity.toNat * p.chunkSize.toNat :=
    Nat.mul_le_mul_right _ hi
  rw [Nat.add_mul, Nat.one_mul] at hle
  have hrange : ¬ p.chunkBase addr ≥ p.capacity.toUInt64 * p.chunkSize.toUInt64 := by
    rw [ge_iff_le, UInt64.le_iff_toNat_le, limit_toNat, hai]
    omega
  unfold free
  rw [if_neg (by omega)]
  dsimp only
  rw [if_neg hrange]

theorem free_chunk (hwf : p.Wf) {a : UInt64} (ha : a ∈ chunks p.capacity.toNat p.chunkSize)
    (hroom : p.stack.length < p.capacity.toNat) :
    p.free a = (true, { p with stack := a :: p.stack }) := by
  have hbase := chunkBase_chunk hwf ha
  rw [free_of_base (by rwa [hbase]) hwf hroom, hbase]

end FramePool

/-! ## Clients of a pool -/

/-- A pool and the chunks allocated from it and not yet freed. -/
structure PoolClient where
  pool : FramePool
  held : List UInt64

/-- `addr` lies in the chunk at `a`. -/
def InChunk (p : FramePool) (a addr : UInt64) : Prop :=
  a.toNat ≤ addr.toNat ∧ addr.toNat < a.toNat + p.chunkSize.toNat

instance (p : FramePool) (a addr : UInt64) : Decidable (InChunk p a addr) :=
  inferInstanceAs (Decidable (_ ∧ _))

/-- A call of a client: an allocation, with its result, or a free of an address in a chunk held. -/
inductive PoolStep : PoolClient → PoolClient → Prop
  | alloc {s : PoolClient} {a : UInt64} {p : FramePool} :
      s.pool.alloc = some (a, p) → PoolStep s ⟨p, a :: s.held⟩
  | allocFails {s : PoolClient} : s.pool.alloc = none → PoolStep s s
  | free {s : PoolClient} {a addr : UInt64} : a ∈ s.held → InChunk s.pool a addr →
      PoolStep s ⟨(s.pool.free addr).2, s.held.erase a⟩

/-- The stack and the chunks held are the chunks of the pool, each once. -/
structure PoolInv (numFrames chunkSize : UInt32) (s : PoolClient) : Prop where
  wf : s.pool.Wf
  capacity : s.pool.capacity = numFrames
  chunk : s.pool.chunkSize = chunkSize
  perm : (s.pool.stack ++ s.held).Perm (chunks numFrames.toNat chunkSize)

namespace PoolInv

variable {numFrames chunkSize : UInt32} {s s' : PoolClient} (h : PoolInv numFrames chunkSize s)
include h

theorem length_eq : s.pool.stack.length + s.held.length = numFrames.toNat := by
  have hlen := h.perm.length_eq
  rwa [List.length_append, length_chunks] at hlen

theorem nodup : (s.pool.stack ++ s.held).Nodup := by
  have hnodup := FramePool.nodup_chunks h.wf
  rw [h.capacity, h.chunk] at hnodup
  exact h.perm.nodup_iff.2 hnodup

/-- Freeing an address of a chunk held puts the chunk on top. -/
theorem free_eq {a addr : UInt64} (ha : a ∈ s.held) (hin : InChunk s.pool a addr) :
    s.pool.free addr = (true, { s.pool with stack := a :: s.pool.stack }) := by
  have hmem : a ∈ chunks s.pool.capacity.toNat s.pool.chunkSize := by
    rw [h.capacity, h.chunk]
    exact h.perm.mem_iff.1 (List.mem_append_right _ ha)
  have hoff : (addr - a).toNat < s.pool.chunkSize.toNat := by
    rw [UInt64.toNat_sub_of_le _ _ (UInt64.le_iff_toNat_le.2 hin.1)]
    obtain ⟨hlo, hhi⟩ := hin
    omega
  have hbase := FramePool.chunkBase_of_inside h.wf hmem hoff
  have hroom : s.pool.stack.length < s.pool.capacity.toNat := by
    have hlen := h.length_eq
    have hpos := List.length_pos_of_mem ha
    rw [h.capacity]
    omega
  rw [FramePool.free_of_base (by rwa [hbase]) h.wf hroom, hbase]

/-- Every call of a client keeps the partition. -/
theorem step (hstep : PoolStep s s') : PoolInv numFrames chunkSize s' := by
  cases hstep with
  | @alloc a p halloc =>
    unfold FramePool.alloc at halloc
    split at halloc
    · cases halloc
    · rename_i stack hstack
      cases halloc
      have hperm := h.perm
      rw [hstack] at hperm
      exact ⟨h.wf, h.capacity, h.chunk, List.perm_middle.trans hperm⟩
  | allocFails => exact h
  | @free a addr ha hin =>
    rw [h.free_eq ha hin]
    refine ⟨h.wf, h.capacity, h.chunk, List.Perm.trans ?_ h.perm⟩
    exact List.perm_middle.symm.trans ((List.perm_cons_erase ha).symm.append_left s.pool.stack)

end PoolInv

/-- The pool after its initialisation, with nothing held. -/
theorem FramePool.init_inv {numFrames chunkSize : UInt32} {p : FramePool}
    (h : FramePool.init numFrames chunkSize = some p) :
    PoolInv numFrames chunkSize ⟨p, []⟩ := by
  obtain ⟨hwf, hstack, hcap, hcs⟩ := FramePool.init_some h
  refine ⟨hwf, hcap, hcs, ?_⟩
  rw [hstack, List.append_nil]

theorem pool_run {numFrames chunkSize : UInt32} {s s' : PoolClient}
    (h : PoolInv numFrames chunkSize s) (hrun : Relation.ReflTransGen PoolStep s s') :
    PoolInv numFrames chunkSize s' := by
  induction hrun with
  | refl => exact h
  | tail _ hstep ih => exact ih.step hstep

/-- **The pool conserves its frames**, in every run of a client on a pool the initialiser accepts:
the stack and the chunks held are the multiples of the chunk size below the capacity, each once;
freeing an address in a chunk held succeeds and that chunk is allocated next; an allocation fails
exactly when everything is held; and what is available is what is not held. -/
theorem pool_conserves {numFrames chunkSize : UInt32} {p : FramePool} {s : PoolClient}
    (hinit : FramePool.init numFrames chunkSize = some p)
    (hrun : Relation.ReflTransGen PoolStep ⟨p, []⟩ s) :
    (((s.pool.stack ++ s.held).map UInt64.toNat).Perm
        ((List.range numFrames.toNat).map (· * chunkSize.toNat)) ∧
      (s.pool.stack ++ s.held).Nodup) ∧
    (∀ a addr, a ∈ s.held → InChunk s.pool a addr →
      (s.pool.free addr).1 = true ∧ (s.pool.free addr).2.alloc =
        some (a, { (s.pool.free addr).2 with stack := s.pool.stack })) ∧
    (s.pool.alloc = none ↔ ∀ a ∈ chunks numFrames.toNat chunkSize, a ∈ s.held) ∧
    s.pool.available = numFrames.toNat - s.held.length := by
  have h := pool_run (FramePool.init_inv hinit) hrun
  have hlen := h.length_eq
  refine ⟨⟨?_, h.nodup⟩, fun a addr ha hin => ?_, ?_, ?_⟩
  · have hmap : (chunks numFrames.toNat chunkSize).map UInt64.toNat =
        (List.range numFrames.toNat).map (· * chunkSize.toNat) := by
      rw [chunks, List.map_map]
      refine List.map_congr_left fun i hi => ?_
      rw [← h.capacity] at hi
      have hnat := FramePool.chunk_toNat (List.mem_range.1 hi)
      rwa [h.chunk] at hnat
    rw [← hmap]
    exact h.perm.map _
  · rw [h.free_eq ha hin]
    exact ⟨rfl, rfl⟩
  · constructor
    · intro hnone a ha
      have hmem := h.perm.mem_iff.2 ha
      have hempty : s.pool.stack = [] := by
        unfold FramePool.alloc at hnone
        split at hnone
        · assumption
        · cases hnone
      rwa [hempty] at hmem
    · intro hall
      -- what is on the stack is not held
      unfold FramePool.alloc
      cases hstack : s.pool.stack with
      | nil => rfl
      | cons a stack =>
        have hmem : a ∈ s.pool.stack := by simp [hstack]
        have hheld := hall a (h.perm.mem_iff.1 (List.mem_append_left _ hmem))
        exact absurd hheld ((List.nodup_append.1 h.nodup).2.2 a hmem a · rfl)
  · rw [FramePool.available]
    omega

/-- Two frames of 4096 bytes: both are allocated, the first is freed by an address inside it. -/
theorem pool_conserves_two : ∃ p s, FramePool.init 2 4096 = some p ∧
    Relation.ReflTransGen PoolStep ⟨p, []⟩ s ∧ s.held = [4096] ∧ s.pool.available = 1 ∧
    (s.pool.free 4196).1 = true := by
  have hinit : FramePool.init 2 4096 = some ⟨[0, 4096], 2, 4096⟩ := by decide
  have hfree : PoolStep ⟨⟨[], 2, 4096⟩, [4096, 0]⟩ ⟨⟨[0], 2, 4096⟩, [4096]⟩ :=
    @PoolStep.free _ 0 100 (by decide) (by decide)
  have hrun : Relation.ReflTransGen PoolStep ⟨⟨[0, 4096], 2, 4096⟩, []⟩ ⟨⟨[0], 2, 4096⟩, [4096]⟩ :=
    Relation.ReflTransGen.refl.tail (.alloc rfl) |>.tail (.alloc rfl) |>.tail hfree
  obtain ⟨-, hfree, -, havail⟩ := pool_conserves hinit hrun
  exact ⟨_, _, hinit, hrun, rfl, havail, (hfree 4096 4196 (by decide) (by decide)).1⟩

end Rewsr.Xdp
