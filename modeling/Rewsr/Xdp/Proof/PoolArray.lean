import Rewsr.Xdp.PoolArray
import Rewsr.Xdp.Proof.FramePool

/-!
# The pool in memory refines the pool

A pool in memory whose array has room for its capacity (`Fits`) is a `FramePool` without the array's
entries from `count` on (`toPool`). The initialiser and the calls do to it what they do to the
`FramePool`, without an access outside the array (`init_toPool`, `alloc_toPool`, `free_toPool`), and
so does every sequence of calls (`run_toPool`).

No call is trusted: the stack holds chunk addresses, at most as many as there are frames, whatever
is freed (`PoolBounds`); `pool_misuse` is about all sequences of calls.
-/

namespace Rewsr.Xdp

/-! ## What every call keeps -/

/-- The address of one of the frames: a multiple of the chunk size below the end of the region. -/
def ChunkAddr (numFrames chunkSize : UInt32) (a : UInt64) : Prop :=
  chunkSize.toNat ∣ a.toNat ∧ a.toNat < numFrames.toNat * chunkSize.toNat

/-- The stack has room and holds addresses of frames, some maybe twice. -/
structure PoolBounds (numFrames chunkSize : UInt32) (p : FramePool) : Prop where
  wf : p.Wf
  capacity : p.capacity = numFrames
  chunk : p.chunkSize = chunkSize
  length_le : p.stack.length ≤ numFrames.toNat
  addr : ∀ a ∈ p.stack, ChunkAddr numFrames chunkSize a

namespace FramePool

theorem dvd_chunkBase {p : FramePool} (hwf : p.Wf) (addr : UInt64) :
    p.chunkSize.toNat ∣ (p.chunkBase addr).toNat := by
  obtain ⟨k, hk⟩ := hwf
  rw [chunkBase, Counter.toNat_and_not_mask (k := k) (by rw [UInt32.toNat_toUInt64, hk]), hk]
  exact Nat.dvd_mul_left _ _

/-- A free that succeeds pushes the base of the address, in range, on a stack that has room. -/
theorem free_cases (p : FramePool) (addr : UInt64) :
    p.free addr = (false, p) ∨
    (p.stack.length < p.capacity.toNat ∧
      (p.chunkBase addr).toNat < p.capacity.toNat * p.chunkSize.toNat ∧
      p.free addr = (true, { p with stack := p.chunkBase addr :: p.stack })) := by
  unfold free
  split
  · exact Or.inl rfl
  · rename_i hroom
    dsimp only
    split
    · exact Or.inl rfl
    · rename_i hrange
      rw [ge_iff_le, UInt64.le_iff_toNat_le, limit_toNat] at hrange
      exact Or.inr ⟨by omega, by omega, rfl⟩

theorem init_bounds {numFrames chunkSize : UInt32} {p : FramePool}
    (h : init numFrames chunkSize = some p) : PoolBounds numFrames chunkSize p := by
  obtain ⟨hwf, hstack, hcap, hcs⟩ := init_some h
  refine ⟨hwf, hcap, hcs, ?_, fun a ha => ?_⟩
  · rw [hstack, length_chunks]
  · rw [hstack, ← hcap, ← hcs] at ha
    obtain ⟨i, hi, hai⟩ := mem_chunks ha
    rw [← hcap, ← hcs, ChunkAddr, hai]
    exact ⟨Nat.dvd_mul_left _ _, Nat.mul_lt_mul_of_pos_right hi (Nat.pos_of_isPowerOfTwo hwf)⟩

end FramePool

namespace PoolBounds

variable {numFrames chunkSize : UInt32} {p : FramePool} (h : PoolBounds numFrames chunkSize p)
include h

theorem alloc {a : UInt64} {q : FramePool} (halloc : p.alloc = some (a, q)) :
    ChunkAddr numFrames chunkSize a ∧ PoolBounds numFrames chunkSize q := by
  unfold FramePool.alloc at halloc
  split at halloc
  · cases halloc
  · rename_i stack hstack
    cases halloc
    have hlen := h.length_le
    have haddr := h.addr
    rw [hstack] at hlen haddr
    rw [List.length_cons] at hlen
    refine ⟨haddr a List.mem_cons_self, h.wf, h.capacity, h.chunk, ?_, fun b hb => ?_⟩
    · exact Nat.le_of_succ_le hlen
    · exact haddr b (List.mem_cons_of_mem _ hb)

theorem free (addr : UInt64) : PoolBounds numFrames chunkSize (p.free addr).2 := by
  rcases p.free_cases addr with hfree | ⟨hroom, hrange, hfree⟩
  · rw [hfree]
    exact h
  · rw [hfree]
    rw [h.capacity] at hroom hrange
    rw [h.chunk] at hrange
    have hdvd := FramePool.dvd_chunkBase h.wf addr
    rw [h.chunk] at hdvd
    refine ⟨h.wf, h.capacity, h.chunk, hroom, fun a ha => ?_⟩
    rcases List.mem_cons.1 ha with rfl | ha
    · exact ⟨hdvd, hrange⟩
    · exact h.addr a ha

end PoolBounds

namespace PoolCall

/-- What a call does to the list of free addresses. -/
def onPool (p : FramePool) : PoolCall → FramePool
  | alloc => match p.alloc with
    | none => p
    | some (_, q) => q
  | free addr => (p.free addr).2

theorem bounds_onPool {numFrames chunkSize : UInt32} {p : FramePool}
    (h : PoolBounds numFrames chunkSize p) (call : PoolCall) :
    PoolBounds numFrames chunkSize (call.onPool p) := by
  cases call with
  | alloc =>
    dsimp only [onPool]
    split
    · exact h
    · rename_i halloc
      exact (h.alloc halloc).2
  | free addr => exact h.free addr

theorem bounds_run {numFrames chunkSize : UInt32} (calls : List PoolCall) {p : FramePool}
    (h : PoolBounds numFrames chunkSize p) :
    PoolBounds numFrames chunkSize (calls.foldl onPool p) := by
  induction calls generalizing p with
  | nil => exact h
  | cons call calls ih => exact ih (bounds_onPool h call)

end PoolCall

/-! ## The pool of a pool in memory -/

namespace PoolArray

/-- The free addresses, the top of the stack first. -/
def toPool (p : PoolArray) : FramePool where
  stack := (p.stack.take p.count.toNat).reverse
  capacity := p.capacity
  chunkSize := p.chunkSize

/-- The array has an entry for each frame, and no more than that are in use. -/
structure Fits (p : PoolArray) : Prop where
  room : p.capacity.toNat ≤ p.stack.length
  count_le : p.count.toNat ≤ p.capacity.toNat

variable {p : PoolArray}

theorem length_toPool (h : p.Fits) : p.toPool.stack.length = p.count.toNat := by
  have hle := Nat.le_trans h.count_le h.room
  rw [toPool, List.length_reverse, List.length_take, Nat.min_eq_left hle]

theorem push_toPool (h : p.Fits) (hroom : p.count.toNat < p.capacity.toNat) (addr : UInt64) :
    ∃ q, p.push addr = some q ∧ q.Fits ∧ q.count.toNat = p.count.toNat + 1 ∧
      q.toPool = { p.toPool with stack := addr :: p.toPool.stack } := by
  have hlt : p.count.toNat < p.stack.length := Nat.lt_of_lt_of_le hroom h.room
  have hcap := p.capacity.toNat_lt
  have hcount : (p.count + 1).toNat = p.count.toNat + 1 := by
    rw [UInt32.toNat_add, UInt32.toNat_one]
    omega
  have htake : (p.stack.set p.count.toNat addr).take (p.count.toNat + 1) =
      p.stack.take p.count.toNat ++ [addr] := by
    rw [List.take_succ_eq_append_getElem (by rwa [List.length_set]), List.getElem_set_self,
      List.take_set_of_le (Nat.le_refl _)]
  refine ⟨_, if_pos hlt, ⟨?_, ?_⟩, hcount, ?_⟩
  · rw [List.length_set]
    exact h.room
  · rw [hcount]
    exact hroom
  · simp only [toPool, hcount, htake, List.reverse_append, List.reverse_singleton,
      List.singleton_append]

/-- The seeding loop stacks the chunks, highest first, when there is room for them. -/
theorem seed_toPool (i : Nat) (h : p.Fits) (hroom : p.count.toNat + i ≤ p.capacity.toNat) :
    ∃ q, seed i p = some q ∧ q.Fits ∧
      q.toPool = { p.toPool with stack := FramePool.seed p.chunkSize i p.toPool.stack } := by
  induction i generalizing p with
  | zero => exact ⟨p, rfl, h, rfl⟩
  | succ i ih =>
    obtain ⟨q, hpush, hq, hcount, hpool⟩ :=
      push_toPool h (by omega) (UInt64.ofNat i * p.chunkSize.toUInt64)
    have hcap : q.capacity = p.capacity := congrArg FramePool.capacity hpool
    have hchunk : q.chunkSize = p.chunkSize := congrArg FramePool.chunkSize hpool
    obtain ⟨r, hseed, hr, hrpool⟩ := ih hq (by rw [hcount, hcap]; omega)
    refine ⟨r, ?_, hr, ?_⟩
    · rw [seed, hpush, Option.bind_some, hseed]
    · rw [hrpool, hpool, hchunk]
      rfl

theorem init_toPool (p : PoolArray) {stack : List UInt64} {numFrames : UInt32}
    (hstack : numFrames.toNat ≤ stack.length) (chunkSize : UInt32) :
    (p.init (some stack) numFrames chunkSize = some (-1, p) ∧
      FramePool.init numFrames chunkSize = none) ∨
    ∃ q, p.init (some stack) numFrames chunkSize = some (0, q) ∧ q.Fits ∧
      FramePool.init numFrames chunkSize = some q.toPool := by
  unfold init FramePool.init
  dsimp only
  split
  · exact Or.inl ⟨rfl, rfl⟩
  · have hfits : Fits ⟨stack, 0, numFrames, chunkSize⟩ := ⟨hstack, Nat.zero_le _⟩
    obtain ⟨q, hseed, hq, hpool⟩ := seed_toPool numFrames.toNat hfits (Nat.zero_add _).le
    refine Or.inr ⟨q, by rw [hseed]; rfl, hq, ?_⟩
    rw [hpool]
    rfl

theorem alloc_toPool (h : p.Fits) :
    (p.alloc = some (none, p) ∧ p.toPool.alloc = none) ∨
    ∃ a q, p.alloc = some (some a, q) ∧ q.Fits ∧ p.toPool.alloc = some (a, q.toPool) := by
  by_cases hzero : p.count = 0
  · refine Or.inl ⟨if_pos hzero, ?_⟩
    have hnil : p.toPool.stack = [] := by
      rw [← List.length_eq_zero_iff, length_toPool h, hzero, UInt32.toNat_zero]
    rw [FramePool.alloc, hnil]
  · have hne : p.count.toNat ≠ 0 := fun heq => hzero (UInt32.toNat_inj.1 heq)
    have hle := Nat.le_trans h.count_le h.room
    have hone : (1 : UInt32) ≤ p.count := UInt32.le_iff_toNat_le.2 (Nat.pos_of_ne_zero hne)
    have hcount : (p.count - 1).toNat = p.count.toNat - 1 := by
      rw [UInt32.toNat_sub_of_le _ _ hone, UInt32.toNat_one]
    have hlt : (p.count - 1).toNat < p.stack.length := by omega
    have htake : p.stack.take p.count.toNat =
        p.stack.take (p.count - 1).toNat ++ [p.stack[(p.count - 1).toNat]] := by
      rw [← List.take_succ_eq_append_getElem hlt, hcount, Nat.sub_add_cancel (by omega)]
    refine Or.inr ⟨p.stack[(p.count - 1).toNat], { p with count := p.count - 1 }, ?_, ?_, ?_⟩
    · rw [alloc, if_neg hzero]
      dsimp only
      rw [List.getElem?_eq_getElem hlt]
      rfl
    · exact ⟨h.room, by have := h.count_le; dsimp only; omega⟩
    · have hcons : p.toPool.stack =
          p.stack[(p.count - 1).toNat] :: (p.stack.take (p.count - 1).toNat).reverse := by
        rw [toPool, htake, List.reverse_append, List.reverse_singleton, List.singleton_append]
      rw [FramePool.alloc, hcons]
      rfl

/-- A free rejects what the list's free rejects, and leaves the pool then. -/
theorem free_toPool (h : p.Fits) (addr : UInt64) :
    (p.free addr = some (false, p) ∧ p.toPool.free addr = (false, p.toPool)) ∨
    ∃ q, p.free addr = some (true, q) ∧ q.Fits ∧ p.toPool.free addr = (true, q.toPool) := by
  have hfull : p.count ≥ p.capacity ↔ p.toPool.stack.length ≥ p.toPool.capacity.toNat := by
    rw [length_toPool h]
    exact UInt32.le_iff_toNat_le
  unfold free FramePool.free
  by_cases hroom : p.count ≥ p.capacity
  · rw [if_pos hroom, if_pos (hfull.1 hroom)]
    exact Or.inl ⟨rfl, rfl⟩
  · rw [if_neg hroom, if_neg (mt hfull.2 hroom)]
    dsimp only
    by_cases hrange : p.chunkBase addr ≥ p.capacity.toUInt64 * p.chunkSize.toUInt64
    · rw [if_pos hrange]
      exact Or.inl ⟨rfl, if_pos hrange⟩
    · rw [if_neg hrange]
      have hlt : p.count.toNat < p.capacity.toNat := by
        rw [ge_iff_le, UInt32.le_iff_toNat_le] at hroom
        omega
      obtain ⟨q, hpush, hq, -, hpool⟩ := push_toPool h hlt (p.chunkBase addr)
      refine Or.inr ⟨q, by rw [hpush]; rfl, hq, ?_⟩
      rw [hpool]
      exact if_neg hrange

end PoolArray

/-! ## Sequences of calls -/

namespace PoolCall

theorem step_toPool {p : PoolArray} (h : p.Fits) (call : PoolCall) :
    ∃ q, call.run p = some q ∧ q.Fits ∧ q.toPool = call.onPool p.toPool := by
  cases call with
  | alloc =>
    rcases p.alloc_toPool h with ⟨hrun, hpool⟩ | ⟨a, q, hrun, hq, hpool⟩
    · exact ⟨p, by rw [run, hrun]; rfl, h, by rw [onPool, hpool]⟩
    · exact ⟨q, by rw [run, hrun]; rfl, hq, by rw [onPool, hpool]⟩
  | free addr =>
    rcases p.free_toPool h addr with ⟨hrun, hpool⟩ | ⟨q, hrun, hq, hpool⟩
    · exact ⟨p, by rw [run, hrun]; rfl, h, by rw [onPool, hpool]⟩
    · exact ⟨q, by rw [run, hrun]; rfl, hq, by rw [onPool, hpool]⟩

theorem run_toPool (calls : List PoolCall) {p : PoolArray} (h : p.Fits) :
    ∃ q, calls.foldlM run p = some q ∧ q.Fits ∧ q.toPool = calls.foldl onPool p.toPool := by
  induction calls generalizing p with
  | nil => exact ⟨p, rfl, h, rfl⟩
  | cons call calls ih =>
    obtain ⟨q, hrun, hq, hpool⟩ := step_toPool h call
    obtain ⟨r, hcalls, hr, hrpool⟩ := ih hq
    refine ⟨r, ?_, hr, ?_⟩
    · rw [List.foldlM_cons, hrun]
      exact hcalls
    · rw [hrpool, hpool, List.foldl_cons]

end PoolCall

/-- **A pool stays in range under misuse**: over an array with an entry for each frame, neither the
initialiser nor any sequence of calls, with any addresses, accesses an entry outside the array. On a
pool the initialiser accepts, such a sequence leaves at most as many addresses on the stack as there
are frames, each the address of a frame; the next allocation returns one of those or leaves the pool
as it is, and so does the next free of any address that it rejects. -/
theorem pool_misuse (p₀ : PoolArray) {stack : List UInt64} {numFrames : UInt32}
    (hstack : numFrames.toNat ≤ stack.length) (chunkSize : UInt32) :
    ∃ rc p, p₀.init (some stack) numFrames chunkSize = some (rc, p) ∧
      (rc = 0 → ∀ calls : List PoolCall, ∃ q, calls.foldlM PoolCall.run p = some q ∧
        (q.capacity = numFrames ∧ q.count ≤ q.capacity) ∧
        (∀ a ∈ q.stack.take q.count.toNat, ChunkAddr numFrames chunkSize a) ∧
        (∃ r q', q.alloc = some (r, q') ∧
          (∀ a, r = some a → ChunkAddr numFrames chunkSize a) ∧ (r = none → q' = q)) ∧
        ∀ addr, ∃ ok q', q.free addr = some (ok, q') ∧ (ok = false → q' = q)) := by
  rcases p₀.init_toPool hstack chunkSize with ⟨hinit, -⟩ | ⟨p, hinit, hfits, hpool⟩
  · exact ⟨-1, p₀, hinit, fun hrc => absurd hrc (by decide)⟩
  · refine ⟨0, p, hinit, fun _ calls => ?_⟩
    obtain ⟨q, hrun, hq, hqpool⟩ := PoolCall.run_toPool calls hfits
    have hbounds := PoolCall.bounds_run calls (FramePool.init_bounds hpool)
    rw [← hqpool] at hbounds
    refine ⟨q, hrun, ⟨hbounds.capacity, UInt32.le_iff_toNat_le.2 hq.count_le⟩, fun a ha => ?_,
      ?_, fun addr => ?_⟩
    · exact hbounds.addr a (List.mem_reverse.2 ha)
    · rcases q.alloc_toPool hq with ⟨halloc, -⟩ | ⟨a, q', halloc, -, hstep⟩
      · exact ⟨none, q, halloc, nofun, fun _ => rfl⟩
      · refine ⟨some a, q', halloc, fun b hb => ?_, nofun⟩
        cases hb
        exact (hbounds.alloc hstep).1
    · rcases q.free_toPool hq addr with ⟨hfree, -⟩ | ⟨q', hfree, -, -⟩
      · exact ⟨false, q, hfree, fun _ => rfl⟩
      · exact ⟨true, q', hfree, nofun⟩

/-- Two frames of 4096 bytes: an allocation, then the other frame freed twice, the second time
without room. -/
theorem pool_misuse_two : ∃ p q, PoolArray.init ⟨[], 0, 0, 0⟩ (some [7, 7]) 2 4096 = some (0, p) ∧
    [PoolCall.alloc, .free 4196, .free 4196].foldlM PoolCall.run p = some q ∧
    q.stack = [4096, 4096] ∧ (∀ a ∈ q.stack.take q.count.toNat, ChunkAddr 2 4096 a) ∧
    ∃ ok q', q.free 0 = some (ok, q') ∧ (ok = false → q' = q) := by
  obtain ⟨rc, p, hinit, hcalls⟩ :=
    @pool_misuse ⟨[], 0, 0, 0⟩ [7, 7] 2 (by decide) 4096
  have hp : PoolArray.init ⟨[], 0, 0, 0⟩ (some [7, 7]) 2 4096 =
      some (0, ⟨[4096, 0], 2, 2, 4096⟩) := by decide
  rw [hp] at hinit
  cases hinit
  obtain ⟨q, hrun, -, haddr, -, hfree⟩ := hcalls rfl [.alloc, .free 4196, .free 4196]
  refine ⟨_, q, hp, hrun, ?_, haddr, hfree 0⟩
  have hq : [PoolCall.alloc, .free 4196, .free 4196].foldlM PoolCall.run
      ⟨[4096, 0], 2, 2, 4096⟩ = some ⟨[4096, 4096], 2, 2, 4096⟩ := by decide
  rw [hq] at hrun
  cases hrun
  rfl

end Rewsr.Xdp
