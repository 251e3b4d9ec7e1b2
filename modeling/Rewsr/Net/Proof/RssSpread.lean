import Rewsr.Lib.XorMap
import Rewsr.Net.Proof.Rss

/-!
# How flows spread over the queues

The hash is linear, so the flows of a family that is itself linear in a port (`Linear`) spread
evenly over the queues as soon as their hashes have every value in the bits that the table looks at
(`count_queue`). For the default key and the source port that is so up to 8192 entries and no
further (`rss_spread`), and for source ports that keep the two directions of a flow together up to
65536 (`rss_symmetric`).
-/

namespace Rewsr.Net

open BitString

namespace FourTuple

/-- The hash of a flow under the default key. -/
def hash (t : FourTuple) : Nat := (toeplitz 32 rssDefaultKey t.bytes).toNat

/-- The other direction of a flow. -/
def reverse (t : FourTuple) : FourTuple := ⟨t.dstIp, t.srcIp, t.dstPort, t.srcPort⟩

theorem hash_xor (t t' : FourTuple) : (t.xor t').hash = t.hash ^^^ t'.hash := by
  have hlen : t.bytes.length = t'.bytes.length := rfl
  rw [hash, bytes_xor, toeplitz_xor 32 rssDefaultKey hlen, BitVec.toNat_xor, hash, hash]

/-- Flows that are linear in the number of a port. -/
def Linear (flow : Nat → FourTuple) : Prop := ∀ a b, flow (a ^^^ b) = (flow a).xor (flow b)

theorem Linear.xorMap {flow : Nat → FourTuple} (h : Linear flow) (n : Nat) :
    XorMap n 32 fun p => (flow p).hash where
  lt _ _ := BitVec.isLt _
  xor a _ b _ := by rw [h a b, hash_xor]

section
variable {tableSize : UInt32} {k : Nat}

/-- With `2 ^ k` entries a flow's queue is the low `k` bits of its hash. -/
theorem queue_eq_some (hsize : tableSize.toNat = 2 ^ k) (t : FourTuple) (q : UInt32) :
    t.queue rssDefaultKey tableSize = some q ↔ t.hash % 2 ^ k = q.toNat := by
  have hqueue : (rssQueue ⟨toeplitz 32 rssDefaultKey t.bytes⟩ tableSize).toNat = t.hash % 2 ^ k := by
    rw [rssQueue_toNat ⟨k, hsize⟩, hsize]
    rfl
  rw [queue_eq (show 4 ≤ rssDefaultKey.length by decide), Option.some_inj, ← hqueue,
    UInt32.toNat_inj]

theorem same_queue_iff (hsize : tableSize.toNat = 2 ^ k) (t t' : FourTuple) :
    t.queue rssDefaultKey tableSize = t'.queue rssDefaultKey tableSize ↔
      (t.xor t').queue rssDefaultKey tableSize = some 0 := by
  obtain ⟨q, hq⟩ : ∃ q, t'.queue rssDefaultKey tableSize = some q :=
    ⟨_, queue_eq (show 4 ≤ rssDefaultKey.length by decide) _ _⟩
  have hq' := (queue_eq_some hsize t' q).1 hq
  rw [hq, queue_eq_some hsize, queue_eq_some hsize, hash_xor, Nat.xor_mod_two_pow, ← hq',
    UInt32.toNat_zero, XorMap.xor_eq_iff, Nat.xor_zero]
  exact eq_comm

/-- **Even spread**: of a linear family whose hashes have every value in their low bits, each queue
gets the same share. -/
theorem count_queue {flow : Nat → FourTuple} (h : Linear flow) {n K : Nat}
    (honto : ∀ v < 2 ^ K, ∃ a < 2 ^ n, (flow a).hash % 2 ^ K = v) (hk : k ≤ K)
    (hsize : tableSize.toNat = 2 ^ k) (base : FourTuple) {q : UInt32} (hq : q < tableSize) :
    Nat.count (fun p => (base.xor (flow p)).queue rssDefaultKey tableSize = some q) (2 ^ n) *
      2 ^ k = 2 ^ n := by
  have hlt : q.toNat < 2 ^ k := hsize ▸ UInt32.lt_iff_toNat_lt.1 hq
  have hqueue : ∀ p, (base.xor (flow p)).queue rssDefaultKey tableSize = some q ↔
      (flow p).hash % 2 ^ k = base.hash % 2 ^ k ^^^ q.toNat := by
    intro p
    rw [queue_eq_some hsize, hash_xor, Nat.xor_mod_two_pow, XorMap.xor_eq_iff]
  simp only [hqueue]
  exact ((h.xorMap n).low k).spread (XorMap.onto_low honto hk)
    (Nat.xor_lt_two_pow (Nat.mod_lt _ (Nat.two_pow_pos k)) hlt)

end

/-! ## The default key -/

/-- A flow with nothing but a source port, and one with the same port on both sides. -/
def srcOnly (p : Nat) : FourTuple := ⟨0, 0, UInt16.ofNat p, 0⟩
def bothPorts (p : Nat) : FourTuple := ⟨0, 0, UInt16.ofNat p, UInt16.ofNat p⟩

theorem srcOnly_linear : Linear srcOnly := by
  intro a b
  simp [srcOnly, xor]

theorem bothPorts_linear : Linear bothPorts := by
  intro a b
  simp [bothPorts, xor]

/-- The source port decides the low 13 bits of the hash: ports for each of them. -/
theorem srcOnly_onto : ∀ v < 2 ^ 13, ∃ a < 2 ^ 16, (srcOnly a).hash % 2 ^ 13 = v := by
  refine ((srcOnly_linear.xorMap 16).low 13).onto_of_bits fun j hj => ?_
  have hports : ∀ j < 13, (srcOnly ([57448, 54160, 27080, 30504, 38960, 44144, 46672, 47936, 23968,
      11984, 5992, 18552, 34712].getD j 0)).hash % 2 ^ 13 = 2 ^ j := by decide +kernel
  refine ⟨_, ?_, hports j hj⟩
  revert j
  decide

/-- Both ports together decide the low 16 bits. -/
theorem bothPorts_onto : ∀ v < 2 ^ 16, ∃ a < 2 ^ 16, (bothPorts a).hash % 2 ^ 16 = v := by
  refine ((bothPorts_linear.xorMap 16).low 16).onto_of_bits fun j hj => ?_
  have hports : ∀ j < 16, (bothPorts ([25936, 22520, 20140, 16902, 8451, 52262, 835, 56582, 3027,
      55630, 27815, 36772, 8834, 29713, 59055, 51872].getD j 0)).hash % 2 ^ 16 = 2 ^ j := by
    decide +kernel
  refine ⟨_, ?_, hports j hj⟩
  revert j
  decide

/-- Ports that leave the low 16 bits of the hash as they are. -/
def quietPorts : List Nat := [0, 41892, 20946, 10473, 62070]

theorem srcOnly_quiet : ∀ p ∈ quietPorts, (srcOnly p).hash % 2 ^ 16 = 0 := by decide +kernel

/-- With more than 8192 entries the queue of the zero flow gets more than its share. -/
theorem five_le_count {tableSize : UInt32} {k : Nat} (hk : k ≤ 16)
    (hsize : tableSize.toNat = 2 ^ k) :
    5 ≤ Nat.count (fun p => (srcOnly p).queue rssDefaultKey tableSize = some 0) 65536 := by
  refine XorMap.length_le_count (l := quietPorts) (by decide) fun p hp => ⟨?_, ?_⟩
  · revert p
    decide
  · rw [queue_eq_some hsize, ← Nat.mod_mod_of_dvd _ (Nat.pow_dvd_pow 2 hk), srcOnly_quiet p hp,
      Nat.zero_mod, UInt32.toNat_zero]

end FourTuple

open FourTuple

/-- **Steering by the source port.** Under the default key, and with a table whose size is a power
of two, the 65536 source ports of flows to one destination spread evenly over the queues if and only
if the table has at most 8192 entries. -/
theorem rss_spread {tableSize : UInt32} (h : tableSize.toNat.isPowerOfTwo) :
    (∀ (srcIp dstIp : UInt32) (dstPort : UInt16), ∀ q < tableSize,
      Nat.count (fun p => queue rssDefaultKey tableSize ⟨srcIp, dstIp, UInt16.ofNat p, dstPort⟩ =
        some q) 65536 * tableSize.toNat = 65536) ↔ tableSize ≤ 8192 := by
  obtain ⟨k, hk⟩ := h
  have hcap : (8192 : UInt32).toNat = 2 ^ 13 := rfl
  rw [UInt32.le_iff_toNat_le, hk, hcap, Nat.pow_le_pow_iff_right (by decide)]
  constructor
  · intro heven
    have hzero : (0 : UInt32) < tableSize := by
      rw [UInt32.lt_iff_toNat_lt, hk]
      exact Nat.two_pow_pos k
    have hcount : Nat.count (fun p => (srcOnly p).queue rssDefaultKey tableSize = some 0) 65536 *
        2 ^ k = 2 ^ 16 := heven 0 0 0 0 hzero
    have h16 : k ≤ 16 := by
      have hdvd : 2 ^ k ∣ 2 ^ 16 := ⟨_, by rw [Nat.mul_comm, hcount]⟩
      exact (Nat.pow_dvd_pow_iff_le_right (by decide)).1 hdvd
    by_contra hbig
    have hshare : 5 * 2 ^ 14 ≤ 2 ^ 16 := hcount ▸
      Nat.mul_le_mul (five_le_count h16 hk) (Nat.pow_le_pow_right (by decide) (by omega))
    exact absurd hshare (by decide)
  · intro h13 srcIp dstIp dstPort q hq
    have hbase : ∀ p, (⟨srcIp, dstIp, UInt16.ofNat p, dstPort⟩ : FourTuple) =
        (⟨srcIp, dstIp, 0, dstPort⟩ : FourTuple).xor (srcOnly p) := by
      intro p
      simp [srcOnly, FourTuple.xor]
    simp only [hbase]
    exact count_queue srcOnly_linear srcOnly_onto h13 hk _ hq

theorem rss_spread_sixteen : Nat.count (fun p =>
    queue rssDefaultKey 16 ⟨0x0a000001, 0x0a000002, UInt16.ofNat p, 4789⟩ = some 3) 65536 *
      (16 : UInt32).toNat = 65536 :=
  (rss_spread ⟨4, rfl⟩).2 (by decide) 0x0a000001 0x0a000002 4789 3 (by decide)

/-- **A port for both directions.** Under the default key, and with a table of at most 65536 entries
whose size is a power of two, one source port in as many as the table has entries keeps the two
directions of a flow on one queue, whatever the addresses and the destination port. -/
theorem rss_symmetric {tableSize : UInt32} (h : tableSize.toNat.isPowerOfTwo)
    (hle : tableSize ≤ 65536) (srcIp dstIp : UInt32) (dstPort : UInt16) :
    Nat.count (fun p =>
      queue rssDefaultKey tableSize ⟨srcIp, dstIp, UInt16.ofNat p, dstPort⟩ =
        queue rssDefaultKey tableSize (reverse ⟨srcIp, dstIp, UInt16.ofNat p, dstPort⟩)) 65536 *
      tableSize.toNat = 65536 := by
  obtain ⟨k, hk⟩ := h
  have hcap : (65536 : UInt32).toNat = 2 ^ 16 := rfl
  rw [UInt32.le_iff_toNat_le, hk, hcap, Nat.pow_le_pow_iff_right (by decide)] at hle
  have hzero : (0 : UInt32) < tableSize := by
    rw [UInt32.lt_iff_toNat_lt, hk]
    exact Nat.two_pow_pos k
  have hboth : ∀ p, queue rssDefaultKey tableSize ⟨srcIp, dstIp, UInt16.ofNat p, dstPort⟩ =
      queue rssDefaultKey tableSize (reverse ⟨srcIp, dstIp, UInt16.ofNat p, dstPort⟩) ↔
        ((⟨srcIp ^^^ dstIp, srcIp ^^^ dstIp, dstPort, dstPort⟩ : FourTuple).xor (bothPorts p)).queue
          rssDefaultKey tableSize = some 0 := by
    intro p
    have hflows : (⟨srcIp, dstIp, UInt16.ofNat p, dstPort⟩ : FourTuple).xor
        (reverse ⟨srcIp, dstIp, UInt16.ofNat p, dstPort⟩) =
          (⟨srcIp ^^^ dstIp, srcIp ^^^ dstIp, dstPort, dstPort⟩ : FourTuple).xor (bothPorts p) := by
      simp [FourTuple.xor, reverse, bothPorts, UInt32.xor_comm dstIp, UInt16.xor_comm dstPort]
    rw [same_queue_iff hk, hflows]
  simp only [hboth]
  rw [hk]
  exact count_queue bothPorts_linear bothPorts_onto hle hk _ hzero

theorem rss_symmetric_256 : Nat.count (fun p =>
    queue rssDefaultKey 256 ⟨0x0a000001, 0x0a000002, UInt16.ofNat p, 4789⟩ =
      queue rssDefaultKey 256 (reverse ⟨0x0a000001, 0x0a000002, UInt16.ofNat p, 4789⟩)) 65536 *
    (256 : UInt32).toNat = 65536 :=
  rss_symmetric ⟨8, rfl⟩ (by decide) 0x0a000001 0x0a000002 4789

end Rewsr.Net
