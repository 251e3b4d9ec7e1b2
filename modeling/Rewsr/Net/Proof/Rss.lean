import Rewsr.Lib.BitString
import Rewsr.Lib.Counter
import Rewsr.Net.Proof.ByteOrder
import Rewsr.Net.Rss

/-!
# The hash the code computes is the Toeplitz hash

Before the bit number `n` of the input the loops have put together the windows at the set bits
before it, `v` is the window at `n` and the next key bit is `n + 32` (`rssAt`). One turn takes this
from `n` to `n + 1` (`rssStep_rssAt`), a byte from `8 * i` to `8 * (i + 1)` (`rssByte_rssAt`), and
all of them give `rssToeplitz_eq`, and with it `rss_toeplitz`.

The hash is linear, and so is the mask that picks a queue: `rss_linear`.
-/

namespace Rewsr.Net

open BitString

/-- The variables before bit `n` of the input. -/
def rssAt (key input : List UInt8) (n : Nat) : RssState where
  result := ⟨toeplitzUpTo 32 key input n⟩
  v := ⟨window 32 key n⟩
  keyBit := n + 32

theorem bitOf_toNat (b : UInt8) {k : Nat} (hk : k < 8) :
    (bitOf b k).toNat = b.toNat / 2 ^ k % 2 := by
  have hk' : (UInt32.ofNat k).toNat = k := UInt32.toNat_ofNat_of_lt' (by simp [UInt32.size]; omega)
  rw [bitOf, UInt32.toNat_and, UInt32.toNat_shiftRight, hk', Nat.mod_eq_of_lt (by omega),
    UInt8.toNat_toUInt32, Nat.shiftRight_eq_div_pow]
  exact Nat.and_two_pow_sub_one_eq_mod _ 1

/-- Byte `i` of a string holds the bits from `8 * i` on. -/
theorem bitOf_eq {bs : List UInt8} {i : Nat} (h : i / 8 < bs.length) :
    bitOf bs[i / 8] (7 - i % 8) = UInt32.ofNat (bit bs i) := by
  have hbit := bit_lt bs i
  apply UInt32.toNat_inj.1
  rw [bitOf_toNat _ (by omega), UInt32.toNat_ofNat_of_lt' (by simp [UInt32.size]; omega), bit,
    List.getD_eq_getElem _ _ h]

/-- The bit that is shifted in, zero past the key's end. -/
theorem rssNext_eq (key : List UInt8) (n : Nat) :
    rssNext key n = some (UInt32.ofNat (bit key n)) := by
  unfold rssNext
  split
  · rename_i hin
    rw [read8, List.getElem?_eq_getElem hin, Option.map_some, bitOf_eq hin]
  · rename_i hout
    rw [bit_of_length_le (by omega)]
    rfl

/-- One turn of the inner loop. -/
theorem rssStep_rssAt {key input : List UInt8} {n : Nat} (h : n / 8 < input.length) :
    rssStep key input[n / 8] (rssAt key input n) (7 - n % 8) = some (rssAt key input (n + 1)) := by
  have hwindow : ((rssAt key input n).v <<< 1) ||| UInt32.ofNat (bit key (n + 32)) =
      (rssAt key input (n + 1)).v := by
    apply UInt32.toBitVec_inj.1
    have hsucc := window_succ (w := 32) (by decide) key n
    rw [UInt32.toBitVec_or, UInt32.toBitVec_shiftLeft]
    exact hsucc
  have hresult : (if bitOf input[n / 8] (7 - n % 8) ≠ 0 then
      (rssAt key input n).result ^^^ (rssAt key input n).v else (rssAt key input n).result) =
        (rssAt key input (n + 1)).result := by
    have hlt := bit_lt input n
    rw [bitOf_eq h]
    apply UInt32.toBitVec_inj.1
    obtain h0 | h1 : bit input n = 0 ∨ bit input n = 1 := by omega
    · simp [h0, rssAt, toeplitzUpTo_succ]
    · simp [h1, rssAt, toeplitzUpTo_succ]
  have hkey : (rssAt key input n).keyBit = n + 32 := rfl
  rw [rssStep, hresult, hkey, rssNext_eq]
  simp only [Option.bind_eq_bind, Option.bind_some, hwindow]
  rfl

/-- One turn of the outer loop. -/
theorem rssByte_rssAt {key input : List UInt8} {i : Nat} (h : i < input.length) :
    rssByte key (rssAt key input (8 * i)) input[i] = some (rssAt key input (8 * (i + 1))) := by
  have hstep : ∀ j < 8, rssStep key input[i] (rssAt key input (8 * i + j)) (7 - j) =
      some (rssAt key input (8 * i + j + 1)) := by
    intro j hj
    have hdiv : (8 * i + j) / 8 = i := by omega
    have hmod : (8 * i + j) % 8 = j := by omega
    have hin : (8 * i + j) / 8 < input.length := by omega
    have hturn : rssStep key input[(8 * i + j) / 8] _ _ = _ := rssStep_rssAt hin
    simpa only [hdiv, hmod] using hturn
  have h0 := hstep 0 (by decide)
  have h1 := hstep 1 (by decide)
  have h2 := hstep 2 (by decide)
  have h3 := hstep 3 (by decide)
  have h4 := hstep 4 (by decide)
  have h5 := hstep 5 (by decide)
  have h6 := hstep 6 (by decide)
  have h7 := hstep 7 (by decide)
  simp only [Nat.reduceSub, Nat.add_zero, Nat.add_assoc, Nat.reduceAdd] at h0 h1 h2 h3 h4 h5 h6 h7
  simp only [rssByte, List.foldlM_cons, List.foldlM_nil, h0, h1, h2, h3, h4, h5, h6, h7,
    Option.bind_eq_bind, Option.bind_some]
  rfl

/-- The loops from byte `i` on. -/
theorem rssBytes_rssAt (key : List UInt8) {input : List UInt8} {i : Nat} (h : i ≤ input.length) :
    (input.drop i).foldlM (rssByte key) (rssAt key input (8 * i)) =
      some (rssAt key input (8 * input.length)) := by
  induction hn : input.length - i generalizing i with
  | zero =>
    obtain rfl : i = input.length := by omega
    rw [List.drop_length]
    rfl
  | succ n ih =>
    have hlt : i < input.length := by omega
    rw [List.drop_eq_getElem_cons hlt, List.foldlM_cons, rssByte_rssAt hlt]
    exact ih hlt (by omega)

/-- The window before the first bit. -/
theorem window_zero (key : List UInt8) : (window 32 key 0).toNat =
    16777216 * (key.getD 0 0).toNat + 65536 * (key.getD 1 0).toNat + 256 * (key.getD 2 0).toNat +
      (key.getD 3 0).toNat := by
  have h0 := value_byte key 0
  have h1 := value_byte key 1
  have h2 := value_byte key 2
  have h3 := value_byte key 3
  simp only [Nat.mul_zero, Nat.mul_one, Nat.reduceMul] at h0 h1 h2 h3
  have hsplit : value key 0 (8 + (8 + (8 + 8))) = _ := value_add key 0 8 (8 + (8 + 8))
  rw [value_add key (0 + 8) 8, value_add key (0 + 8 + 8) 8] at hsplit
  simp only [Nat.zero_add, Nat.reduceAdd, h0, h1, h2, h3] at hsplit
  rw [window_toNat, hsplit]
  omega

/-- What the loops compute from a key of at least four bytes. -/
theorem rssToeplitz_eq {key : List UInt8} (h : 4 ≤ key.length) (input : List UInt8) :
    rssToeplitz key input = some ⟨toeplitz 32 key input⟩ := by
  have hread : ∀ i, i < 4 → read8 key i = some (key.getD i 0) := by
    intro i hi
    rw [read8, List.getElem?_eq_getElem (by omega), List.getD_eq_getElem _ _ (by omega)]
  have hv : (((key.getD 0 0).toUInt32 <<< 24) ||| ((key.getD 1 0).toUInt32 <<< 16) |||
      ((key.getD 2 0).toUInt32 <<< 8) ||| (key.getD 3 0).toUInt32) = ⟨window 32 key 0⟩ := by
    apply UInt32.toNat_inj.1
    exact (load32_big_toNat _ _ _ _).trans (window_zero key).symm
  have hloop := rssBytes_rssAt key (Nat.zero_le input.length)
  rw [List.drop_zero] at hloop
  rw [rssToeplitz, hread 0 (by decide), hread 1 (by decide), hread 2 (by decide),
    hread 3 (by decide)]
  simp only [Option.bind_eq_bind, Option.bind_some, hv]
  rw [show (⟨0, ⟨window 32 key 0⟩, 32⟩ : RssState) = rssAt key input (8 * 0) from rfl,
    hloop]
  rfl

/-- With a table whose size is a power of two the queue is the hash modulo that size. -/
theorem rssQueue_toNat {tableSize : UInt32} (h : tableSize.toNat.isPowerOfTwo) (hash : UInt32) :
    (rssQueue hash tableSize).toNat = hash.toNat % tableSize.toNat := by
  have hne : tableSize ≠ 0 := by
    rintro rfl
    exact absurd (Counter.pow2_pos h) (by decide)
  rw [rssQueue, if_neg hne, Counter.toNat_and_mask h]

/-- **The Toeplitz hash.** With a key of at least four bytes no key byte behind the last one is
read, and the result is the exclusive or of the 32-bit windows of the key at the set bits of the
input; for an IPv4 flow the input is its 96-bit tuple, and ports that are zero are the same as
none. -/
theorem rss_toeplitz {key : List UInt8} (h : 4 ≤ key.length) :
    (∀ input, rssToeplitz key input = some ⟨toeplitz 32 key input⟩) ∧
    (∀ srcIp dstIp srcPort dstPort, rssHashIpv4 key srcIp dstIp srcPort dstPort =
      some ⟨toeplitz 32 key (be32 srcIp ++ be32 dstIp ++ be16 srcPort ++ be16 dstPort)⟩) ∧
    ∀ srcIp dstIp, rssHashIpv4 key srcIp dstIp 0 0 = rssHashIpv4TwoTuple key srcIp dstIp := by
  refine ⟨rssToeplitz_eq h, fun srcIp dstIp srcPort dstPort => ?_, fun srcIp dstIp => ?_⟩
  · exact rssToeplitz_eq h _
  · have hzeros : rssAddrs srcIp dstIp ++ [((0 : UInt16) >>> 8).toUInt8, (0 : UInt16).toUInt8,
        ((0 : UInt16) >>> 8).toUInt8, (0 : UInt16).toUInt8] =
          rssAddrs srcIp dstIp ++ List.replicate 4 0 := rfl
    rw [rssHashIpv4, rssHashIpv4TwoTuple, hzeros, rssToeplitz_eq h, rssToeplitz_eq h,
      toeplitz_append_zeros]

/-- The flow from 66.9.149.187:2794 to 161.142.100.80:1766 under the default key. -/
theorem rss_toeplitz_default :
    rssHashIpv4 rssDefaultKey 0x420995bb 0xa18e6450 2794 1766 = some 0x51ccc178 ∧
    rssHashIpv4 rssDefaultKey 0x420995bb 0xa18e6450 0 0 =
      rssHashIpv4TwoTuple rssDefaultKey 0x420995bb 0xa18e6450 := by
  obtain ⟨-, hhash, hzero⟩ := rss_toeplitz (show 4 ≤ rssDefaultKey.length by decide)
  rw [hhash]
  exact ⟨by decide +kernel, hzero _ _⟩

/-! ## Linearity -/

/-- The addresses and ports of a flow. -/
structure FourTuple where
  srcIp : UInt32
  dstIp : UInt32
  srcPort : UInt16
  dstPort : UInt16
  deriving DecidableEq, Repr

namespace FourTuple

/-- The exclusive or of two flows, field by field. -/
def xor (t t' : FourTuple) : FourTuple where
  srcIp := t.srcIp ^^^ t'.srcIp
  dstIp := t.dstIp ^^^ t'.dstIp
  srcPort := t.srcPort ^^^ t'.srcPort
  dstPort := t.dstPort ^^^ t'.dstPort

/-- The input of the hash. -/
def bytes (t : FourTuple) : List UInt8 :=
  be32 t.srcIp ++ be32 t.dstIp ++ be16 t.srcPort ++ be16 t.dstPort

/-- The queue that the code assigns to a flow. -/
def queue (key : List UInt8) (tableSize : UInt32) (t : FourTuple) : Option UInt32 :=
  (rssHashIpv4 key t.srcIp t.dstIp t.srcPort t.dstPort).map (rssQueue · tableSize)

theorem bytes_xor (t t' : FourTuple) : (t.xor t').bytes = xorBytes t.bytes t'.bytes := by
  simp only [bytes, xor, be32, be16, UInt32.shiftRight_xor, UInt16.shiftRight_xor,
    UInt32.toUInt8_xor, UInt16.toUInt8_xor]
  rfl

theorem queue_eq {key : List UInt8} (h : 4 ≤ key.length) (tableSize : UInt32) (t : FourTuple) :
    t.queue key tableSize = some (rssQueue ⟨toeplitz 32 key t.bytes⟩ tableSize) := by
  have hhash : rssHashIpv4 key t.srcIp t.dstIp t.srcPort t.dstPort =
      some ⟨toeplitz 32 key t.bytes⟩ := rssToeplitz_eq h t.bytes
  rw [queue, hhash]
  rfl

end FourTuple

/-- The mask is linear, and so is the only queue of an empty table. -/
theorem rssQueue_xor (hash hash' tableSize : UInt32) :
    rssQueue (hash ^^^ hash') tableSize = rssQueue hash tableSize ^^^ rssQueue hash' tableSize := by
  rw [rssQueue, rssQueue, rssQueue]
  split
  · rfl
  · rw [← UInt32.toNat_inj]
    simp only [UInt32.toNat_and, UInt32.toNat_xor, Nat.and_xor_distrib_right]

/-- **The hash is linear.** With a key of at least four bytes the hash of the exclusive or of two
inputs of one length is the exclusive or of their hashes; and for every table size the queues of two
flows differ by the queue of the exclusive or of the flows. -/
theorem rss_linear {key : List UInt8} (h : 4 ≤ key.length) :
    (∀ a b : List UInt8, a.length = b.length → ∃ ha hb, rssToeplitz key a = some ha ∧
      rssToeplitz key b = some hb ∧ rssToeplitz key (xorBytes a b) = some (ha ^^^ hb)) ∧
    ∀ (t t' : FourTuple) (tableSize : UInt32), ∃ q q', t.queue key tableSize = some q ∧
      t'.queue key tableSize = some q' ∧ (t.xor t').queue key tableSize = some (q ^^^ q') := by
  refine ⟨fun a b hlen => ?_, fun t t' tableSize => ?_⟩
  · refine ⟨_, _, rssToeplitz_eq h a, rssToeplitz_eq h b, ?_⟩
    rw [rssToeplitz_eq h, toeplitz_xor 32 key hlen]
    rfl
  · have hlen : t.bytes.length = t'.bytes.length := rfl
    refine ⟨_, _, FourTuple.queue_eq h tableSize t, FourTuple.queue_eq h tableSize t', ?_⟩
    rw [FourTuple.queue_eq h, t.bytes_xor t', toeplitz_xor 32 key hlen, ← rssQueue_xor]
    rfl

/-- The default key: one bit at each end of a byte, and two flows that differ in a port. -/
theorem rss_linear_default :
    (∃ ha hb, rssToeplitz rssDefaultKey [0x80] = some ha ∧
      rssToeplitz rssDefaultKey [0x01] = some hb ∧
      rssToeplitz rssDefaultKey [0x81] = some (ha ^^^ hb)) ∧
    ∃ q q', FourTuple.queue rssDefaultKey 8 ⟨0x420995bb, 0xa18e6450, 2794, 1766⟩ = some q ∧
      FourTuple.queue rssDefaultKey 8 ⟨0x420995bb, 0xa18e6450, 2795, 1766⟩ = some q' ∧
      FourTuple.queue rssDefaultKey 8 ⟨0, 0, 1, 0⟩ = some (q ^^^ q') := by
  obtain ⟨hinputs, hflows⟩ := rss_linear (show 4 ≤ rssDefaultKey.length by decide)
  exact ⟨hinputs [0x80] [0x01] rfl, hflows ⟨0x420995bb, 0xa18e6450, 2794, 1766⟩
    ⟨0x420995bb, 0xa18e6450, 2795, 1766⟩ 8⟩

end Rewsr.Net
