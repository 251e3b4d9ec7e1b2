import Rewsr.Net.Proof.BigEndian
import Rewsr.Dataplane.Worker
import Rewsr.Net.Pktgen
import Rewsr.Net.Proof.RoundTrip

/-!
# The generator's frames

`genAt e fl len n` is the generator after `n` frames. `pktgenInit_eq` and `pktgenNext_eq` are the
two steps: initialisation gives `genAt … 0`, and a call with room writes `genFrame … n` and moves
on to `n + 1`; `pktgenRun_eq` follows by induction over the calls.

The incremental checksums end on the complement of the full sum (`ipCheck_eq`, `seqCheck_toNat`).
For the IPv4 header that is the field the builder writes. For UDP it differs where the sum is a
multiple of 65535: the builder then writes all ones and the generator zero.
-/

namespace Rewsr.Net

open Rewsr.Wire OnesComplement

/-! ## Incremental updates -/

/-- An update of a check field that complements a total `S`. -/
theorem cksumUpdate_of_modEq {c old : UInt16} (new : UInt16) {S : Nat}
    (h : 65535 - c.toNat ≡ S [MOD 65535])
    (h0 : old.toNat < 65535) : (cksumUpdate c old new).toNat =
      65535 - canon 65536 (S + (65535 - old.toNat) + new.toNat) := by
  rw [cksumUpdate_toNat]
  congr 1
  exact (canon_eq_iff (by omega) (by omega)).2 ((h.add_right _).add_right _)

/-- The field after an update complements the new total. -/
theorem complements_of_toNat {c : UInt16} {S : Nat} (h : c.toNat = 65535 - canon 65536 S) :
    65535 - c.toNat ≡ S [MOD 65535] := by
  have hlt := canon_lt (b := 65536) (by decide) S
  rw [h, Nat.sub_sub_self (by omega)]
  exact canon_modEq S

/-- Whole rounds of the modulus added to a positive total change nothing. -/
theorem canon_add_mul {S : Nat} (hS : 0 < S) (k : Nat) :
    canon 65536 (S + 65535 * k) = canon 65536 S :=
  (canon_eq_iff (by omega) hS).2 (by simp [Nat.ModEq])

/-! ## Loads and stores -/

section
variable {as cs : List UInt8} {i : Nat}

theorem storeBe16_at (hi : i = as.length) (v w : UInt16) :
    storeBe16 (as ++ (be16 v ++ cs)) i w = some (as ++ (be16 w ++ cs)) := by
  rw [storeBe16_eq]
  exact writeN_append hi rfl

theorem loadBe16_at (hi : i = as.length) (v : UInt16) :
    loadBe16 (as ++ (be16 v ++ cs)) i = some v := by
  subst hi
  have h0 : read8 (as ++ (be16 v ++ cs)) as.length = some (v >>> 8).toUInt8 := by
    simp [read8, be16]
  have h1 : read8 (as ++ (be16 v ++ cs)) (as.length + 1) = some v.toUInt8 := by
    rw [read8, List.getElem?_append_right (by omega)]
    simp [be16]
  rw [loadBe16, h0, h1]
  exact congrArg some (load16_be16 v)

end

/-! ## The sequence number -/

/-- The big-endian bytes of `n` modulo `2 ^ 64`. -/
def seqBytes (n : Nat) : List UInt8 := (List.range 8).map fun i => UInt8.ofNat (n / 256 ^ (7 - i))

/-- Word `w` of the sequence number, as the loop extracts it. -/
def seqWord (seq : UInt64) (w : Nat) : UInt16 :=
  ((seq >>> UInt64.ofNat (48 - w * 16)) &&& (0xffff : UInt64)).toUInt16

/-- The payload of frame `n`. -/
def seqPayload (len n : Nat) : List UInt8 := seqBytes n ++ pattern len

theorem seqWord_toNat (seq : UInt64) {w : Nat} (hw : w < 4) :
    (seqWord seq w).toNat = seq.toNat / 2 ^ (48 - w * 16) % 65536 := by
  have hand : ∀ x, x &&& 65535 = x % 65536 := fun x => Nat.and_two_pow_sub_one_eq_mod x 16
  have hs : (48 - w * 16) % 18446744073709551616 % 64 = 48 - w * 16 := by omega
  simp only [seqWord, UInt64.toNat_toUInt16, UInt64.toNat_and, UInt64.toNat_shiftRight,
    UInt64.toNat_ofNat', Nat.reducePow, UInt64.reduceToNat, hand, hs, Nat.shiftRight_eq_div_pow,
    Nat.mod_mod]

theorem seqBytes_eq (n : Nat) : seqBytes n = be16 (seqWord (UInt64.ofNat n) 0) ++
    (be16 (seqWord (UInt64.ofNat n) 1) ++ (be16 (seqWord (UInt64.ofNat n) 2) ++
      be16 (seqWord (UInt64.ofNat n) 3))) := by
  have hb : ∀ w, w < 4 → be16 (seqWord (UInt64.ofNat n) w) =
      [UInt8.ofNat (n / 256 ^ (7 - 2 * w)), UInt8.ofNat (n / 256 ^ (7 - (2 * w + 1)))] := by
    intro w hw
    simp only [be16, List.cons.injEq, and_true, ← UInt8.toNat_inj, UInt16.toNat_toUInt8,
      UInt16.toNat_shiftRight, UInt16.reduceToNat, Nat.reduceMod, seqWord_toNat _ hw,
      UInt64.toNat_ofNat', UInt8.toNat_ofNat', Nat.shiftRight_eq_div_pow, Nat.reducePow]
    interval_cases w <;> omega
  rw [hb 0 (by decide), hb 1 (by decide), hb 2 (by decide), hb 3 (by decide)]
  rfl

@[simp] theorem length_seqBytes (n : Nat) : (seqBytes n).length = 8 := by simp [seqBytes]

theorem length_seqPayload {len : Nat} (h : 8 ≤ len) (n : Nat) :
    (seqPayload len n).length = len := by
  simp only [seqPayload, pattern, List.length_append, length_seqBytes, List.length_map,
    List.length_range']
  omega

/-- The total of the four words. -/
def seqSum (n : Nat) : Nat :=
  (seqWord (UInt64.ofNat n) 0).toNat + (seqWord (UInt64.ofNat n) 1).toNat +
    (seqWord (UInt64.ofNat n) 2).toNat + (seqWord (UInt64.ofNat n) 3).toNat

theorem wordSum_seqPayload (len n : Nat) :
    wordSum (seqPayload len n) = seqSum n + wordSum (pattern len) := by
  rw [seqPayload, wordSum_append (by simp), seqBytes_eq, wordSum_append (by simp),
    wordSum_append (by simp), wordSum_append (by simp), wordSum_be16, wordSum_be16, wordSum_be16,
    wordSum_be16, seqSum]
  omega

/-! ## The generator after `n` frames -/

/-- The bytes in front of the IPv4 id, between the id and the IPv4 check field, and from there to
the UDP check field. -/
def preId (fl : Flow) (len : Nat) : List UInt8 :=
  fl.dstMac.bytes ++ fl.srcMac.bytes ++ be16 ethPIp ++ [0x45, 0] ++ be16 (UInt16.ofNat (28 + len))

def postId : List UInt8 := be16 0x4000 ++ [64, ipprotoUdp]

def postCheck (fl : Flow) (len : Nat) : List UInt8 :=
  be32 fl.srcIp ++ be32 fl.dstIp ++ be16 fl.srcPort ++ be16 fl.dstPort ++
    be16 (UInt16.ofNat (8 + len))

/-- A buffer by the fields a call rewrites: the id, the two check fields and what follows them. -/
def layout (fl : Flow) (len : Nat) (ipId ipCheck udpCheck : UInt16) (rest : List UInt8) :
    List UInt8 :=
  preId fl len ++ (be16 ipId ++ (postId ++ (be16 ipCheck ++ (postCheck fl len ++
    (be16 udpCheck ++ rest)))))

section
variable (fl : Flow) (len : Nat) (ipId ipCheck udpCheck v : UInt16) (rest : List UInt8)

theorem frameWith_layout {p : List UInt8} (hp : p.length = len) :
    frameWith fl ipId udpCheck p ++ rest = layout fl len ipId
      (ipv4Check (UInt16.ofNat (28 + len)) ipId fl.srcIp fl.dstIp) udpCheck (p ++ rest) := by
  subst hp
  simp only [frameWith, headBytes, ipv4Bytes, layout, preId, postId, postCheck, List.append_assoc]

theorem storeIpId_layout : storeBe16 (layout fl len ipId ipCheck udpCheck rest) ipIdOff v =
    some (layout fl len v ipCheck udpCheck rest) :=
  storeBe16_at rfl ..

/-- The layout split in front of the IPv4 check field. -/
theorem layout_ipCheck : layout fl len ipId ipCheck udpCheck rest =
    (preId fl len ++ (be16 ipId ++ postId)) ++ (be16 ipCheck ++ (postCheck fl len ++
      (be16 udpCheck ++ rest))) := by
  simp only [layout, List.append_assoc]

/-- The layout split in front of the UDP check field. -/
theorem layout_udpCheck : layout fl len ipId ipCheck udpCheck rest =
    (preId fl len ++ (be16 ipId ++ (postId ++ (be16 ipCheck ++ postCheck fl len)))) ++
      (be16 udpCheck ++ rest) := by
  simp only [layout, List.append_assoc]

/-- The layout split in front of the payload. -/
theorem layout_payload : layout fl len ipId ipCheck udpCheck rest =
    (preId fl len ++ (be16 ipId ++ (postId ++ (be16 ipCheck ++ (postCheck fl len ++
      be16 udpCheck))))) ++ rest := by
  simp only [layout, List.append_assoc]

theorem storeIpCheck_layout : storeBe16 (layout fl len ipId ipCheck udpCheck rest) ipCheckOff v =
    some (layout fl len ipId v udpCheck rest) := by
  rw [layout_ipCheck, layout_ipCheck]
  exact storeBe16_at rfl ..

theorem storeUdpCheck_layout : storeBe16 (layout fl len ipId ipCheck udpCheck rest) udpCheckOff v =
    some (layout fl len ipId ipCheck v rest) := by
  rw [layout_udpCheck, layout_udpCheck]
  exact storeBe16_at rfl ..

theorem loadIpCheck_layout :
    loadBe16 (layout fl len ipId ipCheck udpCheck rest) ipCheckOff = some ipCheck := by
  rw [layout_ipCheck]
  exact loadBe16_at rfl ..

theorem loadUdpCheck_layout :
    loadBe16 (layout fl len ipId ipCheck udpCheck rest) udpCheckOff = some udpCheck := by
  rw [layout_udpCheck]
  exact loadBe16_at rfl ..

end

/-- A check field updated from a zero sequence number to `n`. -/
def stampCheck (c : UInt16) (n : Nat) : UInt16 :=
  let w := seqWord (UInt64.ofNat n)
  cksumUpdate (cksumUpdate (cksumUpdate (cksumUpdate c 0 (w 0)) 0 (w 1)) 0 (w 2)) 0 (w 3)

/-- The UDP check field of frame `n`: the template's, updated. -/
def seqCheck (e : Endian) (fl : Flow) (len n : Nat) : UInt16 :=
  stampCheck (builtCheck e fl len (seqPayload len 0)) n

/-- Frame `n`, counting from 0. -/
def genFrame (e : Endian) (fl : Flow) (len n : Nat) : List UInt8 :=
  frameWith fl (UInt16.ofNat (0x1000 + n)) (seqCheck e fl len n) (seqPayload len n)

/-- The generator that has emitted `n` frames. -/
def genAt (e : Endian) (fl : Flow) (len n : Nat) : Pktgen :=
  { tmpl := udpFrame e fl 0x1000 (seqPayload len 0) ++ List.replicate (2048 - len) 0
    frameLen := 42 + len
    payloadLen := len
    baseIpId := 0x1000
    ipId := UInt16.ofNat (0x1000 + n)
    seq := UInt64.ofNat n
    ipCheckBase := ipv4Check (UInt16.ofNat (28 + len)) 0x1000 fl.srcIp fl.dstIp
    udpCheckBase := builtCheck e fl len (seqPayload len 0) }

/-! ## The checksums -/

section
variable (e : Endian) (fl : Flow) (n : Nat) {len : Nat}

/-- The incremental IPv4 checksum is the header's. -/
theorem ipCheck_eq (totLen ipId : UInt16) (srcIp dstIp : UInt32) :
    cksumUpdate (ipv4Check totLen 0x1000 srcIp dstIp) 0x1000 ipId =
      ipv4Check totLen ipId srcIp dstIp := by
  have hsum : ∀ id : UInt16, wordSum (ipv4Bytes totLen id 0 srcIp dstIp) =
      wordSum ([0x45, 0] ++ be16 totLen) + id.toNat +
        wordSum (be16 0x4000 ++ [64, ipprotoUdp] ++ be16 0 ++ be32 srcIp ++ be32 dstIp) := by
    intro id
    have hsplit : ipv4Bytes totLen id 0 srcIp dstIp = ([0x45, 0] ++ be16 totLen) ++ (be16 id ++
        (be16 0x4000 ++ [64, ipprotoUdp] ++ be16 0 ++ be32 srcIp ++ be32 dstIp)) := rfl
    have hev : ([0x45, 0] ++ be16 totLen).length % 2 = 0 := by simp
    rw [hsplit, wordSum_append hev, wordSum_append (show (be16 id).length % 2 = 0 by simp),
      wordSum_be16,
      Nat.add_assoc]
  have hpos : 0 < wordSum ([0x45, 0] ++ be16 totLen) := by
    rw [wordSum_append (by simp), wordSum_cons]
    exact Nat.lt_of_lt_of_le (by decide) (Nat.le_add_right _ _)
  apply UInt16.toNat_inj.1
  rw [cksumUpdate_of_modEq _ (complements_of_toNat (ipv4Check_toNat ..)) (by decide),
    ipv4Check_toNat, hsum 0x1000, hsum ipId]
  have hid : (0x1000 : UInt16).toNat = 4096 := rfl
  generalize wordSum ([0x45, 0] ++ be16 totLen) = A at hpos ⊢
  generalize wordSum (be16 0x4000 ++ [64, ipprotoUdp] ++ be16 0 ++ be32 srcIp ++ be32 dstIp) = B
  congr 1
  rw [← canon_add_mul (by omega : 0 < A + ipId.toNat + B) 1, hid]
  congr 1
  omega

theorem builtSum_seqPayload (h : 8 ≤ len) : builtSum e fl (seqPayload len n) =
    builtSum e fl (seqPayload len 0) + seqSum n := by
  have h0 : seqSum 0 = 0 := by decide
  rw [builtSum, builtSum, wordSum_seqPayload, wordSum_seqPayload, length_seqPayload h,
    length_seqPayload h, h0]
  omega

/-- The template's check field complements its sum. -/
theorem builtCheck_modEq {p : List UInt8} (hp : p.length ≤ 65507) :
    65535 - (builtCheck e fl p.length p).toNat ≡ builtSum e fl p [MOD 65535] := by
  have hm := canon_modEq (b := 65536) (builtSum e fl p)
  have hlt := canon_lt (b := 65536) (by decide) (builtSum e fl p)
  rw [builtCheck_toNat e fl hp]
  split
  · rename_i h
    rw [h] at hm
    exact (Nat.ModEq.symm (by simp [Nat.ModEq])).trans hm
  · rwa [Nat.sub_sub_self (by omega)]

/-- The incremental UDP checksum: the plain complement of the full sum, zero included. -/
theorem seqCheck_toNat (h8 : 8 ≤ len) (h : len ≤ 2048) : (seqCheck e fl len n).toNat =
    65535 - canon 65536 (builtSum e fl (seqPayload len n)) := by
  have hlen := length_seqPayload h8 0
  have h0 := builtCheck_modEq e fl (p := seqPayload len 0) (by omega)
  rw [hlen] at h0
  have hz : (0 : UInt16).toNat < 65535 := by decide
  let w := seqWord (UInt64.ofNat n)
  have h1 := cksumUpdate_of_modEq (w 0) h0 hz
  have h2 := cksumUpdate_of_modEq (w 1) (complements_of_toNat h1) hz
  have h3 := cksumUpdate_of_modEq (w 2) (complements_of_toNat h2) hz
  have h4 := cksumUpdate_of_modEq (w 3) (complements_of_toNat h3) hz
  have hpos : 0 < builtSum e fl (seqPayload len n) := by rw [builtSum]; omega
  refine h4.trans ?_
  rw [← canon_add_mul hpos 4, builtSum_seqPayload e fl n h8, seqSum, UInt16.toNat_zero]
  congr 2
  simp only [w]
  omega

end

/-! ## The steps -/

section
variable {e : Endian} {fl : Flow} {len : Nat}

theorem pktgenInit_eq (h8 : 8 ≤ len) (h : len ≤ 2048) :
    pktgenInit e fl len = some (.ok (genAt e fl len 0)) := by
  have hlen := length_seqPayload h8 0
  have hpl : List.replicate 8 0 ++ pattern len = seqPayload len 0 := rfl
  have hcap : tmplCap = 2090 := rfl
  have hb := build_udpFrame e fl 0x1000 (some (seqPayload len 0))
    (List.replicate tmplCap 0) (by simp only [Option.getD_some]; omega)
    (by simp only [Option.getD_some, List.length_replicate]; omega)
    (by rw [List.length_replicate]; decide)
  have hrest : tmplCap - (42 + len) = 2048 - len := by omega
  rw [Option.getD_some, hlen, List.drop_replicate, hrest] at hb
  have htmpl : udpFrame e fl 0x1000 (seqPayload len 0) ++ List.replicate (2048 - len) 0 = _ :=
    frameWith_layout fl len 0x1000 _ _ hlen
  unfold pktgenInit
  rw [if_neg (by omega), hpl]
  dsimp only
  rw [hb, Option.bind_eq_bind, Option.bind_some]
  dsimp only
  rw [if_neg (by omega), htmpl, loadIpCheck_layout, Option.bind_eq_bind, Option.bind_some,
    loadUdpCheck_layout, Option.bind_some, ← htmpl, hlen]
  rfl

theorem pktgenInit_ok_iff {g : Pktgen} : pktgenInit e fl len = some (.ok g) ↔
    8 ≤ len ∧ len ≤ 2048 ∧ g = genAt e fl len 0 := by
  by_cases hlen : len < 8 ∨ len > 2048
  · constructor
    · intro h
      rw [pktgenInit, if_pos hlen] at h
      cases h
    · rintro ⟨h8, h, -⟩
      omega
  · rw [pktgenInit_eq (by omega) (by omega)]
    constructor
    · intro h
      cases h
      exact ⟨by omega, by omega, rfl⟩
    · rintro ⟨-, -, rfl⟩
      rfl

/-- One round of the loop, on a payload whose word is still zero. -/
theorem stampWord_at {as cs : List UInt8} {w : Nat} (hi : payloadOff + w * 2 = as.length)
    (seq : UInt64) (c : UInt16) :
    stampWord seq (as ++ (be16 0 ++ cs), c) w =
      some (as ++ (be16 (seqWord seq w) ++ cs), cksumUpdate c 0 (seqWord seq w)) := by
  simp only [stampWord, loadBe16_at hi, Option.bind_eq_bind, Option.bind_some]
  rw [← seqWord, storeBe16_at hi, Option.bind_some]
  rfl

/-- The loop stamps the sequence number over a zero one. -/
theorem stampWords_eq {as cs : List UInt8} (hi : payloadOff = as.length) (n : Nat) (c : UInt16) :
    [0, 1, 2, 3].foldlM (stampWord (UInt64.ofNat n)) (as ++ (seqBytes 0 ++ cs), c) =
      some (as ++ (seqBytes n ++ cs), stampCheck c n) := by
  have hz : seqBytes 0 = be16 0 ++ (be16 0 ++ (be16 0 ++ be16 0)) := rfl
  have hl : ∀ v, (be16 v).length = 2 := length_be16
  rw [hz, seqBytes_eq]
  simp only [List.foldlM_cons, List.foldlM_nil, List.append_assoc, Option.bind_eq_bind]
  rw [stampWord_at (by rw [hi]; rfl), Option.bind_some, ← List.append_assoc as]
  rw [stampWord_at (by rw [List.length_append, ← hi, hl]), Option.bind_some,
    ← List.append_assoc _ (be16 _) (be16 0 ++ _)]
  rw [stampWord_at (by simp only [List.length_append, ← hi, hl]), Option.bind_some,
    ← List.append_assoc _ (be16 _) (be16 0 ++ _)]
  rw [stampWord_at (by simp only [List.length_append, ← hi, hl]), Option.bind_some]
  simp only [List.append_assoc]
  rfl

theorem stampWords_layout (fl : Flow) (len n : Nat) (ipId ipCheck c : UInt16) (rest : List UInt8) :
    [0, 1, 2, 3].foldlM (stampWord (UInt64.ofNat n))
      (layout fl len ipId ipCheck c (seqPayload len 0 ++ rest), c) =
        some (layout fl len ipId ipCheck c (seqPayload len n ++ rest), stampCheck c n) := by
  have hpre : payloadOff = (preId fl len ++ (be16 ipId ++ (postId ++ (be16 ipCheck ++
    (postCheck fl len ++ be16 c))))).length := rfl
  rw [layout_payload, layout_payload, seqPayload, seqPayload, List.append_assoc (seqBytes 0),
    List.append_assoc (seqBytes n)]
  exact stampWords_eq hpre n c

theorem genAt_succ (n : Nat) : { genAt e fl len n with
    ipId := (genAt e fl len n).ipId + 1, seq := (genAt e fl len n).seq + 1 } =
      genAt e fl len (n + 1) := by
  have hid : UInt16.ofNat (0x1000 + n) + 1 = UInt16.ofNat (0x1000 + (n + 1)) := by
    rw [← Nat.add_assoc, UInt16.ofNat_add (0x1000 + n) 1]
    rfl
  have hseq : UInt64.ofNat n + 1 = UInt64.ofNat (n + 1) := by
    rw [UInt64.ofNat_add]
    rfl
  simp only [genAt, hid, hseq]

/-- **One call** with room writes frame `n` and nothing behind it. -/
theorem pktgenNext_eq (h8 : 8 ≤ len) (h : len ≤ 2048) (n : Nat) {out : List UInt8}
    (hcap : 42 + len ≤ out.length) : pktgenNext (genAt e fl len n) out =
      some (((42 + len : Nat) : Int), genAt e fl len (n + 1),
        genFrame e fl len n ++ out.drop (42 + len)) := by
  have hlen := length_seqPayload h8 0
  have hframe : (udpFrame e fl 0x1000 (seqPayload len 0)).length = 42 + len := by
    rw [length_udpFrame, hlen]
  have hread : readN (genAt e fl len n).tmpl 0 (genAt e fl len n).frameLen =
      some (udpFrame e fl 0x1000 (seqPayload len 0)) :=
    readN_append (show 0 = ([] : List UInt8).length from rfl) hframe.symm
  have hwrite : writeN out 0 (udpFrame e fl 0x1000 (seqPayload len 0)) = some (layout fl len 0x1000
      (genAt e fl len n).ipCheckBase (genAt e fl len n).udpCheckBase
        (seqPayload len 0 ++ out.drop (42 + len))) := by
    rw [writeN_front (by omega), hframe, udpFrame, frameWith_layout _ _ _ _ _ hlen, hlen]
    rfl
  have hcheck : cksumUpdate (genAt e fl len n).ipCheckBase (genAt e fl len n).baseIpId
      (genAt e fl len n).ipId = _ := ipCheck_eq ..
  have hstamp := stampWords_layout fl len n (genAt e fl len n).ipId
    (ipv4Check (UInt16.ofNat (28 + len)) (genAt e fl len n).ipId fl.srcIp fl.dstIp)
    (genAt e fl len n).udpCheckBase (out.drop (42 + len))
  have hint : toInt (genAt e fl len n).frameLen = ((42 + len : Nat) : Int) :=
    toInt_of_lt (n := 42 + len) (by omega)
  unfold pktgenNext
  rw [if_neg (by simp only [genAt]; omega)]
  simp only [Option.bind_eq_bind, hread, Option.bind_some, hwrite, storeIpId_layout, hcheck,
    storeIpCheck_layout]
  rw [show (genAt e fl len n).seq = UInt64.ofNat n from rfl, hstamp, Option.bind_some,
    storeUdpCheck_layout, Option.bind_some]
  rw [← genAt_succ, hint, genFrame, frameWith_layout _ _ _ _ _ (length_seqPayload h8 n)]
  rfl

/-- A call without room changes nothing. -/
theorem pktgenNext_short {g : Pktgen} {out : List UInt8} (h : out.length < g.frameLen) :
    pktgenNext g out = some (-1, g, out) := if_pos h

/-- The calls of a sequence that have room for a frame. -/
def roomy (len : Nat) (outs : List (List UInt8)) : Nat :=
  outs.countP fun out => decide (42 + len ≤ out.length)

theorem length_genFrame (h8 : 8 ≤ len) (n : Nat) : (genFrame e fl len n).length = 42 + len := by
  rw [genFrame, length_frameWith, length_seqPayload h8]

/-- **A run**: the calls with room emit the next frames in order, the others nothing. -/
theorem pktgenRun_eq (h8 : 8 ≤ len) (h : len ≤ 2048) (outs : List (List UInt8)) (n : Nat) :
    pktgenRun (genAt e fl len n) outs =
      some ((List.range' n (roomy len outs)).map (genFrame e fl len),
      genAt e fl len (n + roomy len outs)) := by
  induction outs generalizing n with
  | nil => rfl
  | cons out outs ih =>
    rw [pktgenRun]
    by_cases hcap : 42 + len ≤ out.length
    · have hk : roomy len (out :: outs) = roomy len outs + 1 :=
        List.countP_cons_of_pos (by simpa using hcap)
      have htake :
          (genFrame e fl len n ++ out.drop (42 + len)).take (42 + len) = genFrame e fl len n :=
        List.take_left' (length_genFrame h8 n)
      simp only [pktgenNext_eq h8 h n hcap, ih, Option.bind_eq_bind, Option.bind_some]
      rw [if_neg (by omega), Int.toNat_natCast, htake, hk, List.range'_succ, List.map_cons,
        Nat.add_right_comm n 1, ← Nat.add_assoc]
      rfl
    · have hk : roomy len (out :: outs) = roomy len outs :=
        List.countP_cons_of_neg (by simpa using hcap)
      have hshort : pktgenNext (genAt e fl len n) out = some (-1, genAt e fl len n, out) :=
        pktgenNext_short (by simp only [genAt]; omega)
      simp only [hshort, ih, Option.bind_eq_bind, Option.bind_some, hk]
      rfl

/-! ## The receiver -/

theorem byte_seqBytes {n i : Nat} (hi : i < 8) :
    (seqBytes n)[i]? = some (UInt8.ofNat (n / 256 ^ (7 - i))) := by
  simp [seqBytes, hi]

theorem shiftIn_toNat (s : UInt64) (b : UInt8) (hs : s.toNat < 2 ^ 56) :
    ((s <<< 8) ||| b.toUInt64).toNat = s.toNat * 256 + b.toNat := by
  have hb := b.toNat_lt
  have h := or_shift s.toNat b.toNat 8 hb
  simp only [UInt64.toNat_or, UInt64.toNat_shiftLeft, UInt8.toNat_toUInt64, UInt64.reduceToNat,
    Nat.shiftLeft_eq, Nat.reduceMod, Nat.reducePow] at h ⊢
  rw [Nat.mod_eq_of_lt (by omega), h]

/-- Reading the first `k` bytes of a sequence number gives its high part. -/
theorem readSeq_fold {frame : List UInt8} {off n : Nat}
    (hr : ∀ i, i < 8 → read8 frame (off + i) = some (UInt8.ofNat (n / 256 ^ (7 - i)))) {k : Nat}
    (hk : k ≤ 8) : ∃ s : UInt64, s.toNat = n % 2 ^ 64 / 256 ^ (8 - k) ∧
      (List.range k).foldlM (fun (seq : UInt64) i => do
        let b ← read8 frame (off + i)
        return (seq <<< 8) ||| b.toUInt64) 0 = some s := by
  induction k with
  | zero => exact ⟨0, by rw [UInt64.toNat_zero]; omega, rfl⟩
  | succ k ih =>
    obtain ⟨s, hs, hf⟩ := ih (by omega)
    have hk8 : k < 8 := by omega
    refine ⟨(s <<< 8) ||| (UInt8.ofNat (n / 256 ^ (7 - k))).toUInt64, ?_, ?_⟩
    · have hlt : s.toNat < 2 ^ 56 := by
        rw [hs]
        interval_cases k <;> omega
      rw [shiftIn_toNat _ _ hlt, hs, UInt8.toNat_ofNat']
      interval_cases k <;> omega
    · rw [List.range_succ, List.foldlM_append, hf]
      simp [hr k (by omega)]

section
variable (h8 : 8 ≤ len) (h : len ≤ 2048) (n : Nat)
include h8 h

variable (e fl) in
theorem parse_genFrame : ∃ dg, parseUdpIpv4 e (genFrame e fl len n) = some (.ok dg) ∧
    dg.dstPort = fl.dstPort ∧ dg.payload = 42 ∧ dg.payloadLen = len := by
  have hlen := length_seqPayload h8 n
  have hp : (seqPayload len n).length ≤ 65507 := by omega
  have hacc := accepted_frameWith fl (UInt16.ofNat (0x1000 + n)) (seqCheck e fl len n) [] hp
  have hdg := datagram_frameWith fl (UInt16.ofNat (0x1000 + n)) (seqCheck e fl len n) [] hp
  rw [List.append_nil] at hacc hdg
  refine ⟨_, parseUdpIpv4_ok_iff.2 ⟨hacc, rfl⟩, ?_, ?_, ?_⟩
  · rw [genFrame, hdg]
  · rw [genFrame, hdg]
  · rw [genFrame, hdg]
    exact hlen

omit h8 h in
theorem verifyIpv4_genFrame : verifyIpv4Checksum (genFrame e fl len n) = some 1 := by
  have := verifyIpv4_frameWith fl (UInt16.ofNat (0x1000 + n)) (seqCheck e fl len n)
    (seqPayload len n) []
  rwa [List.append_nil] at this

theorem verifyUdp_genFrame : verifyUdpChecksum e (genFrame e fl len n) = some 1 := by
  have hlen := length_seqPayload h8 n
  have hc := seqCheck_toNat e fl n h8 h
  have := verifyUdp_frameWith fl (UInt16.ofNat (0x1000 + n)) (seqCheck e fl len n) []
    (p := seqPayload len n) (by omega) (e := e)
    (.inr (by rw [hc]; exact canon_add_complement (by decide) _))
  rwa [List.append_nil] at this

theorem dpClassify_genFrame : ∃ p : UInt32, p.toNat = len ∧
    Dataplane.dpClassify e (genFrame e fl len n) = some (some p) := by
  obtain ⟨dg, hok, -, -, hpl⟩ := parse_genFrame e fl h8 h n
  refine ⟨UInt32.ofNat len, ?_, ?_⟩
  · rw [UInt32.toNat_ofNat']
    omega
  · rw [Dataplane.dpClassify, hok, Option.bind_some]
    simp only [hpl, verifyUdp_genFrame h8 h n, Option.bind_some]
    rw [if_neg (by omega), if_neg (by decide)]

theorem readSeq_genFrame : ∃ s : UInt64, s.toNat = n % 2 ^ 64 ∧
    pktgenReadSeq e (genFrame e fl len n) = some (.ok s) := by
  obtain ⟨dg, hok, -, hoff, hpl⟩ := parse_genFrame e fl h8 h n
  have hr : ∀ i, i < 8 → read8 (genFrame e fl len n) (42 + i) =
      some (UInt8.ofNat (n / 256 ^ (7 - i))) := by
    intro i hi
    have hpre : genFrame e fl len n =
        (headBytes fl (UInt16.ofNat (0x1000 + n)) (seqPayload len n).length ++
        be16 (seqCheck e fl len n)) ++ (seqBytes n ++ pattern len) := by
      rw [genFrame, frameWith, List.append_assoc]
      rfl
    have h42 : (headBytes fl (UInt16.ofNat (0x1000 + n)) (seqPayload len n).length ++
        be16 (seqCheck e fl len n)).length = 42 := rfl
    rw [read8, hpre, List.getElem?_append_right (by omega), h42, Nat.add_sub_cancel_left,
      List.getElem?_append_left (by rw [length_seqBytes]; exact hi), byte_seqBytes hi]
  obtain ⟨s, hs, hf⟩ := readSeq_fold hr (k := 8) (Nat.le_refl _)
  refine ⟨s, by simpa using hs, ?_⟩
  rw [pktgenReadSeq, hok, Option.bind_some]
  simp only [hoff, hpl]
  rw [if_neg (by omega), hf]
  rfl

variable (e fl) in
/-- Frame `n` has the check field the builder writes unless the sum is a multiple of 65535. -/
theorem seqCheck_eq_iff : seqCheck e fl len n = builtCheck e fl len (seqPayload len n) ↔
    ¬ 65535 ∣ builtSum e fl (seqPayload len n) := by
  have hlen := length_seqPayload h8 n
  have hb := builtCheck_toNat e fl (p := seqPayload len n) (by omega)
  have hpos : 0 < builtSum e fl (seqPayload len n) := by rw [builtSum]; omega
  have htop := canon_eq_top (b := 65536) (by decide) hpos
  rw [hlen] at hb
  rw [← UInt16.toNat_inj, seqCheck_toNat e fl n h8 h, hb, Nat.dvd_iff_mod_eq_zero, ← htop]
  split <;> omega

theorem seqCheck_eq_zero_iff : (seqCheck e fl len n).toNat = 0 ↔
    65535 ∣ builtSum e fl (seqPayload len n) := by
  have hpos : 0 < builtSum e fl (seqPayload len n) := by rw [builtSum]; omega
  have hlt := canon_lt (b := 65536) (by decide) (builtSum e fl (seqPayload len n))
  rw [seqCheck_toNat e fl n h8 h, Nat.dvd_iff_mod_eq_zero,
    ← canon_eq_top (b := 65536) (by decide) hpos]
  omega

end

/-- Frame `n` of a run that starts at the first frame. -/
theorem getElem_frames {outs : List (List UInt8)} {frames : List (List UInt8)}
    (hf : frames = (List.range' 0 (roomy len outs)).map (genFrame e fl len)) {n : Nat}
    (hn : n < frames.length) : frames[n] = genFrame e fl len n := by
  subst hf
  simp

/-- **Every generated frame is accepted.** In every run of a generator, the frame of index `n`
passes both checksum tests and the classifier, and carries `n`; a call without room fails and
leaves the generator as it was. -/
theorem pktgenRun_accepted {g : Pktgen} (hinit : pktgenInit e fl len = some (.ok g))
    (outs : List (List UInt8)) : ∃ frames g', pktgenRun g outs = some (frames, g') ∧
      frames.length = outs.countP (fun out => decide (g.frameLen ≤ out.length)) ∧
      (∀ n (hn : n < frames.length),
        verifyIpv4Checksum frames[n] = some 1 ∧ verifyUdpChecksum e frames[n] = some 1 ∧
        (∃ p : UInt32, p.toNat = g.payloadLen ∧
          Dataplane.dpClassify e frames[n] = some (some p)) ∧
        ∃ s : UInt64, s.toNat = n % 2 ^ 64 ∧ pktgenReadSeq e frames[n] = some (.ok s)) ∧
      g'.frameLen = g.frameLen ∧
      ∀ out : List UInt8, out.length < g'.frameLen → pktgenNext g' out = some (-1, g', out) := by
  obtain ⟨h8, h, rfl⟩ := pktgenInit_ok_iff.1 hinit
  refine ⟨_, _, pktgenRun_eq h8 h outs 0, ?_, fun n hn => ?_, rfl, fun _ => pktgenNext_short⟩
  · rw [List.length_map, List.length_range']
    rfl
  · rw [getElem_frames rfl hn]
    exact ⟨verifyIpv4_genFrame n, verifyUdp_genFrame h8 h n, dpClassify_genFrame h8 h n,
      readSeq_genFrame h8 h n⟩

/-- Two calls, of which the first has no room: one frame, with number 0. -/
theorem pktgenRun_accepted_second : ∃ g frames g', pktgenInit .little sampleFlow 8 = some (.ok g) ∧
    pktgenRun g [[], List.replicate 64 0] = some (frames, g') ∧ frames.length = 1 ∧
    ∀ n (hn : n < frames.length), verifyUdpChecksum .little frames[n] = some 1 ∧
      ∃ s : UInt64, s.toNat = n % 2 ^ 64 ∧ pktgenReadSeq .little frames[n] = some (.ok s) := by
  have hinit : pktgenInit .little sampleFlow 8 = some (.ok (genAt .little sampleFlow 8 0)) :=
    pktgenInit_eq (by decide) (by decide)
  obtain ⟨frames, g', hrun, hlen, hok, -⟩ := pktgenRun_accepted hinit [[], List.replicate 64 0]
  exact ⟨_, frames, g', hinit, hrun, hlen, fun n hn => ⟨(hok n hn).2.1, (hok n hn).2.2.2⟩⟩

/-- **Fast path and slow path.** In every run, the frame of index `n` is the frame the builder
writes for it, and its UDP check field is not zero, exactly when the sum that the builder takes
over pseudo-header, UDP header and payload is not a multiple of 65535. -/
theorem pktgenRun_eq_build_iff {g : Pktgen} (hinit : pktgenInit e fl len = some (.ok g))
    (outs : List (List UInt8)) : ∃ frames g', pktgenRun g outs = some (frames, g') ∧
      frames.length = outs.countP (fun out => decide (g.frameLen ≤ out.length)) ∧
      ∀ n (hn : n < frames.length),
        (buildUdpIpv4 e (List.replicate (42 + len) 0) fl (UInt16.ofNat (0x1000 + n))
            (some (seqBytes n ++ pattern len)) len = some (((42 + len : Nat) : Int), frames[n]) ∧
          udpCheck frames[n] ≠ 0) ↔
        ¬ 65535 ∣ builtSum e fl (seqBytes n ++ pattern len) := by
  obtain ⟨h8, h, rfl⟩ := pktgenInit_ok_iff.1 hinit
  refine ⟨_, _, pktgenRun_eq h8 h outs 0, ?_, fun n hn => ?_⟩
  · rw [List.length_map, List.length_range']
    rfl
  · have hlen := length_seqPayload h8 n
    have hb := build_udpFrame e fl (UInt16.ofNat (0x1000 + n)) (some (seqPayload len n))
      (List.replicate (42 + len) 0) (by simp only [Option.getD_some]; omega)
      (by simp only [Option.getD_some, List.length_replicate]; omega)
      (by rw [List.length_replicate, sizeMod]; omega)
    rw [Option.getD_some, hlen, List.drop_of_length_le (by rw [List.length_replicate]),
      List.append_nil] at hb
    have hcheck : udpCheck (genFrame e fl len n) = (seqCheck e fl len n).toNat := by
      rw [genFrame, ← List.append_nil (frameWith ..), udpCheck_frameWith]
    rw [getElem_frames rfl hn, ← seqPayload, hb, hcheck]
    constructor
    · rintro ⟨-, hne⟩
      rwa [← seqCheck_eq_zero_iff h8 h n]
    · intro hdvd
      have heq := (seqCheck_eq_iff e fl h8 h n).2 hdvd
      refine ⟨?_, mt (seqCheck_eq_zero_iff h8 h n).1 hdvd⟩
      rw [genFrame, heq, udpFrame, hlen]

/-- The sum for `sampleFlow` is not a multiple of 65535. -/
theorem pktgenRun_eq_build_first : ∃ g frames g', pktgenInit .little sampleFlow 8 = some (.ok g) ∧
    pktgenRun g [List.replicate 50 0] = some (frames, g') ∧
    ∃ hn : 0 < frames.length, buildUdpIpv4 .little (List.replicate 50 0) sampleFlow 0x1000
      (some (seqBytes 0 ++ pattern 8)) 8 = some ((50 : Int), frames[0]) := by
  have hinit : pktgenInit .little sampleFlow 8 = some (.ok (genAt .little sampleFlow 8 0)) :=
    pktgenInit_eq (by decide) (by decide)
  obtain ⟨frames, g', hrun, hlen, hiff⟩ := pktgenRun_eq_build_iff hinit [List.replicate 50 0]
  have hn : 0 < frames.length := by rw [hlen]; decide
  exact ⟨_, frames, g', hinit, hrun, hn, ((hiff 0 hn).2 (by decide)).1⟩

/-- A flow whose first frame sums to 65535 on a little-endian host. -/
def zeroSumFlow : Flow := { sampleFlow with srcPort := 62476 }

theorem pktgenRun_zeroCheck : ∃ g frame g', pktgenInit .little zeroSumFlow 8 = some (.ok g) ∧
    pktgenRun g [List.replicate 50 0] = some ([frame], g') ∧ udpCheck frame = 0 ∧
    ∃ slow, buildUdpIpv4 .little (List.replicate 50 0) zeroSumFlow 0x1000
      (some (seqBytes 0 ++ pattern 8)) 8 = some (50, slow) ∧ udpCheck slow = 0xffff ∧
      frame ≠ slow := by
  refine ⟨_, _, _, pktgenInit_eq (by decide) (by decide), pktgenRun_eq (by decide) (by decide) _ 0,
    by decide +kernel, _, build_udpFrame .little zeroSumFlow 0x1000 (some (seqPayload 8 0))
      (List.replicate 50 0) (by decide) (by decide) (by decide), by decide +kernel,
    by decide +kernel⟩

end

end Rewsr.Net
