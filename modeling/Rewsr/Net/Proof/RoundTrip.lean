import Rewsr.Net.Proof.Verify

/-!
# What is built is accepted

A frame whose check fields complement their sums passes both verifiers (`verifyIpv4_frameWith`,
`verifyUdp_frameWith`), whatever follows it in the buffer; so the frames of the builder do
(`buildUdpIpv4_roundTrip`). Builder and verifier read the addresses the same way, so this holds on
either host and says nothing about the wire; `udpChecksum_conforms_iff` compares the field with
RFC 768.
-/

namespace Rewsr.Net

open Rewsr.Wire OnesComplement

theorem wordSum_be16 (v : UInt16) : wordSum (be16 v) = v.toNat := by
  have h := load16_big_toNat (v >>> 8).toUInt8 v.toUInt8
  rw [load16_be16] at h
  rw [be16, wordSum_cons, wordSum_nil, h]
  rfl

/-! ## The IPv4 header -/

theorem wordSum_ipv4Bytes (totLen ipId c : UInt16) (srcIp dstIp : UInt32) :
    wordSum (ipv4Bytes totLen ipId c srcIp dstIp) =
      wordSum (ipv4Bytes totLen ipId 0 srcIp dstIp) + c.toNat := by
  have hsplit : ∀ v : UInt16, wordSum (ipv4Bytes totLen ipId v srcIp dstIp) =
      wordSum ([0x45, 0] ++ be16 totLen ++ be16 ipId ++ be16 0x4000 ++ [64, ipprotoUdp]) +
        v.toNat + wordSum (be32 srcIp ++ be32 dstIp) := by
    intro v
    rw [ipv4Bytes, List.append_assoc, wordSum_append (by simp), wordSum_append (by simp),
      wordSum_be16]
  rw [hsplit, hsplit 0, UInt16.toNat_zero]
  omega

theorem wordSum_ipv4Bytes_lt (totLen ipId c : UInt16) (srcIp dstIp : UInt32) :
    wordSum (ipv4Bytes totLen ipId c srcIp dstIp) < 2 ^ 32 := by
  have h := wordSum_le (ipv4Bytes totLen ipId c srcIp dstIp)
  have hl : (ipv4Bytes totLen ipId c srcIp dstIp).length = 20 := rfl
  rw [hl] at h
  omega

/-- A header whose check field complements its digit sums to zero. -/
theorem cksum_ipv4Bytes {totLen ipId c : UInt16} {srcIp dstIp : UInt32}
    (hc : c.toNat = 65535 - canon 65536 (wordSum (ipv4Bytes totLen ipId 0 srcIp dstIp))) :
    cksum (ipv4Bytes totLen ipId c srcIp dstIp) = 0 := by
  apply UInt16.toNat_inj.1
  rw [cksum_toNat, Nat.mod_eq_of_lt (wordSum_ipv4Bytes_lt ..), wordSum_ipv4Bytes, hc,
    canon_add_complement (by decide)]
  rfl

theorem ipv4Check_toNat (totLen ipId : UInt16) (srcIp dstIp : UInt32) :
    (ipv4Check totLen ipId srcIp dstIp).toNat =
      65535 - canon 65536 (wordSum (ipv4Bytes totLen ipId 0 srcIp dstIp)) := by
  rw [ipv4Check, cksum_toNat, Nat.mod_eq_of_lt (wordSum_ipv4Bytes_lt ..)]

/-- Twenty header bytes with their own check field are accepted, whatever stands around them. -/
theorem verifyIpv4_of_slice {frame : List UInt8} (totLen ipId : UInt16) (srcIp dstIp : UInt32)
    (hlen : 34 ≤ frame.length) (h : slice frame 14 20 =
      ipv4Bytes totLen ipId (ipv4Check totLen ipId srcIp dstIp) srcIp dstIp) :
    verifyIpv4Checksum frame = some 1 := by
  have hz := cksum_ipv4Bytes (ipv4Check_toNat totLen ipId srcIp dstIp)
  have hver : byte frame 14 = 0x45 := by
    rw [byte_slice (i := 14) (k := 0) (n := 20) (by decide), h]
    rfl
  have hhl : ipHlen frame = 20 := by
    rw [ipHlen, hver]
    rfl
  unfold verifyIpv4Checksum
  rw [if_neg (by rw [ethHlen, ipv4Hlen]; omega),
    show read8 _ ethHlen = _ from read8_byte (i := 14) (by omega), Option.bind_some]
  dsimp only
  rw [ipHlen_eq, hhl, if_neg (by rw [ethHlen]; omega),
    show readN _ ethHlen 20 = _ from readN_slice (i := 14) hlen, Option.bind_some, h, if_pos hz]

section
variable (fl : Flow) (ipId c : UInt16) (p pad : List UInt8)

theorem verifyIpv4_frameWith : verifyIpv4Checksum (frameWith fl ipId c p ++ pad) = some 1 := by
  refine verifyIpv4_of_slice (UInt16.ofNat (28 + p.length)) ipId fl.srcIp fl.dstIp ?_ rfl
  rw [List.length_append, length_frameWith]
  omega

/-! ## The UDP datagram -/

theorem wordSum_udpHdrBytes (sp dp len c : UInt16) :
    wordSum (udpHdrBytes sp dp len c) = wordSum (udpHdrBytes sp dp len 0) + c.toNat := by
  have hev : (be16 sp ++ be16 dp ++ be16 len).length % 2 = 0 := by simp
  rw [udpHdrBytes, udpHdrBytes, wordSum_append hev, wordSum_append hev, wordSum_be16, wordSum_be16,
    UInt16.toNat_zero, Nat.add_zero]

variable {p} (hp : p.length ≤ 65507)
include hp

theorem wordSum_udpBytes : wordSum (udpBytes (frameWith fl ipId c p ++ pad)) =
    wordSum (udpHdrBytes fl.srcPort fl.dstPort (UInt16.ofNat (8 + p.length)) 0) + c.toNat +
      wordSum p := by
  have hev :
      (udpHdrBytes fl.srcPort fl.dstPort (UInt16.ofNat (8 + p.length)) c).length % 2 = 0 := by
    simp [udpHdrBytes]
  rw [udpBytes_frameWith fl ipId c pad hp, wordSum_append hev, wordSum_udpHdrBytes]

theorem codeSum_frameWith (e : Endian) :
    codeSum e (frameWith fl ipId c p ++ pad) = builtSum e fl p + c.toNat := by
  rw [codeSum, addrs, srcAddr_frameWith, dstAddr_frameWith, udpLen_frameWith,
    wordSum_udpBytes fl ipId c pad hp, Nat.mod_eq_of_lt (by omega), builtSum]
  omega

/-- A check field that is zero or complements the sum passes. -/
theorem verifyUdp_frameWith {e : Endian}
    (hc : c.toNat = 0 ∨ canon 65536 (builtSum e fl p + c.toNat) = 65535) :
    verifyUdpChecksum e (frameWith fl ipId c p ++ pad) = some 1 := by
  rw [verifyUdpChecksum_eq (accepted_frameWith fl ipId c pad hp), udpCheck_frameWith,
    codeSum_frameWith fl ipId c pad hp, if_pos hc]

theorem builtCheck_complements (e : Endian) :
    canon 65536 (builtSum e fl p + (builtCheck e fl p.length p).toNat) = 65535 := by
  rw [builtCheck_toNat e fl hp]
  split
  · rename_i h
    have hpos : 0 < builtSum e fl p := by rw [builtSum]; omega
    rw [canon_eq_top (by decide) hpos] at h
    rw [canon_eq_top (by decide) (by omega)]
    omega
  · exact canon_add_complement (by decide) _

end

/-! ## The builder's frames -/

/-- The builder with a buffer that has room: the frame, and the rest of the buffer as it was. A
`NULL` payload stands for the empty one. -/
theorem build_udpFrame (e : Endian) (fl : Flow) (ipId : UInt16) (payload : Option (List UInt8))
    (out : List UInt8) (hp : (payload.getD []).length ≤ 65507)
    (hcap : 42 + (payload.getD []).length ≤ out.length) (hout : out.length < sizeMod) :
    buildUdpIpv4 e out fl ipId payload (payload.getD []).length =
      some (((42 + (payload.getD []).length : Nat) : Int),
        udpFrame e fl ipId (payload.getD []) ++ out.drop (42 + (payload.getD []).length)) := by
  have hle : ∀ p, payload = some p → (payload.getD []).length ≤ p.length := by
    rintro p rfl
    exact Nat.le_refl _
  have hsent : sentPayload out payload (payload.getD []).length = payload.getD [] := by
    cases payload with
    | none => simp [sentPayload, copied, slice]
    | some p => simp [sentPayload, copied]
  have hint := toInt_of_lt (n := 42 + (payload.getD []).length) (by omega)
  rw [buildUdpIpv4_eq e out fl ipId hle hout hcap, hsent, hint]

/-- **Build, then parse.** What the builder writes is parsed back field by field and passes both
checksum tests, with any bytes behind it. -/
theorem buildUdpIpv4_roundTrip (e : Endian) (fl : Flow) (ipId : UInt16)
    (payload : Option (List UInt8)) (out : List UInt8) (hp : (payload.getD []).length ≤ 65507)
    (hcap : 42 + (payload.getD []).length ≤ out.length) (hout : out.length < sizeMod) :
    ∃ (n : Nat) (out' : List UInt8),
      n = 42 + (payload.getD []).length ∧
      buildUdpIpv4 e out fl ipId payload (payload.getD []).length = some ((n : Int), out') ∧
      ∀ pad, ∃ dg, parseUdpIpv4 e (out'.take n ++ pad) = some (.ok dg) ∧
        dg.srcMac = fl.srcMac ∧ dg.dstMac = fl.dstMac ∧ dg.srcIp = fl.srcIp ∧
        dg.dstIp = fl.dstIp ∧ dg.srcPort = fl.srcPort ∧ dg.dstPort = fl.dstPort ∧
        dg.payloadLen = (payload.getD []).length ∧
        readN (out'.take n ++ pad) dg.payload dg.payloadLen = some (payload.getD []) ∧
        verifyIpv4Checksum (out'.take n ++ pad) = some 1 ∧
        verifyUdpChecksum e (out'.take n ++ pad) = some 1 := by
  refine ⟨_, _, rfl, build_udpFrame e fl ipId payload out hp hcap hout, fun pad => ?_⟩
  generalize payload.getD [] = p at hp hcap ⊢
  have hframe : (udpFrame e fl ipId p ++ out.drop (42 + p.length)).take (42 + p.length) =
      udpFrame e fl ipId p := List.take_left' (length_udpFrame e fl ipId p)
  have hok := (parseUdpIpv4_ok_iff (e := e)).2
    ⟨accepted_frameWith fl ipId (builtCheck e fl p.length p) pad hp, rfl⟩
  rw [datagram_frameWith fl ipId _ pad hp] at hok
  rw [hframe]
  refine ⟨_, hok, rfl, rfl, rfl, rfl, rfl, rfl, rfl, ?_, verifyIpv4_frameWith .., ?_⟩
  · rw [udpFrame, frameWith, ← List.append_assoc, List.append_assoc]
    exact readN_append rfl rfl
  · exact verifyUdp_frameWith fl ipId _ pad hp (.inr (builtCheck_complements fl hp e))

/-- A flow between two hosts of one subnet, for runs on fixed inputs. -/
def sampleFlow : Flow :=
  { srcMac := ⟨0x02, 0, 0, 0, 0, 1⟩, dstMac := ⟨0x02, 0, 0, 0, 0, 2⟩, srcIp := 0x0a000001,
    dstIp := 0x0a000002, srcPort := 1111, dstPort := 2222 }

theorem buildUdpIpv4_roundTrip_three : ∃ (n : Nat) (out' : List UInt8), n = 45 ∧
    buildUdpIpv4 .little (List.replicate 64 0) sampleFlow 7 (some [1, 2, 3]) 3 =
      some ((n : Int), out') ∧
    ∃ dg, parseUdpIpv4 .little (out'.take n ++ [0, 0]) = some (.ok dg) ∧
      dg.srcIp = 0x0a000001 ∧
      readN (out'.take n ++ [0, 0]) dg.payload dg.payloadLen = some [1, 2, 3] ∧
      verifyUdpChecksum .little (out'.take n ++ [0, 0]) = some 1 := by
  obtain ⟨n, out', hn, hb, h⟩ := buildUdpIpv4_roundTrip .little sampleFlow 7
    (some [1, 2, 3]) (List.replicate 64 0) (by decide) (by decide) (by decide)
  obtain ⟨dg, hok, -, -, hsrc, -, -, -, -, hpl, -, hv⟩ := h [0, 0]
  exact ⟨n, out', hn, hb, dg, hok, hsrc, hpl, hv⟩

/-! ## The checksum on the wire -/

/-- When the pseudo-header sum is right: always on a big-endian host; on a little-endian one, where
the halves of a loaded address have their bytes exchanged, if the bytes at even and at odd
positions of the two addresses have the same total modulo 257. -/
def AddrsConform (e : Endian) (srcIp dstIp : UInt32) : Prop :=
  e = .big ∨ evenSum (be32 srcIp ++ be32 dstIp) % 257 = oddSum (be32 srcIp ++ be32 dstIp) % 257

theorem builtSum_modEq_iff (e : Endian) (fl : Flow) (p : List UInt8) :
    builtSum e fl p ≡ builtSum .big fl p [MOD 65535] ↔ AddrsConform e fl.srcIp fl.dstIp := by
  rw [AddrsConform, ← addrSum_modEq_iff, builtSum, builtSum]
  simp only [Nat.add_assoc]
  exact ⟨fun h => h.add_right_cancel' _, fun h => h.add_right _⟩

theorem zeroCheck_udpHdrBytes (sp dp len c : UInt16) (p : List UInt8) :
    zeroCheck (udpHdrBytes sp dp len c ++ p) = udpHdrBytes sp dp len 0 ++ p := rfl

/-- The RFC 768 checksum of a frame is what a big-endian host builds. -/
theorem rfc768_frameWith (fl : Flow) (ipId c : UInt16) {p : List UInt8} (pad : List UInt8)
    (hp : p.length ≤ 65507) :
    rfc768 (frameWith fl ipId c p ++ pad) = (builtCheck .big fl p.length p).toNat := by
  have hacc := accepted_frameWith fl ipId c pad hp
  have hlt := canon_lt (b := 65536) (by decide) (builtSum .big fl p)
  have hsum : onesSum (pseudoHeader (frameWith fl ipId c p ++ pad) ++
      zeroCheck (udpBytes (frameWith fl ipId c p ++ pad))) = canon 65536 (builtSum .big fl p) := by
    have hev :
        (udpHdrBytes fl.srcPort fl.dstPort (UInt16.ofNat (8 + p.length)) 0).length % 2 = 0 := by
      simp [udpHdrBytes]
    rw [onesSum_pseudoHeader hacc, udpBytes_frameWith fl ipId c pad hp, zeroCheck_udpHdrBytes,
      addrs,
      srcAddr_frameWith, dstAddr_frameWith, udpLen_frameWith, Nat.mod_eq_of_lt (by omega),
      wordSum_append hev, builtSum, addrSum, Nat.add_assoc _ (wordSum (udpHdrBytes ..))]
  rw [builtCheck_toNat .big fl hp, rfc768, hsum]
  split <;> split <;> omega

theorem builtCheck_eq_iff (e : Endian) (fl : Flow) {p : List UInt8} (hp : p.length ≤ 65507) :
    (builtCheck e fl p.length p).toNat = (builtCheck .big fl p.length p).toNat ↔
      AddrsConform e fl.srcIp fl.dstIp := by
  have hpos : ∀ e, 0 < builtSum e fl p := fun e => by rw [builtSum]; omega
  have hcpos : ∀ e, canon 65536 (builtSum e fl p) ≠ 0 := fun e => by
    rw [Ne, canon_eq_zero]
    exact Nat.ne_of_gt (hpos e)
  have hlt : ∀ e, canon 65536 (builtSum e fl p) < 65536 := fun e => canon_lt (by decide) _
  have h1 := hcpos e; have h2 := hcpos .big
  have h3 := hlt e; have h4 := hlt .big
  rw [← builtSum_modEq_iff e fl p, ← canon_eq_iff (b := 65536) (hpos e) (hpos .big),
    builtCheck_toNat e fl hp, builtCheck_toNat .big fl hp]
  split <;> split <;> omega

theorem addrs_datagram {frame : List UInt8} (h : Accepted frame) :
    addrs frame = be32 (datagram frame).srcIp ++ be32 (datagram frame).dstIp := by
  rw [addrs_eq h, datagram, be32_load32, be32_load32]
  rfl

section
variable (fl : Flow) {p : List UInt8} (hp : p.length ≤ 65507)
include hp

theorem accepted_udpFrame (e : Endian) (ipId : UInt16) : Accepted (udpFrame e fl ipId p) := by
  have := accepted_frameWith fl ipId (builtCheck e fl p.length p) [] hp
  rwa [List.append_nil] at this

theorem datagram_udpFrame (e : Endian) (ipId : UInt16) :
    (datagram (udpFrame e fl ipId p)).srcIp = fl.srcIp ∧
      (datagram (udpFrame e fl ipId p)).dstIp = fl.dstIp := by
  have := datagram_frameWith fl ipId (builtCheck e fl p.length p) [] hp
  rw [List.append_nil] at this
  rw [udpFrame, this]
  exact ⟨rfl, rfl⟩

omit hp in
theorem udpCheck_udpFrame (e : Endian) (ipId : UInt16) :
    udpCheck (udpFrame e fl ipId p) = (builtCheck e fl p.length p).toNat := by
  rw [udpFrame, ← List.append_nil (frameWith ..), udpCheck_frameWith]

/-- A verifier that accepts what a big-endian host builds reads the addresses as the wire has
them. -/
theorem conform_of_verify {e : Endian} {ipId : UInt16}
    (h : verifyUdpChecksum e (udpFrame .big fl ipId p) = some 1) :
    AddrsConform e fl.srcIp fl.dstIp := by
  have hpos := builtCheck_pos .big fl hp
  have hbig := builtCheck_complements fl hp .big
  have hcode : codeSum e (udpFrame .big fl ipId p) =
      builtSum e fl p + (builtCheck .big fl p.length p).toNat := by
    rw [udpFrame, ← List.append_nil (frameWith ..), codeSum_frameWith fl ipId _ [] hp]
  rw [verifyUdpChecksum_eq (accepted_udpFrame fl hp .big ipId), udpCheck_udpFrame, hcode] at h
  have hcanon : canon 65536 (builtSum e fl p + (builtCheck .big fl p.length p).toNat) = 65535 := by
    by_contra hne
    rw [if_neg (not_or.2 ⟨Nat.ne_of_gt hpos, hne⟩)] at h
    cases h
  rw [← builtSum_modEq_iff e fl p]
  exact Nat.ModEq.add_right_cancel' _
    ((canon_eq_iff (b := 65536) (by omega) (by omega)).1 (hcanon.trans hbig.symm))

end

/-- **Conformance to RFC 768.** The builder's check field is the RFC's exactly for conforming
addresses, and the verifier decides the RFC's sum on all frames between two addresses exactly
when these conform. -/
theorem udpChecksum_conforms_iff (e : Endian) :
    (∀ (fl : Flow) (ipId : UInt16) (payload : Option (List UInt8)) (out : List UInt8),
      (payload.getD []).length ≤ 65507 → 42 + (payload.getD []).length ≤ out.length →
      out.length < sizeMod →
      ∃ out', buildUdpIpv4 e out fl ipId payload (payload.getD []).length =
          some (((42 + (payload.getD []).length : Nat) : Int), out') ∧
        (udpCheck out' = rfc768 out' ↔ AddrsConform e fl.srcIp fl.dstIp)) ∧
    ∀ srcIp dstIp : UInt32,
      (∀ frame dg, parseUdpIpv4 e frame = some (.ok dg) → dg.srcIp = srcIp → dg.dstIp = dstIp →
        udpCheck frame ≠ 0 → (verifyUdpChecksum e frame = some 1 ↔ udpSum frame = 0xffff)) ↔
      AddrsConform e srcIp dstIp := by
  refine ⟨fun fl ipId payload out hp hcap hout => ?_, fun srcIp dstIp => ⟨fun h => ?_, ?_⟩⟩
  · refine ⟨_, build_udpFrame e fl ipId payload out hp hcap hout, ?_⟩
    rw [udpFrame, udpCheck_frameWith, rfc768_frameWith _ _ _ _ hp, builtCheck_eq_iff e fl hp]
  · -- the empty datagram a big-endian host builds for the two addresses
    let fl : Flow := { sampleFlow with srcIp, dstIp }
    have hp : ([] : List UInt8).length ≤ 65507 := by decide
    have hacc := accepted_udpFrame fl hp .big 0
    obtain ⟨hsrc, hdst⟩ := datagram_udpFrame fl hp .big 0
    have hcheck : udpCheck (udpFrame .big fl 0 []) ≠ 0 := by
      rw [udpCheck_udpFrame]
      exact Nat.ne_of_gt (builtCheck_pos .big fl hp)
    have hbig : verifyUdpChecksum .big (udpFrame .big fl 0 []) = some 1 := by
      have := verifyUdp_frameWith fl 0 _ [] hp (.inr (builtCheck_complements fl hp .big))
      rwa [List.append_nil] at this
    have hsum := (verifyUdpChecksum_rfc hacc hcheck (.inl rfl)).1 hbig
    have hok := (parseUdpIpv4_ok_iff (e := e)).2 ⟨hacc, rfl⟩
    exact conform_of_verify fl hp ((h _ _ hok hsrc hdst hcheck).2 hsum)
  · rintro hc frame dg hok rfl rfl hcheck
    obtain ⟨hacc, rfl⟩ := parseUdpIpv4_ok_iff.1 hok
    refine verifyUdpChecksum_rfc hacc hcheck ?_
    rwa [addrs_datagram hacc]

/-- From 10.0.0.1 to 10.0.0.2 on a little-endian host: the field differs from the RFC's, and the
verifier accepts a frame whose sum is not all ones. -/
theorem udpChecksum_little_differs : ∃ out',
    buildUdpIpv4 .little (List.replicate 42 0) sampleFlow 0 none 0 = some (42, out') ∧
      udpCheck out' ≠ rfc768 out' ∧ udpCheck out' ≠ 0 ∧
      (∃ dg, parseUdpIpv4 .little out' = some (.ok dg)) ∧
      verifyUdpChecksum .little out' = some 1 ∧ udpSum out' ≠ 0xffff := by
  refine ⟨_, build_udpFrame .little sampleFlow 0 none _ (by decide) (by decide)
    (by decide), by decide +kernel, by decide +kernel, ?_, by decide +kernel, by decide +kernel⟩
  exact ⟨_, parseUdpIpv4_ok_iff.2 ⟨accepted_frameWith _ _ _ _ (by decide), rfl⟩⟩

/-- Three bytes from 10.10.1.1 to 10.10.2.2, two addresses that conform. -/
theorem udpChecksum_conforms_little : ∃ out',
    buildUdpIpv4 .little (List.replicate 64 0)
        { sampleFlow with srcIp := 0x0a0a0101, dstIp := 0x0a0a0202 } 7 (some [0xab, 0xcd, 0xef]) 3 =
      some (45, out') ∧ udpCheck out' = rfc768 out' ∧
      ∀ frame dg, parseUdpIpv4 .little frame = some (.ok dg) → dg.srcIp = 0x0a0a0101 →
        dg.dstIp = 0x0a0a0202 → udpCheck frame ≠ 0 →
          (verifyUdpChecksum .little frame = some 1 ↔ udpSum frame = 0xffff) := by
  have hconform : AddrsConform .little 0x0a0a0101 0x0a0a0202 := .inr (by decide)
  obtain ⟨hbuild, hverify⟩ := udpChecksum_conforms_iff .little
  obtain ⟨out', hb, hcheck⟩ :=
    hbuild { sampleFlow with srcIp := 0x0a0a0101, dstIp := 0x0a0a0202 } 7 (some [0xab, 0xcd, 0xef])
      (List.replicate 64 0) (by decide) (by decide) (by decide)
  exact ⟨out', hb, hcheck.2 hconform, (hverify 0x0a0a0101 0x0a0a0202).2 hconform⟩

end Rewsr.Net
