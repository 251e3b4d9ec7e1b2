import Rewsr.Net.Proof.RoundTrip
import Rewsr.Net.Vxlan

/-!
# Encapsulation and lengths

`vxlanEncap_eq`: an encapsulation with room leaves `encapHead` and the inner frame at the front of
the buffer; `vxlanEncap_inv`: every call that does not return -1 is such a one, or one without an
inner frame whose length wraps in `size_t`, into a buffer of any size. `encoders_lengths_iff` says
when the 16-bit length fields of the builder and of the encapsulation carry the lengths they stand
for.
-/

namespace Rewsr.Net

open Rewsr.Wire OnesComplement

/-! ## The outer headers -/

/-- The 50 bytes in front of the inner frame. -/
def encapHead (tun : VxlanTunnel) (n : Nat) (ipId : UInt16) : List UInt8 :=
  let totLen := UInt16.ofNat (36 + n)
  tun.outerDstMac.bytes ++ tun.outerSrcMac.bytes ++ be16 ethPIp ++
    ipv4Bytes totLen ipId (ipv4Check totLen ipId tun.outerSrcIp tun.outerDstIp)
      tun.outerSrcIp tun.outerDstIp ++
    udpHdrBytes tun.srcPort vxlanPort (UInt16.ofNat (16 + n)) 0 ++
    VxlanHdr.bytes { flags := vxlanFlagVni, vni := vxlanWriteVni tun.vni }

@[simp] theorem length_encapHead (tun : VxlanTunnel) (n : Nat) (ipId : UInt16) :
    (encapHead tun n ipId).length = 50 := rfl

section
variable (tun : VxlanTunnel) (n : Nat) (ipId : UInt16) (rest : List UInt8)

theorem verIhl_encap : byte (encapHead tun n ipId ++ rest) 14 = 0x45 := rfl

theorem udpOff_encap : udpOff (encapHead tun n ipId ++ rest) = 34 := by
  rw [udpOff, ipHlen, verIhl_encap]
  rfl

theorem totLen_encap : totLen (encapHead tun n ipId ++ rest) = (36 + n) % 65536 := by
  rw [totLen, be16At_of_slice (v := UInt16.ofNat (36 + n)) rfl, UInt16.toNat_ofNat']

theorem udpLen_encap : udpLen (encapHead tun n ipId ++ rest) = (16 + n) % 65536 := by
  rw [udpLen, udpOff_encap, be16At_of_slice (v := UInt16.ofNat (16 + n)) rfl, UInt16.toNat_ofNat']

end

/-! ## Encapsulation -/

section
variable {e : Endian} {out : List UInt8} {outCap : Nat} {tun : VxlanTunnel}
  {inner : Option (List UInt8)} {n : Nat} {ipId : UInt16}

/-- The call once the two tests are passed. -/
theorem vxlanEncap_passed (hvni : ¬ tun.vni > 0xffffff)
    (ht : ¬ (vxlanOverhead + n) % sizeMod > outCap) : vxlanEncap e out outCap tun inner n ipId =
      (writeN out 0 (encapHead tun n ipId)).bind fun out => (copyIn out 50 inner n).bind fun out =>
        some (toInt ((vxlanOverhead + n) % sizeMod), out) := by
  unfold vxlanEncap
  rw [if_neg hvni, if_neg ht]
  simp only [ethIpv4_bytes, udpIpv4Hdr_bytes, udpHdr_bytes_zero, Option.bind_eq_bind]
  rfl

variable (e out tun ipId) in
/-- **Encapsulation with room**: the outer headers, the inner frame (with `NULL` what the buffer
held there), and nothing behind it touched. -/
theorem vxlanEncap_eq (hvni : ¬ tun.vni > 0xffffff) (hp : ∀ p, inner = some p → n ≤ p.length)
    (hw : 50 + n < sizeMod) (hn : 50 + n ≤ outCap) (hout : outCap ≤ out.length) :
    vxlanEncap e out outCap tun inner n ipId =
      some (toInt (50 + n), encapHead tun n ipId ++
        (copied inner (slice out 50 n) n ++ out.drop (50 + n))) := by
  have htotal : (vxlanOverhead + n) % sizeMod = 50 + n := Nat.mod_eq_of_lt hw
  have hdrop : out.drop 50 = slice out 50 n ++ out.drop (50 + n) := by
    rw [slice, ← List.drop_drop, List.take_append_drop]
  have hslice : (slice out 50 n).length = n := by
    rw [slice, List.length_take, List.length_drop]
    omega
  rw [vxlanEncap_passed hvni (by omega), writeN_front (by rw [length_encapHead]; omega),
    Option.bind_some, length_encapHead, hdrop, copyIn_eq (length_encapHead ..).symm hslice hp,
    Option.bind_some, htotal]

/-- The sum of the lengths, once it wraps. -/
theorem total_wraps (hn : n < sizeMod) (hw : sizeMod ≤ 50 + n) :
    (vxlanOverhead + n) % sizeMod = 50 + n - sizeMod := by
  change (50 + n) % sizeMod = _
  rw [Nat.mod_eq_sub_mod hw, Nat.mod_eq_of_lt (by rw [sizeMod] at *; omega)]

/-- Without an inner frame to copy, a length that wraps passes the capacity test, and the headers
are written whatever the capacity is. -/
theorem vxlanEncap_wraps (hvni : ¬ tun.vni > 0xffffff) (hn : n < sizeMod) (hw : sizeMod ≤ 50 + n)
    (hcap : 50 + n - sizeMod ≤ outCap) (hout : 50 ≤ out.length) :
    vxlanEncap e out outCap tun none n ipId =
      some (((50 + n - sizeMod : Nat) : Int), encapHead tun n ipId ++ out.drop 50) := by
  have htotal := total_wraps hn hw
  have hint := toInt_of_lt (n := 50 + n - sizeMod) (by omega)
  rw [vxlanEncap_passed hvni (by omega), writeN_front (by rw [length_encapHead]; omega),
    Option.bind_some, length_encapHead, htotal, hint]
  rfl

/-- Calls that return something other than -1: the encapsulation fits, or no inner frame is
given and the length wraps to one within the capacity. -/
theorem vxlanEncap_inv {r : Int} {out' : List UInt8} (hout : out.length < sizeMod)
    (hn : n < sizeMod) (h : vxlanEncap e out outCap tun inner n ipId = some (r, out'))
    (hr : r ≠ -1) : ¬ tun.vni > 0xffffff ∧ (50 + n ≤ outCap ∨
      inner = none ∧ sizeMod ≤ 50 + n ∧ 50 + n - sizeMod ≤ outCap) := by
  by_cases hvni : tun.vni > 0xffffff
  · rw [vxlanEncap, if_pos hvni] at h
    cases h
    exact absurd rfl hr
  refine ⟨hvni, ?_⟩
  by_cases ht : (vxlanOverhead + n) % sizeMod > outCap
  · rw [vxlanEncap, if_neg hvni, if_pos ht] at h
    cases h
    exact absurd rfl hr
  by_cases hw : sizeMod ≤ 50 + n
  · rw [vxlanEncap_passed hvni ht] at h
    obtain ⟨out1, h1, h⟩ := Option.bind_eq_some_iff.1 h
    obtain ⟨out2, h2, -⟩ := Option.bind_eq_some_iff.1 h
    have hlen := length_writeN h1
    rw [total_wraps hn hw] at ht
    cases inner with
    | none => exact .inr ⟨rfl, hw, by omega⟩
    | some p =>
      -- no memory has room for the copy
      exfalso
      have hpos : 0 < n := by rw [sizeMod] at hw; omega
      simp only [copyIn, if_pos hpos] at h2
      obtain ⟨bs, hb, hc⟩ := Option.bind_eq_some_iff.1 h2
      have hbs := length_readN hb
      unfold writeN at hc
      split at hc
      · omega
      · cases hc
  · have htotal : (vxlanOverhead + n) % sizeMod = 50 + n := Nat.mod_eq_of_lt (by
      change 50 + n < sizeMod
      omega)
    exact .inl (by omega)

end

/-! ## Decapsulation -/

/-- What the decapsulation reports of an accepted frame, its tests in their order. -/
def decapFields (frame : List UInt8) : Except ParseErr VxlanInner :=
  if (datagram frame).dstPort ≠ vxlanPort then .error .notUdp else
  if udpLen frame < 16 then .error .badLen else
  if byte frame (udpOff frame + 8) &&& vxlanFlagVni = 0 then .error .badIhl else
  .ok
    { inner := udpOff frame + 16
      innerLen := udpLen frame - 16
      vni := vxlanReadVni
        { b0 := byte frame (udpOff frame + 12)
          b1 := byte frame (udpOff frame + 13)
          b2 := byte frame (udpOff frame + 14) } }

theorem vxlanDecap_eq {frame : List UInt8} (h : Accepted frame) (e : Endian) :
    vxlanDecap e frame = some (decapFields frame) := by
  have hlen := h.length
  have hmin := h.udpMin
  have hpay : (datagram frame).payload = udpOff frame + 8 := rfl
  have hpl : (datagram frame).payloadLen = udpLen frame - 8 := rfl
  rw [vxlanDecap, parseUdpIpv4_ok_iff.2 ⟨h, rfl⟩, Option.bind_some, decapFields]
  dsimp only
  rw [hpay, hpl, vxlanHlen]
  by_cases hport : (datagram frame).dstPort ≠ vxlanPort
  · rw [if_pos hport, if_pos hport]
  by_cases h16 : udpLen frame < 16
  · rw [if_neg hport, if_neg hport, if_pos h16, if_pos (by omega)]
  rw [if_neg hport, if_neg hport, if_neg h16, if_neg (by omega), read8_byte (by omega),
    Option.bind_some]
  by_cases hflag : byte frame (udpOff frame + 8) &&& vxlanFlagVni = 0
  · rw [if_pos hflag, if_pos hflag]
  rw [if_neg hflag, if_neg hflag, read8_byte (by omega), read8_byte (by omega),
    read8_byte (by omega), Nat.sub_sub]
  rfl

theorem vxlanDecap_ok {e : Endian} {frame : List UInt8} {i : VxlanInner}
    (h : vxlanDecap e frame = some (.ok i)) : Accepted frame ∧ decapFields frame = .ok i := by
  obtain ⟨r, hparse, hr⟩ := Option.bind_eq_some_iff.1 h
  cases r with
  | error rc => cases hr
  | ok dg =>
    obtain ⟨hacc, -⟩ := parseUdpIpv4_ok_iff.1 hparse
    rw [vxlanDecap_eq hacc] at h
    exact ⟨hacc, Option.some.inj h⟩

/-- A decapsulation that succeeds passed the three tests. -/
theorem decapFields_ok {frame : List UInt8} {i : VxlanInner} (h : decapFields frame = .ok i) :
    (datagram frame).dstPort = vxlanPort ∧ 16 ≤ udpLen frame ∧ i.inner = udpOff frame + 16 ∧
      i.innerLen = udpLen frame - 16 := by
  unfold decapFields at h
  split at h
  · cases h
  split at h
  · cases h
  split at h
  · cases h
  rename_i hport h16 _
  cases h
  exact ⟨Classical.not_not.1 hport, by omega, rfl, rfl⟩

theorem byte_take {frame : List UInt8} {i k : Nat} (h : i < (frame.take k).length) :
    byte (frame.take k) i = byte frame i := by
  rw [List.length_take] at h
  simp only [byte, List.getD_eq_getElem?_getD, List.getElem?_take]
  rw [if_pos (by omega)]

/-- A prefix that is accepted has the length fields of the whole buffer. -/
theorem udpLen_take {frame : List UInt8} {k : Nat} (h : Accepted (frame.take k)) :
    udpLen (frame.take k) = udpLen frame := by
  have h1 := h.length
  have h2 := h.udpOff_ge
  have h3 := h.udpMin
  have hoff : udpOff (frame.take k) = udpOff frame := by
    rw [udpOff, udpOff, ipHlen, ipHlen, byte_take (by omega)]
  rw [udpLen, be16At, byte_take (by omega), byte_take (by omega), hoff]
  rfl

section
variable {tun : VxlanTunnel} {n : Nat} {ipId : UInt16} {rest : List UInt8}
  (h1 : 14 + (36 + n) % 65536 ≤ 50 + rest.length) (h2 : 16 ≤ (16 + n) % 65536)
  (h3 : 20 + (16 + n) % 65536 ≤ (36 + n) % 65536)
include h1 h2 h3

theorem accepted_encap : Accepted (encapHead tun n ipId ++ rest) where
  ethertype := be16At_of_slice (v := ethPIp) rfl
  version := by rw [verIhl_encap]; rfl
  ihl := by rw [ipHlen, verIhl_encap]; decide
  inFrame := by
    rw [totLen_encap, List.length_append, length_encapHead]
    exact h1
  proto := rfl
  udpMin := by
    rw [udpLen_encap]
    omega
  inDatagram := by
    rw [udpLen_encap, totLen_encap, ipHlen, verIhl_encap]
    exact h3

/-- Decapsulation of a frame whose length fields, as wrapped, lie inside it. -/
theorem vxlanDecap_encap (e : Endian) : vxlanDecap e (encapHead tun n ipId ++ rest) =
    some (.ok { inner := 50, innerLen := (16 + n) % 65536 - 16,
                vni := vxlanReadVni (vxlanWriteVni tun.vni) }) := by
  have hoff := udpOff_encap tun n ipId rest
  have hlen := udpLen_encap tun n ipId rest
  have hport : (datagram (encapHead tun n ipId ++ rest)).dstPort = vxlanPort := by
    change Endian.big.load16 (byte _ (udpOff _ + 2)) (byte _ (udpOff _ + 3)) = _
    rw [hoff]
    exact load16_of_slice (i := 36) rfl
  have hflags : byte (encapHead tun n ipId ++ rest) 42 = vxlanFlagVni := rfl
  rw [vxlanDecap_eq (accepted_encap h1 h2 h3), decapFields, hport, hlen, hoff,
    if_neg (by simp), if_neg (by omega), hflags, if_neg (by decide)]
  rfl

end

/-! ## Lengths on the wire -/

section
variable {e : Endian} {out : List UInt8} {n : Nat} {payload : Option (List UInt8)}

/-- When the builder's length fields are right: it returns -1, or the payload fits 16 bits. -/
theorem build_lengths_iff (hout : out.length < sizeMod) (hp : ∀ p, payload = some p → n ≤ p.length)
    (fl : Flow) (ipId : UInt16) :
    (∀ r out', buildUdpIpv4 e out fl ipId payload n = some (r, out') → r ≠ -1 →
      42 + n ≤ out.length ∧ totLen out' = 28 + n ∧ udpLen out' = 8 + n) ↔
    n ≤ 65507 ∨ out.length < 42 + n ∨ (43 + n) % 4294967296 = 0 := by
  by_cases hcap : 42 + n ≤ out.length
  · have hlen := length_sentPayload hp hcap
    have htot := totLen_frameWith fl ipId (builtCheck e fl (sentPayload out payload n).length
      (sentPayload out payload n)) (sentPayload out payload n) (out.drop (42 + n))
    have hudp := udpLen_frameWith fl ipId (builtCheck e fl (sentPayload out payload n).length
      (sentPayload out payload n)) (sentPayload out payload n) (out.drop (42 + n))
    have hneg := toInt_eq_neg_one_iff (42 + n)
    rw [← udpFrame, hlen] at htot hudp
    rw [buildUdpIpv4_eq e out fl ipId hp hout hcap]
    constructor
    · intro h
      by_cases hr : toInt (42 + n) = -1
      · exact .inr (.inr (by omega))
      · obtain ⟨-, h1, -⟩ := h _ _ rfl hr
        omega
    · intro h r out' hb hr
      obtain ⟨rfl, rfl⟩ := Prod.mk.inj (Option.some.inj hb)
      rw [htot, hudp]
      exact ⟨hcap, by omega, by omega⟩
  · refine ⟨fun _ => .inr (.inl (by omega)), fun _ r out' hb hr => ?_⟩
    rcases buildUdpIpv4_short e fl ipId payload
      (by omega : out.length < 42 + n) with h | h
    · rw [h] at hb
      cases hb
      exact absurd rfl hr
    · rw [h] at hb
      cases hb

end

section
variable {e : Endian} {outCap n : Nat} {inner : Option (List UInt8)}

variable (e outCap n inner) in
/-- The encapsulation's length fields are right, whatever memory is behind its buffer. -/
def EncapLengths (tun : VxlanTunnel) (ipId : UInt16) : Prop :=
  ∀ out : List UInt8, outCap ≤ out.length → out.length < sizeMod →
    ∀ r out', vxlanEncap e out outCap tun inner n ipId = some (r, out') → r ≠ -1 →
      50 + n ≤ outCap ∧ totLen out' = 36 + n ∧ udpLen out' = 16 + n ∧
      ∀ k i, vxlanDecap e (out'.take k) = some (.ok i) → n ≤ i.innerLen

variable {tun : VxlanTunnel}

/-- With room: the call returns -1, or the inner frame fits 16 bits. -/
theorem encapLengths_of_room (hcap : outCap < sizeMod) (hp : ∀ p, inner = some p → n ≤ p.length)
    (hvni : ¬ tun.vni > 0xffffff) (hfits : 50 + n ≤ outCap) (ipId : UInt16) :
    EncapLengths e outCap n inner tun ipId ↔ n ≤ 65499 ∨ (51 + n) % 4294967296 = 0 := by
  have hneg := toInt_eq_neg_one_iff (50 + n)
  have hw : 50 + n < sizeMod := Nat.lt_of_le_of_lt hfits hcap
  constructor
  · intro h
    by_cases hr : toInt (50 + n) = -1
    · exact .inr (by omega)
    · have hlen : outCap = (List.replicate outCap (0 : UInt8)).length :=
        List.length_replicate.symm
      obtain ⟨-, h1, -⟩ := h _ (Nat.le_of_eq hlen) (hlen ▸ hcap) _ _
        (vxlanEncap_eq e _ tun ipId hvni hp hw hfits (Nat.le_of_eq hlen)) hr
      rw [totLen_encap] at h1
      exact .inl (by omega)
  · intro h out hmem hout r out' hb hr
    rw [vxlanEncap_eq e out tun ipId hvni hp hw hfits hmem] at hb
    obtain ⟨rfl, rfl⟩ := Prod.mk.inj (Option.some.inj hb)
    have htot := totLen_encap tun n ipId (copied inner (slice out 50 n) n ++ out.drop (50 + n))
    have hudp := udpLen_encap tun n ipId (copied inner (slice out 50 n) n ++ out.drop (50 + n))
    have hfit : n ≤ 65499 := by
      rcases h with h | h
      · exact h
      · omega
    refine ⟨hfits, by omega, by omega, fun k i hi => ?_⟩
    obtain ⟨hacc, hi⟩ := vxlanDecap_ok hi
    obtain ⟨-, h16, -, hi⟩ := decapFields_ok hi
    rw [udpLen_take hacc] at hi h16
    omega

/-- Where the total wraps, the headers are written into the memory behind a buffer that is too
small for them. -/
theorem not_encapLengths_of_wrap (hcap : outCap < sizeMod) (hn : n < sizeMod)
    (hvni : ¬ tun.vni > 0xffffff) (hfits : ¬ 50 + n ≤ outCap) (hw : sizeMod ≤ 50 + n)
    (hsmall : 50 + n - sizeMod ≤ outCap) (ipId : UInt16) :
    ¬ EncapLengths e outCap n none tun ipId := by
  intro h
  have hlen : (List.replicate (max 50 outCap) (0 : UInt8)).length = max 50 outCap :=
    List.length_replicate
  have hsize : max 50 outCap < sizeMod := Nat.max_lt.2 ⟨by decide, hcap⟩
  obtain ⟨h1, -⟩ := h _ (by omega) (hlen ▸ hsize) _ _
    (vxlanEncap_wraps hvni hn hw hsmall (by omega)) (by omega)
  exact absurd h1 hfits

theorem encapLengths_iff (hcap : outCap < sizeMod) (hn : n < sizeMod)
    (hp : ∀ p, inner = some p → n ≤ p.length) (tun : VxlanTunnel) (ipId : UInt16) :
    EncapLengths e outCap n inner tun ipId ↔
      tun.vni > 0xffffff ∨ n ≤ 65499 ∨ (51 + n) % 4294967296 = 0 ∨
        ¬ (50 + n ≤ outCap ∨ inner = none ∧ sizeMod ≤ 50 + n ∧ 50 + n - sizeMod ≤ outCap) := by
  by_cases hvni : tun.vni > 0xffffff
  · refine ⟨fun _ => .inl hvni, fun _ out _ hout r out' h hr => ?_⟩
    exact absurd hvni (vxlanEncap_inv hout hn h hr).1
  by_cases hfits : 50 + n ≤ outCap
  · rw [encapLengths_of_room hcap hp hvni hfits]
    simp [hvni, hfits]
  by_cases hwrap : inner = none ∧ sizeMod ≤ 50 + n ∧ 50 + n - sizeMod ≤ outCap
  · obtain ⟨rfl, hw, hsmall⟩ := hwrap
    refine iff_of_false (not_encapLengths_of_wrap hcap hn hvni hfits hw hsmall ipId) ?_
    rw [sizeMod] at hw hn
    rintro (h | h | h | h)
    · exact hvni h
    · omega
    · omega
    · exact h (.inr ⟨rfl, hw, hsmall⟩)
  · refine ⟨fun _ => .inr (.inr (.inr (not_or.2 ⟨hfits, hwrap⟩))), ?_⟩
    intro _ out _ hout r out' h hr
    rcases (vxlanEncap_inv hout hn h hr).2 with h | h
    · exact absurd h hfits
    · exact absurd h hwrap

end

/-- **Length fields.** A call of the builder or the encapsulation returns -1 or emits the lengths
it was given exactly when these fit the 16-bit fields, or the call is one that cannot emit: a
buffer too small, a network id too large, or a total whose conversion to `int` is -1. A buffer is
not too small for an encapsulation whose total wraps, with no inner frame to copy. -/
theorem encoders_lengths_iff (e : Endian) {n : Nat} (hn : n < sizeMod)
    {payload : Option (List UInt8)} (hp : ∀ p, payload = some p → n ≤ p.length) (fl : Flow)
    (tun : VxlanTunnel) (ipId : UInt16) :
    (∀ out : List UInt8, out.length < sizeMod →
      ((∀ r out', buildUdpIpv4 e out fl ipId payload n = some (r, out') → r ≠ -1 →
          42 + n ≤ out.length ∧ totLen out' = 28 + n ∧ udpLen out' = 8 + n) ↔
        n ≤ 65507 ∨ out.length < 42 + n ∨ (43 + n) % 4294967296 = 0)) ∧
    ∀ outCap : Nat, outCap < sizeMod →
      ((∀ out : List UInt8, outCap ≤ out.length → out.length < sizeMod →
          ∀ r out', vxlanEncap e out outCap tun payload n ipId = some (r, out') → r ≠ -1 →
            50 + n ≤ outCap ∧ totLen out' = 36 + n ∧ udpLen out' = 16 + n ∧
            ∀ k i, vxlanDecap e (out'.take k) = some (.ok i) → n ≤ i.innerLen) ↔
        tun.vni > 0xffffff ∨ n ≤ 65499 ∨ (51 + n) % 4294967296 = 0 ∨
          ¬ (50 + n ≤ outCap ∨
            payload = none ∧ sizeMod ≤ 50 + n ∧ 50 + n - sizeMod ≤ outCap)) :=
  ⟨fun _ hout => build_lengths_iff hout hp fl ipId,
    fun _ hcap => encapLengths_iff hcap hn hp tun ipId⟩

/-- A tunnel for runs on fixed inputs. -/
def sampleTunnel : VxlanTunnel :=
  { outerSrcMac := ⟨0x02, 0, 0, 0, 0, 1⟩, outerDstMac := ⟨0x02, 0, 0, 0, 0, 2⟩,
    outerSrcIp := 0x0a000001, outerDstIp := 0x0a000002, srcPort := 49152, vni := 5000 }

/-- Two bytes in a datagram, and as a frame in a tunnel, into buffers of just the room. -/
theorem encoders_lengths_two :
    (∃ out', buildUdpIpv4 .little (List.replicate 44 0) sampleFlow 7 (some [0xab, 0xcd]) 2 =
        some (44, out') ∧ totLen out' = 30 ∧ udpLen out' = 10) ∧
    ∃ out' i, vxlanEncap .little (List.replicate 60 0) 52 sampleTunnel (some [0xab, 0xcd]) 2 7 =
        some (52, out') ∧ totLen out' = 38 ∧ udpLen out' = 18 ∧
      vxlanDecap .little (out'.take 52) = some (.ok i) ∧ 2 ≤ i.innerLen := by
  have hp : ∀ p, some [(0xab : UInt8), 0xcd] = some p → 2 ≤ p.length := by
    intro p h
    cases h
    decide
  obtain ⟨hbuild, hencap⟩ := encoders_lengths_iff .little (by decide : 2 < sizeMod) hp sampleFlow
    sampleTunnel 7
  constructor
  · have hb := buildUdpIpv4_eq .little (List.replicate 44 0) sampleFlow 7 hp (by decide) (by decide)
    rw [toInt_of_lt (by decide)] at hb
    obtain ⟨-, h1, h2⟩ := (hbuild _ (by decide)).2 (.inl (by decide)) _ _ hb (by decide)
    exact ⟨_, hb, h1, h2⟩
  · have hb := vxlanEncap_eq .little (List.replicate 60 0) sampleTunnel 7 (by decide) hp (by decide)
      (by decide : 50 + 2 ≤ 52) (by decide)
    rw [toInt_of_lt (by decide)] at hb
    obtain ⟨-, h1, h2, h3⟩ := (hencap 52 (by decide)).2 (.inr (.inl (by decide))) _ (by decide)
      (by decide) _ _ hb (by decide)
    have hdecap := @vxlanDecap_encap sampleTunnel 2 7 [0xab, 0xcd] (by decide) (by decide)
      (by decide) .little
    exact ⟨_, _, hb, h1, h2, hdecap, h3 52 _ hdecap⟩

/-- A payload of 65508 bytes goes out with a total length of 0, an inner frame of 65600 bytes comes
back as one of 64, and a length of 2^64 - 50 without a frame fits a buffer of no bytes. -/
theorem encoders_wrap :
    (∃ out', buildUdpIpv4 .little (List.replicate 65550 0) sampleFlow 0
        (some (List.replicate 65508 0)) 65508 = some (65550, out') ∧ totLen out' = 0) ∧
    (∃ out' i, vxlanEncap .little (List.replicate 65650 0) 65650 sampleTunnel
        (some (List.replicate 65600 0)) 65600 0 = some (65650, out') ∧ totLen out' = 100 ∧
      vxlanDecap .little out' = some (.ok i) ∧ i.innerLen = 64) ∧
    ∃ out', vxlanEncap .little (List.replicate 50 0) 0 sampleTunnel none 18446744073709551566 0 =
      some (0, out') := by
  have hp : ∀ k p, some (List.replicate k (0 : UInt8)) = some p → k ≤ p.length := by
    intro k p h
    rw [← Option.some.inj h, List.length_replicate]
  have hlen : ∀ k, (List.replicate k (0 : UInt8)).length = k := fun _ => List.length_replicate
  refine ⟨?_, ?_, _, vxlanEncap_wraps (by decide) (by decide) (by decide) (by decide) (by decide)⟩
  · have hb := buildUdpIpv4_eq .little (List.replicate 65550 0) sampleFlow 0 (hp 65508)
      (by rw [hlen]; decide) (by rw [hlen])
    rw [toInt_of_lt (by decide)] at hb
    refine ⟨_, hb, ?_⟩
    rw [udpFrame, totLen_frameWith, length_sentPayload (hp 65508) (by rw [hlen])]
  · have hb := vxlanEncap_eq .little (List.replicate 65650 0) sampleTunnel 0 (by decide) (hp 65600)
      (by decide) (Nat.le_refl _) (by rw [hlen])
    rw [toInt_of_lt (by decide)] at hb
    refine ⟨_, _, hb, totLen_encap .., vxlanDecap_encap ?_ (by decide) (by decide) .little,
      by decide⟩
    have hslice : (slice (List.replicate 65650 0) 50 65600).length = 65600 := by
      rw [slice, List.length_take, List.length_drop, hlen]
      omega
    rw [List.length_append, length_copied (hp 65600) hslice]
    omega

end Rewsr.Net
