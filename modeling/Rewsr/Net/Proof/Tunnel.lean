import Rewsr.Net.Proof.Vxlan

/-!
# The encapsulation round trip

`encap_decap`: what an encapsulation within the limits leaves in the buffer comes back out of the
decapsulation, whatever follows it. `decapNest_encapNest`: so do frames in tunnels inside tunnels,
by induction on the tunnels from the innermost one out. `vxlan_roundTrip` has both.
-/

namespace Rewsr.Net

open Rewsr.Wire

/-! ## Network ids -/

theorem toNat_byte (v : UInt32) : (v &&& (0xff : UInt32)).toUInt8.toNat = v.toNat % 256 := by
  rw [UInt32.toNat_toUInt8, UInt32.toNat_and]
  have h := Nat.and_two_pow_sub_one_eq_mod v.toNat 8
  simp only [Nat.reducePow, Nat.reduceSub] at h
  simp only [UInt32.reduceToNat, h]
  omega

/-- Three digits to base 256, put together by shifts. -/
theorem or_digits {n : Nat} (hn : n < 16777216) :
    n / 65536 % 256 * 65536 % 4294967296 ||| n / 256 % 256 * 256 % 4294967296 ||| n % 256 = n := by
  have h2 : n / 65536 % 256 < 256 := Nat.mod_lt _ (by decide)
  have h1 : n / 256 % 256 < 256 := Nat.mod_lt _ (by decide)
  have hm2 := Nat.mod_eq_of_lt (show n / 65536 % 256 * 65536 < 4294967296 by omega)
  have hm1 := Nat.mod_eq_of_lt (show n / 256 % 256 * 256 < 4294967296 by omega)
  have hlo := or_shift (n / 256 % 256) (n % 256) 8 (by omega)
  have hhi := or_shift (n / 65536 % 256) (n / 256 % 256 * 2 ^ 8 + n % 256) 16 (by omega)
  simp only [Nat.reducePow] at hlo hhi
  rw [hm2, hm1, Nat.or_assoc, hlo, hhi]
  omega

/-- A 24-bit network id survives its three bytes. -/
theorem readVni_writeVni {v : UInt32} (h : v ≤ 0xffffff) : vxlanReadVni (vxlanWriteVni v) = v := by
  have hv : v.toNat < 16777216 := Nat.lt_succ_of_le (UInt32.le_iff_toNat_le.1 h)
  have h16 : (v >>> 16).toNat = v.toNat / 65536 := by
    simp [UInt32.toNat_shiftRight, Nat.shiftRight_eq_div_pow]
  have h8 : (v >>> 8).toNat = v.toNat / 256 := by
    simp [UInt32.toNat_shiftRight, Nat.shiftRight_eq_div_pow]
  have hb2 := toNat_byte (v >>> 16)
  have hb1 := toNat_byte (v >>> 8)
  have hb0 := toNat_byte v
  rw [h16] at hb2
  rw [h8] at hb1
  apply UInt32.toNat_inj.1
  simp only [vxlanReadVni, vxlanWriteVni, UInt32.toNat_or, UInt32.toNat_shiftLeft,
    UInt8.toNat_toUInt32, hb0, hb1, hb2, Nat.shiftLeft_eq, UInt32.reduceToNat, Nat.reduceMod,
    Nat.reducePow]
  exact or_digits hv

/-! ## One tunnel -/

section
variable (e : Endian) (out : List UInt8) {outCap : Nat} (tun : VxlanTunnel) (ipId : UInt16)
  (inner : Option (List UInt8))

/-- What an encapsulation within the limits leaves in the buffer; `NULL` stands for the empty
frame. -/
theorem vxlanEncap_frame (hvni : tun.vni ≤ 0xffffff) (hn : (inner.getD []).length ≤ 65499)
    (hcap : 50 + (inner.getD []).length ≤ outCap) (hout : outCap ≤ out.length) :
    vxlanEncap e out outCap tun inner (inner.getD []).length ipId =
      some (((50 + (inner.getD []).length : Nat) : Int),
        encapHead tun (inner.getD []).length ipId ++
          (inner.getD [] ++ out.drop (50 + (inner.getD []).length))) := by
  have hsize : 50 + (inner.getD []).length < sizeMod := by
    unfold sizeMod
    omega
  have hp : ∀ p, inner = some p → (inner.getD []).length ≤ p.length := by
    intro p h
    rw [h]
    exact Nat.le_refl _
  have hcopied : copied inner (slice out 50 (inner.getD []).length) (inner.getD []).length =
      inner.getD [] := by
    cases inner with
    | none => rfl
    | some p => exact List.take_length
  rw [vxlanEncap_eq e out tun ipId (by simpa using hvni) hp hsize hcap hout, hcopied,
    toInt_of_lt (by omega)]

variable {tun}

/-- The decapsulation of an encapsulated frame, with its inner bytes. -/
theorem vxlanDecap_frame (hvni : tun.vni ≤ 0xffffff) {p : List UInt8} (hn : p.length ≤ 65499)
    (pad : List UInt8) : vxlanDecap e (encapHead tun p.length ipId ++ (p ++ pad)) =
      some (.ok { inner := 50, innerLen := p.length, vni := tun.vni }) := by
  have hlen : (16 + p.length) % 65536 = 16 + p.length := Nat.mod_eq_of_lt (by omega)
  have htot : (36 + p.length) % 65536 = 36 + p.length := Nat.mod_eq_of_lt (by omega)
  rw [vxlanDecap_encap (by rw [htot, List.length_append]; omega) (by omega) (by omega) e,
    readVni_writeVni hvni, hlen, Nat.add_sub_cancel_left]

theorem verifyIpv4_encap (n : Nat) (rest : List UInt8) :
    verifyIpv4Checksum (encapHead tun n ipId ++ rest) = some 1 := by
  refine verifyIpv4_of_slice (UInt16.ofNat (36 + n)) ipId tun.outerSrcIp tun.outerDstIp ?_ rfl
  rw [List.length_append, length_encapHead]
  omega

/-- **One tunnel**: the call succeeds, and the bytes it reports carry a right header checksum and
the same network id and inner frame, with any bytes behind them. -/
theorem encap_decap (hvni : tun.vni ≤ 0xffffff) (hn : (inner.getD []).length ≤ 65499)
    (hcap : 50 + (inner.getD []).length ≤ outCap) (hout : outCap ≤ out.length) :
    ∃ out', vxlanEncap e out outCap tun inner (inner.getD []).length ipId =
        some (((50 + (inner.getD []).length : Nat) : Int), out') ∧
      ∀ pad, let frame := out'.take (50 + (inner.getD []).length) ++ pad
        verifyIpv4Checksum frame = some 1 ∧
        ∃ i, vxlanDecap e frame = some (.ok i) ∧ i.vni = tun.vni ∧
          i.innerLen = (inner.getD []).length ∧
          readN frame i.inner i.innerLen = some (inner.getD []) := by
  refine ⟨_, vxlanEncap_frame e out tun ipId inner hvni hn hcap hout, fun pad => ?_⟩
  have htake : (encapHead tun (inner.getD []).length ipId ++
      (inner.getD [] ++ out.drop (50 + (inner.getD []).length))).take
        (50 + (inner.getD []).length) ++ pad =
      encapHead tun (inner.getD []).length ipId ++ (inner.getD [] ++ pad) := by
    rw [← List.append_assoc, List.take_left' (by rw [List.length_append, length_encapHead]),
      List.append_assoc]
  dsimp only
  rw [htake]
  exact ⟨verifyIpv4_encap .., _, vxlanDecap_frame e ipId hvni hn pad, rfl, rfl,
    readN_append rfl rfl⟩

end

/-! ## Tunnels inside tunnels -/

/-- Every encapsulation of a frame of `n` bytes is within the limits. -/
def NestOk : List EncapCall → Nat → Prop
  | [], _ => True
  | c :: cs, n =>
    c.tun.vni ≤ 0xffffff ∧ n ≤ 65499 ∧ 50 + n ≤ c.outCap ∧ c.outCap ≤ c.out.length ∧
      NestOk cs (50 + n)

theorem decapNest_add (e : Endian) (j k : Nat) (frame : List UInt8) : decapNest e (j + k) frame =
    (decapNest e j frame).bind fun r => (decapNest e k r.2).map fun r' => (r.1 ++ r'.1, r'.2) := by
  induction j generalizing frame with
  | zero => simp [decapNest]
  | succ j ih =>
    rw [Nat.succ_add]
    simp only [decapNest]
    cases vxlanDecap e frame with
    | none => rfl
    | some r =>
      cases r with
      | error rc => rfl
      | ok i =>
        simp only [Option.bind_some, ih, Option.bind_eq_bind]
        cases readN frame i.inner i.innerLen with
        | none => rfl
        | some inner =>
          simp only [Option.bind_some]
          cases decapNest e j inner with
          | none => rfl
          | some r =>
            simp only [Option.bind_some, pure]
            cases decapNest e k r.2 <;> rfl

/-- One decapsulation of an encapsulated frame drops what is behind it. -/
theorem decapNest_one (e : Endian) (tun : VxlanTunnel) (ipId : UInt16) {p : List UInt8}
    (hvni : tun.vni ≤ 0xffffff) (hn : p.length ≤ 65499) (pad : List UInt8) :
    decapNest e 1 (encapHead tun p.length ipId ++ (p ++ pad)) = some ([tun.vni], p) := by
  simp only [decapNest, vxlanDecap_frame e ipId hvni hn pad, Option.bind_eq_bind, Option.bind_some]
  rw [readN_append (length_encapHead ..).symm rfl]
  rfl

/-- **Tunnels inside tunnels**: as many decapsulations as encapsulations give the network ids in
reverse and the frame back. -/
theorem decapNest_encapNest (e : Endian) (calls : List EncapCall) (p : List UInt8)
    (hok : NestOk calls p.length) : ∃ frame, encapNest e calls p = some frame ∧
      frame.length = 50 * calls.length + p.length ∧
      ∀ pad, (calls = [] → pad = []) → decapNest e calls.length (frame ++ pad) =
        some ((calls.map fun c => c.tun.vni).reverse, p) := by
  induction calls generalizing p with
  | nil =>
    refine ⟨p, rfl, by simp, fun pad hpad => ?_⟩
    rw [hpad rfl, List.append_nil]
    rfl
  | cons c cs ih =>
    obtain ⟨hvni, hn, hcap, hout, hcs⟩ := hok
    have hdecap := decapNest_one e c.tun c.ipId hvni hn
    have hencap := vxlanEncap_frame e c.out c.tun c.ipId (some p) hvni hn hcap hout
    obtain ⟨frame, hframe, hlen, hdec⟩ := ih (encapHead c.tun p.length c.ipId ++ p)
      (by rwa [List.length_append, length_encapHead])
    refine ⟨frame, ?_, ?_, fun pad _ => ?_⟩
    · rw [Option.getD_some] at hencap
      simp only [encapNest, hencap, Option.bind_eq_bind, Option.bind_some]
      rw [if_neg (by omega), Int.toNat_natCast, ← List.append_assoc,
        List.take_left' (by rw [List.length_append, length_encapHead]), hframe]
    · rw [hlen, List.length_append, length_encapHead, List.length_cons]
      omega
    · rw [List.length_cons, decapNest_add]
      by_cases hnil : cs = []
      · -- the outermost tunnel: its decapsulation drops the padding
        subst hnil
        cases hframe
        have hstep := hdecap pad
        rw [← List.append_assoc] at hstep
        simp only [List.length_nil, decapNest, Option.bind_some, List.nil_append] at hstep ⊢
        rw [hstep]
        rfl
      · rw [hdec pad fun h => absurd h hnil, Option.bind_some]
        have hstep := hdecap []
        rw [List.append_nil] at hstep
        rw [hstep]
        simp

/-- **The encapsulation round trip**, through one tunnel and through tunnels inside tunnels. -/
theorem vxlan_roundTrip (e : Endian) :
    (∀ (out : List UInt8) (outCap : Nat) (tun : VxlanTunnel) (ipId : UInt16)
        (inner : Option (List UInt8)),
      tun.vni ≤ 0xffffff → (inner.getD []).length ≤ 65499 →
      50 + (inner.getD []).length ≤ outCap → outCap ≤ out.length →
      ∃ out', vxlanEncap e out outCap tun inner (inner.getD []).length ipId =
          some (((50 + (inner.getD []).length : Nat) : Int), out') ∧
        ∀ pad, let frame := out'.take (50 + (inner.getD []).length) ++ pad
          verifyIpv4Checksum frame = some 1 ∧
          ∃ i, vxlanDecap e frame = some (.ok i) ∧ i.vni = tun.vni ∧
            i.innerLen = (inner.getD []).length ∧
            readN frame i.inner i.innerLen = some (inner.getD [])) ∧
    ∀ (calls : List EncapCall) (p : List UInt8), NestOk calls p.length →
      ∃ frame, encapNest e calls p = some frame ∧
        frame.length = 50 * calls.length + p.length ∧
        ∀ pad, (calls = [] → pad = []) → decapNest e calls.length (frame ++ pad) =
          some ((calls.map fun c => c.tun.vni).reverse, p) :=
  ⟨fun out _ _ ipId inner hvni hn hcap hout => encap_decap e out ipId inner hvni hn hcap hout,
    fun calls p hok => decapNest_encapNest e calls p hok⟩

/-- Two bytes through two tunnels. -/
theorem vxlan_roundTrip_two :
    let calls : List EncapCall :=
      [⟨List.replicate 60 0, 52, sampleTunnel, 1⟩,
        ⟨List.replicate 102 0, 102, { sampleTunnel with vni := 7 }, 2⟩]
    (∃ out', vxlanEncap .little (List.replicate 52 0) 52 sampleTunnel (some [0xab, 0xcd]) 2 1 =
      some (52, out')) ∧
    ∃ frame, encapNest .little calls [0xab, 0xcd] = some frame ∧
      decapNest .little 2 (frame ++ [0, 0]) = some ([7, 5000], [0xab, 0xcd]) := by
  obtain ⟨hone, hnest⟩ := vxlan_roundTrip .little
  obtain ⟨out', hencap, -⟩ := hone (List.replicate 52 0) 52 sampleTunnel 1 (some [0xab, 0xcd])
    (by decide) (by decide) (by decide) (by decide)
  obtain ⟨frame, hframe, -, hdec⟩ := hnest
    [⟨List.replicate 60 0, 52, sampleTunnel, 1⟩,
      ⟨List.replicate 102 0, 102, { sampleTunnel with vni := 7 }, 2⟩] [0xab, 0xcd]
    ⟨by decide, by decide, by decide, by decide, by decide, by decide, by decide, by decide,
      trivial⟩
  exact ⟨⟨out', hencap⟩, frame, hframe, hdec [0, 0] (by simp)⟩

end Rewsr.Net
