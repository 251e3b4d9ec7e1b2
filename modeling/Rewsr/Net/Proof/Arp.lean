import Rewsr.Net.Arp
import Rewsr.Net.Proof.BigEndian
import Rewsr.Net.Proof.Build
import Rewsr.Net.Proof.Verify

/-!
# ARP frames

`arpBytes` is the layout of a frame. Both builders write it (`arpBuildRequest_eq`,
`arpBuildReply_eq`), the parser reads it back, padding or not (`arpParse_arpBytes`), and an accepted
frame is the layout of what was read behind its addresses (`slice_of_arpParse`).
-/

namespace Rewsr.Net

open Rewsr.Wire

/-! ## The layout -/

/-- What follows the frame's addresses, from the Ethernet type on. -/
def arpBody (arp : Arp) : List UInt8 :=
  be16 ethPArp ++ be16 arpHtypeEthernet ++ be16 arpPtypeIpv4 ++ [ethAlen] ++ [4] ++
    be16 arp.oper ++ arp.senderMac.bytes ++ be32 arp.senderIp ++ arp.targetMac.bytes ++
    be32 arp.targetIp

/-- A frame to `dst`. -/
def arpBytes (dst : Mac) (arp : Arp) : List UInt8 :=
  dst.bytes ++ arp.senderMac.bytes ++ arpBody arp

theorem length_arpBytes (dst : Mac) (arp : Arp) : (arpBytes dst arp).length = arpFrameLen := rfl

/-- A store of the next bytes of a frame, behind those that are written. -/
theorem writeN_next {frame out bs : List UInt8} {i j : Nat} (hj : i + bs.length = j)
    (hbs : (frame.take j).drop i = bs) (hframe : j ≤ frame.length) (hout : j ≤ out.length) :
    writeN (frame.take i ++ out.drop i) i bs = some (frame.take j ++ out.drop j) := by
  have hlen : (frame.take i).length = i := List.length_take_of_le (by omega)
  have hsplit : frame.take i ++ bs = frame.take j := by
    have htake : (frame.take j).take i = frame.take i := by
      rw [List.take_take, Nat.min_eq_left (by omega)]
    rw [← hbs, ← htake, List.take_append_drop]
  have hfit : i + bs.length ≤ (frame.take i ++ out.drop i).length := by
    rw [List.length_append, hlen, List.length_drop]
    omega
  have htail : (frame.take i ++ out.drop i).drop j = out.drop j := by
    rw [← hj, ← List.drop_drop, List.drop_left' hlen, List.drop_drop]
  rw [writeN, if_pos hfit, List.take_left' hlen, hj, hsplit, htail]

/-- The stores that both builders make. -/
def arpEncode (e : Endian) (out : List UInt8) (dst : Mac) (arp : Arp) : Option (List UInt8) := do
  let out ← buildCommon e out dst arp.senderMac arp.senderIp arp.oper
  let out ← writeN out arpTha arp.targetMac.bytes
  storeBe32 out arpTpa arp.targetIp

/-- They write the layout, and nothing behind it. -/
theorem arpEncode_eq (e : Endian) {out : List UInt8} (h : arpFrameLen ≤ out.length) (dst : Mac)
    (arp : Arp) :
    arpEncode e out dst arp = some (arpBytes dst arp ++ out.drop arpFrameLen) := by
  have heth : EthHdr.bytes e { dst, src := arp.senderMac, ethertype := hostToNet16 e ethPArp } =
      dst.bytes ++ arp.senderMac.bytes ++ be16 ethPArp := by
    rw [EthHdr.bytes, bytes16_hostToNet16]
  -- Each store starts where the one before it ends.
  have hnext : ∀ (i j : Nat) (bs : List UInt8), i + bs.length = j →
      ((arpBytes dst arp).take j).drop i = bs → j ≤ arpFrameLen →
      writeN ((arpBytes dst arp).take i ++ out.drop i) i bs =
        some ((arpBytes dst arp).take j ++ out.drop j) :=
    fun i j bs hj hbs hle => writeN_next hj hbs hle (Nat.le_trans hle h)
  have heq0 : writeN out 0 (dst.bytes ++ arp.senderMac.bytes ++ be16 ethPArp) =
      some ((arpBytes dst arp).take arpHtype ++ out.drop arpHtype) :=
    hnext 0 arpHtype _ rfl rfl (by decide)
  simp only [arpEncode, buildCommon, storeBe16_eq, storeBe32_eq, heth, heq0,
    hnext arpHtype arpPtype (be16 arpHtypeEthernet) rfl rfl (by decide),
    hnext arpPtype arpHlen (be16 arpPtypeIpv4) rfl rfl (by decide),
    hnext arpHlen arpPlen [ethAlen] rfl rfl (by decide),
    hnext arpPlen arpOper [4] rfl rfl (by decide),
    hnext arpOper arpSha (be16 arp.oper) rfl rfl (by decide),
    hnext arpSha arpSpa arp.senderMac.bytes rfl rfl (by decide),
    hnext arpSpa arpTha (be32 arp.senderIp) rfl rfl (by decide),
    hnext arpTha arpTpa arp.targetMac.bytes rfl rfl (by decide),
    hnext arpTpa arpFrameLen (be32 arp.targetIp) rfl rfl (by decide),
    Option.bind_eq_bind, Option.bind_some]
  rfl

theorem arpBuildRequest_eq (e : Endian) {out : List UInt8} (h : arpFrameLen ≤ out.length)
    (senderMac : Mac) (senderIp targetIp : UInt32) :
    arpBuildRequest e out senderMac senderIp targetIp =
      some (42, arpBytes broadcastMac
        ⟨arpOpRequest, senderMac, senderIp, ⟨0, 0, 0, 0, 0, 0⟩, targetIp⟩ ++
          out.drop arpFrameLen) := by
  have hencode := arpEncode_eq e h broadcastMac
    ⟨arpOpRequest, senderMac, senderIp, ⟨0, 0, 0, 0, 0, 0⟩, targetIp⟩
  have hbuild : arpBuildRequest e out senderMac senderIp targetIp =
      (arpEncode e out broadcastMac
        ⟨arpOpRequest, senderMac, senderIp, ⟨0, 0, 0, 0, 0, 0⟩, targetIp⟩).bind
          fun out => some (42, out) := by
    simp only [arpBuildRequest, if_neg (Nat.not_lt.mpr h), arpEncode, Option.bind_eq_bind,
      Option.bind_assoc]
    rfl
  rw [hbuild, hencode, Option.bind_some]

theorem arpBuildReply_eq (e : Endian) {out : List UInt8} (h : arpFrameLen ≤ out.length)
    (senderMac : Mac) (senderIp : UInt32) (targetMac : Mac) (targetIp : UInt32) :
    arpBuildReply e out senderMac senderIp targetMac targetIp =
      some (42, arpBytes targetMac
        ⟨arpOpReply, senderMac, senderIp, targetMac, targetIp⟩ ++ out.drop arpFrameLen) := by
  have hencode := arpEncode_eq e h targetMac
    ⟨arpOpReply, senderMac, senderIp, targetMac, targetIp⟩
  have hbuild : arpBuildReply e out senderMac senderIp targetMac targetIp =
      (arpEncode e out targetMac
        ⟨arpOpReply, senderMac, senderIp, targetMac, targetIp⟩).bind fun out => some (42, out) := by
    simp only [arpBuildReply, if_neg (Nat.not_lt.mpr h), arpEncode, Option.bind_eq_bind,
      Option.bind_assoc]
    rfl
  rw [hbuild, hencode, Option.bind_some]

/-! ## The parser -/

/-- What the parser reports of an accepted frame. -/
def arpAt (frame : List UInt8) : Arp where
  oper := Endian.big.load16 (byte frame 20) (byte frame 21)
  senderMac := macAt frame 22
  senderIp := Endian.big.load32 (byte frame 28) (byte frame 29) (byte frame 30) (byte frame 31)
  targetMac := macAt frame 32
  targetIp := Endian.big.load32 (byte frame 38) (byte frame 39) (byte frame 40) (byte frame 41)

/-- The fields of Ethernet / IPv4 ARP. -/
structure ArpTypes (frame : List UInt8) : Prop where
  htype : Endian.big.load16 (byte frame 14) (byte frame 15) = arpHtypeEthernet
  ptype : Endian.big.load16 (byte frame 16) (byte frame 17) = arpPtypeIpv4
  hlen : byte frame 18 = ethAlen
  plen : byte frame 19 = 4

/-- The parser's tests on a frame. -/
inductive ArpOutcome (frame : List UInt8) : Except ParseErr Arp → Prop
  | short : frame.length < arpFrameLen → ArpOutcome frame (.error .short)
  | notArp : Endian.big.load16 (byte frame 12) (byte frame 13) ≠ ethPArp →
    ArpOutcome frame (.error .notIpv4)
  | otherTypes : ¬ ArpTypes frame → ArpOutcome frame (.error .badIhl)
  | ok : arpFrameLen ≤ frame.length →
    Endian.big.load16 (byte frame 12) (byte frame 13) = ethPArp → ArpTypes frame →
    ArpOutcome frame (.ok (arpAt frame))

/-- The parser on every frame, whatever the host's byte order. -/
theorem arpParse_outcome (e : Endian) (frame : List UInt8) :
    ∃ r, arpParse e frame = some r ∧ ArpOutcome frame r := by
  by_cases hlen : frame.length < arpFrameLen
  · exact ⟨_, if_pos hlen, .short hlen⟩
  have h42 : 42 ≤ frame.length := Nat.le_of_not_lt hlen
  rw [arpParse, if_neg hlen, read16_load (by omega), Option.bind_some, netToHost16_load16]
  by_cases het : Endian.big.load16 (byte frame 12) (byte frame 13) = ethPArp
  swap
  · exact ⟨_, if_pos het, .notArp het⟩
  rw [if_neg (not_not.mpr het),
    show loadBe16 frame arpHtype = _ from loadBe16_byte (i := 14) (by omega), Option.bind_some,
    show loadBe16 frame arpPtype = _ from loadBe16_byte (i := 16) (by omega), Option.bind_some,
    show read8 frame arpHlen = _ from read8_byte (i := 18) (by omega), Option.bind_some,
    show read8 frame arpPlen = _ from read8_byte (i := 19) (by omega), Option.bind_some]
  by_cases htypes : ArpTypes frame
  · refine ⟨_, ?_, .ok h42 het htypes⟩
    rw [if_neg (by simp [htypes.htype, htypes.ptype, htypes.hlen, htypes.plen]),
      show loadBe16 frame arpOper = _ from loadBe16_byte (i := 20) (by omega),
      show readMac frame arpSha = _ from readMac_macAt (i := 22) (by omega),
      show loadBe32 frame arpSpa = _ from loadBe32_byte (i := 28) (by omega),
      show readMac frame arpTha = _ from readMac_macAt (i := 32) (by omega),
      show loadBe32 frame arpTpa = _ from loadBe32_byte (i := 38) (by omega)]
    rfl
  · refine ⟨_, if_pos ?_, .otherTypes htypes⟩
    by_contra hnot
    simp only [not_or, not_not] at hnot
    exact htypes ⟨hnot.1, hnot.2.1, hnot.2.2.1, hnot.2.2.2⟩

/-- What an accepted frame looks like. -/
theorem arpParse_ok {e : Endian} {frame : List UInt8} {arp : Arp}
    (h : arpParse e frame = some (.ok arp)) :
    arpFrameLen ≤ frame.length ∧ Endian.big.load16 (byte frame 12) (byte frame 13) = ethPArp ∧
      ArpTypes frame ∧ arp = arpAt frame := by
  obtain ⟨r, hr, hout⟩ := arpParse_outcome e frame
  obtain rfl := Option.some.inj (h.symm.trans hr)
  cases hout with
  | ok hlen het htypes => exact ⟨hlen, het, htypes, rfl⟩

/-- The parser reads the layout back, whatever follows it. -/
theorem arpParse_arpBytes (e : Endian) (dst : Mac) (arp : Arp) (pad : List UInt8) :
    arpParse e (arpBytes dst arp ++ pad) = some (.ok arp) := by
  obtain ⟨r, hr, hout⟩ := arpParse_outcome e (arpBytes dst arp ++ pad)
  have hat : arpAt (arpBytes dst arp ++ pad) = arp := by
    have hoper : Endian.big.load16 (byte (arpBytes dst arp ++ pad) 20)
        (byte (arpBytes dst arp ++ pad) 21) = arp.oper := load16_of_slice rfl
    rw [arpAt, hoper, load32_of_slice (i := 28) (v := arp.senderIp) rfl,
      load32_of_slice (i := 38) (v := arp.targetIp) rfl]
    rfl
  rw [hr]
  cases hout with
  | short hlen =>
    rw [List.length_append, length_arpBytes] at hlen
    omega
  | notArp het => exact absurd (load16_of_slice (i := 12) rfl) het
  | otherTypes htypes =>
    exact absurd ⟨load16_of_slice (i := 14) rfl, load16_of_slice (i := 16) rfl, rfl, rfl⟩ htypes
  | ok => rw [hat]

/-- An accepted frame is the layout of what was read, behind its addresses. -/
theorem slice_of_arpParse {e : Endian} {frame : List UInt8} {arp : Arp}
    (h : arpParse e frame = some (.ok arp)) : slice frame 12 30 = arpBody arp := by
  obtain ⟨hlen, het, htypes, rfl⟩ := arpParse_ok h
  rw [slice_eq_map (show 12 + 30 ≤ frame.length from hlen), arpBody, ← het, ← htypes.htype,
    ← htypes.ptype, ← htypes.hlen, ← htypes.plen]
  simp only [arpAt, be16_load16, be32_load32]
  rfl

/-! ## The responder -/

/-- The responder answers exactly the accepted requests for its address. -/
theorem arpIsRequestFor_spec (e : Endian) (frame : List UInt8) (ip : UInt32) :
    ∃ r, arpIsRequestFor e frame ip = some r ∧ (r = 0 ∨ r = 1) ∧
      (r = 1 ↔ ∃ arp, arpParse e frame = some (.ok arp) ∧ arp.oper = arpOpRequest ∧
        arp.targetIp = ip) := by
  obtain ⟨r, hr, -⟩ := arpParse_outcome e frame
  rw [arpIsRequestFor, hr]
  cases r with
  | error err => exact ⟨0, rfl, Or.inl rfl, by simp⟩
  | ok arp =>
    refine ⟨_, rfl, ?_, ?_⟩
    · split <;> simp
    · simp

/-- The IPv4 parser refuses an ARP frame. -/
theorem parseUdpIpv4_of_arpParse {e : Endian} {frame : List UInt8} {arp : Arp}
    (h : arpParse e frame = some (.ok arp)) :
    parseUdpIpv4 e frame = some (.error .notIpv4) := by
  obtain ⟨hlen, het, -, -⟩ := arpParse_ok h
  have h42 : 42 ≤ frame.length := hlen
  have htype : be16At frame 12 ≠ 0x0800 := by
    rw [be16At, ← load16_big_toNat, het]
    decide
  rw [parseUdpIpv4_eq, parseFields, if_neg (by omega), if_pos htype]

/-- **The ARP codec.** What the builders write is parsed as the message they were given, padding or
not; an accepted frame is, from its Ethernet type on, what the builders' stores make of the parsed
message; the responder's test picks exactly the requests for its address, so never a reply; and the
IPv4 parser refuses every ARP frame. -/
theorem arp_codec (e : Endian) :
    (∀ (out : List UInt8) (senderMac : Mac) (senderIp targetIp : UInt32) (pad : List UInt8),
        arpFrameLen ≤ out.length →
        ∃ out', arpBuildRequest e out senderMac senderIp targetIp = some (42, out') ∧
          arpParse e (out'.take 42 ++ pad) =
            some (.ok ⟨arpOpRequest, senderMac, senderIp, ⟨0, 0, 0, 0, 0, 0⟩, targetIp⟩)) ∧
      (∀ (out : List UInt8) (senderMac : Mac) (senderIp : UInt32) (targetMac : Mac)
        (targetIp : UInt32) (pad : List UInt8), arpFrameLen ≤ out.length →
        ∃ out', arpBuildReply e out senderMac senderIp targetMac targetIp = some (42, out') ∧
          arpParse e (out'.take 42 ++ pad) =
            some (.ok ⟨arpOpReply, senderMac, senderIp, targetMac, targetIp⟩)) ∧
      (∀ (frame : List UInt8) (arp : Arp), arpParse e frame = some (.ok arp) →
        ∀ (out : List UInt8) (dst : Mac), arpFrameLen ≤ out.length →
        ∃ out', arpEncode e out dst arp = some out' ∧ slice out' 12 30 = slice frame 12 30) ∧
      (∀ (frame : List UInt8) (ip : UInt32), ∃ r, arpIsRequestFor e frame ip = some r ∧
        (r = 0 ∨ r = 1) ∧ (r = 1 ↔ ∃ arp, arpParse e frame = some (.ok arp) ∧
          arp.oper = arpOpRequest ∧ arp.targetIp = ip)) ∧
      (∀ (frame : List UInt8) (arp : Arp), arpParse e frame = some (.ok arp) →
        arp.oper = arpOpReply → ∀ ip, arpIsRequestFor e frame ip = some 0) ∧
      ∀ (frame : List UInt8) (arp : Arp), arpParse e frame = some (.ok arp) →
        ∃ err, parseUdpIpv4 e frame = some (.error err) := by
  have htake : ∀ (dst : Mac) (arp : Arp) (rest : List UInt8),
      (arpBytes dst arp ++ rest).take 42 = arpBytes dst arp :=
    fun dst arp rest => List.take_left' (length_arpBytes dst arp)
  refine ⟨?_, ?_, ?_, arpIsRequestFor_spec e, ?_, ?_⟩
  · intro out senderMac senderIp targetIp pad h
    refine ⟨_, arpBuildRequest_eq e h senderMac senderIp targetIp, ?_⟩
    rw [htake]
    exact arpParse_arpBytes e _ _ pad
  · intro out senderMac senderIp targetMac targetIp pad h
    refine ⟨_, arpBuildReply_eq e h senderMac senderIp targetMac targetIp, ?_⟩
    rw [htake]
    exact arpParse_arpBytes e _ _ pad
  · intro frame arp h out dst hout
    refine ⟨_, arpEncode_eq e hout dst arp, ?_⟩
    rw [slice_of_arpParse h]
    rfl
  · intro frame arp h hreply ip
    have hnot : ¬ (arp.oper = arpOpRequest ∧ arp.targetIp = ip) :=
      fun hrequest => absurd (hreply.symm.trans hrequest.1) (by decide)
    rw [arpIsRequestFor, h, Option.bind_some]
    exact congrArg some (if_neg hnot)
  · exact fun frame arp h => ⟨_, parseUdpIpv4_of_arpParse h⟩

end Rewsr.Net
