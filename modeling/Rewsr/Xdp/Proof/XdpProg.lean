import Rewsr.Net.Proof.Bounds
import Rewsr.Xdp.XdpProg

/-!
# Steering against the userspace parser

`rewsrXdpRedirect_eq`: the program never reads outside the packet and reaches its redirect on the
packets with `Steered`, its tests read as statements about the packet's big-endian fields.

`steering_covers`: it reaches it on every frame that userspace takes for the fabric port.
`steering_only_fabric_iff`: a frame it diverts is one that userspace takes for an IPv4 UDP datagram
to that port exactly when the first byte of the IPv4 header, from which the program takes the header
length without a test, has version 4 and a header length of at least five words.
-/

namespace Rewsr.Xdp

open Rewsr.Wire Rewsr.Net

/-! ## The program's outcome -/

theorem bswap16_bswap16 (v : UInt16) : bswap16 (bswap16 v) = v := by
  have hswap : ∀ b0 b1, bswap16 (Endian.big.load16 b0 b1) = Endian.big.load16 b1 b0 :=
    hostToNet16_little
  rw [← load16_be16 v, hswap, hswap]

/-- A field compared with a constant through `__builtin_bswap16`. -/
theorem load16_eq_bswap16 {frame : List UInt8} {i : Nat} (v : UInt16) :
    Endian.little.load16 (byte frame i) (byte frame (i + 1)) ≠ bswap16 v ↔
      be16At frame i ≠ v.toNat := by
  have hnet : bswap16 (Endian.little.load16 (byte frame i) (byte frame (i + 1))) =
      Endian.big.load16 (byte frame i) (byte frame (i + 1)) := netToHost16_load16 .little _ _
  have hbe : be16At frame i = (Endian.big.load16 (byte frame i) (byte frame (i + 1))).toNat := by
    rw [load16_big_toNat, be16At]
  rw [hbe, ne_eq, ne_eq, not_iff_not, UInt16.toNat_inj, ← hnet]
  constructor
  · intro h
    rw [h, bswap16_bswap16]
  · intro h
    rw [← h, bswap16_bswap16]

/-- The packets that pass every test of the program. -/
structure Steered (frame : List UInt8) : Prop where
  header : 34 ≤ frame.length
  ethertype : be16At frame 12 = 0x0800
  proto : (byte frame 23).toNat = 17
  inFrame : udpOff frame + 8 ≤ frame.length
  port : be16At frame (udpOff frame + 2) = 4789

theorem steered_iff {frame : List UInt8} : Steered frame ↔ 34 ≤ frame.length ∧
    be16At frame 12 = 0x0800 ∧ (byte frame 23).toNat = 17 ∧ udpOff frame + 8 ≤ frame.length ∧
    be16At frame (udpOff frame + 2) = 4789 :=
  ⟨fun h => ⟨h.header, h.ethertype, h.proto, h.inFrame, h.port⟩,
    fun ⟨h1, h2, h3, h4, h5⟩ => ⟨h1, h2, h3, h4, h5⟩⟩

instance (frame : List UInt8) : Decidable (Steered frame) := decidable_of_iff' _ steered_iff

/-- A test of the program: a packet that fails it is passed on. -/
theorem ite_pass {c p : Prop} [Decidable c] [Decidable p] {α : Type} {x y z : α} (hc : c → ¬ p)
    (h : ¬ c → z = if p then x else y) : (if c then y else z) = if p then x else y := by
  by_cases hcase : c
  · rw [if_pos hcase, if_neg (hc hcase)]
  · rw [if_neg hcase, h hcase]

/-- **The program on every packet.** -/
theorem rewsrXdpRedirect_eq (ctx : XdpMd) (counts : RedirectCount) :
    rewsrXdpRedirect ctx counts = if Steered ctx.data then
      some (.redirectMap ctx.rxQueueIndex .pass, countRedirect counts ctx.rxQueueIndex)
      else some (.pass, counts) := by
  have hproto : byte ctx.data 23 ≠ ipprotoUdp ↔ (byte ctx.data 23).toNat ≠ 17 := by
    rw [ne_eq, ← UInt8.toNat_inj]; rfl
  have hhl := ipHlen_eq ctx.data
  unfold rewsrXdpRedirect
  dsimp only
  refine ite_pass (fun h hs => ?_) fun h14 => ?_
  · have := hs.header
    change 14 > ctx.data.length at h
    omega
  change ¬ 14 > ctx.data.length at h14
  rw [read16_load (by omega), Option.bind_some]
  refine ite_pass (fun h hs => (load16_eq_bswap16 ethPIp).1 h hs.ethertype) fun het => ?_
  refine ite_pass (fun h hs => ?_) fun h34 => ?_
  · have := hs.header
    change 34 > ctx.data.length at h
    omega
  change ¬ 34 > ctx.data.length at h34
  rw [show read8 ctx.data (ethHlen + 9) = _ from read8_byte (i := 23) (by omega), Option.bind_some]
  refine ite_pass (fun h hs => hproto.1 h hs.proto) fun hp => ?_
  rw [show read8 ctx.data ethHlen = _ from read8_byte (i := 14) (by omega), Option.bind_some, hhl,
    show ethHlen + ipHlen ctx.data = udpOff ctx.data from rfl]
  refine ite_pass (fun h hs => ?_) fun h8 => ?_
  · have := hs.inFrame
    change udpOff ctx.data + 8 > ctx.data.length at h
    omega
  change ¬ udpOff ctx.data + 8 > ctx.data.length at h8
  rw [read16_load (by omega), Option.bind_some]
  refine ite_pass (fun h hs => (load16_eq_bswap16 fabricPort).1 h hs.port) fun hport => ?_
  rw [load16_eq_bswap16, Classical.not_not] at het hport
  rw [hproto, Classical.not_not] at hp
  rw [if_pos ⟨by omega, het, hp, by omega, hport⟩]

/-- The program reaches its call of `bpf_redirect_map`. -/
def ReachesRedirect (ctx : XdpMd) (counts : RedirectCount) : Prop :=
  ∃ counts', rewsrXdpRedirect ctx counts = some (.redirectMap ctx.rxQueueIndex .pass, counts')

theorem reachesRedirect_iff {ctx : XdpMd} {counts : RedirectCount} :
    ReachesRedirect ctx counts ↔ Steered ctx.data := by
  unfold ReachesRedirect
  rw [rewsrXdpRedirect_eq]
  by_cases h : Steered ctx.data
  · simp [h]
  · simp [h]

/-- The frame is diverted from the network stack: the program returns `XDP_REDIRECT`. -/
def Redirected (redirectMap : XsksMap → UInt32 → XdpAction → XdpAction) (xsks : XsksMap)
    (ctx : XdpMd) (counts : RedirectCount) : Prop :=
  ∃ exit counts', rewsrXdpRedirect ctx counts = some (exit, counts') ∧
    exit.action redirectMap xsks = .redirect

theorem redirected_iff {redirectMap : XsksMap → UInt32 → XdpAction → XdpAction}
    (hmap : BpfRedirectMap redirectMap) {xsks : XsksMap} {ctx : XdpMd} {counts : RedirectCount} :
    Redirected redirectMap xsks ctx counts ↔ Steered ctx.data ∧ xsks.bound ctx.rxQueueIndex := by
  unfold Redirected
  rw [rewsrXdpRedirect_eq]
  by_cases h : Steered ctx.data
  · by_cases hb : xsks.bound ctx.rxQueueIndex
    · simp [h, hb, XdpExit.action, hmap.bound hb]
    · simp [h, hb, XdpExit.action, hmap.unbound hb]
  · simp [h, XdpExit.action]

/-- A helper that does what is documented. -/
def redirectIfBound (xsks : XsksMap) (key : UInt32) (flags : XdpAction) : XdpAction :=
  if xsks.bound key then .redirect else flags

theorem redirectIfBound_spec : BpfRedirectMap redirectIfBound where
  bound h _ := if_pos h
  unbound h _ := if_neg h

/-! ## What userspace accepts -/

theorem dstPort_toNat (frame : List UInt8) :
    (datagram frame).dstPort.toNat = be16At frame (udpOff frame + 2) := by
  change (Endian.big.load16 _ _).toNat = _
  rw [load16_big_toNat, be16At]

theorem steered_of_accepted {frame : List UInt8} (h : Accepted frame)
    (hport : (datagram frame).dstPort = fabricPort) : Steered frame := by
  have hlen := h.length
  have hoff := h.udpOff_ge
  have hmin := h.udpMin
  refine ⟨by omega, h.ethertype, h.proto, by omega, ?_⟩
  rw [← dstPort_toNat, hport]
  rfl

theorem reachesRedirect_of_parse {e : Endian} {frame : List UInt8} {dg : UdpDatagram}
    (hparse : parseUdpIpv4 e frame = some (.ok dg)) (hport : dg.dstPort = fabricPort) (q : UInt32)
    (counts : RedirectCount) : ReachesRedirect ⟨frame, q⟩ counts := by
  obtain ⟨hacc, rfl⟩ := parseUdpIpv4_ok_iff.1 hparse
  exact reachesRedirect_iff.2 (steered_of_accepted hacc hport)

/-- **Steering covers what userspace accepts**: every frame that parses with the fabric port, every
frame that decapsulates, and every frame of a generator with that port. -/
theorem steering_covers (e : Endian) (q : UInt32) (counts : RedirectCount) :
    (∀ frame dg, parseUdpIpv4 e frame = some (.ok dg) → dg.dstPort = fabricPort →
      ReachesRedirect ⟨frame, q⟩ counts) ∧
    (∀ frame i, vxlanDecap e frame = some (.ok i) → ReachesRedirect ⟨frame, q⟩ counts) ∧
    ∀ (fl : Flow) (len : Nat) (g g' : Pktgen) (outs frames : List (List UInt8)),
      fl.dstPort = fabricPort → pktgenInit e fl len = some (.ok g) →
      pktgenRun g outs = some (frames, g') →
      ∀ frame ∈ frames, ReachesRedirect ⟨frame, q⟩ counts := by
  refine ⟨fun frame dg hparse hport => reachesRedirect_of_parse hparse hport q counts,
    fun frame i hdec => ?_, ?_⟩
  · obtain ⟨hacc, hdec⟩ := vxlanDecap_ok hdec
    exact reachesRedirect_iff.2 (steered_of_accepted hacc (decapFields_ok hdec).1)
  · intro fl len g g' outs frames hport hinit hrun frame hmem
    obtain ⟨h8, h, rfl⟩ := pktgenInit_ok_iff.1 hinit
    rw [pktgenRun_eq h8 h] at hrun
    cases hrun
    obtain ⟨n, -, rfl⟩ := List.mem_map.1 hmem
    obtain ⟨dg, hparse, hdst, -⟩ := parse_genFrame e fl h8 h n
    exact reachesRedirect_of_parse hparse (hdst.trans hport) q counts

/-- A frame in a tunnel, and the first frame of a generator for the fabric port. -/
theorem steering_covers_samples :
    ReachesRedirect ⟨encapHead sampleTunnel 2 1 ++ [0xab, 0xcd], 0⟩ (Vector.replicate 64 0) ∧
    ∃ g frame g', pktgenInit .little { sampleFlow with dstPort := 4789 } 8 = some (.ok g) ∧
      pktgenRun g [List.replicate 64 0] = some ([frame], g') ∧
      ReachesRedirect ⟨frame, 0⟩ (Vector.replicate 64 0) := by
  obtain ⟨-, hdecap, hgen⟩ := steering_covers .little 0 (Vector.replicate 64 0)
  have hinit : pktgenInit .little { sampleFlow with dstPort := 4789 } 8 = some (.ok _) :=
    pktgenInit_eq (by decide) (by decide)
  have hrun : pktgenRun (genAt .little { sampleFlow with dstPort := 4789 } 8 0)
      [List.replicate 64 0] = some (_, _) := pktgenRun_eq (by decide) (by decide) _ 0
  refine ⟨hdecap _ _ (vxlanDecap_encap (by decide) (by decide) (by decide) .little), _, _, _,
    hinit, hrun, hgen _ 8 _ _ _ _ rfl hinit hrun _ ?_⟩
  exact List.mem_singleton.2 rfl

/-! ## What the program diverts -/

section
variable {frame : List UInt8} (hs : Steered frame)
include hs

/-- Userspace on a diverted frame with a sound first byte: accepted with the fabric port, or a
length that does not fit. -/
theorem parse_of_steered (e : Endian) (hihl : GoodIhl frame) :
    (∃ dg, parseUdpIpv4 e frame = some (.ok dg) ∧ dg.dstPort = fabricPort) ∨
      parseUdpIpv4 e frame = some (.error .badLen) := by
  have hin := hs.inFrame
  have h20 := hihl.2
  have hoff : udpOff frame = 14 + ipHlen frame := rfl
  rw [parseUdpIpv4_eq]
  unfold parseFields
  rw [if_neg (by omega), if_neg (by simp [hs.ethertype]), if_neg (by simp [hihl])]
  split
  · exact .inr rfl
  rw [if_neg (by simp [hs.proto]), if_neg (by omega)]
  split
  · exact .inr rfl
  · refine .inl ⟨_, rfl, UInt16.toNat_inj.1 ?_⟩
    rw [dstPort_toNat, hs.port]
    rfl

/-- Userspace on a diverted frame with another first byte. -/
theorem parse_of_steered_bad (e : Endian) (hihl : ¬ GoodIhl frame) :
    parseUdpIpv4 e frame = some (.error .short) ∨
      parseUdpIpv4 e frame = some (.error .badIhl) := by
  rw [parseUdpIpv4_eq]
  unfold parseFields
  by_cases hlen : frame.length < 42
  · exact .inl (if_pos hlen)
  · rw [if_neg hlen, if_neg (not_not.2 hs.ethertype), if_pos hihl]
    exact .inr rfl

end

/-- **Steering takes only fabric traffic** exactly where the first byte of the IPv4 header is sound
on the frames that pass the program's tests on a bound queue: then a diverted frame is an IPv4 UDP
datagram to the fabric port, and userspace accepts it or finds a length that does not fit. -/
theorem steering_only_fabric_iff {redirectMap : XsksMap → UInt32 → XdpAction → XdpAction}
    (hmap : BpfRedirectMap redirectMap) (e : Endian) (xsks : XsksMap) (ctx : XdpMd)
    (counts : RedirectCount) :
    ((Redirected redirectMap xsks ctx counts →
        (byte ctx.data 14).toNat / 16 = 4 ∧ 5 ≤ (byte ctx.data 14).toNat % 16 ∧
        (byte ctx.data 23).toNat = 17 ∧
        be16At ctx.data (14 + (byte ctx.data 14).toNat % 16 * 4 + 2) = 4789) ↔
      (xsks.bound ctx.rxQueueIndex → Steered ctx.data → GoodIhl ctx.data)) ∧
    ((Redirected redirectMap xsks ctx counts →
        (∃ dg, parseUdpIpv4 e ctx.data = some (.ok dg) ∧ dg.dstPort = fabricPort) ∨
        parseUdpIpv4 e ctx.data = some (.error .badLen)) ↔
      (xsks.bound ctx.rxQueueIndex → Steered ctx.data → GoodIhl ctx.data)) := by
  have hgood : GoodIhl ctx.data ↔
      (byte ctx.data 14).toNat / 16 = 4 ∧ 5 ≤ (byte ctx.data 14).toNat % 16 := by
    unfold GoodIhl ipHlen
    omega
  rw [redirected_iff hmap]
  refine ⟨⟨fun h hb hs => ?_, fun h hr => ?_⟩, fun h hb hs => ?_, fun h hr => ?_⟩
  · obtain ⟨hver, hihl, -⟩ := h ⟨hs, hb⟩
    exact hgood.2 ⟨hver, hihl⟩
  · obtain ⟨hver, hihl⟩ := hgood.1 (h hr.2 hr.1)
    exact ⟨hver, hihl, hr.1.proto, hr.1.port⟩
  · by_cases hihl : GoodIhl ctx.data
    · exact hihl
    · rcases h ⟨hs, hb⟩ with ⟨dg, hok, -⟩ | hlen
      · rcases parse_of_steered_bad hs e hihl with hbad | hbad
        · simp [hbad] at hok
        · simp [hbad] at hok
      · rcases parse_of_steered_bad hs e hihl with hbad | hbad
        · simp [hbad] at hlen
        · simp [hbad] at hlen
  · exact parse_of_steered hr.1 e (h hr.2 hr.1)

/-- A frame in a tunnel, on queue 0. -/
def tunnelFrame : XdpMd := ⟨encapHead sampleTunnel 2 1 ++ [0xab, 0xcd], 0⟩

/-- A map with a socket on every queue. -/
def allBound : XsksMap := Vector.replicate 64 (some 3)

theorem steering_only_fabric_samples :
    Redirected redirectIfBound allBound tunnelFrame (Vector.replicate 64 0) ∧
    be16At tunnelFrame.data (14 + (byte tunnelFrame.data 14).toNat % 16 * 4 + 2) = 4789 ∧
    ((∃ dg, parseUdpIpv4 .little tunnelFrame.data = some (.ok dg) ∧ dg.dstPort = fabricPort) ∨
      parseUdpIpv4 .little tunnelFrame.data = some (.error .badLen)) := by
  have hred : Redirected redirectIfBound allBound tunnelFrame (Vector.replicate 64 0) :=
    (redirected_iff redirectIfBound_spec).2 ⟨by decide +kernel, by decide +kernel⟩
  have hgood : allBound.bound tunnelFrame.rxQueueIndex → Steered tunnelFrame.data →
      GoodIhl tunnelFrame.data := fun _ _ => by decide +kernel
  obtain ⟨hheader, hparse⟩ := steering_only_fabric_iff redirectIfBound_spec .little allBound
    tunnelFrame (Vector.replicate 64 0)
  obtain ⟨-, -, -, hport⟩ := hheader.2 hgood hred
  exact ⟨hred, hport, hparse.2 hgood hred⟩

/-- A frame of 60 bytes whose IPv4 header claims a length of no words, so that the program takes the
total length field, 4789, for the destination port. -/
def zeroIhlFrame : List UInt8 :=
  List.replicate 12 0 ++ [0x08, 0x00, 0x40, 0x00, 0x12, 0xb5, 0, 0, 0, 0, 64, 17] ++
    List.replicate 36 0

/-- It is diverted to the socket of queue 0, and userspace rejects its header. -/
theorem zeroIhlFrame_redirected :
    Redirected redirectIfBound (Vector.replicate 64 (some 3)) ⟨zeroIhlFrame, 0⟩
      (Vector.replicate 64 0) ∧
    (byte zeroIhlFrame 14).toNat % 16 = 0 ∧
    parseUdpIpv4 .little zeroIhlFrame = some (.error .badIhl) := by
  refine ⟨(redirected_iff redirectIfBound_spec).2 ⟨?_, ?_⟩, ?_, ?_⟩
  · decide +kernel
  · decide +kernel
  · decide +kernel
  · decide +kernel

end Rewsr.Xdp
