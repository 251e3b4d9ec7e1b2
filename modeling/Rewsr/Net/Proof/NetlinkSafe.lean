import Rewsr.Net.Proof.Netlink

/-!
# Link messages of any content

On any bytes the walk applies attributes that lie in the message one after the other
(`nlWalk_attrs`): where it goes on there is a whole attribute at its offset (`exists_attr`), and
elsewhere it stops. So the parser reads nothing outside the message, and what `LastWins` says of
the fold holds of what it returns (`nlParseLink_safe`).
-/

namespace Rewsr.Net

open Rewsr.Wire

theorem bytes16_load16 (e : Endian) (b0 b1 : UInt8) : e.bytes16 (e.load16 b0 b1) = [b0, b1] := by
  cases e with
  | big => exact be16_load16 b0 b1
  | little =>
    have hswap : Endian.little.load16 b0 b1 = Endian.big.load16 b1 b0 := UInt16.or_comm ..
    have hbytes := be16_load16 b1 b0
    simp only [be16, List.cons.injEq, and_true] at hbytes
    rw [hswap, Endian.bytes16, hbytes.1, hbytes.2]

/-- The attribute is a part of the message. -/
def RtAttr.In (e : Endian) (msg : List UInt8) (a : RtAttr) : Prop :=
  ∃ pre post, msg = pre ++ (a.bytes e ++ post)

/-- Where the walk goes on, an attribute starts that ends in the message. -/
theorem exists_attr {e : Endian} {tail : List UInt8} (h : ¬ NoAttr e tail) :
    ∃ (a : RtAttr) (post : List UInt8), tail = a.bytes e ++ post := by
  unfold NoAttr at h
  match tail with
  | [] | [_] | [_, _] | [_, _, _] => simp [rtattrLen] at h
  | m0 :: m1 :: m2 :: m3 :: rest =>
    have hlen : read16 e (m0 :: m1 :: m2 :: m3 :: rest) 0 = some (e.load16 m0 m1) := rfl
    simp only [hlen, Option.some.injEq, exists_eq_left', not_or, Nat.not_lt, List.length_cons] at h
    obtain ⟨-, hmin, hin⟩ := h
    have hlt := (e.load16 m0 m1).toNat_lt
    generalize hn : (e.load16 m0 m1).toNat = n at hmin hin hlt
    unfold rtattrLen at hmin
    have hpayload : (rest.take (n - 4)).length = n - 4 := by
      rw [List.length_take]
      omega
    refine ⟨⟨e.load16 m2 m3, rest.take (n - 4), List.replicate ((4 - (n - 4) % 4) % 4) 0,
      by omega, by rw [List.length_replicate, hpayload]⟩, rest.drop (n - 4), ?_⟩
    have hfield : UInt16.ofNat (4 + (rest.take (n - 4)).length) = e.load16 m0 m1 := by
      rw [hpayload, Nat.add_sub_cancel' hmin, ← hn, UInt16.ofNat_toNat]
    simp only [RtAttr.bytes, hfield, bytes16_load16]
    simp

/-- The walk applies attributes of the message, whatever its bytes are. -/
theorem nlWalk_attrs (e : Endian) (msg : List UInt8) (off : Nat) {out : LinkInfo}
    (hname : out.name.length = 16) :
    ∃ as : List RtAttr, (∀ a ∈ as, a.In e msg) ∧
      nlWalk e msg off out = some (as.foldl (RtAttr.apply e) out) := by
  induction hn : msg.length - off using Nat.strong_induction_on generalizing off out with
  | _ n ih =>
    by_cases hstop : NoAttr e (msg.drop off)
    · exact ⟨[], by simp, nlWalk_stop hstop⟩
    · obtain ⟨a, post, htail⟩ := exists_attr hstop
      have hoff : off ≤ msg.length := by
        by_contra hover
        rw [List.drop_eq_nil_of_le (by omega)] at hstop
        exact hstop (noAttr_nil e)
      have hpre : (msg.take off).length = off := by simp [hoff]
      have hmsg : msg = msg.take off ++ (a.bytes e ++ post) := by
        rw [← htail, List.take_append_drop]
      have hturn : nlWalk e (msg.take off ++ (a.bytes e ++ post)) (msg.take off).length out = _ :=
        nlWalk_attr hname
      rw [← hmsg, hpre] at hturn
      have hless : msg.length - (off + (4 + a.payload.length + a.pad.length)) < n := by
        have hlen := congrArg List.length hmsg
        simp only [List.length_append, hpre, RtAttr.length_bytes] at hlen
        omega
      obtain ⟨as, has, hwalk⟩ := ih _ hless _ (a.length_apply_name e hname) rfl
      exact ⟨a :: as, by simpa using ⟨⟨_, _, hmsg⟩, has⟩, hturn.trans hwalk⟩

/-- The name ends inside its sixteen bytes. -/
theorem NameOf.terminated {o : Option RtAttr} {name : List UInt8} (h : NameOf o name) :
    0 ∈ name := by
  cases o with
  | none =>
    obtain rfl : name = List.replicate 16 0 := h
    simp
  | some a =>
    obtain ⟨rest, rfl⟩ : a.payload.take 15 ++ [0] <+: name := h
    simp

/-- What is said of an attribute that set a field. -/
theorem lastLong_spec {as : List RtAttr} {type : UInt16} {n : Nat} {a : RtAttr}
    (h : lastLong as type n = some a) : a ∈ as ∧ a.type = type ∧ n ≤ a.payload.length := by
  have hmem := List.mem_of_getLast? h
  simpa [RtAttr.isLong] using hmem

/-- **Any bytes are read safely.** On every buffer the parser returns: -1 and nothing written if the
buffer is shorter than the header, and otherwise 0 with a name of sixteen bytes that is terminated,
an address only if an attribute inside the buffer had all of its bytes, and counters only if one had
all of theirs. -/
theorem nlParseLink_safe (e : Endian) (msg : List UInt8) (out : LinkInfo) :
    (msg.length < ifinfomsgLen ∧ nlParseLink e msg out = some (-1, out)) ∨
    ∃ info, nlParseLink e msg out = some (0, info) ∧
      (info.name.length = 16 ∧ 0 ∈ info.name) ∧
      (info.hasMac = true → ∃ a : RtAttr, a.In e msg ∧ a.type = iflaAddress ∧
        6 ≤ a.payload.length ∧ info.mac = firstMac a.payload) ∧
      (info.hasStats = true → ∃ a : RtAttr, a.In e msg ∧ a.type = iflaStats64 ∧
        32 ≤ a.payload.length ∧ info.stats = (word64 e a.payload 0, word64 e a.payload 8,
          word64 e a.payload 16, word64 e a.payload 24, true)) := by
  by_cases hlen : msg.length < ifinfomsgLen
  · exact .inl ⟨hlen, by rw [nlParseLink, if_pos hlen]⟩
  · right
    have hroom : 4 + 3 < msg.length := by
      unfold ifinfomsgLen at hlen
      omega
    generalize hindex : toInt (e.load32 (byte msg 4) (byte msg (4 + 1)) (byte msg (4 + 2))
      (byte msg (4 + 3))).toNat = index
    have hname : (initInfo index).name.length = 16 := rfl
    obtain ⟨as, has, hwalk⟩ := nlWalk_attrs e msg ifinfomsgLen hname
    have hlast := lastWins_foldl e index as
    generalize hinfo : as.foldl (RtAttr.apply e) (initInfo index) = info at hwalk hlast
    refine ⟨info, ?_, ⟨hlast.nameLen, hlast.name.terminated⟩, fun hmac => ?_, fun hstats => ?_⟩
    · rw [nlParseLink, if_neg hlen, read32_load hroom, Option.bind_eq_bind, Option.bind_some,
        hindex]
      exact Option.bind_eq_some_iff.mpr ⟨_, hwalk, rfl⟩
    · have haddress := hlast.address
      simp only [LinkInfo.address, hmac] at haddress
      cases ha : lastLong as iflaAddress 6 with
      | none => simp [ha] at haddress
      | some a =>
        obtain ⟨hmem, htype, hlong⟩ := lastLong_spec ha
        rw [ha, Option.elim_some, Prod.mk.injEq] at haddress
        exact ⟨a, has a hmem, htype, hlong, haddress.1⟩
    · have hset := hlast.stats
      cases ha : lastLong as iflaStats64 32 with
      | none =>
        rw [ha] at hset
        simp [LinkInfo.stats, hstats] at hset
      | some a =>
        obtain ⟨hmem, htype, hlong⟩ := lastLong_spec ha
        rw [ha, Option.elim_some] at hset
        exact ⟨a, has a hmem, htype, hlong, hset⟩

end Rewsr.Net
