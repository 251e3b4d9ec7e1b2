import Rewsr.Net.NetlinkDump
import Rewsr.Net.Proof.NetlinkSafe

/-!
# The dump's walk over the messages

`NlMsg` is a message with its padding. As long as every message that the walk steps over is padded
inside the bytes received, the bytes left and the offset add up to what was received. A last
message without all of its padding makes the bytes left negative, the test of the next header
compares them as an `unsigned` number, and the walk goes on behind the bytes received.
-/

namespace Rewsr.Net

open Rewsr.Wire

/-! ## Messages -/

/-- A message: its type, and the bytes from its flags on. -/
structure NlMsg where
  type : UInt16
  rest : List UInt8
  long : 10 ≤ rest.length
  fits : rest.length < 2 ^ 31

namespace NlMsg

/-- The bytes of a message without its padding. -/
def bytes (e : Endian) (m : NlMsg) : List UInt8 :=
  e.bytes32 (UInt32.ofNat (6 + m.rest.length)) ++ (e.bytes16 m.type ++ m.rest)

theorem length_bytes (e : Endian) (m : NlMsg) : (m.bytes e).length = 6 + m.rest.length := by
  simp [bytes]
  omega

theorem len_toNat (m : NlMsg) :
    (UInt32.ofNat (6 + m.rest.length)).toNat = 6 + m.rest.length := by
  have hfits := m.fits
  exact UInt32.toNat_ofNat_of_lt' (by simp [UInt32.size]; omega)

/-- The number of bytes from a message's end to a multiple of four. -/
def padLen (m : NlMsg) : Nat := (4 - (6 + m.rest.length) % 4) % 4

/-- The walk does not end at this message. -/
def Plain (m : NlMsg) : Prop := m.type ≠ nlmsgDone ∧ m.type ≠ nlmsgError

/-- What the callback gets of a message, from what is behind its header. -/
def link (e : Endian) (m : NlMsg) : Option LinkInfo :=
  if m.type = rtmNewlink then
    (nlParseLink e (m.rest.drop 10) LinkInfo.zero).bind fun r => if r.1 = 0 then some r.2 else none
  else none

end NlMsg

theorem nlmsgAlign_toNat {len : UInt32} (h : len.toNat + 3 < 2 ^ 32) :
    (nlmsgAlign len).toNat = (len.toNat + 3) / 4 * 4 := by
  have hsum : (len + 4 - 1).toNat = len.toNat + 3 := by
    have h4 : (4 : UInt32).toNat = 4 := rfl
    rw [UInt32.toNat_sub, UInt32.toNat_add, UInt32.toNat_one, h4]
    omega
  have hmask := Counter.toNat_and_not (len + 4 - 1).toBitVec 2
  exact hmask.trans (congrArg (· / 4 * 4) hsum)

/-- The walk steps over the padding. -/
theorem nlmsgAlign_len (m : NlMsg) : (nlmsgAlign (UInt32.ofNat (6 + m.rest.length))).toNat =
    6 + m.rest.length + m.padLen := by
  have hfits := m.fits
  unfold NlMsg.padLen
  rw [nlmsgAlign_toNat (by rw [NlMsg.len_toNat]; omega), NlMsg.len_toNat]
  omega

/-- What the bytes left are tested as. -/
theorem ofInt_natCast {n : Nat} (h : n < 2 ^ 32) : (UInt32.ofInt n).toNat = n := by
  rw [UInt32.ofInt, UInt32.toNat_ofNat']
  omega

/-! ## One turn -/

theorem nlParseLink_isSome (e : Endian) (msg : List UInt8) (out : LinkInfo) :
    ∃ r, nlParseLink e msg out = some r := by
  rcases nlParseLink_safe e msg out with ⟨-, h⟩ | ⟨info, h, -⟩
  · exact ⟨_, h⟩
  · exact ⟨_, h⟩

section
variable {e : Endian} {pre : List UInt8} {m : NlMsg} {post : List UInt8}

theorem read32_msg : read32 e (pre ++ (m.bytes e ++ post)) pre.length =
    some (UInt32.ofNat (6 + m.rest.length)) := by
  rw [NlMsg.bytes]
  generalize UInt32.ofNat (6 + m.rest.length) = len
  obtain ⟨b0, b1, b2, b3, hbytes, hload⟩ := load32_bytes32 e len
  simp [read32, hbytes, hload]

theorem read16_msg : read16 e (pre ++ (m.bytes e ++ post)) (pre.length + 4) = some m.type := by
  have hread := read16_part e (pre ++ e.bytes32 (UInt32.ofNat (6 + m.rest.length)))
    (m.rest ++ post) m.type
  simpa [NlMsg.bytes] using hread

/-- A message passes the test of its header where it ends inside the bytes tested. -/
theorem nlmsgOk_msg {left : UInt32} (hleft : 6 + m.rest.length ≤ left.toNat) :
    nlmsgOk e (pre ++ (m.bytes e ++ post)) pre.length left = some true := by
  have hlong := m.long
  have h16 : (16 : UInt32).toNat = 16 := rfl
  have hmin : ¬ left < 16 := by
    rw [UInt32.lt_iff_toNat_lt, h16]
    omega
  have hfit : UInt32.ofNat (6 + m.rest.length) ≥ 16 ∧ UInt32.ofNat (6 + m.rest.length) ≤ left := by
    rw [ge_iff_le, UInt32.le_iff_toNat_le, UInt32.le_iff_toNat_le, m.len_toNat, h16]
    omega
  rw [nlmsgOk, if_neg hmin, read32_msg, Option.bind_eq_bind, Option.bind_some,
    decide_eq_true hfit.1, decide_eq_true hfit.2]
  rfl

theorem readN_body : readN (pre ++ (m.bytes e ++ post)) (pre.length + nlmsgHdrlen)
    (m.rest.length - 10) = some (m.rest.drop 10) := by
  have hlong := m.long
  have hhead : (pre ++ (e.bytes32 (UInt32.ofNat (6 + m.rest.length)) ++ (e.bytes16 m.type ++
      m.rest.take 10))).length = pre.length + nlmsgHdrlen := by
    simp only [List.length_append, length_bytes32, length_bytes16, List.length_take, nlmsgHdrlen]
    omega
  have hsplit : pre ++ (m.bytes e ++ post) = (pre ++ (e.bytes32 (UInt32.ofNat (6 + m.rest.length)) ++
      (e.bytes16 m.type ++ m.rest.take 10))) ++ (m.rest.drop 10 ++ post) := by
    simp only [NlMsg.bytes, List.append_assoc]
    rw [← List.append_assoc (m.rest.take 10), List.take_append_drop]
  rw [readN, if_pos]
  · rw [hsplit, ← hhead, List.drop_left, List.take_append_of_le_length (by simp),
      List.take_of_length_le (by simp)]
  · simp only [List.length_append, NlMsg.length_bytes, nlmsgHdrlen]
    omega

/-- A message that ends inside the bytes tested, and is not the last one, is stepped over. -/
theorem nlTurn_link {n : Int} (hn : 6 + m.rest.length ≤ (UInt32.ofInt n).toNat)
    (hplain : m.Plain) : nlTurn e (pre ++ (m.bytes e ++ post)) ⟨pre.length, n⟩ =
      some (.next (m.link e) ⟨pre.length + (6 + m.rest.length + m.padLen),
        n - (6 + m.rest.length + m.padLen : Nat)⟩) := by
  have hlong := m.long
  have hbody : (UInt32.ofNat (6 + m.rest.length) - 16).toNat = m.rest.length - 10 := by
    have h16 : (16 : UInt32).toNat = 16 := rfl
    rw [UInt32.toNat_sub_of_le _ _ (by rw [UInt32.le_iff_toNat_le, m.len_toNat, h16]; omega),
      m.len_toNat, h16]
    omega
  obtain ⟨⟨rc, info⟩, hparse⟩ := nlParseLink_isSome e (m.rest.drop 10) LinkInfo.zero
  unfold nlTurn
  rw [nlmsgOk_msg hn, read32_msg, read16_msg]
  simp only [Option.bind_eq_bind, Option.bind_some, hplain.1, hplain.2, if_false, nlmsgAlign_len,
    hbody, readN_body, hparse]
  by_cases hlink : m.type = rtmNewlink
  · rw [if_pos hlink, NlMsg.link, if_pos hlink, hparse]
    rfl
  · rw [if_neg hlink, NlMsg.link, if_neg hlink]
    rfl

theorem nlTurn_msg {n : Int} (hn : 6 + m.rest.length ≤ (UInt32.ofInt n).toNat)
    (hplain : m.Plain) : ∃ info, nlTurn e (pre ++ (m.bytes e ++ post)) ⟨pre.length, n⟩ =
      some (.next info ⟨pre.length + (6 + m.rest.length + m.padLen),
        n - (6 + m.rest.length + m.padLen : Nat)⟩) :=
  ⟨_, nlTurn_link hn hplain⟩

/-- The walk ends at a message that says so. -/
theorem nlTurn_stop {n : Int} (hn : 6 + m.rest.length ≤ (UInt32.ofInt n).toNat)
    (hstop : ¬ m.Plain) : nlTurn e (pre ++ (m.bytes e ++ post)) ⟨pre.length, n⟩ =
      some (if m.type = nlmsgDone then .done else .error) := by
  unfold nlTurn
  rw [nlmsgOk_msg hn, read32_msg, read16_msg]
  by_cases hdone : m.type = nlmsgDone
  · simp [hdone]
  · have herror : m.type = nlmsgError := by
      by_contra herror
      exact hstop ⟨hdone, herror⟩
    simp [herror, nlmsgError, nlmsgDone]

end

/-- What it takes for a header to pass the test. -/
theorem nlmsgOk_inv {e : Endian} {off : Nat} {buf : List UInt8} {left : UInt32}
    (h : nlmsgOk e buf off left = some true) : 16 ≤ left.toNat ∧
      ∃ len, read32 e buf off = some len ∧ 16 ≤ len.toNat ∧ len.toNat ≤ left.toNat := by
  unfold nlmsgOk at h
  split at h
  · cases h
  · rename_i hleft
    rw [UInt32.lt_iff_toNat_lt] at hleft
    cases hread : read32 e buf off with
    | none => simp [hread] at h
    | some len =>
      simp only [hread, Option.bind_eq_bind, Option.bind_some, Option.pure_def, Option.some.injEq,
        Bool.and_eq_true, decide_eq_true_eq, ge_iff_le, UInt32.le_iff_toNat_le] at h
      exact ⟨Nat.le_of_not_lt hleft, len, rfl, h⟩

/-- What it takes for the walk to go on. -/
theorem nlTurn_inv {e : Endian} {buf : List UInt8} {p q : NlPos} {info : Option LinkInfo}
    (h : nlTurn e buf p = some (.next info q)) :
    nlmsgOk e buf p.off (UInt32.ofInt p.n) = some true ∧
      ∃ type, read16 e buf (p.off + 4) = some type ∧ type ≠ nlmsgDone ∧ type ≠ nlmsgError := by
  unfold nlTurn at h
  simp only [Option.bind_eq_bind, Option.bind_eq_some_iff] at h
  obtain ⟨ok, hok, h⟩ := h
  cases ok with
  | false => simp at h
  | true =>
    refine ⟨hok, ?_⟩
    simp only [Bool.not_true, Bool.false_eq_true, if_false, Option.bind_eq_some_iff] at h
    obtain ⟨len, -, type, htype, h⟩ := h
    refine ⟨type, htype, ?_, ?_⟩
    · rintro rfl
      simp at h
    · rintro rfl
      simp [nlmsgError, nlmsgDone] at h

/-! ## The walk -/

/-- Whole messages with their padding, none of which ends the walk. -/
inductive PlainRun (e : Endian) : List UInt8 → Prop
  | nil : PlainRun e []
  | snoc {bs : List UInt8} {m : NlMsg} {pad : List UInt8} : PlainRun e bs → m.Plain →
    pad.length = m.padLen → PlainRun e (bs ++ (m.bytes e ++ pad))

/-- Whole messages and then one without all of its padding, none of which ends the walk. -/
def CutPadding (e : Endian) (bytes : List UInt8) : Prop :=
  ∃ bs m cut, PlainRun e bs ∧ NlMsg.Plain m ∧ cut.length < m.padLen ∧
    bytes = bs ++ (m.bytes e ++ cut)

/-- Every header that the walk over `n` bytes looks at, and every message it takes for one, lies
inside these bytes. -/
def StaysInside (e : Endian) (buf : List UInt8) (n : Nat) : Prop :=
  ∀ p, Reached e buf n p → 16 ≤ (UInt32.ofInt p.n).toNat → p.off + nlmsgHdrlen ≤ n ∧
    ∀ len, read32 e buf p.off = some len → nlmsgOk e buf p.off (UInt32.ofInt p.n) = some true →
      p.off + len.toNat ≤ n

theorem bytes32_load32 (e : Endian) (b0 b1 b2 b3 : UInt8) :
    e.bytes32 (e.load32 b0 b1 b2 b3) = [b0, b1, b2, b3] := by
  cases e with
  | big => exact be32_load32 b0 b1 b2 b3
  | little =>
    have hbytes := be32_load32 b3 b2 b1 b0
    simp only [be32, List.cons.injEq, and_true] at hbytes
    rw [load32_little_eq, Endian.bytes32, hbytes.1, hbytes.2.1, hbytes.2.2.1, hbytes.2.2.2]

/-- Where the test of a header succeeds, a message starts. -/
theorem exists_msg {e : Endian} {tail : List UInt8} (hlt : tail.length < 2 ^ 31) {len : UInt32}
    (hread : read32 e tail 0 = some len) (hmin : 16 ≤ len.toNat) (hin : len.toNat ≤ tail.length) :
    ∃ (m : NlMsg) (post : List UInt8),
      tail = m.bytes e ++ post ∧ 6 + m.rest.length = len.toNat := by
  match tail with
  | [] | [_] | [_, _] | [_, _, _] | [_, _, _, _] | [_, _, _, _, _] => simp at hin; omega
  | b0 :: b1 :: b2 :: b3 :: t0 :: t1 :: more =>
    obtain rfl : e.load32 b0 b1 b2 b3 = len := Option.some.inj hread
    simp only [List.length_cons] at hin hlt
    generalize hn : (e.load32 b0 b1 b2 b3).toNat = n at hmin hin
    have hrest : (more.take (n - 6)).length = n - 6 := by
      rw [List.length_take]
      omega
    refine ⟨⟨e.load16 t0 t1, more.take (n - 6), by omega, by omega⟩, more.drop (n - 6), ?_, ?_⟩
    · have hfield : UInt32.ofNat (6 + (more.take (n - 6)).length) = e.load32 b0 b1 b2 b3 := by
        rw [hrest, Nat.add_sub_cancel' (by omega), ← hn, UInt32.ofNat_toNat]
      simp only [NlMsg.bytes, hfield, bytes32_load32, bytes16_load16]
      simp
    · rw [hrest]
      omega

section
variable {e : Endian} {bytes stale : List UInt8} (hmax : bytes.length ≤ 16384)
include hmax

/-- A whole message in the bytes received is stepped over. -/
theorem Reached.step {bs post : List UInt8} {m : NlMsg} (hplain : m.Plain)
    (hbytes : bytes = bs ++ (m.bytes e ++ post))
    (h : Reached e (bytes ++ stale) bytes.length ⟨bs.length, bytes.length - bs.length⟩) :
    Reached e (bytes ++ stale) bytes.length ⟨bs.length + (6 + m.rest.length + m.padLen),
      bytes.length - (bs.length + (6 + m.rest.length + m.padLen) : Nat)⟩ := by
  have hlen : bytes.length = bs.length + (6 + m.rest.length + post.length) := by
    rw [hbytes, List.length_append, List.length_append, NlMsg.length_bytes]
  have hleft : (bytes.length - bs.length : Int) = ((bytes.length - bs.length : Nat) : Int) := by
    omega
  have hfit : 6 + m.rest.length ≤ (UInt32.ofInt (bytes.length - bs.length)).toNat := by
    rw [hleft, ofInt_natCast (by omega)]
    omega
  obtain ⟨info, hturn⟩ : ∃ info, nlTurn e (bs ++ (m.bytes e ++ (post ++ stale))) _ = _ :=
    nlTurn_msg hfit hplain
  have hbuf : bs ++ (m.bytes e ++ (post ++ stale)) = bytes ++ stale := by
    rw [hbytes]
    simp
  rw [hbuf] at hturn
  have hnext := h.next hturn
  rwa [show (bytes.length - bs.length : Int) - (6 + m.rest.length + m.padLen : Nat) =
    bytes.length - (bs.length + (6 + m.rest.length + m.padLen) : Nat) by omega] at hnext

/-- The walk gets behind every run of whole messages. -/
theorem reached_run {bs post : List UInt8} (hrun : PlainRun e bs) (hbytes : bytes = bs ++ post) :
    Reached e (bytes ++ stale) bytes.length ⟨bs.length, bytes.length - bs.length⟩ := by
  induction hrun generalizing post with
  | nil => exact .start
  | @snoc bs m pad _ hplain hpad ih =>
    rw [List.append_assoc, List.append_assoc] at hbytes
    have hstep := (ih hbytes).step hmax hplain hbytes
    rwa [show bs.length + (6 + m.rest.length + m.padLen) = (bs ++ (m.bytes e ++ pad)).length by
      simp only [List.length_append, NlMsg.length_bytes, hpad]] at hstep

/-- A message that passes the test in the bytes left. -/
theorem msg_of_ok {bs post : List UInt8} (hbytes : bytes = bs ++ post)
    (hok : nlmsgOk e (bytes ++ stale) bs.length (UInt32.ofInt (post.length : Nat)) = some true) :
    16 ≤ post.length ∧ ∃ (m : NlMsg) (more : List UInt8), post = m.bytes e ++ more := by
  have hlen := congrArg List.length hbytes
  rw [List.length_append] at hlen
  obtain ⟨hleft, len, hread, hmin, hfit⟩ := nlmsgOk_inv hok
  rw [ofInt_natCast (by omega)] at hleft hfit
  have hpost : read32 e post 0 = some len := by
    have h0 : read32 e (bs ++ (post ++ stale)) (bs.length + 0) = some (word32 e post 0) :=
      read32_part e bs stale (by omega)
    have h1 : read32 e ([] ++ (post ++ [])) (0 + 0) = some (word32 e post 0) :=
      read32_part e [] [] (by omega)
    rw [hbytes, List.append_assoc] at hread
    rw [← hread]
    simpa using h1.trans h0.symm
  obtain ⟨m, more, hmsg, -⟩ := exists_msg (by omega) hpost hmin hfit
  exact ⟨hleft, m, more, hmsg⟩

/-- Without a message that lacks padding the walk only gets behind runs of whole messages. -/
theorem Reached.run (hcut : ¬ CutPadding e bytes) {p : NlPos}
    (h : Reached e (bytes ++ stale) bytes.length p) :
    ∃ bs post, PlainRun e bs ∧ bytes = bs ++ post ∧ p = ⟨bs.length, (post.length : Nat)⟩ := by
  induction h with
  | start => exact ⟨[], bytes, .nil, rfl, rfl⟩
  | @next p q info hp hturn ih =>
    obtain ⟨bs, post, hrun, hbytes, rfl⟩ := ih
    obtain ⟨hok, type, htype, hdone, herror⟩ := nlTurn_inv hturn
    obtain ⟨-, m, more, rfl⟩ := msg_of_ok hmax hbytes hok
    have hbuf : bytes ++ stale = bs ++ (m.bytes e ++ (more ++ stale)) := by
      rw [hbytes]
      simp
    rw [hbuf, read16_msg] at htype
    cases htype
    have hpad : m.padLen ≤ more.length := by
      by_contra hshort
      exact hcut ⟨bs, m, more, hrun, ⟨hdone, herror⟩, by omega, hbytes⟩
    have hlen := congrArg List.length hbytes
    simp only [List.length_append, NlMsg.length_bytes] at hlen
    have hleft : 6 + m.rest.length ≤ (UInt32.ofInt ((m.bytes e ++ more).length : Nat)).toNat := by
      rw [ofInt_natCast (by rw [List.length_append, NlMsg.length_bytes]; omega),
        List.length_append, NlMsg.length_bytes]
      omega
    obtain ⟨info', hturn'⟩ := nlTurn_msg (e := e) hleft ⟨hdone, herror⟩
    rw [hbuf] at hturn
    cases hturn.symm.trans hturn'
    refine ⟨bs ++ (m.bytes e ++ more.take m.padLen), more.drop m.padLen,
      hrun.snoc ⟨hdone, herror⟩ (by simp [hpad]), by rw [hbytes]; simp, ?_⟩
    simp only [List.length_append, NlMsg.length_bytes, List.length_take, List.length_drop,
      Nat.min_eq_left hpad, NlPos.mk.injEq, true_and]
    omega

end

/-- **Where the dump's walk stays.** On every content of the bytes received, and of the buffer
behind them, the walk looks only at headers and messages inside the bytes received exactly if these
are not whole messages followed by one without all of its padding. -/
theorem dump_staysInside_iff (e : Endian) {bytes stale : List UInt8}
    (hmax : bytes.length ≤ 16384) :
    StaysInside e (bytes ++ stale) bytes.length ↔ ¬ CutPadding e bytes := by
  constructor
  · rintro h ⟨bs, m, cut, hrun, hplain, hshort, hbytes⟩
    have hreached : Reached e (bytes ++ stale) bytes.length ⟨bs.length, bytes.length - bs.length⟩ :=
      reached_run hmax hrun hbytes
    have hend := hreached.step hmax hplain hbytes
    have hlen := congrArg List.length hbytes
    simp only [List.length_append, NlMsg.length_bytes] at hlen
    have hpad : m.padLen < 4 := Nat.mod_lt _ (by decide)
    -- the bytes left are negative, and pass as an unsigned number
    have hwrap : 16 ≤ (UInt32.ofInt (bytes.length -
        (bs.length + (6 + m.rest.length + m.padLen) : Nat))).toNat := by
      rw [UInt32.ofInt, UInt32.toNat_ofNat']
      omega
    have hinside := (h _ hend hwrap).1
    unfold nlmsgHdrlen at hinside
    simp only at hinside
    omega
  · intro hcut p hp hleft
    obtain ⟨bs, post, hrun, hbytes, rfl⟩ := hp.run hmax hcut
    have hlen := congrArg List.length hbytes
    rw [List.length_append] at hlen
    simp only [ofInt_natCast (show post.length < 2 ^ 32 by omega)] at hleft ⊢
    refine ⟨by unfold nlmsgHdrlen; omega, fun len hread hok => ?_⟩
    obtain ⟨-, len', hread', -, hfit⟩ := nlmsgOk_inv hok
    cases hread.symm.trans hread'
    rw [ofInt_natCast (by omega)] at hfit
    omega

theorem PlainRun.dvd_length {e : Endian} {bs : List UInt8} (h : PlainRun e bs) :
    4 ∣ bs.length := by
  induction h with
  | nil => exact Nat.dvd_zero 4
  | snoc _ _ hpad ih =>
    rw [NlMsg.padLen] at hpad
    simp only [List.length_append, NlMsg.length_bytes]
    omega

/-- Padding is only missing where the number of bytes received is no multiple of four. -/
theorem CutPadding.not_dvd_length {e : Endian} {bytes : List UInt8} (h : CutPadding e bytes) :
    ¬ 4 ∣ bytes.length := by
  obtain ⟨bs, m, cut, hrun, -, hshort, rfl⟩ := h
  have hdvd := hrun.dvd_length
  rw [NlMsg.padLen] at hshort
  simp only [List.length_append, NlMsg.length_bytes]
  omega

/-- One message about a link, of 32 bytes. -/
theorem dump_staysInside_link : StaysInside .little
    ([32, 0, 0, 0, 16, 0, 2, 0, 1, 0, 0, 0, 0, 0, 0, 0, 0, 0, 1, 0, 7, 0, 0, 0, 0, 0, 0, 0,
      0, 0, 0, 0] ++ []) 32 := by
  have hmax : [32, 0, 0, 0, 16, 0, 2, 0, 1, 0, 0, 0, 0, 0, 0, 0, 0, 0, 1, 0, 7, 0, 0, 0, 0, 0, 0,
      0, 0, 0, 0, (0 : UInt8)].length ≤ 16384 := by decide
  exact (dump_staysInside_iff .little hmax).2 fun hcut => hcut.not_dvd_length (by decide)

/-- A message of 17 bytes, its padding not received, in front of a message that an earlier dump left
in the buffer: the walk takes that one too, at byte 20 with -3 bytes left. -/
theorem dump_leaves :
    let bytes := [17, 0, 0, 0, 16, 0, 2, 0, 1, 0, 0, 0, 0, 0, 0, 0, 0]
    let stale := [0, 0, 0, 32, 0, 0, 0, 16, 0, 2, 0, 1, 0, 0, 0, 0, 0, 0, 0] ++
      List.replicate 16348 (0 : UInt8)
    Reached .little (bytes ++ stale) bytes.length ⟨20, -3⟩ ∧
    nlmsgOk .little (bytes ++ stale) 20 (UInt32.ofInt (-3)) = some true ∧
    ¬ StaysInside .little (bytes ++ stale) bytes.length := by
  intro bytes stale
  have hbytes : bytes = [] ++ ((⟨rtmNewlink, [2, 0, 1, 0, 0, 0, 0, 0, 0, 0, 0], by decide,
    by decide⟩ : NlMsg).bytes .little ++ []) := by decide
  have hreached : Reached .little (bytes ++ stale) bytes.length ⟨20, -3⟩ :=
    Reached.step (by decide) ⟨by decide, by decide⟩ hbytes .start
  refine ⟨hreached, rfl, fun h => ?_⟩
  have hinside := (h _ hreached (by decide)).1
  exact absurd hinside (by decide)

end Rewsr.Net
