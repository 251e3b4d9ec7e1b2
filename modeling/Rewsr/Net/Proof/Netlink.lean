import Mathlib.Data.List.Induction
import Rewsr.Net.Netlink
import Rewsr.Net.Proof.Parse

/-!
# A link message is the fold of its attributes

`RtAttr` is an attribute with its padding, and `RtAttr.apply` what it does to the information of a
link. On a message that holds attributes one after the other the walk applies each in turn
(`nlWalk_attr`, `nlWalk_serialize`) and stops where no further attribute fits (`nlWalk_stop`).
`foldl_last` then says what is left of the attributes in each field: the last one that sets it
(`lastWins_foldl`). `nlParseLink_fold` puts the two together.
-/

namespace Rewsr.Net

/-! ## Fields in the host's order -/

theorem load16_bytes16 (e : Endian) (v : UInt16) :
    ∃ b0 b1, e.bytes16 v = [b0, b1] ∧ e.load16 b0 b1 = v := by
  cases e with
  | big => exact ⟨_, _, rfl, load16_be16 v⟩
  | little => exact ⟨_, _, rfl, (UInt16.or_comm ..).trans (load16_be16 v)⟩

theorem load32_bytes32 (e : Endian) (v : UInt32) :
    ∃ b0 b1 b2 b3, e.bytes32 v = [b0, b1, b2, b3] ∧ e.load32 b0 b1 b2 b3 = v := by
  cases e with
  | big => exact ⟨_, _, _, _, rfl, load32_be32 v⟩
  | little => exact ⟨_, _, _, _, rfl, (load32_little_eq ..).trans (load32_be32 v)⟩

@[simp] theorem length_bytes16 (e : Endian) (v : UInt16) : (e.bytes16 v).length = 2 := by
  cases e <;> rfl

@[simp] theorem length_bytes32 (e : Endian) (v : UInt32) : (e.bytes32 v).length = 4 := by
  cases e <;> rfl

/-! ## Reads of a part of a message -/

/-- The loads from a byte string alone. -/
def word32 (e : Endian) (bs : List UInt8) (i : Nat) : UInt32 :=
  e.load32 (bs.getD i 0) (bs.getD (i + 1) 0) (bs.getD (i + 2) 0) (bs.getD (i + 3) 0)

def word64 (e : Endian) (bs : List UInt8) (i : Nat) : UInt64 :=
  e.load64 (bs.getD i 0) (bs.getD (i + 1) 0) (bs.getD (i + 2) 0) (bs.getD (i + 3) 0)
    (bs.getD (i + 4) 0) (bs.getD (i + 5) 0) (bs.getD (i + 6) 0) (bs.getD (i + 7) 0)

def firstMac (bs : List UInt8) : Mac :=
  ⟨bs.getD 0 0, bs.getD 1 0, bs.getD 2 0, bs.getD 3 0, bs.getD 4 0, bs.getD 5 0⟩

section
variable (e : Endian) (pre : List UInt8) {buf : List UInt8} (post : List UInt8) {i : Nat}

theorem getElem?_part (h : i < buf.length) :
    (pre ++ (buf ++ post))[pre.length + i]? = some (buf.getD i 0) := by
  rw [List.getElem?_append_right (by omega), Nat.add_sub_cancel_left, List.getElem?_append_left h,
    List.getElem?_eq_getElem h, List.getD_eq_getElem?_getD, List.getElem?_eq_getElem h,
    Option.getD_some]

theorem read8_part (h : 1 ≤ buf.length) :
    read8 (pre ++ (buf ++ post)) pre.length = some (buf.getD 0 0) := getElem?_part pre post h

theorem read32_part (h : i + 4 ≤ buf.length) :
    read32 e (pre ++ (buf ++ post)) (pre.length + i) = some (word32 e buf i) := by
  simp (disch := omega) only [read32, Nat.add_assoc, getElem?_part, Option.bind_eq_bind,
    Option.bind_some]
  rfl

theorem read64_part (h : i + 8 ≤ buf.length) :
    read64 e (pre ++ (buf ++ post)) (pre.length + i) = some (word64 e buf i) := by
  simp (disch := omega) only [read64, Nat.add_assoc, getElem?_part, Option.bind_eq_bind,
    Option.bind_some]
  rfl

theorem readMac_part (h : 6 ≤ buf.length) :
    readMac (pre ++ (buf ++ post)) pre.length = some (firstMac buf) := by
  have h0 := getElem?_part pre post (show 0 < buf.length by omega)
  rw [Nat.add_zero] at h0
  simp (disch := omega) only [readMac, read8, h0, getElem?_part, Option.bind_eq_bind,
    Option.bind_some]
  rfl

/-- A 16-bit field of the message. -/
theorem read16_part (v : UInt16) :
    read16 e (pre ++ (e.bytes16 v ++ post)) pre.length = some v := by
  obtain ⟨b0, b1, hbytes, hload⟩ := load16_bytes16 e v
  simp [read16, hbytes, hload]

end

/-! ## Attributes -/

/-- An attribute and the bytes behind its payload up to a multiple of four. -/
structure RtAttr where
  type : UInt16
  payload : List UInt8
  pad : List UInt8
  fits : payload.length ≤ 65531
  aligned : pad.length = (4 - payload.length % 4) % 4

namespace RtAttr

/-- The bytes of an attribute without its padding. -/
def bytes (e : Endian) (a : RtAttr) : List UInt8 :=
  e.bytes16 (UInt16.ofNat (4 + a.payload.length)) ++ (e.bytes16 a.type ++ a.payload)

/-- An attribute of type `type` with a payload of at least `n` bytes. -/
def isLong (type : UInt16) (n : Nat) (a : RtAttr) : Bool := a.type = type ∧ n ≤ a.payload.length

/-- What an attribute does to the information of a link. -/
def apply (e : Endian) (out : LinkInfo) (a : RtAttr) : LinkInfo :=
  if a.isLong iflaIfname 0 then
    { out with name := a.payload.take 15 ++ [0] ++ out.name.drop (min 15 a.payload.length + 1) }
  else if a.isLong iflaMtu 4 then { out with mtu := word32 e a.payload 0 }
  else if a.isLong iflaOperstate 1 then { out with operState := a.payload.getD 0 0 }
  else if a.isLong iflaAddress 6 then { out with mac := firstMac a.payload, hasMac := true }
  else if a.isLong iflaStats64 32 then
    { out with
      rxPackets := word64 e a.payload 0
      txPackets := word64 e a.payload 8
      rxBytes := word64 e a.payload 16
      txBytes := word64 e a.payload 24
      hasStats := true }
  else out

theorem length_bytes (e : Endian) (a : RtAttr) : (a.bytes e).length = 4 + a.payload.length := by
  simp [bytes]
  omega

theorem len_toNat (a : RtAttr) :
    (UInt16.ofNat (4 + a.payload.length)).toNat = 4 + a.payload.length := by
  have hfits := a.fits
  exact UInt16.toNat_ofNat_of_lt' (by simp [UInt16.size]; omega)

/-- The walk steps over the padding. -/
theorem rtaAlign_len (a : RtAttr) : rtaAlign (UInt16.ofNat (4 + a.payload.length)) =
    4 + a.payload.length + a.pad.length := by
  have haligned := a.aligned
  rw [rtaAlign_eq, len_toNat]
  omega

/-- The name keeps its sixteen bytes. -/
theorem length_apply_name (e : Endian) (a : RtAttr) {out : LinkInfo} (h : out.name.length = 16) :
    (a.apply e out).name.length = 16 := by
  unfold apply
  split
  · simp [h]
    omega
  · split_ifs <;> exact h

end RtAttr

/-- The name the code stores. -/
theorem nlAttr_ifname (e : Endian) (pre : List UInt8) {payload : List UInt8} (post : List UInt8)
    {out : LinkInfo} (hname : out.name.length = 16) :
    nlAttr e (pre ++ (payload ++ post)) pre.length payload.length iflaIfname out =
      some { out with
        name := payload.take 15 ++ [0] ++ out.name.drop (min 15 payload.length + 1) } := by
  have hn : (if payload.length ≥ 16 then 16 - 1 else payload.length) = min 15 payload.length := by
    split <;> omega
  generalize hm : min 15 payload.length = n at hn
  have hle : n ≤ payload.length := by omega
  have htake : payload.take 15 = payload.take n := by
    rw [← hm, List.take_eq_take_iff]
    omega
  have hlen : (payload.take n).length = n := by simp [hle]
  have hread : readN (pre ++ (payload ++ post)) pre.length n = some (payload.take n) := by
    have hsplit : payload ++ post = payload.take n ++ (payload.drop n ++ post) := by
      rw [← List.append_assoc, List.take_append_drop]
    rw [hsplit, readN_append rfl hlen.symm]
  have hcopy : writeN out.name 0 (payload.take n) = some (payload.take n ++ out.name.drop n) := by
    rw [writeN, hlen, if_pos (by omega), List.take_zero, List.nil_append, Nat.zero_add]
  have hend : writeN (payload.take n ++ out.name.drop n) n [0] =
      some (payload.take n ++ [0] ++ out.name.drop (n + 1)) := by
    rw [writeN, if_pos (by simp [hname]; omega), List.take_left' hlen, List.length_singleton,
      List.drop_append, hlen, List.drop_eq_nil_of_le (by omega), List.nil_append,
      List.drop_drop, Nat.add_sub_cancel_left]
  unfold nlAttr
  rw [if_pos rfl, hn, htake]
  simp only [hread, Option.bind_eq_bind, Option.bind_some, hcopy, hend]
  rfl

/-- The `switch` does what the attribute says. -/
theorem nlAttr_eq (e : Endian) (pre : List UInt8) (a : RtAttr) (post : List UInt8) {out : LinkInfo}
    (hname : out.name.length = 16) :
    nlAttr e (pre ++ (a.payload ++ post)) pre.length a.payload.length a.type out =
      some (a.apply e out) := by
  by_cases hifname : a.type = iflaIfname
  · have hlong : a.isLong iflaIfname 0 = true := by simp [RtAttr.isLong, hifname]
    rw [RtAttr.apply, if_pos hlong, hifname]
    exact nlAttr_ifname e pre post hname
  · have h32 : 0 + 4 ≤ a.payload.length → _ := read32_part e pre post
    have h64 : ∀ i, i + 8 ≤ a.payload.length → _ := fun _ => read64_part e pre post
    have h64₀ := h64 0
    simp only [Nat.add_zero, Nat.zero_add] at h32 h64₀
    unfold nlAttr RtAttr.apply RtAttr.isLong
    simp only [hifname, if_false, false_and, decide_false, Bool.false_eq_true, decide_eq_true_eq]
    by_cases hmtu : a.type = iflaMtu
    · rw [hmtu]
      by_cases hlen : 4 ≤ a.payload.length
      · simp [hlen, h32 hlen]
      · simp [hlen, iflaMtu, iflaOperstate, iflaAddress, iflaStats64]
    by_cases hoper : a.type = iflaOperstate
    · rw [hoper]
      by_cases hlen : 1 ≤ a.payload.length
      · simp [hlen, read8_part pre post hlen, iflaMtu, iflaOperstate]
      · simp [hlen, iflaMtu, iflaOperstate, iflaAddress, iflaStats64]
    by_cases haddr : a.type = iflaAddress
    · rw [haddr]
      by_cases hlen : 6 ≤ a.payload.length
      · simp [hlen, readMac_part pre post hlen, iflaMtu, iflaOperstate, iflaAddress]
      · simp [hlen, iflaMtu, iflaOperstate, iflaAddress, iflaStats64]
    by_cases hstats : a.type = iflaStats64
    · rw [hstats]
      by_cases hlen : 32 ≤ a.payload.length
      · simp [hlen, h64₀ (by omega), h64 8 (by omega), h64 16 (by omega), h64 24 (by omega),
          iflaMtu, iflaOperstate, iflaAddress, iflaStats64]
      · simp [hlen, iflaMtu, iflaOperstate, iflaAddress, iflaStats64]
    simp [hmtu, hoper, haddr, hstats]

/-! ## The walk -/

/-- No attribute starts here: the header is cut off, or its length is below a header's or beyond the
end. -/
def NoAttr (e : Endian) (tail : List UInt8) : Prop :=
  tail.length < rtattrLen ∨
    ∃ len, read16 e tail 0 = some len ∧ (len.toNat < rtattrLen ∨ tail.length < len.toNat)

theorem read16_drop (e : Endian) (msg : List UInt8) (i : Nat) :
    read16 e (msg.drop i) 0 = read16 e msg i := by
  simp only [read16, List.getElem?_drop, Nat.add_zero, Nat.zero_add]

theorem nlWalk_stop {e : Endian} {msg : List UInt8} {off : Nat} {out : LinkInfo}
    (h : NoAttr e (msg.drop off)) : nlWalk e msg off out = some out := by
  rw [nlWalk]
  by_cases hoff : off + rtattrLen ≤ msg.length
  · have hroom : off + 2 + 1 < msg.length := hoff
    rw [if_pos hoff, read16_load hroom]
    rcases h with hshort | ⟨len, hlen, hbad⟩
    · rw [List.length_drop] at hshort
      omega
    · rw [read16_drop] at hlen
      rw [List.length_drop] at hbad
      simp only [hlen]
      rw [if_pos (by omega)]
  · rw [if_neg hoff]

/-- One turn of the loop applies the attribute and steps over its padding. -/
theorem nlWalk_attr {e : Endian} {pre : List UInt8} {a : RtAttr} {post : List UInt8}
    {out : LinkInfo} (hname : out.name.length = 16) :
    nlWalk e (pre ++ (a.bytes e ++ post)) pre.length out =
      nlWalk e (pre ++ (a.bytes e ++ post))
        (pre.length + (4 + a.payload.length + a.pad.length)) (a.apply e out) := by
  have hlen := RtAttr.length_bytes e a
  have hrtaLen : read16 e (pre ++ (a.bytes e ++ post)) pre.length =
      some (UInt16.ofNat (4 + a.payload.length)) := by
    rw [RtAttr.bytes, List.append_assoc]
    exact read16_part e pre _ _
  have hrtaType : read16 e (pre ++ (a.bytes e ++ post)) (pre.length + 2) = some a.type := by
    have hread := read16_part e (pre ++ e.bytes16 (UInt16.ofNat (4 + a.payload.length)))
      (a.payload ++ post) a.type
    simpa [RtAttr.bytes] using hread
  have hattr : nlAttr e (pre ++ (a.bytes e ++ post)) (pre.length + rtattrLen) a.payload.length
      a.type out = some (a.apply e out) := by
    have hpart := nlAttr_eq e
      (pre ++ (e.bytes16 (UInt16.ofNat (4 + a.payload.length)) ++ e.bytes16 a.type)) a post hname
    simpa [RtAttr.bytes, rtattrLen] using hpart
  conv_lhs => rw [nlWalk]
  rw [if_pos (by simp [hlen, rtattrLen]; omega), hrtaLen, hrtaType]
  simp only [RtAttr.len_toNat, RtAttr.rtaAlign_len, rtattrLen, Nat.add_sub_cancel_left]
  rw [if_neg (by simp [hlen]), show pre.length + 4 = pre.length + rtattrLen from rfl, hattr]

/-- The attributes one after the other, each with its padding. -/
def serialize (e : Endian) (as : List RtAttr) : List UInt8 :=
  as.flatMap fun a => a.bytes e ++ a.pad

/-- The walk applies the attributes from left to right. -/
theorem nlWalk_serialize {e : Endian} {as : List RtAttr} {pre post : List UInt8} {out : LinkInfo}
    (hname : out.name.length = 16) :
    nlWalk e (pre ++ (serialize e as ++ post)) pre.length out =
      nlWalk e (pre ++ (serialize e as ++ post)) (pre.length + (serialize e as).length)
        (as.foldl (RtAttr.apply e) out) := by
  induction as generalizing pre out with
  | nil => rfl
  | cons a as ih =>
    have hmsg : pre ++ (serialize e (a :: as) ++ post) =
        (pre ++ (a.bytes e ++ a.pad)) ++ (serialize e as ++ post) := by
      simp [serialize]
    have hmsg' : pre ++ (serialize e (a :: as) ++ post) =
        pre ++ (a.bytes e ++ (a.pad ++ (serialize e as ++ post))) := by
      simp [serialize]
    have hend : pre.length + (serialize e (a :: as)).length =
        (pre ++ (a.bytes e ++ a.pad)).length + (serialize e as).length := by
      simp [serialize]
      omega
    have hnext : pre.length + (4 + a.payload.length + a.pad.length) =
        (pre ++ (a.bytes e ++ a.pad)).length := by
      simp [RtAttr.length_bytes]
    rw [List.foldl_cons, hend]
    conv_lhs => rw [hmsg', nlWalk_attr hname, ← hmsg', hnext]
    rw [hmsg, ih (a.length_apply_name e hname)]

/-! ## Last one wins -/

section
variable {σ α β : Type*} {p : α → Bool} {f : σ → α → σ}

/-- What every element with `p` establishes for itself and every other element keeps holds of the
last element with `p` after a fold. -/
theorem foldl_last {R : Option α → σ → Prop} {s : σ} (hinit : R none s)
    (hset : ∀ s a, p a → R (some a) (f s a)) (hkeep : ∀ o s a, ¬ p a → R o s → R o (f s a))
    (l : List α) : R (l.filter p).getLast? (l.foldl f s) := by
  induction l using List.reverseRecOn with
  | nil => exact hinit
  | append_singleton l a ih =>
    rw [List.foldl_append, List.filter_append]
    by_cases ha : p a
    · simpa [ha] using hset _ a ha
    · simpa [ha] using hkeep _ _ a ha ih

/-- A field that only the elements with `p` set. -/
theorem foldl_field {g : σ → β} {v : α → β} (h : ∀ s a, g (f s a) = if p a then v a else g s)
    (s : σ) (l : List α) : g (l.foldl f s) = (l.filter p).getLast?.elim (g s) v := by
  refine foldl_last (R := fun o t => g t = o.elim (g s) v) rfl ?_ ?_ l
  · intro t a ha
    rw [h, if_pos ha, Option.elim_some]
  · intro o t a ha ht
    rw [h, if_neg ha, ht]

end

/-- The address and the flag that says it is there. -/
def LinkInfo.address (info : LinkInfo) : Mac × Bool := (info.mac, info.hasMac)

/-- The counters and the flag that says they are there. -/
def LinkInfo.stats (info : LinkInfo) : UInt64 × UInt64 × UInt64 × UInt64 × Bool :=
  (info.rxPackets, info.txPackets, info.rxBytes, info.txBytes, info.hasStats)

/-- The last attribute of type `type` with at least `n` bytes. -/
def lastLong (as : List RtAttr) (type : UInt16) (n : Nat) : Option RtAttr :=
  (as.filter (RtAttr.isLong type n)).getLast?

/-- A name that starts with the first fifteen bytes of an attribute and a NUL. -/
def NameOf : Option RtAttr → List UInt8 → Prop
  | none, name => name = List.replicate 16 0
  | some a, name => a.payload.take 15 ++ [0] <+: name

/-- The information of a link with the given index: each field from the last attribute of its type
that is long enough. -/
structure LastWins (e : Endian) (index : Int) (as : List RtAttr) (info : LinkInfo) : Prop where
  index : info.index = index
  name : NameOf (lastLong as iflaIfname 0) info.name
  nameLen : info.name.length = 16
  mtu : info.mtu = (lastLong as iflaMtu 4).elim 0 fun a => word32 e a.payload 0
  operState : info.operState = (lastLong as iflaOperstate 1).elim 0 fun a => a.payload.getD 0 0
  address : info.address = (lastLong as iflaAddress 6).elim (⟨0, 0, 0, 0, 0, 0⟩, false) fun a =>
    (firstMac a.payload, true)
  stats : info.stats = (lastLong as iflaStats64 32).elim (0, 0, 0, 0, false) fun a =>
    (word64 e a.payload 0, word64 e a.payload 8, word64 e a.payload 16, word64 e a.payload 24, true)

namespace RtAttr

/-- An attribute has one type. -/
theorem isLong_ne {a : RtAttr} {t t' : UInt16} {n m : Nat} (h : a.isLong t n = true)
    (hne : t ≠ t') : a.isLong t' m = false := by
  simp only [isLong, decide_eq_true_eq] at h
  simp [isLong, h.1, hne]

variable (e : Endian) (out : LinkInfo) (a : RtAttr)

theorem apply_index : (a.apply e out).index = out.index := by
  unfold apply
  split_ifs <;> rfl

theorem apply_name {a : RtAttr} (h : ¬ a.isLong iflaIfname 0) :
    (a.apply e out).name = out.name := by
  unfold apply
  rw [if_neg h]
  split_ifs <;> rfl

theorem apply_mtu : (a.apply e out).mtu =
    if a.isLong iflaMtu 4 then word32 e a.payload 0 else out.mtu := by
  unfold apply
  split
  · next h => rw [isLong_ne h (by decide)]; rfl
  · split
    · rfl
    · split_ifs <;> rfl

theorem apply_operState : (a.apply e out).operState =
    if a.isLong iflaOperstate 1 then a.payload.getD 0 0 else out.operState := by
  unfold apply
  split
  · next h => rw [isLong_ne h (by decide)]; rfl
  split
  · next h => rw [isLong_ne h (by decide)]; rfl
  split
  · rfl
  · split_ifs <;> rfl

theorem apply_address : (a.apply e out).address =
    if a.isLong iflaAddress 6 then (firstMac a.payload, true) else out.address := by
  unfold apply
  split
  · next h => rw [isLong_ne h (by decide)]; rfl
  split
  · next h => rw [isLong_ne h (by decide)]; rfl
  split
  · next h => rw [isLong_ne h (by decide)]; rfl
  split
  · rfl
  · split_ifs <;> rfl

theorem apply_stats : (a.apply e out).stats =
    if a.isLong iflaStats64 32 then
      (word64 e a.payload 0, word64 e a.payload 8, word64 e a.payload 16, word64 e a.payload 24,
        true)
    else out.stats := by
  unfold apply
  split
  · next h => rw [isLong_ne h (by decide)]; rfl
  split
  · next h => rw [isLong_ne h (by decide)]; rfl
  split
  · next h => rw [isLong_ne h (by decide)]; rfl
  split
  · next h => rw [isLong_ne h (by decide)]; rfl
  · split_ifs <;> rfl

end RtAttr

/-- The information before the first attribute. -/
def initInfo (index : Int) : LinkInfo := { LinkInfo.zero with index }

theorem length_foldl_name {e : Endian} (as : List RtAttr) {out : LinkInfo}
    (hname : out.name.length = 16) : (as.foldl (RtAttr.apply e) out).name.length = 16 := by
  induction as generalizing out with
  | nil => exact hname
  | cons a as ih => exact ih (a.length_apply_name e hname)

theorem foldl_index {e : Endian} (as : List RtAttr) (out : LinkInfo) :
    (as.foldl (RtAttr.apply e) out).index = out.index := by
  induction as generalizing out with
  | nil => rfl
  | cons a as ih => exact (ih _).trans (RtAttr.apply_index e out a)

theorem foldl_name (e : Endian) (as : List RtAttr) (index : Int) :
    NameOf (lastLong as iflaIfname 0) (as.foldl (RtAttr.apply e) (initInfo index)).name := by
  refine foldl_last (R := fun o (info : LinkInfo) => NameOf o info.name) (s := initInfo index) rfl
    ?_ ?_ as
  · intro out a ha
    rw [RtAttr.apply, if_pos ha]
    exact List.prefix_append ..
  · intro o out a ha ho
    rw [RtAttr.apply_name e out ha]
    exact ho

theorem lastWins_foldl (e : Endian) (index : Int) (as : List RtAttr) :
    LastWins e index as (as.foldl (RtAttr.apply e) (initInfo index)) where
  index := foldl_index as _
  name := foldl_name e as index
  nameLen := length_foldl_name as rfl
  mtu := foldl_field (RtAttr.apply_mtu e) _ as
  operState := foldl_field (RtAttr.apply_operState e) _ as
  address := foldl_field (RtAttr.apply_address e) _ as
  stats := foldl_field (RtAttr.apply_stats e) _ as

/-! ## Messages -/

/-- `struct rewsr_ifinfomsg`, the index as its 32 bits. -/
structure IfInfoMsg where
  family : UInt8
  pad : UInt8
  type : UInt16
  index : UInt32
  flags : UInt32
  change : UInt32

def IfInfoMsg.bytes (e : Endian) (hdr : IfInfoMsg) : List UInt8 :=
  [hdr.family, hdr.pad] ++ e.bytes16 hdr.type ++ e.bytes32 hdr.index ++ e.bytes32 hdr.flags ++
    e.bytes32 hdr.change

/-- The attributes of a message, the last one with its padding or without. -/
inductive Serialized (e : Endian) : List RtAttr → List UInt8 → Prop
  | padded (as : List RtAttr) : Serialized e as (serialize e as)
  | unpadded (as : List RtAttr) (a : RtAttr) :
    Serialized e (as ++ [a]) (serialize e as ++ a.bytes e)

theorem IfInfoMsg.length_bytes (e : Endian) (hdr : IfInfoMsg) :
    (hdr.bytes e).length = ifinfomsgLen := by
  simp [bytes, ifinfomsgLen]

theorem read32_index (e : Endian) (hdr : IfInfoMsg) (rest : List UInt8) :
    read32 e (hdr.bytes e ++ rest) 4 = some hdr.index := by
  obtain ⟨b0, b1, hbytes, -⟩ := load16_bytes16 e hdr.type
  obtain ⟨b2, b3, b4, b5, hindex, hload⟩ := load32_bytes32 e hdr.index
  simp [IfInfoMsg.bytes, read32, hbytes, hindex, hload]

theorem dvd_length_serialize (e : Endian) (as : List RtAttr) : 4 ∣ (serialize e as).length := by
  induction as with
  | nil => exact Nat.dvd_zero 4
  | cons a as ih =>
    have haligned := a.aligned
    have hlen : (serialize e (a :: as)).length =
        4 + a.payload.length + a.pad.length + (serialize e as).length := by
      simp [serialize, RtAttr.length_bytes]
      omega
    omega

/-- The bytes from the end of the attributes to the next multiple of four are skipped. -/
theorem nlWalk_serialized {e : Endian} {as : List RtAttr} (pre : List UInt8)
    {bs tail : List UInt8} {out : LinkInfo} (h : Serialized e as bs) (hname : out.name.length = 16)
    (hstop : NoAttr e (tail.drop ((4 - bs.length % 4) % 4))) :
    nlWalk e (pre ++ (bs ++ tail)) pre.length out = some (as.foldl (RtAttr.apply e) out) := by
  cases h with
  | padded =>
    have hpad : (4 - (serialize e as).length % 4) % 4 = 0 := by
      have hdvd := dvd_length_serialize e as
      omega
    rw [hpad, List.drop_zero] at hstop
    rw [nlWalk_serialize hname, nlWalk_stop]
    simpa using hstop
  | unpadded as a =>
    have hdvd := dvd_length_serialize e as
    have haligned := a.aligned
    have hpad : (4 - (serialize e as ++ a.bytes e).length % 4) % 4 = a.pad.length := by
      rw [List.length_append, RtAttr.length_bytes]
      omega
    have hmsg : pre ++ (serialize e as ++ (a.bytes e ++ tail)) =
        (pre ++ serialize e as) ++ (a.bytes e ++ tail) := by
      simp
    rw [hpad] at hstop
    rw [List.append_assoc, nlWalk_serialize hname, ← List.length_append, hmsg,
      nlWalk_attr (length_foldl_name as hname), List.foldl_append, List.foldl_cons, List.foldl_nil,
      nlWalk_stop]
    rw [List.drop_append, List.drop_eq_nil_of_le (by simp), List.nil_append,
      Nat.add_sub_cancel_left, ← RtAttr.length_bytes e a, ← List.drop_drop, List.drop_left]
    exact hstop

theorem noAttr_nil (e : Endian) : NoAttr e [] := .inl (by decide)

/-- A header alone is not read as an attribute at a later byte either. -/
theorem NoAttr.drop {e : Endian} {tail : List UInt8} (h : NoAttr e tail) (hlen : tail.length ≤ 4)
    (k : Nat) : NoAttr e (tail.drop k) := by
  cases k with
  | zero => exact h
  | succ k => exact .inl (by rw [List.length_drop, rtattrLen]; omega)

/-- An attribute of one of the types the code knows, and long enough for it. -/
def RtAttr.isKnown (a : RtAttr) : Bool :=
  a.isLong iflaIfname 0 || a.isLong iflaMtu 4 || a.isLong iflaOperstate 1 ||
    a.isLong iflaAddress 6 || a.isLong iflaStats64 32

theorem RtAttr.apply_of_not_isKnown {e : Endian} {out : LinkInfo} {a : RtAttr}
    (h : ¬ a.isKnown) : a.apply e out = out := by
  simp only [isKnown, Bool.or_eq_true, not_or] at h
  obtain ⟨⟨⟨⟨hname, hmtu⟩, hoper⟩, haddr⟩, hstats⟩ := h
  rw [apply, if_neg hname, if_neg hmtu, if_neg hoper, if_neg haddr, if_neg hstats]

/-- The information a message describes: its attributes applied from left to right. -/
def IfInfoMsg.info (e : Endian) (hdr : IfInfoMsg) (as : List RtAttr) : LinkInfo :=
  as.foldl (RtAttr.apply e) (initInfo (toInt hdr.index.toNat))

theorem nlParseLink_serialized {e : Endian} {hdr : IfInfoMsg} {as : List RtAttr}
    {bs tail : List UInt8} {out : LinkInfo} (h : Serialized e as bs)
    (hstop : NoAttr e (tail.drop ((4 - bs.length % 4) % 4))) :
    nlParseLink e (hdr.bytes e ++ (bs ++ tail)) out = some (0, hdr.info e as) := by
  have hlen := hdr.length_bytes e
  have hname : (initInfo (toInt hdr.index.toNat)).name.length = 16 := rfl
  have hwalk := nlWalk_serialized (hdr.bytes e) h hname hstop
  rw [hlen] at hwalk
  unfold nlParseLink
  rw [if_neg (by simp [hlen]), read32_index, Option.bind_eq_bind, Option.bind_some]
  exact Option.bind_eq_some_iff.mpr ⟨_, hwalk, rfl⟩

/-- A link message is read as the fold of its attributes, the last one of each kind wins, attributes
of other types or too short count for nothing, and neither does a header behind the attributes that
is cut off or has a bad length. -/
theorem nlParseLink_fold (e : Endian) (hdr : IfInfoMsg) (as : List RtAttr) :
    (∀ bs out, Serialized e as bs →
      nlParseLink e (hdr.bytes e ++ bs) out = some (0, hdr.info e as)) ∧
    (∀ bs tail out, Serialized e as bs → NoAttr e tail → tail.length ≤ 4 ∨ 4 ∣ bs.length →
      nlParseLink e (hdr.bytes e ++ (bs ++ tail)) out = some (0, hdr.info e as)) ∧
    LastWins e (toInt hdr.index.toNat) as (hdr.info e as) ∧
    hdr.info e (as.filter RtAttr.isKnown) = hdr.info e as := by
  refine ⟨fun bs out h => ?_, fun bs tail out h hstop hlen => nlParseLink_serialized h ?_,
    lastWins_foldl e _ as, ?_⟩
  · rw [← List.append_nil bs]
    exact nlParseLink_serialized (by simpa using h) (by simpa using noAttr_nil e)
  · rcases hlen with hlen | hdvd
    · exact hstop.drop hlen _
    · have hpad : (4 - bs.length % 4) % 4 = 0 := by omega
      simpa [hpad] using hstop
  · have happly : RtAttr.apply e = fun out a => if a.isKnown then a.apply e out else out := by
      funext out a
      split
      · rfl
      · next h => exact RtAttr.apply_of_not_isKnown h
    rw [IfInfoMsg.info, IfInfoMsg.info, List.foldl_filter, ← happly]

/-- Two names, the last one without its padding, and a header that is longer than the message. -/
theorem nlParseLink_fold_lo : ∃ as bs, Serialized .little as bs ∧ NoAttr .little [200, 0, 3, 0] ∧
    ∀ out, ∃ info, nlParseLink .little
      (IfInfoMsg.bytes .little ⟨0, 0, 1, 7, 0, 0⟩ ++ (bs ++ [200, 0, 3, 0])) out = some (0, info) ∧
      [108, 111, 0] <+: info.name ∧ info.index = 7 := by
  refine ⟨[⟨iflaIfname, [101, 116, 104, 48], [], by decide, by decide⟩] ++
    [⟨iflaIfname, [108, 111], [0, 0], by decide, by decide⟩], _, .unpadded _ _, ?_, fun out => ?_⟩
  · exact .inr ⟨200, by decide, by decide⟩
  · have hfold := nlParseLink_fold .little ⟨0, 0, 1, 7, 0, 0⟩
      ([⟨iflaIfname, [101, 116, 104, 48], [], by decide, by decide⟩] ++
        [⟨iflaIfname, [108, 111], [0, 0], by decide, by decide⟩])
    exact ⟨_, hfold.2.1 _ _ out (.unpadded _ _) (.inr ⟨200, by decide, by decide⟩)
      (.inl (by decide)), hfold.2.2.1.name,
      hfold.2.2.1.index.trans (by decide)⟩

end Rewsr.Net
