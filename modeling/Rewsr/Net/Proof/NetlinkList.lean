import Rewsr.Net.NetlinkList
import Rewsr.Net.Proof.NetlinkDump

/-!
# Listing the links

* `dump_lists`: of a dump in any number of datagrams, the callback gets every link the system
  describes, once and in order, up to the message that ends the dump.
* `nlListLinks_spec`: whatever the system answers, the descriptor is closed once.
-/

namespace Rewsr.Net

open Resource Rewsr.Sys

/-! ## The messages of a datagram -/

/-- Messages one after the other, each with its padding. -/
inductive Padded (e : Endian) : List NlMsg → List UInt8 → Prop
  | nil : Padded e [] []
  | cons {m : NlMsg} {ms : List NlMsg} {pad bs : List UInt8} : pad.length = m.padLen →
    Padded e ms bs → Padded e (m :: ms) (m.bytes e ++ (pad ++ bs))

variable {e : Endian}

/-- A header alone is 16 bytes. -/
theorem Padded.length_le {ms : List NlMsg} {bs : List UInt8} (h : Padded e ms bs) :
    16 * ms.length ≤ bs.length := by
  induction h with
  | nil => simp
  | @cons m ms pad bs hpad _ ih =>
    have hlong := m.long
    simp only [List.length_cons, List.length_append, NlMsg.length_bytes]
    omega

/-- The walk over messages that do not end it. -/
theorem nlMessages_padded {ms : List NlMsg} {bs : List UInt8} (h : Padded e ms bs)
    (hplain : ∀ m ∈ ms, m.Plain) (pre post : List UInt8) (left : Nat)
    (hleft : bs.length + left < 2 ^ 32) (rounds : Nat) (seen : List LinkInfo) :
    nlMessages e (pre ++ (bs ++ post)) (ms.length + rounds)
        ⟨pre.length, (bs.length + left : Nat)⟩ seen =
      nlMessages e (pre ++ (bs ++ post)) rounds ⟨(pre ++ bs).length, left⟩
        (seen ++ ms.filterMap (NlMsg.link e)) := by
  induction h generalizing pre seen with
  | nil => simp
  | @cons m ms pad bs hpad _ ih =>
    have hlen : (m.bytes e ++ (pad ++ bs)).length = 6 + m.rest.length + m.padLen + bs.length := by
      simp only [List.length_append, NlMsg.length_bytes, hpad]
      omega
    rw [hlen] at hleft
    have hturn : nlTurn e (pre ++ (m.bytes e ++ (pad ++ (bs ++ post))))
        ⟨pre.length, ((m.bytes e ++ (pad ++ bs)).length + left : Nat)⟩ =
          some (.next (m.link e) ⟨(pre ++ (m.bytes e ++ pad)).length, (bs.length + left : Nat)⟩) := by
      rw [nlTurn_link (by rw [ofInt_natCast (by omega), hlen]; omega)
        (hplain m List.mem_cons_self)]
      have hoff : pre.length + (6 + m.rest.length + m.padLen) =
          (pre ++ (m.bytes e ++ pad)).length := by
        simp only [List.length_append, NlMsg.length_bytes, hpad]
      have hn : (((m.bytes e ++ (pad ++ bs)).length + left : Nat) : Int) -
          (6 + m.rest.length + m.padLen : Nat) = (bs.length + left : Nat) := by
        rw [hlen]
        omega
      rw [hoff, hn]
    have hih := ih (fun m hm => hplain m (List.mem_cons_of_mem _ hm)) (pre ++ (m.bytes e ++ pad))
      (by omega) (seen ++ (m.link e).toList)
    rw [show (m :: ms).length + rounds = ms.length + rounds + 1 by
      rw [List.length_cons]
      omega, nlMessages]
    simp only [List.append_assoc] at hturn hih ⊢
    rw [hturn]
    simp only []
    rw [hih]
    cases hlink : m.link e <;> simp [hlink]

/-- The bytes of a datagram as the buffer has them. -/
theorem nlMessages_drained {ms : List NlMsg} {bs : List UInt8} (h : Padded e ms bs)
    (hplain : ∀ m ∈ ms, m.Plain) (stale : List UInt8) {rounds : Nat} (hmax : bs.length ≤ nlBufLen)
    (hrounds : nlBufLen / 16 < rounds) (seen : List LinkInfo) :
    nlMessages e (bs ++ stale) rounds ⟨0, bs.length⟩ seen =
      some (.drained, seen ++ ms.filterMap (NlMsg.link e)) := by
  have hms := h.length_le
  unfold nlBufLen at hmax hrounds
  obtain ⟨more, rfl⟩ : ∃ more, rounds = ms.length + (more + 1) := ⟨rounds - ms.length - 1, by omega⟩
  have hrun := nlMessages_padded h hplain [] stale 0 (by omega) (more + 1) seen
  rw [List.nil_append, List.nil_append] at hrun
  refine hrun.trans ?_
  rfl

/-- A datagram with the message that ends the dump. -/
theorem nlMessages_stop {ms : List NlMsg} {bs : List UInt8} {stop : NlMsg} {rest : List UInt8}
    (h : Padded e ms bs) (hplain : ∀ m ∈ ms, m.Plain) (hstop : ¬ stop.Plain) (stale : List UInt8)
    {rounds : Nat} (hmax : (bs ++ (stop.bytes e ++ rest)).length ≤ nlBufLen)
    (hrounds : nlBufLen / 16 < rounds) (seen : List LinkInfo) :
    nlMessages e (bs ++ (stop.bytes e ++ rest) ++ stale) rounds
        ⟨0, (bs ++ (stop.bytes e ++ rest)).length⟩ seen =
      some (if stop.type = nlmsgDone then .done else .error,
        seen ++ ms.filterMap (NlMsg.link e)) := by
  have hms := h.length_le
  unfold nlBufLen at hmax hrounds
  simp only [List.length_append, NlMsg.length_bytes] at hmax
  obtain ⟨more, rfl⟩ : ∃ more, rounds = ms.length + (more + 1) := ⟨rounds - ms.length - 1, by omega⟩
  have hrun := nlMessages_padded h hplain [] (stop.bytes e ++ (rest ++ stale))
    (6 + stop.rest.length + rest.length) (by omega) (more + 1) seen
  have hlen : (bs ++ (stop.bytes e ++ rest)).length =
      bs.length + (6 + stop.rest.length + rest.length) := by
    simp only [List.length_append, NlMsg.length_bytes]
  rw [List.nil_append, List.nil_append] at hrun
  rw [hlen, List.append_assoc, List.append_assoc]
  refine hrun.trans ?_
  rw [nlMessages, nlTurn_stop (by rw [ofInt_natCast (by omega)]; omega) hstop]
  by_cases hdone : stop.type = nlmsgDone
  · simp [hdone]
  · simp [hdone]

/-! ## A dump -/

/-- A datagram in the middle of a dump. -/
structure LinkDatagram (e : Endian) where
  msgs : List NlMsg
  bytes : List UInt8
  padded : Padded e msgs bytes
  plain : ∀ m ∈ msgs, m.Plain
  fits : bytes.length ≤ nlBufLen

/-- The last datagram of a dump, with anything after the message that ends it. -/
structure LastDatagram (e : Endian) where
  msgs : List NlMsg
  run : List UInt8
  stop : NlMsg
  rest : List UInt8
  padded : Padded e msgs run
  plain : ∀ m ∈ msgs, m.Plain
  ends : ¬ stop.Plain
  fits : (run ++ (stop.bytes e ++ rest)).length ≤ nlBufLen

def LastDatagram.bytes (d : LastDatagram e) : List UInt8 := d.run ++ (d.stop.bytes e ++ d.rest)

structure Dump (e : Endian) where
  datagrams : List (LinkDatagram e)
  last : LastDatagram e

namespace Dump

def recvs (d : Dump e) : List (List UInt8) := d.datagrams.map (·.bytes) ++ [d.last.bytes]

/-- The links of the dump, in order. -/
def links (d : Dump e) : List LinkInfo :=
  (d.datagrams.flatMap (·.msgs) ++ d.last.msgs).filterMap (NlMsg.link e)

def rc (d : Dump e) : Int := if d.last.stop.type = nlmsgDone then 0 else -eio

end Dump

/-- The system of a dump: a socket `fd`, and the datagrams that are still to be received. -/
def dumpHost (fd : Nat) (other : (r : SockReq) → r.Ans) :
    (r : SockReq) → List (List UInt8) → r.Ans × List (List UInt8)
  | .socket, ds => (.ok fd, ds)
  | .send .., ds => (.ok (), ds)
  | .recv _ cap, d :: ds => (.ok ⟨d.take cap, List.length_take_le cap d⟩, ds)
  | r, ds => (other r, ds)

section
variable {fd : Nat} {other : (r : SockReq) → r.Ans} {rounds : Nat}

theorem nlRecvs_last (d : LastDatagram e) (hrounds : nlBufLen / 16 < rounds) (recvs : Nat)
    (buf : List UInt8) (seen : List LinkInfo) (more : List (List UInt8)) :
    (nlRecvs e fd rounds (recvs + 1) buf seen).exec (dumpHost fd other) (d.bytes :: more) =
      (some (if d.stop.type = nlmsgDone then 0 else -eio,
        seen ++ d.msgs.filterMap (NlMsg.link e)), more) := by
  have hwalk := nlMessages_stop d.padded d.plain d.ends (buf.drop d.bytes.length) d.fits hrounds seen
  have htake : d.bytes.take nlBufLen = d.bytes := List.take_of_length_le d.fits
  rw [← LastDatagram.bytes] at hwalk
  refine Eq.trans Proc.exec_ask_bind ?_
  simp only [dumpHost, htake, hwalk]
  by_cases hdone : d.stop.type = nlmsgDone
  · simp only [hdone, if_true]
    rfl
  · simp only [hdone, if_false]
    rfl

theorem nlRecvs_dump (ds : List (LinkDatagram e)) (d : LastDatagram e)
    (hrounds : nlBufLen / 16 < rounds) {recvs : Nat} (hrecvs : ds.length < recvs)
    (buf : List UInt8) (seen : List LinkInfo) (more : List (List UInt8)) :
    (nlRecvs e fd rounds recvs buf seen).exec (dumpHost fd other)
        (ds.map (·.bytes) ++ d.bytes :: more) =
      (some (if d.stop.type = nlmsgDone then 0 else -eio,
        seen ++ (ds.flatMap (·.msgs) ++ d.msgs).filterMap (NlMsg.link e)), more) := by
  induction ds generalizing recvs buf seen with
  | nil =>
    obtain ⟨recvs, rfl⟩ : ∃ n, recvs = n + 1 := ⟨recvs - 1, by simp at hrecvs; omega⟩
    exact nlRecvs_last d hrounds recvs buf seen more
  | cons dg ds ih =>
    obtain ⟨recvs, rfl⟩ : ∃ n, recvs = n + 1 := ⟨recvs - 1, by simp at hrecvs; omega⟩
    have hwalk := nlMessages_drained dg.padded dg.plain (buf.drop dg.bytes.length) dg.fits hrounds
      seen
    have htake : dg.bytes.take nlBufLen = dg.bytes := List.take_of_length_le dg.fits
    refine Eq.trans Proc.exec_ask_bind ?_
    simp only [List.map_cons, List.cons_append, dumpHost, htake, hwalk]
    rw [ih (by simpa using hrecvs)]
    simp [List.append_assoc]

end

theorem dump_delivered (d : Dump e) (fd : Nat) (other : (r : SockReq) → r.Ans) (stale : List UInt8)
    (more : List (List UInt8)) {rounds recvs : Nat} (hrounds : nlBufLen / 16 < rounds)
    (hrecvs : d.datagrams.length < recvs) :
    (nlListLinks e stale rounds recvs).exec (dumpHost fd other) (d.recvs ++ more) =
      (some (d.rc, d.links), more) := by
  rw [Dump.recvs, List.append_assoc]
  exact nlRecvs_dump d.datagrams d.last hrounds hrecvs stale [] more

/-- What a message says: the link it describes, where it is about one. -/
inductive Describes (e : Endian) : NlMsg → Option (IfInfoMsg × List RtAttr) → Prop
  | other {m : NlMsg} : m.type ≠ rtmNewlink → Describes e m none
  | link {m : NlMsg} {hdr : IfInfoMsg} {as : List RtAttr} {bs : List UInt8} : m.type = rtmNewlink →
    Serialized e as bs → m.rest.drop 10 = hdr.bytes e ++ bs → Describes e m (some (hdr, as))

theorem Describes.link_eq {m : NlMsg} {o : Option (IfInfoMsg × List RtAttr)}
    (h : Describes e m o) : m.link e = o.map fun d => d.1.info e d.2 := by
  cases h with
  | other htype => rw [NlMsg.link, if_neg htype, Option.map_none]
  | @link hdr as bs htype hser hrest =>
    have hparse := @nlParseLink_serialized e hdr as bs [] LinkInfo.zero hser
      (by simpa using noAttr_nil e)
    rw [List.append_nil] at hparse
    rw [NlMsg.link, if_pos htype, hrest, hparse]
    rfl

theorem filterMap_link {ms : List NlMsg} {os : List (Option (IfInfoMsg × List RtAttr))}
    (h : List.Forall₂ (Describes e) ms os) :
    ms.filterMap (NlMsg.link e) = os.reduceOption.map fun d => d.1.info e d.2 := by
  induction h with
  | nil => rfl
  | @cons m o ms os hm _ ih =>
    rw [List.filterMap_cons, hm.link_eq]
    cases o with
    | none => exact ih
    | some d => exact congrArg _ ih

/-- **The dump of all links.** Whatever the grouping of the messages into datagrams, and whatever is
in the buffer before, the callback gets every link that the messages up to the one that ends the
dump describe, once and in order; the return value is that of the last message, and nothing that
comes later is received. -/
theorem dump_lists (d : Dump e) {os : List (Option (IfInfoMsg × List RtAttr))}
    (hos : List.Forall₂ (Describes e) (d.datagrams.flatMap (·.msgs) ++ d.last.msgs) os)
    (fd : Nat) (other : (r : SockReq) → r.Ans) (stale : List UInt8) (more : List (List UInt8))
    {rounds recvs : Nat} (hrounds : nlBufLen / 16 < rounds) (hrecvs : d.datagrams.length < recvs) :
    (nlListLinks e stale rounds recvs).exec (dumpHost fd other) (d.recvs ++ more) =
      (some (if d.last.stop.type = nlmsgDone then 0 else -eio,
        os.reduceOption.map fun d => d.1.info e d.2), more) := by
  rw [← filterMap_link hos]
  exact dump_delivered d fd other stale more hrounds hrecvs

/-- Two datagrams of a host whose one link is `lo`: a link message, and the end of the dump. -/
def loopbackDump : Dump .little where
  datagrams := [{
    msgs := [⟨rtmNewlink, [2, 0, 1, 0, 0, 0, 0, 0, 0, 0] ++
      (IfInfoMsg.bytes .little ⟨0, 0, 772, 1, 0, 0⟩ ++
        serialize .little [⟨iflaIfname, [108, 111, 0], [0], by decide, by decide⟩]),
      by decide, by decide⟩]
    bytes := _
    padded := .cons (show ([] : List UInt8).length = _ from rfl) .nil
    plain := by simp [NlMsg.Plain, rtmNewlink, nlmsgDone, nlmsgError]
    fits := by decide }]
  last := {
    msgs := []
    run := []
    stop := ⟨nlmsgDone, [2, 0, 1, 0, 0, 0, 0, 0, 0, 0, 0, 0, 0, 0], by decide, by decide⟩
    rest := []
    padded := .nil
    plain := by simp
    ends := fun h => h.1 rfl
    fits := by decide }

/-- Every call that can fail fails. -/
def refused : (r : SockReq) → r.Ans
  | .socket | .pthreadCreate _ => .error 1
  | .bind _ | .getsockname _ | .setsockopt _ | .send .. | .sendBlock .. | .ioctl .. | .recv .. =>
    .error 1
  | .alloc _ => none
  | .close _ | .store .. | .free _ | .setStop .. | .pthreadJoin .. => ()

theorem dump_lists_sample :
    (nlListLinks .little (List.replicate 16384 0) 1025 2).exec (dumpHost 3 refused)
      (loopbackDump.recvs ++ []) =
    (some (0, [IfInfoMsg.info .little ⟨0, 0, 772, 1, 0, 0⟩
      [⟨iflaIfname, [108, 111, 0], [0], by decide, by decide⟩]]), []) :=
  dump_lists loopbackDump (.cons (.link rfl (.padded _) rfl) .nil) 3 _ _ [] (by decide) (by decide)

/-! ## The descriptor -/

theorem close_spec {α : Type} (fd : Int) (a : α) :
    Spec (fun _ H => H = 0) (do sockcall (.close fd); return a) {.fd fd} :=
  ⟨trivial, 0, rfl, fun _ => rfl⟩

theorem nlRecvs_spec (fd : Int) (rounds recvs : Nat) (buf : List UInt8) (seen : List LinkInfo) :
    Spec (fun r H => r.isSome → H = 0) (nlRecvs e fd rounds recvs buf seen) {.fd fd} := by
  induction recvs generalizing buf seen with
  | zero => exact fun h => by cases h
  | succ recvs ih =>
    refine sockcall_keeps 0 trivial rfl (fun _ => rfl) fun a => ?_
    cases a with
    | error errno => exact (close_spec fd _).mono fun _ _ h _ => h
    | ok bytes =>
      simp only []
      split
      · exact fun h => by cases h
      · exact ih _ _
      · exact (close_spec fd _).mono fun _ _ h _ => h
      · exact (close_spec fd _).mono fun _ _ h _ => h

/-- **The descriptor** is closed on every way out, and used only while it is open. -/
theorem nlListLinks_spec (stale : List UInt8) (rounds recvs : Nat) :
    Spec (fun r H => r.isSome → H = 0) (nlListLinks e stale rounds recvs) 0 := by
  refine Spec.ask 0 trivial rfl fun a => ?_
  cases a with
  | error errno => exact fun _ => rfl
  | ok fd =>
    refine sockcall_keeps 0 trivial rfl (fun _ => rfl) fun a => ?_
    cases a with
    | error errno => exact (close_spec _ _).mono fun _ _ h _ => h
    | ok _ => exact nlRecvs_spec _ _ _ _ _

end Rewsr.Net
