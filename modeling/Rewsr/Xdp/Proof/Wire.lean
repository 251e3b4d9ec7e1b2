import Rewsr.Xdp.Proof.Area
import Rewsr.Xdp.Proof.Calls
import Rewsr.Xdp.Proof.Keeps
import Rewsr.Xdp.Wire

/-!
# Frames keep their bytes

The invariant of the record (`WireInv`), on top of the data path's: a frame that is queued, with
the kernel, or received and not yet recycled has the bytes it had when it came there. Userspace
writes only into chunks it has just popped from the pool and the kernel only into chunks it has
taken from the fill ring, and such a chunk holds no frame (`WireInv.unmoved`). What is left is one
preservation lemma for each kind of step, and from them a triple for each call.
-/

namespace Rewsr.Xdp

open Counter Interleave Rewsr.Ring

variable {κ : Type}

/-- Both sides in use, on a UMEM whose chunks are accounted for. -/
def duplex (numFrames chunkSize : UInt32) : Mode := ⟨True, False, False, numFrames, chunkSize⟩

/-- The frames queued and not taken, and those received and not passed on. -/
def txDescs (s : Xsk κ) : List XdpDesc := slots s.tx.at s.tx.consumer s.tx.cur
def rxDescs (s : Xsk κ) : List XdpDesc := slots s.rx.at s.rx.cur s.rx.producer

/-- The chunks that hold frames. -/
def live (s : Xsk κ) : List UInt64 := rxHeld s ++ (txHeld s ++ s.kernelTx)

/-- What the record says of a state. -/
structure WireInv (J : List (List UInt8) → List (List UInt8) → κ → Prop) (P : List UInt8 → Prop)
    (s : Xsk κ) (w : Wire) : Prop where
  frameSize : s.frameSize = s.pool.chunkSize
  txFits : ∀ d ∈ txDescs s, d.len.toNat ≤ s.pool.chunkSize.toNat
  rxFits : ∀ d ∈ rxDescs s,
    Inside s.pool.chunkSize (s.pool.chunkBase d.addr) d.addr d.len.toNat
  sent : w.sent = w.taken ++ (txDescs s).map (frameAt s.area)
  held : ∀ h ∈ w.held, h.1.addr ∈ s.kernelTx ∧ h.1.len.toNat ≤ s.pool.chunkSize.toNat ∧
    frameAt s.area h.1 = h.2 ∧ h.2 ∈ w.taken
  holds : ∀ a ∈ s.kernelTx, ∃ h ∈ w.held, h.1.addr = a
  posted : w.posted = w.delivered ++ (rxDescs s).map (frameAt s.area)
  heard : ∀ frame ∈ w.posted, P frame
  fed : s.fillSeen.length = s.kernelRx.length + ((rxDescs s).length + w.delivered.length)
  client : J w.sent w.delivered s.user

theorem logIf_same {V : Type} {a b : UInt32} (h : b = a) (v : V) (log : List V) :
    logIf a b v log = log := if_pos h

theorem logIf_succ {V : Type} (a : UInt32) (v : V) (log : List V) :
    logIf a (a + 1) v log = log ++ [v] := by
  refine if_neg fun h => ?_
  have := congrArg UInt32.toNat h
  rw [UInt32.toNat_add, UInt32.toNat_one] at this
  have := a.toNat_lt
  omega

/-! ## Chunks without frames -/

section
variable {m : Mode} {s : Xsk κ}

/-- A chunk in the pool or with the kernel for receiving holds no frame. -/
theorem Owned.not_live (h : Owned m s) {b : UInt64} (hb : b ∈ s.pool.stack ∨ b ∈ s.kernelRx) :
    b ∈ chunks s.pool.capacity.toNat s.pool.chunkSize ∧ b ∉ live s := by
  have hnodup := h.part.nodup_iff.1 (FramePool.nodup_chunks h.pool)
  have hplaces : places s = s.pool.stack ++ (fillHeld s ++ (s.kernelRx ++
      (live s ++ compHeld s))) := by
    simp only [places, live, List.append_assoc]
  rw [hplaces] at hnodup
  refine ⟨h.mem_chunks ?_, fun hlive => ?_⟩
  · rw [hplaces]
    simp only [List.mem_append]
    exact hb.elim .inl fun hk => .inr (.inr (.inl hk))
  · rcases hb with hb | hb
    · exact (List.nodup_append.1 hnodup).2.2 b hb b (by simp [hlive]) rfl
    · have hrest := (List.nodup_append.1 (List.nodup_append.1 hnodup).2.1).2.1
      exact (List.nodup_append.1 hrest).2.2 b hb b (by simp [hlive]) rfl

theorem Owned.live_chunks (h : Owned m s) {a : UInt64} (ha : a ∈ live s) :
    a ∈ chunks s.pool.capacity.toNat s.pool.chunkSize := by
  refine h.mem_chunks ?_
  simp only [live, List.mem_append] at ha
  simp only [places, List.mem_append]
  rcases ha with ha | ha | ha
  · exact .inr (.inr (.inr (.inl ha)))
  · exact .inr (.inr (.inr (.inr (.inl ha))))
  · exact .inr (.inr (.inr (.inr (.inr (.inl ha)))))

/-- A write into such a chunk leaves the frames of the others alone. -/
theorem Owned.frameAt_write (h : Owned m s) {a b dest : UInt64} {d : XdpDesc} {bs : List UInt8}
    (ha : a ∈ live s) (hin : Inside s.pool.chunkSize a d.addr d.len.toNat)
    (hb : b ∈ s.pool.stack ∨ b ∈ s.kernelRx) (hdest : Inside s.pool.chunkSize b dest bs.length) :
    frameAt (writeArea s.area dest bs) d = frameAt s.area d := by
  obtain ⟨hchunk, hlive⟩ := h.not_live hb
  exact readArea_write_other (h.live_chunks ha) hchunk (fun heq => hlive (heq ▸ ha)) hin hdest s.area

theorem inside_self {cs : UInt32} {a : UInt64} {n : Nat} (h : n ≤ cs.toNat) : Inside cs a a n := by
  rw [Inside, UInt64.sub_self, UInt64.toNat_zero, Nat.zero_add]
  exact h

variable {J : List (List UInt8) → List (List UInt8) → κ → Prop} {P : List UInt8 → Prop} {w : Wire}

/-- **No frame moves** when a chunk without one is written. -/
theorem WireInv.unmoved (h : WireInv J P s w) (ho : Owned m s) {b dest : UInt64} {bs : List UInt8}
    (hb : b ∈ s.pool.stack ∨ b ∈ s.kernelRx) (hdest : Inside s.pool.chunkSize b dest bs.length) :
    (txDescs s).map (frameAt (writeArea s.area dest bs)) = (txDescs s).map (frameAt s.area) ∧
      (rxDescs s).map (frameAt (writeArea s.area dest bs)) = (rxDescs s).map (frameAt s.area) ∧
      ∀ e ∈ w.held, frameAt (writeArea s.area dest bs) e.1 = frameAt s.area e.1 := by
  refine ⟨List.map_congr_left fun d hd => ?_, List.map_congr_left fun d hd => ?_, fun e he => ?_⟩
  · have hlive : d.addr ∈ live s := by
      simp only [live, List.mem_append]
      exact .inr (.inl (List.mem_map_of_mem hd))
    exact ho.frameAt_write hlive (inside_self (h.txFits d hd)) hb hdest
  · have hlive : s.pool.chunkBase d.addr ∈ live s := by
      simp only [live, List.mem_append]
      exact .inl (List.mem_map_of_mem (f := fun d : XdpDesc => s.pool.chunkBase d.addr) hd)
    exact ho.frameAt_write hlive (h.rxFits d hd) hb hdest
  · obtain ⟨hmem, hfits, -⟩ := h.held e he
    have hlive : e.1.addr ∈ live s := by
      simp only [live, List.mem_append]
      exact .inr (.inr hmem)
    exact ho.frameAt_write hlive (inside_self hfits) hb hdest

/-! ## Steps -/

/-- A step that no frame passes and that writes no buffer. -/
structure Still (s s' : Xsk κ) : Prop where
  area : s'.area = s.area
  frameSize : s'.frameSize = s.frameSize
  chunkSize : s'.pool.chunkSize = s.pool.chunkSize
  txDescs : txDescs s' = txDescs s
  txCur : s'.tx.cur = s.tx.cur
  txConsumer : s'.tx.consumer = s.tx.consumer
  rxDescs : rxDescs s' = rxDescs s
  rxCur : s'.rx.cur = s.rx.cur
  rxProducer : s'.rx.producer = s.rx.producer
  kernelTx : s'.kernelTx = s.kernelTx
  fed : s'.fillSeen.length + s.kernelRx.length = s.fillSeen.length + s'.kernelRx.length

theorem WireInv.held_filter (h : WireInv J P s w) :
    (w.held.filter fun e => e.1.addr ∈ s.kernelTx) = w.held :=
  List.filter_eq_self.2 fun e he => decide_eq_true (h.held e he).1

theorem WireInv.note_still (h : WireInv J P s w) {s' : Xsk κ} (hs : Still s s') :
    Wire.note s s' w = w := by
  simp only [Wire.note, logIf_same hs.txCur, logIf_same hs.txConsumer, logIf_same hs.rxCur,
    logIf_same hs.rxProducer, hs.kernelTx, h.held_filter]

theorem WireInv.still (h : WireInv J P s w) {s' : Xsk κ} (hs : Still s s')
    (hclient : J w.sent w.delivered s'.user) : WireInv J P s' (Wire.note s s' w) := by
  rw [h.note_still hs]
  have hbase : ∀ addr, s'.pool.chunkBase addr = s.pool.chunkBase addr := fun addr => by
    rw [FramePool.chunkBase, hs.chunkSize, FramePool.chunkBase]
  refine ⟨?_, ?_, ?_, ?_, ?_, ?_, ?_, h.heard, ?_, hclient⟩
  · rw [hs.frameSize, hs.chunkSize, h.frameSize]
  · rw [hs.txDescs, hs.chunkSize]
    exact h.txFits
  · intro d hd
    rw [hs.rxDescs] at hd
    rw [hbase, hs.chunkSize]
    exact h.rxFits d hd
  · rw [hs.txDescs, hs.area, h.sent]
  · rw [hs.kernelTx, hs.chunkSize, hs.area]
    exact h.held
  · rw [hs.kernelTx]
    exact h.holds
  · rw [hs.rxDescs, hs.area, h.posted]
  · have hfed := hs.fed
    rw [h.fed] at hfed
    rw [hs.rxDescs]
    omega

/-- A frame is written into a chunk just popped and queued. -/
theorem WireInv.txPut (h : WireInv J P s w) (hi : Inv m s) (ho : m.own) {addr : UInt64}
    {stack : List UInt64} (hpos : 0 < gap s.tx.cur s.tx.view.cachedProd)
    (hstack : s.pool.stack = addr :: stack) {user : κ} {len : UInt32} {buf : List UInt8}
    (hlen : len.toNat ≤ buf.length) (hbuf : buf.length ≤ s.frameSize.toNat)
    (hclient : J (w.sent ++ [buf.take len.toNat]) w.delivered user) :
    let s' := { s with
      pool := { s.pool with stack }, area := writeArea s.area addr buf, user
      tx := { s.tx.put s.tx.cur ⟨addr, len, 0⟩ with cur := s.tx.cur + 1 }
      accepted := s.accepted ++ [(addr, len)] }
    WireInv J P s' (Wire.note s s' w) := by
  intro s'
  have hcap : buf.length ≤ s.pool.chunkSize.toNat := h.frameSize ▸ hbuf
  have hlt := s.pool.chunkSize.toNat_lt
  have hmem : addr ∈ s.pool.stack := hstack ▸ List.mem_cons_self
  obtain ⟨htx, hrx, hheld⟩ := h.unmoved (hi.owned ho) (.inl hmem) (inside_self hcap)
  have hdescs : txDescs s' = txDescs s ++ [⟨addr, len, 0⟩] := hi.tx.slots_put _ hpos
  have hframe : frameAt s'.area ⟨addr, len, 0⟩ = buf.take len.toNat :=
    readArea_write s.area addr hlen (by omega)
  have hat : s'.tx.at s.tx.cur = ⟨addr, len, 0⟩ :=
    at_put_self (r := s.tx) s.tx.cur _
  have hnote : Wire.note s s' w = { w with sent := w.sent ++ [buf.take len.toNat] } := by
    refine Wire.ext ((logIf_succ ..).trans ?_) (logIf_same rfl ..) ?_ (logIf_same rfl ..)
      (logIf_same rfl ..)
    · rw [hat, hframe]
    · exact (congrArg (List.filter _) (logIf_same rfl ..)).trans h.held_filter
  rw [hnote]
  refine ⟨h.frameSize, fun d hd => ?_, h.rxFits, ?_, fun e he => ?_, h.holds, ?_, h.heard, h.fed,
    hclient⟩
  · rw [hdescs, List.mem_append, List.mem_singleton] at hd
    rcases hd with hd | rfl
    · exact h.txFits d hd
    · exact Nat.le_trans hlen hcap
  · rw [hdescs, List.map_append, List.map_singleton, hframe, htx, ← List.append_assoc, ← h.sent]
  · obtain ⟨hk, hfits, hbytes, htaken⟩ := h.held e he
    exact ⟨hk, hfits, (hheld e he).trans hbytes, htaken⟩
  · exact h.posted.trans (congrArg (w.delivered ++ ·) hrx.symm)

/-- A received frame is passed on and its chunk recycled. -/
theorem WireInv.rxGet (h : WireInv J P s w) (hi : Inv m s) (ho : m.own) {cb : Option (RxCb κ)}
    (hcb : Receives J P cb) (hpos : 0 < gap s.rx.cur s.rx.view.cachedProd) :
    WireInv J P (rxOne cb s.rx.cur s) (Wire.note s (rxOne cb s.rx.cur s) w) := by
  have hdescs : rxDescs s = s.rx.at s.rx.cur :: rxDescs (rxOne cb s.rx.cur s) :=
    hi.rx.slots_next hpos
  have hchunk : (rxOne cb s.rx.cur s).pool.chunkSize = s.pool.chunkSize :=
    ((rxOne_inv hi ho cb hpos).1.owned ho).chunkSize.trans (hi.owned ho).chunkSize.symm
  have hbase : ∀ addr, (rxOne cb s.rx.cur s).pool.chunkBase addr = s.pool.chunkBase addr :=
    fun addr => by rw [FramePool.chunkBase, hchunk, FramePool.chunkBase]
  have hposted := h.posted
  rw [hdescs, List.map_cons] at hposted
  have hnote : Wire.note s (rxOne cb s.rx.cur s) w =
      { w with delivered := w.delivered ++ [frameAt s.area (s.rx.at s.rx.cur)] } :=
    Wire.ext (logIf_same rfl ..) (logIf_same rfl ..)
      ((congrArg (List.filter _) (logIf_same rfl ..)).trans h.held_filter) (logIf_same rfl ..)
      (logIf_succ ..)
  rw [hnote]
  refine ⟨h.frameSize.trans hchunk.symm, fun d hd => ?_, fun d hd => ?_, h.sent, fun e he => ?_,
    h.holds, ?_, h.heard, ?_, ?_⟩
  · rw [hchunk]
    exact h.txFits d hd
  · rw [hbase, hchunk]
    exact h.rxFits d (hdescs ▸ List.mem_cons_of_mem _ hd)
  · rw [hchunk]
    exact h.held e he
  · exact hposted.trans (List.append_cons ..)
  · have hfed := h.fed
    rw [hdescs, List.length_cons] at hfed
    change s.fillSeen.length = s.kernelRx.length + _
    rw [hfed, List.length_append, List.length_singleton]
    omega
  · refine hcb _ _ _ _ h.client (h.heard _ ?_)
    rw [hposted]
    exact List.mem_append_right _ List.mem_cons_self

/-! ## The kernel's steps -/

/-- The kernel takes the oldest queued frame. -/
theorem WireInv.take (h : WireInv J P s w) (hi : Inv m s) (hne : s.tx.consumer ≠ s.tx.producer) :
    WireInv J P (txTake s) (Wire.note s (txTake s) w) := by
  have hdescs : txDescs s = s.tx.at s.tx.consumer :: txDescs (txTake s) := slots_consumer hi.tx hne
  have hsent := h.sent
  rw [hdescs, List.map_cons] at hsent
  generalize hd₀ : s.tx.at s.tx.consumer = d₀ at *
  have hkernel : (txTake s).kernelTx = s.kernelTx ++ [d₀.addr] := by rw [txTake, hd₀]
  have hheld : ((w.held ++ [(d₀, frameAt s.area d₀)]).filter
      fun e => e.1.addr ∈ (txTake s).kernelTx) = w.held ++ [(d₀, frameAt s.area d₀)] := by
    refine List.filter_eq_self.2 fun e he => decide_eq_true ?_
    rw [hkernel, List.mem_append]
    rcases List.mem_append.1 he with he | he
    · exact .inl (h.held e he).1
    · rw [List.mem_singleton.1 he]
      exact .inr List.mem_cons_self
  have hnote : Wire.note s (txTake s) w = { w with
      taken := w.taken ++ [frameAt s.area d₀], held := w.held ++ [(d₀, frameAt s.area d₀)] } := by
    refine Wire.ext (logIf_same rfl ..) ((logIf_succ ..).trans ?_) ?_ (logIf_same rfl ..)
      (logIf_same rfl ..)
    · rw [hd₀]
    · rw [← hheld, ← hd₀]
      exact congrArg (List.filter _) (logIf_succ ..)
  rw [hnote]
  refine ⟨h.frameSize, fun d hd => ?_, h.rxFits, ?_, fun e he => ?_, fun a ha => ?_, h.posted,
    h.heard, h.fed, h.client⟩
  · exact h.txFits d (hdescs ▸ List.mem_cons_of_mem _ hd)
  · exact hsent.trans (List.append_cons ..)
  · dsimp only
    rw [hkernel, List.mem_append, List.mem_append]
    rcases List.mem_append.1 he with he | he
    · obtain ⟨hk, hfits, hbytes, htaken⟩ := h.held e he
      exact ⟨.inl hk, hfits, hbytes, .inl htaken⟩
    · rw [List.mem_singleton.1 he]
      exact ⟨.inr List.mem_cons_self, h.txFits d₀ (hdescs ▸ List.mem_cons_self), rfl,
        .inr List.mem_cons_self⟩
  · rw [hkernel, List.mem_append, List.mem_singleton] at ha
    rcases ha with ha | rfl
    · obtain ⟨e, he, haddr⟩ := h.holds a ha
      exact ⟨e, List.mem_append_left _ he, haddr⟩
    · exact ⟨_, List.mem_append_right _ List.mem_cons_self, rfl⟩

/-- The kernel gives a chunk back. -/
theorem WireInv.complete (h : WireInv J P s w) (addr : UInt64) :
    WireInv J P (compPost addr s) (Wire.note s (compPost addr s) w) := by
  have hnote : Wire.note s (compPost addr s) w =
      { w with held := w.held.filter fun e => e.1.addr ∈ s.kernelTx.erase addr } :=
    Wire.ext (logIf_same rfl ..) (logIf_same rfl ..)
      (congrArg (List.filter _) (logIf_same rfl ..)) (logIf_same rfl ..) (logIf_same rfl ..)
  rw [hnote]
  refine ⟨h.frameSize, h.txFits, h.rxFits, h.sent, fun e he => ?_, fun a ha => ?_, h.posted,
    h.heard, h.fed, h.client⟩
  · obtain ⟨hmem, hk⟩ := List.mem_filter.1 he
    exact ⟨of_decide_eq_true hk, (h.held e hmem).2⟩
  · obtain ⟨e, he, rfl⟩ := h.holds a (List.mem_of_mem_erase ha)
    exact ⟨e, List.mem_filter.2 ⟨he, decide_eq_true ha⟩, rfl⟩

/-- The kernel receives a frame into a chunk it holds. -/
theorem WireInv.post (h : WireInv J P s w) (hi : Inv m s) (ho : m.own) {chunk : UInt64}
    {d : XdpDesc} {data : List UInt8} (hmem : chunk ∈ s.kernelRx)
    (hroom : gap s.rx.consumer s.rx.producer < s.rx.view.size.toNat)
    (hoff : (d.addr - chunk).toNat < s.pool.chunkSize.toNat)
    (hin : Inside s.pool.chunkSize chunk d.addr data.length) (hlen : d.len.toNat = data.length)
    (hP : P data) : WireInv J P (rxPost chunk d data s) (Wire.note s (rxPost chunk d data s) w) := by
  have howned := hi.owned ho
  have hlt := s.pool.chunkSize.toNat_lt
  obtain ⟨htx, hrx, hheld⟩ := h.unmoved howned (.inr hmem) hin
  have hbase : s.pool.chunkBase d.addr = chunk :=
    FramePool.chunkBase_of_inside howned.pool (howned.not_live (.inr hmem)).1 hoff
  have hdescs : rxDescs (rxPost chunk d data s) = rxDescs s ++ [d] := hi.rx.slots_post d hroom
  have hframe : frameAt (rxPost chunk d data s).area d = data := by
    refine (readArea_write s.area d.addr (Nat.le_of_eq hlen) ?_).trans ?_
    · rw [Inside] at hin
      omega
    · rw [hlen, List.take_length]
  have hat : (rxPost chunk d data s).rx.at s.rx.producer = d :=
    at_put_self (r := s.rx) s.rx.producer _
  have hnote : Wire.note s (rxPost chunk d data s) w = { w with posted := w.posted ++ [data] } := by
    refine Wire.ext (logIf_same rfl ..) (logIf_same rfl ..)
      ((congrArg (List.filter _) (logIf_same rfl ..)).trans h.held_filter)
      ((logIf_succ ..).trans ?_) (logIf_same rfl ..)
    rw [hat, hframe]
  rw [hnote]
  refine ⟨h.frameSize, h.txFits, fun d' hd => ?_, ?_, fun e he => ?_, h.holds, ?_, ?_, ?_,
    h.client⟩
  · rw [hdescs, List.mem_append, List.mem_singleton] at hd
    rcases hd with hd | rfl
    · exact h.rxFits d' hd
    · change Inside s.pool.chunkSize (s.pool.chunkBase d'.addr) d'.addr d'.len.toNat
      rw [hbase, hlen]
      exact hin
  · exact h.sent.trans (congrArg (w.taken ++ ·) htx.symm)
  · obtain ⟨hk, hfits, hbytes, htaken⟩ := h.held e he
    exact ⟨hk, hfits, (hheld e he).trans hbytes, htaken⟩
  · rw [hdescs, List.map_append, List.map_singleton, hframe, ← List.append_assoc, h.posted]
    exact congrArg (fun l => w.delivered ++ l ++ [data]) hrx.symm
  · intro frame hframe'
    rcases List.mem_append.1 hframe' with hold | hnew
    · exact h.heard frame hold
    · rwa [List.mem_singleton.1 hnew]
  · have hfed := h.fed
    have hpos := List.length_pos_of_mem hmem
    change s.fillSeen.length = (s.kernelRx.erase chunk).length + (_ + w.delivered.length)
    rw [hfed, hdescs, List.length_erase_of_mem hmem, List.length_append, List.length_singleton]
    omega

/-- Every step of a faithful kernel keeps the record in order. -/
theorem WireInv.kernel (h : WireInv J P s w) (hi : Inv m s) (ho : m.own) {a : KernelAct}
    {s' : Xsk κ} (ha : Faithful P a) (hk : kernelStep a s = some s') :
    WireInv J P s' (Wire.note s s' w) := by
  cases a with
  | txTake =>
    obtain ⟨hne, rfl⟩ := Option.ite_some_none_eq_some.1 hk
    exact h.take hi hne
  | compPost addr =>
    obtain ⟨-, rfl⟩ := Option.ite_some_none_eq_some.1 hk
    exact h.complete addr
  | fillTake =>
    obtain ⟨-, rfl⟩ := Option.ite_some_none_eq_some.1 hk
    refine h.still ⟨rfl, rfl, rfl, rfl, rfl, rfl, rfl, rfl, rfl, rfl, ?_⟩ h.client
    simp only [fillTake, List.length_append, List.length_singleton]
    omega
  | rxPost chunk d data =>
    obtain ⟨⟨hmem, hroom, hoff, hin⟩, rfl⟩ := Option.ite_some_none_eq_some.1 hk
    exact h.post hi ho hmem hroom hoff hin ha.1 ha.2

end

end Rewsr.Xdp
