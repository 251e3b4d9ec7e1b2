import Rewsr.Xdp.Proof.Wire

/-!
# The receive side's share

How many chunks the receive side has (`recvHeld`): those in the fill ring, with the kernel for
receiving, and in the receive ring. They are those that refills have popped less those whose frames
have been passed on (`WireInv.recvHeld`), which only the caller moves, so that a call's effect on
them does not depend on what the others do in between (`fillRefill_feeds`).
-/

namespace Rewsr.Xdp

open Counter Interleave Rewsr.Ring

variable {κ : Type}

/-- The chunks of the receive side. -/
def recvHeld (s : Xsk κ) : Nat := (fillHeld s).length + (s.kernelRx.length + (rxHeld s).length)

theorem WireInv.recvHeld {m : Mode} {J : List (List UInt8) → List (List UInt8) → κ → Prop}
    {P : List UInt8 → Prop} {s : Xsk κ} {w : Wire} (h : WireInv J P s w) (hi : Inv m s) :
    s.popped.length = recvHeld s + w.delivered.length := by
  have hrx : (rxHeld s).length = (rxDescs s).length := List.length_map _
  rw [hi.fillStream, List.length_append, h.fed, Xdp.recvHeld, hrx, fillHeld]
  omega

/-- What moves the share, and the size of the fill ring. -/
def feeding (x : Xsk κ × Wire) : Nat × Nat × UInt32 :=
  (x.1.popped.length, x.2.delivered.length, x.1.fill.view.size)

theorem note_delivered {s s' : Xsk κ} (h : s'.rx.cur = s.rx.cur) (w : Wire) :
    (Wire.note s s' w).delivered = w.delivered := logIf_same h _ _

/-- Where the fill ring has room for `share` chunks: the receive side has as many, but for `out`
that were passed on and `back` that were posted since. -/
def Share (size : UInt32) (share out back : Nat) (v : Nat × Nat × UInt32) : Prop :=
  v.2.2 = size ∧ (share ≤ size.toNat → v.1 + out = share + v.2.1 + back)

section
variable {size : UInt32} {share out back : Nat}

/-- A call that leaves that alone. -/
theorem feeding_keeps {α : Type*} {p : Prog (Xsk κ) α}
    (h : p.Keeps fun s => (s.popped, s.rx.cur, s.fill.view.size)) :
    (p.metered Wire.note).Keeps feeding := by
  refine (h.metered_part (g := Wire.delivered) fun s s' w hs => ?_).part fun x y hxy => ?_
  · exact note_delivered (congrArg (·.2.1) hs) w
  · have hpopped : y.1.popped = x.1.popped := congrArg (·.1.1) hxy
    have hsize : y.1.fill.view.size = x.1.fill.view.size := congrArg (·.1.2.2) hxy
    have hdelivered : y.2.delivered = x.2.delivered := congrArg (·.2) hxy
    rw [feeding, hpopped, hsize, hdelivered, feeding]

theorem fillLoop_feeds (idx : UInt32) {total : UInt32} (n : Nat) (posted : UInt32)
    (hn : posted.toNat + n = total.toNat) : Triple (Ctx.only feeding)
      (fun x : Xsk κ × Wire => Share size share out (back + posted.toNat) (feeding x))
      ((fillLoop idx n posted).metered Wire.note)
      fun r x => Share size share out (back + r.toNat) (feeding x) := by
  induction n generalizing posted with
  | zero => exact Triple.pure (Stable.only _) fun _ hx _ => hx
  | succ n ih =>
    have hsucc := toNat_succ_of_lt hn
    rw [fillLoop, Prog.metered_bind]
    refine Triple.bind
      (Q := fun more x => Share size share out (back + posted.toNat + more.toNat) (feeding x))
      (Triple.metered_atomic (Stable.only _) (fun more => Stable.only
        (Share size share out (back + posted.toNat + more.toNat))) fun x hx _ => ?_) fun more => ?_
    · refine ⟨trivial, trivial, ?_⟩
      obtain ⟨hsize, hheld⟩ := hx
      unfold fillOne
      cases x.1.pool.alloc with
      | none =>
        refine ⟨hsize, fun hle => ?_⟩
        dsimp only [feeding]
        rw [note_delivered rfl]
        exact hheld hle
      | some r =>
        refine ⟨hsize, fun hle => ?_⟩
        have hcount := hheld hle
        dsimp only [feeding, Bool.toNat_true] at hcount ⊢
        rw [note_delivered, List.length_append, List.length_singleton]
        · omega
        · rfl
    · cases more with
      | false => exact Triple.pure (Stable.only _) fun _ hx _ => hx
      | true =>
        refine (ih (posted + 1) (by omega)).weaken fun x hx _ => ?_
        rw [hsucc]
        exact hx

/-- A step on the fill ring's counters. -/
theorem Share.fill {x : Xsk κ × Wire} (h : Share size share out back (feeding x))
    {fill : SharedRing UInt64} (hsize : fill.view.size = x.1.fill.view.size) :
    Share size share out back (feeding ({ x.1 with fill }, Wire.note x.1 { x.1 with fill } x.2)) := by
  have hsame : feeding ({ x.1 with fill }, Wire.note x.1 { x.1 with fill } x.2) = feeding x := by
    rw [feeding, feeding, note_delivered, hsize]
    rfl
  rwa [hsame]

/-- A refill adds what it returns. -/
theorem fillRefill_feeds (nb : UInt32) : Triple (Ctx.only feeding)
    (fun x : Xsk κ × Wire => Share size share out 0 (feeding x))
    ((fillRefill nb).metered Wire.note)
    fun r x => Share size share out r.toNat (feeding x) := by
  have hstable : ∀ back, Stable (Ctx.only feeding)
      fun x : Xsk κ × Wire => Share size share out back (feeding x) := fun _ => Stable.only _
  simp only [fillRefill, Prog.metered_bind, Ref.prodSubmit]
  refine Triple.bind (Q := fun _ x => Share size share out 0 (feeding x))
    (Triple.metered_atomic (hstable 0) (fun _ => hstable 0)
      fun x hx _ => ⟨trivial, trivial, hx.fill rfl⟩) fun free => ?_
  refine Triple.bind (Q := fun _ x => Share size share out 0 (feeding x))
    (Triple.metered_atomic (hstable 0) (fun _ => hstable 0)
      fun x hx _ => ⟨trivial, trivial, hx.fill (prodReserve_const _ _ _).1⟩) fun res => ?_
  obtain ⟨reserved, idx⟩ := res
  have hloop := @fillLoop_feeds κ size share out 0 idx reserved reserved.toNat 0
    (by rw [UInt32.toNat_zero, Nat.zero_add])
  simp only [UInt32.toNat_zero, Nat.zero_add] at hloop
  refine Triple.bind hloop fun posted => ?_
  refine Triple.bind (Q := fun _ x => Share size share out posted.toNat (feeding x))
    (Triple.bind (Q := fun _ x => Share size share out posted.toNat (feeding x))
      (Triple.metered_atomic (hstable _) (fun _ => hstable _)
        fun x hx _ => ⟨trivial, trivial, hx.fill rfl⟩) fun p =>
      Triple.metered_atomic (hstable _) (fun _ => hstable _)
        fun x hx _ => ⟨trivial, trivial, hx.fill rfl⟩) fun _ => ?_
  exact Triple.pure (hstable _) fun _ hx _ => hx

end

end Rewsr.Xdp
