import Rewsr.Lib.Meter
import Rewsr.Xdp.Xsk

/-!
# What the calls leave alone

A refill touches the pool, the fill ring and its history, a transmit burst the pool, the buffers,
the callbacks' data, the transmit ring and its history, a completion the pool and the completion
ring. Any other part `π` of the state is the same after each of their steps (`fillRefill_keeps`,
`txBurst_keeps`, `txComplete_keeps`). Refills and completions do not look at the callbacks' data
either: on the state without it they take the same steps (`fillRefill_through`,
`txComplete_through`).
-/

namespace Rewsr.Xdp

open Interleave Rewsr.Ring

variable {κ : Type} {τ : Type*} {π : Xsk κ → τ}

theorem fillLoop_keeps (hπ : ∀ s pool fill popped, π { s with pool, fill, popped } = π s)
    (idx : UInt32) (n : Nat) (posted : UInt32) : (fillLoop idx n posted).Keeps π := by
  induction n generalizing posted with
  | zero => exact Prog.keeps_pure _
  | succ n ih =>
    refine Prog.Keeps.bind (Prog.keeps_atomic fun s => ?_) fun more => ?_
    · unfold fillOne
      split
      · rfl
      · exact hπ s _ _ _
    · cases more with
      | false => exact Prog.keeps_pure _
      | true => exact ih _

/-- A refill after its look at the room. -/
def fillRest (nb : UInt32) : Prog (Xsk κ) UInt32 := do
  let (reserved, idx) ← fillRing.prodReserve nb
  let posted ← fillLoop idx reserved.toNat 0
  fillRing.prodSubmit posted id
  return posted

theorem fillRefill_eq (nb : UInt32) : (fillRefill nb : Prog (Xsk κ) UInt32) =
    fillRing.prodFree >>= fun free => fillRest (if nb > free then free else nb) := rfl

theorem fillRest_keeps (hπ : ∀ s pool fill popped, π { s with pool, fill, popped } = π s)
    (nb : UInt32) : (fillRest nb).Keeps π := by
  refine Prog.Keeps.bind (Prog.keeps_atomic fun s => hπ s _ _ _) fun res => ?_
  refine Prog.Keeps.bind (fillLoop_keeps hπ _ _ _) fun posted => ?_
  refine Prog.Keeps.bind (Prog.Keeps.bind (Prog.keeps_atomic fun s => rfl) fun _ => ?_) fun _ => ?_
  · exact Prog.keeps_atomic fun s => hπ s _ _ _
  · exact Prog.keeps_pure _

theorem fillRefill_keeps (hπ : ∀ s pool fill popped, π { s with pool, fill, popped } = π s)
    (nb : UInt32) : (fillRefill nb).Keeps π := by
  rw [fillRefill_eq]
  exact Prog.Keeps.bind (Prog.keeps_atomic fun s => hπ s _ _ _) fun free => fillRest_keeps hπ _

theorem txLoop_keeps (hπ : ∀ s pool area user tx accepted,
    π { s with pool, area, user, tx, accepted } = π s) (cb : Option (TxCb κ)) (idx : UInt32) (n : Nat)
    (queued : UInt32) : (txLoop cb idx n queued).Keeps π := by
  induction n generalizing queued with
  | zero => exact Prog.keeps_pure _
  | succ n ih =>
    refine Prog.Keeps.bind (Prog.keeps_atomic fun s => ?_) fun round => ?_
    · unfold txOne
      split
      · rfl
      · dsimp only
        split
        · exact hπ s _ _ _ _ _
        · exact hπ s _ _ _ _ _
    · cases round with
      | empty => exact Prog.keeps_pure _
      | skipped => exact ih _
      | queued => exact ih _

theorem txBurst_keeps (hπ : ∀ s pool area user tx accepted,
    π { s with pool, area, user, tx, accepted } = π s) (nb : UInt32) (cb : Option (TxCb κ)) :
    (txBurst nb cb).Keeps π := by
  refine Prog.Keeps.bind (Prog.keeps_atomic fun s => hπ s _ _ _ _ _) fun res => ?_
  refine Prog.Keeps.bind (txLoop_keeps hπ _ _ _ _) fun queued => ?_
  refine Prog.Keeps.bind (Prog.Keeps.bind (Prog.keeps_atomic fun s => rfl) fun _ => ?_) fun _ => ?_
  · exact Prog.keeps_atomic fun s => hπ s _ _ _ _ _
  · exact Prog.keeps_pure _

theorem completeLoop_keeps (hπ : ∀ s pool comp, π { s with pool, comp } = π s) (idx : UInt32)
    (n : Nat) (i : UInt32) : (completeLoop idx n i).Keeps π := by
  induction n generalizing i with
  | zero => exact Prog.keeps_pure _
  | succ n ih => exact Prog.Keeps.bind (Prog.keeps_atomic fun s => hπ s _ _) fun _ => ih _

theorem txComplete_keeps (hπ : ∀ s pool comp, π { s with pool, comp } = π s) (nb : UInt32) :
    (txComplete nb).Keeps π := by
  refine Prog.Keeps.bind (Prog.keeps_atomic fun s => hπ s _ _) fun res => ?_
  refine Prog.Keeps.bind (completeLoop_keeps hπ _ _ _) fun _ => ?_
  refine Prog.Keeps.bind (Prog.Keeps.bind (Prog.keeps_atomic fun s => rfl) fun _ => ?_) fun _ => ?_
  · exact Prog.keeps_atomic fun s => hπ s _ _
  · exact Prog.keeps_pure _

/-! ## Without the callbacks' data -/

/-- The state without the callbacks' data. -/
def forget (s : Xsk κ) : Xsk Unit := { s with user := () }

theorem fillOne_forget (slot : UInt32) (s : Xsk κ) :
    (fillOne slot s).1 = (fillOne slot (forget s)).1 ∧
      forget (fillOne slot s).2 = (fillOne slot (forget s)).2 := by
  unfold fillOne
  rw [show (forget s).pool = s.pool from rfl]
  cases s.pool.alloc with
  | none => exact ⟨rfl, rfl⟩
  | some r => exact ⟨rfl, rfl⟩

theorem fillLoop_through (idx : UInt32) (n : Nat) (posted : UInt32) :
    (fillLoop idx n posted : Prog (Xsk κ) UInt32).Through forget (fillLoop idx n posted) := by
  induction n generalizing posted with
  | zero => exact Prog.through_pure _
  | succ n ih =>
    refine (Prog.through_atomic (fun s => (fillOne_forget _ s).1)
      fun s => (fillOne_forget _ s).2).bind fun more => ?_
    cases more with
    | false => exact Prog.through_pure _
    | true => exact ih _

theorem fillRest_through (nb : UInt32) :
    (fillRest nb : Prog (Xsk κ) UInt32).Through forget (fillRest nb) := by
  refine Prog.Through.bind (Prog.through_atomic (fun _ => rfl) fun _ => rfl) fun res => ?_
  refine Prog.Through.bind (fillLoop_through _ _ _) fun posted => ?_
  refine Prog.Through.bind (Prog.Through.bind
    (Prog.through_atomic (fun _ => rfl) fun _ => rfl) fun _ => ?_) fun _ => Prog.through_pure _
  exact Prog.through_atomic (fun _ => rfl) fun _ => rfl

theorem fillRefill_through (nb : UInt32) :
    (fillRefill nb : Prog (Xsk κ) UInt32).Through forget (fillRefill nb) := by
  rw [fillRefill_eq, fillRefill_eq]
  exact Prog.Through.bind (Prog.through_atomic (fun _ => rfl) fun _ => rfl)
    fun free => fillRest_through _

theorem completeLoop_through (idx : UInt32) (n : Nat) (i : UInt32) :
    (completeLoop idx n i : Prog (Xsk κ) PUnit).Through forget (completeLoop idx n i) := by
  induction n generalizing i with
  | zero => exact Prog.through_pure _
  | succ n ih =>
    exact Prog.Through.bind (Prog.through_atomic (fun _ => rfl) fun _ => rfl) fun _ => ih _

theorem txComplete_through (nb : UInt32) :
    (txComplete nb : Prog (Xsk κ) UInt32).Through forget (txComplete nb) := by
  refine Prog.Through.bind (Prog.through_atomic (fun _ => rfl) fun _ => rfl) fun res => ?_
  refine Prog.Through.bind (completeLoop_through _ _ _) fun _ => ?_
  refine Prog.Through.bind (Prog.Through.bind
    (Prog.through_atomic (fun _ => rfl) fun _ => rfl) fun _ => ?_) fun _ => Prog.through_pure _
  exact Prog.through_atomic (fun _ => rfl) fun _ => rfl

end Rewsr.Xdp
