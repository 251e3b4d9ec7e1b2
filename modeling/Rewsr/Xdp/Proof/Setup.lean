import Rewsr.Ring.Proof.XskRing
import Rewsr.Xdp.Proof.FramePool
import Rewsr.Xdp.Setup

/-!
# A socket that has been set up

What is known when every system call has succeeded: the sizes are those of the configuration.
-/

namespace Rewsr.Xdp

open Interleave Rewsr.Ring

theorem bind_eq_ok {ε α β : Type} {x : Except ε α} {f : α → Except ε β} {b : β} :
    (x >>= f) = .ok b ↔ ∃ a, x = .ok a ∧ f a = .ok b := by
  cases x with
  | error err => simp [bind, Except.bind]
  | ok a => simp [bind, Except.bind]

theorem mapRing_size {V : Type} {map : Except Int (RingMap V)} {entries : UInt32} {entrySize : Nat}
    {r : SharedRing V} (h : mapRing map entries entrySize = .ok r) : r.view.size = entries := by
  obtain ⟨m, -, hm⟩ := bind_eq_ok.1 h
  split at hm
  · cases hm
  · rename_i view hview
    cases hm
    exact (ringInit_some hview).2.1

theorem xskUmemCreate_frameSize {sys : UmemSyscalls} {u : XskUmem}
    (h : xskUmemCreate (some xskConfigDefault) sys = .ok u) : u.frameSize = 2048 := by
  obtain ⟨area, -, h⟩ := bind_eq_ok.1 h
  obtain ⟨fill, -, h⟩ := bind_eq_ok.1 h
  obtain ⟨comp, -, h⟩ := bind_eq_ok.1 h
  dsimp only at h
  split at h
  · cases h
  · split at h
    · cases h
    · cases h
      rfl

theorem xskUmemCreate_fillSize {sys : UmemSyscalls} {u : XskUmem}
    (h : xskUmemCreate (some xskConfigDefault) sys = .ok u) :
    u.fill.view.size = xskConfigDefault.fillSize := by
  obtain ⟨area, -, h⟩ := bind_eq_ok.1 h
  obtain ⟨fill, hfill, h⟩ := bind_eq_ok.1 h
  obtain ⟨comp, -, h⟩ := bind_eq_ok.1 h
  dsimp only at h
  split at h
  · cases h
  · split at h
    · cases h
    · cases h
      exact mapRing_size hfill

theorem xskSocketCreate_txSize {ifname : String} {queueId : UInt32} {sys : SocketSyscalls}
    {x : XskSocket} (h : xskSocketCreate ifname queueId (some xskConfigDefault) sys = .ok x) :
    x.tx.view.size = 2048 := by
  unfold xskSocketCreate at h
  dsimp only at h
  split at h
  · cases h
  · obtain ⟨-, -, h⟩ := bind_eq_ok.1 h
    obtain ⟨rx, -, h⟩ := bind_eq_ok.1 h
    obtain ⟨tx, htx, h⟩ := bind_eq_ok.1 h
    obtain ⟨-, -, h⟩ := bind_eq_ok.1 h
    cases h
    exact mapRing_size htx

end Rewsr.Xdp
