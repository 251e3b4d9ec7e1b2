import Rewsr.Lib.Interleave

/-!
# Meters

Three ways to say something about every step of a program.

* `Prog.metered`: the program over a state with a reading beside it, which each step updates from
  the state before and after it. The state goes through the same values as without the meter.
* `Prog.Keeps`: every step of the program keeps a part of the state. `Keeps.triple` is the frame
  rule for it: an assertion about that part holds after the program if it did before.
* `Prog.Through`: the program works on a part of the state as another does on that part alone.
  `Through.triple` takes what is proved of the one to the other, with a meter.
-/

universe u v

namespace Interleave

variable {σ γ : Type u} {α β : Type v}

/-! ## Metered programs -/

namespace Prog

def metered (f : σ → σ → γ → γ) : Prog σ α → Prog (σ × γ) α
  | ret a => ret a
  | act u k => act (fun x => (u x.1, f x.1 (u x.1) x.2)) fun x => (k x.1).metered f

variable (f : σ → σ → γ → γ)

theorem metered_atomic (g : σ → α × σ) : (atomic g).metered f =
    atomic fun x => ((g x.1).1, ((g x.1).2, f x.1 (g x.1).2 x.2)) := rfl

theorem metered_bind (p : Prog σ α) (q : α → Prog σ β) :
    (p >>= q).metered f = p.metered f >>= fun a => (q a).metered f := by
  change (p.bind q).metered f = (p.metered f).bind fun a => (q a).metered f
  induction p with
  | ret a => rfl
  | act u k ih =>
    simp only [bind, metered]
    congr 1
    funext x
    exact ih x.1

/-- A meter changes neither the result nor the state. -/
theorem run_metered (p : Prog σ α) (x : σ × γ) :
    ((p.metered f).run x).1 = (p.run x.1).1 ∧ ((p.metered f).run x).2.1 = (p.run x.1).2 := by
  induction p generalizing x with
  | ret a => exact ⟨rfl, rfl⟩
  | act u k ih => exact ih x.1 _

end Prog

/-- A single step with its meter. -/
theorem Triple.metered_atomic {Γ : Ctx (σ × γ)} {P : σ × γ → Prop} {Q : α → σ × γ → Prop}
    {f : σ → σ → γ → γ} {g : σ → α × σ} (hP : Stable Γ P) (hQ : ∀ a, Stable Γ (Q a))
    (h : ∀ x, P x → Γ.inv x → let y := ((g x.1).2, f x.1 (g x.1).2 x.2)
      Γ.inv y ∧ Γ.guar x y ∧ Q (g x.1).1 y) : Triple Γ P ((Prog.atomic g).metered f) Q := by
  rw [Prog.metered_atomic]
  exact Triple.atomic hP hQ h

/-- A call's first step with its meter, and the rest. -/
theorem Now.metered_atomic_bind {Γ : Ctx (σ × γ)} {Q : α → σ × γ → Prop} {Q' : β → σ × γ → Prop}
    {f : σ → σ → γ → γ} {g : σ → α × σ} {q : α → Prog (σ × γ) β} {x : σ × γ}
    (h : let y := ((g x.1).2, f x.1 (g x.1).2 x.2)
      Γ.inv y ∧ Γ.guar x y ∧ Q (g x.1).1 y) (hq : ∀ a, Triple Γ (Q a) (q a) Q') :
    Now Γ Q' ((Prog.atomic g).metered f >>= q) x := by
  rw [Prog.metered_atomic]
  exact Now.atomic_bind h hq

/-- A system with a meter; the environment's steps are metered too. -/
def Sys.metered {ι : Type} {ρ Op : Type v} (S : Sys ι σ ρ Op) (f : σ → σ → γ → γ) :
    Sys ι (σ × γ) ρ Op where
  body op := (S.body op).metered f
  ok i op x := S.ok i op x.1
  env x y := S.env x.1 y.1 ∧ y.2 = f x.1 y.1 x.2

/-! ## Programs that keep a part of the state -/

section
variable {τ : Type*} {π : σ → τ}

namespace Prog

def Keeps (π : σ → τ) : Prog σ α → Prop
  | ret _ => True
  | act u k => ∀ s, π (u s) = π s ∧ Keeps π (k s)

theorem keeps_pure (a : α) : Keeps π (pure a : Prog σ α) := trivial

theorem keeps_atomic {g : σ → α × σ} (h : ∀ s, π (g s).2 = π s) : Keeps π (atomic g) :=
  fun s => ⟨h s, trivial⟩

namespace Keeps

theorem bind {p : Prog σ α} {q : α → Prog σ β} (hp : p.Keeps π) (hq : ∀ a, (q a).Keeps π) :
    (p >>= q).Keeps π := by
  change (p.bind q).Keeps π
  induction p with
  | ret a => exact hq a
  | act u k ih => exact fun s => ⟨(hp s).1, ih s (hp s).2⟩

theorem run {p : Prog σ α} (h : p.Keeps π) (s : σ) : π (p.run s).2 = π s := by
  induction p generalizing s with
  | ret a => rfl
  | act u k ih => exact (ih s (h s).2 (u s)).trans (h s).1

theorem part {p : Prog σ α} (h : p.Keeps π) {δ : Type*} {g : σ → δ}
    (hg : ∀ s s', π s' = π s → g s' = g s) : p.Keeps g := by
  induction p with
  | ret a => trivial
  | act u k ih => exact fun s => ⟨hg _ _ (h s).1, ih s (h s).2⟩

/-- A part of a reading that moves only with a part that a program keeps does not move. -/
theorem metered_part {δ : Type*} {g : γ → δ} {p : Prog σ α} (h : p.Keeps π) {f : σ → σ → γ → γ}
    (hf : ∀ s s' c, π s' = π s → g (f s s' c) = g c) :
    (p.metered f).Keeps fun x => (π x.1, g x.2) := by
  induction p with
  | ret a => trivial
  | act u k ih =>
    intro x
    refine ⟨?_, ih x.1 (h x.1).2⟩
    dsimp only
    rw [(h x.1).1, hf _ _ _ (h x.1).1]

/-- A meter that reads only the part that a program keeps does not move. -/
theorem metered {p : Prog σ α} (h : p.Keeps π) {f : σ → σ → γ → γ}
    (hf : ∀ s s' c, π s' = π s → f s s' c = c) :
    (p.metered f).Keeps fun x => (π x.1, x.2) := h.metered_part (g := id) hf

/-- The frame rule. -/
theorem triple {p : Prog σ α} (h : p.Keeps π) {Γ : Ctx σ} {P : σ → Prop}
    (hinv : ∀ s s', π s' = π s → Γ.inv s → Γ.inv s') (hguar : ∀ s s', π s' = π s → Γ.guar s s')
    (hP : ∀ s s', π s' = π s → P s → P s') (hst : Stable Γ P) : Triple Γ P p fun _ => P := by
  induction p with
  | ret a => exact fun s hs _ s' hr hi => hst hs hr hi
  | act u k ih =>
    intro s hs _ s' hr hi
    obtain ⟨hkeep, hk⟩ := h s'
    have hs' := hP s' (u s') hkeep (hst hs hr hi)
    have hi' := hinv s' (u s') hkeep hi
    exact ⟨hi', hguar s' (u s') hkeep, ih s' hk hs' hi'⟩

/-- The frame rule on the part itself, which the others leave alone too. -/
theorem only {p : Prog σ α} (h : p.Keeps π) (A : τ → Prop) :
    Triple (Ctx.only π) (fun s => A (π s)) p fun _ s => A (π s) :=
  h.triple (fun _ _ _ h => h) (fun _ _ _ => trivial) (fun _ _ hk hs => hk ▸ hs) (Stable.only A)

end Keeps

end Prog

end

/-! ## Programs on a part of the state -/

namespace Prog

section
variable {ρ : Type u} {φ : σ → ρ}

/-- Through `φ`, the steps of the one program are those of the other. -/
def Through (φ : σ → ρ) : Prog σ α → Prog ρ α → Prop
  | ret a, ret b => a = b
  | act u k, act v l => ∀ s, φ (u s) = v (φ s) ∧ Through φ (k s) (l (φ s))
  | _, _ => False

theorem through_pure (a : α) : (pure a : Prog σ α).Through φ (pure a) := rfl

theorem through_atomic {g : σ → α × σ} {h : ρ → α × ρ} (hfst : ∀ s, (g s).1 = (h (φ s)).1)
    (hsnd : ∀ s, φ (g s).2 = (h (φ s)).2) : (atomic g).Through φ (atomic h) :=
  fun s => ⟨hsnd s, hfst s⟩

theorem Through.bind {p : Prog σ α} {p' : Prog ρ α} {q : α → Prog σ β} {q' : α → Prog ρ β}
    (hp : p.Through φ p') (hq : ∀ a, (q a).Through φ (q' a)) :
    (p >>= q).Through φ (p' >>= q') := by
  change (p.bind q).Through φ (p'.bind q')
  induction p generalizing p' with
  | ret a =>
    cases p' with
    | ret b =>
      obtain rfl : a = b := hp
      exact hq a
    | act v l => exact hp.elim
  | act u k ih =>
    cases p' with
    | ret b => exact hp.elim
    | act v l => exact fun s => ⟨(hp s).1, ih s (hp s).2⟩

/-- How a context on the whole state with a meter `f` lies over one on the part of it that `φ`
reads: steps which keep `π` cannot break it. -/
structure Over {τ : Type*} (φ : σ → ρ) (π : σ → τ) (f : σ → σ → γ → γ) (Γ : Ctx ρ)
    (Γ' : Ctx (σ × γ)) : Prop where
  inv : ∀ x, Γ'.inv x → Γ.inv (φ x.1)
  rely : ∀ x y, Γ'.rely x y → Γ.rely (φ x.1) (φ y.1)
  step : ∀ x s', Γ'.inv x → Γ.inv (φ s') → π s' = π x.1 →
    Γ'.inv (s', f x.1 s' x.2) ∧ Γ'.guar x (s', f x.1 s' x.2)

variable {τ : Type*} {π : σ → τ} {p : Prog σ α} {q : Prog ρ α} {f : σ → σ → γ → γ} {Γ : Ctx ρ}
  {Γ' : Ctx (σ × γ)} {Q : α → ρ → Prop}

/-- What is proved of a program on a part of the state, for the program on the whole state. -/
theorem Through.safe (hp : p.Through φ q) (hk : p.Keeps π) (hover : Over φ π f Γ Γ') {x : σ × γ}
    (hs : Safe Γ Q q (φ x.1)) : Safe Γ' (fun a y => Q a (φ y.1)) (p.metered f) x := by
  induction p generalizing x q with
  | ret a =>
    cases q with
    | ret b =>
      obtain rfl : a = b := hp
      exact fun y hr hi => hs (φ y.1) (hover.rely x y hr) (hover.inv y hi)
    | act v l => exact hp.elim
  | act u k ih =>
    cases q with
    | ret b => exact hp.elim
    | act v l =>
      intro y hr hi
      obtain ⟨hi', -, hrest⟩ := hs (φ y.1) (hover.rely x y hr) (hover.inv y hi)
      obtain ⟨hu, hthrough⟩ := hp y.1
      obtain ⟨hkeep, hk'⟩ := hk y.1
      rw [← hu] at hi' hrest
      obtain ⟨hinv', hguar⟩ := hover.step y (u y.1) hi hi' hkeep
      exact ⟨hinv', hguar, ih y.1 hthrough hk' hrest⟩

theorem Through.now (hp : p.Through φ q) (hk : p.Keeps π) (hover : Over φ π f Γ Γ') {x : σ × γ}
    (hi : Γ'.inv x) (hs : Now Γ Q q (φ x.1)) : Now Γ' (fun a y => Q a (φ y.1)) (p.metered f) x := by
  cases p with
  | ret a =>
    cases q with
    | ret b =>
      obtain rfl : a = b := hp
      exact hs
    | act v l => exact hp.elim
  | act u k =>
    cases q with
    | ret b => exact hp.elim
    | act v l =>
      obtain ⟨hi', -, hrest⟩ := hs
      obtain ⟨hu, hthrough⟩ := hp x.1
      obtain ⟨hkeep, hk'⟩ := hk x.1
      rw [← hu] at hi' hrest
      obtain ⟨hinv', hguar⟩ := hover.step x (u x.1) hi hi' hkeep
      exact ⟨hinv', hguar, hthrough.safe hk' hover hrest⟩

theorem Through.triple (hp : p.Through φ q) (hk : p.Keeps π) (hover : Over φ π f Γ Γ')
    {P : ρ → Prop} (h : Triple Γ P q Q) :
    Triple Γ' (fun x => P (φ x.1)) (p.metered f) fun a y => Q a (φ y.1) :=
  fun x hx hi => hp.safe hk hover (h hx (hover.inv x hi))

end

end Prog

end Interleave
