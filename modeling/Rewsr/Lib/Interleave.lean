import Mathlib.Logic.Function.Basic
import Mathlib.Logic.Relation

/-!
# Interleaved programs

Programs whose steps on a shared state others interleave with, and rely-guarantee rules for them.

* `Prog σ α`: a tree of atomic steps; each step updates the state and goes on as the state it
  found says. `Prog.run` runs one alone.
* `Triple Γ P p Q`: in the context `Γ` (an invariant, what the others may do, what the program
  may do) `p` run from `P` keeps to its side at every step and ends in `Q`. One rule for each way
  of building a program (`Triple.pure`, `Triple.atomic`, `Triple.bind`), with assertions that are
  stable under the others' steps.
* `Sys`: threads that make calls one after the other, in any order and with steps of an environment
  in between. A call starts with its first step, so the state it was made in is the state that
  step finds.
* `Verified.sound`: calls that satisfy their triples give a system that keeps the invariant, every
  thread between calls in its idle assertion, and every call that ends in its postcondition.
-/

universe u v

namespace Interleave

/-- A program over the shared state `σ` with a result in `α`. -/
inductive Prog (σ : Type u) (α : Type v) : Type (max u v)
  | ret (a : α)
  | act (u : σ → σ) (k : σ → Prog σ α)

namespace Prog

variable {σ : Type u} {α β : Type v}

def bind : Prog σ α → (α → Prog σ β) → Prog σ β
  | ret a, f => f a
  | act u k, f => act u fun s => (k s).bind f

instance : Monad (Prog σ) where
  pure := ret
  bind := bind

/-- One atomic step with a result. -/
def atomic (f : σ → α × σ) : Prog σ α := act (fun s => (f s).2) fun s => ret (f s).1

/-- A step that only reads. -/
def load (f : σ → α) : Prog σ α := atomic fun s => (f s, s)

/-- A step that only writes. -/
def store (u : σ → σ) : Prog σ PUnit := atomic fun s => (⟨⟩, u s)

/-- The program run alone. -/
def run : Prog σ α → σ → α × σ
  | ret a, s => (a, s)
  | act u k, s => (k s).run (u s)

end Prog

theorem Prog.run_bind {σ : Type u} {α β : Type v} (p : Prog σ α) (q : α → Prog σ β) (s : σ) :
    (p >>= q).run s = (q (p.run s).1).run (p.run s).2 := by
  change (p.bind q).run s = _
  induction p generalizing s with
  | ret a => rfl
  | act u k ih => exact ih s (u s)

/-! ## Triples -/

/-- What a program is verified against: an invariant that everyone keeps, the steps the others may
take and the steps it may take itself. -/
structure Ctx (σ : Type u) where
  inv : σ → Prop
  rely : σ → σ → Prop
  guar : σ → σ → Prop
  refl : ∀ s, rely s s
  trans : ∀ {s₁ s₂ s₃}, rely s₁ s₂ → rely s₂ s₃ → rely s₁ s₃

section
variable {σ : Type u} {α β : Type v}

/-- From `s`, with steps of the others before each of its own, the program keeps to its side and
ends in `Q`. -/
def Safe (Γ : Ctx σ) (Q : α → σ → Prop) : Prog σ α → σ → Prop
  | .ret a, s => ∀ s', Γ.rely s s' → Γ.inv s' → Q a s'
  | .act u k, s => ∀ s', Γ.rely s s' → Γ.inv s' →
      Γ.inv (u s') ∧ Γ.guar s' (u s') ∧ Safe Γ Q (k s') (u s')

/-- As `Safe`, with the program's first step taken at once. -/
def Now (Γ : Ctx σ) (Q : α → σ → Prop) : Prog σ α → σ → Prop
  | .ret a, s => Q a s
  | .act u k, s => Γ.inv (u s) ∧ Γ.guar s (u s) ∧ Safe Γ Q (k s) (u s)

/-- The others' steps keep `P`. -/
def Stable (Γ : Ctx σ) (P : σ → Prop) : Prop := ∀ ⦃s s'⦄, P s → Γ.rely s s' → Γ.inv s' → P s'

def Triple (Γ : Ctx σ) (P : σ → Prop) (p : Prog σ α) (Q : α → σ → Prop) : Prop :=
  ∀ ⦃s⦄, P s → Γ.inv s → Safe Γ Q p s

variable {Γ : Ctx σ} {P P' : σ → Prop} {Q Q' : α → σ → Prop} {p : Prog σ α}

theorem Stable.and_fact (hP : Stable Γ P) (φ : Prop) : Stable Γ fun s => φ ∧ P s :=
  fun _ _ h hr hi => ⟨h.1, hP h.2 hr hi⟩

theorem Stable.and (hP : Stable Γ P) (hP' : Stable Γ P') : Stable Γ fun s => P s ∧ P' s :=
  fun _ _ h hr hi => ⟨hP h.1 hr hi, hP' h.2 hr hi⟩

theorem Safe.others {s s' : σ} (h : Safe Γ Q p s) (hr : Γ.rely s s') : Safe Γ Q p s' := by
  cases p with
  | ret a => exact fun s'' hr' => h s'' (Γ.trans hr hr')
  | act u k => exact fun s'' hr' => h s'' (Γ.trans hr hr')

theorem Safe.bind {f : α → Prog σ β} {Q' : β → σ → Prop} {s : σ} (h : Safe Γ Q p s)
    (hf : ∀ a, Triple Γ (Q a) (f a) Q') (hs : Γ.inv s) : Safe Γ Q' (p.bind f) s := by
  induction p generalizing s with
  | ret a => exact hf a (h s (Γ.refl s) hs) hs
  | act u k ih =>
    intro s' hr hi
    obtain ⟨h1, h2, h3⟩ := h s' hr hi
    exact ⟨h1, h2, ih s' h3 h1⟩

theorem Triple.pure {a : α} (hQ : Stable Γ (Q a)) (h : ∀ s, P s → Γ.inv s → Q a s) :
    Triple Γ P (pure a : Prog σ α) Q :=
  fun s hP hs _ hr hi => hQ (h s hP hs) hr hi

/-- A single step, from a stable assertion to stable ones. -/
theorem Triple.atomic {f : σ → α × σ} (hP : Stable Γ P) (hQ : ∀ a, Stable Γ (Q a))
    (h : ∀ s, P s → Γ.inv s → Γ.inv (f s).2 ∧ Γ.guar s (f s).2 ∧ Q (f s).1 (f s).2) :
    Triple Γ P (Prog.atomic f) Q := by
  intro s hPs _ s' hr hi
  obtain ⟨h1, h2, h3⟩ := h s' (hP hPs hr hi) hi
  exact ⟨h1, h2, fun _ hr' hi' => hQ _ h3 hr' hi'⟩

theorem Triple.bind {f : α → Prog σ β} {Q' : β → σ → Prop} (hp : Triple Γ P p Q)
    (hf : ∀ a, Triple Γ (Q a) (f a) Q') : Triple Γ P (p >>= f) Q' :=
  fun _ hP hs => (hp hP hs).bind hf hs

/-- A stronger precondition. -/
theorem Triple.weaken (hp : Triple Γ P p Q) (h : ∀ s, P' s → Γ.inv s → P s) : Triple Γ P' p Q :=
  fun s hP hs => hp (h s hP hs) hs

theorem Safe.mono {s : σ} (h : Safe Γ Q p s) (hQ : ∀ a s, Q a s → Q' a s) : Safe Γ Q' p s := by
  induction p generalizing s with
  | ret a => exact fun s' hr hi => hQ a s' (h s' hr hi)
  | act u k ih =>
    intro s' hr hi
    obtain ⟨h1, h2, h3⟩ := h s' hr hi
    exact ⟨h1, h2, ih s' h3⟩

/-- A weaker postcondition. -/
theorem Triple.mono (hp : Triple Γ P p Q) (hQ : ∀ a s, Q a s → Q' a s) : Triple Γ P p Q' :=
  fun _ hs hi => (hp hs hi).mono hQ

theorem Triple.of_exists {ι : Sort*} {P : ι → σ → Prop} (h : ∀ x, Triple Γ (P x) p Q) :
    Triple Γ (fun s => ∃ x, P x s) p Q := by
  rintro s ⟨x, hs⟩
  exact h x hs

/-- A fact about values in the precondition. -/
theorem Triple.of_fact {φ : Prop} (h : φ → Triple Γ P p Q) : Triple Γ (fun s => φ ∧ P s) p Q :=
  fun _ hs => h hs.1 hs.2

/-- A program run alone ends as it does among the others. -/
theorem Safe.run {s : σ} (h : Safe Γ Q p s) (hs : Γ.inv s) :
    Γ.inv (p.run s).2 ∧ Q (p.run s).1 (p.run s).2 := by
  induction p generalizing s with
  | ret a => exact ⟨hs, h s (Γ.refl s) hs⟩
  | act u k ih =>
    obtain ⟨h1, -, h3⟩ := h s (Γ.refl s) hs
    exact ih s h3 h1

/-- A call's first step, from an assertion that need not be stable, and the rest. -/
theorem Now.atomic_bind {f : σ → α × σ} {g : α → Prog σ β} {Q' : β → σ → Prop} {s : σ}
    (h : Γ.inv (f s).2 ∧ Γ.guar s (f s).2 ∧ Q (f s).1 (f s).2)
    (hg : ∀ a, Triple Γ (Q a) (g a) Q') : Now Γ Q' (Prog.atomic f >>= g) s :=
  ⟨h.1, h.2.1, hg _ h.2.2 h.1⟩

theorem Safe.now {s : σ} (h : Safe Γ Q p s) (hs : Γ.inv s) : Now Γ Q p s := by
  cases p with
  | ret a => exact h s (Γ.refl s) hs
  | act u k => exact h s (Γ.refl s) hs

/-- A call that is in order from every state of a stable assertion. -/
theorem Triple.of_now (hP : Stable Γ P) (h : ∀ s, P s → Γ.inv s → Now Γ Q p s) :
    Triple Γ P p Q := by
  intro s hs hi
  cases p with
  | ret a => exact fun s' hr hi' => h s' (hP hs hr hi') hi'
  | act u k => exact fun s' hr hi' => h s' (hP hs hr hi') hi'

/-- Two contexts at once: what a program does in one that allows more is done in the other too. -/
theorem Safe.and {Γ' : Ctx σ} {s : σ} (h : Safe Γ Q p s) (h' : Safe Γ' Q' p s)
    (hinv : ∀ s, Γ.inv s → Γ'.inv s) (hrely : ∀ s s', Γ.rely s s' → Γ'.rely s s') :
    Safe Γ (fun a s => Q a s ∧ Q' a s) p s := by
  induction p generalizing s with
  | ret a => exact fun s' hr hi => ⟨h s' hr hi, h' s' (hrely s s' hr) (hinv s' hi)⟩
  | act u k ih =>
    intro s' hr hi
    obtain ⟨h1, h2, h3⟩ := h s' hr hi
    obtain ⟨-, -, h3'⟩ := h' s' (hrely s s' hr) (hinv s' hi)
    exact ⟨h1, h2, ih s' h3 h3'⟩

theorem Triple.and {Γ' : Ctx σ} (h : Triple Γ P p Q) (h' : Triple Γ' P' p Q')
    (hinv : ∀ s, Γ.inv s → Γ'.inv s) (hrely : ∀ s s', Γ.rely s s' → Γ'.rely s s') :
    Triple Γ (fun s => P s ∧ P' s) p fun a s => Q a s ∧ Q' a s :=
  fun s hs hi => (h hs.1 hi).and (h' hs.2 (hinv s hi)) hinv hrely

theorem Now.and {Γ' : Ctx σ} {s : σ} (h : Now Γ Q p s) (h' : Now Γ' Q' p s)
    (hinv : ∀ s, Γ.inv s → Γ'.inv s) (hrely : ∀ s s', Γ.rely s s' → Γ'.rely s s') :
    Now Γ (fun a s => Q a s ∧ Q' a s) p s := by
  cases p with
  | ret a => exact ⟨h, h'⟩
  | act u k => exact ⟨h.1, h.2.1, h.2.2.and h'.2.2 hinv hrely⟩

/-- Others who leave `π` alone, and nothing else known of them. -/
def Ctx.only {τ : Type*} (π : σ → τ) : Ctx σ where
  inv _ := True
  rely s s' := π s' = π s
  guar _ _ := True
  refl _ := rfl
  trans h h' := h'.trans h

theorem Stable.only {τ : Type*} {π : σ → τ} (A : τ → Prop) :
    Stable (Ctx.only π) fun s => A (π s) := by
  intro s s' h hr _
  rw [hr]
  exact h

theorem Now.bind {f : α → Prog σ β} {Q' : β → σ → Prop} {s : σ} (h : Now Γ Q p s)
    (hf : ∀ a, Triple Γ (Q a) (f a) Q') (hs : Γ.inv s) : Now Γ Q' (p >>= f) s := by
  cases p with
  | ret a => exact (hf a h hs).now hs
  | act u k => exact ⟨h.1, h.2.1, h.2.2.bind hf h.1⟩

theorem Now.run {s : σ} (h : Now Γ Q p s) : Q (p.run s).1 (p.run s).2 := by
  cases p with
  | ret a => exact h
  | act u k => exact (h.2.2.run h.1).2

theorem Now.mono {s : σ} (h : Now Γ Q p s) (hQ : ∀ a s, Q a s → Q' a s) : Now Γ Q' p s := by
  cases p with
  | ret a => exact hQ a s h
  | act u k => exact ⟨h.1, h.2.1, h.2.2.mono hQ⟩

end

/-! ## Systems -/

/-- Threads `ι` that make calls `Op` with results `ρ`: what a call runs, which calls a thread may
make in a state, and the environment's steps. -/
structure Sys (ι : Type) (σ : Type u) (ρ Op : Type v) where
  body : Op → Prog σ ρ
  ok : ι → Op → σ → Prop
  env : σ → σ → Prop

/-- A thread is between calls, or inside the call `op` that it made in the state `s₀` with `p`
left to run. -/
inductive Phase (σ : Type u) (ρ Op : Type v)
  | idle
  | busy (op : Op) (s₀ : σ) (p : Prog σ ρ)

structure Config (ι : Type) (σ : Type u) (ρ Op : Type v) where
  mem : σ
  th : ι → Phase σ ρ Op

section
variable {ι : Type} [DecidableEq ι] {σ : Type u} {ρ Op : Type v}

inductive Step (S : Sys ι σ ρ Op) : Config ι σ ρ Op → Config ι σ ρ Op → Prop
  | call {c : Config ι σ ρ Op} {i : ι} {op : Op} {u : σ → σ} {k : σ → Prog σ ρ} :
      c.th i = .idle → S.ok i op c.mem → S.body op = .act u k →
      Step S c ⟨u c.mem, Function.update c.th i (.busy op c.mem (k c.mem))⟩
  | step {c : Config ι σ ρ Op} {i : ι} {op : Op} {s₀ : σ} {u : σ → σ} {k : σ → Prog σ ρ} :
      c.th i = .busy op s₀ (.act u k) →
      Step S c ⟨u c.mem, Function.update c.th i (.busy op s₀ (k c.mem))⟩
  | done {c : Config ι σ ρ Op} {i : ι} {op : Op} {s₀ : σ} {r : ρ} :
      c.th i = .busy op s₀ (.ret r) → Step S c ⟨c.mem, Function.update c.th i .idle⟩
  | env {c : Config ι σ ρ Op} {s' : σ} : S.env c.mem s' → Step S c ⟨s', c.th⟩

/-- The configurations of the runs that start in a state of `start` with every thread idle. -/
def Reach (S : Sys ι σ ρ Op) (start : σ → Prop) (c : Config ι σ ρ Op) : Prop :=
  ∃ s, start s ∧ Relation.ReflTransGen (Step S) ⟨s, fun _ => .idle⟩ c

/-- What a step does to one thread: nothing, the first step of a call, a further step or its
return. -/
theorem Step.thread {S : Sys ι σ ρ Op} {c c' : Config ι σ ρ Op} (h : Step S c c') (i : ι) :
    c'.th i = c.th i ∨
    (∃ op u k, c.th i = .idle ∧ S.ok i op c.mem ∧ S.body op = .act u k ∧ c'.mem = u c.mem ∧
      c'.th i = .busy op c.mem (k c.mem)) ∨
    (∃ op s₀ u k, c.th i = .busy op s₀ (.act u k) ∧ c'.mem = u c.mem ∧
      c'.th i = .busy op s₀ (k c.mem)) ∨
    c'.th i = .idle := by
  cases h with
  | @call j op u k hidle hok hbody =>
    by_cases hj : i = j
    · subst hj
      exact .inr (.inl ⟨op, u, k, hidle, hok, hbody, rfl, Function.update_self ..⟩)
    · exact .inl (Function.update_of_ne hj ..)
  | @step j op s₀ u k hbusy =>
    by_cases hj : i = j
    · subst hj
      exact .inr (.inr (.inl ⟨op, s₀, u, k, hbusy, rfl, Function.update_self ..⟩))
    · exact .inl (Function.update_of_ne hj ..)
  | @done j op s₀ r _ =>
    by_cases hj : i = j
    · subst hj
      exact .inr (.inr (.inr (Function.update_self ..)))
    · exact .inl (Function.update_of_ne hj ..)
  | env => exact .inl rfl

/-- A proof outline of a system: an invariant, for each thread its side of the steps and the
assertion it holds between calls, and for each call a postcondition. -/
structure Verified (S : Sys ι σ ρ Op) (start : σ → Prop) where
  inv : σ → Prop
  rely : ι → σ → σ → Prop
  guar : ι → σ → σ → Prop
  idle : ι → σ → Prop
  post : ι → Op → σ → ρ → σ → Prop
  refl : ∀ i s, rely i s s
  trans : ∀ i {s₁ s₂ s₃}, rely i s₁ s₂ → rely i s₂ s₃ → rely i s₁ s₃
  start_inv : ∀ s, start s → inv s
  start_idle : ∀ i s, start s → idle i s
  env_inv : ∀ {s s'}, inv s → S.env s s' → inv s'
  env_rely : ∀ i {s s'}, inv s → S.env s s' → rely i s s'
  guar_rely : ∀ {i j s s'}, i ≠ j → inv s → inv s' → guar i s s' → rely j s s'
  idle_stable : ∀ i {s s'}, idle i s → rely i s s' → inv s' → idle i s'
  call : ∀ i op s, inv s → idle i s → S.ok i op s →
    Now ⟨inv, rely i, guar i, refl i, trans i⟩ (post i op s) (S.body op) s
  done : ∀ i op s₀ r s, inv s → post i op s₀ r s → idle i s

namespace Verified

variable {S : Sys ι σ ρ Op} {start : σ → Prop} (V : Verified S start)

def ctx (i : ι) : Ctx σ := ⟨V.inv, V.rely i, V.guar i, V.refl i, V.trans i⟩

/-- What is known of a thread in a state. -/
def Holds (i : ι) (s : σ) : Phase σ ρ Op → Prop
  | .idle => V.idle i s
  | .busy op s₀ p => Safe (V.ctx i) (V.post i op s₀) p s

omit [DecidableEq ι] in
theorem Holds.others {i : ι} {s s' : σ} {t : Phase σ ρ Op} (h : V.Holds i s t)
    (hr : V.rely i s s') (hs' : V.inv s') : V.Holds i s' t := by
  cases t with
  | idle => exact V.idle_stable i h hr hs'
  | busy op s₀ p => exact Safe.others h hr

/-- A step of one thread, seen by all. -/
theorem holds_update {c : Config ι σ ρ Op} {i : ι} {s' : σ} {t : Phase σ ρ Op}
    (h : ∀ j, V.Holds j c.mem (c.th j)) (hs : V.inv c.mem) (hs' : V.inv s')
    (hg : V.guar i c.mem s') (ht : V.Holds i s' t) :
    ∀ j, V.Holds j s' (Function.update c.th i t j) := by
  intro j
  by_cases hj : j = i
  · subst hj
    rwa [Function.update_self]
  · rw [Function.update_of_ne hj]
    exact Holds.others V (h j) (V.guar_rely (Ne.symm hj) hs hs' hg) hs'

theorem step_holds {c c' : Config ι σ ρ Op} (hstep : Step S c c') (hs : V.inv c.mem)
    (h : ∀ i, V.Holds i c.mem (c.th i)) : V.inv c'.mem ∧ ∀ i, V.Holds i c'.mem (c'.th i) := by
  cases hstep with
  | @call i op u k hi hok hb =>
    have hidle := h i
    rw [hi] at hidle
    have hnow := V.call i op c.mem hs hidle hok
    rw [hb] at hnow
    obtain ⟨h1, h2, h3⟩ := hnow
    exact ⟨h1, V.holds_update h hs h1 h2 h3⟩
  | @step i op s₀ u k hi =>
    have hsafe := h i
    rw [hi] at hsafe
    obtain ⟨h1, h2, h3⟩ := hsafe c.mem (V.refl i c.mem) hs
    exact ⟨h1, V.holds_update h hs h1 h2 h3⟩
  | @done i op s₀ r hi =>
    have hsafe := h i
    rw [hi] at hsafe
    have hpost := hsafe c.mem (V.refl i c.mem) hs
    refine ⟨hs, fun j => ?_⟩
    dsimp only
    by_cases hj : j = i
    · subst hj
      rw [Function.update_self]
      exact V.done j op s₀ r c.mem hs hpost
    · rw [Function.update_of_ne hj]
      exact h j
  | env he =>
    have hs' := V.env_inv hs he
    exact ⟨hs', fun i => Holds.others V (h i) (V.env_rely i hs he) hs'⟩

/-- **Soundness**: the outline holds in every configuration of every run. -/
theorem sound {c : Config ι σ ρ Op} (h : Reach S start c) :
    V.inv c.mem ∧ ∀ i, V.Holds i c.mem (c.th i) := by
  obtain ⟨s, hs, hrun⟩ := h
  induction hrun with
  | refl => exact ⟨V.start_inv s hs, fun i => V.start_idle i s hs⟩
  | tail _ hstep ih => exact V.step_holds hstep ih.1 ih.2

/-- Every step of a run that changes the state is one a thread guarantees, or the environment's. -/
theorem step_guar {c c' : Config ι σ ρ Op} (h : Reach S start c) (hstep : Step S c c') :
    c'.mem = c.mem ∨ (∃ i, V.guar i c.mem c'.mem) ∨ S.env c.mem c'.mem := by
  obtain ⟨hs, hth⟩ := V.sound h
  cases hstep with
  | @call i op u k hi hok hb =>
    have hidle := hth i
    rw [hi] at hidle
    have hnow := V.call i op c.mem hs hidle hok
    rw [hb] at hnow
    exact .inr (.inl ⟨i, hnow.2.1⟩)
  | @step i op s₀ u k hi =>
    have hsafe := hth i
    rw [hi] at hsafe
    exact .inr (.inl ⟨i, (hsafe c.mem (V.refl i c.mem) hs).2.1⟩)
  | done => exact .inl rfl
  | env he => exact .inr (.inr he)

theorem idle_of_reach {c : Config ι σ ρ Op} (h : Reach S start c) {i : ι} (hi : c.th i = .idle) :
    V.idle i c.mem := by
  have := (V.sound h).2 i
  rwa [hi] at this

theorem post_of_reach {c : Config ι σ ρ Op} (h : Reach S start c) {i : ι} {op : Op} {s₀ : σ} {r : ρ}
    (hi : c.th i = .busy op s₀ (.ret r)) : V.post i op s₀ r c.mem := by
  have hsafe := (V.sound h).2 i
  rw [hi] at hsafe
  exact hsafe c.mem (V.refl i c.mem) (V.sound h).1

end Verified

/-! ## Building runs -/

variable {S : Sys ι σ ρ Op} {start : σ → Prop}

theorem Reach.initial {s : σ} (h : start s) : Reach S start ⟨s, fun _ => .idle⟩ := ⟨s, h, .refl⟩

theorem Reach.tail {c c' : Config ι σ ρ Op} (h : Reach S start c) (hstep : Step S c c') :
    Reach S start c' := by
  obtain ⟨s, hs, hrun⟩ := h
  exact ⟨s, hs, hrun.tail hstep⟩

/-- The first step of a call. -/
theorem Reach.starts {s : σ} {th : ι → Phase σ ρ Op} {u : σ → σ} {k : σ → Prog σ ρ}
    (h : Reach S start ⟨s, th⟩) (i : ι) (op : Op) (hi : th i = .idle) (hok : S.ok i op s)
    (hb : S.body op = .act u k) :
    Reach S start ⟨u s, Function.update th i (.busy op s (k s))⟩ := h.tail (.call hi hok hb)

/-- The rest of a thread's call up to its return, with nothing in between. -/
theorem Reach.returns {s s₀ : σ} {th : ι → Phase σ ρ Op} {i : ι} {op : Op} {p : Prog σ ρ}
    (h : Reach S start ⟨s, Function.update th i (.busy op s₀ p)⟩) :
    Reach S start ⟨(p.run s).2, Function.update th i (.busy op s₀ (.ret (p.run s).1))⟩ := by
  induction p generalizing s with
  | ret a => exact h
  | act u k ih =>
    have hi : Function.update th i (.busy op s₀ (.act u k)) i = .busy op s₀ (.act u k) :=
      Function.update_self ..
    have hstep := h.tail (.step hi)
    rw [Function.update_idem] at hstep
    exact ih s hstep

/-- A call of a thread up to its return, with nothing in between. -/
theorem Reach.call_returns {s : σ} {u : σ → σ} {k : σ → Prog σ ρ}
    (h : Reach S start ⟨s, fun _ => .idle⟩) (i : ι) (op : Op) (hok : S.ok i op s)
    (hb : S.body op = .act u k) : Reach S start ⟨((S.body op).run s).2,
      Function.update (fun _ => .idle) i (.busy op s (.ret ((S.body op).run s).1))⟩ := by
  have hcall := h.starts i op rfl hok hb
  rw [hb]
  exact hcall.returns

/-- A whole call of a thread, with nothing in between, wherever the others are in theirs. -/
theorem Reach.call_among {s : σ} {th : ι → Phase σ ρ Op} {u : σ → σ} {k : σ → Prog σ ρ}
    (h : Reach S start ⟨s, th⟩) (i : ι) (op : Op) (hi : th i = .idle) (hok : S.ok i op s)
    (hb : S.body op = .act u k) : Reach S start ⟨((S.body op).run s).2, th⟩ := by
  have hcall := (h.starts i op hi hok hb).returns
  have hret : Function.update th i (.busy op s (.ret ((k s).run (u s)).1)) i =
      .busy op s (.ret ((k s).run (u s)).1) := Function.update_self ..
  have hdone := hcall.tail (.done hret)
  rw [Function.update_idem, ← hi, Function.update_eq_self] at hdone
  rw [hb]
  exact hdone

/-- A whole call of a thread, with nothing in between. -/
theorem Reach.call {s : σ} {u : σ → σ} {k : σ → Prog σ ρ}
    (h : Reach S start ⟨s, fun _ => .idle⟩) (i : ι) (op : Op) (hok : S.ok i op s)
    (hb : S.body op = .act u k) : Reach S start ⟨((S.body op).run s).2, fun _ => .idle⟩ :=
  h.call_among i op rfl hok hb

end

end Interleave
