import Mathlib.Algebra.Order.Group.Multiset
import Mathlib.Logic.Relation

/-!
# Programs that hold resources

Programs that make requests and go on as the answer says, over a multiset of resources they hold. A
request has arguments that must be legal, consumes what it needs, and leaves what its answer says.

* `Spec Q p H`: run with `H`, whatever the answers are, `p` makes only requests that are legal and
  whose needs it holds, and ends with a result and resources in `Q`.
* `Spec.frame`: what is proved of a program with its own resources holds among any others.
* `Spec.safe`, `Spec.runs`: the two halves of what `Spec` says, about the runs of the program.
* `Trace`: the requests a run makes with their answers; `runs_iff` splits a run into its trace and
  what the trace does to the resources.
* `Object`: a value with operations that own what the value says. `Object.Sound.held` is about every
  sequence of operations: what is held is what was held before and what the value owns.
-/

namespace Resource

/-- Requests with their answers, and what they do to the resources. -/
structure Iface where
  Req : Type
  Ans : Req → Type
  Res : Type
  legal : Req → Prop
  needs : Req → Multiset Res
  leaves : (r : Req) → Ans r → Multiset Res

inductive Proc (I : Iface) (α : Type) : Type
  | ret (a : α)
  | call (r : I.Req) (k : I.Ans r → Proc I α)

variable {I : Iface} {α β : Type}

namespace Proc

def bind : Proc I α → (α → Proc I β) → Proc I β
  | ret a, f => f a
  | call r k, f => call r fun a => (k a).bind f

instance : Monad (Proc I) where
  pure := ret
  bind := bind

/-- One request. -/
def ask (r : I.Req) : Proc I (I.Ans r) := call r ret

/-- The run against an outside that answers from a state of its own. -/
def exec {σ : Type} (respond : (r : I.Req) → σ → I.Ans r × σ) : Proc I α → σ → α × σ
  | ret a, s => (a, s)
  | call r k, s => (k (respond r s).1).exec respond (respond r s).2

/-- The result where every request has a fixed answer. -/
def result (answers : (r : I.Req) → I.Ans r) (p : Proc I α) : α :=
  (p.exec (fun r s => (answers r, s)) ()).1

section
variable {σ : Type} {respond : (r : I.Req) → σ → I.Ans r × σ} {s : σ}

@[simp] theorem exec_pure (a : α) : (pure a : Proc I α).exec respond s = (a, s) := rfl

@[simp] theorem exec_ask_bind {r : I.Req} {k : I.Ans r → Proc I β} :
    (ask r >>= k).exec respond s = (k (respond r s).1).exec respond (respond r s).2 := rfl

end

end Proc

/-- Whatever the answers, every request is in order and the end is in `Q`. -/
def Spec (Q : α → Multiset I.Res → Prop) : Proc I α → Multiset I.Res → Prop
  | .ret a, H => Q a H
  | .call r k, H => I.legal r ∧ ∃ F, H = I.needs r + F ∧ ∀ a, Spec Q (k a) (I.leaves r a + F)

section
variable {Q Q' : α → Multiset I.Res → Prop} {p : Proc I α} {H F : Multiset I.Res}

theorem Spec.of_eq {H' : Multiset I.Res} (h : H = H') (hp : Spec Q p H') : Spec Q p H := h ▸ hp

/-- A request, with what is held apart from its needs. -/
theorem Spec.ask {r : I.Req} {k : I.Ans r → Proc I β} {Q : β → Multiset I.Res → Prop}
    (F : Multiset I.Res) (hlegal : I.legal r) (hneeds : H = I.needs r + F)
    (h : ∀ a, Spec Q (k a) (I.leaves r a + F)) : Spec Q (Proc.ask r >>= k) H :=
  ⟨hlegal, F, hneeds, h⟩

theorem Spec.mono (h : Spec Q p H) (hQ : ∀ a H, Q a H → Q' a H) : Spec Q' p H := by
  induction p generalizing H with
  | ret a => exact hQ a H h
  | call r k ih =>
    obtain ⟨hlegal, F, hneeds, hk⟩ := h
    exact ⟨hlegal, F, hneeds, fun a => ih a (hk a)⟩

theorem Spec.bind {f : α → Proc I β} {R : β → Multiset I.Res → Prop} (h : Spec Q p H)
    (hf : ∀ a H, Q a H → Spec R (f a) H) : Spec R (p >>= f) H := by
  change Spec R (p.bind f) H
  induction p generalizing H with
  | ret a => exact hf a H h
  | call r k ih =>
    obtain ⟨hlegal, F, hneeds, hk⟩ := h
    exact ⟨hlegal, F, hneeds, fun a => ih a (hk a)⟩

/-- **The frame rule.** -/
theorem Spec.frame (h : Spec Q p H) (F : Multiset I.Res) :
    Spec (fun a H' => ∃ G, Q a G ∧ H' = G + F) p (H + F) := by
  induction p generalizing H with
  | ret a => exact ⟨H, h, rfl⟩
  | call r k ih =>
    obtain ⟨hlegal, G, rfl, hk⟩ := h
    refine ⟨hlegal, G + F, add_assoc _ _ _, fun a => ?_⟩
    rw [← add_assoc]
    exact ih a (hk a)

/-- A call of a verified program among other resources. -/
theorem Spec.call {f : α → Proc I β} {R : β → Multiset I.Res → Prop} {G : Multiset I.Res}
    (h : Spec Q p G) (F : Multiset I.Res) (hH : H = G + F)
    (hf : ∀ a G', Q a G' → Spec R (f a) (G' + F)) : Spec R (p >>= f) H := by
  subst hH
  refine (h.frame F).bind fun a H' hH' => ?_
  obtain ⟨G', hQ, rfl⟩ := hH'
  exact hf a G' hQ

end

/-! ## Runs -/

/-- A run of a program: its answers come from the outside. -/
inductive Runs : Proc I α → Multiset I.Res → α → Multiset I.Res → Prop
  | ret (a : α) (H : Multiset I.Res) : Runs (.ret a) H a H
  | call {r : I.Req} {k : I.Ans r → Proc I α} {F H' : Multiset I.Res} {b : α} (a : I.Ans r) :
      Runs (k a) (I.leaves r a + F) b H' → Runs (.call r k) (I.needs r + F) b H'

/-- A run comes to a request that is not legal or whose needs are not held. -/
inductive Misuses : Proc I α → Multiset I.Res → Prop
  | here {r : I.Req} {k : I.Ans r → Proc I α} {H : Multiset I.Res} :
      ¬ (I.legal r ∧ I.needs r ≤ H) → Misuses (.call r k) H
  | later {r : I.Req} {k : I.Ans r → Proc I α} {F : Multiset I.Res} (a : I.Ans r) :
      Misuses (k a) (I.leaves r a + F) → Misuses (.call r k) (I.needs r + F)

section
variable {Q : α → Multiset I.Res → Prop} {p : Proc I α} {H : Multiset I.Res}

/-- What remains is as good as the whole, whatever the answer. -/
theorem Spec.answer {r : I.Req} {k : I.Ans r → Proc I α} {F : Multiset I.Res}
    (h : Spec Q (.call r k) (I.needs r + F)) (a : I.Ans r) : Spec Q (k a) (I.leaves r a + F) := by
  obtain ⟨-, G, hG, hk⟩ := h
  rw [add_left_cancel hG]
  exact hk a

theorem Spec.runs {b : α} {H' : Multiset I.Res} (h : Spec Q p H) (hrun : Runs p H b H') :
    Q b H' := by
  induction hrun with
  | ret a H => exact h
  | call a _ ih => exact ih (h.answer a)

/-- Answers do not keep a verified program from its end. -/
theorem Spec.total {σ : Type} (h : Spec Q p H) (respond : (r : I.Req) → σ → I.Ans r × σ) (s : σ) :
    ∃ H', Runs p H (p.exec respond s).1 H' := by
  induction p generalizing H s with
  | ret a => exact ⟨H, .ret a H⟩
  | call r k ih =>
    obtain ⟨-, F, rfl, hk⟩ := h
    obtain ⟨H', hrun⟩ := ih _ (hk _) _
    exact ⟨H', .call _ hrun⟩

theorem Spec.result (h : Spec Q p H) (answers : (r : I.Req) → I.Ans r) :
    ∃ H', Runs p H (p.result answers) H' := h.total _ _

theorem Spec.safe (h : Spec Q p H) : ¬ Misuses p H := by
  intro hm
  induction hm with
  | here hbad =>
    obtain ⟨hlegal, F, rfl, -⟩ := h
    exact hbad ⟨hlegal, Multiset.le_add_right _ _⟩
  | later a _ ih => exact ih (h.answer a)

end

/-! ## Traces -/

/-- A request with its answer. -/
abbrev Event (I : Iface) : Type := Σ r : I.Req, I.Ans r

/-- The requests that a run makes, with their answers, and its result. -/
inductive Trace : Proc I α → List (Event I) → α → Prop
  | ret (a : α) : Trace (.ret a) [] a
  | call {r : I.Req} {k : I.Ans r → Proc I α} {es : List (Event I)} {b : α} (a : I.Ans r) :
      Trace (k a) es b → Trace (.call r k) (⟨r, a⟩ :: es) b

/-- What requests do to the resources, given their answers. -/
inductive Effect : Multiset I.Res → List (Event I) → Multiset I.Res → Prop
  | nil (H : Multiset I.Res) : Effect H [] H
  | cons {r : I.Req} {a : I.Ans r} {es : List (Event I)} {F H' : Multiset I.Res} :
      Effect (I.leaves r a + F) es H' → Effect (I.needs r + F) (⟨r, a⟩ :: es) H'

section
variable {p : Proc I α} {es : List (Event I)} {b : α}

theorem runs_iff {H H' : Multiset I.Res} :
    Runs p H b H' ↔ ∃ es, Trace p es b ∧ Effect H es H' := by
  constructor
  · intro h
    induction h with
    | ret a H => exact ⟨[], .ret a, .nil H⟩
    | call a _ ih =>
      obtain ⟨es, htrace, heffect⟩ := ih
      exact ⟨_, .call a htrace, .cons heffect⟩
  · rintro ⟨es, htrace, heffect⟩
    induction htrace generalizing H with
    | ret a =>
      cases heffect
      exact .ret a _
    | call a _ ih =>
      cases heffect with
      | cons heffect => exact .call a (ih heffect)

/-- Fixed answers make a run. -/
theorem Spec.trace {Q : α → Multiset I.Res → Prop} {H : Multiset I.Res} (h : Spec Q p H)
    (answers : (r : I.Req) → I.Ans r) :
    ∃ es H', Trace p es (p.result answers) ∧ Effect H es H' := by
  obtain ⟨H', hrun⟩ := h.result answers
  obtain ⟨es, htrace, heffect⟩ := runs_iff.1 hrun
  exact ⟨es, H', htrace, heffect⟩

theorem Trace.pure_inv {a : α} (h : Trace (pure a : Proc I α) es b) : es = [] ∧ b = a := by
  cases h
  exact ⟨rfl, rfl⟩

theorem Trace.ask_inv {r : I.Req} {k : I.Ans r → Proc I α} (h : Trace (Proc.ask r >>= k) es b) :
    ∃ a es', es = ⟨r, a⟩ :: es' ∧ Trace (k a) es' b := by
  cases h with
  | call a h => exact ⟨a, _, rfl, h⟩

/-- A trace of a sequence is one of its first part and one of the second. -/
theorem Trace.bind_inv {f : α → Proc I β} {b : β} (h : Trace (p >>= f) es b) :
    ∃ es₁ es₂ a, es = es₁ ++ es₂ ∧ Trace p es₁ a ∧ Trace (f a) es₂ b := by
  change Trace (p.bind f) es b at h
  induction p generalizing es with
  | ret a => exact ⟨[], es, a, rfl, .ret a, h⟩
  | call r k ih =>
    cases h with
    | call a h =>
      obtain ⟨es₁, es₂, a', rfl, h₁, h₂⟩ := ih a h
      exact ⟨_, es₂, a', rfl, .call a h₁, h₂⟩

end

/-! ## Objects -/

/-- Values of `τ` with operations, what each value owns, what is known of it, and when an operation
may be made. -/
structure Object (I : Iface) (τ Op : Type) where
  run : Op → τ → Proc I τ
  owns : τ → Multiset I.Res
  inv : τ → Prop
  ready : Op → τ → Prop

namespace Object

variable {τ Op : Type} (O : Object I τ Op)

/-- Each operation turns what the value owns into what the new value owns. -/
def Sound : Prop := ∀ op t, O.inv t → O.ready op t →
  Spec (fun t' H => H = O.owns t' ∧ O.inv t') (O.run op t) (O.owns t)

inductive Step : τ × Multiset I.Res → τ × Multiset I.Res → Prop
  | op {op : Op} {t t' : τ} {H H' : Multiset I.Res} :
      O.ready op t → Runs (O.run op t) H t' H' → Step (t, H) (t', H')

variable {O}

/-- **Every sequence of operations** holds what was held before and what the value owns, and no
operation that may be made misuses a resource. -/
theorem Sound.held (h : O.Sound) {t₀ t : τ} {F H : Multiset I.Res} (hinv : O.inv t₀)
    (hrun : Relation.ReflTransGen O.Step (t₀, O.owns t₀ + F) (t, H)) :
    H = O.owns t + F ∧ O.inv t ∧ ∀ op, O.ready op t → ¬ Misuses (O.run op t) H := by
  suffices hheld : ∀ y, Relation.ReflTransGen O.Step (t₀, O.owns t₀ + F) y →
      y.2 = O.owns y.1 + F ∧ O.inv y.1 by
    obtain ⟨rfl, hinv⟩ : H = O.owns t + F ∧ O.inv t := hheld _ hrun
    exact ⟨rfl, hinv, fun op hready => ((h op t hinv hready).frame F).safe⟩
  intro y hy
  induction hy with
  | refl => exact ⟨rfl, hinv⟩
  | tail _ hstep ih =>
    cases hstep with
    | @op op t t' H H' hready hruns =>
      obtain ⟨rfl, hinv⟩ : H = O.owns t + F ∧ O.inv t := ih
      obtain ⟨G, ⟨rfl, hinv'⟩, rfl⟩ := ((h op t hinv hready).frame F).runs hruns
      exact ⟨rfl, hinv'⟩

end Object

end Resource
