import Mathlib.Data.Multiset.Filter
import Rewsr.Lib.Resource

/-!
# Programs that start threads

A thread gets the resources that the request which starts it takes, works on them while the program
goes on, and leaves what it has to the request that joins it. The program itself has a token of the
thread in between.

`Threading.reaches`: where the program meets its `Spec` and a thread leaves what it was given, every
interleaving of them makes legal requests on resources that the one who asks has, and the threads
that run are those the program has tokens of. `Threading.Conf.Inv.progress`: the program waits only
for a thread that has not ended.
-/

namespace Resource

/-- The requests that start and join threads. -/
structure Threading (I : Iface) where
  Thread : Type
  token : I.Res → Option Thread
  starts : (r : I.Req) → I.Ans r → Option Thread
  joins : I.Req → Option Thread
  given : Thread → Multiset I.Res
  /-- the programs a thread may run -/
  body : Thread → Proc I Unit → Prop
  needs_start {r : I.Req} {a : I.Ans r} {t : Thread} : starts r a = some t → I.needs r = given t
  tokens_start {r : I.Req} {a : I.Ans r} {t : Thread} : starts r a = some t →
    (I.leaves r a).filterMap token = t ::ₘ (I.needs r).filterMap token
  needs_join {r : I.Req} {t : Thread} : joins r = some t → (I.needs r).filterMap token = {t}
  leaves_join {r : I.Req} {t : Thread} (a : I.Ans r) : joins r = some t → I.leaves r a = given t
  tokens_given (t : Thread) : (given t).filterMap token = 0
  tokens_keep {r : I.Req} (a : I.Ans r) : starts r a = none → joins r = none →
    (I.leaves r a).filterMap token = (I.needs r).filterMap token

variable {I : Iface} {α : Type}

/-- The next request, if there is one, is legal and its needs are held. -/
def InOrder : Proc I α → Multiset I.Res → Prop
  | .ret _, _ => True
  | .call r _, H => I.legal r ∧ I.needs r ≤ H

theorem Spec.inOrder {Q : α → Multiset I.Res → Prop} {p : Proc I α} {H : Multiset I.Res}
    (h : Spec Q p H) : InOrder p H := by
  cases p with
  | ret a => trivial
  | call r k =>
    obtain ⟨hlegal, F, rfl, -⟩ := h
    exact ⟨hlegal, Multiset.le_add_right _ _⟩

namespace Threading

variable (T : Threading I)

/-- A thread that was started, what it has still to do, and what it has. -/
structure Started where
  thread : T.Thread
  rest : Proc I Unit
  held : Multiset I.Res

/-- The program and the threads that were started and not joined. -/
structure Conf (α : Type) where
  main : Proc I α
  held : Multiset I.Res
  threads : Multiset T.Started

variable {T}

inductive Step : T.Conf α → T.Conf α → Prop
  | request {r : I.Req} {k : I.Ans r → Proc I α} {F : Multiset I.Res} {ts : Multiset T.Started}
      (a : I.Ans r) : T.starts r a = none → T.joins r = none →
      Step ⟨.call r k, I.needs r + F, ts⟩ ⟨k a, I.leaves r a + F, ts⟩
  | start {r : I.Req} {k : I.Ans r → Proc I α} {F : Multiset I.Res} {ts : Multiset T.Started}
      {t : T.Thread} {q : Proc I Unit} (a : I.Ans r) : T.starts r a = some t → T.body t q →
      Step ⟨.call r k, I.needs r + F, ts⟩ ⟨k a, I.leaves r a + F, ⟨t, q, I.needs r⟩ ::ₘ ts⟩
  | join {r : I.Req} {k : I.Ans r → Proc I α} {F G : Multiset I.Res} {ts : Multiset T.Started}
      {t : T.Thread} (a : I.Ans r) : T.joins r = some t →
      Step ⟨.call r k, I.needs r + F, ⟨t, .ret (), G⟩ ::ₘ ts⟩ ⟨k a, G + F, ts⟩
  | thread {p : Proc I α} {H G : Multiset I.Res} {ts : Multiset T.Started} {t : T.Thread}
      {r : I.Req} {k : I.Ans r → Proc I Unit} (a : I.Ans r) :
      Step ⟨p, H, ⟨t, .call r k, I.needs r + G⟩ ::ₘ ts⟩ ⟨p, H, ⟨t, k a, I.leaves r a + G⟩ ::ₘ ts⟩

/-- Whoever goes on next makes a request that is in order. -/
def Conf.Safe (c : T.Conf α) : Prop :=
  InOrder c.main c.held ∧ ∀ x ∈ c.threads, InOrder x.rest x.held

/-- The program makes its next request. -/
def Conf.GoesOn (c : T.Conf α) : Prop :=
  ∃ r k a c', c.main = .call r k ∧ Step c c' ∧ c'.main = k a

/-- The program is at the join of a thread that has not ended. -/
def Conf.Waits (c : T.Conf α) : Prop :=
  ∃ r k x, c.main = .call r k ∧ x ∈ c.threads ∧ T.joins r = some x.thread ∧ ∀ u, x.rest ≠ .ret u

/-- The program meets its `Spec`, each thread will leave what it was given, and the program has a
token of each. -/
structure Conf.Inv (Q : α → Multiset I.Res → Prop) (H₀ : Multiset I.Res) (c : T.Conf α) :
    Prop where
  main : Spec Q c.main c.held
  threads : ∀ x ∈ c.threads, Spec (fun _ G => G = T.given x.thread) x.rest x.held
  tokens : c.held.filterMap T.token = c.threads.map Started.thread + H₀.filterMap T.token

variable {Q : α → Multiset I.Res → Prop} {H₀ : Multiset I.Res} {c c' : T.Conf α}

theorem Step.inv (hbody : ∀ t q, T.body t q → Spec (fun _ G => G = T.given t) q (T.given t))
    (h : Step c c') (hinv : c.Inv Q H₀) : c'.Inv Q H₀ := by
  obtain ⟨hmain, hthreads, htokens⟩ := hinv
  cases h with
  | request a hstarts hjoins =>
    refine ⟨hmain.answer a, hthreads, ?_⟩
    rw [Multiset.filterMap_add, T.tokens_keep a hstarts hjoins, ← Multiset.filterMap_add]
    exact htokens
  | @start r k F ts t q a hstarts hq =>
    have hneeds := T.needs_start hstarts
    refine ⟨hmain.answer a, ?_, ?_⟩
    · rintro x hx
      rcases Multiset.mem_cons.mp hx with rfl | hx
      · exact hneeds ▸ hbody t q hq
      · exact hthreads x hx
    · rw [Multiset.filterMap_add, T.tokens_start hstarts, Multiset.cons_add,
        ← Multiset.filterMap_add, Multiset.map_cons, Multiset.cons_add]
      exact congrArg _ htokens
  | @join r k F G ts t a hjoins =>
    -- the thread has come to its end, so what it has is what it was given
    obtain rfl : G = T.given t := hthreads _ (Multiset.mem_cons_self _ _)
    have hleft := hmain.answer a
    rw [T.leaves_join a hjoins] at hleft
    refine ⟨hleft, fun x hx => hthreads x (Multiset.mem_cons_of_mem hx), ?_⟩
    simp only [Multiset.filterMap_add, T.needs_join hjoins, Multiset.map_cons] at htokens
    rw [Multiset.filterMap_add, T.tokens_given, zero_add]
    rw [Multiset.singleton_add, Multiset.cons_add] at htokens
    exact (Multiset.cons_inj_right _).mp htokens
  | @thread p H G ts t r k a =>
    refine ⟨hmain, ?_, ?_⟩
    · rintro x hx
      rcases Multiset.mem_cons.mp hx with rfl | hx
      · exact (hthreads _ (Multiset.mem_cons_self _ _)).answer a
      · exact hthreads x (Multiset.mem_cons_of_mem hx)
    · simpa only [Multiset.map_cons] using htokens

/-- **Every interleaving** of a program that meets its `Spec` with threads that leave what they were
given. -/
theorem reaches (hbody : ∀ t q, T.body t q → Spec (fun _ G => G = T.given t) q (T.given t))
    {p : Proc I α} (hp : Spec Q p H₀)
    (h : Relation.ReflTransGen Step (⟨p, H₀, 0⟩ : T.Conf α) c) : c.Inv Q H₀ := by
  induction h with
  | refl => exact ⟨hp, fun x hx => absurd hx (Multiset.notMem_zero x), (zero_add _).symm⟩
  | tail _ hstep ih => exact hstep.inv hbody ih

theorem Conf.Inv.safe (h : c.Inv Q H₀) : c.Safe :=
  ⟨h.main.inOrder, fun x hx => (h.threads x hx).inOrder⟩

/-- A program that has not ended goes on or waits for a thread that has not ended. -/
theorem Conf.Inv.progress (hinv : c.Inv Q H₀) (hH₀ : H₀.filterMap T.token = 0)
    (hans : ∀ r, Nonempty (I.Ans r)) (hbody : ∀ t, ∃ q, T.body t q) :
    (∃ b, c.main = .ret b) ∨ c.GoesOn ∨ c.Waits := by
  obtain ⟨main, held, threads⟩ := c
  obtain ⟨hmain, hthreads, htokens⟩ := hinv
  cases main with
  | ret b => exact .inl ⟨b, rfl⟩
  | call r k =>
    right
    obtain ⟨-, F, rfl, hk⟩ := hmain
    obtain ⟨a⟩ := hans r
    rcases hjoins : T.joins r with - | t
    · rcases hstarts : T.starts r a with - | t
      · exact .inl ⟨r, k, a, _, rfl, .request a hstarts hjoins, rfl⟩
      · obtain ⟨q, hq⟩ := hbody t
        exact .inl ⟨r, k, a, _, rfl, .start a hstarts hq, rfl⟩
    · have hmem : t ∈ threads.map Started.thread := by
        simp only [Multiset.filterMap_add, T.needs_join hjoins, hH₀, add_zero] at htokens
        rw [← htokens]
        exact Multiset.mem_add.mpr (.inl (Multiset.mem_singleton_self t))
      obtain ⟨⟨t, q, G⟩, hx, rfl⟩ := Multiset.mem_map.mp hmem
      cases q with
      | ret u =>
        obtain ⟨ts, rfl⟩ := Multiset.exists_cons_of_mem hx
        exact .inl ⟨r, k, a, _, rfl, .join a hjoins, rfl⟩
      | call r' k' => exact .inr ⟨r, k, _, rfl, hx, hjoins, nofun⟩

end Threading

end Resource
