import Mathlib.Data.List.Find
import Mathlib.Data.List.Sort
import Mathlib.Data.Prod.Lex

/-! # Lists in order

What sorting by two keys makes of a list, and what a search finds in a list that is in order.
-/

namespace List

variable {α β γ : Type}

theorem pairwise_insertionSort_lex [LinearOrder β] [LinearOrder γ] (f : α → β) (g : α → γ)
    (r : α → α → Prop) [DecidableRel r]
    (hr : ∀ a b, r a b ↔ f a < f b ∨ (f a = f b ∧ g a ≤ g b)) (xs : List α) :
    (xs.insertionSort r).Pairwise r := by
  have hlex : ∀ a b, r a b ↔ toLex (f a, g a) ≤ toLex (f b, g b) := fun a b => by
    rw [hr, Prod.Lex.toLex_le_toLex]
  have : Std.Total r := ⟨fun a b => by
    rw [hlex, hlex]
    exact le_total _ _⟩
  have : IsTrans α r := ⟨fun a b c => by
    rw [hlex, hlex, hlex]
    exact le_trans⟩
  exact List.pairwise_insertionSort _ _

/-- What a search of a list in order finds comes before everything else that it could find. -/
theorem find?_eq_some_iff_of_pairwise {r : α → α → Prop} (hasymm : ∀ a b, r a b → ¬ r b a)
    {p : α → Bool} {xs : List α} (h : xs.Pairwise r) {x : α} :
    xs.find? p = some x ↔ x ∈ xs ∧ p x ∧ ∀ y ∈ xs, p y → y = x ∨ r x y := by
  have hfirst : ∀ x, xs.find? p = some x → ∀ y ∈ xs, p y → y = x ∨ r x y := by
    intro x hx y hy hp
    obtain ⟨-, before, after, rfl, hbefore⟩ := List.find?_eq_some_iff_append.mp hx
    rcases List.mem_append.mp hy with hy | hy
    · exact absurd hp (by simpa using hbefore y hy)
    · rcases List.mem_cons.mp hy with rfl | hy
      · exact .inl rfl
      · exact .inr ((List.pairwise_cons.mp (List.pairwise_append.mp h).2.1).1 y hy)
  constructor
  · intro hx
    exact ⟨List.mem_of_find?_eq_some hx, List.find?_some hx, hfirst x hx⟩
  · rintro ⟨hx, hp, hall⟩
    cases hfound : xs.find? p with
    | none => exact absurd hp (List.find?_eq_none.mp hfound x hx)
    | some y =>
      rcases hall y (List.mem_of_find?_eq_some hfound) (List.find?_some hfound) with rfl | hxy
      · rfl
      · rcases hfirst y hfound x hx hp with rfl | hyx
        · rfl
        · exact absurd hyx (hasymm x y hxy)

end List
