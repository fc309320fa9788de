import Mathlib.Computability.Language
import Mathlib.Tactic.Common

/-! # Regular expressions over character classes

The letters of an expression are classes, any predicate on the alphabet, so that a negated class is
a letter like any other. Matching is by derivatives.
-/

inductive Regex (α : Type)
  | never
  | empty
  | one (p : α → Bool)
  | seq (r s : Regex α)
  | alt (r s : Regex α)
  | star (r : Regex α)

namespace Regex

open Computability

variable {α : Type} {r s : Regex α} {p : α → Bool} {a : α} {l : List α}

def plus (r : Regex α) : Regex α := seq r (star r)

def opt (r : Regex α) : Regex α := alt r empty

def lang : Regex α → Language α
  | never => 0
  | empty => 1
  | one p => {l | ∃ a, p a ∧ l = [a]}
  | seq r s => lang r * lang s
  | alt r s => lang r + lang s
  | star r => (lang r)∗

def nullable : Regex α → Bool
  | never => false
  | empty => true
  | one _ => false
  | seq r s => nullable r && nullable s
  | alt r s => nullable r || nullable s
  | star _ => true

/-- What is left to match after a letter. -/
def deriv (a : α) : Regex α → Regex α
  | never => never
  | empty => never
  | one p => if p a then empty else never
  | seq r s => if nullable r then alt (seq (deriv a r) s) (deriv a s) else seq (deriv a r) s
  | alt r s => alt (deriv a r) (deriv a s)
  | star r => seq (deriv a r) (star r)

def fullmatch : Regex α → List α → Bool
  | r, [] => nullable r
  | r, a :: l => fullmatch (deriv a r) l

def prefixMatch : Regex α → List α → Bool
  | r, [] => nullable r
  | r, a :: l => nullable r || prefixMatch (deriv a r) l

@[simp] theorem notMem_lang_never : l ∉ lang never := Language.notMem_zero l

@[simp] theorem mem_lang_empty : l ∈ lang empty ↔ l = [] := Language.mem_one l

theorem mem_lang_one : l ∈ lang (one p) ↔ ∃ a, p a ∧ l = [a] := Iff.rfl

theorem mem_lang_seq : l ∈ lang (seq r s) ↔ ∃ x ∈ lang r, ∃ y ∈ lang s, x ++ y = l :=
  Language.mem_mul

@[simp] theorem mem_lang_alt : l ∈ lang (alt r s) ↔ l ∈ lang r ∨ l ∈ lang s :=
  Language.mem_add _ _ l

@[simp] theorem nil_mem_lang_star : [] ∈ lang (star r) := Language.nil_mem_kstar _

/-! ### Matching decides the language -/

theorem nullable_iff : nullable r ↔ [] ∈ lang r := by
  induction r with
  | never => simp [nullable]
  | empty => simp [nullable]
  | one p => simp [nullable, mem_lang_one]
  | seq r s ihr ihs => simp [nullable, mem_lang_seq, ihr, ihs]
  | alt r s ihr ihs => simp [nullable, ihr, ihs]
  | star r => simp [nullable]

theorem cons_mem_mul {A B : Language α} : a :: l ∈ A * B ↔
    (∃ x y, x ++ y = l ∧ a :: x ∈ A ∧ y ∈ B) ∨ ([] ∈ A ∧ a :: l ∈ B) := by
  rw [Language.mem_mul]
  constructor
  · rintro ⟨x, hx, y, hy, h⟩
    rcases x with _ | ⟨b, x⟩
    · exact .inr ⟨hx, h ▸ hy⟩
    · obtain ⟨rfl, rfl⟩ := List.cons.inj h
      exact .inl ⟨x, y, rfl, hx, hy⟩
  · rintro (⟨x, y, rfl, hx, hy⟩ | ⟨hnil, hl⟩)
    · exact ⟨a :: x, hx, y, hy, rfl⟩
    · exact ⟨[], hnil, a :: l, hl, rfl⟩

theorem cons_mem_kstar {A : Language α} :
    a :: l ∈ A∗ ↔ ∃ x y, x ++ y = l ∧ a :: x ∈ A ∧ y ∈ A∗ := by
  constructor
  · intro h
    obtain ⟨L, hL, hmem⟩ := Language.mem_kstar_iff_exists_nonempty.mp h
    rcases L with _ | ⟨_ | ⟨b, x⟩, L⟩
    · cases hL
    · exact absurd rfl (hmem [] List.mem_cons_self).2
    · obtain ⟨rfl, rfl⟩ := List.cons.inj hL
      refine ⟨x, L.flatten, rfl, (hmem _ List.mem_cons_self).1, ?_⟩
      exact Language.join_mem_kstar fun y hy => (hmem y (List.mem_cons_of_mem _ hy)).1
  · rintro ⟨x, y, rfl, hx, hy⟩
    obtain ⟨L, rfl, hmem⟩ := Language.mem_kstar.mp hy
    refine Language.mem_kstar.mpr ⟨(a :: x) :: L, by simp, ?_⟩
    simpa [hx] using hmem

theorem mem_lang_deriv : l ∈ lang (deriv a r) ↔ a :: l ∈ lang r := by
  induction r generalizing l with
  | never => simp [deriv]
  | empty => simp [deriv]
  | one p =>
    rw [deriv, mem_lang_one]
    split
    next h => simp [h]
    next h => simp [h]
  | seq r s ihr ihs =>
    have hleft : l ∈ lang (seq (deriv a r) s) ↔
        ∃ x y, x ++ y = l ∧ a :: x ∈ lang r ∧ y ∈ lang s := by
      rw [mem_lang_seq]
      constructor
      · rintro ⟨x, hx, y, hy, h⟩
        exact ⟨x, y, h, ihr.mp hx, hy⟩
      · rintro ⟨x, y, h, hx, hy⟩
        exact ⟨x, ihr.mpr hx, y, hy, h⟩
    rw [deriv, lang, cons_mem_mul, ← nullable_iff, ← hleft]
    split
    next h => rw [mem_lang_alt, ihs, eq_true h, true_and]
    next h => rw [eq_false h, false_and, or_false]
  | alt r s ihr ihs => simp [deriv, ihr, ihs]
  | star r ih =>
    rw [deriv, mem_lang_seq, lang, cons_mem_kstar]
    constructor
    · rintro ⟨x, hx, y, hy, h⟩
      exact ⟨x, y, h, ih.mp hx, hy⟩
    · rintro ⟨x, y, h, hx, hy⟩
      exact ⟨x, ih.mpr hx, y, hy, h⟩

theorem fullmatch_iff : fullmatch r l ↔ l ∈ lang r := by
  induction l generalizing r with
  | nil => rw [fullmatch, nullable_iff]
  | cons a l ih => rw [fullmatch, ih, mem_lang_deriv]

theorem prefixMatch_iff : prefixMatch r l ↔ ∃ x ∈ lang r, x <+: l := by
  induction l generalizing r with
  | nil => simp [prefixMatch, nullable_iff]
  | cons a l ih =>
    rw [prefixMatch, Bool.or_eq_true, nullable_iff, ih]
    constructor
    · rintro (h | ⟨x, hx, hl⟩)
      · exact ⟨[], h, List.nil_prefix⟩
      · exact ⟨a :: x, mem_lang_deriv.mp hx, List.cons_prefix_cons.mpr ⟨rfl, hl⟩⟩
    · rintro ⟨x, hx, hl⟩
      rcases x with _ | ⟨b, x⟩
      · exact .inl hx
      · obtain ⟨rfl, hx'⟩ := List.cons_prefix_cons.mp hl
        exact .inr ⟨x, mem_lang_deriv.mpr hx, hx'⟩

/-! ### The languages of the usual shapes -/

theorem mem_lang_opt : l ∈ lang (opt r) ↔ l ∈ lang r ∨ l = [] := by
  rw [opt, mem_lang_alt, mem_lang_empty]

theorem mem_lang_star_one : l ∈ lang (star (one p)) ↔ ∀ a ∈ l, p a := by
  induction l with
  | nil => simp
  | cons a l ih =>
    rw [lang, cons_mem_kstar, List.forall_mem_cons, ← ih]
    constructor
    · rintro ⟨x, y, rfl, ⟨b, hb, hx⟩, hy⟩
      obtain ⟨rfl, rfl⟩ := List.cons.inj hx
      exact ⟨hb, hy⟩
    · rintro ⟨ha, hl⟩
      exact ⟨[], l, rfl, ⟨a, ha, rfl⟩, hl⟩

theorem mem_lang_plus_one : l ∈ lang (plus (one p)) ↔ l ≠ [] ∧ ∀ a ∈ l, p a := by
  rw [plus, mem_lang_seq]
  constructor
  · rintro ⟨-, ⟨a, ha, rfl⟩, y, hy, rfl⟩
    simpa [ha] using mem_lang_star_one.mp hy
  · rintro ⟨hne, h⟩
    obtain ⟨a, l, rfl⟩ := List.exists_cons_of_ne_nil hne
    rw [List.forall_mem_cons] at h
    exact ⟨[a], ⟨a, h.1, rfl⟩, l, mem_lang_star_one.mpr h.2, rfl⟩

end Regex
