import Mathlib.Data.List.Forall2
import OrchKit.Data.Checked

/-! # Loops that collect

Code that reads one thing for each element of a list, until there would be more than it may have.
-/

namespace Except

variable {ε α β γ : Type}

theorem mapM_eq_ok_iff {f : α → Except ε β} {xs : List α} {ys : List β} :
    xs.mapM f = .ok ys ↔ xs.map f = ys.map .ok := by
  induction xs generalizing ys with
  | nil =>
    rw [List.mapM_nil, pure_eq_ok_iff, List.map_nil]
    simp [eq_comm]
  | cons x xs ih =>
    simp only [List.mapM_cons, bind_eq_ok_iff, pure_eq_ok_iff, ih, List.map_cons]
    constructor
    · rintro ⟨y, hy, ys, hys, rfl⟩
      rw [hy, hys, List.map_cons]
    · intro h
      cases ys with
      | nil => cases h
      | cons y ys =>
        obtain ⟨hy, hys⟩ := List.cons.inj h
        exact ⟨y, hy, ys, hys, rfl⟩

theorem exists_map_eq_ok_iff {f : α → Except ε β} {xs : List α} :
    (∃ ys : List β, xs.map f = ys.map .ok) ↔ ∀ x ∈ xs, ∃ y, f x = .ok y := by
  constructor
  · rintro ⟨ys, h⟩ x hx
    have hmem : f x ∈ ys.map .ok := h ▸ List.mem_map_of_mem hx
    obtain ⟨y, -, hy⟩ := List.mem_map.mp hmem
    exact ⟨y, hy.symm⟩
  · intro h
    induction xs with
    | nil => exact ⟨[], rfl⟩
    | cons x xs ih =>
      rw [List.forall_mem_cons] at h
      obtain ⟨⟨y, hy⟩, hrest⟩ := h
      obtain ⟨ys, hys⟩ := ih hrest
      exact ⟨y :: ys, by rw [List.map_cons, List.map_cons, hy, hys]⟩

theorem perm_of_map_eq_ok {f : α → Except ε β} {xs xs' : List α} {ys ys' : List β}
    (h : xs.map f = ys.map .ok) (h' : xs'.map f = ys'.map .ok) (hperm : xs.Perm xs') :
    ys.Perm ys' := by
  have hmap := hperm.map f
  rw [h, h'] at hmap
  have hread (ys : List β) : (ys.map Except.ok).filterMap (Except.toOption (ε := ε)) = ys := by
    rw [List.filterMap_map]
    exact List.filterMap_some
  rw [← hread ys, ← hread ys']
  exact hmap.filterMap _

/-! ### What was read of which -/

section Forall₂

variable {R : α → β → Prop} {xs : List α} {ys : List β}

theorem exists_right_of_forall₂ (h : List.Forall₂ R xs ys) {x : α} (hx : x ∈ xs) :
    ∃ y ∈ ys, R x y := by
  induction h with
  | nil => cases hx
  | cons hxy _ ih =>
    rcases List.mem_cons.mp hx with rfl | hx
    · exact ⟨_, List.mem_cons_self, hxy⟩
    · obtain ⟨y, hy, hr⟩ := ih hx
      exact ⟨y, List.mem_cons_of_mem _ hy, hr⟩

theorem exists_left_of_forall₂ (h : List.Forall₂ R xs ys) {y : β} (hy : y ∈ ys) :
    ∃ x ∈ xs, R x y :=
  exists_right_of_forall₂ h.flip hy

theorem exists_forall₂ (h : ∀ x ∈ xs, ∃ y, R x y) : ∃ ys, List.Forall₂ R xs ys := by
  induction xs with
  | nil => exact ⟨[], .nil⟩
  | cons x xs ih =>
    rw [List.forall_mem_cons] at h
    obtain ⟨⟨y, hy⟩, hrest⟩ := h
    obtain ⟨ys, hys⟩ := ih hrest
    exact ⟨y :: ys, .cons hy hys⟩

theorem map_eq_of_forall₂ {f : α → γ} {g : β → γ} (hfg : ∀ x y, R x y → f x = g y)
    (h : List.Forall₂ R xs ys) : xs.map f = ys.map g := by
  induction h with
  | nil => rfl
  | cons hxy _ ih => rw [List.map_cons, List.map_cons, hfg _ _ hxy, ih]

end Forall₂

/-! ### Limits -/

/-- The loop after it has collected `ys`. -/
def collect (limit : ℕ) (e : ε) (f : α → Except ε β) (ys : List β) (xs : List α) :
    Except ε (List β) :=
  xs.foldlM (fun ys x => do
    let y ← f x
    require (ys.length < limit) e
    return ys ++ [y]) ys

theorem collect_eq_ok_iff {limit : ℕ} {e : ε} {f : α → Except ε β} {ys zs : List β} {xs : List α}
    (h : ys.length ≤ limit) : collect limit e f ys xs = .ok zs ↔
      ∃ new : List β, xs.map f = new.map .ok ∧ zs = ys ++ new ∧ zs.length ≤ limit := by
  induction xs generalizing ys with
  | nil =>
    simp only [collect, List.foldlM_nil, pure_eq_ok_iff, List.map_nil]
    constructor
    · rintro rfl
      exact ⟨[], rfl, (List.append_nil _).symm, h⟩
    · rintro ⟨new, hnew, rfl, -⟩
      rw [List.map_eq_nil_iff.mp hnew.symm, List.append_nil]
  | cons x xs ih =>
    have hstep : collect limit e f ys (x :: xs) = .ok zs ↔
        ∃ y, f x = .ok y ∧ ys.length < limit ∧ collect limit e f (ys ++ [y]) xs = .ok zs := by
      simp only [collect, List.foldlM_cons, bind_eq_ok_iff, require_eq_ok_iff, pure_eq_ok_iff]
      constructor
      · rintro ⟨_, ⟨y, hy, _, hlt, rfl⟩, hrest⟩
        exact ⟨y, hy, hlt, hrest⟩
      · rintro ⟨y, hy, hlt, hrest⟩
        exact ⟨_, ⟨y, hy, (), hlt, rfl⟩, hrest⟩
    rw [hstep, List.map_cons]
    constructor
    · rintro ⟨y, hy, hlt, hrest⟩
      obtain ⟨new, hnew, rfl, hle⟩ := (ih (by simpa using Nat.succ_le_of_lt hlt)).mp hrest
      exact ⟨y :: new, by rw [hy, hnew, List.map_cons], by simp, hle⟩
    · rintro ⟨new, hnew, rfl, hle⟩
      cases new with
      | nil => cases hnew
      | cons y new =>
        obtain ⟨hy, hnew⟩ := List.cons.inj hnew
        have hlt : ys.length < limit := by
          rw [List.length_append, List.length_cons] at hle
          omega
        refine
          ⟨y, hy, hlt, (ih (by simpa using Nat.succ_le_of_lt hlt)).mpr ⟨new, hnew, by simp, hle⟩⟩

end Except
