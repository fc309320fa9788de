import Mathlib.Algebra.GroupWithZero.Nat
import Mathlib.Data.List.AList

/-! # Keyed tables

A table of rows under a primary key, with the statements a ledger needs: put a
row, change the row under a key, delete it, and scan the rows. Every statement is
described by what it does to lookups, and the two that keep or add a row by what
they do to counts.
-/

/-- Rows of type `β` under primary keys of type `κ`. -/
abbrev Table (κ β : Type) : Type := AList fun _ : κ => β

namespace Table

variable {κ β : Type}

/-- Store `b` under `k`, in place of the row that may be there. -/
def put [DecidableEq κ] (t : Table κ β) (k : κ) (b : β) : Table κ β := AList.insert k b t

/-- Delete the row under `k`, if there is one. -/
def delete [DecidableEq κ] (t : Table κ β) (k : κ) : Table κ β := AList.erase k t

/-- Apply `f` to the row under `k`, if there is one. -/
def modify [DecidableEq κ] (t : Table κ β) (k : κ) (f : β → β) : Table κ β where
  entries := t.entries.map fun e => ⟨e.1, if e.1 = k then f e.2 else e.2⟩
  nodupKeys := by
    have h : (t.entries.map fun e => (⟨e.1, if e.1 = k then f e.2 else e.2⟩ :
        (_ : κ) × β)).keys = t.entries.keys := by
      simp [List.keys, List.map_map, Function.comp_def]
    rw [List.NodupKeys, h]
    exact t.nodupKeys

/-- The rows that `f` turns into others, under the same keys. -/
def filterMap {γ : Type} (f : κ → β → Option γ) (t : Table κ β) : Table κ γ where
  entries := t.entries.filterMap fun e => (f e.1 e.2).map fun c => ⟨e.1, c⟩
  nodupKeys := by
    have sub : ∀ l : List ((_ : κ) × β),
        (l.filterMap fun e => (f e.1 e.2).map fun c => (⟨e.1, c⟩ : (_ : κ) × γ)).keys.Sublist
          l.keys := by
      intro l
      induction l with
      | nil => exact .slnil
      | cons e l ih =>
        rw [List.filterMap_cons]
        rcases f e.1 e.2 with _ | c
        · exact ih.cons _
        · exact ih.cons_cons _
    exact (sub t.entries).nodup t.nodupKeys

def rows (t : Table κ β) : List β := t.entries.map Sigma.snd

/-- How many rows satisfy `p`. -/
def count (t : Table κ β) (p : β → Bool) : ℕ := t.rows.countP p

theorem rows_filterMap_some {γ : Type} (t : Table κ β) (f : β → γ) :
    (t.filterMap fun _ b => some (f b)).rows = t.rows.map f := by
  simp [rows, filterMap, Function.comp_def]

theorem length_rows {t : Table κ β} : t.rows.length = t.entries.length := List.length_map _

section Lookup

variable [DecidableEq κ] {t : Table κ β} {j k : κ} {b : β} {f : β → β}

theorem lookup_put : (t.put k b).lookup j = if j = k then some b else t.lookup j := by
  split
  next h => rw [h, put, AList.lookup_insert]
  next h => rw [put, AList.lookup_insert_ne h]

theorem lookup_delete : (t.delete k).lookup j = if j = k then none else t.lookup j := by
  split
  next h => rw [h, delete, AList.lookup_erase]
  next h => rw [delete, AList.lookup_erase_ne h]

theorem lookup_modify :
    (t.modify k f).lookup j = if j = k then (t.lookup j).map f else t.lookup j := by
  obtain ⟨entries, nodup⟩ := t
  simp only [AList.lookup, modify]
  clear nodup
  induction entries with
  | nil => simp
  | cons e es ih =>
    obtain ⟨i, v⟩ := e
    by_cases hij : i = j
    · subst hij
      simp only [List.map_cons, List.dlookup_cons_eq, Option.map_some]
      split <;> rfl
    · rw [List.map_cons, List.dlookup_cons_ne _ _ (Ne.symm hij),
        List.dlookup_cons_ne _ _ (Ne.symm hij), ih]

theorem lookup_filterMap {γ : Type} {f : κ → β → Option γ} :
    (t.filterMap f).lookup j = (t.lookup j).bind (f j) := by
  obtain ⟨entries, nodup⟩ := t
  simp only [AList.lookup, filterMap]
  induction entries with
  | nil => rfl
  | cons e es ih =>
    obtain ⟨i, v⟩ := e
    obtain ⟨hi, nodup⟩ := List.nodupKeys_cons.mp nodup
    rw [List.filterMap_cons]
    by_cases hij : i = j
    · subst hij
      rw [List.dlookup_cons_eq, Option.bind_some]
      rcases f i v with _ | c
      · rw [Option.map_none, ih nodup, List.dlookup_eq_none.mpr hi, Option.bind_none]
      · rw [Option.map_some, List.dlookup_cons_eq]
    · rw [List.dlookup_cons_ne _ _ (Ne.symm hij)]
      rcases f i v with _ | c
      · exact ih nodup
      · rw [Option.map_some, List.dlookup_cons_ne _ _ (Ne.symm hij), ih nodup]

theorem modify_modify {g : β → β} : (t.modify k f).modify k g = t.modify k (g ∘ f) := by
  refine AList.ext ?_
  simp only [modify, List.map_map]
  refine List.map_congr_left fun e _ => ?_
  simp only [Function.comp_apply]
  split <;> rfl

theorem modify_congr {g : β → β} (h : ∀ b, t.lookup k = some b → f b = g b) :
    t.modify k f = t.modify k g := by
  refine AList.ext (List.map_congr_left fun e he => ?_)
  by_cases hk : e.1 = k
  · rw [if_pos hk, if_pos hk,
      h e.2 (by rw [← Option.mem_def, AList.mem_lookup_iff, ← hk]; exact he)]
  · rw [if_neg hk, if_neg hk]

theorem modify_eq_self (h : ∀ b, t.lookup k = some b → f b = b) : t.modify k f = t := by
  refine AList.ext ?_
  simp only [modify]
  refine (List.map_congr_left fun e he => ?_).trans (List.map_id _)
  split
  next hk =>
    have hf := h e.2 (by rw [← Option.mem_def, AList.mem_lookup_iff, ← hk]; exact he)
    rw [hf]
    rfl
  next => rfl

theorem mem_keys : j ∈ t.keys ↔ t.lookup j ≠ none := by
  rw [Ne, AList.lookup_eq_none, not_not, AList.mem_keys]

theorem rows_put_of_lookup_none (h : t.lookup k = none) : (t.put k b).rows = b :: t.rows := by
  rw [rows, put, AList.entries_insert_of_notMem (AList.lookup_eq_none.mp h)]
  rfl

theorem count_put_of_lookup_none {p : β → Bool} (h : t.lookup k = none) :
    (t.put k b).count p = t.count p + if p b then 1 else 0 := by
  rw [count, rows_put_of_lookup_none h, List.countP_cons, count]

theorem rows_modify_map {γ : Type} (g : β → γ) (h : ∀ b, t.lookup k = some b → g (f b) = g b) :
    (t.modify k f).rows.map g = t.rows.map g := by
  simp only [rows, modify, List.map_map]
  refine List.map_congr_left fun e he => ?_
  simp only [Function.comp_apply]
  split
  next hk =>
    refine h e.2 ?_
    rw [← Option.mem_def, AList.mem_lookup_iff, ← hk]
    exact he
  next => rfl

theorem count_modify {p : β → Bool} (h : ∀ b, t.lookup k = some b → p (f b) = p b) :
    (t.modify k f).count p = t.count p := by
  have hp : ∀ l : List β, l.countP p = (l.map p).countP id := fun l => by
    rw [List.countP_map]; rfl
  rw [count, count, hp, hp, rows_modify_map p h]

/-- A sum over the rows, when the row under `k` changes. -/
theorem sum_rows_modify {g : β → ℕ} (hb : t.lookup k = some b) :
    ((t.modify k f).rows.map g).sum + g b = (t.rows.map g).sum + g (f b) := by
  obtain ⟨entries, nodup⟩ := t
  simp only [AList.lookup] at hb
  simp only [rows, modify, List.map_map, Function.comp_def]
  induction entries with
  | nil => cases hb
  | cons e es ih =>
    obtain ⟨i, v⟩ := e
    obtain ⟨hi, nodup⟩ := List.nodupKeys_cons.mp nodup
    rw [List.map_cons, List.sum_cons, List.map_cons, List.sum_cons]
    by_cases hik : i = k
    · subst hik
      rw [List.dlookup_cons_eq, Option.some.injEq] at hb
      have hrest : ∀ e ∈ es, g (if e.1 = i then f e.2 else e.2) = g e.2 := by
        intro e he
        have hne : e.1 ≠ i := by
          intro hk
          rw [← hk] at hi
          exact hi (show e.1 ∈ es.keys from List.mem_keys_of_mem he)
        rw [if_neg hne]
      rw [if_pos rfl, List.map_congr_left hrest]
      change g (f v) + _ + g b = g v + _ + g (f b)
      rw [hb]
      omega
    · rw [List.dlookup_cons_ne _ _ (Ne.symm hik)] at hb
      have hes := ih nodup hb
      rw [if_neg hik]
      omega

theorem sum_modify {g : β → ℕ} {d : ℕ} (hb : t.lookup k = some b) (h : g (f b) = g b + d) :
    ((t.modify k f).entries.map fun e => g e.2).sum = (t.entries.map fun e => g e.2).sum + d := by
  have hsum := sum_rows_modify (f := f) (g := g) hb
  simp only [rows, List.map_map, Function.comp_def] at hsum
  omega

/-- A sum to which only the row under `k` adds. -/
theorem sum_of_key {g : β → ℕ} (h : ∀ e ∈ t.entries, e.1 ≠ k → g e.2 = 0) :
    (t.entries.map fun e => g e.2).sum = (t.lookup k).elim 0 g := by
  obtain ⟨entries, nodup⟩ := t
  simp only [AList.lookup] at h ⊢
  induction entries with
  | nil => rfl
  | cons e es ih =>
    obtain ⟨i, v⟩ := e
    obtain ⟨hi, nodup⟩ := List.nodupKeys_cons.mp nodup
    rw [List.map_cons, List.sum_cons]
    by_cases hik : i = k
    · subst hik
      have hrest : (es.map fun e => g e.2).sum = 0 := by
        rw [List.sum_eq_zero_iff_forall_eq_nat]
        intro n hn
        obtain ⟨e, he, rfl⟩ := List.mem_map.mp hn
        apply h e (List.mem_cons_of_mem _ he)
        intro hk
        rw [← hk] at hi
        exact hi (show e.1 ∈ es.keys from List.mem_keys_of_mem he)
      rw [List.dlookup_cons_eq, hrest]
      rfl
    · have hhead : g v = 0 := h ⟨i, v⟩ List.mem_cons_self hik
      rw [List.dlookup_cons_ne _ _ (Ne.symm hik), hhead, Nat.zero_add]
      exact ih nodup fun e he => h e (List.mem_cons_of_mem _ he)

end Lookup

end Table
