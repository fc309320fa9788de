import Mathlib.Data.List.Dedup
import OrchKit.Data.Table

/-! # Trees and their differences

A tree maps paths to entries. A porcelain listing of the paths on which two trees
differ folds renames: it pairs deleted paths with added ones of the same content and
reports a pair under the added path only. Which pairs it picks where there is a
choice is left to a rule.
-/

namespace Git

variable {κ β : Type}

inductive Mode
  | regular
  | executable
  | symlink
deriving DecidableEq

structure Entry (β : Type) where
  mode : Mode
  blob : β
deriving DecidableEq

abbrev Tree (κ β : Type) : Type := Table κ (Entry β)

section Changes

variable [DecidableEq κ]

def blobAt (t : Tree κ β) (p : κ) : Option β := (t.lookup p).map Entry.blob

variable [DecidableEq β]

/-- The paths on which two trees differ, each under its own name. -/
def changed (a b : Tree κ β) : List κ :=
  (a.keys ++ b.keys).dedup.filter fun p => a.lookup p ≠ b.lookup p

def deleted (a b : Tree κ β) : List κ := (changed a b).filter fun p => b.lookup p = none

def added (a b : Tree κ β) : List κ := (changed a b).filter fun p => a.lookup p = none

variable {a b : Tree κ β} {p : κ}

theorem mem_changed : p ∈ changed a b ↔ a.lookup p ≠ b.lookup p := by
  simp only [changed, List.mem_filter, List.mem_dedup, List.mem_append, decide_eq_true_eq,
    Table.mem_keys, and_iff_right_iff_imp]
  intro h
  by_cases ha : a.lookup p = none
  · exact .inr fun hb => h (ha.trans hb.symm)
  · exact .inl ha

theorem nodup_changed : (changed a b).Nodup := (List.nodup_dedup _).filter _

theorem mem_deleted : p ∈ deleted a b ↔ a.lookup p ≠ none ∧ b.lookup p = none := by
  simp only [deleted, List.mem_filter, mem_changed, decide_eq_true_eq]
  constructor
  · rintro ⟨h, hb⟩
    exact ⟨hb ▸ h, hb⟩
  · rintro ⟨ha, hb⟩
    exact ⟨hb ▸ ha, hb⟩

end Changes

/-- How renames are detected: which deleted paths are paired with which added ones. Only exact
renames are, no path is used twice, and no pair that could be formed is left. -/
structure RenameRule (κ β : Type) [DecidableEq κ] [DecidableEq β] where
  pairs : Tree κ β → Tree κ β → List (κ × κ)
  exact_of_mem : ∀ {a b p q}, (p, q) ∈ pairs a b →
    p ∈ deleted a b ∧ q ∈ added a b ∧ blobAt a p = blobAt b q
  nodup_sources : ∀ a b, ((pairs a b).map Prod.fst).Nodup
  nodup_targets : ∀ a b, ((pairs a b).map Prod.snd).Nodup
  maximal : ∀ {a b p q}, p ∈ deleted a b → q ∈ added a b → blobAt a p = blobAt b q →
    p ∈ (pairs a b).map Prod.fst ∨ q ∈ (pairs a b).map Prod.snd

namespace RenameRule

variable [DecidableEq κ] [DecidableEq β] (rule : RenameRule κ β) {a b : Tree κ β} {p : κ}

def sources (a b : Tree κ β) : List κ := (rule.pairs a b).map Prod.fst

/-- `diff --name-only`. -/
def names (a b : Tree κ β) : List κ := (changed a b).filter (· ∉ rule.sources a b)

variable {rule}

theorem mem_names : p ∈ rule.names a b ↔ a.lookup p ≠ b.lookup p ∧ p ∉ rule.sources a b := by
  simp only [names, List.mem_filter, mem_changed, decide_eq_true_eq]

theorem deleted_of_mem_sources (h : p ∈ rule.sources a b) : p ∈ deleted a b := by
  obtain ⟨⟨p, q⟩, hpq, rfl⟩ := List.mem_map.mp h
  exact (rule.exact_of_mem hpq).1

end RenameRule

/-! ### A greedy rule -/

section Greedy

variable [DecidableEq κ] [DecidableEq β]

/-- Give each source in turn the first target of its content that is left. -/
def pairUp (f g : κ → Option β) : List κ → List κ → List (κ × κ)
  | [], _ => []
  | p :: ps, qs =>
    match qs.find? (fun q => f p = g q) with
    | some q => (p, q) :: pairUp f g ps (qs.erase q)
    | none => pairUp f g ps qs

variable {f g : κ → Option β} {ps qs : List κ}

theorem pairUp_mem {p q : κ} (h : (p, q) ∈ pairUp f g ps qs) : p ∈ ps ∧ q ∈ qs ∧ f p = g q := by
  induction ps generalizing qs with
  | nil => cases h
  | cons p' ps ih =>
    rw [pairUp] at h
    split at h
    next q' hq' =>
      rcases List.mem_cons.mp h with h | h
      · cases h
        exact ⟨List.mem_cons_self, List.mem_of_find?_eq_some hq',
          by simpa using List.find?_some hq'⟩
      · obtain ⟨hp, hq, he⟩ := ih h
        exact ⟨List.mem_cons_of_mem _ hp, List.mem_of_mem_erase hq, he⟩
    next =>
      obtain ⟨hp, hq, he⟩ := ih h
      exact ⟨List.mem_cons_of_mem _ hp, hq, he⟩

theorem pairUp_sources_sublist : ((pairUp f g ps qs).map Prod.fst).Sublist ps := by
  induction ps generalizing qs with
  | nil => exact .slnil
  | cons p ps ih =>
    rw [pairUp]
    split
    · exact ih.cons_cons p
    · exact ih.cons p

theorem pairUp_nodup_targets (h : qs.Nodup) : ((pairUp f g ps qs).map Prod.snd).Nodup := by
  induction ps generalizing qs with
  | nil => exact List.nodup_nil
  | cons p ps ih =>
    rw [pairUp]
    split
    next q _ =>
      refine List.nodup_cons.mpr ⟨fun hq => ?_, ih (h.erase q)⟩
      obtain ⟨⟨p', q'⟩, hpq, rfl⟩ := List.mem_map.mp hq
      exact h.not_mem_erase (pairUp_mem hpq).2.1
    next => exact ih h

theorem pairUp_maximal {p q : κ} (hp : p ∈ ps) (hq : q ∈ qs) (he : f p = g q) :
    p ∈ (pairUp f g ps qs).map Prod.fst ∨ q ∈ (pairUp f g ps qs).map Prod.snd := by
  induction ps generalizing qs with
  | nil => cases hp
  | cons p' ps ih =>
    rw [pairUp]
    split
    next q' hq' =>
      rcases List.mem_cons.mp hp with rfl | hp
      · exact .inl List.mem_cons_self
      · by_cases hqq : q = q'
        · exact .inr (hqq ▸ List.mem_cons_self)
        · exact (ih hp ((List.mem_erase_of_ne hqq).mpr hq)).imp (List.mem_cons_of_mem _)
            (List.mem_cons_of_mem _)
    next hnone =>
      rcases List.mem_cons.mp hp with rfl | hp
      · exact absurd he (by simpa using List.find?_eq_none.mp hnone q hq)
      · exact ih hp hq

/-- Pair each deleted path with the first added one of its content. -/
def greedy (κ β : Type) [DecidableEq κ] [DecidableEq β] : RenameRule κ β where
  pairs a b := pairUp (blobAt a) (blobAt b) (deleted a b) (added a b)
  exact_of_mem := pairUp_mem
  nodup_sources _ _ := pairUp_sources_sublist.nodup (nodup_changed.filter _)
  nodup_targets _ _ := pairUp_nodup_targets (nodup_changed.filter _)
  maximal := pairUp_maximal

end Greedy

end Git
