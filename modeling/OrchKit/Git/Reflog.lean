import Mathlib.Data.List.Nodup

/-! # Reflogs

The updates of a ref, the latest first. Each starts from where the one before it has left the ref,
so a ref that only ever moves to commits younger than the one it is at never comes back to a
commit, and is never moved to one twice.
-/

namespace Git

variable {ι : Type}

/-- A ref has been moved. -/
structure RefUpdate (ι : Type) where
  old : ι
  new : ι

/-- The updates lead from `start` to `head`. -/
def Leads (start : Option ι) : List (RefUpdate ι) → Option ι → Prop
  | [], head => head = start
  | u :: us, head => head = some u.new ∧ Leads start us (some u.old)

/-- The ref is at the commit, or was at it before some update. -/
def Was (us : List (RefUpdate ι)) (head : Option ι) (c : ι) : Prop :=
  head = some c ∨ ∃ u ∈ us, u.old = c

def MovedTo (us : List (RefUpdate ι)) (c : ι) : Prop := ∃ u ∈ us, u.new = c

variable {start head : Option ι} {us : List (RefUpdate ι)} {b c : ι}

theorem Leads.cons (h : Leads start us head) {old new : ι} (hold : head = some old) :
    Leads start (⟨old, new⟩ :: us) (some new) := ⟨rfl, hold ▸ h⟩

theorem was_cons (old new : ι) (h : Was us head b) (hold : head = some old) :
    Was (⟨old, new⟩ :: us) (some new) b := by
  rcases h with h | ⟨u, hu, hb⟩
  · rw [hold] at h
    exact .inr ⟨⟨old, new⟩, List.mem_cons_self, Option.some.inj h⟩
  · exact .inr ⟨u, List.mem_cons_of_mem _ hu, hb⟩

theorem MovedTo.cons (u : RefUpdate ι) (h : MovedTo us c) : MovedTo (u :: us) c := by
  obtain ⟨v, hv, hc⟩ := h
  exact ⟨v, List.mem_cons_of_mem _ hv, hc⟩

theorem movedTo_cons_self (old new : ι) : MovedTo (⟨old, new⟩ :: us) new :=
  ⟨_, List.mem_cons_self, rfl⟩

theorem Leads.movedTo (h : Leads start us (some c)) (hb : Was us (some c) b) (hne : c ≠ b) :
    MovedTo us c := by
  cases us with
  | nil =>
    rcases hb with hb | ⟨u, hu, -⟩
    · exact absurd (Option.some.inj hb) hne
    · cases hu
  | cons u us =>
    obtain ⟨hc, -⟩ := h
    exact ⟨u, List.mem_cons_self, (Option.some.inj hc).symm⟩

section Age

variable {age : ι → ℕ}

theorem Leads.age_le (h : Leads start us (some c)) (hage : ∀ u ∈ us, age u.old < age u.new) :
    ∀ u ∈ us, age u.new ≤ age c := by
  induction us generalizing c with
  | nil => exact fun u hu => by cases hu
  | cons v us ih =>
    obtain ⟨hc, hrest⟩ := h
    cases hc
    intro u hu
    rcases List.mem_cons.mp hu with rfl | hu
    · exact Nat.le_refl _
    · have hle := ih hrest (fun u hu => hage u (List.mem_cons_of_mem _ hu)) u hu
      have hlt := hage v List.mem_cons_self
      omega

theorem Leads.nodup (h : Leads start us head) (hage : ∀ u ∈ us, age u.old < age u.new) :
    (us.map RefUpdate.new).Nodup := by
  induction us generalizing head with
  | nil => exact List.nodup_nil
  | cons v us ih =>
    have hage' : ∀ u ∈ us, age u.old < age u.new := fun u hu => hage u (List.mem_cons_of_mem _ hu)
    refine List.nodup_cons.mpr ⟨fun hmem => ?_, ih h.2 hage'⟩
    obtain ⟨u, hu, hnew⟩ := List.mem_map.mp hmem
    have hle := h.2.age_le hage' u hu
    have hlt := hage v List.mem_cons_self
    rw [hnew] at hle
    omega

end Age

end Git
