import Mathlib.Data.Finset.Card
import Mathlib.Logic.Relation
import OrchKit.Data.Table

/-! # Cycles by depth-first search

The three-colour search over any vertices: a vertex is unmarked, being visited, or done.
Meeting a vertex that is being visited is a cycle. The recursion is as deep as the vertices on
the way, so it runs out of depth on long chains only; each vertex is visited at most once, so that
a recursion as deep as there are vertices is enough.
-/

namespace Search

inductive Mark
  | visiting
  | done
deriving DecidableEq

inductive Failure
  | cycle
  | depth
deriving DecidableEq

variable {V : Type} [DecidableEq V] (next : V → List V)

/-- Visit a vertex and whatever it leads to, in a recursion of bounded depth. -/
def visit : ℕ → Table V Mark → V → Except Failure (Table V Mark)
  | 0, _, _ => .error .depth
  | n + 1, state, v =>
    match state.lookup v with
    | some .visiting => .error .cycle
    | some .done => .ok state
    | none =>
      match (next v).foldlM (visit n) (state.put v .visiting) with
      | .ok state => .ok (state.put v .done)
      | .error e => .error e

def search (n : ℕ) (vs : List V) : Except Failure (Table V Mark) := vs.foldlM (visit next n) ∅

def Leads (a b : V) : Prop := b ∈ next a

/-- What the search has done so far: a vertex that is done leads to such vertices only, and is on
no cycle. -/
structure Explored (s : Table V Mark) : Prop where
  closed : ∀ v w, s.lookup v = some .done → Leads next v w → s.lookup w = some .done
  acyclic : ∀ v, s.lookup v = some .done → ¬ Relation.TransGen (Leads next) v v

/-- A visit that returns leaves what it found being visited, and only adds vertices that are
done. -/
structure Extends (s t : Table V Mark) : Prop where
  visiting : ∀ v, t.lookup v = some .visiting ↔ s.lookup v = some .visiting
  done : ∀ v, s.lookup v = some .done → t.lookup v = some .done

variable {next} {s t : Table V Mark} {v w : V} {n : ℕ}

theorem Extends.refl (s : Table V Mark) : Extends s s := ⟨fun _ => Iff.rfl, fun _ h => h⟩

theorem Extends.trans {u : Table V Mark} (h : Extends s t) (h' : Extends t u) : Extends s u :=
  ⟨fun v => (h'.visiting v).trans (h.visiting v), fun v hv => h'.done v (h.done v hv)⟩

/-- What a visit of one vertex ensures, a visit of a list of them does. -/
theorem foldlM_visit {vs : List V} {P : Table V Mark → Prop} {f : Table V Mark → V →
    Except Failure (Table V Mark)} (h : ∀ s v t, v ∈ vs → P s → f s v = .ok t →
      P t ∧ Extends s t ∧ t.lookup v = some .done) (hs : P s) (hf : vs.foldlM f s = .ok t) :
    P t ∧ Extends s t ∧ ∀ v ∈ vs, t.lookup v = some .done := by
  induction vs generalizing s with
  | nil =>
    cases hf
    exact ⟨hs, Extends.refl _, fun _ h => by cases h⟩
  | cons v vs ih =>
    rw [List.foldlM_cons] at hf
    rcases hv : f s v with e | u
    · rw [hv] at hf
      cases hf
    · rw [hv] at hf
      obtain ⟨hu, hsu, hdone⟩ := h s v u List.mem_cons_self hs hv
      obtain ⟨ht, hut, hrest⟩ := ih (fun s w t hw => h s w t (List.mem_cons_of_mem _ hw)) hu hf
      refine ⟨ht, hsu.trans hut, fun w hw => ?_⟩
      rcases List.mem_cons.mp hw with rfl | hw
      · exact hut.done _ hdone
      · exact hrest w hw

theorem Explored.put_visiting (hs : Explored next s) (hm : s.lookup v = none) :
    Explored next (s.put v .visiting) := by
  have lookup : ∀ w, (s.put v .visiting).lookup w = some .done ↔ s.lookup w = some .done := by
    intro w
    rw [Table.lookup_put]
    split
    next hw => rw [hw, hm]; simp
    next => rfl
  constructor
  · intro x y hx hxy
    rw [lookup] at hx ⊢
    exact hs.closed x y hx hxy
  · intro x hx
    exact hs.acyclic x ((lookup x).mp hx)

/-- From a vertex that is done there is no way to one that is not. -/
theorem Explored.done_of_transGen (hs : Explored next s) (hv : s.lookup v = some .done)
    (hvw : Relation.TransGen (Leads next) v w) : s.lookup w = some .done := by
  induction hvw with
  | single hvw => exact hs.closed _ _ hv hvw
  | tail _ hyz ih => exact hs.closed _ _ ih hyz

theorem Explored.put_done (hs : Explored next s) (hv : s.lookup v = some .visiting)
    (hall : ∀ w, Leads next v w → s.lookup w = some .done) : Explored next (s.put v .done) := by
  have lookup : ∀ w, (s.put v .done).lookup w = some .done ↔ w = v ∨ s.lookup w = some .done := by
    intro w
    rw [Table.lookup_put]
    split
    next hw => simp [hw]
    next hw => simp [hw]
  constructor
  · intro x y hx hxy
    rw [lookup] at hx ⊢
    rcases hx with rfl | hx
    · exact .inr (hall y hxy)
    · exact .inr (hs.closed x y hx hxy)
  · intro x hx hcycle
    rcases (lookup x).mp hx with rfl | hx
    · -- what the vertex leads to is done, and it was not
      obtain ⟨y, hxy, hyx⟩ := Relation.TransGen.head'_iff.mp hcycle
      have hdone : s.lookup x = some .done := by
        rcases Relation.reflTransGen_iff_eq_or_transGen.mp hyx with heq | hyx
        · exact heq ▸ hall y hxy
        · exact hs.done_of_transGen (hall y hxy) hyx
      rw [hv] at hdone
      cases hdone
    · exact hs.acyclic x hx hcycle

theorem Extends.put_done (hm : s.lookup v = none) (h : Extends (s.put v .visiting) t) :
    Extends s (t.put v .done) := by
  constructor
  · intro x
    by_cases hx : x = v
    · subst hx
      simp [Table.lookup_put, hm]
    · rw [Table.lookup_put, if_neg hx, h.visiting, Table.lookup_put, if_neg hx]
  · intro x hdone
    by_cases hx : x = v
    · rw [Table.lookup_put, if_pos hx]
    · rw [Table.lookup_put, if_neg hx]
      apply h.done
      rw [Table.lookup_put, if_neg hx]
      exact hdone

theorem visit_ok (hs : Explored next s) (h : visit next n s v = .ok t) :
    Explored next t ∧ Extends s t ∧ t.lookup v = some .done := by
  induction n generalizing s v t with
  | zero => cases h
  | succ n ih =>
    rw [visit] at h
    rcases hm : s.lookup v with _ | m
    · simp only [hm] at h
      rcases hf : (next v).foldlM (visit next n) (s.put v .visiting) with e | u
      · rw [hf] at h
        cases h
      rw [hf] at h
      cases h
      obtain ⟨hu, hsu, hall⟩ := foldlM_visit (fun s w t _ hs hw => ih hs hw)
        (hs.put_visiting hm) hf
      have hvisiting : u.lookup v = some .visiting := by
        rw [hsu.visiting, Table.lookup_put, if_pos rfl]
      refine ⟨hu.put_done hvisiting hall, hsu.put_done hm, ?_⟩
      rw [Table.lookup_put, if_pos rfl]
    · cases m with
      | visiting => simp only [hm] at h; cases h
      | done =>
        simp only [hm] at h
        cases h
        exact ⟨hs, Extends.refl s, hm⟩

omit [DecidableEq V] in
theorem foldlM_visit_error {vs : List V} {P : Table V Mark → Prop} {f : Table V Mark → V →
    Except Failure (Table V Mark)} {e : Failure} (h : ∀ s v t, v ∈ vs → P s → f s v = .ok t → P t)
    (hs : P s) (hf : vs.foldlM f s = .error e) : ∃ v ∈ vs, ∃ u, P u ∧ f u v = .error e := by
  induction vs generalizing s with
  | nil => cases hf
  | cons v vs ih =>
    rw [List.foldlM_cons] at hf
    rcases hv : f s v with e' | u
    · rw [hv] at hf
      cases hf
      exact ⟨v, List.mem_cons_self, s, hs, hv⟩
    · rw [hv] at hf
      have hu := h s v u List.mem_cons_self hs hv
      obtain ⟨w, hw, t, ht, he⟩ := ih (fun s w t hw => h s w t (List.mem_cons_of_mem _ hw)) hu hf
      exact ⟨w, List.mem_cons_of_mem _ hw, t, ht, he⟩

/-- A visit that fails, fails in the visit of a vertex it leads to or on the spot. -/
theorem visit_error {e : Failure} (hs : Explored next s) (h : visit next (n + 1) s v = .error e) :
    (s.lookup v = some .visiting ∧ e = .cycle) ∨
      (s.lookup v = none ∧ ∃ w ∈ next v, ∃ u, Explored next u ∧ Extends (s.put v .visiting) u ∧
        visit next n u w = .error e) := by
  rw [visit] at h
  rcases hm : s.lookup v with _ | m
  · simp only [hm] at h
    rcases hf : (next v).foldlM (visit next n) (s.put v .visiting) with e' | u
    · rw [hf] at h
      cases h
      obtain ⟨w, hw, u, hu, he⟩ := foldlM_visit_error
        (P := fun u => Explored next u ∧ Extends (s.put v .visiting) u)
        (fun t w u _ ht hu => ⟨(visit_ok ht.1 hu).1, ht.2.trans (visit_ok ht.1 hu).2.1⟩)
        ⟨hs.put_visiting hm, Extends.refl _⟩ hf
      exact .inr ⟨rfl, w, hw, u, hu.1, hu.2, he⟩
    · rw [hf] at h
      cases h
  · cases m with
    | visiting => simp only [hm] at h; cases h; exact .inl ⟨rfl, rfl⟩
    | done => simp only [hm] at h; cases h

variable {vs : List V}

theorem visit_cycle (hclosed : ∀ v ∈ vs, ∀ w ∈ next v, w ∈ vs) (hs : Explored next s)
    (hv : v ∈ vs)
    (hpath : ∀ w, s.lookup w = some .visiting → Relation.TransGen (Leads next) w v)
    (h : visit next n s v = .error .cycle) : ∃ x ∈ vs, Relation.TransGen (Leads next) x x := by
  induction n generalizing s v with
  | zero => cases h
  | succ n ih =>
    rcases visit_error hs h with ⟨hm, -⟩ | ⟨hm, w, hw, u, hu, hsu, he⟩
    · exact ⟨v, hv, hpath v hm⟩
    · refine ih hu (hclosed v hv w hw) (fun x hx => ?_) he
      rw [hsu.visiting, Table.lookup_put] at hx
      split at hx
      next hxv => rw [hxv]; exact .single hw
      next => exact (hpath x hx).tail hw

def unmarked (vs : List V) (s : Table V Mark) : Finset V := {v ∈ vs.toFinset | s.lookup v = none}

theorem Extends.unmarked_subset (h : Extends s t) : unmarked vs t ⊆ unmarked vs s := by
  intro v hv
  simp only [unmarked, Finset.mem_filter] at hv ⊢
  refine ⟨hv.1, ?_⟩
  rcases hm : s.lookup v with _ | m
  · rfl
  · cases m with
    | visiting => rw [(h.visiting v).mpr hm] at hv; cases hv.2
    | done => rw [h.done v hm] at hv; cases hv.2

/-- The recursion is deep enough for all vertices that are not marked yet. -/
theorem visit_depth (hclosed : ∀ v ∈ vs, ∀ w ∈ next v, w ∈ vs) (hs : Explored next s)
    (hv : v ∈ vs) (hn : (unmarked vs s).card < n) : visit next n s v ≠ .error .depth := by
  induction n generalizing s v with
  | zero => omega
  | succ n ih =>
    intro h
    rcases visit_error hs h with ⟨-, he⟩ | ⟨hm, w, hw, u, hu, hsu, he⟩
    · cases he
    · have hput : unmarked vs (s.put v .visiting) ⊂ unmarked vs s := by
        rw [Finset.ssubset_iff_of_subset]
        · refine ⟨v, ?_, ?_⟩
          · simp [unmarked, hv, hm]
          · simp [unmarked, Table.lookup_put]
        · intro x hx
          simp only [unmarked, Finset.mem_filter, Table.lookup_put] at hx ⊢
          split at hx
          next => cases hx.2
          next => exact hx
      have hlt := Finset.card_lt_card hput
      have hle : (unmarked vs u).card ≤ (unmarked vs (s.put v .visiting)).card :=
        Finset.card_le_card hsu.unmarked_subset
      exact ih hu (hclosed v hv w hw) (by omega) he

theorem visit_chain (hs : Explored next s) (h : visit next n s v = .error .depth) :
    ∃ vs, vs.length = n ∧ (v :: vs).IsChain (Leads next) := by
  induction n generalizing s v with
  | zero => exact ⟨[], rfl, .singleton v⟩
  | succ n ih =>
    rcases visit_error hs h with ⟨-, he⟩ | ⟨-, w, hw, u, hu, -, he⟩
    · cases he
    · obtain ⟨vs, hlength, hchain⟩ := ih hu he
      exact ⟨w :: vs, congrArg (· + 1) hlength, .cons_cons hw hchain⟩

theorem explored_empty : Explored next ∅ where
  closed _ _ h := by cases h
  acyclic _ h := by cases h

theorem acyclic_of_search (h : search next n vs = .ok t) (hv : v ∈ vs) :
    ¬ Relation.TransGen (Leads next) v v := by
  obtain ⟨ht, -, hall⟩ := foldlM_visit (fun s v t _ hs h => visit_ok hs h) explored_empty h
  exact ht.acyclic v (hall v hv)

theorem search_error {e : Failure} (h : search next n vs = .error e) :
    ∃ v ∈ vs, ∃ u, Explored next u ∧ Extends ∅ u ∧ visit next n u v = .error e := by
  obtain ⟨v, hv, u, ⟨hu, hsu⟩, he⟩ := foldlM_visit_error
    (P := fun u => Explored next u ∧ Extends ∅ u)
    (fun t w u _ ht hu => ⟨(visit_ok ht.1 hu).1, ht.2.trans (visit_ok ht.1 hu).2.1⟩)
    ⟨explored_empty, Extends.refl _⟩ h
  exact ⟨v, hv, u, hu, hsu, he⟩

theorem cycle_of_search (hclosed : ∀ v ∈ vs, ∀ w ∈ next v, w ∈ vs)
    (h : search next n vs = .error .cycle) : ∃ v ∈ vs, Relation.TransGen (Leads next) v v := by
  obtain ⟨v, hv, u, hu, hsu, he⟩ := search_error h
  refine visit_cycle hclosed hu hv (fun w hw => ?_) he
  rw [hsu.visiting] at hw
  cases hw

theorem chain_of_search (h : search next n vs = .error .depth) :
    ∃ ws : List V, ws.length = n + 1 ∧ ws.IsChain (Leads next) := by
  obtain ⟨v, -, u, hu, -, he⟩ := search_error h
  obtain ⟨ws, hlength, hchain⟩ := visit_chain hu he
  exact ⟨v :: ws, congrArg (· + 1) hlength, hchain⟩

theorem search_spec (hclosed : ∀ v ∈ vs, ∀ w ∈ next v, w ∈ vs) (hn : vs.length < n) :
    (∃ t, search next n vs = .ok t ∧ ∀ v ∈ vs, ¬ Relation.TransGen (Leads next) v v) ∨
      (search next n vs = .error .cycle ∧ ∃ v ∈ vs, Relation.TransGen (Leads next) v v) := by
  rcases hf : search next n vs with e | t
  · cases e with
    | cycle => exact .inr ⟨rfl, cycle_of_search hclosed hf⟩
    | depth =>
      obtain ⟨v, hv, u, hu, -, he⟩ := search_error hf
      refine absurd he (visit_depth hclosed hu hv ?_)
      calc (unmarked vs u).card ≤ vs.toFinset.card := Finset.card_filter_le _ _
        _ ≤ vs.length := List.toFinset_card_le vs
        _ < n := hn
  · exact .inl ⟨t, rfl, fun v hv => acyclic_of_search hf hv⟩

theorem visit_of_path {f : ℕ → V} {length k : ℕ} (hf : ∀ i < length, next (f i) = [f (i + 1)])
    (hinj : Function.Injective f) (hn : n + k ≤ length) (hs : ∀ i, k ≤ i → s.lookup (f i) = none) :
    visit next n s (f k) = .error .depth := by
  induction n generalizing s k with
  | zero => rfl
  | succ n ih =>
    have hnext : visit next n (s.put (f k) .visiting) (f (k + 1)) = .error .depth := by
      refine ih (by omega) fun i hi => ?_
      rw [Table.lookup_put, if_neg (hinj.ne (by omega)), hs i (by omega)]
    rw [visit, hs k le_rfl]
    simp only [hf k (by omega), List.foldlM_cons, hnext]
    rfl

/-! ### Chains without cycles -/

omit [DecidableEq V] in
theorem nodup_of_isChain {R : V → V → Prop} (hacyclic : ∀ v, ¬ Relation.TransGen R v v)
    (h : vs.IsChain R) : vs.Nodup := by
  have hpairs : vs.Pairwise (Relation.TransGen R) :=
    List.isChain_iff_pairwise.mp (h.imp fun _ _ => .single)
  refine hpairs.imp ?_
  rintro a _ hab rfl
  exact hacyclic a hab

/-! ### Cycles in layers -/

omit [DecidableEq V] in
/-- A relation has no cycle if there is none in a part it does not lead out of, and none that
stays outside of that part. -/
theorem acyclic_of_layers {R : V → V → Prop} {S : V → Prop} (closed : ∀ a b, S a → R a b → S b)
    (inside : ∀ a, S a → ¬ Relation.TransGen R a a)
    (outside : ∀ a, ¬ Relation.TransGen (fun a b => R a b ∧ ¬ S a ∧ ¬ S b) a a) (a : V) :
    ¬ Relation.TransGen R a a := by
  intro h
  by_cases ha : S a
  · exact inside a ha h
  -- the cycle ends outside, so it has never been inside
  have out : ∀ b, Relation.TransGen R a b → ¬ S b →
      Relation.TransGen (fun a b => R a b ∧ ¬ S a ∧ ¬ S b) a b := by
    intro b hab
    induction hab with
    | single hab => exact fun hb => .single ⟨hab, ha, hb⟩
    | tail _ hbc ih =>
      intro hc
      have hb := fun hb => hc (closed _ _ hb hbc)
      exact (ih hb).tail ⟨hbc, hb, hc⟩
  exact outside a (out a h ha)

end Search
