import OrchKit.Data.Search
import OrchKit.Ledger.Queue

/-! # Validation of a plan

What `load_plan` checks of the tasks of a plan before it opens its transaction. The
dependencies between them are searched for a cycle; those on tasks that are already in
the ledger are left to the transaction.
-/

namespace OrchKit

open Except

def planMaxTasks : ℕ := 512

def dependencyGraph (tasks : List TaskPayload) : Table TaskId (List TaskId) :=
  tasks.foldl (fun graph item => graph.put item.id item.dependencies) ∅

/-- The dependencies of a task that are tasks of the plan. -/
def nextInGraph (graph : Table TaskId (List TaskId)) (taskId : TaskId) : List TaskId :=
  ((graph.lookup taskId).getD []).filter fun dep => (graph.lookup dep).isSome

/-- `sys.getrecursionlimit()`, which the few calls under way do not leave much less of. -/
def recursionLimit : ℕ := 1000

/-- `validate_dependency_graph`, where calls of `visit` may be nested up to a limit. -/
def validateDependencyGraph (limit : ℕ) (tasks : List TaskPayload) : Checked Unit :=
  match Search.search (nextInGraph (dependencyGraph tasks)) limit (tasks.map TaskPayload.id) with
  | .ok _ => .ok ()
  | .error .cycle => .error (.value "dependency_cycle")
  | .error .depth => .error (.other "RecursionError" "maximum recursion depth exceeded")

/-- The checks of `load_plan` on the tasks of a plan, apart from those of each task alone. -/
def validatePlan (tasks : List TaskPayload) : Checked Unit := do
  require (tasks ≠ []) (.value "empty_plan")
  require (tasks.length ≤ planMaxTasks) (.value "plan_too_many_tasks")
  require ((∀ item ∈ tasks, isProjectId item.id) ∧ (tasks.map TaskPayload.id).Nodup)
    (.value "invalid_task_ids")
  require (∀ item ∈ tasks, item.id ∉ item.dependencies) (.value "invalid_dependency")
  validateDependencyGraph recursionLimit tasks

/-! ### Cycles in a plan -/

def DependsIn (tasks : List TaskPayload) (a b : TaskId) : Prop :=
  ∃ item ∈ tasks, item.id = a ∧ b ∈ item.dependencies ∧ b ∈ tasks.map TaskPayload.id

section Graph

variable {tasks : List TaskPayload}

theorem lookup_dependencyGraph (h : (tasks.map TaskPayload.id).Nodup) (taskId : TaskId) :
    (dependencyGraph tasks).lookup taskId =
      (tasks.find? fun item => item.id = taskId).map TaskPayload.dependencies := by
  have general : ∀ graph : Table TaskId (List TaskId),
      (tasks.foldl (fun graph item => graph.put item.id item.dependencies) graph).lookup taskId =
        ((tasks.find? fun item => item.id = taskId).map TaskPayload.dependencies).or
          (graph.lookup taskId) := by
    induction tasks with
    | nil => intro graph; rfl
    | cons item tasks ih =>
      intro graph
      rw [List.map_cons, List.nodup_cons] at h
      rw [List.foldl_cons, ih h.2, Table.lookup_put, List.find?_cons]
      by_cases hid : item.id = taskId
      · have hnone : tasks.find? (fun item => item.id = taskId) = none := by
          rw [List.find?_eq_none]
          intro other hother heq
          exact h.1 (List.mem_map.mpr ⟨other, hother, (of_decide_eq_true heq).trans hid.symm⟩)
        simp [hid, hnone]
      · simp [hid, Ne.symm hid]
  rw [dependencyGraph, general ∅]
  cases (tasks.find? fun item => item.id = taskId).map TaskPayload.dependencies <;> rfl

theorem lookup_dependencyGraph_isSome_iff (h : (tasks.map TaskPayload.id).Nodup)
    (taskId : TaskId) :
    ((dependencyGraph tasks).lookup taskId).isSome ↔ taskId ∈ tasks.map TaskPayload.id := by
  rw [lookup_dependencyGraph h, Option.isSome_map, List.find?_isSome, List.mem_map]
  simp

theorem lookup_dependencyGraph_of_mem (h : (tasks.map TaskPayload.id).Nodup) {item : TaskPayload}
    (hitem : item ∈ tasks) : (dependencyGraph tasks).lookup item.id = some item.dependencies := by
  rw [lookup_dependencyGraph h]
  rcases hf : tasks.find? (fun other => other.id = item.id) with _ | other
  · rw [List.find?_eq_none] at hf
    exact absurd (decide_eq_true rfl) (hf item hitem)
  · -- ids are distinct, so it is the item itself
    have hother : other = item := List.inj_on_of_nodup_map h (List.mem_of_find?_eq_some hf) hitem
      (by simpa using List.find?_some hf)
    rw [hf, hother]
    rfl

theorem leads_iff_dependsIn (h : (tasks.map TaskPayload.id).Nodup) (a b : TaskId) :
    Search.Leads (nextInGraph (dependencyGraph tasks)) a b ↔ DependsIn tasks a b := by
  rw [Search.Leads, nextInGraph, List.mem_filter, lookup_dependencyGraph_isSome_iff h, DependsIn]
  constructor
  · rintro ⟨hb, hmem⟩
    rw [lookup_dependencyGraph h] at hb
    rcases hf : tasks.find? (fun item => item.id = a) with _ | item
    · rw [hf] at hb
      cases hb
    · rw [hf] at hb
      exact ⟨item, List.mem_of_find?_eq_some hf, by simpa using List.find?_some hf, hb, hmem⟩
  · rintro ⟨item, hitem, rfl, hb, hmem⟩
    rw [lookup_dependencyGraph_of_mem h hitem]
    exact ⟨hb, hmem⟩

theorem leads_eq_dependsIn (h : (tasks.map TaskPayload.id).Nodup) :
    Search.Leads (nextInGraph (dependencyGraph tasks)) = DependsIn tasks := by
  ext a b
  exact leads_iff_dependsIn h a b

theorem closed_nextInGraph (h : (tasks.map TaskPayload.id).Nodup) :
    ∀ v ∈ tasks.map TaskPayload.id, ∀ w ∈ nextInGraph (dependencyGraph tasks) v,
      w ∈ tasks.map TaskPayload.id := by
  intro v _ w hw
  obtain ⟨_, _, _, _, hmem⟩ := (leads_iff_dependsIn h v w).mp hw
  exact hmem

theorem acyclic_of_validateDependencyGraph (h : (tasks.map TaskPayload.id).Nodup) {limit : ℕ}
    (hok : validateDependencyGraph limit tasks = .ok ()) (a : TaskId) :
    ¬ Relation.TransGen (DependsIn tasks) a a := by
  intro hcycle
  obtain ⟨b, ⟨item, hitem, rfl, -⟩, -⟩ := Relation.TransGen.head'_iff.mp hcycle
  rw [validateDependencyGraph] at hok
  rcases hf : Search.search (nextInGraph (dependencyGraph tasks)) limit
      (tasks.map TaskPayload.id) with e | t
  · rw [hf] at hok
    cases e <;> cases hok
  · exact Search.acyclic_of_search hf (List.mem_map_of_mem hitem) (leads_eq_dependsIn h ▸ hcycle)

theorem cycle_of_validateDependencyGraph (h : (tasks.map TaskPayload.id).Nodup) {limit : ℕ}
    (herror : validateDependencyGraph limit tasks = .error (.value "dependency_cycle")) :
    ∃ a, Relation.TransGen (DependsIn tasks) a a := by
  rw [validateDependencyGraph] at herror
  rcases hf : Search.search (nextInGraph (dependencyGraph tasks)) limit
      (tasks.map TaskPayload.id) with e | t
  · cases e with
    | cycle =>
      obtain ⟨a, -, hcycle⟩ := Search.cycle_of_search (closed_nextInGraph h) hf
      exact ⟨a, leads_eq_dependsIn h ▸ hcycle⟩
    | depth =>
      rw [hf] at herror
      cases herror
  · rw [hf] at herror
    cases herror

/-- What else a search may fail with it fails with on a long chain of dependencies only. -/
theorem chain_of_validateDependencyGraph (h : (tasks.map TaskPayload.id).Nodup) {limit : ℕ}
    {e : Exn} (herror : validateDependencyGraph limit tasks = .error e) :
    e = .value "dependency_cycle" ∨ e = .other "RecursionError" "maximum recursion depth exceeded" ∧
      ∃ chain : List TaskId, limit < chain.length ∧ chain.IsChain (DependsIn tasks) := by
  rw [validateDependencyGraph] at herror
  rcases hf : Search.search (nextInGraph (dependencyGraph tasks)) limit
      (tasks.map TaskPayload.id) with e | t
  · cases e with
    | cycle =>
      rw [hf] at herror
      exact .inl (Except.error.inj herror).symm
    | depth =>
      rw [hf] at herror
      obtain ⟨chain, hlength, hchain⟩ := Search.chain_of_search hf
      exact .inr ⟨(Except.error.inj herror).symm, chain, by omega, leads_eq_dependsIn h ▸ hchain⟩
  · rw [hf] at herror
    cases herror

theorem validateDependencyGraph_spec (h : (tasks.map TaskPayload.id).Nodup) {limit : ℕ}
    (hlimit : tasks.length < limit) :
    (validateDependencyGraph limit tasks = .ok () ∧
        ∀ a, ¬ Relation.TransGen (DependsIn tasks) a a) ∨
      (validateDependencyGraph limit tasks = .error (.value "dependency_cycle") ∧
        ∃ a, Relation.TransGen (DependsIn tasks) a a) := by
  have hn : (tasks.map TaskPayload.id).length < limit := by rwa [List.length_map]
  rcases Search.search_spec (closed_nextInGraph h) hn with ⟨t, ht, -⟩ | ⟨ht, a, -, hcycle⟩
  · have hok : validateDependencyGraph limit tasks = .ok () := by rw [validateDependencyGraph, ht]
    exact .inl ⟨hok, acyclic_of_validateDependencyGraph h hok⟩
  · rw [validateDependencyGraph, ht]
    exact .inr ⟨rfl, a, leads_eq_dependsIn h ▸ hcycle⟩

theorem acyclic_of_validatePlan (h : validatePlan tasks = .ok ()) (a : TaskId) :
    ¬ Relation.TransGen (DependsIn tasks) a a := by
  simp only [validatePlan, bind_eq_ok_iff, require_eq_ok_iff] at h
  obtain ⟨-, -, -, -, -, ⟨-, hnodup⟩, -, -, hgraph⟩ := h
  exact acyclic_of_validateDependencyGraph hnodup hgraph a

end Graph

end OrchKit
