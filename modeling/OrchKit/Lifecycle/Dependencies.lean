import OrchKit.Ledger.Admission
import OrchKit.Ledger.Footprint
import OrchKit.Lifecycle.Exclusion

/-! # Dependencies

The dependencies among the tasks on record have no cycle, and lead to tasks on record,
however plans and readmissions follow each other. A task that is there keeps its
dependencies, so a new cycle could only run among the tasks that come in together, and
those of a plan have been searched.
-/

namespace OrchKit

open Program Relation

namespace Ledger

def DependsOn (L : Ledger) (a b : TaskId) : Prop :=
  ∃ payload, L.payloadOf a = some payload ∧ b ∈ payload.dependencies

/-- No task waits for itself, or for a task that is not there. -/
structure DependenciesSound (L : Ledger) : Prop where
  stored : ∀ a b, L.DependsOn a b → L.payloadOf b ≠ none
  acyclic : ∀ a, ¬ TransGen L.DependsOn a a

end Ledger

open Ledger

variable {sha : Sha256} {L L' : Ledger}

theorem dependenciesSound_empty : Ledger.empty.DependenciesSound := by
  have none : ∀ a b, ¬ Ledger.empty.DependsOn a b := by
    rintro a b ⟨payload, h, -⟩
    cases h
  constructor
  · intro a b h
    exact absurd h (none a b)
  · intro a h
    obtain ⟨b, hab, -⟩ := TransGen.head'_iff.mp h
    exact none a b hab

theorem DependenciesSound.of_noneAdmitted (h : L.DependenciesSound) (hn : NoneAdmitted L L') :
    L'.DependenciesSound := by
  have heq : L'.DependsOn = L.DependsOn := by
    ext a b
    rw [Ledger.DependsOn, hn.payloads, Ledger.DependsOn]
  constructor
  · intro a b hab
    rw [hn.payloads]
    exact h.stored a b (heq ▸ hab)
  · rw [heq]
    exact h.acyclic

/-- Tasks come in that depend on tasks on record, and on each other without a cycle. -/
theorem DependenciesSound.extend (h : L.DependenciesSound)
    (kept : ∀ t payload, L.payloadOf t = some payload → L'.payloadOf t = some payload)
    (stored : ∀ a b, L.payloadOf a = none → L'.DependsOn a b → L'.payloadOf b ≠ none)
    (acyclic : ∀ a, ¬ TransGen (fun a b =>
      L'.DependsOn a b ∧ L.payloadOf a = none ∧ L.payloadOf b = none) a a) :
    L'.DependenciesSound := by
  -- a task that was there depends on what it depended on
  have old : ∀ a b, L.payloadOf a ≠ none → L'.DependsOn a b → L.DependsOn a b := by
    rintro a b ha ⟨payload, hp, hb⟩
    obtain ⟨held, hheld⟩ := Option.ne_none_iff_exists'.mp ha
    rw [kept a held hheld, Option.some.injEq] at hp
    exact ⟨held, hheld, hp ▸ hb⟩
  have path : ∀ a b, L.payloadOf a ≠ none → TransGen L'.DependsOn a b →
      TransGen L.DependsOn a b ∧ L.payloadOf b ≠ none := by
    intro a b ha hab
    induction hab with
    | single hab => exact ⟨.single (old _ _ ha hab), h.stored _ _ (old _ _ ha hab)⟩
    | tail _ hbc ih =>
      have hbc := old _ _ ih.2 hbc
      exact ⟨ih.1.tail hbc, h.stored _ _ hbc⟩
  constructor
  · intro a b hab
    by_cases ha : L.payloadOf a = none
    · exact stored a b ha hab
    · obtain ⟨payload, hp⟩ := Option.ne_none_iff_exists'.mp (h.stored a b (old a b ha hab))
      rw [kept b payload hp]
      exact Option.some_ne_none _
  · apply Search.acyclic_of_layers (S := fun t => L.payloadOf t ≠ none)
    · intro a b ha hab
      exact h.stored a b (old a b ha hab)
    · intro a ha hcycle
      exact h.acyclic a (path a a ha hcycle).1
    · simpa only [not_not] using acyclic

theorem DependenciesSound.after (h : L.DependenciesSound) {o : Op} (host : Host) (ho : o.Admits) :
    ((ledgerSemantics sha).after host L o).DependenciesSound := by
  have hstep := admissionStep_after sha host L ho
  generalize (ledgerSemantics sha).after host L o = L' at hstep ⊢
  cases hstep with
  | kept hn => exact DependenciesSound.of_noneAdmitted h hn
  | @loaded revision digest tasks _ known payloads =>
    have new : ∀ a b, L.payloadOf a = none → L'.DependsOn a b →
        ∃ item ∈ tasks, item.id = a ∧ b ∈ item.dependencies := by
      rintro a b ha ⟨payload, hp, hb⟩
      rw [payloads, ha, Option.none_or] at hp
      exact ⟨payload, List.mem_of_find?_eq_some hp, by simpa using List.find?_some hp, hb⟩
    apply DependenciesSound.extend h
    · intro t payload ht
      rw [payloads, ht, Option.some_or]
    · intro a b ha hab
      obtain ⟨item, hitem, rfl, hb⟩ := new a b ha hab
      rw [payloads, ne_eq, Option.or_eq_none_iff, List.find?_eq_none]
      rintro ⟨hnone, hfind⟩
      rcases known item hitem b hb with hmem | hstored
      · obtain ⟨other, hother, rfl⟩ := List.mem_map.mp hmem
        exact hfind other hother (decide_eq_true rfl)
      · exact hstored hnone
    · intro a hcycle
      refine acyclic_of_validatePlan ho a (TransGen.mono ?_ a a hcycle)
      rintro a b ⟨hab, ha, hb⟩
      obtain ⟨item, hitem, rfl, hdep⟩ := new a b ha hab
      exact ⟨item, hitem, rfl, hdep, (known item hitem b hdep).resolve_right (absurd hb)⟩
  | @readmitted previousRunId dependencyRunId revision digest new proof _ admitted payloads =>
    have fresh : L.payloadOf new.id = none := by rw [payloadOf, admitted.freshTask]; rfl
    -- all dependencies of the new task are done, so they are on record
    have done : ∀ b ∈ new.dependencies, L.payloadOf b ≠ none := by
      intro b hb
      have hdone := List.all_eq_true.mp admitted.dependencies b hb
      rw [payloadOf]
      rcases hlookup : L.tasks.lookup b with _ | task
      · rw [hlookup] at hdone
        cases hdone
      · exact Option.some_ne_none _
    have only : ∀ a b, L.payloadOf a = none → L'.DependsOn a b → b ∈ new.dependencies := by
      rintro a b ha ⟨payload, hp, hb⟩
      rw [payloads, ha] at hp
      split at hp
      · cases hp
        exact hb
      · cases hp
    have kept : ∀ t payload, L.payloadOf t = some payload → L'.payloadOf t = some payload := by
      intro t payload ht
      rw [payloads, if_neg, ht]
      rintro rfl
      rw [fresh] at ht
      cases ht
    apply DependenciesSound.extend h kept
    · intro a b ha hab
      obtain ⟨payload, hp⟩ := Option.ne_none_iff_exists'.mp (done b (only a b ha hab))
      rw [kept b payload hp]
      exact Option.some_ne_none _
    · intro a hcycle
      obtain ⟨b, ⟨hab, ha, hb⟩, -⟩ := TransGen.head'_iff.mp hcycle
      exact done b (only a b ha hab) hb

/-- The dependencies of a plan are refused if they have a cycle, and otherwise only where calls
cannot be nested as deeply as tasks depend on one another, which they can where fewer tasks are
given; and in every ledger that commands running side by side bring about, cut off wherever they may
be, no task depends on itself, however indirectly, or on a task that is not there. -/
theorem dependencies_acyclic (sha : Sha256) :
    (∀ (limit : ℕ) (tasks : List TaskPayload), (tasks.map TaskPayload.id).Nodup →
      ((∃ a, TransGen (DependsIn tasks) a a) →
        ∃ e, validateDependencyGraph limit tasks = .error e) ∧
      ((∀ a, ¬ TransGen (DependsIn tasks) a a) →
        ∀ e, validateDependencyGraph limit tasks = .error e →
          e = .other "RecursionError" "maximum recursion depth exceeded" ∧ ∃ chain : List TaskId,
            limit < chain.length ∧ chain.Nodup ∧ chain.IsChain (DependsIn tasks)) ∧
      (tasks.length < limit → ((∃ e, validateDependencyGraph limit tasks = .error e) ↔
        ∃ a, TransGen (DependsIn tasks) a a))) ∧
    ∀ as : List (Action Command Host), (ledgerAfter sha as).DependenciesSound := by
  constructor
  · intro limit tasks hnodup
    refine ⟨fun ⟨a, hcycle⟩ => ?_, fun hacyclic e herror => ?_, fun hlimit => ?_⟩
    · rcases he : validateDependencyGraph limit tasks with e | _
      · exact ⟨e, rfl⟩
      · exact absurd hcycle (acyclic_of_validateDependencyGraph hnodup he a)
    · rcases chain_of_validateDependencyGraph hnodup herror with rfl | ⟨he, chain, hlong, hchain⟩
      · obtain ⟨a, hcycle⟩ := cycle_of_validateDependencyGraph hnodup herror
        exact absurd hcycle (hacyclic a)
      · exact ⟨he, chain, hlong, Search.nodup_of_isChain hacyclic hchain, hchain⟩
    · rcases validateDependencyGraph_spec hnodup hlimit with ⟨he, hacyclic⟩ | ⟨he, hcycle⟩
      · rw [he]
        constructor
        · rintro ⟨e, h⟩
          cases h
        · rintro ⟨a, ha⟩
          exact absurd ha (hacyclic a)
      · rw [he]
        exact ⟨fun _ => hcycle, fun _ => ⟨_, rfl⟩⟩
  · intro as
    apply Theory.run_invariant Script.script_admits ?_ as dependenciesSound_empty
    intro L o host hL ho
    exact DependenciesSound.after hL host ho

namespace Chain

def taskId (i : ℕ) : TaskId := String.ofList (List.replicate (i + 1) 't')

theorem taskId_injective : Function.Injective taskId := by
  intro i j h
  simpa [taskId] using congrArg (fun s => s.toList.length) h

def task (deps : List TaskId) (i : ℕ) : TaskPayload :=
  ⟨taskId i, none, "k", "w", [], [], [], false, none, false, {}, 1, deps⟩

def tasks (length : ℕ) : List TaskPayload :=
  (List.range length).map (fun i => task [taskId (i + 1)] i) ++ [task [] length]

theorem ids_tasks (length : ℕ) :
    (tasks length).map TaskPayload.id = (List.range (length + 1)).map taskId := by
  rw [tasks, List.map_append, List.map_map, List.range_succ, List.map_append]
  rfl

theorem nodup_tasks (length : ℕ) : ((tasks length).map TaskPayload.id).Nodup := by
  rw [ids_tasks]
  exact List.nodup_range.map taskId_injective

theorem next_tasks {length i : ℕ} (hi : i < length) :
    nextInGraph (dependencyGraph (tasks length)) (taskId i) = [taskId (i + 1)] := by
  have hmem : task [taskId (i + 1)] i ∈ tasks length :=
    List.mem_append_left _ (List.mem_map_of_mem (List.mem_range.mpr hi))
  have hdeps : (dependencyGraph (tasks length)).lookup (taskId i) = some [taskId (i + 1)] :=
    lookup_dependencyGraph_of_mem (nodup_tasks length) hmem
  have hthere : ((dependencyGraph (tasks length)).lookup (taskId (i + 1))).isSome := by
    rw [lookup_dependencyGraph_isSome_iff (nodup_tasks length), ids_tasks]
    exact List.mem_map_of_mem (List.mem_range.mpr (by omega))
  simp only [nextInGraph, hdeps, Option.getD_some, List.filter_cons, List.filter_nil, hthere,
    if_true]

theorem acyclic_tasks (length : ℕ) (a : TaskId) : ¬ TransGen (DependsIn (tasks length)) a a := by
  intro hcycle
  have hstep : ∀ a b, DependsIn (tasks length) a b → a.length < b.length := by
    rintro _ b ⟨item, hitem, rfl, hb, -⟩
    rw [tasks, List.mem_append, List.mem_map, List.mem_singleton] at hitem
    rcases hitem with ⟨i, -, rfl⟩ | rfl
    · obtain rfl := List.mem_singleton.mp hb
      simp [task, taskId]
    · cases hb
  have hlonger : ∀ b, TransGen (DependsIn (tasks length)) a b → a.length < b.length := by
    intro b hab
    induction hab with
    | single hab => exact hstep _ _ hab
    | tail _ hbc ih => exact lt_trans ih (hstep _ _ hbc)
  exact lt_irrefl _ (hlonger a hcycle)

theorem validate_tasks (limit : ℕ) : validateDependencyGraph limit (tasks limit) =
    .error (.other "RecursionError" "maximum recursion depth exceeded") := by
  have hvisit : Search.visit (nextInGraph (dependencyGraph (tasks limit))) limit ∅ (taskId 0) =
      .error .depth :=
    Search.visit_of_path (fun _ hi => next_tasks hi) taskId_injective le_rfl fun _ _ => rfl
  have hids : (tasks limit).map TaskPayload.id =
      taskId 0 :: (List.range limit).map (taskId ∘ Nat.succ) := by
    rw [ids_tasks, List.range_succ_eq_map, List.map_cons, List.map_map]
  rw [validateDependencyGraph, Search.search, hids, List.foldlM_cons, hvisit]
  rfl

end Chain

/-- A thousand and one tasks that each depend on the next are refused, and no task depends on
itself. -/
theorem not_always_refused_iff : ¬ ∀ tasks : List TaskPayload, (tasks.map TaskPayload.id).Nodup →
    ((∃ e, validateDependencyGraph recursionLimit tasks = .error e) ↔
      ∃ a, TransGen (DependsIn tasks) a a) := by
  intro h
  obtain ⟨a, hcycle⟩ := (h _ (Chain.nodup_tasks recursionLimit)).mp ⟨_, Chain.validate_tasks _⟩
  exact Chain.acyclic_tasks _ a hcycle

end OrchKit
