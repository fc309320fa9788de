import OrchKit.Ledger.Admission
import OrchKit.Ledger.Kept
import OrchKit.Planning.Refusal

/-! # Loading a plan

A plan that is guarded is loaded as a whole or refused with a `ValueError`, and one that is not
guarded is refused with something else. Loading a plan once more, whatever has happened in the
meantime, changes none of the rows of plans, tasks and runs.
-/

namespace OrchKit.Planning

open Except Json Program

/-! ### Tasks that were validated -/

section Validated

variable {py : Interpreter} {site : Site} {fields : Fields} {α β : Type}

theorem exists_of_foldlM {f : β → α → Checked β} {xs : List α} {b c : β}
    (h : xs.foldlM f b = .ok c) : ∀ x ∈ xs, ∃ b' c', f b' x = .ok c' := by
  induction xs generalizing b with
  | nil => simp
  | cons y xs ih =>
    rw [List.foldlM_cons, bind_eq_ok_iff] at h
    obtain ⟨b', hb', h⟩ := h
    intro x hx
    rcases List.mem_cons.mp hx with rfl | hx
    · exact ⟨b, b', hb'⟩
    · exact ih h x hx

/-- What preparing a task relies on. -/
structure Validated (py : Interpreter) (site : Site) (fields : Fields) : Prop where
  review : ∃ review, normalizeReviewPolicy py fields = .ok review
  workspace : ∃ path, get fields "workspace" = text path
  writerKey : ∃ writerKey, taskWriterKey site fields = .ok writerKey
  checks : ∀ check ∈ elements (getD fields "checks" (.arr [])), ∃ object, check = .obj object
  others : taskIdOf fields ∉ dependenciesOf fields

theorem checks_of_validateChecks {value : Value} (h : validateChecks value = .ok ()) :
    ∀ check ∈ elements value, ∃ object, check = .obj object := by
  cases value with
  | arr checks =>
    simp only [validateChecks, bind_eq_ok_iff] at h
    obtain ⟨-, -, _, hfold, -⟩ := h
    intro check hcheck
    obtain ⟨seen, seen', hvalid⟩ := exists_of_foldlM hfold check hcheck
    cases check with
    | obj object => exact ⟨object, rfl⟩
    | null | bool _ | number _ | str _ | arr _ => cases hvalid
  | null | bool _ | number _ | str _ | obj _ => simp [elements]

theorem others_of_checkDependencies (h : checkDependencies fields = .ok ()) :
    taskIdOf fields ∉ dependenciesOf fields := by
  rw [checkDependencies] at h
  rw [dependenciesOf, texts]
  split at h
  next deps hdeps =>
    have hall := List.all_eq_true.mp (require_eq_ok_iff.mp h)
    rw [hdeps, elements, List.mem_filterMap]
    rintro ⟨dep, hdep, htext⟩
    have hname := hall dep hdep
    cases dep with
    | str t => cases t <;> simp_all [isOtherName, Value.text?]
    | null | bool _ | number _ | arr _ | obj _ => cases hname
  next => cases h

theorem validated (h : validateItem py site fields = .ok ()) : Validated py site fields := by
  simp only [validateItem, validateTaskDefinition, validateTaskFields, bind_eq_ok_iff] at h
  obtain ⟨_, hdeps, taskId, -, _, -, _, hscope, _, hchecks, _, -, _, hreview, -⟩ := h
  simp only [taskScope, bind_eq_ok_iff] at hscope
  obtain ⟨_, -, _, -, _, hworkspace, _, -, writerKey, hwriterKey, -⟩ := hscope
  simp only [validateReview, bind_eq_ok_iff] at hreview
  obtain ⟨_, -, review, hreview, -⟩ := hreview
  constructor
  · exact ⟨review, hreview⟩
  · exact asPath_of_validateWorkspace hworkspace
  · exact ⟨writerKey, hwriterKey⟩
  · exact checks_of_validateChecks hchecks
  · exact others_of_checkDependencies hdeps

end Validated

/-! ### Tasks that were prepared -/

section Prepared

variable {py : Interpreter} {site : Site} {fields : Fields}

theorem declared_prepareTaskPayload (h : Validated py site fields) :
    (prepareTaskPayload py site fields).RaisesOnly Declared ↔ BindingsGuarded site fields := by
  obtain ⟨review, hreview⟩ := h.review
  obtain ⟨writerKey, hwriterKey⟩ := h.writerKey
  simp [prepareTaskPayload, hreview, hwriterKey, raisesOnly_bind,
    declared_bindCheckAuthority h.workspace h.checks]

theorem prepareTaskPayload_eq_ok {payload : TaskPayload}
    (h : prepareTaskPayload py site fields = .ok payload) :
    payload.id = taskIdOf fields ∧ payload.dependencies = dependenciesOf fields := by
  simp only [prepareTaskPayload, bind_eq_ok_iff, pure_eq_ok_iff] at h
  obtain ⟨_, -, _, -, _, -, rfl⟩ := h
  exact ⟨rfl, rfl⟩

end Prepared

/-! ### Admitted plans -/

section Plans

variable {py : Interpreter} {site : Site} {digest : List UInt8 → Hash} {file : PlanFile}
  {data : Fields} {revision : String} {items : List Fields} {values : List Value}
  {payloads : List TaskPayload}

theorem map_of_mapM {α β γ ε : Type} {f : α → Except ε β} {g : β → γ} {k : α → γ}
    (hk : ∀ x y, f x = .ok y → g y = k x) {xs : List α} {ys : List β} (h : xs.mapM f = .ok ys) :
    ys.map g = xs.map k := by
  induction xs generalizing ys with
  | nil =>
    obtain rfl := pure_eq_ok_iff.mp h
    rfl
  | cons x xs ih =>
    rw [List.mapM_cons] at h
    simp only [bind_eq_ok_iff, pure_eq_ok_iff] at h
    obtain ⟨y, hy, ys, hys, rfl⟩ := h
    rw [List.map_cons, List.map_cons, hk x y hy, ih hys]

theorem validateEdges_eq (tasks : List TaskPayload) :
    validateEdges (tasks.map fun task => (task.id, task.dependencies)) =
      validateDependencyGraph recursionLimit tasks := by
  simp only [validateEdges, validateDependencyGraph, dependencyGraph, List.foldl_map, List.map_map]
  rfl

theorem exists_tasks (edges : Edges) :
    ∃ tasks : List TaskPayload, tasks.map (fun task => (task.id, task.dependencies)) = edges := by
  refine ⟨edges.map fun e => ⟨e.1, none, "", "", [], [], [], false, none, false, {}, 0, e.2⟩, ?_⟩
  rw [List.map_map]
  exact List.map_id'' (fun _ => rfl) edges

theorem declared_validateEdges {edges : Edges} (h : (edges.map Prod.fst).Nodup)
    (hbounded : edges.length ≤ planMaxTasks) : (validateEdges edges).RaisesOnly Declared := by
  obtain ⟨tasks, rfl⟩ := exists_tasks edges
  have hnodup : (tasks.map TaskPayload.id).Nodup := by
    rw [List.map_map] at h
    exact h
  have hlimit : tasks.length < recursionLimit := by
    rw [List.length_map] at hbounded
    exact lt_of_le_of_lt hbounded (by decide)
  rw [validateEdges_eq]
  rcases validateDependencyGraph_spec hnodup hlimit with ⟨hok, -⟩ | ⟨hcycle, -⟩
  · simp [hok]
  · simp [hcycle]

/-- The tasks are some, not too many, and under ids of their own. -/
structure Distinct (items : List Fields) : Prop where
  nonempty : items ≠ []
  bounded : items.length ≤ planMaxTasks
  named : ∀ fields ∈ items, isProjectId (taskIdOf fields)
  nodup : (items.map taskIdOf).Nodup

theorem textId_obj (fields : Fields) :
    ((Value.obj fields).get "id").bind Value.text? = (get fields "id").text? := by
  rw [Value.get, Json.get]
  cases field fields "id" <;> rfl

theorem planItems_eq_ok (h : planItems values = .ok items) :
    items.length = values.length ∧ (∀ fields ∈ items, isProjectId (taskIdOf fields)) ∧
      (items.map taskIdOf).Nodup := by
  simp only [planItems, bind_eq_ok_iff, require_eq_ok_iff, pure_eq_ok_iff] at h
  obtain ⟨-, ⟨hnamed, hnodup⟩, rfl⟩ := h
  have hobj : values = (values.filterMap objectOf).map .obj := by
    clear hnodup
    induction values with
    | nil => rfl
    | cons value values ih =>
      rw [List.map_cons, List.forall_mem_cons] at hnamed
      cases value with
      | obj fields =>
        have hfields : objectOf (.obj fields) = some fields := rfl
        rw [List.filterMap_cons_some hfields, List.map_cons, ← ih hnamed.2]
      | null | bool _ | number _ | str _ | arr _ => cases hnamed.1
  generalize values.filterMap objectOf = items at hobj
  subst hobj
  simp only [List.map_map, Function.comp_def, textId_obj, List.forall_mem_map] at hnamed hnodup
  have hid : ∀ fields ∈ items, (get fields "id").text? = some (taskIdOf fields) := by
    intro fields hfields
    have hany := hnamed fields hfields
    rw [taskIdOf]
    cases htext : (get fields "id").text? with
    | none => simp [htext] at hany
    | some i => rfl
  constructor
  · exact (List.length_map _).symm
  · constructor
    · intro fields hfields
      have hany := hnamed fields hfields
      rwa [hid fields hfields, Option.any_some] at hany
    · rw [List.map_congr_left hid] at hnodup
      apply List.Nodup.of_map some
      rwa [List.map_map]

theorem planTasks_eq_ok {value : Value} (h : planTasks value = .ok items) : Distinct items := by
  cases value with
  | arr values =>
    simp only [planTasks, bind_eq_ok_iff, require_eq_ok_iff] at h
    obtain ⟨_, hnonempty, _, hbounded, hitems⟩ := h
    obtain ⟨hlength, hnamed, hnodup⟩ := planItems_eq_ok hitems
    constructor
    · rintro rfl
      exact hnonempty (List.length_eq_zero_iff.mp hlength.symm)
    · omega
    · exact hnamed
    · exact hnodup
  | null | bool _ | number _ | str _ | obj _ => cases h

theorem planHeader_eq_ok (h : planHeader data = .ok (revision, items)) : Distinct items := by
  simp only [planHeader, bind_eq_ok_iff, pure_eq_ok_iff, Prod.mk.injEq] at h
  obtain ⟨_, -, _, -, _, -, _, -, items, hitems, -, rfl⟩ := h
  exact planTasks_eq_ok hitems

theorem declared_planHeader : (planHeader data).RaisesOnly Declared := by
  have hadapter : ∀ value, (checkAdapter value).RaisesOnly Declared := by
    intro value
    cases value <;> simp [checkAdapter]
  have htasks : ∀ value, (planTasks value).RaisesOnly Declared := by
    intro value
    cases value <;> simp [planTasks, planItems, raisesOnly_bind]
  simp [planHeader, raisesOnly_bind, hadapter, htasks]

theorem declared_readPlanDocument : (readPlanDocument py file).RaisesOnly Declared ↔
    DocumentGuarded py file := by
  simp only [readPlanDocument, raisesOnly_bind, declared_require, true_and, require_eq_ok_iff,
    DocumentGuarded]
  cases hloads : py.loads file.bytes with
  | value v => cases v <;> simp
  | malformed => simp
  | fault fault => cases fault <;> simp [ofFault, Fault.IsValueError]

theorem validated_of_forM (h : forM items (validateItem py site) = .ok ()) :
    ∀ fields ∈ items, Validated py site fields := by
  intro fields hfields
  rw [forM_eq_foldlM] at h
  obtain ⟨_, _, hvalid⟩ := exists_of_foldlM h fields hfields
  exact validated hvalid

theorem edgesOf_fst : (edgesOf items).map Prod.fst = items.map taskIdOf := by
  rw [edgesOf, List.map_map]
  rfl

theorem declared_admitTasks (h : Distinct items) :
    (admitTasks py site items).RaisesOnly Declared ↔ TasksGuarded py site items ∧
      (forM items (validateItem py site) = .ok () → validateEdges (edgesOf items) = .ok () →
        EachGuarded (prepareTaskPayload py site) (BindingsGuarded site) items) := by
  have hedges : (validateEdges (edgesOf items)).RaisesOnly Declared := by
    refine declared_validateEdges (by rw [edgesOf_fst]; exact h.nodup) ?_
    rw [edgesOf, List.length_map]
    exact h.bounded
  simp only [admitTasks, raisesOnly_bind, List.forM_eq_forM, declared_validateItems,
    forall_passed_iff, and_iff_right hedges]
  refine and_congr_right fun _ => forall_congr' fun hvalid => forall_congr' fun _ => ?_
  exact declared_each fun fields hfields =>
    declared_prepareTaskPayload (validated_of_forM hvalid fields hfields)

/-- Admitting a plan raises a `ValueError`, if anything, just for guarded plans. -/
theorem declared_admitPlan : (admitPlan py site digest file).RaisesOnly Declared ↔
    PlanGuarded py site file := by
  simp only [admitPlan, raisesOnly_bind, declared_readPlanDocument, declared_planHeader, true_and,
    raisesOnly_pure, implies_true, and_true, PlanGuarded]
  constructor
  · rintro ⟨hdocument, h⟩
    constructor
    · exact hdocument
    · intro data revision items hdata hitems
      exact (declared_admitTasks (planHeader_eq_ok hitems)).mp
        (h data hdata (revision, items) hitems)
  · rintro ⟨hdocument, h⟩
    constructor
    · exact hdocument
    · rintro data hdata ⟨revision, items⟩ hitems
      exact (declared_admitTasks (planHeader_eq_ok hitems)).mpr (h data revision items hdata hitems)

/-! ### The tasks of an admitted plan -/

theorem admitTasks_eq_ok (h : admitTasks py site items = .ok payloads) :
    payloads.map TaskPayload.id = items.map taskIdOf ∧
      payloads.map (fun task => (task.id, task.dependencies)) = edgesOf items ∧
      validateEdges (edgesOf items) = .ok () ∧ ∀ fields ∈ items, Validated py site fields := by
  simp only [admitTasks, bind_eq_ok_iff] at h
  obtain ⟨_, hvalid, _, hedges, hpayloads⟩ := h
  constructor
  · exact map_of_mapM (fun _ _ h => (prepareTaskPayload_eq_ok h).1) hpayloads
  · constructor
    · apply map_of_mapM _ hpayloads
      intro fields payload hpayload
      obtain ⟨hid, hdeps⟩ := prepareTaskPayload_eq_ok hpayload
      rw [hid, hdeps]
    · exact ⟨hedges, validated_of_forM hvalid⟩

/-- Loading does not refuse what was admitted before its transaction. -/
theorem validatePlan_of_admitTasks (hitems : Distinct items)
    (h : admitTasks py site items = .ok payloads) : validatePlan payloads = .ok () := by
  obtain ⟨hids, hedges, hvalid, hothers⟩ := admitTasks_eq_ok h
  have hlength : payloads.length = items.length := by
    simpa using congrArg List.length hids
  have hmem : ∀ payload ∈ payloads, ∃ fields ∈ items,
      taskIdOf fields = payload.id ∧ dependenciesOf fields = payload.dependencies := by
    intro payload hpayload
    have hedge : (payload.id, payload.dependencies) ∈ edgesOf items := by
      rw [← hedges]
      exact List.mem_map_of_mem hpayload
    obtain ⟨fields, hfields, heq⟩ := List.mem_map.mp hedge
    obtain ⟨hid, hdeps⟩ := Prod.mk.inj heq
    exact ⟨fields, hfields, hid, hdeps⟩
  have hgraph : validateDependencyGraph recursionLimit payloads = .ok () := by
    rw [← validateEdges_eq, hedges]
    exact hvalid
  simp only [validatePlan, bind_eq_ok_iff, require_eq_ok_iff, exists_const]
  refine ⟨?_, ?_, ⟨?_, ?_⟩, ?_, hgraph⟩
  · rintro rfl
    exact hitems.nonempty (List.length_eq_zero_iff.mp hlength.symm)
  · rw [hlength]
    exact hitems.bounded
  · intro payload hpayload
    obtain ⟨fields, hfields, hid, -⟩ := hmem payload hpayload
    rw [← hid]
    exact hitems.named fields hfields
  · rw [hids]
    exact hitems.nodup
  · intro payload hpayload
    obtain ⟨fields, hfields, hid, hdeps⟩ := hmem payload hpayload
    rw [← hid, ← hdeps]
    exact (hothers fields hfields).others

end Plans

/-! ### The rows of a plan -/

/-- The ledger has a plan on record, and the tasks with these ids under it. -/
structure Loaded (L : Ledger) (revision : String) (digest : Hash) (ids : List TaskId) : Prop where
  plan : L.plans.lookup revision = some digest
  tasks : ∀ id ∈ ids, ∃ task, L.tasks.lookup id = some task ∧ task.planRevision = revision

def isFresh (L : Ledger) (payload : TaskPayload) : Bool := L.tasks.lookup payload.id = none

/-- The plan is on record with all of its tasks: those without a row have been queued, in the order
of the document, behind all the tasks there were, and nothing else has changed. -/
structure Committed (L L' : Ledger) (revision : String) (digest : Hash)
    (payloads : List TaskPayload) : Prop where
  plans : ∀ r, L'.plans.lookup r = if r = revision then some digest else L.plans.lookup r
  kept : ∀ id task, L.tasks.lookup id = some task → L'.tasks.lookup id = some task
  own : ∀ payload ∈ payloads, ∀ task, L.tasks.lookup payload.id = some task →
    task.planRevision = revision
  queued : ∀ i payload, payloads[i]? = some payload → L.tasks.lookup payload.id = none →
    L'.tasks.lookup payload.id = some ⟨revision, i,
      L.maxQueueSeq + (payloads.take i).countP (isFresh L) + 1, .planned, payload⟩
  others : ∀ id, id ∉ payloads.map TaskPayload.id → L'.tasks.lookup id = L.tasks.lookup id
  rest : ∃ count, L' = { L with plans := L'.plans, tasks := L'.tasks }.record
    (.planLoaded revision digest count)

/-- No row of a plan, a task or a run is new or has changed. -/
structure RowsKept (L L' : Ledger) : Prop where
  plans : L'.plans = L.plans
  tasks : L'.tasks = L.tasks
  runs : L'.runs = L.runs

def TasksTold (L L' : Ledger) : Prop :=
  ∀ id task, L.tasks.lookup id = some task →
    ∃ status, L'.tasks.lookup id = some { task with status := status }

section Rows

variable {sha : Sha256} {L L' : Ledger} {revision : String} {digest : Hash} {ids : List TaskId}
  {payloads : List TaskPayload} {reply : Reply} {o : Op}

theorem tasksTold_of_eq (h : L'.tasks = L.tasks) : TasksTold L L' :=
  fun _ task ht => ⟨task.status, h ▸ ht⟩

theorem told_of_taskStep {row row' : Option Task} (h : TaskStep row row') {task : Task}
    (ht : row = some task) : ∃ status, row' = some { task with status := status } := by
  cases h with
  | same => exact ⟨task.status, ht⟩
  | planned => cases ht
  | blocked | cancelled =>
    cases ht
    exact ⟨_, rfl⟩

theorem tasksTold_of_moved {runId : RunId} {run run' : Run} {status : Option TaskStatus}
    (h : Ledger.Moved L L' runId run run' status) : TasksTold L L' := by
  intro id task ht
  by_cases hid : id = run.taskId
  · subst hid
    rw [h.told, ht]
    exact ⟨_, rfl⟩
  · exact ⟨task.status, (h.tasks id hid).trans ht⟩

theorem tasksTold_of_rewrote {runId : RunId} {f : Run → Run} {taskId : TaskId} {told : TaskStatus}
    (h : Ledger.Rewrote L L' runId f taskId told) : TasksTold L L' := by
  intro id task ht
  rw [h.tasks, Table.lookup_modify, ht]
  split
  · exact ⟨_, rfl⟩
  · exact ⟨task.status, rfl⟩

theorem tasksTold (h : Effect sha L o L') : TasksTold L L' := by
  cases h with
  | quiet tasks => exact tasksTold_of_eq tasks
  | queued tasks => exact fun id _ ht => told_of_taskStep (tasks id) ht
  | @started _ _ runId run task h =>
    intro id row ht
    by_cases hid : id = run.taskId
    · subst hid
      rw [h.claimable.found] at ht
      cases ht
      exact ⟨_, h.started⟩
    · exact told_of_taskStep (h.others id hid) ht
  | moved h | accepted h | completed h | waiting h | approved h => exact tasksTold_of_moved h
  | result h =>
    obtain ⟨_, _, _, -, h, -⟩ := Ledger.verifyResult_spec h
    exact tasksTold_of_rewrote h
  | unclaimed h => exact tasksTold_of_rewrote (Ledger.capabilityCreateFailed_spec h).1
  | finalized h => exact tasksTold_of_rewrote (Ledger.finalizePublication_spec h).1
  | deleted | inserted | updated => exact tasksTold_of_eq rfl

theorem plans_of_admissionStep (h : Ledger.AdmissionStep sha L o L') :
    ∀ r d, L.plans.lookup r = some d → L'.plans.lookup r = some d := by
  intro r d hr
  cases h with
  | kept h => rwa [h.plans]
  | loaded _ _ plans => exact plans r d hr
  | @readmitted _ _ revision _ _ _ _ admitted _ plans =>
    have hne : r ≠ revision := by
      rintro rfl
      rw [admitted.freshPlan] at hr
      cases hr
    rwa [plans, Table.lookup_put, if_neg hne]

theorem plans_after (sha : Sha256) (host : Host) (L : Ledger) (o : Op) :
    ∀ r d, L.plans.lookup r = some d →
      ((ledgerSemantics sha).after host L o).plans.lookup r = some d := by
  cases o with
  | insertEvent kind => exact fun r d hr => hr
  | transaction t =>
    simp only [Semantics.after, ledgerSemantics]
    rcases ht : t.run sha host L with e | ⟨reply, L'⟩
    · exact fun r d hr => hr
    · cases t with
      | loadPlan => exact plans_of_admissionStep (@Ledger.loadPlan_step _ _ sha _ _ _ _ ht)
      | readmit => exact plans_of_admissionStep (Ledger.readmit_step ht)
      | _ =>
        have hnone := (Ledger.transaction_noneAdmitted rfl).of_ok ht
        intro r d hr
        rwa [hnone.plans]
  | _ => exact plans_of_admissionStep (Ledger.admissionStep_after sha host L trivial)

theorem loaded_after (h : Loaded L revision digest ids) (host : Host) (o : Op) :
    Loaded ((ledgerSemantics sha).after host L o) revision digest ids := by
  constructor
  · exact plans_after sha host L o revision digest h.plan
  · intro id hid
    obtain ⟨task, htask, hrevision⟩ := h.tasks id hid
    obtain ⟨status, htold⟩ := tasksTold (Effect.after sha host L o) id task htask
    exact ⟨_, htold, hrevision⟩

theorem loaded_run {w : World orchSig Ledger Exn Reply} (h : Loaded w.shared revision digest ids)
    (as : List (Action Command Host)) :
    Loaded (w.run (ledgerSemantics sha) Command.script as).shared revision digest ids := by
  have step : ∀ (L : Ledger) (o : Op) (host : Host), Loaded L revision digest ids →
      Loaded ((ledgerSemantics sha).after host L o) revision digest ids :=
    fun _ o host h => loaded_after h host o
  exact World.run_rel
    (R := fun L L' => Loaded L revision digest ids → Loaded L' revision digest ids)
    (fun _ h => h) (fun _ _ _ h₁ h₂ h => h₂ (h₁ h)) step w as h

/-! ### The transaction -/

open Ledger

theorem insertTasks_eq (revision : String) (ordinal nextQueue : ℕ) (payloads : List TaskPayload)
    (L : Ledger) : ∃ tasks, (insertTasks revision ordinal nextQueue payloads L).1 =
      { L with tasks := tasks } := by
  induction payloads generalizing ordinal nextQueue L with
  | nil => exact ⟨L.tasks, rfl⟩
  | cons payload payloads ih =>
    rw [insertTasks]
    split
    · exact ih (ordinal + 1) nextQueue L
    · obtain ⟨tasks, htasks⟩ := ih (ordinal + 1) (nextQueue + 1) { L with
        tasks := L.tasks.put payload.id ⟨revision, ordinal, nextQueue + 1, .planned, payload⟩ }
      exact ⟨tasks, htasks⟩

theorem insertTasks_kept (ordinal nextQueue : ℕ) {id : TaskId} {task : Task}
    (h : L.tasks.lookup id = some task) :
    (insertTasks revision ordinal nextQueue payloads L).1.tasks.lookup id = some task := by
  rcases (Effect.insertTasks_spec revision ordinal nextQueue payloads L).2 id with hid | ⟨hid, -⟩
  · rw [hid, h]
  · rw [h] at hid
    cases hid

theorem insertTasks_others {id : TaskId} (h : id ∉ payloads.map TaskPayload.id)
    (ordinal nextQueue : ℕ) :
    (insertTasks revision ordinal nextQueue payloads L).1.tasks.lookup id = L.tasks.lookup id := by
  induction payloads generalizing ordinal nextQueue L with
  | nil => rfl
  | cons payload payloads ih =>
    rw [List.map_cons, List.mem_cons, not_or] at h
    rw [insertTasks]
    split
    · exact ih h.2 (ordinal + 1) nextQueue
    · refine (ih h.2 (ordinal + 1) (nextQueue + 1)).trans ?_
      rw [Table.lookup_put, if_neg h.1]

theorem countP_isFresh_put {id : TaskId} {task : Task} (h : id ∉ payloads.map TaskPayload.id) :
    payloads.countP (isFresh { L with tasks := L.tasks.put id task }) =
      payloads.countP (isFresh L) := by
  apply List.countP_congr
  intro payload hpayload
  have hne : payload.id ≠ id := fun hid => h (hid ▸ List.mem_map_of_mem hpayload)
  simp only [isFresh, Table.lookup_put, if_neg hne]

theorem insertTasks_queued (hnodup : (payloads.map TaskPayload.id).Nodup) (ordinal nextQueue : ℕ)
    {i : ℕ} {payload : TaskPayload} (hi : payloads[i]? = some payload)
    (hfree : L.tasks.lookup payload.id = none) :
    (insertTasks revision ordinal nextQueue payloads L).1.tasks.lookup payload.id =
      some ⟨revision, ordinal + i, nextQueue + (payloads.take i).countP (isFresh L) + 1, .planned,
        payload⟩ := by
  induction payloads generalizing ordinal nextQueue i L with
  | nil => cases hi
  | cons head payloads ih =>
    rw [List.map_cons, List.nodup_cons] at hnodup
    rw [insertTasks]
    cases i with
    | zero =>
      obtain rfl : head = payload := by simpa using hi
      rw [hfree]
      let task : Task := ⟨revision, ordinal, nextQueue + 1, .planned, head⟩
      have hput : (L.tasks.put head.id task).lookup head.id = some task := by
        rw [Table.lookup_put, if_pos rfl]
      exact insertTasks_kept (L := { L with tasks := L.tasks.put head.id task }) (ordinal + 1)
        (nextQueue + 1) hput
    | succ i =>
      rw [List.getElem?_cons_succ] at hi
      have hne : payload.id ≠ head.id := fun hid =>
        hnodup.1 (hid ▸ List.mem_map_of_mem (List.mem_of_getElem? hi))
      have hrest : head.id ∉ (payloads.take i).map TaskPayload.id :=
        fun hid => hnodup.1 (List.map_subset _ (List.take_subset i payloads) hid)
      rw [List.take_succ_cons, List.countP_cons]
      split
      next task htask =>
        have hstale : isFresh L head = false := by simp [isFresh, htask]
        rw [ih hnodup.2 (ordinal + 1) nextQueue hi hfree, hstale]
        simp [Nat.add_right_comm, Nat.add_assoc, Nat.add_comm 1]
      next hnone =>
        have hfresh : isFresh L head = true := by simp [isFresh, hnone]
        have hfree' :
            (L.tasks.put head.id ⟨revision, ordinal, nextQueue + 1, .planned, head⟩).lookup
            payload.id = none := by
          rw [Table.lookup_put, if_neg hne, hfree]
        refine (ih hnodup.2 (ordinal + 1) (nextQueue + 1) hi hfree').trans ?_
        rw [countP_isFresh_put hrest, hfresh]
        simp [Nat.add_right_comm, Nat.add_assoc, Nat.add_comm 1]

theorem insertTasks_present {ordinal nextQueue : ℕ}
    (h : ∀ payload ∈ payloads, ∃ task, L.tasks.lookup payload.id = some task) :
    (insertTasks revision ordinal nextQueue payloads L).1 = L := by
  induction payloads generalizing ordinal nextQueue with
  | nil => rfl
  | cons payload payloads ih =>
    rw [List.forall_mem_cons] at h
    obtain ⟨⟨task, htask⟩, hrest⟩ := h
    rw [insertTasks, htask]
    exact ih hrest

theorem insertTasks_rows (ordinal nextQueue : ℕ) :
    (insertTasks revision ordinal nextQueue payloads L).1.plans = L.plans ∧
      (insertTasks revision ordinal nextQueue payloads L).1.runs = L.runs :=
  ⟨(insertTasks_admits revision ordinal nextQueue payloads L).1,
    (Effect.insertTasks_spec revision ordinal nextQueue payloads L).1.runs⟩

theorem declared_loadPlan : (L.loadPlan revision digest payloads).RaisesOnly Declared := by
  simp [Ledger.loadPlan, raisesOnly_bind]

/-- The transaction puts the plan and all its tasks on record. -/
theorem committed_of_loadPlan (hnodup : (payloads.map TaskPayload.id).Nodup)
    (h : L.loadPlan revision digest payloads = .ok (reply, L')) :
    Committed L L' revision digest payloads := by
  simp only [Ledger.loadPlan, bind_eq_ok_iff, require_eq_ok_iff, noneOf_eq_ok_iff, pure_eq_ok_iff,
    Prod.mk.injEq] at h
  obtain ⟨_, hdigest, _, -, _, hconflict, -, rfl⟩ := h
  let M : Ledger := { L with
    plans := if (L.plans.lookup revision).isSome then L.plans else L.plans.put revision digest }
  constructor
  · intro r
    change (insertTasks revision 0 L.maxQueueSeq payloads M).1.plans.lookup r = _
    rw [(insertTasks_rows _ _).1]
    change (if _ then L.plans else L.plans.put revision digest).lookup r = _
    cases hplan : L.plans.lookup revision with
    | none => exact Table.lookup_put ..
    | some d =>
      obtain rfl := hdigest d hplan
      rw [Option.isSome_some, if_pos rfl]
      split
      next hr => rw [hr, hplan]
      next => rfl
  · intro id task htask
    rw [record_tasks]
    exact insertTasks_kept (L := M) 0 L.maxQueueSeq htask
  · intro payload hpayload task htask
    by_contra hother
    have hmem : payload ∈ payloads.filter fun item =>
        (L.tasks.lookup item.id).any fun task => task.planRevision ≠ revision := by
      rw [List.mem_filter, htask]
      exact ⟨hpayload, by simpa using hother⟩
    rw [hconflict] at hmem
    cases hmem
  · intro i payload hi hfree
    rw [record_tasks]
    refine (insertTasks_queued (L := M) hnodup 0 L.maxQueueSeq hi hfree).trans ?_
    rw [Nat.zero_add]
    rfl
  · intro id hid
    rw [record_tasks]
    exact insertTasks_others (L := M) hid 0 L.maxQueueSeq
  · obtain ⟨tasks, htasks⟩ := insertTasks_eq revision 0 L.maxQueueSeq payloads M
    rw [htasks]
    exact ⟨_, rfl⟩

theorem Committed.loaded (h : Committed L L' revision digest payloads) :
    Loaded L' revision digest (payloads.map TaskPayload.id) := by
  constructor
  · rw [h.plans, if_pos rfl]
  · intro id hid
    obtain ⟨payload, hpayload, rfl⟩ := List.mem_map.mp hid
    cases htask : L.tasks.lookup payload.id with
    | none =>
      obtain ⟨i, hi⟩ := List.getElem?_of_mem hpayload
      exact ⟨_, h.queued i payload hi htask, rfl⟩
    | some task => exact ⟨task, h.kept payload.id task htask, h.own payload hpayload task htask⟩

theorem rowsKept_of_loadPlan (hL : Loaded L revision digest (payloads.map TaskPayload.id))
    {digest' : Hash} (h : L.loadPlan revision digest' payloads = .ok (reply, L')) :
    RowsKept L L' := by
  simp only [Ledger.loadPlan, bind_eq_ok_iff, pure_eq_ok_iff, Prod.mk.injEq] at h
  obtain ⟨_, -, _, -, _, -, -, rfl⟩ := h
  have hplans : (if (L.plans.lookup revision).isSome then L.plans
      else L.plans.put revision digest') = L.plans := by
    rw [hL.plan]
    rfl
  have hpresent : ∀ payload ∈ payloads, ∃ task, L.tasks.lookup payload.id = some task := by
    intro payload hpayload
    obtain ⟨task, htask, -⟩ := hL.tasks payload.id (List.mem_map_of_mem hpayload)
    exact ⟨task, htask⟩
  rw [hplans, insertTasks_present hpresent]
  constructor <;> rfl

end Rows

/-! ### The command -/

/-- Every task of the document is committed as it was prepared, or the plan is refused with a
`ValueError` and the ledger is as it was. -/
def AllOrNothing (py : Interpreter) (site : Site) (digest : List UInt8 → Hash) (file : PlanFile)
    (L : Ledger) (outcome : Except Exn Reply × Ledger) : Prop :=
  (∃ reply data revision items payloads, outcome.1 = .ok reply ∧
    readPlanDocument py file = .ok data ∧ planHeader data = .ok (revision, items) ∧
    items.mapM (prepareTaskPayload py site) = .ok payloads ∧
    Committed L outcome.2 revision (digest file.bytes) payloads) ∨
  ∃ message, outcome.1 = .error (.value message) ∧ outcome.2 = L

section Command

variable {py : Interpreter} {site : Site} {digest : List UInt8 → Hash} {file : PlanFile}
  {sha : Sha256} {host : Host} {L L' : Ledger} {reply : Reply}
  {plan : String × Hash × List TaskPayload}

/-- What a plan that was admitted is made of. -/
structure Admitted (py : Interpreter) (site : Site) (digest : List UInt8 → Hash) (file : PlanFile)
    (plan : String × Hash × List TaskPayload) (data : Fields) (items : List Fields) : Prop where
  read : readPlanDocument py file = .ok data
  header : planHeader data = .ok (plan.1, items)
  digest : plan.2.1 = digest file.bytes
  prepared : items.mapM (prepareTaskPayload py site) = .ok plan.2.2
  ids : plan.2.2.map TaskPayload.id = items.map taskIdOf
  valid : validatePlan plan.2.2 = .ok ()

theorem Admitted.nodup {data : Fields} {items : List Fields}
    (h : Admitted py site digest file plan data items) : (plan.2.2.map TaskPayload.id).Nodup := by
  rw [h.ids]
  exact (planHeader_eq_ok h.header).nodup

theorem admitPlan_eq_ok (h : admitPlan py site digest file = .ok plan) :
    ∃ data items, Admitted py site digest file plan data items := by
  simp only [admitPlan, bind_eq_ok_iff, pure_eq_ok_iff] at h
  obtain ⟨data, hdata, ⟨revision, items⟩, hitems, payloads, hpayloads, rfl⟩ := h
  have hvalid := validatePlan_of_admitTasks (planHeader_eq_ok hitems) hpayloads
  have hids := (admitTasks_eq_ok hpayloads).1
  simp only [admitTasks, bind_eq_ok_iff] at hpayloads
  obtain ⟨_, -, _, -, hprepared⟩ := hpayloads
  exact ⟨data, items, hdata, hitems, rfl, hprepared, hids, hvalid⟩

theorem runAll_ofChecked {α : Type} (x : Checked α) :
    (Script.ofChecked x).runAll (ledgerSemantics sha) host L = (x, L) := by
  cases x <;> rfl

theorem runAll_ask (o : Outside) :
    (Script.ask o).runAll (ledgerSemantics sha) host L = (host 0 o, L) :=
  runAll_ofChecked (host 0 o)

theorem runAll_transact (t : Txn) :
    (Script.transact t).runAll (ledgerSemantics sha) host L =
      match t.run sha host L with
      | .ok (reply, L') => (.ok reply, L')
      | .error e => (.error e, L) := by
  change (Script.ofChecked _).runAll (ledgerSemantics sha) host _ = _
  rw [runAll_ofChecked]
  cases h : t.run sha host L <;> simp only [Semantics.after, ledgerSemantics, h]

theorem runAll_loadPlan_refused {e : Exn} (hhost : host 0 .readPlan = .error e) :
    OrchKit.loadPlan.runAll (ledgerSemantics sha) host L = (.error e, L) := by
  rw [OrchKit.loadPlan, Prog.runAll_bind, runAll_ask, hhost]

theorem runAll_loadPlan_admitted (hhost : host 0 .readPlan = .ok plan)
    (hvalid : validatePlan plan.2.2 = .ok ()) :
    OrchKit.loadPlan.runAll (ledgerSemantics sha) host L =
      match L.loadPlan plan.1 plan.2.1 plan.2.2 with
      | .ok (reply, L') => (.ok reply, L')
      | .error e => (.error e, L) := by
  rw [OrchKit.loadPlan, Prog.runAll_bind, runAll_ask, hhost]
  simp only
  rw [Prog.runAll_bind, runAll_ofChecked, hvalid]
  exact runAll_transact _

/-- What a plan that was loaded has put on record. -/
theorem committed_of_runAll (hhost : host 0 .readPlan = admitPlan py site digest file)
    (h : OrchKit.loadPlan.runAll (ledgerSemantics sha) host L = (.ok reply, L')) :
    ∃ plan data items, Admitted py site digest file plan data items ∧
      Committed L L' plan.1 plan.2.1 plan.2.2 := by
  cases hplan : admitPlan py site digest file with
  | error e =>
    rw [hplan] at hhost
    rw [runAll_loadPlan_refused hhost] at h
    cases h
  | ok plan =>
    obtain ⟨data, items, hadmitted⟩ := admitPlan_eq_ok hplan
    rw [runAll_loadPlan_admitted (hhost.trans hplan) hadmitted.valid] at h
    cases hload : L.loadPlan plan.1 plan.2.1 plan.2.2 with
    | error e =>
      rw [hload] at h
      cases h
    | ok answer =>
      rw [hload] at h
      cases h
      exact ⟨plan, data, items, hadmitted, committed_of_loadPlan hadmitted.nodup hload⟩

/-- Loading a plan that is on record changes no rows. -/
theorem rowsKept_of_loaded {later : Site} {plan' : String × Hash × List TaskPayload} {data : Fields}
    {items : List Fields} (hhost : host 0 .readPlan = admitPlan py later digest file)
    (hplan' : Admitted py site digest file plan' data items)
    (hL : Loaded L plan'.1 plan'.2.1 (plan'.2.2.map TaskPayload.id)) :
    RowsKept L (OrchKit.loadPlan.runAll (ledgerSemantics sha) host L).2 := by
  cases hplan : admitPlan py later digest file with
  | error e =>
    rw [hplan] at hhost
    rw [runAll_loadPlan_refused hhost]
    constructor <;> rfl
  | ok plan =>
    obtain ⟨data, items, hadmitted⟩ := admitPlan_eq_ok hplan
    obtain rfl := Except.ok.inj (hadmitted.read.symm.trans hplan'.read)
    obtain ⟨hrevision, rfl⟩ :=
      Prod.mk.inj (Except.ok.inj (hadmitted.header.symm.trans hplan'.header))
    rw [runAll_loadPlan_admitted (hhost.trans hplan) hadmitted.valid]
    rw [← hrevision, hplan'.ids, ← hadmitted.ids] at hL
    cases hload : L.loadPlan plan.1 plan.2.1 plan.2.2 with
    | error e => constructor <;> rfl
    | ok answer => exact rowsKept_of_loadPlan hL hload

theorem allOrNothing_iff (hhost : host 0 .readPlan = admitPlan py site digest file) :
    AllOrNothing py site digest file L (OrchKit.loadPlan.runAll (ledgerSemantics sha) host L) ↔
      PlanGuarded py site file := by
  rw [← @declared_admitPlan py site digest file]
  cases hplan : admitPlan py site digest file with
  | error e =>
    rw [hplan] at hhost
    rw [runAll_loadPlan_refused hhost, raisesOnly_error, AllOrNothing]
    constructor
    · rintro (⟨_, _, _, _, _, h, -⟩ | ⟨message, h, -⟩)
      · cases h
      · cases h
        exact declared_value
    · rintro ⟨message, rfl⟩
      exact .inr ⟨message, rfl, rfl⟩
  | ok plan =>
    simp only [raisesOnly_ok, iff_true]
    rcases hrun : OrchKit.loadPlan.runAll (ledgerSemantics sha) host L with ⟨e | reply, L'⟩
    · obtain ⟨_, _, hadmitted⟩ := admitPlan_eq_ok hplan
      rw [runAll_loadPlan_admitted (hhost.trans hplan) hadmitted.valid] at hrun
      cases hload : L.loadPlan plan.1 plan.2.1 plan.2.2 with
      | ok answer =>
        rw [hload] at hrun
        cases hrun
      | error e =>
        rw [hload] at hrun
        cases hrun
        have hdeclared : (L.loadPlan plan.1 plan.2.1 plan.2.2).RaisesOnly Declared :=
          declared_loadPlan
        rw [hload, raisesOnly_error] at hdeclared
        obtain ⟨message, rfl⟩ := hdeclared
        exact .inr ⟨message, rfl, rfl⟩
    · obtain ⟨plan', data, items, hadmitted, hcommitted⟩ := committed_of_runAll hhost hrun
      rw [hadmitted.digest] at hcommitted
      exact .inl ⟨reply, data, plan'.1, items, plan'.2.2, rfl, hadmitted.read, hadmitted.header,
        hadmitted.prepared, hcommitted⟩

/-- A plan is loaded as a whole or refused with a `ValueError`, the ledger being left as it was,
just if it is guarded. Whatever other processes have done since a plan was loaded, loading it again
changes no row of a plan, a task or a run. -/
theorem loadPlan_allOrNothing_iff (py : Interpreter) (site : Site) (digest : List UInt8 → Hash)
    (file : PlanFile) (sha : Sha256) (host : Host) (L : Ledger)
    (hhost : host 0 .readPlan = admitPlan py site digest file) :
    (AllOrNothing py site digest file L (OrchKit.loadPlan.runAll (ledgerSemantics sha) host L) ↔
      PlanGuarded py site file) ∧
    ∀ (reply : Reply) (w : World orchSig Ledger Exn Reply) (as : List (Action Command Host))
      (later : Site) (again : Host),
      OrchKit.loadPlan.runAll (ledgerSemantics sha) host L = (.ok reply, w.shared) →
      again 0 .readPlan = admitPlan py later digest file →
      RowsKept (w.run (ledgerSemantics sha) Command.script as).shared
        (OrchKit.loadPlan.runAll (ledgerSemantics sha) again
          (w.run (ledgerSemantics sha) Command.script as).shared).2 := by
  constructor
  · exact allOrNothing_iff hhost
  · intro reply w as later again hrun hagain
    obtain ⟨plan, data, items, hadmitted, hcommitted⟩ := committed_of_runAll hhost hrun
    exact rowsKept_of_loaded hagain hadmitted (loaded_run hcommitted.loaded as)

end Command

namespace Documents

/-- A task with a check that takes its authority from these paths. -/
def task (authority : List Value) : Value :=
  object [("id", text "t"), ("goal", text "g"), ("workspace", text "/w"),
    ("allowed_paths", .arr [text "src/"]),
    ("checks", .arr [object [("argv", .arr [text "true"]), ("authority_paths", .arr authority)]])]

def plan (authority : List Value) : Value :=
  object [("schema_version", nat 1), ("plan_revision", text "p"), ("tasks", .arr [task authority])]

def written (v : Value) : List UInt8 := (v.write fun _ => []).map fun c => UInt8.ofNat c.toNat

/-- An interpreter that has one document to read. -/
def reading (v : Value) : Interpreter where
  loads := fun bytes => if bytes = written v then .value v else .malformed
  int := fun _ => none
  fromIsoFormat := fun _ => none

/-- A machine with a workspace outside of Git, on which every file is there. -/
def site : Site where
  isSymlink := fun _ => .ok false
  isDir := fun _ => .ok true
  isFile := fun _ => .ok true
  present := fun _ => .ok true
  executable := fun _ => true
  resolve := .ok
  expandUser := .ok
  which := fun _ => some "/bin/true"
  sha256File := fun _ => .ok "f"
  sha256 := fun _ => "d"
  git := fun _ _ => ⟨128, ""⟩

def file (v : Value) : PlanFile := ⟨true, written v⟩

def sha : Sha256 := ⟨fun _ => "", fun _ => "", fun _ => "", id⟩

/-- A host on which there is a plan to read. -/
def host (v : Value) : Host := fun _ o =>
  match o with
  | .readPlan => admitPlan (reading v) site (fun _ => "d") (file v)
  | _ => .error (.value "")

def outcome : Except Exn Reply × Ledger :=
  OrchKit.loadPlan.runAll (ledgerSemantics sha) (host (plan [])) Ledger.empty

theorem exists_of_isOk {x : Except Exn Reply × Ledger} (h : x.1.isOk) :
    ∃ reply, x = (.ok reply, x.2) := by
  obtain ⟨e | reply, L⟩ := x
  · cases h
  · exact ⟨reply, rfl⟩

end Documents

open Documents in
theorem loadPlan_allOrNothing_iff_again : RowsKept outcome.2
    (OrchKit.loadPlan.runAll (ledgerSemantics sha) (host (plan [])) outcome.2).2 := by
  have hok : outcome.1.isOk := by decide +kernel
  obtain ⟨reply, hrun⟩ := exists_of_isOk hok
  generalize outcome.2 = L at hrun ⊢
  exact (loadPlan_allOrNothing_iff (reading (plan [])) site (fun _ => "d") (file (plan [])) sha
    (host (plan [])) Ledger.empty rfl).2 reply ⟨L, []⟩ [] site (host (plan [])) hrun rfl

open Documents in
/-- A list in the place of a path that a check takes its authority from is not refused with a
`ValueError`. -/
theorem not_always_allOrNothing : ¬ ∀ (py : Interpreter) (site : Site) (digest : List UInt8 → Hash)
    (file : PlanFile) (sha : Sha256) (host : Host) (L : Ledger),
    host 0 .readPlan = admitPlan py site digest file →
      AllOrNothing py site digest file L
        (OrchKit.loadPlan.runAll (ledgerSemantics sha) host L) := by
  intro h
  have hrefused :
      host (plan [.arr []]) 0 .readPlan = .error (.other "TypeError" "unhashable type") := by
    decide +kernel
  have hall := h (reading (plan [.arr []])) site (fun _ => "d") (file (plan [.arr []])) sha
    (host (plan [.arr []])) Ledger.empty rfl
  rw [runAll_loadPlan_refused hrefused] at hall
  rcases hall with ⟨_, _, _, _, _, hok, -⟩ | ⟨_, herror, -⟩
  · cases hok
  · cases herror

end OrchKit.Planning
