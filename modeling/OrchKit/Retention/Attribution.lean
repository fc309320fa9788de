import OrchKit.Lifecycle.Exclusion
import OrchKit.Retention.Due

/-! # Whose evidence is pruned

A pass deletes a log for any run whose pattern its name matches. As task ids may contain the
run id of another task, a run's pattern can match logs of another run, and these are deleted
although that run is protected.
-/

namespace OrchKit.Retention

open Program

variable {L : Ledger} {times : RunId → RunTimes} {d : Disk} {runId runId' : RunId} {a : Artifact}

/-- A log belongs to the run it was written for, the rest to the run it is named after. -/
def WrittenFor (d : Disk) (runId : RunId) (a : Artifact) : Prop :=
  match a.kind with
  | .log => d.writtenFor a.name = some runId
  | .workerReceipt => a.name = receiptName runId
  | .reviewExport => a.name = runId

instance : Decidable (WrittenFor d runId a) := by
  unfold WrittenFor
  split <;> infer_instance

theorem WrittenFor.unique (h : WrittenFor d runId a) (h' : WrittenFor d runId' a) :
    runId = runId' := by
  obtain ⟨kind, name, record⟩ := a
  cases kind with
  | log => exact Option.some.inj (Eq.trans (Eq.symm h) h')
  | workerReceipt =>
    have hname : (receiptName runId).toList = (receiptName runId').toList :=
      congrArg String.toList (Eq.trans (Eq.symm h) h')
    rw [receiptName, receiptName, String.toList_append, String.toList_append] at hname
    exact String.toList_injective (List.append_cancel_right hname)
  | reviewExport => exact Eq.trans (Eq.symm h) h'

def RunOf (L : Ledger) (runId : RunId) (run : Run) (task : Task) : Prop :=
  L.runs.lookup runId = some run ∧ L.tasks.lookup run.taskId = some task

/-- Everything that was removed was written for the run it was removed for, and nothing of a
protected run was removed. -/
def RemovesOwn (L : Ledger) (d : Disk) (removed : List (RunId × Artifact)) : Prop :=
  ∀ e ∈ removed, WrittenFor d e.1 e.2 ∧ ∀ runId run task, RunOf L runId run task →
    protectedRun L runId run task → ¬ WrittenFor d runId e.2

/-- The pattern of a run that may be pruned matches no log that was written for another. -/
def PatternsApart (L : Ledger) (d : Disk) : Prop :=
  ∀ runId run task, RunOf L runId run task → ¬ protectedRun L runId run task →
    0 < bytesOf (artifactsOf d runId) → ∀ name f, d.node .log name = some (.file f) →
      d.writtenFor name ≠ some runId → ¬ logPattern runId name

theorem mem_removed {policy : RetentionPolicy} {now : ℚ}
    {failures : RunId → Artifact → Option Failure} {e : RunId × Artifact}
    (he : e ∈ (pruneRetention policy failures L times d now).removed) :
    ∃ run task, RunOf L e.1 run task ∧ ¬ protectedRun L e.1 run task ∧
      0 < bytesOf (artifactsOf d e.1) ∧ e.2 ∈ artifactsOf d e.1 := by
  obtain ⟨hremoved, -⟩ := pass_due policy
    (now - 86400 * policy.olderThanDays) failures (inventoryOf L times d)
    (List.append_nil _).symm
  obtain ⟨item, ⟨hterminal, -⟩, hid, hmem⟩ := hremoved e he
  obtain ⟨hitem, hprotected, hbytes⟩ := mem_terminalRuns.mp hterminal
  obtain ⟨run, task, hrun, htask, hp, -, hartifacts⟩ := mem_retentionInventory.mp hitem
  rw [ManagedRun.bytes, hartifacts] at hbytes
  rw [hartifacts] at hmem
  rw [hp] at hprotected
  rw [hid]
  exact ⟨run, task, ⟨hrun, htask⟩, hprotected, hbytes, hmem⟩

theorem removesOwn_of_patternsApart (h : PatternsApart L d) (policy : RetentionPolicy) (now : ℚ)
    (failures : RunId → Artifact → Option Failure) :
    RemovesOwn L d (pruneRetention policy failures L times d now).removed := by
  rintro ⟨runId, kind, name, record⟩ he
  obtain ⟨run, task, hrun, hprotected, hbytes, hmem⟩ := mem_removed he
  obtain ⟨hnamed, hnode⟩ := mem_artifactsOf.mp hmem
  have hown : WrittenFor d runId ⟨kind, name, record⟩ := by
    cases kind with
    | log =>
      obtain ⟨node, hnode, hrecord⟩ := Option.bind_eq_some_iff.mp hnode
      cases node with
      | file f =>
        by_contra hother
        exact h runId run task hrun hprotected hbytes name f hnode hother hnamed
      | tree | other => cases hrecord
    | workerReceipt | reviewExport => exact hnamed
  refine ⟨hown, ?_⟩
  rintro runId' run' task' ⟨hrun', htask'⟩ hprotected' hother
  obtain rfl := hown.unique hother
  obtain ⟨hrun, htask⟩ := hrun
  rw [hrun] at hrun'
  cases hrun'
  rw [htask] at htask'
  cases htask'
  exact hprotected hprotected'

theorem removed_grows {policy : RetentionPolicy} {cutoff : ℚ} {newest : List RunId}
    {failures : RunId → Artifact → Option Failure} (items : List ManagedRun) (st : Pruning) :
    st.removed <+: (items.foldl (pruneRun policy cutoff newest failures) st).removed := by
  induction items generalizing st with
  | nil => exact List.prefix_rfl
  | cons item items ih => exact pruneRun_removes.1.trans (ih _)

theorem pass_of_rename (policy : RetentionPolicy) (cutoff : ℚ) (inventory : List ManagedRun)
    {failures : RunId → Artifact → Option Failure} {items : List ManagedRun}
    (h : ∀ item ∈ items, ∀ a, failures item.runId a = some .rename) :
    (pass policy cutoff inventory failures d items).disk = d := by
  induction items using List.reverseRecOn with
  | nil => rfl
  | append_singleton items item ih =>
    rw [pass_concat, pruneRun_of_rename (h item (List.mem_append_right _ List.mem_cons_self))]
    exact ih fun other ho => h other (List.mem_append_left _ ho)

variable (times) in
/-- A run that may be pruned loses everything its pattern matches, when it is old enough and
all moves to quarantine fail before. -/
theorem exists_removed {run : Run} {task : Task} (hrun : RunOf L runId run task)
    (hprotected : ¬ protectedRun L runId run task) (hbytes : 0 < bytesOf (artifactsOf d runId))
    (ha : a ∈ artifactsOf d runId) : ∃ policy now failures,
      (runId, a) ∈ (pruneRetention policy failures L times d now).removed := by
  let item : ManagedRun := ⟨runId, protectedRun L runId run task, (times runId).reference,
    artifactsOf d runId⟩
  have hitem : item ∈ retentionInventory L times d :=
    mem_retentionInventory.mpr ⟨run, task, hrun.1, hrun.2, rfl, rfl, rfl⟩
  have hinv := inventoryOf L times d
  obtain ⟨pre, post, hT⟩ :=
    List.append_of_mem (mem_terminalRuns.mpr ⟨hitem, hprotected, hbytes⟩)
  refine ⟨{ olderThanDays := 0 }, item.referenceTs,
    fun other _ => if other = runId then none else some .rename, ?_⟩
  rw [pruneRetention, hT, List.foldl_append, List.foldl_cons]
  refine (removed_grows post _).subset ?_
  have hlacks : Lacks d [] (pass { olderThanDays := 0 } (item.referenceTs - 86400 * (0 : ℕ))
      (retentionInventory L times d) (fun other _ => if other = runId then none else some .rename)
      d pre).disk := by
    rw [pass_of_rename]
    · exact lacks_nil
    · intro other ho a
      have hnodup := nodup_terminalRuns hinv.once
      rw [hT, List.map_append, List.map_cons, List.nodup_append] at hnodup
      exact if_neg (hnodup.2.2 _ (List.mem_map_of_mem ho) _ List.mem_cons_self)
  have hage : item.referenceTs ≤ item.referenceTs - 86400 * (0 : ℕ) := by simp
  rw [← pass, pruneRun_of_due hlacks (hinv.items item hitem) (fun _ => if_pos rfl) (.inl hage)]
  refine List.mem_append_right _ (List.mem_map_of_mem (List.mem_filter.mpr ⟨ha, ?_⟩))
  simp

/-- Pruning keeps to the run whose evidence it is for, whatever the policy, the time and what
fails, exactly when no pattern of a run that may be pruned matches a log of another. -/
theorem pruneRetention_removesOwn_iff : (∀ policy now failures,
    RemovesOwn L d (pruneRetention policy failures L times d now).removed) ↔ PatternsApart L d := by
  constructor
  · intro h runId run task hrun hprotected hbytes name f hnode hother hpattern
    have ha : (⟨.log, name, f.record⟩ : Artifact) ∈ artifactsOf d runId :=
      mem_artifactsOf.mpr ⟨hpattern, by rw [hnode]; rfl⟩
    obtain ⟨policy, now, failures, hmem⟩ := exists_removed times hrun hprotected hbytes ha
    exact hother (h policy now failures _ hmem).1
  · intro h policy now failures
    exact removesOwn_of_patternsApart h policy now failures

namespace Scenario

/-- A host with two tasks, the second named after the first run of the first. -/
def host : Host := fun n o =>
  match o with
  | .readPlan => .ok ("p", "d", [OrchKit.Scenario.payload {} "t",
      OrchKit.Scenario.payload {} "t-A1-0123456789"])
  | .uuidHex => .ok "0123456789abcdef"
  | .loadWorkerReceipt runId => .ok (⟨runId, "t-A1-0123456789", ["f"]⟩, "h", 1)
  | o => OrchKit.Scenario.host {} n o

def second : RunId := "t-A1-0123456789-A1-0123456789"

/-- The run of the first task has been aborted, that of the second is being verified. -/
def verifying : Ledger :=
  session (ledgerSemantics OrchKit.Scenario.sha) Command.script
    ([.loadPlan, .claim "w" none none, .abort "t-A1-0123456789" "stop" false false,
      .claim "w" none none, .submit second "l", .quiesce second "l"].map fun c =>
        (c, List.replicate 2 host)) Ledger.empty

/-- The scope evidence of the run that is being verified. -/
def evidence : Disk where
  nodes := (∅ : Table (ArtifactKind × String) Node).put (.log, LogKind.scope.fileName second)
    (.file ⟨⟨1, 2, 0o100600, 10, 0, 0⟩, "h"⟩)
  writtenFor name := if name = LogKind.scope.fileName second then some second else none

def clock : RunId → RunTimes := fun _ => ⟨none, none, some 1⟩

end Scenario

open OrchKit.Retention.Scenario in
/-- Pruning an aborted run deletes the evidence of a run that is being verified. -/
theorem verifying_not_removesOwn : ¬ RemovesOwn verifying evidence
    (pruneRetention {} (fun _ _ => none) verifying clock evidence (86400 * 60)).removed := by
  intro h
  have hmem : ("t-A1-0123456789", ⟨.log, LogKind.scope.fileName second,
      FileNode.record ⟨⟨1, 2, 0o100600, 10, 0, 0⟩, "h"⟩⟩) ∈
        (pruneRetention {} (fun _ _ => none) verifying clock evidence (86400 * 60)).removed := by
    decide +kernel
  exact (h _ hmem).2 second _ _ ⟨rfl, rfl⟩ (by decide) (by decide)

end OrchKit.Retention
