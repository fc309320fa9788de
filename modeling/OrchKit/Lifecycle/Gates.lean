import OrchKit.Lifecycle.Coherence
import OrchKit.Lifecycle.Journal

/-! # What a task has passed when it is done

A run gets past its verification only with a snapshot, the decision on its review and the
review itself where the decision requires one, and none of them is lost. So the run that
completes a task has passed everything the task asks for.
-/

namespace OrchKit

open Except Program Script Ledger

namespace Ledger

/-- A review of the run's snapshot that passed has been imported. -/
def Reviewed (L : Ledger) (r : RunId) (run : Run) : Prop :=
  ∃ hash bytes, (⟨.reviewImported .pass run.snapshotId hash bytes, some run.taskId, some r⟩ :
    Event) ∈ L.events

/-- A run has passed its verification, and its review if the decision taken then requires one. -/
structure Passed (sha : Sha256) (L : Ledger) (r : RunId) (run : Run) (task : Task)
    (s : SnapshotId) (d : ReviewDecision) : Prop where
  found : L.tasks.lookup run.taskId = some task
  snapshotId : run.snapshotId = some s
  kept : (L.snapshots.lookup s).isSome
  decided : ∃ manifest, sha.snapshotId manifest = s ∧
    decision task.payload manifest run.attempt = .ok d
  verified : (⟨.verifyPass s d, some run.taskId, some r⟩ : Event) ∈ L.events
  reviewed : d.required → run.state ∈ publishableStates → L.Reviewed r run

/-- Every run past its verification has passed it, and a complete run is cleared. -/
structure Gated (sha : Sha256) (L : Ledger) : Prop where
  addressed : ∀ s snap, L.snapshots.lookup s = some snap → sha.snapshotId snap.manifest = s
  passed : ∀ r run, L.runs.lookup r = some run → run.state ∈ gatedRunStates →
    ∃ task s d, L.Passed sha r run task s d
  cleared : ∀ r run, L.runs.lookup r = some run → run.state = .complete → L.Cleared r

def SnapshotsKept (L L' : Ledger) : Prop :=
  ∀ s, (L.snapshots.lookup s).isSome → (L'.snapshots.lookup s).isSome

variable {sha : Sha256} {L L' : Ledger} {r : RunId}

theorem snapshotsKept_of_eq (h : L'.snapshots = L.snapshots) : SnapshotsKept L L' := by
  intro s hs
  rwa [h]

theorem snapshotsKept_of_put {s : SnapshotId} {snap : Snapshot}
    (h : L'.snapshots = L.snapshots.put s snap) : SnapshotsKept L L' := by
  intro s' hs'
  rw [h, Table.lookup_put]
  split
  · rfl
  · exact hs'

theorem Reviewed.later {run run' : Run} (h : L.Reviewed r run) (he : L.events <:+ L'.events)
    (hid : run'.taskId = run.taskId) (hsnap : run'.snapshotId = run.snapshotId) :
    L'.Reviewed r run' := by
  obtain ⟨hash, bytes, h⟩ := h
  rw [Reviewed, hid, hsnap]
  exact ⟨hash, bytes, he.subset h⟩

theorem Passed.later {run run' : Run} {task : Task} {s : SnapshotId} {d : ReviewDecision}
    (h : L.Passed sha r run task s d) (ht : TasksKept L L') (hs : SnapshotsKept L L')
    (he : L.events <:+ L'.events) (hid : run'.taskId = run.taskId)
    (hat : run'.attempt = run.attempt) (hsnap : run'.snapshotId = run.snapshotId)
    (hreview : run'.state ∈ publishableStates →
      run.state ∈ publishableStates ∨ L'.Reviewed r run') :
    ∃ task', L'.Passed sha r run' task' s d := by
  obtain ⟨task', htask', hp⟩ := ht _ task h.found
  refine ⟨task', hid ▸ htask', hsnap.trans h.snapshotId, hs s h.kept, ?_, ?_, fun hreq hstate => ?_⟩
  · rw [hp, hat]
    exact h.decided
  · rw [hid]
    exact he.subset h.verified
  · rcases hreview hstate with hpub | hrev
    · exact (h.reviewed hreq hpub).later he hid hsnap
    · exact hrev

end Ledger

namespace Effect

variable {sha : Sha256} {L L' : Ledger} {o : Op} {r : RunId} {run' : Run}

theorem events (h : Effect sha L o L') : L.events <:+ L'.events := by
  cases h with
  | quiet _ h | queued _ h => exact h.events
  | started h => exact h.events
  | moved h | accepted h | completed h | waiting h | approved h => exact h.events
  | result h => obtain ⟨_, _, _, -, h, -⟩ := verifyResult_spec h; exact h.events
  | unclaimed h => exact (capabilityCreateFailed_spec h).1.events
  | finalized h => exact (finalizePublication_spec h).1.events
  | deleted | inserted | updated => exact List.suffix_refl _

theorem snapshotsKept (h : Effect sha L o L') : SnapshotsKept L L' := by
  cases h with
  | quiet _ h | queued _ h => exact snapshotsKept_of_eq h.snapshots
  | started h => exact snapshotsKept_of_eq h.snapshots
  | moved _ _ _ _ h | accepted _ _ _ _ _ h | completed _ _ _ _ _ _ _ h | waiting _ _ h =>
    exact snapshotsKept_of_eq h.snapshots
  | approved _ _ _ h => exact snapshotsKept_of_eq h
  | result h => obtain ⟨_, _, _, -, -, h, -⟩ := verifyResult_spec h; exact snapshotsKept_of_put h
  | unclaimed h => exact snapshotsKept_of_eq (capabilityCreateFailed_spec h).2.1
  | finalized h => exact snapshotsKept_of_eq (finalizePublication_spec h).2.1
  | deleted | inserted | updated => exact snapshotsKept_of_eq rfl

/-- A snapshot is stored under the hash of its manifest. -/
theorem addressed (h : Effect sha L o L')
    (hL : ∀ s snap, L.snapshots.lookup s = some snap → sha.snapshotId snap.manifest = s) :
    ∀ s snap, L'.snapshots.lookup s = some snap → sha.snapshotId snap.manifest = s := by
  have same (h : L'.snapshots = L.snapshots) :
      ∀ s snap, L'.snapshots.lookup s = some snap → sha.snapshotId snap.manifest = s := by
    rwa [h]
  cases h with
  | quiet _ h | queued _ h => exact same h.snapshots
  | started h => exact same h.snapshots
  | moved _ _ _ _ h | accepted _ _ _ _ _ h | completed _ _ _ _ _ _ _ h | waiting _ _ h =>
    exact same h.snapshots
  | approved _ _ _ h => exact same h
  | unclaimed h => exact same (capabilityCreateFailed_spec h).2.1
  | finalized h => exact same (finalizePublication_spec h).2.1
  | deleted | inserted | updated => exact hL
  | result h =>
    obtain ⟨_, _, _, -, -, h, -⟩ := verifyResult_spec h
    intro s snap hs
    rw [h, Table.lookup_put] at hs
    split at hs
    next hid =>
      cases hs
      exact hid.symm
    next => exact hL s snap hs

/-- The run was past its verification before, and where it has got past its review now, that has
been imported. -/
structure Gone (L L' : Ledger) (r : RunId) (run run' : Run) : Prop where
  found : L.runs.lookup r = some run
  taskId : run'.taskId = run.taskId
  attempt : run'.attempt = run.attempt
  snapshotId : run'.snapshotId = run.snapshotId
  gated : run.state ∈ gatedRunStates
  reviewed : run'.state ∈ publishableStates → run.state ∈ publishableStates ∨ L'.Reviewed r run'

/-- How a run comes to be past its verification. -/
theorem gated_cases (h : Effect sha L o L') (hcov : L.Covered) (ho : Informed L o)
    (hr : L'.runs.lookup r = some run') (hs : run'.state ∈ gatedRunStates) :
    (∃ run, Gone L L' r run run') ∨ ∃ task s d, L'.Passed sha r run' task s d := by
  have same (heq : L'.runs.lookup r = L.runs.lookup r) : ∃ run, Gone L L' r run run' :=
    ⟨run', heq ▸ hr, rfl, rfl, rfl, hs, .inl⟩
  have moved {runId : RunId} {row row' : Run} {status : Option TaskStatus}
      (h : Moved L L' runId row row' status) (hsnap : row'.snapshotId = row.snapshotId)
      (hgated : row'.state ∈ gatedRunStates → row.state ∈ gatedRunStates)
      (hreview : row'.state ∈ publishableStates →
        row.state ∈ publishableStates ∨ L'.Reviewed runId row') :
      ∃ run, Gone L L' r run run' := by
    by_cases hid : r = runId
    · subst hid
      rw [h.moved] at hr
      cases hr
      exact ⟨row, h.found, h.taskId, h.attempt, hsnap, hgated hs, hreview⟩
    · exact same (h.runs r hid)
  cases h with
  | quiet _ h | queued _ h => exact .inl (same (by rw [h.runs]))
  | @started _ _ runId run task h =>
    by_cases hid : r = runId
    · subst hid
      rw [h.lookup_self] at hr
      cases hr
      rw [h.state] at hs
      exact absurd hs (by decide)
    · exact .inl (same (h.lookup_ne hid))
  | moved h _ hsnap hopen =>
    refine .inl (moved h hsnap (fun hg => absurd hg hopen) fun hp => absurd ?_ hopen)
    exact (show ∀ s ∈ publishableStates, s ∈ gatedRunStates by decide) _ hp
  | @accepted _ _ runId row row' h state state' hsnap imported _ =>
    refine .inl (moved h hsnap (fun _ => by rw [state]; decide) fun _ => .inr ?_)
    rwa [Reviewed, hsnap, h.taskId]
  | completed h state _ hsnap =>
    exact .inl (moved h hsnap (fun _ => by rw [state]; decide) fun _ =>
      .inl (by rw [state]; decide))
  | waiting h | approved h => exact .inl (moved h rfl id .inl)
  | @result runId row payload manifest checks reply _ h =>
    obtain ⟨f, told, kind, hout, hrw, hsnaps, -, hevents⟩ := verifyResult_spec h
    by_cases hid : r = runId
    · subst hid
      obtain ⟨row', task, hrow', hrowId, hrowAt, htask, hpayload⟩ := ho.bound
      rw [hrw.runs, Table.lookup_modify, if_pos rfl, hrow'] at hr
      cases hr
      obtain ⟨task', htask', hp⟩ := hrw.tasksKept _ task htask
      have kept : (L'.snapshots.lookup (sha.snapshotId manifest)).isSome := by
        rw [hsnaps, Table.lookup_put, if_pos rfl]
        rfl
      have recorded : (⟨kind, some row.taskId, some r⟩ : Event) ∈ L'.events := by
        rw [hevents]
        exact List.mem_cons_self
      rw [← hrowId] at htask' recorded
      rw [← hpayload, ← hp, ← hrowAt] at hout
      right
      -- the run is where the outcome has put it
      cases hout with
      | review passed decided required =>
        exact ⟨task', _, _, htask', rfl, kept, ⟨manifest, rfl, decided⟩, recorded,
          fun _ hpub => by simp [publishableStates] at hpub⟩
      | verified passed decided required =>
        exact ⟨task', _, _, htask', rfl, kept, ⟨manifest, rfl, decided⟩, recorded,
          fun hreq => absurd hreq required⟩
      | failed => exact absurd hs (show RunState.needsFix ∉ gatedRunStates by decide)
    · exact .inl (same (hrw.lookup_ne hid))
  | @unclaimed runId _ _ _ _ h =>
    obtain ⟨hrw, -⟩ := capabilityCreateFailed_spec h
    by_cases hid : r = runId
    · subst hid
      rw [hrw.runs, Table.lookup_modify, if_pos rfl] at hr
      obtain ⟨run, -, rfl⟩ := Option.map_eq_some_iff.mp hr
      exact absurd hs (show RunState.aborted ∉ gatedRunStates by decide)
    · exact .inl (same (hrw.lookup_ne hid))
  | @finalized runId _ _ _ _ seen _ _ h =>
    obtain ⟨hrw, -⟩ := finalizePublication_spec h
    by_cases hid : r = runId
    · subst hid
      -- the publication it finalizes is of a run that is cleared
      obtain ⟨row, hrow, -⟩ := ho.wellSeen
      obtain ⟨run, task, hrun, hstate, -⟩ := hcov r (by
        rw [show L.publications.lookup r = seen from ho.fresh, hrow]
        rfl)
      rw [hrw.runs, Table.lookup_modify, if_pos rfl, hrun] at hr
      cases hr
      refine .inl ⟨run, hrun, rfl, rfl, rfl, ?_, fun _ => .inl hstate⟩
      exact (show ∀ s ∈ publishableStates, s ∈ gatedRunStates by decide) _ hstate
    · exact .inl (same (hrw.lookup_ne hid))
  | deleted | inserted | updated => exact .inl (same rfl)

/-- A run that is complete was so before or has been cleared. -/
theorem cleared_of_complete (h : Effect sha L o L') (hcov : L.Covered) (ho : Informed L o)
    (hr : L'.runs.lookup r = some run') (hs : run'.state = .complete) :
    (∃ run, L.runs.lookup r = some run ∧ run.state = .complete) ∨ L.Cleared r := by
  have same (heq : L'.runs.lookup r = L.runs.lookup r) :
      ∃ run, L.runs.lookup r = some run ∧ run.state = .complete := ⟨run', heq ▸ hr, hs⟩
  have moved {runId : RunId} {row row' : Run} {status : Option TaskStatus}
      (h : Moved L L' runId row row' status)
        (hstate : row'.state = .complete → row.state = .complete) :
      ∃ run, L.runs.lookup r = some run ∧ run.state = .complete := by
    by_cases hid : r = runId
    · subst hid
      rw [h.moved] at hr
      cases hr
      exact ⟨row, h.found, hstate hs⟩
    · exact same (h.runs r hid)
  have rewrote {runId : RunId} {f : Run → Run} {taskId : TaskId} {told : TaskStatus}
      (h : Rewrote L L' runId f taskId told) (hf : ∀ run, (f run).state ≠ .complete) :
      ∃ run, L.runs.lookup r = some run ∧ run.state = .complete := by
    by_cases hid : r = runId
    · subst hid
      rw [h.runs, Table.lookup_modify, if_pos rfl] at hr
      obtain ⟨run, -, rfl⟩ := Option.map_eq_some_iff.mp hr
      exact absurd hs (hf run)
    · exact same (h.lookup_ne hid)
  cases h with
  | quiet _ h | queued _ h => exact .inl (same (by rw [h.runs]))
  | @started _ _ runId run task h =>
    by_cases hid : r = runId
    · subst hid
      rw [h.lookup_self] at hr
      cases hr
      rw [h.state] at hs
      cases hs
    · exact .inl (same (h.lookup_ne hid))
  | moved h _ _ hopen => exact .inl (moved h fun hc => absurd (by rw [hc]; decide) hopen)
  | accepted h _ state' => exact .inl (moved h fun hc => by rw [state'] at hc; cases hc)
  | @completed _ _ runId run row task h state _ _ found _ approved =>
    by_cases hid : r = runId
    · subst hid
      exact .inr ⟨run, task, h.found, by rw [state]; decide, found, approved⟩
    · exact .inl (same (h.runs r hid))
  | waiting h | approved h => exact .inl (moved h id)
  | result h =>
    obtain ⟨f, told, kind, hout, h, -⟩ := verifyResult_spec h
    refine .inl (rewrote h fun run => ?_)
    cases hout <;> simp
  | unclaimed h => exact .inl (rewrote (capabilityCreateFailed_spec h).1 fun _ => by simp)
  | @finalized runId _ _ _ _ seen _ _ h =>
    by_cases hid : r = runId
    · subst hid
      obtain ⟨row, hrow, -⟩ := ho.wellSeen
      refine .inr (hcov r ?_)
      rw [show L.publications.lookup r = seen from ho.fresh, hrow]
      rfl
    · exact .inl (same ((finalizePublication_spec h).1.lookup_ne hid))
  | deleted | inserted | updated => exact .inl (same rfl)

theorem gated (h : Effect sha L o L') (hcov : L.Covered) (hL : L.Gated sha) (ho : Informed L o) :
    L'.Gated sha where
  addressed := h.addressed hL.addressed
  passed r run' hr hs := by
    rcases h.gated_cases hcov ho hr hs with ⟨run, hgone⟩ | hpassed
    · obtain ⟨task, s, d, hp⟩ := hL.passed r run hgone.found hgone.gated
      obtain ⟨task', hp'⟩ := hp.later h.tasksKept h.snapshotsKept h.events hgone.taskId
        hgone.attempt hgone.snapshotId hgone.reviewed
      exact ⟨task', s, d, hp'⟩
    · exact hpassed
  cleared r run' hr hs := by
    refine h.cleared ho.inOrder ?_
    rcases h.cleared_of_complete hcov ho hr hs with ⟨run, hrun, hstate⟩ | hcleared
    · exact hL.cleared r run hrun hstate
    · exact hcleared

end Effect

variable {sha : Sha256}

theorem gated_empty : Ledger.empty.Gated sha where
  addressed _ _ h := by cases h
  passed _ _ h := by cases h
  cleared _ _ h := by cases h

/-- What a task that is done has behind it. -/
structure Ledger.Finished (sha : Sha256) (L : Ledger) (t : TaskId) (task : Task) (r : RunId)
    (run : Run) (s : SnapshotId) (d : ReviewDecision) : Prop where
  latest : L.Latest r run
  taskId : run.taskId = t
  complete : run.state = .complete
  passed : L.Passed sha r run task s d
  stored : ∃ snap, L.snapshots.lookup s = some snap ∧ sha.snapshotId snap.manifest = s
  reviewed : d.required → L.Reviewed r run
  approved : task.payload.ownerAcceptance →
    ∃ approval, L.approvals.lookup r = some approval ∧ approval.snapshotId = s
  published : task.payload.publication.kind ≠ .none →
    ∃ row, L.publications.lookup r = some row ∧ row.status = .complete ∧ row.commitId.isSome

theorem Ledger.Coherent.finished {L : Ledger} (hc : L.Coherent) (hg : L.Gated sha)
    (hb : CompletionBacked L) {t : TaskId} {task : Task} (ht : L.tasks.lookup t = some task)
    (hdone : task.status = .done) : ∃ r run s d, L.Finished sha t task r run s d := by
  obtain ⟨r, run, hlatest, rfl, hstate⟩ := (hc.done_iff t task ht).mp hdone
  obtain ⟨task', s, d, hp⟩ := hg.passed r run hlatest.1 (by rw [hstate]; decide)
  have htask := hp.found
  rw [ht] at htask
  cases htask
  refine ⟨r, run, s, d, hlatest, rfl, hstate, hp, ?_, fun hreq => ?_, fun howner => ?_,
    fun hkind => ?_⟩
  · obtain ⟨snap, hsnap⟩ := Option.isSome_iff_exists.mp hp.kept
    exact ⟨snap, hsnap, hg.addressed s snap hsnap⟩
  · exact hp.reviewed hreq (by rw [hstate]; decide)
  · obtain ⟨run', task', hrun', -, htask', ha⟩ := hg.cleared r run hlatest.1 hstate
    rw [hlatest.1] at hrun'
    cases hrun'
    rw [ht] at htask'
    cases htask'
    obtain ⟨approval, happroval, hsnap⟩ := approved_iff.mp (ha howner)
    rw [hp.snapshotId] at hsnap
    exact ⟨approval, happroval, Option.some.inj hsnap⟩
  · rcases hb r run hlatest.1 hstate with ⟨task', htask', hnone⟩ | hrow
    · rw [ht] at htask'
      cases htask'
      exact absurd hnone hkind
    · exact hrow

/-- Tasks, runs and publications as a sequence of commands leaves them. -/
structure Ledger.Accounted (sha : Sha256) (L : Ledger) : Prop where
  tracked : L.Tracked
  gated : L.Gated sha
  backed : CompletionBacked L

theorem accounted_session (sha : Sha256) (cs : List (Command × List Host)) :
    Orderly (session (ledgerSemantics sha) Command.script cs Ledger.empty) ∧
      Covered (session (ledgerSemantics sha) Command.script cs Ledger.empty) ∧
        (session (ledgerSemantics sha) Command.script cs Ledger.empty).Accounted sha :=
  session_informed (fun _ _ _ hL hcov ha h ho =>
    ⟨(h.advance ho.inOrder ho.grounded).tracked hL.sound ha.tracked, h.gated hcov ha.gated ho,
      h.completionBacked ha.backed ho.fresh ho.wellSeen⟩) cs orderly_empty covered_empty
    ⟨tracked_empty, gated_empty, completionBacked_empty⟩

/-- After every sequence of commands, wherever each is cut off, a task that is done has been done
by its latest run, whose snapshot has passed verification, the review its decision required and
the owner's acceptance where the task asks for it, and whose publication is complete with a commit
unless the task asks for none. -/
theorem finished_session (sha : Sha256) (cs : List (Command × List Host)) (t : TaskId) (task : Task)
    (ht : (session (ledgerSemantics sha) Command.script cs Ledger.empty).tasks.lookup t = some task)
    (hdone : task.status = .done) : ∃ r run s d,
      (session (ledgerSemantics sha) Command.script cs Ledger.empty).Finished sha t task r
        run s d := by
  obtain ⟨hL, -, ha⟩ := accounted_session sha cs
  exact (ha.tracked.coherent hL.sound).finished ha.gated ha.backed ht hdone

namespace Scenario

/-- A task is worked on, verified and published locally. -/
def delivered : List (Command × List Host) :=
  [.loadPlan, .claim "w" none none, .submit "t-A1-0" "l", .quiesce "t-A1-0" "l",
    .verify "t-A1-0", .publish "t-A1-0"].map fun c =>
      (c, List.replicate 30 (host { kind := .gitLocal }))

end Scenario

set_option maxRecDepth 8000 in
open Scenario in
theorem finished_session_delivered : ∃ task r run s d,
    (session (ledgerSemantics Scenario.sha) Command.script delivered Ledger.empty).Finished
      Scenario.sha "t" task r run s d :=
  ⟨_, finished_session Scenario.sha delivered "t" _ rfl (by decide)⟩

end OrchKit
