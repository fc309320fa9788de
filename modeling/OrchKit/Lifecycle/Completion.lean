import OrchKit.Ledger.Footprint
import OrchKit.Ledger.Kept
import OrchKit.Lifecycle.Exclusion

/-! # Publications that are complete

A write of the publication journal is never based on a complete row, so as long as
every write finds the row it is based on, complete rows are never written, and a run
that has to be published is complete only with its row. The writes do not check that
they do: two publications that are both past their preflight overwrite each other.
-/

namespace OrchKit

open Program Script Ledger

def CompleteKept (L L' : Ledger) : Prop :=
  ∀ r row, L.publications.lookup r = some row → row.status = .complete →
    L'.publications.lookup r = some row

/-- The completion of a run is backed by its task, which asks for no publication, or by its
publication. -/
def Backed (L : Ledger) (r : RunId) (run : Run) : Prop :=
  (∃ task, L.tasks.lookup run.taskId = some task ∧ task.payload.publication.kind = .none) ∨
    ∃ row, L.publications.lookup r = some row ∧ row.status = .complete ∧ row.commitId.isSome

def CompletionBacked (L : Ledger) : Prop :=
  ∀ r run, L.runs.lookup r = some run → run.state = .complete → Backed L r run

/-- A write of a publication row finds the row as the issuing call last saw it. -/
def WritesFresh (L : Ledger) : Op → Prop
  | .deletePublication r seen => L.publications.lookup r = seen
  | .insertPublication r _ seen => L.publications.lookup r = seen
  | .updatePublication r _ seen => L.publications.lookup r = seen
  | .transaction (.finalizePublication r _ _ _ _ seen) => L.publications.lookup r = seen
  | _ => True

instance (L : Ledger) (o : Op) : Decidable (WritesFresh L o) := by
  unfold WritesFresh
  split <;> infer_instance

variable {sha : Sha256} {L L' : Ledger}

theorem CompleteKept.refl (L : Ledger) : CompleteKept L L := fun _ _ h _ => h

theorem CompleteKept.trans {L₁ L₂ L₃ : Ledger} (h : CompleteKept L₁ L₂) (h' : CompleteKept L₂ L₃) :
    CompleteKept L₁ L₃ := fun r row hr hs => h' r row (h r row hr hs) hs

theorem completeKept_of_eq (h : L'.publications = L.publications) : CompleteKept L L' :=
  fun _ _ hr _ => h ▸ hr

theorem completeKept_of_ne {runId : RunId}
    (h : ∀ r, r ≠ runId → L'.publications.lookup r = L.publications.lookup r)
    (hs : Unfinished (L.publications.lookup runId)) : CompleteKept L L' := by
  intro r row hr hc
  by_cases hid : r = runId
  · subst hid
    exact absurd hc (hs row hr)
  · exact (h r hid).trans hr

theorem Backed.later {r : RunId} {run run' : Run} (h : Backed L r run) (ht : TasksKept L L')
    (hc : CompleteKept L L') (hid : run'.taskId = run.taskId) : Backed L' r run' := by
  rcases h with ⟨task, htask, hkind⟩ | ⟨row, hrow, hs, hcommit⟩
  · obtain ⟨task', htask', hp⟩ := ht _ task htask
    exact .inl ⟨task', hid ▸ htask', hp ▸ hkind⟩
  · exact .inr ⟨row, hc r row hrow hs, hs, hcommit⟩

namespace Effect

variable {o : Op}

theorem completeKept (h : Effect sha L o L') (hok : WritesFresh L o) (hpre : o.WellSeen) :
    CompleteKept L L' := by
  have modified {runId : RunId} {f : Publication → Publication} {seen : Option Publication}
      (hp : L'.publications = L.publications.modify runId f)
      (hok : L.publications.lookup runId = seen) (hs : Unfinished seen) : CompleteKept L L' :=
    completeKept_of_ne (fun r hr => by rw [hp, Table.lookup_modify, if_neg hr]) (hok ▸ hs)
  cases h with
  | quiet _ h | queued _ h => exact completeKept_of_eq h.publications
  | started h => exact completeKept_of_eq h.publications
  | moved _ _ _ _ h | accepted _ _ _ _ _ h | completed _ _ _ _ _ _ _ h | waiting _ _ h =>
    exact completeKept_of_eq h.publications
  | approved _ _ _ _ _ h => exact completeKept_of_eq h
  | result h => obtain ⟨_, _, _, -, -, -, h, -⟩ := verifyResult_spec h; exact completeKept_of_eq h
  | unclaimed h => exact completeKept_of_eq (capabilityCreateFailed_spec h).2.2
  | finalized h =>
    exact modified (finalizePublication_spec h).2.2 hok (Underway.unfinished hpre)
  | deleted runId seen =>
    exact completeKept_of_ne (fun r hr => by simp only [Table.lookup_delete, if_neg hr])
      (hok ▸ Underway.unfinished hpre)
  | inserted runId row seen =>
    exact completeKept_of_ne (fun r hr => by simp only [Table.lookup_put, if_neg hr])
      (hok ▸ hpre.2)
  | updated runId patch seen => exact modified rfl hok hpre.2

/-- How a run comes to be complete. -/
theorem complete_cases (h : Effect sha L o L') {r : RunId} {run' : Run}
    (hr : L'.runs.lookup r = some run') (hs : run'.state = .complete) :
    (∃ run, L.runs.lookup r = some run ∧ run'.taskId = run.taskId ∧ run.state = .complete) ∨
      (∃ task, L.tasks.lookup run'.taskId = some task ∧ task.payload.publication.kind = .none) ∨
        ∃ t c rc k seen, o = .transaction (.finalizePublication r t c rc k seen) ∧
          L'.publications = L.publications.modify r fun row => { row with
            status := .complete, commitId := some c, remoteCommit := rc, error := none } := by
  have same (h : L'.runs.lookup r = L.runs.lookup r) :
      ∃ run, L.runs.lookup r = some run ∧ run'.taskId = run.taskId ∧ run.state = .complete :=
    ⟨run', h ▸ hr, rfl, hs⟩
  -- a run that is moved is the only one to change
  have moved {runId : RunId} {run row : Run} {status : Option TaskStatus}
      (h : Moved L L' runId run row status) (hc : row.state = .complete → run.state = .complete) :
      ∃ run, L.runs.lookup r = some run ∧ run'.taskId = run.taskId ∧ run.state = .complete := by
    by_cases hid : r = runId
    · subst hid
      rw [h.moved] at hr
      cases hr
      exact ⟨run, h.found, h.taskId, hc hs⟩
    · exact same (h.runs r hid)
  have rewrote {runId : RunId} {f : Run → Run} {taskId : TaskId} {told : TaskStatus}
      (h : Rewrote L L' runId f taskId told) (hf : ∀ run, (f run).state ≠ .complete) :
      ∃ run, L.runs.lookup r = some run ∧ run'.taskId = run.taskId ∧ run.state = .complete := by
    by_cases hid : r = runId
    · subst hid
      rw [h.runs, Table.lookup_modify, if_pos rfl] at hr
      obtain ⟨run, -, rfl⟩ := Option.map_eq_some_iff.mp hr
      exact absurd hs (hf run)
    · exact same (h.lookup_ne hid)
  cases h with
  | quiet _ h | queued _ h => exact .inl (same (by rw [h.runs]))
  | @started _ _ runId run task h =>
    by_cases hid : r = runId
    · subst hid
      rw [h.lookup_self] at hr
      cases hr
      rw [h.state] at hs
      cases hs
    · exact .inl (same (h.lookup_ne hid))
  | moved h _ _ hopen => exact .inl (moved h fun hc => absurd (by rw [hc]; decide) hopen)
  | accepted h _ state' => exact .inl (moved h fun hc => by rw [state'] at hc; cases hc)
  | @completed _ _ runId run row task h state _ _ found kind =>
    by_cases hid : r = runId
    · subst hid
      rw [h.moved] at hr
      cases hr
      exact .inr (.inl ⟨task, h.taskId ▸ found, kind⟩)
    · exact .inl (same (h.runs r hid))
  | waiting h | approved h => exact .inl (moved h id)
  | result h =>
    obtain ⟨f, told, kind, ho, h, -⟩ := verifyResult_spec h
    refine .inl (rewrote h fun run => ?_)
    cases ho <;> simp
  | unclaimed h => exact .inl (rewrote (capabilityCreateFailed_spec h).1 fun _ => by simp)
  | @finalized runId taskId commitId remoteCommit kind seen _ _ h =>
    obtain ⟨h, -, hp⟩ := finalizePublication_spec h
    by_cases hid : r = runId
    · subst hid
      exact .inr (.inr ⟨_, _, _, _, _, rfl, hp⟩)
    · exact .inl (same (h.lookup_ne hid))
  | deleted | inserted | updated => exact .inl (same rfl)

theorem completionBacked (h : Effect sha L o L') (hL : CompletionBacked L)
    (hok : WritesFresh L o) (hpre : o.WellSeen) : CompletionBacked L' := by
  have ht := h.tasksKept
  have hc := h.completeKept hok hpre
  intro r run' hr hs
  rcases h.complete_cases hr hs with ⟨run, hrun, hid, hstate⟩ | ⟨task, htask, hkind⟩ |
    ⟨t, c, rc, k, seen, rfl, hp⟩
  · exact (hL r run hrun hstate).later ht hc hid
  · obtain ⟨task', htask', hpayload⟩ := ht _ task htask
    exact .inl ⟨task', htask', hpayload ▸ hkind⟩
  · -- the row it was based on is still there, so it is the one that is completed
    obtain ⟨row, hrow, -⟩ := hpre
    refine .inr ⟨{ row with status := .complete, commitId := some c, remoteCommit := rc,
                            error := none }, ?_, rfl, rfl⟩
    rw [hp, Table.lookup_modify, if_pos rfl]
    simp only [WritesFresh] at hok
    rw [hok, hrow]
    rfl

end Effect

/-- The theory of fresh writes: the commands always base them on rows that are not complete. -/
def freshWrites (sha : Sha256) : Theory (ledgerSemantics sha) where
  inv := CompletionBacked
  ok := WritesFresh
  pre _ o := o.WellSeen
  rely _ _ := True
  inv_after host hL hok hpre := (Effect.after sha host _ _).completionBacked hL hok hpre

theorem freshWrites_shared : (freshWrites sha).Shared := fun _ _ _ _ _ _ => trivial

theorem freshWrites_safe (c : Command) (L : Ledger) :
    (freshWrites sha).Safe c.script (fun _ _ => True) L :=
  (freshWrites_shared.safe_of_within (I := fun _ => True) (fun _ _ _ _ _ _ => trivial)
    (fun _ _ _ _ _ ho => ho) (script_issues c) trivial).mono fun _ _ _ => trivial

theorem completionBacked_empty : CompletionBacked Ledger.empty := by
  intro r run h
  cases h

/-- Along a run of any number of commands side by side whose publication writes find the row
they are based on, a complete publication is never written again, and a complete run whose task
is to be published has a complete publication with a commit. -/
theorem completeKept_of_writesFresh (sha : Sha256) (as bs : List (Action Command Host))
    (h : World.Guarded (ledgerSemantics sha) Command.script WritesFresh emptyWorld (as ++ bs)) :
    CompleteKept (World.run (ledgerSemantics sha) Command.script emptyWorld as).shared
        (World.run (ledgerSemantics sha) Command.script emptyWorld (as ++ bs)).shared ∧
      ∀ r run task,
        (World.run (ledgerSemantics sha) Command.script emptyWorld as).shared.runs.lookup r =
            some run → run.state = .complete →
          (World.run (ledgerSemantics sha) Command.script emptyWorld as).shared.tasks.lookup
              run.taskId = some task → task.payload.publication.kind ≠ .none →
            ∃ row, (World.run (ledgerSemantics sha) Command.script emptyWorld
                as).shared.publications.lookup r = some row ∧
              row.status = .complete ∧ row.commitId.isSome := by
  obtain ⟨ha, hb⟩ := World.guarded_append.mp h
  have hsound := freshWrites_shared.sound_run (fun c L _ => freshWrites_safe c L) ha
    (Theory.sound_of_inv completionBacked_empty)
  constructor
  · rw [World.run_append]
    exact freshWrites_shared.run_rel (fun c L _ => freshWrites_safe c L) CompleteKept.refl
      (fun _ _ _ => CompleteKept.trans)
      (fun L o host _ hok hpre => (Effect.after sha host L o).completeKept hok hpre) hb hsound
  · intro r run task hr hs ht hkind
    rcases hsound.1 r run hr hs with ⟨task', ht', hkind'⟩ | hrow
    · rw [ht] at ht'
      cases ht'
      exact absurd hkind' hkind
    · exact hrow

namespace Scenario

/-- A run of task `t`, to be published locally, is verified. -/
def verified : List (Action Command Host) :=
  quiesced { kind := .gitLocal } ++ call { kind := .gitLocal } 4 9 (.verify "t-A1-0")

end Scenario

set_option maxRecDepth 4000 in
open Scenario in
theorem completeKept_of_writesFresh_published :
    ∃ row, (World.run (ledgerSemantics Scenario.sha) Command.script emptyWorld (verified ++
        call { kind := .gitLocal } 5 30 (.publish "t-A1-0"))).shared.publications.lookup "t-A1-0" =
          some row ∧ row.status = .complete ∧ row.commitId.isSome :=
  (completeKept_of_writesFresh Scenario.sha
    (verified ++ call { kind := .gitLocal } 5 30 (.publish "t-A1-0"))
    (call { kind := .gitLocal } 6 30 (.reconcilePublication "t-A1-0" true)) (by decide)).2
      "t-A1-0" _ _ rfl (by decide) rfl (by decide)

set_option maxRecDepth 4000 in
open Scenario in
/-- Of two publications that are both past their preflight, the second starts its journal anew
over the row that the first has completed. -/
theorem not_always_completeKept : ¬ ∀ (sha : Sha256) (as bs : List (Action Command Host)),
    CompleteKept (World.run (ledgerSemantics sha) Command.script emptyWorld as).shared
      (World.run (ledgerSemantics sha) Command.script emptyWorld (as ++ bs)).shared := by
  intro h
  have kept := h Scenario.sha (verified ++ call { kind := .gitLocal } 5 12 (.publish "t-A1-0") ++
    call { kind := .gitLocal } 6 30 (.publish "t-A1-0")) (steps { kind := .gitLocal } 5 2)
    "t-A1-0" _ rfl (by decide)
  have status := congrArg (Option.map Publication.status) kept
  exact absurd status (by decide)

end OrchKit
