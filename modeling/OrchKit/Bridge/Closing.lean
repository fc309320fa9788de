import OrchKit.Bridge.Operations
import OrchKit.Ledger.Kept

/-! # Closing a run

A run is closed by being submitted, quiesced or aborted, and each of these takes it further on
its way. How often it can still be closed therefore only falls, as long as no verification
brings a run that has ended back into review.
-/

namespace OrchKit

open Except Program Ledger

/-- How often a run in this state can still be closed. -/
def closings : RunState → ℕ
  | .running => 3
  | .resultSubmitted => 2
  | .quiescing | .verifying | .reviewing => 1
  | _ => 0

theorem closings_le (state : RunState) : closings state ≤ 3 := by
  cases state <;> decide

theorem closings_pos_iff {state : RunState} : 0 < closings state ↔ state ∈ activeRunStates := by
  cases state <;> decide

theorem Move.closings_le {s s' : RunState} {status : Option TaskStatus} (h : Move s s' status) :
    closings s' ≤ closings s := by
  cases h <;> simp [closings]

/-- The transaction brings a run that has ended back into review: it records the result of a
verification that was under way meanwhile. -/
def Ledger.Revives (L : Ledger) : Txn → Prop
  | .verifyResult runId run payload manifest checks =>
    (checks.all CheckResult.passed ∧
      ((decision payload manifest run.attempt).toOption.any ReviewDecision.required)) ∧
      (L.runs.lookup runId).any fun row => row.state ∉ activeRunStates
  | _ => False

instance (L : Ledger) (t : Txn) : Decidable (L.Revives t) := by
  cases t <;> unfold Ledger.Revives <;> infer_instance

/-- Runs stay, with their tasks and attempts, and none can be closed more often than before. -/
def ClosingsKept (L L' : Ledger) : Prop :=
  ∀ r run, L.runs.lookup r = some run → ∃ run', L'.runs.lookup r = some run' ∧
    run'.taskId = run.taskId ∧ run'.attempt = run.attempt ∧
    closings run'.state ≤ closings run.state

variable {sha : Sha256} {host : Host} {L L' : Ledger} {runId : RunId} {run run' : Run}
  {status : Option TaskStatus} {reply : Reply}

theorem closingsKept_of_eq (h : L'.runs = L.runs) : ClosingsKept L L' := by
  intro r run hr
  exact ⟨run, h ▸ hr, rfl, rfl, le_rfl⟩

theorem Ledger.Moved.closingsKept (h : Moved L L' runId run run' status)
    (hle : closings run'.state ≤ closings run.state) : ClosingsKept L L' := by
  intro r row hr
  by_cases hid : r = runId
  · subst hid
    rw [h.found] at hr
    cases hr
    exact ⟨run', h.moved, h.taskId, h.attempt, hle⟩
  · exact ⟨row, (h.runs r hid).trans hr, rfl, rfl, le_rfl⟩

theorem Ledger.Rewrote.closingsKept {f : Run → Run} {taskId : TaskId} {told : TaskStatus}
    (h : Rewrote L L' runId f taskId told)
    (hle : ∀ run, L.runs.lookup runId = some run → closings (f run).state ≤ closings run.state) :
    ClosingsKept L L' := by
  intro r row hr
  rw [h.runs, Table.lookup_modify]
  split
  next he =>
    subst he
    exact ⟨f row, by rw [hr]; rfl, h.taskId row, h.attempt row, hle row hr⟩
  next => exact ⟨row, hr, rfl, rfl, le_rfl⟩

theorem Effect.closingsKept {o : Op} (h : Effect sha L o L')
    (hn : ∀ t, o = .transaction t → ¬ L.Revives t) : ClosingsKept L L' := by
  cases h with
  | quiet _ h | queued _ h => exact closingsKept_of_eq h.runs
  | started h =>
    intro r row hr
    refine ⟨row, ?_, rfl, rfl, le_rfl⟩
    rw [h.lookup_ne, hr]
    rintro rfl
    rw [h.fresh] at hr
    cases hr
  | moved h move => exact h.closingsKept move.closings_le
  | accepted h _ state' => exact h.closingsKept (by rw [state']; exact Nat.zero_le _)
  | completed h _ state' => exact h.closingsKept (by rw [state']; exact Nat.zero_le _)
  | waiting h | approved h => exact h.closingsKept le_rfl
  | result h =>
    obtain ⟨f, told, kind, houtcome, hrewrote, -⟩ := verifyResult_spec h
    refine hrewrote.closingsKept fun row hrow => ?_
    cases houtcome with
    | review passed decided required =>
      have hactive : row.state ∈ activeRunStates := by
        by_contra hne
        refine hn _ rfl ⟨⟨passed, ?_⟩, ?_⟩
        · rw [decided]
          exact required
        · rw [hrow]
          exact decide_eq_true hne
      exact closings_pos_iff.mpr hactive
    | verified | failed => exact Nat.zero_le _
  | unclaimed h =>
    exact (capabilityCreateFailed_spec h).1.closingsKept fun _ _ => Nat.zero_le _
  | finalized h =>
    exact (finalizePublication_spec h).1.closingsKept fun _ _ => Nat.zero_le _
  | deleted | inserted | updated => exact closingsKept_of_eq rfl

theorem closed_of_modify {f : Run → Run} (hfound : L.runs.lookup runId = some run)
    (hruns : L'.runs = L.runs.modify runId f) (hlt : closings (f run).state < closings run.state) :
    ∃ run run', L.runs.lookup runId = some run ∧ L'.runs.lookup runId = some run' ∧
      closings run'.state < closings run.state := by
  refine ⟨run, f run, hfound, ?_, hlt⟩
  rw [hruns, Table.lookup_modify, if_pos rfl, hfound, Option.map_some]

/-- A run that has been closed can be closed less often. -/
theorem closes_spec {t : Txn} (hc : Bridge.Txn.runId? t = some runId)
    (h : t.run sha host L = .ok (reply, L')) :
    ∃ run run', L.runs.lookup runId = some run ∧ L'.runs.lookup runId = some run' ∧
      closings run'.state < closings run.state := by
  cases t with
  | submit r leaseToken receipt sha256 bytes =>
    cases hc
    simp only [Txn.run, Ledger.submit, bind_eq_ok_iff, pure_eq_ok_iff, Prod.mk.injEq] at h
    obtain ⟨run, hrun, -, -, -, -, -, -, -, -, -, -, -, rfl⟩ := h
    obtain ⟨hfound, -, hstate⟩ := Effect.leasedRun_spec hrun
    apply closed_of_modify hfound (updateRun_runs ..)
    rw [hstate]
    exact Nat.lt_succ_self _
  | quiesce r leaseToken =>
    cases hc
    simp only [Txn.run, Ledger.quiesce, bind_eq_ok_iff, pure_eq_ok_iff, Prod.mk.injEq] at h
    obtain ⟨run, hrun, -, -, -, rfl⟩ := h
    obtain ⟨hfound, -, hstate⟩ := Effect.leasedRun_spec hrun
    apply closed_of_modify hfound (updateRun_runs ..)
    rw [hstate]
    exact Nat.lt_succ_self _
  | abort r reason retry confirmed =>
    cases hc
    simp only [Txn.run, Ledger.abort, bind_eq_ok_iff, ofOption_eq_ok_iff, require_eq_ok_iff,
      pure_eq_ok_iff, Prod.mk.injEq] at h
    obtain ⟨run, hfound, -, hstate, -, -, -, -, -, rfl⟩ := h
    have hruns := fun L : Ledger => setStatus_runs L run.taskId
      (if retry then .needsFix else .blocked)
    apply closed_of_modify hfound ((hruns _).trans (updateRun_runs ..))
    exact closings_pos_iff.mpr hstate
  | _ => cases hc

end OrchKit
