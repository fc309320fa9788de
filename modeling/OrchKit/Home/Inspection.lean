import OrchKit.Home.Recovery

/-! # Inspection of a home replacement

The second classifier: it only looks, and offers what to call next. It tells the old home from
the new one by the receipt where reconciliation does not ask, and has no word for a journal that
says complete or for a new home that cannot be proven; elsewhere the two agree.
-/

namespace OrchKit.Home

open Program Theory HomeScript

inductive Classification
  | noReplacement
  | orphanReplacementArtifacts
  | replacementPrepared
  | replacementGapOldMoved
  | replacementGapNewActive
  | replacementOldMoved
  | replacementRollbackAvailable
  | replacementGapFinalizeDiscardMoved
  | replacementFinalizePending
  | rollbackPrepared
  | rollbackGapNewMoved
  | rollbackGapOldRestored
  | rollbackNewMoved
  | rolledBackForwardCopyAvailable
  | rollbackGapFinalizeDiscardMoved
  | rollbackFinalizePending
  | replacementStateAmbiguous
  deriving DecidableEq

structure Observed where
  destinationExists : Bool
  destinationIsNew : Bool
  destinationIsOld : Bool
  preparedExists : Bool
  preparedIsNew : Bool
  rollbackExists : Bool
  rollbackIsOld : Bool
  failedExists : Bool
  failedIsNew : Bool
  discardExists : Bool

def observed (s : Disk) (data : Journal) : Observed where
  destinationExists := isDirectory s.destination
  destinationIsNew := restoredHomeMatches data.archiveSha256 s.destination
  destinationIsOld := oldHomeIdentityMatches data s.destination
  preparedExists := isDirectory s.prepared
  preparedIsNew := restoredHomeMatches data.archiveSha256 s.prepared
  rollbackExists := isDirectory s.rollback
  rollbackIsOld := oldHomeIdentityMatches data s.rollback
  failedExists := isDirectory s.failed
  failedIsNew := restoredHomeMatches data.archiveSha256 s.failed
  discardExists := isDirectory s.discard

/-- `--resume` -/
def Actions.toResume : Actions := ⟨true, false, false⟩

/-- `--rollback` -/
def Actions.toRollback : Actions := ⟨false, false, true⟩

/-- `--finalize` -/
def Actions.toFinalize : Actions := ⟨false, true, false⟩

def Actions.toLook : Actions := ⟨false, false, false⟩

/-- The classification of a journalled replacement, with the calls it offers. -/
def classify (status : JournalStatus) (o : Observed) : Classification × List Actions :=
  match status with
  | .prepared =>
    if o.destinationExists ∧ ¬ o.destinationIsNew ∧ o.preparedIsNew ∧ ¬ o.rollbackExists then
      (.replacementPrepared, [.toResume])
    else if ¬ o.destinationExists ∧ o.rollbackIsOld ∧ o.preparedIsNew then
      (.replacementGapOldMoved, [.toResume])
    else if o.destinationIsNew ∧ o.rollbackIsOld ∧ ¬ o.preparedExists then
      (.replacementGapNewActive, [.toLook, .toRollback, .toFinalize])
    else (.replacementStateAmbiguous, [])
  | .oldMoved =>
    if ¬ o.destinationExists ∧ o.rollbackIsOld ∧ o.preparedIsNew then
      (.replacementOldMoved, [.toResume])
    else if o.destinationIsNew ∧ o.rollbackIsOld ∧ ¬ o.preparedExists then
      (.replacementGapNewActive, [.toLook, .toRollback, .toFinalize])
    else (.replacementStateAmbiguous, [])
  | .newActive =>
    if o.destinationIsNew ∧ o.rollbackIsOld ∧ ¬ o.preparedExists ∧ ¬ o.discardExists ∧
        ¬ o.failedExists then
      (.replacementRollbackAvailable, [.toRollback, .toFinalize])
    else if o.destinationIsNew ∧ ¬ o.rollbackExists ∧ o.discardExists then
      (.replacementGapFinalizeDiscardMoved, [.toFinalize])
    else (.replacementStateAmbiguous, [])
  | .finalizePendingDelete =>
    if o.destinationIsNew ∧ ¬ o.rollbackExists ∧ ¬ o.preparedExists then
      (.replacementFinalizePending, [.toFinalize])
    else (.replacementStateAmbiguous, [])
  | .rollbackPrepared =>
    if o.destinationIsNew ∧ o.rollbackIsOld ∧ ¬ o.failedExists then
      (.rollbackPrepared, [.toRollback])
    else if ¬ o.destinationExists ∧ o.rollbackIsOld ∧ o.failedIsNew then
      (.rollbackGapNewMoved, [.toRollback])
    else if o.destinationIsOld ∧ ¬ o.rollbackExists ∧ o.failedIsNew then
      (.rollbackGapOldRestored, [.toLook, .toFinalize])
    else (.replacementStateAmbiguous, [])
  | .rollbackNewMoved =>
    if ¬ o.destinationExists ∧ o.rollbackIsOld ∧ o.failedIsNew then
      (.rollbackNewMoved, [.toRollback])
    else if o.destinationIsOld ∧ ¬ o.rollbackExists ∧ o.failedIsNew then
      (.rollbackGapOldRestored, [.toLook, .toFinalize])
    else (.replacementStateAmbiguous, [])
  | .rolledBack =>
    if o.destinationIsOld ∧ ¬ o.rollbackExists ∧ o.failedIsNew ∧ ¬ o.discardExists then
      (.rolledBackForwardCopyAvailable, [.toFinalize])
    else if o.destinationIsOld ∧ ¬ o.rollbackExists ∧ ¬ o.failedExists ∧ o.discardExists then
      (.rollbackGapFinalizeDiscardMoved, [.toFinalize])
    else (.replacementStateAmbiguous, [])
  | .rollbackFinalizePendingDelete =>
    if o.destinationIsOld ∧ ¬ o.rollbackExists ∧ ¬ o.failedExists then
      (.rollbackFinalizePending, [.toFinalize])
    else (.replacementStateAmbiguous, [])
  | .complete => (.replacementStateAmbiguous, [])

/-- `inspect_home_replacement`; without a journal, what is left beside the home is an orphan. -/
def inspectHomeReplacement (s : Disk) : Classification × List Actions :=
  match s.journal with
  | none =>
    if s.prepared.isNone ∧ s.rollback.isNone ∧ s.discard.isNone ∧ s.failed.isNone then
      (.noReplacement, [])
    else (.orphanReplacementArtifacts, [])
  | some data => classify data.status (observed s data)

theorem not_conflict_of_offered {status : JournalStatus} {o : Observed} {a : Actions}
    (h : a ∈ (classify status o).2) : ¬ Conflict a := by
  have hcases : a = .toLook ∨ a = .toResume ∨ a = .toRollback ∨ a = .toFinalize := by
    unfold classify at h
    cases status <;> simp only at h <;> (try split_ifs at h) <;> simp at h <;> tauto
  rcases hcases with rfl | rfl | rfl | rfl <;> decide

theorem offered_of_ambiguous {status : JournalStatus} {o : Observed}
    (h : (classify status o).1 = .replacementStateAmbiguous) : (classify status o).2 = [] := by
  unfold classify at h ⊢
  cases status <;> simp only at h ⊢ <;> (try split_ifs at h ⊢) <;> rfl

section Paths

variable (g : Setting) (status : JournalStatus) (b : Option (DiscardRole × Identity))
  (data : Journal) (archive : String) (d : Directory)

@[simp] theorem isDirectory_dir : isDirectory (dir d) = true := rfl

@[simp] theorem isDirectory_none : isDirectory none = false := rfl

@[simp] theorem restoredHomeMatches_none : restoredHomeMatches archive none = false := rfl

@[simp] theorem oldHomeIdentityMatches_none : oldHomeIdentityMatches data none = false := rfl

@[simp] theorem restoredHomeMatches_new :
    restoredHomeMatches g.backup.archiveSha256 (dir g.new) = decide g.ReceiptReadable := by
  rw [Bool.eq_iff_iff, g.new_matches_iff, decide_eq_true_iff]

@[simp] theorem oldHomeIdentityMatches_old :
    oldHomeIdentityMatches (g.journal status b) (dir g.old) = true := decide_eq_true rfl

@[simp] theorem oldHomeIdentityMatches_new :
    oldHomeIdentityMatches (g.journal status b) (dir g.new) = false :=
  decide_eq_false g.new_ne_old

@[simp] theorem journal_status : (g.journal status b).status = status := rfl

@[simp] theorem journal_archiveSha256 :
    (g.journal status b).archiveSha256 = g.backup.archiveSha256 := rfl

end Paths

variable {g : Setting}

/-- What the inspection classifies as ambiguous among the stages. -/
theorem ambiguous_iff {s : Disk} (hs : Reached g s) :
    (inspectHomeReplacement s).1 = .replacementStateAmbiguous ↔
      ∃ data, s.journal = some data ∧ (data.status = .complete ∨ ¬ g.ReceiptReadable ∨
        data.status = .prepared ∧ restoredHomeMatches data.archiveSha256 s.destination = true) := by
  rcases hs with rfl | ⟨-, hs⟩
  · simp [inspectHomeReplacement, Setting.initial]
  cases hs with
  | restored => simp [inspectHomeReplacement]
  | prepared =>
    -- The old home may bear the receipt of the archive it is to be replaced from.
    by_cases hread : g.ReceiptReadable <;>
      cases hold : restoredHomeMatches g.backup.archiveSha256 (dir g.old) <;>
        simp [inspectHomeReplacement, classify, observed, hold, hread]
  | preparedMoved | oldMoved | oldMovedActive | newActive b =>
    by_cases hread : g.ReceiptReadable <;>
      simp [inspectHomeReplacement, classify, observed, hread]
  | @pending role d n hread hd _ =>
    have hproven := proven_kept hread hd (pendingStatus role) (g.bound role)
    cases role with
    | rollbackOld =>
      have hnew : restoredHomeMatches g.backup.archiveSha256 (dir d) = true := hproven
      simp [inspectHomeReplacement, classify, observed, pendingStatus, hnew, hread]
    | failedNew =>
      have hold : oldHomeIdentityMatches (g.journal .rollbackFinalizePendingDelete
        (g.bound .failedNew)) (dir d) = true := hproven
      simp [inspectHomeReplacement, classify, observed, pendingStatus, hold, hread]
  | @complete role d j hread hd hj =>
    rcases j with _ | data
    · simp [inspectHomeReplacement]
    · simp [inspectHomeReplacement, classify, (hj data rfl).1]
  | newActiveDiscarded hread | rolledBackDiscarded hread =>
    simp [inspectHomeReplacement, classify, observed, hread]
  | rollbackPrepared hread b | rollbackPreparedMoved hread b | rollbackNewMoved hread b
  | rollbackNewMovedRestored hread b | rolledBack hread b =>
    simp [inspectHomeReplacement, classify, observed, hread]

/-- Nothing is offered where the new home cannot be proven, and nothing that is offered elsewhere
is blocked. -/
theorem not_blocked_of_offered {s : Disk} (hs : Reached g s) {a : Actions}
    (ha : a ∈ (inspectHomeReplacement s).2) (reason : BlockedReason) :
    ((reconcileHomeReplacement a).runAll (diskSemantics g) () s).1 ≠ .ok (.blocked reason) := by
  intro hblocked
  rcases hj : s.journal with _ | data
  · unfold inspectHomeReplacement at ha
    rw [hj] at ha
    split_ifs at ha <;> cases ha
  have hclass : a ∈ (classify data.status (observed s data)).2 := by
    unfold inspectHomeReplacement at ha
    rwa [hj] at ha
  have hread : g.ReceiptReadable := by
    by_contra hlong
    have hambiguous := (ambiguous_iff hs).mpr ⟨data, hj, .inr (.inl hlong)⟩
    unfold inspectHomeReplacement at hambiguous
    rw [hj] at hambiguous
    exact List.ne_nil_of_mem hclass (offered_of_ambiguous hambiguous)
  obtain ⟨r, hr, hne⟩ := ((staging_alone ⟨true, true⟩).runAll () hs
    (reconcile_safe hread (fun _ => rfl) hs hj (not_conflict_of_offered hclass))).2.1
  exact hne reason (Except.ok.inj (hr.symm.trans hblocked))

namespace Scenario

/-- A home that was itself restored from the archive. -/
def restoredBefore : Setting :=
  { setting with
    old := ⟨⟨1, 1⟩, [(restoreReceipt, .file 0o600 2048 (some "a")),
      (".runtime/orch.sqlite3", .file 0o600 4096 none)]⟩ }

end Scenario

end OrchKit.Home
