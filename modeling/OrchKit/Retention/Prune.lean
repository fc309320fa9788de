import Mathlib.Data.String.Basic
import OrchKit.Data.Sorted
import OrchKit.Retention.Inventory

/-! # Pruning evidence

Runs that are not protected are taken oldest first. One is pruned when it is old enough, or as
long as the evidence is over its budget and it is not among the newest; its artifacts are deleted
one by one, each only while it is what the inventory saw. What the operating system refuses ends
the pruning of that run, and all pruning for the budget.
-/

namespace OrchKit.Retention

structure RetentionPolicy where
  olderThanDays : ℕ := 30
  maxEvidenceBytes : ℕ := 256 * 1024 * 1024
  keepRecentRuns : ℕ := 20

inductive Binding
  | matching
  | missing
  | changed
deriving DecidableEq

/-- `_artifact_binding`. -/
def Disk.binding (d : Disk) (a : Artifact) : Binding :=
  match d.node a.kind a.name with
  | none => .missing
  | some node => if node.record? a.kind = some a.record then .matching else .changed

/-- What goes wrong in a deletion: the move to quarantine, or what follows it. A file is then put
back, with a change time of its own; of a tree some bytes are gone and the rest stays in
quarantine. -/
inductive Failure
  | rename
  | delete (ctimeNs deletedBytes : ℕ)

inductive Deletion
  | deleted
  | missing
  | changed
  | failed (deletedBytes : ℕ)

/-- A file that has been moved to quarantine and back. -/
def Disk.restore (d : Disk) (kind : ArtifactKind) (name : String) (ctimeNs : ℕ) : Disk :=
  { d with nodes := d.nodes.modify (kind, name) fun
      | .file f => .file { f with stat := { f.stat with ctimeNs := ctimeNs } }
      | node => node }

/-- `_delete_bound_artifact`. -/
def Disk.deleteBound (d : Disk) (a : Artifact) (failure : Option Failure) : Deletion × Disk :=
  match d.binding a with
  | .missing => (.missing, d)
  | .changed => (.changed, d)
  | .matching =>
    match failure with
    | none => (.deleted, d.erase a.kind a.name)
    | some .rename => (.failed 0, d)
    | some (.delete ctimeNs deletedBytes) =>
      if a.kind = .reviewExport then (.failed deletedBytes, d.erase a.kind a.name)
      else (.failed 0, d.restore a.kind a.name ctimeNs)

/-- The disk and the books in the course of pruning; `removed` lists what has been taken away, and
for which run. -/
structure Pruning where
  disk : Disk
  total : ℕ
  budgetAllowed : Bool := true
  removed : List (RunId × Artifact) := []

section Run

variable (policy : RetentionPolicy) (ageDue : Bool) (runId : RunId)
  (failure : Artifact → Option Failure)

/-- The deletion of one artifact, `freed` being the bytes that were freed before, and whether the
deletions for the run go on. -/
def deleteOne (a : Artifact) (freed : ℕ) (st : Pruning) : Bool × ℕ × Pruning :=
  match st.disk.deleteBound a (failure a) with
  | (.deleted, disk) =>
    (true, freed + a.record.bytes,
      { st with disk := disk, removed := st.removed ++ [(runId, a)] })
  | (.missing, _) =>
    let total := st.total - a.record.bytes
    (ageDue || decide (policy.maxEvidenceBytes < total - freed), freed, { st with total := total })
  | (.changed, _) => (false, freed, { st with budgetAllowed := false })
  | (.failed bytes, disk) =>
    (false, freed + bytes, { st with
      disk := disk
      budgetAllowed := false
      removed := if (disk.node a.kind a.name).isSome then st.removed
        else st.removed ++ [(runId, a)] })

/-- The deletions for a run. -/
def deleteMatched : List Artifact → ℕ → Pruning → ℕ × Pruning
  | [], freed, st => (freed, st)
  | a :: as, freed, st =>
    match deleteOne policy ageDue runId failure a freed st with
    | (true, freed, st) => deleteMatched as freed st
    | (false, result) => result

end Run

variable (policy : RetentionPolicy) (cutoff : ℚ) (newestKeep : List RunId)
  (failure : RunId → Artifact → Option Failure)

/-- What the loop over the terminal runs does to one of them. -/
def pruneRun (st : Pruning) (item : ManagedRun) : Pruning :=
  let ageDue : Bool := item.referenceTs ≤ cutoff
  let budgetDue : Bool := st.budgetAllowed && decide (policy.maxEvidenceBytes < st.total) &&
    decide (item.runId ∉ newestKeep)
  if ¬ ageDue ∧ ¬ budgetDue then st
  else
    let missing := item.artifacts.filter fun a => st.disk.binding a = .missing
    let matched := item.artifacts.filter fun a => st.disk.binding a = .matching
    let total := st.total - bytesOf missing
    if ∃ a ∈ item.artifacts, st.disk.binding a = .changed then
      { st with total := total, budgetAllowed := false }
    else if ¬ ageDue ∧ total ≤ policy.maxEvidenceBytes then { st with total := total }
    else
      let (freed, st) := deleteMatched policy ageDue item.runId (failure item.runId) matched 0
        { st with total := total }
      { st with total := st.total - freed }

/-- The order of the reference times, and of the run ids among equals. -/
def older (a b : ManagedRun) : Prop :=
  a.referenceTs < b.referenceTs ∨ (a.referenceTs = b.referenceTs ∧ a.runId ≤ b.runId)

instance : DecidableRel older := fun a b => by unfold older; infer_instance

def terminalRuns (inventory : List ManagedRun) : List ManagedRun :=
  (inventory.filter fun item => ¬ item.isProtected ∧ 0 < item.bytes).insertionSort older

def newestRuns (policy : RetentionPolicy) (inventory : List ManagedRun) : List RunId :=
  ((terminalRuns inventory).reverse.take policy.keepRecentRuns).map ManagedRun.runId

def evidenceBytes (inventory : List ManagedRun) : ℕ := (inventory.map ManagedRun.bytes).sum

/-- The part of `prune_retention` that is about runs, at the time `now`. -/
def pruneRetention (L : Ledger) (times : RunId → RunTimes) (d : Disk) (now : ℚ) : Pruning :=
  let inventory := retentionInventory L times d
  (terminalRuns inventory).foldl
    (pruneRun policy (now - 86400 * policy.olderThanDays) (newestRuns policy inventory) failure)
    { disk := d, total := evidenceBytes inventory }

end OrchKit.Retention
