import Mathlib.Algebra.Order.Ring.Rat
import OrchKit.Ledger.Claim

/-! # The evidence on disk and its inventory

Logs, worker receipts and review exports stand in three directories. A receipt and an export
bear exactly the name of their run; logs are found by a pattern of names, and nothing but the
orchestrator's own history says which run a log was written for.
-/

namespace OrchKit.Retention

/-- `_stat_identity`. -/
structure StatIdentity where
  dev : ℕ
  ino : ℕ
  mode : ℕ
  size : ℕ
  mtimeNs : ℕ
  ctimeNs : ℕ
deriving DecidableEq

/-- What an artifact is bound to: its bytes, and the identity and digest of every entry of it. -/
structure ArtifactRecord where
  bytes : ℕ
  identity : List (Path × StatIdentity × Option Hash)
deriving DecidableEq

/-- A regular file. -/
structure FileNode where
  stat : StatIdentity
  sha256 : Hash
deriving DecidableEq

/-- `_regular_file_record`. -/
def FileNode.record (f : FileNode) : ArtifactRecord := ⟨f.stat.size, [(".", f.stat, some f.sha256)]⟩

/-- A directory with nothing but files and directories below it, by their relative paths. -/
structure Tree where
  root : StatIdentity
  files : List (Path × FileNode)
  directories : List (Path × StatIdentity)
deriving DecidableEq

/-- `_safe_tree_record`. -/
def Tree.record (t : Tree) : ArtifactRecord where
  bytes := (t.files.map fun f => f.2.stat.size).sum
  identity := (".", t.root, none) ::
    (t.files.map (fun f => (f.1, f.2.stat, some f.2.sha256)) ++
      t.directories.map fun d => (d.1, d.2, none))

/-- What stands under a name; `other` is what retention cannot bind itself to, such as a
symlink. -/
inductive Node
  | file (f : FileNode)
  | tree (t : Tree)
  | other
deriving DecidableEq

inductive ArtifactKind
  | log
  | workerReceipt
  | reviewExport
deriving DecidableEq

/-- `_artifact_record_at`. -/
def Node.record? : ArtifactKind → Node → Option ArtifactRecord
  | .log, .file f | .workerReceipt, .file f => some f.record
  | .reviewExport, .tree t => some t.record
  | _, _ => none

/-- The three directories, and the run each log was written for. -/
structure Disk where
  nodes : Table (ArtifactKind × String) Node
  writtenFor : String → Option RunId

namespace Disk

def node (d : Disk) (kind : ArtifactKind) (name : String) : Option Node :=
  d.nodes.lookup (kind, name)

def erase (d : Disk) (kind : ArtifactKind) (name : String) : Disk :=
  { d with nodes := d.nodes.delete (kind, name) }

def names (d : Disk) (kind : ArtifactKind) : List String :=
  d.nodes.keys.filterMap fun key => if key.1 = kind then some key.2 else none

theorem node_erase {d : Disk} {kind kind' : ArtifactKind} {name name' : String} :
    (d.erase kind name).node kind' name' =
      if kind' = kind ∧ name' = name then none else d.node kind' name' := by
  rw [node, erase, Table.lookup_delete]
  simp only [Prod.mk.injEq]
  rfl

theorem mem_names {d : Disk} {kind : ArtifactKind} {name : String} :
    name ∈ d.names kind ↔ ∃ node, d.node kind name = some node := by
  rw [names, List.mem_filterMap]
  constructor
  · rintro ⟨key, hkey, hname⟩
    split at hname
    next hkind =>
      subst hkind
      cases hname
      exact Option.isSome_iff_exists.mp (AList.lookup_isSome.mpr hkey)
    next => cases hname
  · rintro ⟨node, hnode⟩
    refine ⟨(kind, name), AList.lookup_isSome.mp (Option.isSome_iff_exists.mpr ⟨node, hnode⟩), ?_⟩
    exact if_pos rfl

end Disk

/-! ### Names -/

inductive LogKind
  | scope
  | checkAuthority
  | checkResult (safeId : String)
  | publicationScope (safePhase : String)

/-- The name the orchestrator gives a log of a run. -/
def LogKind.fileName (runId : RunId) : LogKind → String
  | .scope => runId ++ "-scope.json"
  | .checkAuthority => runId ++ "-check-authority.json"
  | .checkResult safeId => runId ++ "-check-result-" ++ safeId ++ ".json"
  | .publicationScope safePhase => runId ++ "-publication-scope-" ++ safePhase ++ ".json"

def receiptName (runId : RunId) : String := runId ++ ".json"

/-- The pattern `{run_id}-*.json`. -/
def logPattern (runId : RunId) (name : String) : Bool :=
  (runId ++ "-").toList.isPrefixOf name.toList &&
    ".json".toList.isSuffixOf (name.toList.drop (runId ++ "-").length)

/-! ### The inventory -/

structure Artifact where
  kind : ArtifactKind
  name : String
  record : ArtifactRecord
deriving DecidableEq

def Artifact.key (a : Artifact) : ArtifactKind × String := (a.kind, a.name)

def bytesOf (artifacts : List Artifact) : ℕ := (artifacts.map fun a => a.record.bytes).sum

def artifact? (d : Disk) (kind : ArtifactKind) (name : String) : Option Artifact :=
  ((d.node kind name).bind (Node.record? kind)).map fun record => ⟨kind, name, record⟩

def artifactsOf (d : Disk) (runId : RunId) : List Artifact :=
  (sorted ((d.names .log).filter (logPattern runId))).filterMap (artifact? d .log) ++
    (artifact? d .workerReceipt (receiptName runId)).toList ++
    (artifact? d .reviewExport runId).toList

/-- The inventory looks for artifacts of the run under this name. -/
def NamedFor (runId : RunId) : ArtifactKind → String → Prop
  | .log, name => logPattern runId name
  | .workerReceipt, name => name = receiptName runId
  | .reviewExport, name => name = runId

theorem artifact?_eq_some_iff {d : Disk} {kind : ArtifactKind} {name : String} {a : Artifact} :
    artifact? d kind name = some a ↔
      a.kind = kind ∧ a.name = name ∧
        (d.node kind name).bind (Node.record? kind) = some a.record := by
  rw [artifact?, Option.map_eq_some_iff]
  constructor
  · rintro ⟨record, hrecord, rfl⟩
    exact ⟨rfl, rfl, hrecord⟩
  · rintro ⟨rfl, rfl, hrecord⟩
    exact ⟨a.record, hrecord, rfl⟩

theorem mem_artifactsOf {d : Disk} {runId : RunId} {a : Artifact} : a ∈ artifactsOf d runId ↔
    NamedFor runId a.kind a.name ∧
      (d.node a.kind a.name).bind (Node.record? a.kind) = some a.record := by
  obtain ⟨kind, name, record⟩ := a
  simp only [artifactsOf, List.mem_append, List.mem_filterMap, Option.mem_toList,
    artifact?_eq_some_iff, sorted, List.mem_insertionSort, List.mem_filter, Disk.mem_names]
  cases kind with
  | log =>
    simp only [NamedFor, reduceCtorEq, false_and, or_false, true_and]
    constructor
    · rintro ⟨_, ⟨-, hp⟩, rfl, hrecord⟩
      exact ⟨hp, hrecord⟩
    · rintro ⟨hp, hrecord⟩
      obtain ⟨node, hnode, -⟩ := Option.bind_eq_some_iff.mp hrecord
      exact ⟨name, ⟨⟨node, hnode⟩, hp⟩, rfl, hrecord⟩
  | workerReceipt =>
    simp only [NamedFor, reduceCtorEq, false_and, and_false, exists_false, or_false, false_or,
      true_and]
    constructor
    · rintro ⟨rfl, hrecord⟩
      exact ⟨rfl, hrecord⟩
    · rintro ⟨rfl, hrecord⟩
      exact ⟨rfl, hrecord⟩
  | reviewExport =>
    simp only [NamedFor, reduceCtorEq, false_and, and_false, exists_false, or_false, false_or,
      true_and]
    constructor
    · rintro ⟨rfl, hrecord⟩
      exact ⟨rfl, hrecord⟩
    · rintro ⟨rfl, hrecord⟩
      exact ⟨rfl, hrecord⟩

/-- The times a run's row holds, as `_parse_utc` reads them. -/
structure RunTimes where
  completedAt : Option ℚ
  heartbeatAt : Option ℚ
  startedAt : Option ℚ

def RunTimes.reference (t : RunTimes) : ℚ :=
  (((t.completedAt.filter (· ≠ 0)).or (t.heartbeatAt.filter (· ≠ 0))).or
    (t.startedAt.filter (· ≠ 0))).getD 0

def pendingPublication (L : Ledger) (runId : RunId) : Bool :=
  (L.publications.lookup runId).any fun row => row.status ≠ .complete ∧ row.status ≠ .abandoned

def protectedRun (L : Ledger) (runId : RunId) (run : Run) (task : Task) : Bool :=
  run.state ∈ activeRunStates || run.state = .verified ||
    task.status ∈ [.waitingReview, .readyToPublish, .waitingOwner] || pendingPublication L runId

structure ManagedRun where
  runId : RunId
  isProtected : Bool
  referenceTs : ℚ
  artifacts : List Artifact
deriving DecidableEq

def ManagedRun.bytes (item : ManagedRun) : ℕ := bytesOf item.artifacts

/-- `_retention_inventory`, of the runs. -/
def retentionInventory (L : Ledger) (times : RunId → RunTimes) (d : Disk) : List ManagedRun :=
  L.runs.entries.filterMap fun e => (L.tasks.lookup e.2.taskId).map fun task => {
    runId := e.1
    isProtected := protectedRun L e.1 e.2 task
    referenceTs := (times e.1).reference
    artifacts := artifactsOf d e.1 }

theorem mem_retentionInventory {L : Ledger} {times : RunId → RunTimes} {d : Disk}
    {item : ManagedRun} : item ∈ retentionInventory L times d ↔ ∃ run task,
      L.runs.lookup item.runId = some run ∧ L.tasks.lookup run.taskId = some task ∧
      item.isProtected = protectedRun L item.runId run task ∧
      item.referenceTs = (times item.runId).reference ∧
      item.artifacts = artifactsOf d item.runId := by
  simp only [retentionInventory, List.mem_filterMap, Option.map_eq_some_iff]
  constructor
  · rintro ⟨⟨runId, run⟩, hrun, task, htask, rfl⟩
    exact ⟨run, task, AList.mem_lookup_iff.mpr hrun, htask, rfl, rfl, rfl⟩
  · rintro ⟨run, task, hrun, htask, hp, href, hartifacts⟩
    refine ⟨⟨item.runId, run⟩, AList.mem_lookup_iff.mp hrun, task, htask, ?_⟩
    rw [← hp, ← href, ← hartifacts]

end OrchKit.Retention
