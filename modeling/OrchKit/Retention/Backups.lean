import OrchKit.Data.Double
import OrchKit.Retention.Prune

/-! # Pruning backups

Backups are deleted oldest first, as long as there are too many of them or too many bytes. The
directory is read anew before every deletion, and a backup is only deleted while another one that
the inventory saw is there.
-/

namespace OrchKit.Retention

structure BackupPolicy where
  keepBackups : ℕ := 5
  maxBackupBytes : ℕ := 512 * 1024 * 1024

abbrev BackupDir := Table String Node

/-- A backup as the inventory saw it. -/
structure Backup where
  name : String
  record : ArtifactRecord
  mtimeNs : ℕ
deriving DecidableEq

def Backup.mtime (b : Backup) : ℚ := Double.quotient b.mtimeNs 1000000000

def backupBytes (backups : List Backup) : ℕ := (backups.map fun b => b.record.bytes).sum

/-- The names `orch-state-*.zip`. -/
def backupName (name : String) : Bool :=
  "orch-state-".toList.isPrefixOf name.toList && ".zip".toList.isSuffixOf name.toList

section Inventory

variable (dir : BackupDir)

def backup? (name : String) : Option Backup :=
  match dir.lookup name with
  | some (.file f) =>
    if backupName name then some ⟨name, f.record, f.stat.mtimeNs⟩ else none
  | _ => none

/-- `_retention_inventory`, of the backups. -/
def backupInventory : List Backup := (sorted dir.keys).filterMap (backup? dir)

/-- The order of the modification times, and of the paths among equals. -/
def olderBackup (a b : Backup) : Prop :=
  a.mtime < b.mtime ∨ (a.mtime = b.mtime ∧ a.name ≤ b.name)

instance : DecidableRel olderBackup := fun a b => by unfold olderBackup; infer_instance

def sortedBackups : List Backup := (backupInventory dir).insertionSort olderBackup

end Inventory

/-- `_artifact_binding`, of a backup. -/
def backupBinding (dir : BackupDir) (b : Backup) : Binding :=
  match dir.lookup b.name with
  | none => .missing
  | some (.file f) => if f.record = b.record then .matching else .changed
  | some _ => .changed

/-- `_bound_backup_survivor_exists_at`. -/
def survivorExists (dir : BackupDir) (survivors : List Backup) : Bool :=
  survivors.any fun b => backupBinding dir b = .matching

/-- A backup that has been moved to quarantine and back. -/
def restoreBackup (dir : BackupDir) (name : String) (ctimeNs : ℕ) : BackupDir :=
  dir.modify name fun
    | .file f => .file { f with stat := { f.stat with ctimeNs := ctimeNs } }
    | node => node

/-- The move to quarantine or the deletion there is refused. -/
inductive BackupFailure
  | rename
  | unlink

/-- `_delete_bound_artifact`, of a backup. A move back sets the change time to `ctimeNs`. -/
def deleteBackup (dir : BackupDir) (b : Backup) (survivors : List Backup)
    (failure : Option BackupFailure) (ctimeNs : ℕ) : Deletion × BackupDir :=
  match backupBinding dir b with
  | .missing => (.missing, dir)
  | .changed => (.changed, dir)
  | .matching =>
    match failure with
    | some .rename => (.failed 0, dir)
    | failure =>
      -- The backup is in quarantine, where no survivor is looked for.
      if survivorExists (dir.delete b.name) survivors then
        match failure with
        | none => (.deleted, dir.delete b.name)
        | some _ => (.failed 0, restoreBackup dir b.name ctimeNs)
      else (.changed, restoreBackup dir b.name ctimeNs)

structure BackupPruning where
  dir : BackupDir
  deleted : List Backup := []

section Loop

variable (policy : BackupPolicy) (failure : Backup → Option BackupFailure) (ctimeNs : ℕ)
  (backups : List Backup)

def remaining (st : BackupPruning) : List Backup :=
  backups.filter fun c => c.name ∉ st.deleted.map Backup.name

def liveBackups (st : BackupPruning) : List Backup :=
  (remaining backups st).filter fun c => backupBinding st.dir c = .matching

/-- There are more backups than the policy keeps, or more bytes. -/
def ExceedsBackups (live : List Backup) : Prop :=
  policy.keepBackups < live.length ∨ policy.maxBackupBytes < backupBytes live

instance (live : List Backup) : Decidable (ExceedsBackups policy live) := by
  unfold ExceedsBackups
  infer_instance

/-- The loop over the backups. -/
def pruneBackups : List Backup → BackupPruning → BackupPruning
  | [], st => st
  | b :: rest, st =>
    let live := liveBackups backups st
    if ∃ c ∈ remaining backups st, backupBinding st.dir c = .changed then st
    else if ¬ ExceedsBackups policy live then st
    else if live.length ≤ 1 then st
    else if b.name ∉ live.map Backup.name then pruneBackups rest st
    else
      match deleteBackup st.dir b (live.filter fun c => c.name ≠ b.name) (failure b) ctimeNs with
      | (.deleted, dir) => pruneBackups rest { dir := dir, deleted := st.deleted ++ [b] }
      | (.missing, _) => pruneBackups rest st
      | (_, dir) => { st with dir := dir }

end Loop

/-- The part of `prune_retention` that is about backups. -/
def pruneBackupRetention (policy : BackupPolicy) (failure : Backup → Option BackupFailure)
    (ctimeNs : ℕ) (dir : BackupDir) : BackupPruning :=
  let backups := sortedBackups dir
  pruneBackups policy failure ctimeNs backups backups { dir := dir }

/-! ### The inventory of backups -/

variable {dir dir₀ : BackupDir} {b : Backup}

theorem backup?_eq_some_iff {name : String} : backup? dir name = some b ↔
    ∃ f, dir.lookup name = some (.file f) ∧ backupName name ∧
      b = ⟨name, f.record, f.stat.mtimeNs⟩ := by
  rw [backup?]
  split
  next f hf =>
    simp only [Option.ite_none_right_eq_some, Option.some.injEq]
    constructor
    · rintro ⟨hname, rfl⟩
      exact ⟨f, hf, hname, rfl⟩
    · rintro ⟨g, hg, hname, rfl⟩
      rw [hf] at hg
      cases hg
      exact ⟨hname, rfl⟩
  next hno =>
    simp only [reduceCtorEq, false_iff]
    rintro ⟨f, hf, -⟩
    exact hno f hf

/-- The backup is in the directory as the inventory saw it. -/
def Backup.In (dir : BackupDir) (b : Backup) : Prop :=
  ∃ f, dir.lookup b.name = some (.file f) ∧ backupName b.name ∧
    b = ⟨b.name, f.record, f.stat.mtimeNs⟩

theorem mem_backupInventory : b ∈ backupInventory dir ↔ b.In dir := by
  simp only [backupInventory, List.mem_filterMap, sorted, List.mem_insertionSort,
    backup?_eq_some_iff]
  constructor
  · rintro ⟨name, -, f, hf, hname, rfl⟩
    exact ⟨f, hf, hname, rfl⟩
  · rintro ⟨f, hf, hname, hb⟩
    exact ⟨b.name, AList.lookup_isSome.mp (hf ▸ rfl), f, hf, hname, hb⟩

theorem mem_sortedBackups : b ∈ sortedBackups dir ↔ b.In dir := by
  rw [sortedBackups, List.mem_insertionSort, mem_backupInventory]

variable (dir)

theorem nodup_backupInventory : ((backupInventory dir).map Backup.name).Nodup := by
  have hsub : ∀ names : List String,
      ((names.filterMap (backup? dir)).map Backup.name).Sublist names := by
    intro names
    induction names with
    | nil => exact .slnil
    | cons name names ih =>
      rw [List.filterMap_cons]
      split
      next => exact ih.cons _
      next b hb =>
        obtain ⟨f, -, -, rfl⟩ := backup?_eq_some_iff.mp hb
        exact ih.cons_cons _
  have hkeys : (sorted dir.keys).Nodup :=
    (List.perm_insertionSort _ _).nodup_iff.mpr dir.keys_nodup
  exact (hsub _).nodup hkeys

theorem nodup_sortedBackups : ((sortedBackups dir).map Backup.name).Nodup :=
  ((List.perm_insertionSort olderBackup (backupInventory dir)).map Backup.name).nodup_iff.mpr
    (nodup_backupInventory dir)

theorem pairwise_sortedBackups : (sortedBackups dir).Pairwise olderBackup :=
  List.pairwise_insertionSort_lex Backup.mtime Backup.name olderBackup (fun _ _ => Iff.rfl) _

variable {dir}

/-! ### Deletions -/

def Without (names : List String) (dir₀ dir : BackupDir) : Prop :=
  ∀ name, dir.lookup name = if name ∈ names then none else dir₀.lookup name

theorem without_nil : Without [] dir dir := by
  intro name
  simp

theorem Without.delete {names : List String} {name : String} (h : Without names dir₀ dir) :
    Without (names ++ [name]) dir₀ (dir.delete name) := by
  intro other
  rw [Table.lookup_delete, h other]
  by_cases hother : other = name
  · simp [hother]
  · simp [hother]

theorem backupBinding_of_in (h : b.In dir) : backupBinding dir b = .matching := by
  obtain ⟨f, hf, -, hb⟩ := h
  rw [backupBinding, hf]
  simp [congrArg Backup.record hb]

theorem Backup.In.without {names : List String} (h : Without names dir₀ dir) :
    b.In dir ↔ b.In dir₀ ∧ b.name ∉ names := by
  simp only [Backup.In, h b.name]
  by_cases hname : b.name ∈ names <;> simp [hname]

theorem perm_backupInventory {pre post : List Backup}
    (hsplit : sortedBackups dir₀ = pre ++ post)
    (h : Without (pre.map Backup.name) dir₀ dir) : (backupInventory dir).Perm post := by
  have hnodup := nodup_sortedBackups dir₀
  rw [hsplit, List.map_append, List.nodup_append] at hnodup
  obtain ⟨-, hpost, hapart⟩ := hnodup
  apply (List.perm_ext_iff_of_nodup (nodup_backupInventory dir).of_map hpost.of_map).mpr
  intro b
  rw [mem_backupInventory, Backup.In.without h, ← mem_sortedBackups, hsplit, List.mem_append]
  constructor
  · rintro ⟨hb | hb, hgone⟩
    · exact absurd (List.mem_map_of_mem hb) hgone
    · exact hb
  · intro hb
    exact ⟨.inr hb, fun hgone => hapart _ hgone _ (List.mem_map_of_mem hb) rfl⟩

/-! ### The loop over the backups -/

variable {policy : BackupPolicy} {ctimeNs : ℕ} {pre post : List Backup} {st : BackupPruning}

/-- What the loop deletes of a list of backups: from the front, as long as they exceed the policy
and there is another one. -/
def surplus (policy : BackupPolicy) : List Backup → List Backup
  | [] => []
  | b :: rest => if ExceedsBackups policy (b :: rest) ∧
      rest ≠ [] then b :: surplus policy rest else []

theorem surplus_isPrefix (backups : List Backup) : surplus policy backups <+: backups := by
  induction backups with
  | nil => exact List.prefix_rfl
  | cons b rest ih =>
    rw [surplus]
    split
    next => exact List.cons_prefix_cons.mpr ⟨rfl, ih⟩
    next => exact List.nil_prefix

/-- Each backup is deleted while the limits are exceeded. -/
theorem exceeds_of_surplus {backups deleted : List Backup} {p q : List Backup}
    (h : backups = surplus policy backups ++ deleted) (hb : surplus policy backups = p ++ b :: q) :
    ExceedsBackups policy (b :: q ++ deleted) := by
  induction backups generalizing p with
  | nil => simp [surplus] at hb
  | cons c rest ih =>
    rw [surplus] at h hb
    split at hb
    next hgo =>
      rw [if_pos hgo] at h
      rw [List.cons_append, List.cons.injEq] at h
      rcases p with _ | ⟨_, p⟩
      · rw [List.nil_append, List.cons.injEq] at hb
        obtain ⟨rfl, rfl⟩ := hb
        rw [List.cons_append, ← h.2]
        exact hgo.1
      · rw [List.cons_append, List.cons.injEq] at hb
        exact ih h.2 hb.2
    next => simp at hb

theorem surplus_ne {backups : List Backup} (h : backups ≠ []) :
    surplus policy backups ≠ backups := by
  induction backups with
  | nil => exact absurd rfl h
  | cons b rest ih =>
    rw [surplus]
    split
    next hgo => simpa using ih hgo.2
    next => simp

/-- What is left is within the limits, if it is more than one. -/
theorem surplus_spec {backups kept : List Backup} (h : backups = surplus policy backups ++ kept) :
    ¬ ExceedsBackups policy kept ∨ kept.length ≤ 1 := by
  induction backups with
  | nil =>
    rw [surplus, List.nil_append] at h
    simp [← h]
  | cons b rest ih =>
    rw [surplus] at h
    split at h
    next => exact ih (List.cons.inj h).2
    next hgo =>
      rw [List.nil_append] at h
      rw [← h]
      by_cases hrest : rest = []
      · simp [hrest]
      · exact .inl fun hexceeds => hgo ⟨hexceeds, hrest⟩

/-- In the middle of the loop: what comes before is gone, and nothing else has changed. -/
structure BackupSound (dir₀ : BackupDir) (pre post : List Backup)
    (st : BackupPruning) : Prop where
  split : sortedBackups dir₀ = pre ++ post
  deleted : st.deleted = pre
  disk : Without (pre.map Backup.name) dir₀ st.dir

section Sound

variable (h : BackupSound dir₀ pre post st)
include h

theorem BackupSound.apart (hb : b ∈ post) : b.name ∉ pre.map Backup.name := by
  have hnodup := nodup_sortedBackups dir₀
  rw [h.split, List.map_append, List.nodup_append] at hnodup
  exact fun hmem => hnodup.2.2 _ hmem _ (List.mem_map_of_mem hb) rfl

theorem BackupSound.binding (hb : b ∈ post) : backupBinding st.dir b = .matching := by
  have hin : b.In dir₀ := mem_sortedBackups.mp (h.split ▸ List.mem_append_right _ hb)
  exact backupBinding_of_in ((Backup.In.without h.disk).mpr ⟨hin, h.apart hb⟩)

theorem BackupSound.remaining : remaining (sortedBackups dir₀) st = post := by
  rw [Retention.remaining, h.split, h.deleted, List.filter_append]
  have hpre : pre.filter (fun c => c.name ∉ pre.map Backup.name) = [] := by
    rw [List.filter_eq_nil_iff]
    intro c hc
    simpa using List.mem_map_of_mem hc
  have hpost : post.filter (fun c => c.name ∉ pre.map Backup.name) = post := by
    rw [List.filter_eq_self]
    intro c hc
    simpa using h.apart hc
  rw [hpre, hpost, List.nil_append]

theorem BackupSound.live : liveBackups (sortedBackups dir₀) st = post := by
  rw [liveBackups, h.remaining, List.filter_eq_self]
  intro c hc
  simp [h.binding hc]

end Sound

theorem BackupSound.delete (h : BackupSound dir₀ pre (b :: post) st) :
    BackupSound dir₀ (pre ++ [b]) post
      { dir := st.dir.delete b.name, deleted := st.deleted ++ [b] } where
  split := by rw [h.split, List.append_assoc, List.singleton_append]
  deleted := by rw [h.deleted]
  disk := by
    rw [List.map_append, List.map_singleton]
    exact h.disk.delete

/-- One round of the loop. -/
theorem BackupSound.step (h : BackupSound dir₀ pre (b :: post) st) :
    pruneBackups policy (fun _ => none) ctimeNs (sortedBackups dir₀) (b :: post) st =
      if ExceedsBackups policy (b :: post) ∧ post ≠ [] then
        pruneBackups policy (fun _ => none) ctimeNs (sortedBackups dir₀) post
          { dir := st.dir.delete b.name, deleted := st.deleted ++ [b] }
      else st := by
  have hunchanged : ¬ ∃ c ∈ b :: post, backupBinding st.dir c = .changed := by
    rintro ⟨c, hc, hchanged⟩
    rw [h.binding hc] at hchanged
    cases hchanged
  rw [pruneBackups]
  simp only [h.remaining, h.live]
  rw [if_neg hunchanged]
  by_cases hexceeds : ExceedsBackups policy (b :: post)
  · rw [if_neg (not_not_intro hexceeds)]
    rcases post with _ | ⟨c, post⟩
    · simp
    · have hc : c.name ≠ b.name := by
        intro heq
        apply h.delete.apart List.mem_cons_self
        simp [heq]
      have hdelete : deleteBackup st.dir b ((b :: c :: post).filter fun c => c.name ≠ b.name) none
          ctimeNs = (.deleted, st.dir.delete b.name) := by
        have hsurvivor : survivorExists (st.dir.delete b.name)
            ((b :: c :: post).filter fun c => c.name ≠ b.name) = true := by
          rw [survivorExists, List.any_eq_true]
          refine ⟨c, ?_, ?_⟩
          · simp [hc]
          · simp [h.delete.binding List.mem_cons_self]
        rw [deleteBackup, h.binding List.mem_cons_self]
        simp only [hsurvivor, if_true]
      rw [if_neg (by simp), if_neg (by simp), hdelete, if_pos ⟨hexceeds, by simp⟩]
  · rw [if_pos hexceeds, if_neg fun hgo => hexceeds hgo.1]

/-- The loop deletes the surplus. -/
theorem BackupSound.run (h : BackupSound dir₀ pre post st) : ∃ kept,
    post = surplus policy post ++ kept ∧ BackupSound dir₀ (pre ++ surplus policy post) kept
      (pruneBackups policy (fun _ => none) ctimeNs (sortedBackups dir₀) post st) := by
  induction post generalizing pre st with
  | nil =>
    refine ⟨[], rfl, ?_⟩
    rw [surplus, List.append_nil]
    exact h
  | cons b post ih =>
    rw [h.step, surplus]
    split
    next =>
      obtain ⟨kept, hkept, hsound⟩ := ih h.delete
      refine ⟨kept, ?_, ?_⟩
      · rw [List.cons_append, ← hkept]
      · rw [List.append_assoc, List.singleton_append] at hsound
        exact hsound
    next =>
      refine ⟨b :: post, rfl, ?_⟩
      rw [List.append_nil]
      exact h

variable (policy ctimeNs dir) in
theorem pruneBackupRetention_spec : ∃ kept,
    sortedBackups dir = surplus policy (sortedBackups dir) ++ kept ∧
      BackupSound dir (surplus policy (sortedBackups dir)) kept
        (pruneBackupRetention policy (fun _ => none) ctimeNs dir) := by
  have hstart : BackupSound dir [] (sortedBackups dir) { dir := dir } :=
    ⟨rfl, rfl, without_nil⟩
  exact hstart.run

end OrchKit.Retention
