import Mathlib.Data.List.Basic

/-! # The paths of a home replacement

A home, the four sibling directories its replacement may leave beside it and the
journal: what the procedures look at before they rename or delete anything.
-/

namespace OrchKit.Home

/-- Device and inode of a directory. -/
structure Identity where
  device : ℕ
  inode : ℕ
  deriving DecidableEq

/-- What is under a name: of a regular file, its permission bits, its size and the
`source_archive_sha256` of the JSON object in it, if it holds one. -/
inductive Entry
  | file (mode bytes : ℕ) (sourceArchiveSha256 : Option String)
  | directory
  | symlink
  deriving DecidableEq

/-- A directory and all that is under it, in the order in which a recursive delete gets there. -/
structure Directory where
  identity : Identity
  entries : List (String × Entry)
  deriving DecidableEq

/-- What is at a path, if anything; not a directory is also what a link to one is. -/
inductive Node
  | directory (d : Directory)
  | other
  deriving DecidableEq

inductive Slot
  | destination
  | prepared
  | rollback
  | discard
  | failed
  deriving DecidableEq

inductive JournalStatus
  | prepared
  | oldMoved
  | newActive
  | rollbackPrepared
  | rollbackNewMoved
  | rolledBack
  | rollbackFinalizePendingDelete
  | finalizePendingDelete
  | complete
  deriving DecidableEq

inductive DiscardRole
  | rollbackOld
  | failedNew
  deriving DecidableEq

/-- The replacement journal. The paths in it are those of the slots. -/
structure Journal where
  status : JournalStatus
  oldRoot : Identity
  archiveSha256 : String
  discard : Option (DiscardRole × Identity) := none
  outcomeRolledBack : Bool := false
  deriving DecidableEq

structure Disk where
  destination : Option Node
  prepared : Option Node := none
  rollback : Option Node := none
  discard : Option Node := none
  failed : Option Node := none
  journal : Option Journal := none
  deriving DecidableEq

def Disk.at (s : Disk) : Slot → Option Node
  | .destination => s.destination
  | .prepared => s.prepared
  | .rollback => s.rollback
  | .discard => s.discard
  | .failed => s.failed

def Disk.put (s : Disk) (n : Option Node) : Slot → Disk
  | .destination => { s with destination := n }
  | .prepared => { s with prepared := n }
  | .rollback => { s with rollback := n }
  | .discard => { s with discard := n }
  | .failed => { s with failed := n }

def restoreReceipt : String := "restore-receipt.json"

def replacementReceipt : String := "replacement-receipt.json"

/-- `_STANDALONE_HOME_ALLOWED` -/
def standaloneHomeAllowed : List String :=
  [".runtime", "config.json", "rdc-bootstrap.json", "dispatcher-prompt.txt", restoreReceipt,
    replacementReceipt, "projects", "plans", "backups", "logs", "snapshots", "reviews", "claims"]

/-- `_standalone_home_inventory` says `SAFE`. -/
def standaloneHomeSafe : Option Node → Bool
  | some (.directory d) =>
    let root := d.entries.filter fun e => '/' ∉ e.1.toList
    root.all (fun e => e.1 ∈ standaloneHomeAllowed ∧ e.2 ≠ .symlink) &&
      match d.entries.lookup ".runtime/orch.sqlite3" with
      | some (.file ..) => true
      | _ => false
  | _ => false

/-- `is_dir() and not is_symlink()` -/
def isDirectory : Option Node → Bool
  | some (.directory _) => true
  | _ => false

/-- `RESTORE_RECEIPT_MAX_BYTES` -/
def restoreReceiptMaxBytes : ℕ := 64 * 1024

/-- `_restored_home_matches`, whose bounded read takes a longer receipt for none. -/
def restoredHomeMatches (archiveSha256 : String) : Option Node → Bool
  | some (.directory d) =>
    match d.entries.lookup restoreReceipt with
    | some (.file mode bytes archive) =>
      bytes ≤ restoreReceiptMaxBytes ∧ mode = 0o600 ∧ archive = some archiveSha256
    | _ => false
  | _ => false

/-- `_old_home_identity_matches` -/
def oldHomeIdentityMatches (data : Journal) : Option Node → Bool
  | some (.directory d) => d.identity = data.oldRoot
  | _ => false

/-- `_replacement_discard_identity_matches` -/
def discardIdentityMatches (data : Journal) (role : DiscardRole) : Option Node → Bool
  | some (.directory d) => data.discard = some (role, d.identity)
  | _ => false

/-- `_bind_replacement_discard` -/
def bindDiscard (data : Journal) (role : DiscardRole) : Option Node → Option Journal
  | some (.directory d) => some { data with discard := some (role, d.identity) }
  | _ => none

def Directory.write (d : Directory) (name : String) (e : Entry) : Directory :=
  { d with entries := (name, e) :: d.entries.filter (·.1 ≠ name) }

def Directory.Is (d h : Directory) : Prop :=
  d.identity = h.identity ∧
    d.entries.filter (·.1 ≠ replacementReceipt) = h.entries.filter (·.1 ≠ replacementReceipt)

variable {d h : Directory}

@[simp] theorem Directory.Is.refl (d : Directory) : d.Is d := ⟨rfl, rfl⟩

theorem Directory.Is.writeReceipt (hd : d.Is h) (e : Entry) :
    (d.write replacementReceipt e).Is h := by
  refine ⟨hd.1, ?_⟩
  rw [Directory.write, ← hd.2]
  simp [List.filter_filter]

theorem lookup_filter_ne {name other : String} (hne : name ≠ other) (es : List (String × Entry)) :
    (es.filter (·.1 ≠ other)).lookup name = es.lookup name := by
  induction es with
  | nil => rfl
  | cons e es ih =>
    obtain ⟨n, e⟩ := e
    by_cases hn : n = other
    · subst hn
      have hb : (name == n) = false := beq_false_of_ne hne
      rw [List.filter_cons_of_neg (by simp), ih, List.lookup_cons, hb]
    · rw [List.filter_cons_of_pos (by simpa using hn), List.lookup_cons, List.lookup_cons, ih]

theorem Directory.Is.restoredHomeMatches (hd : d.Is h) (archiveSha256 : String) :
    Home.restoredHomeMatches archiveSha256 (some (.directory d)) =
      Home.restoredHomeMatches archiveSha256 (some (.directory h)) := by
  have hne : restoreReceipt ≠ replacementReceipt := by decide
  unfold Home.restoredHomeMatches
  simp only
  rw [← lookup_filter_ne hne d.entries, hd.2, lookup_filter_ne hne]

end OrchKit.Home
