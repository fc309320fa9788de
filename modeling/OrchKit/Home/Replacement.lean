import OrchKit.Data.Checked
import OrchKit.Home.Files
import OrchKit.Program.Semantics

/-! # Home replacement

Replacing a home by one restored from a backup, and reconciling a replacement that was
cut off, as programs over single looks, renames, journal writes and deletions.
-/

namespace OrchKit.Home

open Program Except

/-- What the live home is found to be before it is replaced. -/
structure Live where
  stateReady : Bool
  reconcileClean : Bool
  recoveryClean : Bool
  nonterminalTasks : List String
  globalPause : Bool
  projectPauses : List String

/-- An archive, as it is verified and as it is unpacked: what the restored home may be refused for,
and the size of its receipt, which repeats the whole manifest of the archive. -/
structure Backup where
  verified : Bool
  errors : List String
  archiveSha256 : String
  identity : Identity
  entries : List (String × Entry)
  refusal : Option String
  receiptBytes : ℕ

def Backup.guard (verified : Bool) (errors : List String) : Except String Unit :=
  require verified ("backup_not_verified:" ++
    ",".intercalate (if errors = [] then ["unknown"] else errors))

/-- The home `restore_backup_archive` publishes, with its receipt. -/
def Backup.restored (backup : Backup) : Directory :=
  Directory.write ⟨backup.identity, backup.entries⟩ restoreReceipt
    (.file 0o600 backup.receiptBytes (some backup.archiveSha256))

inductive HomeOp
  | load
  | write (data : Journal)
  | unlinkJournal
  | look (slot : Slot)
  | rename (source target : Slot)
  | writeReceipt
  | unlink (slot : Slot) (name : String)
  | rmdir (slot : Slot)
  | checkState
  | reconcileState
  | recoveryInspect
  | selectNonterminal
  | selectGlobalPause
  | selectProjectPauses
  | inspectNew
  | verifyBackup
  | restore

abbrev HomeOp.Ans : HomeOp → Type
  | load => Option Journal
  | write _ => Except String Unit
  | unlinkJournal => Unit
  | look _ => Option Node
  | rename .. => Except String Unit
  | writeReceipt => Unit
  | unlink .. => Bool
  | rmdir _ => Bool
  | checkState => Bool
  | reconcileState => Bool
  | recoveryInspect => Bool
  | selectNonterminal => List String
  | selectGlobalPause => Bool
  | selectProjectPauses => List String
  | inspectNew => Bool
  | verifyBackup => Bool × List String
  | restore => Except String String

abbrev homeSig : Sig := ⟨HomeOp, HomeOp.Ans⟩

/-- The home a replacement finds and what it is to put in its place. What is unpacked is unpacked
while the old home is there, so it is another directory. -/
structure Setting where
  old : Directory
  live : Live
  backup : Backup
  newBlocked : Bool
  replacementReceiptBytes : ℕ
  fresh : backup.identity ≠ old.identity

/-- Nothing, or a directory with nothing in it. -/
def replaceable : Option Node → Bool
  | none => true
  | some (.directory d) => d.entries = []
  | some .other => false

/-- The paths under single operations that succeed where a file system with no other actor lets
them. -/
def diskSemantics (g : Setting) : Semantics homeSig Disk Unit where
  answer _ s
    | .load => (s.journal, s)
    | .write data => (.ok (), { s with journal := some data })
    | .unlinkJournal => ((), { s with journal := none })
    | .look slot => (s.at slot, s)
    | .rename source target =>
      match s.at source with
      | none => (.error "No such file or directory", s)
      | some n =>
        if replaceable (s.at target) then (.ok (), (s.put none source).put (some n) target)
        else (.error "Directory not empty", s)
    | .writeReceipt =>
      match s.destination with
      | some (.directory d) =>
        ((), s.put (some (.directory
          (d.write replacementReceipt (.file 0o600 g.replacementReceiptBytes none)))) .destination)
      | _ => ((), s)
    | .unlink slot name =>
      match s.at slot with
      | some (.directory d) =>
        if d.entries.any (·.1 = name) then
          (true, s.put (some (.directory { d with
            entries := d.entries.eraseP (·.1 = name) })) slot)
        else (false, s)
      | _ => (false, s)
    | .rmdir slot =>
      match s.at slot with
      | some (.directory d) => if d.entries = [] then (true, s.put none slot) else (false, s)
      | _ => (false, s)
    | .checkState => (g.live.stateReady, s)
    | .reconcileState => (g.live.reconcileClean, s)
    | .recoveryInspect => (g.live.recoveryClean, s)
    | .selectNonterminal => (g.live.nonterminalTasks, s)
    | .selectGlobalPause => (g.live.globalPause, s)
    | .selectProjectPauses => (g.live.projectPauses, s)
    | .inspectNew => (g.newBlocked, s)
    | .verifyBackup => ((g.backup.verified, g.backup.errors), s)
    | .restore =>
      if s.prepared = none then
        match g.backup.refusal with
        | none =>
            (.ok g.backup.archiveSha256, s.put (some (.directory g.backup.restored)) .prepared)
        | some e => (.error e, s)
      else (.error "restore_destination_exists", s)

inductive BlockedReason
  | stateAmbiguous
  | discardIdentityMismatch
  | newActiveNotProven
  | rollbackHomeNotProven
  | discardBindingFailed
  | rollbackStateAmbiguous
  | rolledBackNotProven
  | rollbackFinalizeStateAmbiguous
  | discardDeleteFailed
  | finalizeStateAmbiguous
  deriving DecidableEq

inductive Reply
  | prepared
  | oldMoved
  | replacedRollbackAvailable
  | rollbackPrepared
  | rollbackNewMoved
  | rolledBackForwardCopyAvailable
  | pendingDelete (role : DiscardRole)
  | complete
  | blocked (reason : BlockedReason)
  deriving DecidableEq

abbrev HomeScript (α : Type) : Type := Prog homeSig String α

namespace HomeScript

def ofChecked {α : Type} : Except String α → HomeScript α
  | .ok a => .ret a
  | .error e => .raise e

def perform (o : HomeOp) : HomeScript o.Ans := .call o .ret

def look (slot : Slot) : HomeScript (Option Node) := .call (.look slot) .ret

def write (data : Journal) : HomeScript Unit := .call (.write data) ofChecked

def rename (source target : Slot) : HomeScript Unit := .call (.rename source target) ofChecked

def blocked (reason : BlockedReason) : HomeScript Reply := .ret (.blocked reason)

end HomeScript

open HomeScript

/-! ### Deleting -/

/-- `_delete_open_directory_contents`, for what the directory was found to contain. -/
def unlinkAll (slot : Slot) : List String → HomeScript Bool
  | [] => return true
  | name :: names => do
    if ← perform (.unlink slot name) then unlinkAll slot names else return false

/-- `_delete_bound_replacement_discard` -/
def deleteBoundDiscard (data : Journal) (role : DiscardRole) : HomeScript Bool := do
  match ← look .discard with
  | some (.directory d) =>
    if data.discard = some (role, d.identity) then
      if ← unlinkAll .discard (d.entries.map Prod.fst) then
        match ← look .discard with
        | some (.directory current) =>
          if current.identity = d.identity then perform (.rmdir .discard) else return false
        | _ => return false
      else return false
    else return false
  | _ => return false

/-- `shutil.rmtree` -/
def rmtree (slot : Slot) : HomeScript Unit := do
  match ← look slot with
  | some (.directory d) =>
    if ← unlinkAll slot (d.entries.map Prod.fst) then
      let _ ← perform (.rmdir slot)
    else .raise "rmtree"
  | _ => .raise "rmtree"

/-! ### Replacing -/

/-- What `replace_home_from_backup` does when the first journal cannot be written. -/
def discardPrepared (data : Journal) : HomeScript Unit := do
  let prepared ← look .prepared
  let dest ← look .destination
  if isDirectory prepared ∧ restoredHomeMatches data.archiveSha256 prepared ∧
      oldHomeIdentityMatches data dest then
    rmtree .prepared

/-- The renames of `replace_home_from_backup`, each followed by its journal write. -/
def activatePrepared (data : Journal) : HomeScript Reply := do
  rename .destination .rollback
  write { data with status := .oldMoved }
  rename .prepared .destination
  write { data with status := .newActive }
  if restoredHomeMatches data.archiveSha256 (← look .destination) then
    if ← perform .inspectNew then .raise "replacement_new_home_blocked"
    else return .replacedRollbackAvailable
  else .raise "replacement_new_home_not_proven"

/-- What `replace_home_from_backup` asks of the live home, one read after the other. -/
def liveGates : HomeScript Unit := do
  ofChecked (require (← perform .checkState) "replacement_live_state_not_ready")
  ofChecked (require (← perform .reconcileState) "replacement_live_reconcile_not_clean")
  ofChecked (require (← perform .recoveryInspect) "replacement_live_recovery_not_clean")
  let nonterminal ← perform .selectNonterminal
  let globalPause ← perform .selectGlobalPause
  let projectPauses ← perform .selectProjectPauses
  ofChecked (noneOf nonterminal ("replacement_live_nonterminal_tasks:" ++ ·))
  ofChecked (require (globalPause = false ∧ projectPauses = []) "replacement_live_pause_present")

/-- From the verified archive on. -/
def prepareAndActivate : HomeScript Reply := do
  match ← look .destination with
  | some (.directory old) =>
    let archiveSha256 ← .call .restore ofChecked
    let data : Journal := ⟨.prepared, old.identity, archiveSha256, none, false⟩
    match ← perform (.write data) with
    | .ok _ => activatePrepared data
    | .error e => do
      discardPrepared data
      .raise e
  | _ => .raise "No such file or directory"

def replaceHomeFromBackup : HomeScript Reply := do
  match ← perform .load with
  | some _ => .raise "replacement_reconciliation_required"
  | none =>
    let home ← look .destination
    ofChecked (require (standaloneHomeSafe home) "replacement_home_not_standalone")
    liveGates
    let verification ← perform .verifyBackup
    ofChecked (Backup.guard verification.1 verification.2)
    prepareAndActivate

/-! ### Reconciling -/

structure Actions where
  resume : Bool
  finalize : Bool
  rollback : Bool

/-- What is seen of the paths before anything is done, kept up to date only in part. -/
structure Seen where
  destExists : Bool
  preparedExists : Bool
  rollbackExists : Bool
  discardExists : Bool
  destIsNew : Bool

/-- Both `*FINALIZE_PENDING_DELETE` sections, once the receipt may be written. -/
def completeReplacement (data : Journal) (role : DiscardRole) : HomeScript Reply := do
  perform .writeReceipt
  write { data with
    status := .complete
    outcomeRolledBack := data.outcomeRolledBack || role = .failedNew }
  perform .unlinkJournal
  return .complete

/-- Both `*FINALIZE_PENDING_DELETE` sections, once the paths are as they should be. -/
def deletePending (data : Journal) (role : DiscardRole) (finalize : Bool) : HomeScript Reply := do
  let discard ← look .discard
  if discard.isSome then
    if discardIdentityMatches data role discard then
      if finalize then
        if ← deleteBoundDiscard data role then completeReplacement data role
        else blocked .discardDeleteFailed
      else return .pendingDelete role
    else blocked .discardIdentityMismatch
  else if finalize then completeReplacement data role
  else return .pendingDelete role

/-- The section of `FINALIZE_PENDING_DELETE`. -/
def finalizePending (data : Journal) (a : Actions) : HomeScript Reply := do
  let dest ← look .destination
  let prepared ← look .prepared
  let rollback ← look .rollback
  if isDirectory dest ∧ prepared.isNone ∧ rollback.isNone ∧
      restoredHomeMatches data.archiveSha256 dest then
    deletePending data .rollbackOld a.finalize
  else blocked .finalizeStateAmbiguous

/-- The section of `ROLLBACK_FINALIZE_PENDING_DELETE`. -/
def rollbackFinalizePending (data : Journal) (a : Actions) : HomeScript Reply := do
  let dest ← look .destination
  let rollback ← look .rollback
  let failed ← look .failed
  let prepared ← look .prepared
  if oldHomeIdentityMatches data dest ∧ rollback.isNone ∧ failed.isNone ∧ prepared.isNone then
    deletePending data .failedNew a.finalize
  else blocked .rollbackFinalizeStateAmbiguous

/-- The section of `ROLLED_BACK`. -/
def rolledBack (data : Journal) (a : Actions) : HomeScript Reply := do
  let failed ← look .failed
  let dest ← look .destination
  let rollback ← look .rollback
  let discard ← look .discard
  let prepared ← look .prepared
  if oldHomeIdentityMatches data dest ∧ rollback.isNone ∧ failed.isNone ∧ isDirectory discard then
    if discardIdentityMatches data .failedNew discard then
      let data := { data with status := .rollbackFinalizePendingDelete }
      write data
      rollbackFinalizePending data a
    else blocked .discardIdentityMismatch
  else if oldHomeIdentityMatches data dest ∧ rollback.isNone ∧
      (isDirectory failed ∧ restoredHomeMatches data.archiveSha256 failed) ∧ discard.isNone ∧
        prepared.isNone then
    if a.finalize then
      match bindDiscard data .failedNew failed with
      | none => blocked .discardBindingFailed
      | some data =>
        write data
        rename .failed .discard
        let data := { data with status := .rollbackFinalizePendingDelete }
        write data
        rollbackFinalizePending data a
    else return .rolledBackForwardCopyAvailable
  else blocked .rolledBackNotProven

/-- The section of `ROLLBACK_NEW_MOVED`. -/
def rollbackNewMoved (data : Journal) (a : Actions) : HomeScript Reply := do
  let rollback ← look .rollback
  let failed ← look .failed
  let dest ← look .destination
  let discard ← look .discard
  let failedIsNew := isDirectory failed && restoredHomeMatches data.archiveSha256 failed
  if oldHomeIdentityMatches data dest ∧ rollback.isNone ∧ failedIsNew then
    let data := { data with status := .rolledBack }
    write data
    rolledBack data a
  else if dest.isNone ∧ oldHomeIdentityMatches data rollback ∧ failedIsNew ∧ discard.isNone then
    if a.rollback then
      rename .rollback .destination
      let data := { data with status := .rolledBack }
      write data
      rolledBack data a
    else return .rollbackNewMoved
  else blocked .rollbackStateAmbiguous

/-- The section of `ROLLBACK_PREPARED`. -/
def rollbackPrepared (data : Journal) (a : Actions) : HomeScript Reply := do
  let dest ← look .destination
  let rollback ← look .rollback
  let failed ← look .failed
  let discard ← look .discard
  let prepared ← look .prepared
  let destIsNew := isDirectory dest && restoredHomeMatches data.archiveSha256 dest
  let rollbackIsOld := oldHomeIdentityMatches data rollback
  let failedIsNew := isDirectory failed && restoredHomeMatches data.archiveSha256 failed
  if dest.isNone ∧ rollbackIsOld ∧ failedIsNew then
    let data := { data with status := .rollbackNewMoved }
    write data
    rollbackNewMoved data a
  else if oldHomeIdentityMatches data dest ∧ rollback.isNone ∧ failedIsNew then
    let data := { data with status := .rolledBack }
    write data
    rolledBack data a
  else if destIsNew ∧ rollbackIsOld ∧ failed.isNone ∧ discard.isNone ∧ prepared.isNone then
    if a.rollback then
      rename .destination .failed
      let data := { data with status := .rollbackNewMoved }
      write data
      rollbackNewMoved data a
    else return .rollbackPrepared
  else blocked .rollbackStateAmbiguous

/-- The section of `NEW_ACTIVE`. -/
def newActive (data : Journal) (seen : Seen) (a : Actions) : HomeScript Reply := do
  let dest ← look .destination
  let prepared ← look .prepared
  let rollback ← look .rollback
  let discard ← look .discard
  if seen.destIsNew ∧ prepared.isNone ∧ rollback.isNone ∧ seen.discardExists then
    if discardIdentityMatches data .rollbackOld discard then
      let data := { data with status := .finalizePendingDelete }
      write data
      finalizePending data a
    else blocked .discardIdentityMismatch
  else if isDirectory dest ∧ isDirectory rollback ∧ prepared.isNone ∧ discard.isNone ∧
      restoredHomeMatches data.archiveSha256 dest then
    if a.rollback then
      let failed ← look .failed
      if standaloneHomeSafe rollback ∧ oldHomeIdentityMatches data rollback ∧ failed.isNone ∧
          discard.isNone then
        let data := { data with status := .rollbackPrepared }
        write data
        rollbackPrepared data a
      else blocked .rollbackHomeNotProven
    else if a.finalize then
      if standaloneHomeSafe rollback ∧ oldHomeIdentityMatches data rollback then
        match bindDiscard data .rollbackOld rollback with
        | none => blocked .discardBindingFailed
        | some data =>
          write data
          rename .rollback .discard
          let data := { data with status := .finalizePendingDelete }
          write data
          finalizePending data a
      else blocked .rollbackHomeNotProven
    else return .replacedRollbackAvailable
  else blocked .newActiveNotProven

/-- The section of `OLD_MOVED`. -/
def oldMoved (data : Journal) (seen : Seen) (a : Actions) : HomeScript Reply := do
  let moved := { data with status := .newActive }
  if seen.destIsNew ∧ seen.rollbackExists ∧ ¬ seen.preparedExists then
    write moved
    newActive moved seen a
  else if ¬ seen.destExists ∧ seen.rollbackExists ∧ seen.preparedExists then
    if a.resume then
      rename .prepared .destination
      write moved
      let dest ← look .destination
      newActive moved { seen with
        destExists := true
        preparedExists := false
        destIsNew := restoredHomeMatches data.archiveSha256 dest } a
    else return .oldMoved
  else blocked .stateAmbiguous

/-- The section of `PREPARED`. -/
def prepared (data : Journal) (seen : Seen) (a : Actions) : HomeScript Reply := do
  if ¬ seen.destExists ∧ seen.rollbackExists ∧ seen.preparedExists then
    let data := { data with status := .oldMoved }
    write data
    oldMoved data seen a
  else if seen.destIsNew ∧ seen.rollbackExists ∧ ¬ seen.preparedExists then
    let data := { data with status := .newActive }
    write data
    newActive data seen a
  else if seen.destExists ∧ seen.preparedExists ∧ ¬ seen.rollbackExists then
    if a.resume then
      rename .destination .rollback
      let data := { data with status := .oldMoved }
      write data
      oldMoved data { seen with
        destExists := false
        preparedExists := true
        rollbackExists := true } a
    else return .prepared
  else blocked .stateAmbiguous

/-- The sections of `reconcile_home_replacement`, from the status in the journal on. -/
def continueFrom (data : Journal) (seen : Seen) (a : Actions) : HomeScript Reply :=
  match data.status with
  | .prepared => prepared data seen a
  | .oldMoved => oldMoved data seen a
  | .newActive => newActive data seen a
  | .rollbackPrepared => rollbackPrepared data a
  | .rollbackNewMoved => rollbackNewMoved data a
  | .rolledBack => rolledBack data a
  | .rollbackFinalizePendingDelete => rollbackFinalizePending data a
  | .finalizePendingDelete => finalizePending data a
  | .complete => return .complete

def Conflict (a : Actions) : Prop := 1 < [a.resume, a.finalize, a.rollback].count true

instance : DecidablePred Conflict := fun _ => inferInstanceAs (Decidable (1 < _))

def reconcileHomeReplacement (a : Actions) : HomeScript Reply :=
  if Conflict a then .raise "replacement_action_conflict"
  else do
    match ← perform .load with
    | none => .raise "replacement_journal_missing"
    | some data =>
      let dest ← look .destination
      let staged ← look .prepared
      let rollback ← look .rollback
      let discard ← look .discard
      continueFrom data
        { destExists := isDirectory dest
          preparedExists := isDirectory staged
          rollbackExists := isDirectory rollback
          discardExists := isDirectory discard
          destIsNew := isDirectory dest && restoredHomeMatches data.archiveSha256 dest } a

/-- The calls that work on a replacement. -/
inductive HomeCall
  | replace
  | reconcile (a : Actions)

def HomeCall.script : HomeCall → HomeScript Reply
  | replace => replaceHomeFromBackup
  | reconcile a => reconcileHomeReplacement a

end OrchKit.Home
