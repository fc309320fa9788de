import OrchKit.Archive.Verification

/-! # Whether there is a verdict

Almost everything that can be wrong with an archive blocks it. Three uses of what is in it raise
something that no handler turns into a verdict: the manifest is read as JSON, the secret classes it
excludes are made members of a set, and the modes in the records of executions are asked for the
type of their file. An archive is guarded if each use is kept from what it cannot stand by a check
before it, and these are the archives that get a verdict.
-/

namespace OrchKit.Archive

open Except Json Bridge

/-! ### Guards -/

section Guards

variable (m : Verifier)

/-- The mode in a signature is one that a file can have. -/
def SignatureGuarded (v : Value) : Prop :=
  ∀ fields, object? v signatureFields = some fields → ∀ s, readNumbers fields = some s →
    s.mode < m.modeLimit

def ContentGuarded (v : Value) : Prop :=
  ∀ fields, object? v contentFields = some fields → SignatureGuarded m (get fields "identity")

def PhaseGuarded (phase : Phase) (fields : Fields) : Prop :=
  match phase with
  | .dispatch => ∀ anchors, readAnchors (get fields "anchors") = .ok anchors →
    ContentGuarded m (get fields "original")
  | .publication => ∀ sha256, digest? (get fields "dispatch_sha256") = some sha256 →
    ContentGuarded m (get fields "staged")
  | .result => ∀ header, resultHeader fields = .ok header → ContentGuarded m header.target

def RecordGuarded (v : Value) : Prop :=
  ∀ phase fields base, recordHeader v = .ok (phase, fields, base) → PhaseGuarded m phase fields

def RecordsGuarded (intent : IntentRecord) (records : List (Phase × Value)) : Prop :=
  (∃ entry ∈ records, entry.1 = .dispatch) → intent.valid m.digests →
    ∀ done entry rest chain, records = done ++ entry :: rest →
      done.foldlM (linkRecord m intent) {} = .ok chain → RecordGuarded m entry.2

end Guards

section Guards

variable (m : Reader) (limit : ℤ)

def OperationsGuarded (intents : Intents) (operations : Operations) : Prop :=
  ∀ done operation rest runs, operations = done ++ operation :: rest →
    done.foldlM (checkOperation m intents) [] = .ok runs →
      ∀ intent, operationIntent intents runs operation.1 = .ok intent →
        RecordsGuarded m.toVerifier intent operation.2

def JournalsGuarded (members : List Member) : Prop :=
  ∀ intents operations, verifyArchivedOperationJournal m members = .ok intents →
    members.foldlM (addRecord m) [] = .ok operations → OperationsGuarded m intents operations

def ManifestGuarded (members : List Member) : Prop :=
  ∀ x bytes fault, member? members "state/manifest.json" = some x → x.bytes = some bytes →
    m.loads bytes = .fault fault → fault.IsValueError

def ExclusionsGuarded (manifest : Fields) : Prop :=
  ∀ excluded, get manifest "excluded_secret_classes" = .arr excluded → ∀ v ∈ excluded, v.hashable

def MembersGuarded (base : Verdict) (members : List Member) : Prop :=
  base.errors = [] → ManifestGuarded m members ∧
    ∀ manifest digest, readManifest m base members = .ok manifest →
      digest? (get manifest "database_sha256") = some digest → ExclusionsGuarded manifest ∧
        (checkExclusions base manifest = .ok () →
          ∀ after, checkEvidence m limit base members manifest = .ok after →
            JournalsGuarded m members)

/-- Whatever in the archive would be put to a use that it cannot stand, a check before it blocks
the archive. -/
def FileGuarded (file : BackupFile) : Prop :=
  file.regular → file.bytes.length ≤ limit → ∀ members, m.members file.bytes = some members →
    MembersGuarded m limit (tableVerdict limit file.path members) members

end Guards

/-! ### Records -/

section Records

variable {m : Verifier} {v : Value} {fields : Fields} {base : RecordBase}

theorem declared_isRegularMode {mode : ℕ} :
    (raised (isRegularMode m mode)).RaisesOnly Declared ↔ mode < m.modeLimit := by
  rw [declared_raised, isRegularMode]
  split
  next h => simp [Json.Fault.IsValueError, h]
  next h => simpa using h

theorem declared_readSignature :
    (readSignature m v).RaisesOnly Declared ↔ SignatureGuarded m v := by
  simp [readSignature, SignatureGuarded, raisesOnly_bind, ofOption_eq_ok_iff,
    declared_isRegularMode]

theorem declared_readContent : (readContent m v).RaisesOnly Declared ↔ ContentGuarded m v := by
  simp [readContent, ContentGuarded, raisesOnly_bind, ofOption_eq_ok_iff, declared_readSignature]

@[simp] theorem declared_readAnchors : (readAnchors v).RaisesOnly Declared := by
  simp [readAnchors, raisesOnly_bind]

@[simp] theorem declared_resultHeader : (resultHeader fields).RaisesOnly Declared := by
  simp only [resultHeader, raisesOnly_bind, declared_ofOption, declared_require, true_and]
  intros
  split <;> simp

@[simp] theorem declared_recordHeader : (recordHeader v).RaisesOnly Declared := by
  simp [recordHeader, raisesOnly_bind]

theorem declared_readPhase {phase : Phase} :
    (readPhase m phase fields base).RaisesOnly Declared ↔ PhaseGuarded m phase fields := by
  cases phase with
  | dispatch =>
    simp [readPhase, PhaseGuarded, readDispatch, raisesOnly_bind, declared_readContent]
  | publication =>
    simp [readPhase, PhaseGuarded, readPublication, raisesOnly_bind, ofOption_eq_ok_iff,
      declared_readContent]
  | result => simp [readPhase, PhaseGuarded, readResult, raisesOnly_bind, declared_readContent]

theorem declared_readRecord : (readRecord m v).RaisesOnly Declared ↔ RecordGuarded m v := by
  simp [readRecord, RecordGuarded, raisesOnly_bind, declared_readPhase]

theorem declared_linkRecord {intent : IntentRecord} {chain : Chain} {entry : Phase × Value} :
    (linkRecord m intent chain entry).RaisesOnly Declared ↔ RecordGuarded m entry.2 := by
  simp [linkRecord, raisesOnly_bind, declared_readRecord]

theorem declared_validateExecutionRecords {intent : IntentRecord}
    {records : List (Phase × Value)} :
    (validateExecutionRecords m intent records).RaisesOnly Declared ↔
      RecordsGuarded m intent records := by
  simp [validateExecutionRecords, RecordsGuarded, raisesOnly_bind, require_eq_ok_iff,
    raisesOnly_foldlM, declared_linkRecord]

end Records

/-! ### Stages -/

/-- The verification ends with a verdict, or with what `except ValueError` turns into one. -/
def Returned : Stop → Prop
  | .blocked _ => True
  | .raised e => Declared e

section Returned

variable {α : Type} {base : Verdict} {error : String}

@[simp] theorem returned_blocked : Returned (.blocked base) := trivial

@[simp] theorem returned_refused : Returned (refused base error) := trivial

@[simp] theorem returned_require {p : Prop} [Decidable p] {stop : Verdict} :
    (require p (Stop.blocked stop)).RaisesOnly Returned :=
  raisesOnly_require.mpr fun _ => trivial

@[simp] theorem returned_require_refused {p : Prop} [Decidable p] :
    (require p (refused base error)).RaisesOnly Returned :=
  raisesOnly_require.mpr fun _ => trivial

@[simp] theorem returned_require_mismatch {p : Prop} [Decidable p] {name : String} :
    (require p (mismatch base name)).RaisesOnly Returned :=
  raisesOnly_require.mpr fun _ => trivial

@[simp] theorem returned_ofOption {o : Option α} :
    (ofOption o (refused base error)).RaisesOnly Returned :=
  raisesOnly_ofOption.mpr fun _ => trivial

theorem returned_stopped {x : Except Json.Fault α} :
    (stopped x).RaisesOnly Returned ↔ x.RaisesOnly Json.Fault.IsValueError := by
  cases x with
  | ok a => simp [stopped]
  | error fault => cases fault <;> simp [stopped, Returned, ofFault, Json.Fault.IsValueError]

theorem returned_blockValue {x : Checked α} :
    (blockValue base x error).RaisesOnly Returned ↔ x.RaisesOnly Declared := by
  cases x with
  | ok a => simp [blockValue]
  | error e =>
    cases e with
    | value message => simp [blockValue]
    | other kind message => simp [blockValue, Returned]

theorem blockValue_eq_ok_iff {x : Checked α} {a : α} :
    blockValue base x error = .ok a ↔ x = .ok a := by
  cases x with
  | ok b => simp [blockValue]
  | error e => cases e <;> simp [blockValue]

end Returned

section Stages

variable {m : Reader} {limit : ℤ} {base : Verdict} {members : List Member} {manifest : Fields}
  {x : Member} {intents : Intents} {operations : Operations} {journal : String}

theorem returned_readManifest :
    (readManifest m base members).RaisesOnly Returned ↔ ManifestGuarded m members := by
  simp only [readManifest, ManifestGuarded, raisesOnly_bind, returned_ofOption, true_and,
    ofOption_eq_ok_iff]
  constructor
  · intro h x bytes fault hx hbytes hfault
    have hraised := h x hx bytes hbytes
    rw [hfault] at hraised
    cases fault <;> simp_all [Returned, ofFault, Json.Fault.IsValueError]
  · intro h x hx bytes hbytes
    cases hloads : m.loads bytes with
    | value v => cases v <;> simp
    | malformed => simp
    | fault fault =>
      have hvalue := h x bytes fault hx hbytes hloads
      cases fault <;> simp_all [Returned, ofFault, Json.Fault.IsValueError]

theorem raisesOnly_excludes {excluded : List Value} :
    (excludes excluded).RaisesOnly Json.Fault.IsValueError ↔ ∀ v ∈ excluded, v.hashable := by
  rw [excludes]
  split <;> simp_all [unhashable, Json.Fault.IsValueError]

theorem returned_checkExclusions :
    (checkExclusions base manifest).RaisesOnly Returned ↔ ExclusionsGuarded manifest := by
  cases h : get manifest "excluded_secret_classes" <;>
    simp [checkExclusions, ExclusionsGuarded, h, raisesOnly_bind, returned_stopped,
      raisesOnly_excludes]

theorem returned_checkFile {evidence : Fields} {total : ℕ} {name : String} :
    (checkFile m limit base members evidence total name).RaisesOnly Returned := by
  simp [checkFile, raisesOnly_bind]

theorem returned_checkEvidence :
    (checkEvidence m limit base members manifest).RaisesOnly Returned := by
  cases h : get manifest "file_evidence" <;>
    simp [checkEvidence, h, raisesOnly_bind, raisesOnly_foldlM, returned_checkFile]

@[simp] theorem declared_readMember : (readMember m journal x).RaisesOnly Declared := by
  simp [readMember, raisesOnly_bind]

theorem declared_addIntent : (addIntent m intents x).RaisesOnly Declared := by
  unfold addIntent
  split <;> simp [raisesOnly_bind]

theorem declared_verifyArchivedOperationJournal :
    (verifyArchivedOperationJournal m members).RaisesOnly Declared := by
  simp [verifyArchivedOperationJournal, raisesOnly_foldlM, declared_addIntent]

theorem declared_addRecord : (addRecord m operations x).RaisesOnly Declared := by
  unfold addRecord
  split <;> simp [raisesOnly_bind]

@[simp] theorem declared_operationIntent {runs : List Digest} {key : Digest × Digest} :
    (operationIntent intents runs key).RaisesOnly Declared := by
  simp [operationIntent, raisesOnly_bind]

theorem declared_checkOperation {runs : List Digest}
    {operation : (Digest × Digest) × List (Phase × Value)} :
    (checkOperation m intents runs operation).RaisesOnly Declared ↔
      ∀ intent, operationIntent intents runs operation.1 = .ok intent →
        RecordsGuarded m.toVerifier intent operation.2 := by
  simp [checkOperation, raisesOnly_bind, declared_validateExecutionRecords]

theorem declared_verifyArchivedPatchExecution :
    (verifyArchivedPatchExecution m intents members).RaisesOnly Declared ↔
      ∀ operations, members.foldlM (addRecord m) [] = .ok operations →
        OperationsGuarded m intents operations := by
  simp [verifyArchivedPatchExecution, OperationsGuarded, raisesOnly_bind, raisesOnly_foldlM,
    declared_addRecord, declared_checkOperation]

theorem returned_verifyManifest : (verifyManifest m limit base members).RaisesOnly Returned ↔
    ManifestGuarded m members ∧ ∀ manifest digest, readManifest m base members = .ok manifest →
      digest? (get manifest "database_sha256") = some digest → ExclusionsGuarded manifest := by
  simp only [verifyManifest, raisesOnly_bind, returned_readManifest, returned_ofOption, true_and,
    ofOption_eq_ok_iff, returned_checkExclusions, returned_checkEvidence, raisesOnly_pure,
    implies_true, and_true]
  apply and_congr_right
  intro _
  constructor
  · intro h manifest digest hmanifest hdigest
    exact h manifest hmanifest digest hdigest
  · intro h manifest hmanifest digest hdigest
    exact h manifest digest hmanifest hdigest

theorem verifyManifest_eq_ok_iff {after : Verdict} {digest : Digest} :
    verifyManifest m limit base members = .ok (after, manifest, digest) ↔
      readManifest m base members = .ok manifest ∧
        digest? (get manifest "database_sha256") = some digest ∧
          checkExclusions base manifest = .ok () ∧
            checkEvidence m limit base members manifest = .ok after := by
  simp only [verifyManifest, bind_eq_ok_iff, ofOption_eq_ok_iff, pure_eq_ok_iff, Prod.mk.injEq]
  constructor
  · rintro ⟨_, hmanifest, _, hdigest, _, hexclusions, _, hevidence, rfl, rfl, rfl⟩
    exact ⟨hmanifest, hdigest, hexclusions, hevidence⟩
  · rintro ⟨hmanifest, hdigest, hexclusions, hevidence⟩
    exact ⟨manifest, hmanifest, digest, hdigest, (), hexclusions, after, hevidence, rfl, rfl, rfl⟩

theorem returned_verifyJournals :
    (verifyJournals m base members).RaisesOnly Returned ↔ JournalsGuarded m members := by
  simp only [verifyJournals, JournalsGuarded, raisesOnly_bind, returned_blockValue,
    declared_verifyArchivedOperationJournal, true_and, blockValue_eq_ok_iff,
    declared_verifyArchivedPatchExecution]
  constructor
  · intro h intents operations hintents hoperations
    exact h intents hintents operations hoperations
  · intro h intents hintents operations hoperations
    exact h intents operations hintents hoperations

theorem returned_verifyDatabase {digest : Digest} :
    (verifyDatabase m limit base members manifest digest).RaisesOnly Returned := by
  simp only [verifyDatabase, readDatabase, unlessErrors, raisesOnly_bind, returned_ofOption,
    returned_require, returned_require_refused, true_and, implies_true]
  intros
  split <;> simp

theorem returned_verifyMembers :
    (verifyMembers m limit base members).RaisesOnly Returned ↔
      MembersGuarded m limit base members := by
  simp only [verifyMembers, MembersGuarded, unlessErrors, raisesOnly_bind, returned_require,
    true_and, require_eq_ok_iff, returned_verifyManifest, returned_verifyJournals,
    returned_verifyDatabase, implies_true, and_true]
  constructor
  · intro h herrors
    obtain ⟨⟨hmanifest, hexclusions⟩, hjournals⟩ := h () herrors
    refine ⟨hmanifest, fun manifest digest hread hdigest => ?_⟩
    refine ⟨hexclusions manifest digest hread hdigest, fun hchecked after hafter => ?_⟩
    exact hjournals (after, manifest, digest)
      (verifyManifest_eq_ok_iff.mpr ⟨hread, hdigest, hchecked, hafter⟩)
  · intro h _ herrors
    obtain ⟨hmanifest, hrest⟩ := h herrors
    constructor
    · exact
        ⟨hmanifest, fun manifest digest hread hdigest => (hrest manifest digest hread hdigest).1⟩
    · rintro ⟨after, manifest, digest⟩ hverified
      obtain ⟨hread, hdigest, hchecked, hafter⟩ := verifyManifest_eq_ok_iff.mp hverified
      exact (hrest manifest digest hread hdigest).2 hchecked after hafter

end Stages

/-! ### Files -/

section Files

variable {m : Reader} {limit : ℤ} {file : BackupFile}

theorem declared_verifyFrozenBackupArchive :
    (verifyFrozenBackupArchive m limit file).RaisesOnly Declared ↔
      ∀ members, m.members file.bytes = some members →
        MembersGuarded m limit (tableVerdict limit file.path members) members := by
  cases hmembers : m.members file.bytes with
  | none => simp [verifyFrozenBackupArchive, hmembers]
  | some members =>
    simp only [Option.some.injEq, forall_eq', ← returned_verifyMembers]
    cases hverified : verifyMembers m limit (tableVerdict limit file.path members) members with
    | ok verdict => simp [verifyFrozenBackupArchive, hmembers, hverified]
    | error stop => cases stop <;> simp [verifyFrozenBackupArchive, hmembers, hverified, Returned]

theorem declared_verifyFrozen :
    (verifyFrozen m limit file).RaisesOnly Declared ↔ FileGuarded m limit file := by
  simp [verifyFrozen, FileGuarded, raisesOnly_bind, require_eq_ok_iff,
    declared_verifyFrozenBackupArchive]

/-- Verification returns a verdict, which says that the archive is verified or blocked, just for
the archives that are guarded. -/
theorem verifyBackupArchive_returns_iff :
    (∃ verdict, verifyBackupArchive m limit file = .ok verdict) ↔
      0 < limit ∧ FileGuarded m limit file := by
  rw [← declared_verifyFrozen, verifyBackupArchive]
  by_cases hlimit : 0 < limit
  · rw [require_of hlimit, ok_bind, and_iff_right hlimit]
    cases hfrozen : verifyFrozen m limit file with
    | ok verdict => simp
    | error e => cases e <;> simp [pure_eq_ok_iff]
  · simp [require, hlimit, error_bind]

end Files

namespace Scenario

def zeros : Digest := List.replicate 64 '0'

/-- Digests that tell nothing apart. -/
def digests : Digests where
  id _ := zeros
  request _ _ := zeros
  record _ := zeros
  content _ := zeros
  xattrs _ := zeros
  isDigest_id _ := by decide
  isDigest_request _ _ := by decide
  isDigest_record _ := by decide
  isDigest_content _ := by decide
  isDigest_xattrs _ := by decide

def manifest : Value :=
  object [("database_sha256", text (String.ofList zeros)),
    ("excluded_secret_classes", .arr [.obj []])]

/-- A reader for one archive, which has the two members that are required. -/
def reader : Reader where
  uid := 501
  modeLimit := 2 ^ 16
  digests := digests
  members _ :=
    some [⟨"state/orch.sqlite3", 1, 0, some [0]⟩, ⟨"state/manifest.json", 1, 0, some [0]⟩]
  loads _ := .value manifest
  loadsUnique _ := none
  database _ := none

def file : BackupFile := ⟨"/backup.zip", true, [0]⟩

end Scenario

theorem not_always_verdict :
    ¬ ∀ (m : Reader) (limit : ℤ) (file : BackupFile), 0 < limit →
      ∃ verdict, verifyBackupArchive m limit file = .ok verdict := by
  intro h
  obtain ⟨verdict, hverdict⟩ := h Scenario.reader 1024 Scenario.file (by decide)
  have hraised : (verifyBackupArchive Scenario.reader 1024 Scenario.file).isOk = false := by
    decide
  rw [hverdict] at hraised
  cases hraised

end OrchKit.Archive
