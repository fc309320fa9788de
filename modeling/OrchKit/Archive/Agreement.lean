import OrchKit.Archive.Executions
import OrchKit.Archive.Verdict

/-! # The inventories and the archive agree

The files of a home are read twice by different code: in place, directory by directory, and as the
members of an archive, in the order they have there. Both accept a file for the same reasons, and
the limits of both come to the same, since a directory is listed just as its files are counted. So
the archive is accepted when the inventories are complete, and what is read is the same. -/

namespace OrchKit.Archive

open Except Json Bridge Files

/-- The operation that the records in an archive are of. -/
def archivedOperation (m : Reader) (intents : Intents)
    (operation : (Digest × Digest) × List (Phase × Value)) : Checked Operation := do
  let intent ← ofOption (intents.lookup operation.1) (.value "execution_intent_missing")
  let chain ← validateExecutionRecords m.toVerifier intent operation.2
  let dispatch ← ofOption chain.dispatch (.value "patch_execution_invalid_chain")
  return ⟨dispatch.request.binding.runId, dispatch.request.operationId, chain⟩

/-- The operations that a verification reads. -/
def archivedOperations (m : Reader) (members : List Member) (intents : Intents) :
    Checked (List Operation) := do
  let operations ← members.foldlM (addRecord m) []
  operations.mapM (archivedOperation m intents)

namespace Inventory

variable {α : Type}

/-- The entries of an inventory; only one that is ready has any. -/
def entries : Inventory α → List α
  | .ready entries => entries
  | _ => []

/-- The inventory is `READY`, or `ABSENT` where the store is not there. -/
def Settled (t : Tree) : Inventory α → Prop
  | .ready _ => t ≠ []
  | .absent => t = []
  | .unknown => False

end Inventory

section Agreement

variable {m : Reader} {home : Home} {intents : Intents}

theorem settled_iff {α : Type} {x : Checked Unit} {store : Name}
    {f : Tree → Checked (List α)} {inventory : Inventory α}
    (hx : x = .ok ()) (h : home.Private m.uid)
    (hstore : store = journalName ∨ store = executionName) :
    (Inventory.of (do
        x
        let t ← storeAt m home store
        t.mapM f) = .ok inventory ∧ inventory.Settled (home.store store)) ↔
      (home.store store = [] ∧ inventory = .absent) ∨
        (home.store store ≠ [] ∧ ∃ entries, f (home.store store) = .ok entries ∧
          inventory = .ready entries) := by
  rw [hx, storeAt_eq h hstore, ok_bind, ok_bind]
  by_cases hempty : home.store store = []
  · rw [if_pos hempty]
    have habsent : Inventory.of (Option.mapM f none) = .ok .absent := rfl
    rw [habsent, Except.ok.injEq]
    constructor
    · rintro ⟨rfl, -⟩
      exact .inl ⟨hempty, rfl⟩
    · rintro (⟨-, rfl⟩ | ⟨hne, -⟩)
      · exact ⟨rfl, hempty⟩
      · exact absurd hempty hne
  · rw [if_neg hempty]
    cases hf : f (home.store store) with
    | ok entries =>
      have hready : Inventory.of (Option.mapM f (some (home.store store))) = .ok
          (.ready entries) := by
        rw [Option.mapM_some, hf]
        rfl
      rw [hready, Except.ok.injEq]
      constructor
      · rintro ⟨rfl, -⟩
        exact .inr ⟨hempty, entries, rfl, rfl⟩
      · rintro (⟨hnil, -⟩ | ⟨-, _, heq, rfl⟩)
        · exact absurd hnil hempty
        · rw [Except.ok.inj heq]
          exact ⟨rfl, hempty⟩
    | error e =>
      have hmap : Option.mapM f (some (home.store store)) = .error e := by
        rw [Option.mapM_some, hf]
        rfl
      rw [hmap]
      constructor
      · rintro ⟨hinventory, hsettled⟩
        cases e with
        | value message =>
          obtain rfl := Except.ok.inj hinventory
          cases hsettled
        | other kind message => cases hinventory
      · rintro (⟨hnil, -⟩ | ⟨-, _, heq, -⟩)
        · exact absurd hnil hempty
        · cases heq

/-- A journal that is accepted is inventoried. -/
theorem exists_journalInventory (h : home.Private m.uid) (hruns : home.EmptyRuns)
    (haccepted : verifyArchivedOperationJournal m home.members = .ok intents) :
    ∃ journal, journalInventory m home = .ok journal ∧ journal.Settled (home.store journalName) ∧
      journal.entries.Perm (intents.map Prod.snd) := by
  obtain ⟨hfiles, hfits⟩ := (verifyArchivedOperationJournal_eq_ok_iff h).mp haccepted
  by_cases hempty : home.store journalName = []
  · obtain ⟨hinventory, hsettled⟩ :=
      (settled_iff (openHome_eq_ok h) h (.inl rfl)).mpr (.inl ⟨hempty, rfl⟩)
    refine ⟨.absent, hinventory, hsettled, ?_⟩
    rw [Home.files, hempty] at hfiles
    cases hfiles
    exact .nil
  · obtain ⟨records, hrecords, hperm⟩ := journalCensus_of_intentFiles hfiles hruns h hfits
    obtain ⟨hinventory, hsettled⟩ :=
      (settled_iff (openHome_eq_ok h) h (.inl rfl)).mpr (.inr ⟨hempty, records, hrecords, rfl⟩)
    exact ⟨.ready records, hinventory, hsettled, hperm⟩

theorem exists_archivedJournal (h : home.Private m.uid) {journal : Inventory IntentRecord}
    (hinventory : journalInventory m home = .ok journal)
    (hsettled : journal.Settled (home.store journalName)) :
    home.EmptyRuns ∧ ∃ intents, verifyArchivedOperationJournal m home.members = .ok intents := by
  simp only [verifyArchivedOperationJournal_eq_ok_iff h]
  rcases (settled_iff (openHome_eq_ok h) h (.inl rfl)).mp ⟨hinventory, hsettled⟩ with
    ⟨hempty, -⟩ | ⟨-, records, hrecords, -⟩
  · rw [Home.files, hempty]
    exact ⟨⟨by simp [hempty], by simp [hempty, listing]⟩, [], .nil, fits_nil⟩
  · exact ⟨emptyRuns_of_journalCensus h hrecords, intentFiles_of_journalCensus h hrecords⟩

/-- The operations that are accepted, as the archive has them and as they are read in place. -/
theorem map_archivedOperation {xs : List ((Digest × Digest) × Phase × Value)}
    (hintents : List.Forall₂ (IntentFile m) (home.files journalName) intents)
    (hfiles : List.Forall₂ (PhaseFile m) (home.files executionName) xs)
    (hfilled : home.Filled executionName) (h : home.Private m.uid)
    (hempty : m.loadsUnique [] = none)
    (hread : ∀ operation ∈ group xs, ∃ chain, OperationRead m intents operation chain) :
    ∃ operations : List Operation,
      (group xs).map (archivedOperation m intents) = operations.map .ok ∧
        ((group xs).map Prod.fst).map
          (fun p => executionEntry m home (home.store executionName) p.1 p.2) =
            operations.map .ok := by
  have hboth : ∀ operation ∈ group xs, ∃ o, archivedOperation m intents operation = .ok o ∧
      executionEntry m home (home.store executionName) operation.1.1 operation.1.2 = .ok o := by
    intro operation hmem
    obtain ⟨heq, hkey⟩ := mem_keys_of_mem_group hmem
    obtain ⟨chain, hchain⟩ := hread operation hmem
    have hread' := hchain
    rw [heq] at hread'
    obtain ⟨dispatch, hdispatch, hentry⟩ :=
      executionEntry_of_operationRead hfiles hfilled hintents h hempty hkey hread'
    obtain ⟨intent, hlookup, hvalid, -⟩ := hchain
    refine ⟨_, ?_, hentry⟩
    simp only [archivedOperation, hlookup, hvalid, hdispatch, ofOption, ok_bind]
    rfl
  obtain ⟨operations, hoperations⟩ := exists_map_eq_ok_iff.mpr fun operation hmem => by
    obtain ⟨o, ho, -⟩ := hboth operation hmem
    exact ⟨o, ho⟩
  refine ⟨operations, hoperations, ?_⟩
  rw [List.map_map, ← hoperations]
  apply List.map_congr_left
  intro operation hmem
  obtain ⟨o, ho, hentry⟩ := hboth operation hmem
  rw [ho]
  exact hentry

/-- Executions that are accepted are inventoried. -/
theorem exists_executionInventory (h : home.Private m.uid) (hempty : m.loadsUnique [] = none)
    (hfilled : home.Filled executionName)
    (hjournal : verifyArchivedOperationJournal m home.members = .ok intents)
    (haccepted : verifyArchivedPatchExecution m intents home.members = .ok ()) :
    ∃ executions, executionInventory m home = .ok executions ∧
      executions.Settled (home.store executionName) ∧
        ∃ operations, archivedOperations m home.members intents = .ok operations ∧
          executions.entries.Perm operations := by
  obtain ⟨hintents, -⟩ := (verifyArchivedOperationJournal_eq_ok_iff h).mp hjournal
  obtain ⟨xs, hfiles, hread, hfits⟩ := (verifyArchivedPatchExecution_eq_ok_iff h).mp haccepted
  obtain ⟨archived, harchived, hentries⟩ :=
    map_archivedOperation hintents hfiles hfilled h hempty hread
  have hgroup : home.members.foldlM (addRecord m) [] = .ok (group xs) := by
    refine (addRecord_members_eq_ok_iff h).mpr ⟨xs, hfiles, rfl, ?_⟩
    rw [← List.length_map Prod.fst]
    exact hfits.1
  have hoperations : archivedOperations m home.members intents = .ok archived := by
    rw [archivedOperations, hgroup, ok_bind]
    exact mapM_eq_ok_iff.mpr harchived
  by_cases hnone : home.store executionName = []
  · obtain ⟨hinventory, hsettled⟩ :=
      (settled_iff (openHome_eq_ok h) h (.inr rfl)).mpr (.inl ⟨hnone, rfl⟩)
    refine ⟨.absent, hinventory, hsettled, archived, hoperations, ?_⟩
    rw [Home.files, hnone] at hfiles
    cases hfiles
    rw [List.map_eq_nil_iff.mp harchived.symm]
    exact .nil
  · obtain ⟨operations, hcensus⟩ :=
      executionCensus_of_phaseFiles hfiles hfilled hintents h hempty hnone hread hfits
    obtain ⟨hinventory, hsettled⟩ := (settled_iff (openHome_eq_ok h) h (.inr rfl)).mpr
      (.inr ⟨hnone, operations, hcensus, rfl⟩)
    have hmap := ((executionCensus_eq_ok_iff h).mp hcensus).2.2.2.1
    exact ⟨.ready operations, hinventory, hsettled, archived, hoperations,
      perm_of_map_eq_ok hmap hentries (perm_keys_group hfiles hfilled).symm⟩

/-- Executions that are inventoried are accepted. -/
theorem verifyArchivedPatchExecution_of_inventory (h : home.Private m.uid)
    (hempty : m.loadsUnique [] = none)
    (hjournal : verifyArchivedOperationJournal m home.members = .ok intents)
    {executions : Inventory Operation} (hinventory : executionInventory m home = .ok executions)
    (hsettled : executions.Settled (home.store executionName)) :
    home.Filled executionName ∧ verifyArchivedPatchExecution m intents home.members = .ok () := by
  obtain ⟨hintents, -⟩ := (verifyArchivedOperationJournal_eq_ok_iff h).mp hjournal
  rw [verifyArchivedPatchExecution_eq_ok_iff h]
  rcases (settled_iff (openHome_eq_ok h) h (.inr rfl)).mp ⟨hinventory, hsettled⟩ with
    ⟨hnone, -⟩ | ⟨-, operations, hoperations, -⟩
  · rw [Home.files, hnone]
    exact ⟨by simp [Home.Filled, hnone], [], .nil, by simp [group], fits_nil⟩
  · obtain ⟨xs, hfiles⟩ := phaseFiles_of_executionCensus h hoperations
    have hfilled := filled_of_executionCensus h hoperations
    exact ⟨hfilled, xs, hfiles,
      operationsRead_of_executionCensus hfiles hfilled hintents h hempty hoperations⟩

end Agreement

/-! ### Homes with an intent -/

namespace Executed

open Archive.Scenario

def sha256 : Value := text (String.ofList zeros)

def baseline : Value := object [("sha256", sha256), ("size_bytes", nat 0)]

def binding : Value := object [("project_id", text "p"), ("writer_key", text "w"),
  ("task_id", text "t"), ("run_id", text "r"), ("attempt", nat 1)]

def request : Value := object [("binding", binding), ("operation_id", text "o"),
  ("kind", text "file.patch"), ("target", text "a"), ("max_output_bytes", nat 1),
  ("schema_version", nat 1)]

def replacement : Value := object [("schema_version", nat 1), ("baseline", baseline),
  ("sha256", sha256), ("size_bytes", nat 1)]

def createdAt : Value := text "2024-01-01T00:00:00.000000Z"

def intent : Value := object [("schema_version", nat 1), ("state", text "INTENT_RECORDED"),
  ("request", request), ("replacement", replacement), ("fingerprint", sha256),
  ("created_at", createdAt)]

def pair : Value := .arr [nat 1, nat 2]

def anchors : Value := object [("root", pair), ("parents", .arr [pair]), ("parent", pair)]

def identity : Value := object [("dev", nat 1), ("ino", nat 3), ("mode", nat 0o100644),
  ("uid", nat 501), ("gid", nat 20), ("nlink", nat 1), ("size", nat 0), ("mtime_ns", nat 0),
  ("ctime_ns", nat 0), ("flags", nat 0)]

def original : Value := object [("identity", identity), ("sha256", sha256), ("size_bytes", nat 0),
  ("xattrs_digest", sha256)]

def tempName : List Char := tempPrefix ++ List.replicate 32 '0' ++ tempSuffix

def dispatch : Value := object [("schema_version", nat 1), ("phase", text "DISPATCH"),
  ("request", request), ("intent_fingerprint", sha256), ("created_at", createdAt),
  ("anchors", anchors), ("original", original), ("temp_name", text (String.ofList tempName))]

/-- A reader of one intent and of the dispatch of it. -/
def reader : Archive.Reader where
  uid := 501
  modeLimit := 2 ^ 16
  digests := digests
  members _ := none
  loads _ := .malformed
  loadsUnique bytes :=
    if bytes = [0] then some intent else if bytes = [1] then some dispatch else none
  database _ := none

def intentLeaf (nlink : ℕ) : List Name × Option File :=
  ([runtimeName, journalName, zeros, intentFile zeros], some ⟨⟨501, 0o600, nlink⟩, [0]⟩)

def operationPath : List Name := [runtimeName, executionName, zeros, zeros]

def dispatchLeaf : List Name × Option File :=
  (operationPath ++ [(phaseFile .dispatch).toList], some ⟨⟨501, 0o600, 1⟩, [1]⟩)

def runLeaf : List Name × Option File :=
  ([runtimeName, journalName, List.replicate 64 'f'], none)

def directory (_ : List Name) : Info := ⟨501, 0o700, 2⟩

/-- The intent has been dispatched, and the directory of another run is empty. -/
def dispatched : Home where
  tree := [intentLeaf 1, dispatchLeaf, runLeaf]
  directory := directory
  proper := by decide
  named := by decide
  stores := by decide

/-- Nothing has been executed. -/
def intended : Home where
  tree := [intentLeaf 1]
  directory := directory
  proper := by decide
  named := by decide
  stores := by decide

/-- The file of the intent has a second name. -/
def linked : Home where
  tree := [intentLeaf 2]
  directory := directory
  proper := by decide
  named := by decide
  stores := by decide

/-- The dispatch was refused when the directory of the operation was made. -/
def refused : Home where
  tree := [intentLeaf 1, (operationPath, none)]
  directory := directory
  proper := by decide
  named := by decide
  stores := by decide

theorem dispatched_private : dispatched.Private 501 where
  directory _ := ⟨rfl, rfl⟩
  file := by
    have hfiles : ∀ e ∈ dispatched.files journalName ++ dispatched.files executionName,
        e.2.info.uid = 501 ∧ e.2.info.mode = 0o600 ∧ e.2.info.nlink = 1 := by decide
    exact hfiles

theorem emptyRuns_dispatched : dispatched.EmptyRuns where
  run path hpath := by
    have hempty : ∀ e ∈ dispatched.store journalName, e.2.isNone →
        e.1 = [List.replicate 64 'f'] := by decide
    exact .inr ⟨_, by decide, hempty _ hpath rfl⟩
  limit := by decide

theorem filled_dispatched : dispatched.Filled executionName := by
  have hsome : ∀ e ∈ dispatched.store executionName, e.2.isSome := by decide
  intro path hpath
  cases hsome _ hpath

theorem accepted_of_isOk {members : List Member}
    (h : (verifyArchivedOperationJournal reader members >>= fun intents =>
      verifyArchivedPatchExecution reader intents members).isOk) :
    ∃ intents, verifyArchivedOperationJournal reader members = .ok intents ∧
      verifyArchivedPatchExecution reader intents members = .ok () := by
  cases haccepted : (verifyArchivedOperationJournal reader members >>= fun intents =>
      verifyArchivedPatchExecution reader intents members) with
  | error e =>
    rw [haccepted] at h
    cases h
  | ok u => exact bind_eq_ok_iff.mp haccepted

theorem accepted_intended : ∃ intents,
    verifyArchivedOperationJournal reader intended.members = .ok intents ∧
      verifyArchivedPatchExecution reader intents intended.members = .ok () :=
  accepted_of_isOk (by decide +kernel)

def isReady {α : Type} : Checked (Inventory α) → Bool
  | .ok (.ready _) => true
  | _ => false

theorem not_ready_of_isReady {α : Type} {inventory : Checked (Inventory α)}
    (h : isReady inventory = false) : ¬ ∃ entries, inventory = .ok (.ready entries) := by
  rintro ⟨entries, rfl⟩
  cases h

end Executed

end OrchKit.Archive
