import OrchKit.Archive.Reading

/-! # Reading executions in place

What the inventory accepts of the executions in a home. The directory of an operation holds the
files of its phases, and the records in them are those that the archive has of the operation, in
another order, which makes no difference to whether they are a chain. -/

namespace OrchKit.Archive

open Except Json Bridge Files

/-! ### Executions -/

section Execution

variable {m : Reader} {home : Home} {key : Digest × Digest} {t : Tree} {phase : Phase}
  {v : Value} {r : PhaseRecord} {records : List PhaseRecord} {name run : Name}
  {u : Unit} {xs : List ((Digest × Digest) × Phase × Value)}

theorem execution_private (h : home.Private m.uid) :
    ∀ e ∈ filesOf (home.store executionName), e.2.info.Private m.uid :=
  fun e he => h.file e (List.mem_append_right _ he)

theorem readPhaseRecord_eq_ok_iff (hproper : Proper t)
    (h : ∀ e ∈ filesOf t, e.2.info.Private m.uid) : readPhaseRecord m t phase = .ok r ↔
      r.phase = phase ∧ readRecord m.toVerifier r.value = .ok r.record ∧
        ∃ x, ([(phaseFile phase).toList], some x) ∈ t ∧ 0 < x.bytes.length ∧
          ReadsValue m x.bytes r.value := by
  simp only [readPhaseRecord, bind_eq_ok_iff, ofOption_eq_ok_iff, pure_eq_ok_iff,
    readExecutionBytes_eq_ok_iff hproper.child (child_private h), filesOf_child,
    hproper.filesOf.child_eq_iff, mem_filesOf]
  constructor
  · rintro ⟨_, ⟨x, hx, rfl, hpos, hsize⟩, v, hv, record, hrecord, rfl⟩
    exact ⟨rfl, hrecord, x, hx, hpos, hsize, hv⟩
  · rintro ⟨rfl, hrecord, x, hx, hpos, hsize, hv⟩
    exact ⟨_, ⟨x, hx, rfl, hpos, hsize⟩, r.value, hv, r.record, hrecord, rfl⟩

theorem readPhaseRecords_eq_ok_iff : readPhaseRecords m t = .ok records ↔
    (listing t).length ≤ 3 ∧
      (∀ name ∈ listing t, name ∈ phases.map fun phase => (phaseFile phase).toList) ∧
        (phasesIn t).map (readPhaseRecord m t) = records.map .ok ∧ records.length ≠ 0 := by
  simp only [readPhaseRecords, checkNames, bind_eq_ok_iff, require_eq_ok_iff, mapM_eq_ok_iff,
    pure_eq_ok_iff]
  constructor
  · rintro ⟨_, hlength, _, hnames, _, hrecords, _, hne, rfl⟩
    exact ⟨hlength, hnames, hrecords, hne⟩
  · rintro ⟨hlength, hnames, hrecords, hne⟩
    exact ⟨(), hlength, (), hnames, records, hrecords, (), hne, rfl⟩

theorem mem_phases : phase ∈ phases := by
  cases phase <;> decide

theorem mem_phasesIn : phase ∈ phasesIn t ↔ (phaseFile phase).toList ∈ listing t := by
  simp [phasesIn, mem_phases]

theorem nodup_phasesIn : (phasesIn t).Nodup :=
  List.Nodup.filter _ (by decide)

theorem map_phase_of_readPhaseRecords (hproper : Proper t)
    (h : ∀ e ∈ filesOf t, e.2.info.Private m.uid)
    (hrecords : (phasesIn t).map (readPhaseRecord m t) = records.map .ok) :
    records.map PhaseRecord.phase = phasesIn t := by
  generalize phasesIn t = ps at hrecords
  induction ps generalizing records with
  | nil => rw [List.map_eq_nil_iff.mp hrecords.symm, List.map_nil]
  | cons phase ps ih =>
    cases records with
    | nil => cases hrecords
    | cons r records =>
      obtain ⟨hr, hrest⟩ := List.cons.inj hrecords
      rw [List.map_cons, ih hrest, ((readPhaseRecord_eq_ok_iff hproper h).mp hr).1]

theorem dispatchRequest_eq_ok_iff {request : WorkerOperationRequest} :
    dispatchRequest records = .ok request ↔
      ∃ r, (records.find? fun r => r.phase = .dispatch) = some r ∧
        r.record.base.request = request := by
  simp only [dispatchRequest, bind_eq_ok_iff, ofOption_eq_ok_iff, pure_eq_ok_iff]

theorem executionRun_eq_ok_iff (h : home.Private m.uid) : executionRun m home t run = .ok u ↔
    isDigest run ∧ fileAt (child t run) = none ∧
      (listing (child t run)).length ≤ executionMaxOperationsPerRun ∧
        listing (child t run) ≠ [] := by
  simp only [executionRun, checkNames, bind_eq_ok_iff, require_eq_ok_iff, directoryAt_eq_ok_iff h,
    exists_and_left, exists_const]

theorem executionCensus_eq_ok_iff (h : home.Private m.uid) {operations : List Operation} :
    executionCensus m home t = .ok operations ↔ (listing t).length ≤ executionMaxOperations ∧
      listing t ≠ [] ∧ (∀ run ∈ listing t, isDigest run ∧ fileAt (child t run) = none ∧
        (listing (child t run)).length ≤ executionMaxOperationsPerRun ∧
          listing (child t run) ≠ []) ∧
        (pairs t).map (fun p => executionEntry m home t p.1 p.2) = operations.map .ok ∧
          operations.length ≤ executionMaxOperations := by
  simp only [executionCensus, checkNames, bind_eq_ok_iff, require_eq_ok_iff, census_eq_ok_iff,
    executionRun_eq_ok_iff h, exists_and_left, exists_const]

theorem executionEntry_eq_ok_iff (h : home.Private m.uid) {operation : Name} {o : Operation} :
    executionEntry m home t run operation = .ok o ↔ isDigest operation ∧
      fileAt (child (child t run) operation) = none ∧
        readOperation m home (run, operation) (child (child t run) operation) = .ok o.chain ∧
          ∃ dispatch, o.chain.dispatch = some dispatch ∧
            o.runId = dispatch.request.binding.runId ∧
              o.operationId = dispatch.request.operationId := by
  simp only [executionEntry, bind_eq_ok_iff, require_eq_ok_iff, directoryAt_eq_ok_iff h,
    ofOption_eq_ok_iff, pure_eq_ok_iff]
  constructor
  · rintro ⟨_, hdigest, _, hdirectory, chain, hchain, dispatch, hdispatch, rfl⟩
    exact ⟨hdigest, hdirectory, hchain, dispatch, hdispatch, rfl, rfl⟩
  · rintro ⟨hdigest, hdirectory, hchain, dispatch, hdispatch, hrun, hoperation⟩
    refine ⟨(), hdigest, (), hdirectory, o.chain, hchain, dispatch, hdispatch, ?_⟩
    rw [← hrun, ← hoperation]

theorem readOperation_eq_ok_iff {chain : Chain} : readOperation m home key t = .ok chain ↔
    ∃ records request intent, readPhaseRecords m t = .ok records ∧
      dispatchRequest records = .ok request ∧ isHashable request.binding.runId ∧
        isHashable request.operationId ∧ identifies m key request ∧
          recordedIntent m home request.binding.runId request.operationId = .ok intent ∧
            validateExecutionRecords m.toVerifier intent
              (records.map fun r => (r.phase, r.value)) = .ok chain := by
  simp only [readOperation, bind_eq_ok_iff, checkIdentifiers_eq_ok_iff]
  constructor
  · rintro ⟨records, hrecords, request, hrequest, _, ⟨hrun, hoperation, hidentifies⟩,
      intent, hintent, hchain⟩
    exact ⟨records, request, intent, hrecords, hrequest, hrun, hoperation, hidentifies, hintent,
      hchain⟩
  · rintro ⟨records, request, intent, hrecords, hrequest, hrun, hoperation, hidentifies, hintent,
      hchain⟩
    exact ⟨records, hrecords, request, hrequest, (), ⟨hrun, hoperation, hidentifies⟩,
      intent, hintent, hchain⟩

/-! ### The records of an operation -/

def Home.Filled (home : Home) (store : Name) : Prop := ∀ path, (path, none) ∉ home.store store

theorem Home.Filled.exists_file {store : Name} (h : home.Filled store) {path : List Name}
    {leaf : Option File} (hmem : (path, leaf) ∈ home.store store) :
    ∃ x, (path, x) ∈ home.files store := by
  cases leaf with
  | none => exact absurd hmem (h path)
  | some x => exact ⟨x, mem_store.mp hmem⟩

section Records

variable (hfiles : List.Forall₂ (PhaseFile m) (home.files executionName) xs)

include hfiles

theorem paths_of_phaseFiles : (home.files executionName).map Prod.fst = xs.map recordPath :=
  map_eq_of_forall₂ (fun _ _ hfile => hfile.path) hfiles

theorem nodup_recordPaths : (xs.map recordPath).Nodup := by
  have hproper : Proper (home.files executionName) := Home.proper_files
  rw [← paths_of_phaseFiles hfiles]
  exact hproper.nodup

theorem nodup_phases_recordsOf : ((recordsOf xs key).map Prod.fst).Nodup := by
  have hpaths := nodup_recordPaths hfiles
  rw [List.Nodup, List.pairwise_map] at hpaths ⊢
  apply List.Pairwise.filterMap _ _ hpaths
  intro x y hne p hp q hq heq
  simp only [Option.ite_none_right_eq_some, Option.some.injEq] at hp hq
  obtain ⟨hx, rfl⟩ := hp
  obtain ⟨hy, rfl⟩ := hq
  exact hne (recordPath_eq_iff.mpr ⟨hx.trans hy.symm, heq⟩)

theorem record_unique {v' : Value} (h : (key, phase, v) ∈ xs) (h' : (key, phase, v') ∈ xs) :
    v = v' := by
  have heq := List.inj_on_of_nodup_map (nodup_recordPaths hfiles) h h' rfl
  simpa using heq

theorem mem_records_iff : (∃ v, (key, phase, v) ∈ xs) ↔
    ∃ x, ([key.1, key.2, (phaseFile phase).toList], x) ∈ home.files executionName := by
  constructor
  · rintro ⟨v, hmem⟩
    obtain ⟨⟨path, x⟩, he, hfile⟩ := exists_left_of_forall₂ hfiles hmem
    obtain rfl : path = [key.1, key.2, (phaseFile phase).toList] := hfile.path
    exact ⟨x, he⟩
  · rintro ⟨x, he⟩
    obtain ⟨⟨key', phase', v⟩, hmem, hfile⟩ := exists_right_of_forall₂ hfiles he
    have hpath : recordPath (key, phase, v) = recordPath (key', phase', v) := hfile.path
    obtain ⟨hkey, hphase⟩ := recordPath_eq_iff.mp hpath
    exact ⟨v, by rw [show key = key' from hkey, show phase = phase' from hphase]; exact hmem⟩

theorem readPhaseRecord_store_eq_ok_iff (h : home.Private m.uid)
    (hempty : m.loadsUnique [] = none) :
    readPhaseRecord m (child (child (home.store executionName) key.1) key.2) phase = .ok r ↔
      r.phase = phase ∧ readRecord m.toVerifier r.value = .ok r.record ∧
        (key, phase, r.value) ∈ xs := by
  have hproper : Proper (home.store executionName) := Home.proper_store
  rw [readPhaseRecord_eq_ok_iff hproper.child.child
    (child_private (child_private (execution_private h)))]
  apply and_congr_right
  intro _
  apply and_congr_right
  intro _
  constructor
  · rintro ⟨x, hx, -, hreads⟩
    have hmem := mem_store.mp (mem_child.mp (mem_child.mp hx))
    obtain ⟨⟨key', phase', v⟩, hxs, hfile⟩ := exists_right_of_forall₂ hfiles hmem
    have hpath : recordPath (key, phase, v) = recordPath (key', phase', v) := hfile.path
    obtain ⟨hkey, hphase⟩ := recordPath_eq_iff.mp hpath
    obtain rfl : key = key' := hkey
    obtain rfl : phase = phase' := hphase
    obtain rfl := hreads.unique hfile.reads
    exact hxs
  · intro hxs
    obtain ⟨⟨path, x⟩, he, hfile⟩ := exists_left_of_forall₂ hfiles hxs
    obtain rfl : path = [key.1, key.2, (phaseFile phase).toList] := hfile.path
    refine ⟨x, mem_child.mpr (mem_child.mpr (mem_store.mpr he)), ?_, hfile.reads⟩
    -- An empty file is no JSON.
    apply List.length_pos_iff.mpr
    intro hnil
    have hv := hfile.reads.2
    rw [hnil, hempty] at hv
    cases hv

section Filled

variable (hfilled : home.Filled executionName)

include hfilled

theorem mem_phasesIn_store :
    phase ∈ phasesIn (child (child (home.store executionName) key.1) key.2) ↔
      ∃ v, (key, phase, v) ∈ xs := by
  rw [mem_phasesIn, mem_listing, mem_records_iff hfiles]
  constructor
  · rintro ⟨rest, leaf, hleaf⟩
    obtain ⟨x, hmem⟩ := hfilled.exists_file (mem_child.mp (mem_child.mp hleaf))
    obtain ⟨y, -, hfile⟩ := exists_right_of_forall₂ hfiles hmem
    have hlength := congrArg List.length hfile.path
    obtain rfl : rest = [] := List.length_eq_zero_iff.mp (by simpa using hlength)
    exact ⟨x, hmem⟩
  · rintro ⟨x, hx⟩
    exact ⟨[], some x, mem_child.mpr (mem_child.mpr (mem_store.mpr hx))⟩

/-- The records that are read in place are those of the operation. -/
theorem perm_recordsOf (h : home.Private m.uid) (hempty : m.loadsUnique [] = none)
    (hrecords : readPhaseRecords m (child (child (home.store executionName) key.1) key.2) =
      .ok records) :
    (records.map fun r => (r.phase, r.value)).Perm (recordsOf xs key) := by
  have hproper : Proper (home.store executionName) := Home.proper_store
  obtain ⟨-, -, hread, -⟩ := readPhaseRecords_eq_ok_iff.mp hrecords
  have hphases := map_phase_of_readPhaseRecords hproper.child.child
    (child_private (child_private (execution_private h))) hread
  have hmem {r : PhaseRecord} (hr : r ∈ records) : (key, r.phase, r.value) ∈ xs := by
    have hok : Except.ok r ∈ (phasesIn (child (child (home.store executionName) key.1) key.2)).map
        (readPhaseRecord m (child (child (home.store executionName) key.1) key.2)) :=
      hread ▸ List.mem_map_of_mem hr
    obtain ⟨phase, -, heq⟩ := List.mem_map.mp hok
    obtain ⟨rfl, -, hxs⟩ := (readPhaseRecord_store_eq_ok_iff hfiles h hempty).mp heq
    exact hxs
  have hnodup : (records.map fun r => (r.phase, r.value)).Nodup := by
    have hfirst : (records.map fun r => (r.phase, r.value)).map Prod.fst =
        records.map PhaseRecord.phase := by
      rw [List.map_map]
      rfl
    apply List.Nodup.of_map Prod.fst
    rw [hfirst, hphases]
    exact nodup_phasesIn
  apply (List.perm_ext_iff_of_nodup hnodup (nodup_phases_recordsOf hfiles).of_map).mpr
  rintro ⟨phase, v⟩
  rw [mem_recordsOf]
  constructor
  · intro hpair
    obtain ⟨r, hr, heq⟩ := List.mem_map.mp hpair
    obtain ⟨rfl, rfl⟩ := Prod.mk.inj heq
    exact hmem hr
  · intro hxs
    have hphase := (mem_phasesIn_store hfiles hfilled).mpr ⟨v, hxs⟩
    rw [← hphases] at hphase
    obtain ⟨r, hr, rfl⟩ := List.mem_map.mp hphase
    obtain rfl := record_unique hfiles hxs (hmem hr)
    exact List.mem_map_of_mem hr

/-- An operation whose records can all be read is read in place. -/
theorem exists_readPhaseRecords (h : home.Private m.uid) (hempty : m.loadsUnique [] = none)
    (hsome : ∃ phase v, (key, phase, v) ∈ xs)
    (hread : ∀ phase v, (key, phase, v) ∈ xs → ∃ record, readRecord m.toVerifier v = .ok record) :
    ∃ records, readPhaseRecords m (child (child (home.store executionName) key.1) key.2) =
      .ok records := by
  have hnames : ∀ name ∈ listing (child (child (home.store executionName) key.1) key.2),
      name ∈ phases.map fun phase => (phaseFile phase).toList := by
    intro name hname
    obtain ⟨rest, leaf, hleaf⟩ := mem_listing.mp hname
    obtain ⟨x, hx⟩ := hfilled.exists_file (mem_child.mp (mem_child.mp hleaf))
    obtain ⟨y, -, hfile⟩ := exists_right_of_forall₂ hfiles hx
    have hpath : key.1 :: key.2 :: name :: rest = [y.1.1, y.1.2, (phaseFile y.2.1).toList] :=
      hfile.path
    simp only [List.cons.injEq] at hpath
    exact List.mem_map.mpr ⟨y.2.1, mem_phases, hpath.2.2.1.symm⟩
  have hlength := (List.subperm_of_subset nodup_listing hnames).length_le
  have hall : ∀ phase ∈ phasesIn (child (child (home.store executionName) key.1) key.2),
      ∃ r, readPhaseRecord m (child (child (home.store executionName) key.1) key.2) phase =
        .ok r := by
    intro phase hphase
    obtain ⟨v, hxs⟩ := (mem_phasesIn_store hfiles hfilled).mp hphase
    obtain ⟨record, hrecord⟩ := hread phase v hxs
    exact ⟨⟨phase, v, record⟩,
      (readPhaseRecord_store_eq_ok_iff hfiles h hempty).mpr ⟨rfl, hrecord, hxs⟩⟩
  obtain ⟨records, hrecords⟩ := exists_map_eq_ok_iff.mpr hall
  obtain ⟨phase, v, hxs⟩ := hsome
  have hpos : (phasesIn (child (child (home.store executionName) key.1) key.2)).length ≠ 0 :=
    List.length_pos_iff.mpr
      (List.ne_nil_of_mem ((mem_phasesIn_store hfiles hfilled).mpr ⟨v, hxs⟩)) |>.ne'
  have hlengths := congrArg List.length hrecords
  rw [List.length_map, List.length_map] at hlengths
  exact ⟨records, readPhaseRecords_eq_ok_iff.mpr ⟨hlength, hnames, hrecords, hlengths ▸ hpos⟩⟩

/-- The request is that of the dispatch, which all records have. -/
theorem dispatchRequest_of_records (h : home.Private m.uid) (hempty : m.loadsUnique [] = none)
    (hrecords : readPhaseRecords m (child (child (home.store executionName) key.1) key.2) =
      .ok records) (hdispatch : (key, .dispatch, v) ∈ xs) {request : WorkerOperationRequest}
    (hread : ∀ phase v, (key, phase, v) ∈ xs →
      ∃ record, readRecord m.toVerifier v = .ok record ∧ record.base.request = request) :
    dispatchRequest records = .ok request := by
  have hperm := perm_recordsOf hfiles hfilled h hempty hrecords
  obtain ⟨r, hr, heq⟩ := List.mem_map.mp (hperm.mem_iff.mpr (mem_recordsOf.mpr hdispatch))
  have hfind : (records.find? fun r => r.phase = .dispatch).isSome := by
    rw [List.find?_isSome]
    exact ⟨r, hr, decide_eq_true (Prod.mk.inj heq).1⟩
  obtain ⟨first, hfirst⟩ := Option.isSome_iff_exists.mp hfind
  have hmem := List.mem_of_find?_eq_some hfirst
  obtain ⟨record, hrecord, hrequest⟩ := hread _ _
    (mem_recordsOf.mp (hperm.mem_iff.mp (List.mem_map_of_mem hmem)))
  obtain ⟨-, -, hmap, -⟩ := readPhaseRecords_eq_ok_iff.mp hrecords
  have hok : Except.ok first ∈ (phasesIn (child (child (home.store executionName) key.1) key.2)).map
      (readPhaseRecord m (child (child (home.store executionName) key.1) key.2)) :=
    hmap ▸ List.mem_map_of_mem hmem
  obtain ⟨phase, -, hphase⟩ := List.mem_map.mp hok
  obtain ⟨-, hrecord', -⟩ := (readPhaseRecord_store_eq_ok_iff hfiles h hempty).mp hphase
  refine dispatchRequest_eq_ok_iff.mpr ⟨first, hfirst, ?_⟩
  rw [Except.ok.inj (hrecord'.symm.trans hrecord)]
  exact hrequest

section Intents

variable {intents : Intents} {chain : Chain}
  (hintents : List.Forall₂ (IntentFile m) (home.files journalName) intents)

include hintents

/-- An operation that is read in place is accepted in the archive. -/
theorem operationRead_of_executionEntry (h : home.Private m.uid) (hempty : m.loadsUnique [] = none)
    {o : Operation}
    (hentry : executionEntry m home (home.store executionName) key.1 key.2 = .ok o) :
    OperationRead m intents (key, recordsOf xs key) o.chain := by
  obtain ⟨-, -, hread, -⟩ := (executionEntry_eq_ok_iff h).mp hentry
  obtain ⟨records, request, intent, hrecords, -, -, -, hidentifies, hrecorded, hchain⟩ :=
    readOperation_eq_ok_iff.mp hread
  obtain ⟨-, -, hmem⟩ := (recordedIntent_eq_ok_iff hintents h).mp hrecorded
  have hkey : (m.digests.id request.binding.runId, m.digests.id request.operationId) = key := by
    simp only [identifies, Bool.and_eq_true, decide_eq_true_eq] at hidentifies
    exact Prod.ext hidentifies.1 hidentifies.2
  rw [hkey] at hmem
  have hperm := perm_recordsOf hfiles hfilled h hempty hrecords
  have hnodup : ((records.map fun r => (r.phase, r.value)).map Prod.fst).Nodup :=
    (hperm.map Prod.fst).nodup_iff.mpr (nodup_phases_recordsOf hfiles)
  have hvalid := validateExecutionRecords_perm hperm hnodup hchain
  obtain ⟨dispatch, hdispatch, hrequest⟩ :=
    exists_dispatch_of_valid (validateExecutionRecords_eq_ok_iff.mp hchain).2.2.2
  refine ⟨intent, (lookup_eq_some_iff_mem (nodup_keys_intents hintents)).mpr hmem, hvalid, ?_⟩
  rw [hdispatch, Option.all_some, hrequest]
  exact (identifies_of_mem_intents hintents hmem).1

/-- An operation that is accepted in the archive is read in place. -/
theorem executionEntry_of_operationRead (h : home.Private m.uid) (hempty : m.loadsUnique [] = none)
    (hkey : key ∈ xs.map Prod.fst) (hread : OperationRead m intents (key, recordsOf xs key) chain) :
    ∃ dispatch, chain.dispatch = some dispatch ∧
      executionEntry m home (home.store executionName) key.1 key.2 =
        .ok ⟨dispatch.request.binding.runId, dispatch.request.operationId, chain⟩ := by
  obtain ⟨intent, hlookup, hchain, -⟩ := hread
  have hmem := (lookup_eq_some_iff_mem (nodup_keys_intents hintents)).mp hlookup
  obtain ⟨hidentifies, hvalid⟩ := identifies_of_mem_intents hintents hmem
  obtain ⟨hrunHash, hoperationHash⟩ := isHashable_of_valid hvalid
  obtain ⟨hany, -, ⟨rs, hrs, -⟩, hchainValid⟩ := validateExecutionRecords_eq_ok_iff.mp hchain
  obtain ⟨dispatch, hdispatch, -⟩ := exists_dispatch_of_valid hchainValid
  have hlinked (phase : Phase) (v : Value) (hxs : (key, phase, v) ∈ xs) :
      ∃ record, readRecord m.toVerifier v = .ok record ∧ record.base.request = intent.request := by
    obtain ⟨record, hrecord⟩ := exists_map_eq_ok_iff.mp ⟨rs, hrs⟩ _ (mem_recordsOf.mpr hxs)
    obtain ⟨hrecord, -, hrequest, -⟩ := linkedRecord_eq_ok_iff.mp hrecord
    exact ⟨record, hrecord, hrequest⟩
  obtain ⟨⟨key', phase, v⟩, hxs, hkey'⟩ := List.mem_map.mp hkey
  obtain rfl : key' = key := hkey'
  obtain ⟨⟨path, x⟩, he, hfile⟩ := exists_left_of_forall₂ hfiles hxs
  obtain ⟨records, hrecords⟩ := exists_readPhaseRecords hfiles hfilled h hempty ⟨phase, v, hxs⟩
    fun phase v hxs => by
      obtain ⟨record, hrecord, -⟩ := hlinked phase v hxs
      exact ⟨record, hrecord⟩
  have hperm := perm_recordsOf hfiles hfilled h hempty hrecords
  have hdirectory : fileAt (child (child (home.store executionName) key'.1) key'.2) = none := by
    rw [fileAt_eq_none_iff]
    intro y hy
    obtain ⟨z, -, hz⟩ :=
      exists_right_of_forall₂ hfiles (mem_store.mp (mem_child.mp (mem_child.mp hy)))
    have hlength := congrArg List.length hz.path
    simp at hlength
  have hrequest : dispatchRequest records = .ok intent.request := by
    obtain ⟨⟨phase', v'⟩, hentry, hphase⟩ := List.any_eq_true.mp hany
    obtain rfl : phase' = .dispatch := of_decide_eq_true hphase
    exact dispatchRequest_of_records hfiles hfilled h hempty hrecords
      (mem_recordsOf.mp hentry) hlinked
  have hkeyed : (m.digests.id intent.request.binding.runId,
      m.digests.id intent.request.operationId) = key' := by
    simp only [identifies, Bool.and_eq_true, decide_eq_true_eq] at hidentifies
    exact Prod.ext hidentifies.1 hidentifies.2
  refine ⟨dispatch, hdispatch, (executionEntry_eq_ok_iff h).mpr ⟨hfile.operation, hdirectory, ?_,
    dispatch, hdispatch, rfl, rfl⟩⟩
  refine readOperation_eq_ok_iff.mpr ⟨records, intent.request, intent, hrecords, hrequest, hrunHash,
    hoperationHash, hidentifies, ?_, ?_⟩
  · exact (recordedIntent_eq_ok_iff hintents h).mpr ⟨hrunHash, hoperationHash, hkeyed ▸ hmem⟩
  · exact validateExecutionRecords_perm hperm.symm (nodup_phases_recordsOf hfiles) hchain

end Intents

end Filled

end Records

section Census

variable {operations : List Operation} {operation : Name} {rest : List Name} {leaf : Option File}
  (h : home.Private m.uid)
  (hcensus : executionCensus m home (home.store executionName) = .ok operations)

include h hcensus

theorem readPhaseRecords_of_executionCensus
    (hmem : (run :: operation :: rest, leaf) ∈ home.store executionName) :
    isDigest operation ∧ fileAt (child (child (home.store executionName) run) operation) = none ∧
      ∃ records, readPhaseRecords m (child (child (home.store executionName) run) operation) =
        .ok records := by
  obtain ⟨-, -, -, hoperations, -⟩ := (executionCensus_eq_ok_iff h).mp hcensus
  obtain ⟨o, ho⟩ := exists_map_eq_ok_iff.mp ⟨operations, hoperations⟩ (run, operation)
    (mem_pairs.mpr ⟨rest, leaf, hmem⟩)
  obtain ⟨hoperation, hdirectory, hread, -⟩ := (executionEntry_eq_ok_iff h).mp ho
  obtain ⟨records, _, _, hrecords, -⟩ := readOperation_eq_ok_iff.mp hread
  exact ⟨hoperation, hdirectory, records, hrecords⟩

/-- What the census reads in the directory of an operation is the file of a phase. -/
theorem mem_files_of_executionCensus
    (hmem : (run :: operation :: name :: rest, leaf) ∈ home.store executionName) :
    ∃ phase v x, name = (phaseFile phase).toList ∧ rest = [] ∧ leaf = some x ∧
      ReadsValue m x.bytes v := by
  have hproper : Proper (home.store executionName) := Home.proper_store
  obtain ⟨-, -, records, hrecords⟩ := readPhaseRecords_of_executionCensus h hcensus hmem
  obtain ⟨-, hnames, hmap, -⟩ := readPhaseRecords_eq_ok_iff.mp hrecords
  have hbelow : (name :: rest, leaf) ∈ child (child (home.store executionName) run) operation :=
    mem_child.mpr (mem_child.mpr hmem)
  have hname := mem_listing.mpr ⟨rest, leaf, hbelow⟩
  obtain ⟨phase, -, rfl⟩ := List.mem_map.mp (hnames name hname)
  obtain ⟨r, hr⟩ := exists_map_eq_ok_iff.mp ⟨records, hmap⟩ phase (mem_phasesIn.mpr hname)
  obtain ⟨-, -, x, hx, -, hvalue⟩ := (readPhaseRecord_eq_ok_iff hproper.child.child
    (child_private (child_private (execution_private h)))).mp hr
  have hleaf := mem_child.mpr hbelow
  rw [hproper.child.child.child_eq_iff.mpr hx] at hleaf
  obtain ⟨rfl, rfl⟩ := Prod.mk.inj (List.mem_singleton.mp hleaf)
  exact ⟨phase, r.value, x, rfl, rfl, rfl, hvalue⟩

/-- If the census reads the store, nothing in it is empty: at no depth may a directory be. -/
theorem filled_of_executionCensus : home.Filled executionName := by
  have hproper : Proper (home.store executionName) := Home.proper_store
  obtain ⟨-, hlisting, hruns, -, -⟩ := (executionCensus_eq_ok_iff h).mp hcensus
  intro path hpath
  rcases path with _ | ⟨run, _ | ⟨operation, _ | ⟨name, rest⟩⟩⟩
  · rw [hproper.eq_file hpath] at hlisting
    exact hlisting rfl
  · obtain ⟨-, -, -, hrun⟩ := hruns run (mem_listing.mpr ⟨[], none, hpath⟩)
    rw [hproper.child_eq_iff.mpr hpath] at hrun
    exact hrun rfl
  · obtain ⟨-, -, records, hrecords⟩ := readPhaseRecords_of_executionCensus h hcensus hpath
    rw [hproper.child_child_eq_iff.mpr hpath] at hrecords
    obtain ⟨-, -, hmap, hne⟩ := readPhaseRecords_eq_ok_iff.mp hrecords
    have hnone : records.map Except.ok = ([] : List (Checked PhaseRecord)) := hmap.symm
    exact hne (by rw [List.map_eq_nil_iff.mp hnone, List.length_nil])
  · obtain ⟨_, _, _, -, -, hleaf, -⟩ := mem_files_of_executionCensus h hcensus hpath
    cases hleaf

/-- If the census reads the store, all its files are records of executions. -/
theorem phaseFiles_of_executionCensus :
    ∃ xs, List.Forall₂ (PhaseFile m) (home.files executionName) xs := by
  obtain ⟨-, -, hruns, -, -⟩ := (executionCensus_eq_ok_iff h).mp hcensus
  apply exists_forall₂
  rintro ⟨path, x⟩ he
  have hmem := mem_store.mpr he
  have hne : path ≠ [] := Home.ne_nil_of_files (by simp) he
  obtain ⟨run, rest, rfl⟩ := List.exists_cons_of_ne_nil hne
  obtain ⟨hrun, hrunDirectory, -⟩ := hruns run (mem_listing.mpr ⟨rest, some x, hmem⟩)
  rcases rest with _ | ⟨operation, _ | ⟨name, rest⟩⟩
  · exact absurd (mem_child.mpr hmem) (fileAt_eq_none_iff.mp hrunDirectory x)
  · obtain ⟨-, hdirectory, -⟩ := readPhaseRecords_of_executionCensus h hcensus hmem
    exact absurd (mem_child.mpr (mem_child.mpr hmem)) (fileAt_eq_none_iff.mp hdirectory x)
  · obtain ⟨hoperation, -, -⟩ := readPhaseRecords_of_executionCensus h hcensus hmem
    obtain ⟨phase, v, y, rfl, rfl, hleaf, hvalue⟩ := mem_files_of_executionCensus h hcensus hmem
    obtain rfl := Option.some.inj hleaf
    exact ⟨((run, operation), phase, v), rfl, hrun, hoperation, hvalue⟩

end Census

section Group

theorem mem_keys_of_mem_group {operation : (Digest × Digest) × List (Phase × Value)}
    (h : operation ∈ group xs) :
    operation = (operation.1, recordsOf xs operation.1) ∧ operation.1 ∈ xs.map Prod.fst :=
  ⟨Prod.ext rfl (grouped_group.records operation h),
    (grouped_group.mem_keys _).mp (List.mem_map_of_mem h)⟩

variable {intents : Intents} (hfiles : List.Forall₂ (PhaseFile m) (home.files executionName) xs)
  (hfilled : home.Filled executionName)

include hfiles hfilled

/-- The directories are those of the operations. -/
theorem perm_keys_group : ((group xs).map Prod.fst).Perm (pairs (home.store executionName)) := by
  apply (List.perm_ext_iff_of_nodup grouped_group.nodup nodup_pairs).mpr
  rintro ⟨run, operation⟩
  rw [grouped_group.mem_keys, mem_pairs]
  constructor
  · intro hkey
    obtain ⟨y, hy, heq⟩ := List.mem_map.mp hkey
    obtain ⟨⟨path, x⟩, he, hfile⟩ := exists_left_of_forall₂ hfiles hy
    obtain rfl : path = recordPath y := hfile.path
    rw [recordPath, heq] at he
    exact ⟨_, some x, mem_store.mpr he⟩
  · rintro ⟨rest, leaf, hmem⟩
    obtain ⟨x, he⟩ := hfilled.exists_file hmem
    obtain ⟨y, hy, hfile⟩ := exists_right_of_forall₂ hfiles he
    have hpath : run :: operation :: rest = [y.1.1, y.1.2, (phaseFile y.2.1).toList] := hfile.path
    simp only [List.cons.injEq] at hpath
    exact List.mem_map.mpr ⟨y, hy, Prod.ext hpath.1.symm hpath.2.1.symm⟩

theorem length_listing_operations : (listing (child (home.store executionName) run)).length =
    ((group xs).map Prod.fst).countP fun key => key.1 = run := by
  rw [← countP_pairs, (perm_keys_group hfiles hfilled).countP_eq]

variable (hintents : List.Forall₂ (IntentFile m) (home.files journalName) intents)

include hintents

/-- If the archive's operations are accepted, the census has them. -/
theorem executionCensus_of_phaseFiles (h : home.Private m.uid) (hempty : m.loadsUnique [] = none)
    (hne : home.store executionName ≠ [])
    (hread : ∀ operation ∈ group xs, ∃ chain, OperationRead m intents operation chain)
    (hfits : Fits ((group xs).map Prod.fst)) :
    ∃ operations, executionCensus m home (home.store executionName) = .ok operations := by
  have hperm := perm_keys_group hfiles hfilled
  have hentry : ∀ p ∈ pairs (home.store executionName),
      ∃ o, executionEntry m home (home.store executionName) p.1 p.2 = .ok o := by
    intro p hp
    obtain ⟨operation, hmem, rfl⟩ := List.mem_map.mp (hperm.mem_iff.mpr hp)
    obtain ⟨heq, hkey⟩ := mem_keys_of_mem_group hmem
    obtain ⟨chain, hchain⟩ := hread operation hmem
    rw [heq] at hchain
    obtain ⟨dispatch, -, hdispatch⟩ :=
      executionEntry_of_operationRead hfiles hfilled hintents h hempty hkey hchain
    exact ⟨_, hdispatch⟩
  obtain ⟨operations, hoperations⟩ := exists_map_eq_ok_iff.mpr hentry
  have hrun : ∀ a ∈ listing (home.store executionName),
      isDigest a ∧ fileAt (child (home.store executionName) a) = none ∧
        listing (child (home.store executionName) a) ≠ [] := by
    intro a ha
    obtain ⟨rest, leaf, hmem⟩ := mem_listing.mp ha
    obtain ⟨x, he⟩ := hfilled.exists_file hmem
    obtain ⟨y, -, hfile⟩ := exists_right_of_forall₂ hfiles he
    have hpath : a :: rest = [y.1.1, y.1.2, (phaseFile y.2.1).toList] := hfile.path
    obtain ⟨rfl, rfl⟩ := List.cons.inj hpath
    refine ⟨hfile.run, fileAt_eq_none_iff.mpr fun z hz => ?_, ?_⟩
    · obtain ⟨w, -, hw⟩ := exists_right_of_forall₂ hfiles (mem_store.mp (mem_child.mp hz))
      have hlength := congrArg List.length hw.path
      simp at hlength
    · exact List.ne_nil_of_mem (mem_listing.mpr ⟨_, leaf, mem_child.mpr hmem⟩)
  have hlength : (pairs (home.store executionName)).length ≤ executionMaxOperations := by
    rw [← hperm.length_eq]
    exact hfits.1
  have hlisting : listing (home.store executionName) ≠ [] := by
    obtain ⟨⟨path, leaf⟩, hmem⟩ := List.exists_mem_of_ne_nil _ hne
    obtain ⟨x, he⟩ := hfilled.exists_file hmem
    obtain ⟨run, rest, rfl⟩ := List.exists_cons_of_ne_nil (Home.ne_nil_of_files (by simp) he)
    exact List.ne_nil_of_mem (mem_listing.mpr ⟨rest, leaf, hmem⟩)
  have hlengths := congrArg List.length hoperations
  rw [List.length_map, List.length_map] at hlengths
  refine ⟨operations, (executionCensus_eq_ok_iff h).mpr ⟨?_, hlisting, fun run hlisted => ?_,
    hoperations, hlengths ▸ hlength⟩⟩
  · exact (length_listing_le fun a ha => (hrun a ha).2.2).trans hlength
  · refine ⟨(hrun run hlisted).1, (hrun run hlisted).2.1, ?_, (hrun run hlisted).2.2⟩
    rw [length_listing_operations hfiles hfilled]
    exact hfits.2 run

/-- If the census reads the store, the archive's operations are accepted. -/
theorem operationsRead_of_executionCensus (h : home.Private m.uid)
    (hempty : m.loadsUnique [] = none) {operations : List Operation}
    (hcensus : executionCensus m home (home.store executionName) = .ok operations) :
    (∀ operation ∈ group xs, ∃ chain, OperationRead m intents operation chain) ∧
      Fits ((group xs).map Prod.fst) := by
  obtain ⟨-, -, hruns, hoperations, hlimit⟩ := (executionCensus_eq_ok_iff h).mp hcensus
  have hperm := perm_keys_group hfiles hfilled
  refine ⟨fun operation hmem => ?_, ?_, fun run => ?_⟩
  · obtain ⟨o, ho⟩ := exists_map_eq_ok_iff.mp ⟨operations, hoperations⟩ operation.1
      (hperm.mem_iff.mp (List.mem_map_of_mem hmem))
    rw [(mem_keys_of_mem_group hmem).1]
    exact ⟨o.chain, operationRead_of_executionEntry hfiles hfilled hintents h hempty ho⟩
  · have hlengths := congrArg List.length hoperations
    rw [List.length_map, List.length_map] at hlengths
    rw [hperm.length_eq, hlengths]
    exact hlimit
  · rw [← length_listing_operations hfiles hfilled]
    by_cases hrun : run ∈ listing (home.store executionName)
    · exact (hruns run hrun).2.2.1
    · rw [mem_listing_iff_child, not_not] at hrun
      rw [hrun]
      exact Nat.zero_le _

end Group

end Execution

end OrchKit.Archive
