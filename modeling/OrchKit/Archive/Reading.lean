import OrchKit.Archive.Members

/-! # Reading a journal in place

What the inventory accepts of the journal in a home. The checks on directories pass where their
owner has them alone, so what is left is that every name is one that is expected and that every file
can be read. So the inventory is complete when the archive of the home has its journal accepted, and
an intent that is looked up is the one that the archive has under the same digests. -/

namespace OrchKit.Archive

open Except Json Bridge Files

/-! ### Chains -/

section Chains

variable {m : Verifier} {intent : IntentRecord} {chain : Chain}
  {records records' : List (Phase × Value)}

theorem Chain.put_comm {c : Chain} {r r' : ExecutionRecord} (h : r.phase ≠ r'.phase) :
    (c.put r).put r' = (c.put r').put r := by
  cases r <;> cases r' <;> first | rfl | exact absurd rfl h

/-- A record that is one of the intent, in its phase. -/
def linkedRecord (m : Verifier) (intent : IntentRecord) (entry : Phase × Value) :
    Checked ExecutionRecord := do
  let record ← readRecord m entry.2
  require (record.phase = entry.1 ∧ record.base.request = intent.request ∧
    record.base.intentFingerprint = intent.fingerprint)
    (.value "patch_execution_intent_mismatch")
  return record

theorem linkedRecord_eq_ok_iff {entry : Phase × Value} {record : ExecutionRecord} :
    linkedRecord m intent entry = .ok record ↔ readRecord m entry.2 = .ok record ∧
      record.phase = entry.1 ∧ record.base.request = intent.request ∧
        record.base.intentFingerprint = intent.fingerprint := by
  simp only [linkedRecord, bind_eq_ok_iff, require_eq_ok_iff, pure_eq_ok_iff]
  constructor
  · rintro ⟨_, hread, _, hlinked, rfl⟩
    exact ⟨hread, hlinked⟩
  · rintro ⟨hread, hlinked⟩
    exact ⟨record, hread, (), hlinked, rfl⟩

theorem linkRecord_eq_ok_iff {before : Chain} {entry : Phase × Value} :
    linkRecord m intent before entry = .ok chain ↔
      ∃ record, linkedRecord m intent entry = .ok record ∧ chain = before.put record := by
  simp only [linkRecord, linkedRecord_eq_ok_iff, bind_eq_ok_iff, require_eq_ok_iff, pure_eq_ok_iff]
  constructor
  · rintro ⟨record, hread, _, hlinked, rfl⟩
    exact ⟨record, ⟨hread, hlinked⟩, rfl⟩
  · rintro ⟨record, ⟨hread, hlinked⟩, rfl⟩
    exact ⟨record, hread, (), hlinked, rfl⟩

theorem foldlM_linkRecord {before : Chain} :
    records.foldlM (linkRecord m intent) before = .ok chain ↔ ∃ rs : List ExecutionRecord,
      records.map (linkedRecord m intent) = rs.map .ok ∧ chain = rs.foldl Chain.put before := by
  induction records generalizing before with
  | nil =>
    rw [List.foldlM_nil, pure_eq_ok_iff]
    constructor
    · rintro rfl
      exact ⟨[], rfl, rfl⟩
    · rintro ⟨rs, hrs, rfl⟩
      rw [List.map_eq_nil_iff.mp hrs.symm, List.foldl_nil]
  | cons entry records ih =>
    simp only [List.foldlM_cons, bind_eq_ok_iff, linkRecord_eq_ok_iff, List.map_cons]
    constructor
    · rintro ⟨_, ⟨record, hrecord, rfl⟩, hrest⟩
      obtain ⟨rs, hrs, rfl⟩ := ih.mp hrest
      exact ⟨record :: rs, by rw [hrecord, hrs, List.map_cons], rfl⟩
    · rintro ⟨rs, hrs, rfl⟩
      cases rs with
      | nil => cases hrs
      | cons record rs =>
        obtain ⟨hrecord, hrs⟩ := List.cons.inj hrs
        exact ⟨_, ⟨record, hrecord, rfl⟩, ih.mpr ⟨rs, hrs, rfl⟩⟩

theorem validateExecutionRecords_eq_ok_iff :
    validateExecutionRecords m intent records = .ok chain ↔
      (records.any fun entry => entry.1 = .dispatch) ∧ intent.valid m.digests ∧
        (∃ rs : List ExecutionRecord, records.map (linkedRecord m intent) = rs.map .ok ∧
          chain = rs.foldl Chain.put {}) ∧ chain.valid m.digests m.uid intent := by
  simp only [validateExecutionRecords, bind_eq_ok_iff, require_eq_ok_iff, ofOption_eq_ok_iff,
    pure_eq_ok_iff, foldlM_linkRecord]
  constructor
  · rintro ⟨_, hdispatch, _, hintent, _, hrecords, dispatch, -, _, hvalid, rfl⟩
    exact ⟨hdispatch, hintent, hrecords, hvalid⟩
  · rintro ⟨hdispatch, hintent, hrecords, hvalid⟩
    have hsome : ∃ dispatch, chain.dispatch = some dispatch := by
      rw [Chain.valid] at hvalid
      split at hvalid
      next => cases hvalid
      next dispatch h => exact ⟨dispatch, h⟩
    obtain ⟨dispatch, hchain⟩ := hsome
    exact ⟨(), hdispatch, (), hintent, chain, hrecords, dispatch, hchain, (), hvalid, rfl⟩

/-- In which order the records of an operation come makes no difference. -/
theorem validateExecutionRecords_perm (hperm : records.Perm records')
    (hnodup : (records.map Prod.fst).Nodup)
    (h : validateExecutionRecords m intent records = .ok chain) :
    validateExecutionRecords m intent records' = .ok chain := by
  rw [validateExecutionRecords_eq_ok_iff] at h ⊢
  obtain ⟨hdispatch, hintent, ⟨rs, hrs, rfl⟩, hvalid⟩ := h
  obtain ⟨rs', hrs'⟩ := exists_map_eq_ok_iff.mpr fun entry hentry =>
    exists_map_eq_ok_iff.mp ⟨rs, hrs⟩ entry (hperm.mem_iff.mpr hentry)
  have hpermRs : rs.Perm rs' := perm_of_map_eq_ok hrs hrs' hperm
  have hphases : rs.map ExecutionRecord.phase = records.map Prod.fst := by
    clear hdispatch hvalid hpermRs hnodup hperm
    induction records generalizing rs with
    | nil => rw [List.map_eq_nil_iff.mp hrs.symm, List.map_nil, List.map_nil]
    | cons entry records ih =>
      cases rs with
      | nil => cases hrs
      | cons record rs =>
        obtain ⟨hrecord, hrest⟩ := List.cons.inj hrs
        rw [List.map_cons, List.map_cons, ih rs hrest, (linkedRecord_eq_ok_iff.mp hrecord).2.1]
  have hfold : rs.foldl Chain.put {} = rs'.foldl Chain.put {} := by
    apply hpermRs.foldl_eq'
    intro r hr r' hr' c
    by_cases heq : r.phase = r'.phase
    · rw [← hphases] at hnodup
      rw [List.inj_on_of_nodup_map hnodup hr hr' heq]
    · exact Chain.put_comm heq
  refine ⟨?_, hintent, ⟨rs', hrs', hfold⟩, hvalid⟩
  rw [List.any_eq_true] at hdispatch ⊢
  obtain ⟨entry, hentry, hphase⟩ := hdispatch
  exact ⟨entry, hperm.mem_iff.mp hentry, hphase⟩

theorem exists_dispatch_of_valid (h : chain.valid m.digests m.uid intent) :
    ∃ dispatch, chain.dispatch = some dispatch ∧ dispatch.request = intent.request := by
  rw [Chain.valid] at h
  split at h
  next => cases h
  next dispatch hdispatch =>
    simp only [Bool.and_eq_true, Chain.linked, decide_eq_true_eq] at h
    exact ⟨dispatch, hdispatch, h.1.1.1.1.1.1.2.1.2⟩

end Chains

/-! ### Reading in place -/

section Reading

variable {m : Reader} {home : Home} {key : Digest × Digest} {t : Tree} {intent : IntentRecord}
  {path : List Name} {store name : Name}

theorem fileAt_eq_none_iff : fileAt t = none ↔ ∀ x, ([], some x) ∉ t := by
  simp only [fileAt, file?_eq_none_iff, mem_filesOf]

theorem child_private (h : ∀ e ∈ filesOf t, e.2.info.Private m.uid) :
    ∀ e ∈ filesOf (child t name), e.2.info.Private m.uid := by
  rintro ⟨path, x⟩ he
  rw [filesOf_child, mem_child] at he
  exact h (name :: path, x) he

theorem mem_store {x : File} : (path, some x) ∈ home.store store ↔ (path, x) ∈ home.files store :=
  mem_filesOf.symm

theorem directoryAt_eq_ok_iff (h : home.Private m.uid) {u : Unit} :
    directoryAt m home path t = .ok u ↔ fileAt t = none := by
  rw [directoryAt, require_eq_ok_iff]
  exact and_iff_left (h.directory path)

theorem openHome_eq_ok (h : home.Private m.uid) {message : String} :
    openHome m home message = .ok () :=
  require_of (h.directory []).1

theorem entry?_eq_some_iff {t' : Tree} :
    entry? t name = some t' ↔ child t name = t' ∧ t' ≠ [] := by
  unfold entry?
  constructor
  · intro h
    split at h
    next => cases h
    next hne =>
      obtain rfl := Option.some.inj h
      exact ⟨rfl, hne⟩
  · rintro ⟨rfl, hne⟩
    exact if_neg hne

theorem storeAt_eq (h : home.Private m.uid) (hstore : store = journalName ∨ store = executionName) :
    storeAt m home store =
      .ok (if home.store store = [] then none else some (home.store store)) := by
  have hruntime : fileAt (child home.tree runtimeName) = none := by
    rw [fileAt_eq_none_iff]
    intro x hx
    exact home.stores _ (mem_filesOf.mpr (mem_child.mp hx)) (by simp)
  have hbelow : fileAt (home.store store) = none := by
    rw [fileAt_eq_none_iff]
    intro x hx
    have hmem := mem_files.mp (mem_store.mp hx)
    rcases hstore with rfl | rfl
    · exact home.stores _ hmem (by simp)
    · exact home.stores _ hmem (by simp)
  rw [storeAt, entry?]
  by_cases hempty : child home.tree runtimeName = []
  · have hnone : home.store store = [] := by
      rw [Home.store, hempty]
      rfl
    rw [if_pos hempty, if_pos hnone]
    rfl
  · have hchild : child (child home.tree runtimeName) store = home.store store := rfl
    have hopened {path : List Name} {t : Tree} (ht : fileAt t = none) :
        directoryAt m home path t = .ok () := (directoryAt_eq_ok_iff h).mpr ht
    rw [if_neg hempty]
    simp only [hopened hruntime, ok_bind, entry?, hchild]
    by_cases hnone : home.store store = []
    · rw [if_pos hnone]
      rfl
    · rw [if_neg hnone]
      simp only [hopened hbelow, ok_bind]
      rfl

theorem readRecordBytes_eq_ok_iff (hproper : Proper t)
    (h : ∀ e ∈ filesOf t, e.2.info.Private m.uid)
    {bytes : Bytes} : readRecordBytes m t = .ok bytes ↔
      ∃ x, filesOf t = [([], x)] ∧ x.bytes = bytes ∧ bytes.length ≤ recordMaxBytes := by
  simp only [readRecordBytes, bind_eq_ok_iff, ofOption_eq_ok_iff, require_eq_ok_iff, pure_eq_ok_iff,
    fileAt, hproper.filesOf.file?_eq_some_iff]
  constructor
  · rintro ⟨x, hx, _, -, _, hsize, rfl⟩
    exact ⟨x, hx, rfl, hsize⟩
  · rintro ⟨x, hx, rfl, hsize⟩
    obtain ⟨huid, hmode, hnlink⟩ := h ([], x) (hx ▸ List.mem_singleton_self _)
    exact ⟨x, hx, (), ⟨huid, hnlink, hmode⟩, (), hsize, rfl⟩

theorem readExecutionBytes_eq_ok_iff (hproper : Proper t)
    (h : ∀ e ∈ filesOf t, e.2.info.Private m.uid)
    {bytes : Bytes} : readExecutionBytes m t = .ok bytes ↔
      ∃ x, filesOf t = [([], x)] ∧ x.bytes = bytes ∧ 0 < bytes.length ∧
        bytes.length ≤ recordMaxBytes := by
  simp only [readExecutionBytes, bind_eq_ok_iff, ofOption_eq_ok_iff, require_eq_ok_iff,
    pure_eq_ok_iff, fileAt, hproper.filesOf.file?_eq_some_iff]
  constructor
  · rintro ⟨x, hx, _, ⟨-, -, -, hsize⟩, rfl⟩
    exact ⟨x, hx, rfl, hsize⟩
  · rintro ⟨x, hx, rfl, hsize⟩
    obtain ⟨huid, hmode, hnlink⟩ := h ([], x) (hx ▸ List.mem_singleton_self _)
    exact ⟨x, hx, (), ⟨huid, hnlink, hmode, hsize⟩, rfl⟩

theorem idHash_eq_ok_iff {id : String} {digest : Digest} :
    idHash m id = .ok digest ↔ isHashable id ∧ m.digests.id id = digest := by
  simp only [idHash, bind_eq_ok_iff, require_eq_ok_iff, pure_eq_ok_iff, exists_and_left,
    exists_const]

theorem checkIdentifiers_eq_ok_iff {request : WorkerOperationRequest} {message : String}
    {u : Unit} :
    checkIdentifiers m key request message = .ok u ↔ isHashable request.binding.runId ∧
      isHashable request.operationId ∧ identifies m key request := by
  simp only [checkIdentifiers, bind_eq_ok_iff, require_eq_ok_iff, idHash_eq_ok_iff, identifies,
    Bool.and_eq_true, decide_eq_true_eq]
  constructor
  · rintro ⟨_, ⟨hrunId, rfl⟩, _, hrun, _, ⟨hoperationId, rfl⟩, hoperation⟩
    exact ⟨hrunId, hoperationId, hrun, hoperation⟩
  · rintro ⟨hrunId, hoperationId, hrun, hoperation⟩
    exact ⟨_, ⟨hrunId, rfl⟩, (), hrun, _, ⟨hoperationId, rfl⟩, hoperation⟩

theorem valid_of_validateIntentRecord {v : Value}
    (h : validateIntentRecord m.toVerifier v = some intent) : intent.valid m.digests := by
  simp only [validateIntentRecord, Option.bind_eq_bind, Option.bind_eq_some_iff] at h
  obtain ⟨_, -, _, -, _, -, _, -, _, -, h⟩ := h
  obtain ⟨hvalid, heq⟩ := Option.ite_none_right_eq_some.mp h
  obtain rfl := Option.some.inj heq
  exact hvalid.2.2

theorem isHashable_of_valid (h : intent.valid m.digests) :
    isHashable intent.request.binding.runId ∧ isHashable intent.request.operationId := by
  simp only [IntentRecord.valid, patchRequest, WorkerOperationRequest.valid, WorkerRunBinding.valid,
    Bool.and_eq_true] at h
  obtain ⟨⟨⟨⟨⟨⟨⟨⟨⟨hbinding, hoperation⟩, -⟩, -⟩, -⟩, -⟩, -⟩, -⟩, -⟩, -⟩ := h
  exact ⟨hbinding.1.1.2, hoperation⟩

theorem readIntent_eq_ok_iff (hproper : Proper t)
    (h : ∀ e ∈ filesOf t, e.2.info.Private m.uid) :
    readIntent m key t = .ok intent ↔ ∃ x, filesOf t = [([], x)] ∧
      ReadsIntent m key x.bytes intent := by
  simp only [readIntent, bind_eq_ok_iff, ofOption_eq_ok_iff, pure_eq_ok_iff,
    readRecordBytes_eq_ok_iff hproper h, checkIdentifiers_eq_ok_iff]
  constructor
  · rintro ⟨_, ⟨x, hx, rfl, hsize⟩, v, hv, _, hintent, _, ⟨-, -, hidentifies⟩, rfl⟩
    exact ⟨x, hx, v, ⟨hsize, hv⟩, hintent, hidentifies⟩
  · rintro ⟨x, hx, v, ⟨hsize, hv⟩, hintent, hidentifies⟩
    obtain ⟨hrun, hoperation⟩ := isHashable_of_valid (valid_of_validateIntentRecord hintent)
    exact ⟨_, ⟨x, hx, rfl, hsize⟩, v, hv, intent, hintent, (), ⟨hrun, hoperation, hidentifies⟩, rfl⟩

/-- A census reads what its pairs are of, within its limit, if the runs pass their checks. -/
theorem census_eq_ok_iff {α : Type} {limit : ℕ} {message : String} {run : Name → Checked Unit}
    {read : Name → Name → Checked α} {xs : List α} :
    census limit message run read t = .ok xs ↔ (∀ a ∈ listing t, run a = .ok ()) ∧
      (pairs t).map (fun p => read p.1 p.2) = xs.map .ok ∧ xs.length ≤ limit := by
  suffices h : ∀ (as : List Name) (before after : List α), before.length ≤ limit →
      (as.foldlM (fun entries a => do
          run a
          collect limit (.value message) (read a) entries (listing (child t a))) before =
            .ok after ↔
        (∀ a ∈ as, run a = .ok ()) ∧ ∃ new : List α,
          (as.flatMap fun a => (listing (child t a)).map (Prod.mk a)).map
            (fun p => read p.1 p.2) = new.map .ok ∧ after = before ++ new ∧ after.length ≤ limit) by
    rw [census, h (listing t) [] xs (Nat.zero_le _)]
    simp only [List.nil_append]
    constructor
    · rintro ⟨hruns, new, hnew, rfl, hlimit⟩
      exact ⟨hruns, hnew, hlimit⟩
    · rintro ⟨hruns, hxs, hlimit⟩
      exact ⟨hruns, xs, hxs, rfl, hlimit⟩
  intro as
  induction as with
  | nil =>
    intro before after hbefore
    rw [List.foldlM_nil, pure_eq_ok_iff]
    constructor
    · rintro rfl
      exact ⟨by simp, [], rfl, (List.append_nil _).symm, hbefore⟩
    · rintro ⟨-, new, hnew, rfl, -⟩
      rw [List.map_eq_nil_iff.mp hnew.symm, List.append_nil]
  | cons a as ih =>
    intro before after hbefore
    simp only [List.foldlM_cons, bind_eq_ok_iff, collect_eq_ok_iff hbefore, List.flatMap_cons,
      List.map_append, List.map_map, List.forall_mem_cons]
    constructor
    · rintro ⟨_, ⟨_, hrun, first, hfirst, rfl, hmiddle⟩, hrest⟩
      obtain ⟨hruns, new, hnew, rfl, hafter⟩ := (ih _ _ hmiddle).mp hrest
      refine ⟨⟨hrun, hruns⟩, first ++ new, ?_, by simp, hafter⟩
      rw [List.map_append, ← hnew, ← hfirst]
      rfl
    · rintro ⟨⟨hrun, hruns⟩, new, hnew, rfl, hafter⟩
      obtain ⟨first, rest, rfl, hfirst, hrest⟩ := List.append_eq_map_iff.mp hnew
      have hmiddle : (before ++ first).length ≤ limit := by
        rw [List.length_append, List.length_append] at hafter
        rw [List.length_append]
        omega
      refine ⟨_, ⟨(), hrun, first, hfirst.symm, rfl, hmiddle⟩, ?_⟩
      exact (ih _ _ hmiddle).mpr ⟨hruns, rest, hrest.symm, by simp, hafter⟩

end Reading

/-! ### The journal -/

section Journal

variable {m : Reader} {home : Home} {key : Digest × Digest} {intents : Intents}
  {intent : IntentRecord} {run name : Name} {records : List IntentRecord} {u : Unit}

theorem journalFile?_eq_some_iff {operation : Digest} :
    journalFile? name = some operation ↔ name = intentFile operation ∧ isDigest operation := by
  rw [journalFile?]
  constructor
  · intro h
    obtain ⟨⟨hlength, hsuffix, hdigest⟩, heq⟩ := Option.ite_none_right_eq_some.mp h
    obtain rfl := Option.some.inj heq
    have hdrop : ".json".toList = name.drop 64 := by
      rw [List.suffix_iff_eq_drop.mp hsuffix, hlength]
      rfl
    refine ⟨?_, hdigest⟩
    rw [intentFile, hdrop, List.take_append_drop]
  · rintro ⟨rfl, hdigest⟩
    have hlength : operation.length = 64 := by
      simp only [isDigest, Bool.and_eq_true, decide_eq_true_eq] at hdigest
      exact hdigest.1
    have htake : (intentFile operation).take 64 = operation := List.take_left' hlength
    have hname : (intentFile operation).length = 69 := by
      rw [intentFile, List.length_append, hlength]
      rfl
    rw [htake, if_pos ⟨hname, List.suffix_append _ _, hdigest⟩]

theorem intentFile_inj {operation operation' : Digest}
    (h : intentFile operation = intentFile operation') : operation = operation' :=
  List.append_cancel_right h

theorem journal_private (h : home.Private m.uid) :
    ∀ e ∈ filesOf (home.store journalName), e.2.info.Private m.uid :=
  fun e he => h.file e (List.mem_append_left _ he)

theorem journalEntry_eq_ok_iff (h : home.Private m.uid) :
    journalEntry m (home.store journalName) run name = .ok intent ↔
      ∃ operation x, name = intentFile operation ∧ isDigest operation ∧
        ([run, name], x) ∈ home.files journalName ∧
          ReadsIntent m (run, operation) x.bytes intent := by
  have hproper : Proper (home.store journalName) := Home.proper_store
  have hfiles : filesOf (home.store journalName) = home.files journalName := rfl
  simp only [journalEntry, bind_eq_ok_iff, ofOption_eq_ok_iff, journalFile?_eq_some_iff,
    readIntent_eq_ok_iff hproper.child.child (child_private (child_private (journal_private h))),
    filesOf_child, hfiles, Home.proper_files.child_child_eq_iff]
  constructor
  · rintro ⟨operation, ⟨hname, hdigest⟩, x, hx, hreads⟩
    exact ⟨operation, x, hname, hdigest, hx, hreads⟩
  · rintro ⟨operation, x, hname, hdigest, hx, hreads⟩
    exact ⟨operation, ⟨hname, hdigest⟩, x, hx, hreads⟩

theorem journalRun_eq_ok_iff (h : home.Private m.uid) {t : Tree} :
    journalRun m home t run = .ok u ↔ isDigest run ∧ fileAt (child t run) = none ∧
      (listing (child t run)).length ≤ journalMaxRecordsPerRun := by
  simp only [journalRun, checkNames, bind_eq_ok_iff, require_eq_ok_iff, directoryAt_eq_ok_iff h,
    exists_and_left, exists_const]

theorem journalCensus_eq_ok_iff (h : home.Private m.uid) {t : Tree} :
    journalCensus m home t = .ok records ↔ (listing t).length ≤ journalMaxRecords ∧
      (∀ run ∈ listing t, isDigest run ∧ fileAt (child t run) = none ∧
        (listing (child t run)).length ≤ journalMaxRecordsPerRun) ∧
      (pairs t).map (fun p => journalEntry m t p.1 p.2) = records.map .ok ∧
        records.length ≤ journalMaxRecords := by
  simp only [journalCensus, checkNames, bind_eq_ok_iff, require_eq_ok_iff, census_eq_ok_iff,
    journalRun_eq_ok_iff h, exists_and_left, exists_const]

def intentPath (key : Digest × Digest) : List Name := [key.1, intentFile key.2]

/-- No directory of a journal is empty but those of runs, and the journal if it has none. -/
structure Home.EmptyRuns (home : Home) : Prop where
  run : ∀ path, (path, none) ∈ home.store journalName →
    path = [] ∨ ∃ run, isDigest run ∧ path = [run]
  limit : (listing (home.store journalName)).length ≤ journalMaxRecords

theorem Home.EmptyRuns.length_le (h : home.EmptyRuns) (path : List Name)
    (hpath : (path, none) ∈ home.store journalName) : path.length ≤ 1 := by
  rcases h.run path hpath with rfl | ⟨_, -, rfl⟩
  · exact Nat.zero_le 1
  · exact le_rfl

section Files

variable (hfiles : List.Forall₂ (IntentFile m) (home.files journalName) intents)

include hfiles

theorem paths_of_intentFiles :
    (home.files journalName).map Prod.fst = intents.map fun entry => intentPath entry.1 :=
  map_eq_of_forall₂ (fun _ _ hfile => hfile.path) hfiles

theorem fileAt_child_journal : fileAt (child (home.store journalName) run) = none := by
  rw [fileAt_eq_none_iff]
  intro x hx
  obtain ⟨entry, -, hfile⟩ := exists_right_of_forall₂ hfiles (mem_store.mp (mem_child.mp hx))
  have hlength := congrArg List.length hfile.path
  simp at hlength

section Runs

variable (hruns : home.EmptyRuns)

include hruns

theorem perm_intentPaths : (intents.map fun entry => intentPath entry.1).Perm
    ((pairs (home.store journalName)).map fun p => [p.1, p.2]) := by
  rw [← paths_of_intentFiles hfiles]
  have hpaths : ((home.files journalName).map Prod.fst).Perm
      ((pairs (home.files journalName)).map fun p => [p.1, p.2]) := by
    apply Home.proper_files.perm_pairs
    intro e he
    obtain ⟨entry, -, hfile⟩ := exists_right_of_forall₂ hfiles he
    rw [hfile.path]
    rfl
  exact hpaths.trans ((perm_pairs_filesOf hruns.length_le).map _)

/-- The directory of a run lists as many names as the run has intents. -/
theorem length_listing_run : (listing (child (home.store journalName) run)).length =
    (intents.map Prod.fst).countP fun key => key.1 = run := by
  rw [← countP_pairs]
  calc
    (pairs (home.store journalName)).countP (fun p => p.1 = run) =
        ((pairs (home.store journalName)).map fun p => [p.1, p.2]).countP
          fun path => path.headD [] = run := by
      rw [List.countP_map]
      exact List.countP_congr fun p _ => by
        rw [Function.comp_apply, List.headD_cons, decide_eq_true_iff]
    _ = (intents.map fun entry => intentPath entry.1).countP fun path => path.headD [] = run :=
      ((perm_intentPaths hfiles hruns).countP_eq _).symm
    _ = (intents.map Prod.fst).countP fun key => key.1 = run := by
      rw [List.countP_map, List.countP_map]
      exact List.countP_congr fun entry _ => by
        rw [Function.comp_apply, Function.comp_apply, intentPath, List.headD_cons,
          decide_eq_true_iff]

omit hruns in
theorem journalEntry_of_intent (h : home.Private m.uid)
    {entry : (Digest × Digest) × IntentRecord} (hentry : entry ∈ intents) :
    journalEntry m (home.store journalName) entry.1.1 (intentFile entry.1.2) = .ok entry.2 := by
  obtain ⟨⟨path, x⟩, he, hfile⟩ := exists_left_of_forall₂ hfiles hentry
  obtain rfl : path = [entry.1.1, intentFile entry.1.2] := hfile.path
  exact (journalEntry_eq_ok_iff h).mpr ⟨entry.1.2, x, rfl, hfile.operation, he, hfile.reads⟩

/-- If all files are intents and there are not too many, the census reads them. -/
theorem journalCensus_of_intentFiles (h : home.Private m.uid)
    (hfits : Fits (intents.map Prod.fst)) :
    ∃ records, journalCensus m home (home.store journalName) = .ok records ∧
      records.Perm (intents.map Prod.snd) := by
  have hperm := perm_intentPaths hfiles hruns
  have hread : ∀ p ∈ pairs (home.store journalName),
      ∃ intent, journalEntry m (home.store journalName) p.1 p.2 = .ok intent := by
    rintro ⟨a, b⟩ hp
    obtain ⟨entry, hentry, heq⟩ := List.mem_map.mp
      (hperm.mem_iff.mpr (List.mem_map.mpr ⟨(a, b), hp, rfl⟩))
    obtain ⟨rfl, rfl⟩ : entry.1.1 = a ∧ intentFile entry.1.2 = b := by simpa [intentPath] using heq
    exact ⟨entry.2, journalEntry_of_intent hfiles h hentry⟩
  obtain ⟨records, hrecords⟩ := exists_map_eq_ok_iff.mpr hread
  -- Reading a path gives the intent of it, in whichever order the paths are.
  let read (path : List Name) : Checked IntentRecord :=
    journalEntry m (home.store journalName) (path.headD []) (path.tail.headD [])
  have hintents : (intents.map fun entry => intentPath entry.1).map read =
      (intents.map Prod.snd).map .ok := by
    rw [List.map_map, List.map_map]
    exact List.map_congr_left fun entry hentry => journalEntry_of_intent hfiles h hentry
  have hpairs : ((pairs (home.store journalName)).map fun p => [p.1, p.2]).map read =
      records.map .ok := by
    rw [List.map_map, ← hrecords]
    rfl
  have hlength : (pairs (home.store journalName)).length = intents.length := by
    simpa using hperm.length_eq.symm
  have hdigest : ∀ a ∈ listing (home.store journalName), isDigest a := by
    intro a ha
    obtain ⟨rest, leaf, hmem⟩ := mem_listing.mp ha
    cases leaf with
    | none =>
      obtain hnil | ⟨run, hrun, hpath⟩ := hruns.run _ hmem
      · cases hnil
      · exact (List.cons.inj hpath).1 ▸ hrun
    | some x =>
      obtain ⟨entry, -, hfile⟩ := exists_right_of_forall₂ hfiles (mem_store.mp hmem)
      have hpath : a :: rest = [entry.1.1, intentFile entry.1.2] := hfile.path
      exact (List.cons.inj hpath).1 ▸ hfile.run
  have hrecordsLength : records.length = intents.length := by
    rw [← hlength]
    simpa using (congrArg List.length hrecords).symm
  refine ⟨records, (journalCensus_eq_ok_iff h).mpr
    ⟨hruns.limit, fun run hrun => ⟨hdigest run hrun, fileAt_child_journal hfiles, ?_⟩,
    hrecords, ?_⟩, perm_of_map_eq_ok hpairs hintents hperm.symm⟩
  · rw [length_listing_run hfiles hruns]
    exact hfits.2 run
  · rw [hrecordsLength, ← List.length_map Prod.fst]
    exact hfits.1

end Runs

end Files

section Census

variable (h : home.Private m.uid)
  (hcensus : journalCensus m home (home.store journalName) = .ok records)

include h hcensus

theorem mem_files_of_journalCensus {rest : List Name} {leaf : Option File}
    (hmem : (run :: name :: rest, leaf) ∈ home.store journalName) :
    ∃ operation intent x, name = intentFile operation ∧ isDigest operation ∧ rest = [] ∧
      leaf = some x ∧ ReadsIntent m (run, operation) x.bytes intent := by
  obtain ⟨-, -, hrecords, -⟩ := (journalCensus_eq_ok_iff h).mp hcensus
  obtain ⟨intent, hread⟩ := exists_map_eq_ok_iff.mp ⟨records, hrecords⟩ (run, name)
    (mem_pairs.mpr ⟨rest, leaf, hmem⟩)
  obtain ⟨operation, x, rfl, hdigest, hx, hreads⟩ := (journalEntry_eq_ok_iff h).mp hread
  have hleaf : (rest, leaf) ∈ child (child (home.store journalName) run) (intentFile operation) :=
    mem_child.mpr (mem_child.mpr hmem)
  rw [Home.proper_store.child_child_eq_iff.mpr (mem_store.mpr hx)] at hleaf
  obtain ⟨rfl, rfl⟩ := Prod.mk.inj (List.mem_singleton.mp hleaf)
  exact ⟨operation, intent, x, rfl, hdigest, rfl, rfl, hreads⟩

theorem emptyRuns_of_journalCensus : home.EmptyRuns := by
  obtain ⟨hlimit, hruns, -, -⟩ := (journalCensus_eq_ok_iff h).mp hcensus
  refine ⟨fun path hpath => ?_, hlimit⟩
  rcases path with _ | ⟨run, _ | ⟨name, rest⟩⟩
  · exact .inl rfl
  · exact .inr ⟨run, (hruns run (mem_listing.mpr ⟨[], none, hpath⟩)).1, rfl⟩
  · obtain ⟨_, _, _, -, -, -, hleaf, -⟩ := mem_files_of_journalCensus h hcensus hpath
    cases hleaf

/-- If the census reads the journal, all its files are intents and there are not too many. -/
theorem intentFiles_of_journalCensus :
    ∃ intents, List.Forall₂ (IntentFile m) (home.files journalName) intents ∧
      Fits (intents.map Prod.fst) := by
  obtain ⟨-, hruns, hrecords, hlimit⟩ := (journalCensus_eq_ok_iff h).mp hcensus
  have hentry : ∀ e ∈ home.files journalName, ∃ entry, IntentFile m e entry := by
    rintro ⟨path, x⟩ he
    have hmem := mem_store.mpr he
    have hne : path ≠ [] := Home.ne_nil_of_files (by simp) he
    obtain ⟨run, rest, rfl⟩ := List.exists_cons_of_ne_nil hne
    obtain ⟨hrun, hdirectory, -⟩ := hruns run (mem_listing.mpr ⟨rest, some x, hmem⟩)
    cases rest with
    | nil => exact absurd (mem_child.mpr hmem) (fileAt_eq_none_iff.mp hdirectory x)
    | cons name rest =>
      obtain ⟨operation, intent, y, rfl, hdigest, rfl, hleaf, hreads⟩ :=
        mem_files_of_journalCensus h hcensus hmem
      obtain rfl := Option.some.inj hleaf
      exact ⟨((run, operation), intent), rfl, hrun, hdigest, hreads⟩
  obtain ⟨intents, hfiles⟩ := exists_forall₂ hentry
  have hempty := emptyRuns_of_journalCensus h hcensus
  have hperm := perm_intentPaths hfiles hempty
  refine ⟨intents, hfiles, ?_, fun run => ?_⟩
  · have hlength := hperm.length_eq
    have hread := congrArg List.length hrecords
    simp only [List.length_map] at hlength hread
    rw [List.length_map]
    omega
  · rw [← length_listing_run hfiles hempty]
    by_cases hrun : run ∈ listing (home.store journalName)
    · exact (hruns run hrun).2.2
    · rw [mem_listing_iff_child, not_not] at hrun
      rw [hrun]
      exact Nat.zero_le _

end Census

end Journal

/-! ### Intents that are looked up -/

section Lookup

variable {m : Reader} {home : Home} {key : Digest × Digest} {intents : Intents}
  {intent : IntentRecord} {u : Unit}

theorem ReadsValue.unique {bytes : Bytes} {v v' : Value} (h : ReadsValue m bytes v)
    (h' : ReadsValue m bytes v') : v = v' :=
  Option.some.inj (h.2.symm.trans h'.2)

theorem ReadsIntent.unique {bytes : Bytes} {intent' : IntentRecord}
    (h : ReadsIntent m key bytes intent) (h' : ReadsIntent m key bytes intent') :
    intent = intent' := by
  obtain ⟨v, hv, hintent, -⟩ := h
  obtain ⟨v', hv', hintent', -⟩ := h'
  obtain rfl := hv.unique hv'
  exact Option.some.inj (hintent.symm.trans hintent')

theorem lookup_eq_some_iff_mem {α : Type} {xs : List ((Digest × Digest) × α)} {x : α}
    (h : (xs.map Prod.fst).Nodup) : xs.lookup key = some x ↔ (key, x) ∈ xs := by
  induction xs with
  | nil => simp
  | cons e xs ih =>
    obtain ⟨k, y⟩ := e
    rw [List.map_cons, List.nodup_cons] at h
    by_cases hkey : key = k
    · subst hkey
      have hnot : (key, x) ∉ xs := fun hmem => h.1 (List.mem_map.mpr ⟨_, hmem, rfl⟩)
      simp [hnot, eq_comm]
    · have hbeq : (key == k) = false := by simpa using hkey
      rw [List.lookup_cons, hbeq, List.mem_cons, ← ih h.2]
      simp [hkey]

section Files

variable (hfiles : List.Forall₂ (IntentFile m) (home.files journalName) intents)

include hfiles

theorem nodup_keys_intents : (intents.map Prod.fst).Nodup := by
  have hproper : Proper (home.files journalName) := Home.proper_files
  have hpaths := hproper.nodup
  have hmap : (intents.map fun entry => intentPath entry.1) =
      (intents.map Prod.fst).map intentPath := by
    rw [List.map_map]
    rfl
  rw [paths_of_intentFiles hfiles, hmap] at hpaths
  exact hpaths.of_map _

theorem mem_intents_iff : (key, intent) ∈ intents ↔
    ∃ x, (intentPath key, x) ∈ home.files journalName ∧ isDigest key.1 ∧ isDigest key.2 ∧
      ReadsIntent m key x.bytes intent := by
  constructor
  · intro hentry
    obtain ⟨⟨path, x⟩, hmem, hfile⟩ := exists_left_of_forall₂ hfiles hentry
    obtain rfl : path = intentPath key := hfile.path
    exact ⟨x, hmem, hfile.run, hfile.operation, hfile.reads⟩
  · rintro ⟨x, hmem, -, -, hreads⟩
    obtain ⟨⟨key', intent'⟩, hentry, hfile⟩ := exists_right_of_forall₂ hfiles hmem
    have hpath : intentPath key = intentPath key' := hfile.path
    simp only [intentPath, List.cons.injEq, and_true] at hpath
    obtain rfl : key = key' := Prod.ext hpath.1 (intentFile_inj hpath.2)
    obtain rfl := hreads.unique hfile.reads
    exact hentry

theorem identifies_of_mem_intents (hmem : (key, intent) ∈ intents) :
    identifies m key intent.request ∧ intent.valid m.digests := by
  obtain ⟨x, -, -, -, v, -, hintent, hidentifies⟩ := (mem_intents_iff hfiles).mp hmem
  exact ⟨hidentifies, valid_of_validateIntentRecord hintent⟩

theorem intentAt_eq_ok_iff (h : home.Private m.uid) (hrun : isDigest key.1)
    (hoperation : isDigest key.2) :
    intentAt m home key (home.store journalName) = .ok (some intent) ↔ (key, intent) ∈ intents := by
  have hproper : Proper (home.store journalName) := Home.proper_store
  have hread : readIntent m key (child (child (home.store journalName) key.1)
      (intentFile key.2)) = .ok intent ↔ (key, intent) ∈ intents := by
    have hstore : filesOf (home.store journalName) = home.files journalName := rfl
    rw [mem_intents_iff hfiles, readIntent_eq_ok_iff hproper.child.child
      (child_private (child_private (journal_private h)))]
    simp only [filesOf_child, hstore, Home.proper_files.child_child_eq_iff, hrun,
      hoperation, true_and]
    exact Iff.rfl
  have hthere (hmem : (key, intent) ∈ intents) : ∃ x,
      ([], x) ∈ child (child (home.store journalName) key.1) (intentFile key.2) := by
    obtain ⟨x, hx, -⟩ := (mem_intents_iff hfiles).mp hmem
    exact ⟨some x, mem_child.mpr (mem_child.mpr (mem_store.mpr hx))⟩
  rw [intentAt]
  cases hentry : entry? (home.store journalName) key.1 with
  | none =>
    constructor
    · intro heq
      cases heq
    · intro hmem
      obtain ⟨x, hx⟩ := hthere hmem
      have hsome := (entry?_eq_some_iff (t := home.store journalName)).mpr
        ⟨rfl, List.ne_nil_of_mem (mem_child.mp hx)⟩
      rw [hentry] at hsome
      cases hsome
  | some run =>
    obtain ⟨rfl, -⟩ := entry?_eq_some_iff.mp hentry
    have hopened : directoryAt m home [runtimeName, journalName, key.1]
        (child (home.store journalName) key.1) = .ok () :=
      (directoryAt_eq_ok_iff h).mpr (fileAt_child_journal hfiles)
    simp only [hopened, ok_bind]
    cases hfile : entry? (child (home.store journalName) key.1) (intentFile key.2) with
    | none =>
      constructor
      · intro heq
        cases heq
      · intro hmem
        obtain ⟨x, hx⟩ := hthere hmem
        have hsome := (entry?_eq_some_iff (t := child (home.store journalName) key.1)).mpr
          ⟨rfl, List.ne_nil_of_mem hx⟩
        rw [hfile] at hsome
        cases hsome
    | some t =>
      obtain ⟨rfl, -⟩ := entry?_eq_some_iff.mp hfile
      simp only [bind_eq_ok_iff, pure_eq_ok_iff, Option.some.injEq, exists_eq_right]
      exact hread

theorem recordedIntent_eq_ok_iff (h : home.Private m.uid) {runId : RunId} {operationId : String} :
    recordedIntent m home runId operationId = .ok intent ↔ isHashable runId ∧
      isHashable operationId ∧
        ((m.digests.id runId, m.digests.id operationId), intent) ∈ intents := by
  have hrecorded : recordedIntent m home runId operationId = .ok intent ↔
      lookupIntent m home runId operationId = .ok (some intent) := by
    rw [recordedIntent, inspectIntent]
    rcases lookupIntent m home runId operationId with e | _ | intent' <;> simp
  rw [hrecorded, lookupIntent]
  simp only [bind_eq_ok_iff, idHash_eq_ok_iff, openHome_eq_ok h, storeAt_eq h (.inl rfl)]
  have hat : intentAt m home (m.digests.id runId, m.digests.id operationId)
      (home.store journalName) = .ok (some intent) ↔
        ((m.digests.id runId, m.digests.id operationId), intent) ∈ intents :=
    intentAt_eq_ok_iff hfiles h (m.digests.isDigest_id _) (m.digests.isDigest_id _)
  constructor
  · rintro ⟨_, ⟨hrun, rfl⟩, _, ⟨hoperation, rfl⟩, _, -, t, ht, hfound⟩
    obtain rfl := Except.ok.inj ht
    refine ⟨hrun, hoperation, hat.mp ?_⟩
    split at hfound
    next => cases hfound
    next t' ht =>
      split at ht
      next => cases ht
      next =>
        obtain rfl := Option.some.inj ht
        exact hfound
  · rintro ⟨hrun, hoperation, hmem⟩
    refine ⟨_, ⟨hrun, rfl⟩, _, ⟨hoperation, rfl⟩, (), trivial, _, rfl, ?_⟩
    obtain ⟨x, hx, -⟩ := (mem_intents_iff hfiles).mp hmem
    rw [if_neg (List.ne_nil_of_mem (mem_store.mpr hx))]
    exact hat.mpr hmem

end Files

end Lookup

end OrchKit.Archive
