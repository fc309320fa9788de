import OrchKit.Archive.Inventories

/-! # The files of a home as members

What the verification of an archive makes of the files of a home. The members below a directory are
the files of the store there, and each of them is either a record that can be read on its own or is
refused; what is left are the limits on how many there are.
-/

namespace OrchKit.Archive

open Except Json Bridge Files

/-- The owner has the file alone, under this name alone. -/
def Info.Private (uid : ℕ) (info : Info) : Prop :=
  info.uid = uid ∧ info.mode = 0o600 ∧ info.nlink = 1

/-- The directories and the files of the stores are the owner's, with private modes. -/
structure Home.Private (home : Home) (uid : ℕ) : Prop where
  directory : ∀ path, (home.directory path).uid = uid ∧ (home.directory path).mode = 0o700
  file : ∀ e ∈ home.files journalName ++ home.files executionName, e.2.info.Private uid

/-! ### Names -/

section Names

variable {store : Name} {path rest : List Name}

def storeDirectory (store : Name) : List Char := "files/.runtime/".toList ++ store ++ ['/']

theorem journalDirectory_eq : journalDirectory = storeDirectory journalName := by decide

theorem executionDirectory_eq : executionDirectory = storeDirectory executionName := by decide

theorem storeDirectory_append {below : List Char} : storeDirectory store ++ below =
    "files/".toList ++ (runtimeName ++ '/' :: (store ++ '/' :: below)) := by
  have hruntime : "files/.runtime/".toList = "files/".toList ++ runtimeName ++ ['/'] := by
    decide
  have happend (files runtime : List Char) : files ++ runtime ++ ['/'] ++ store ++ ['/'] ++ below =
      files ++ (runtime ++ '/' :: (store ++ '/' :: below)) := by
    simp
  unfold storeDirectory
  rw [hruntime, happend]

theorem toList_memberName :
    (memberName path).toList = "files/".toList ++ ['/'].intercalate path := by
  unfold memberName
  exact String.toList_ofList

theorem toList_memberName_store (h : rest ≠ []) :
    (memberName (runtimeName :: store :: rest)).toList =
    storeDirectory store ++ ['/'].intercalate rest := by
  rw [toList_memberName, List.intercalate_cons_of_ne_nil (List.cons_ne_nil _ _),
    List.intercalate_cons_of_ne_nil h, storeDirectory_append]
  simp only [List.append_assoc, List.cons_append, List.nil_append]

theorem partsBelow_memberName (hrest : rest ≠ []) (h : ∀ name ∈ rest, '/' ∉ name) :
    partsBelow (storeDirectory store) (memberName (runtimeName :: store :: rest)) = rest := by
  rw [partsBelow, toList_memberName_store hrest, List.drop_left]
  exact List.splitOn_intercalate '/' h hrest

theorem under_memberName (hpath : path ≠ []) (h : ∀ name ∈ path, '/' ∉ name)
    (hstore : '/' ∉ store) :
    under (storeDirectory store) (memberName path) ↔
      ∃ rest, rest ≠ [] ∧ path = runtimeName :: store :: rest := by
  rw [under, List.isPrefixOf_iff_prefix]
  constructor
  · rintro ⟨below, hbelow⟩
    rw [toList_memberName] at hbelow
    have hjoined : ['/'].intercalate path = runtimeName ++ '/' :: (store ++ '/' :: below) := by
      rw [storeDirectory_append] at hbelow
      exact (List.append_cancel_left hbelow).symm
    have hpath' := List.splitOn_intercalate '/' h hpath
    rw [hjoined, List.splitOn_append_cons_self_of_not_mem (by decide),
      List.splitOn_append_cons_self_of_not_mem hstore] at hpath'
    exact ⟨below.splitOn '/', List.splitOn_ne_nil _ _, hpath'.symm⟩
  · rintro ⟨rest, hrest, rfl⟩
    exact ⟨_, (toList_memberName_store hrest).symm⟩

theorem not_isDir_fileMember {e : List Name × File} (hpath : e.1 ≠ [])
    (h : ∀ name ∈ e.1, name ≠ [] ∧ '/' ∉ name) : (fileMember e).isDir = false := by
  have hsplit := List.splitOn_intercalate '/' (fun name hname => (h name hname).2) hpath
  have hlast : (['/'].intercalate e.1).getLast? ≠ some '/' :=
    getLast_ne_of_components fun c hc => (h c (hsplit ▸ hc)).1
  have hne : ['/'].intercalate e.1 ≠ [] :=
    ne_nil_of_components fun c hc => (h c (hsplit ▸ hc)).1
  rw [Member.isDir, fileMember, toList_memberName, List.getLast?_append_of_ne_nil _ hne]
  exact decide_eq_false hlast

theorem journalMember?_memberName (hrest : rest ≠ []) (h : ∀ name ∈ rest, '/' ∉ name)
    {key : Digest × Digest} :
    journalMember? (memberName (runtimeName :: journalName :: rest)) = some key ↔
      rest = [key.1, intentFile key.2] ∧ isDigest key.1 ∧ isDigest key.2 := by
  rw [journalMember?, journalDirectory_eq, partsBelow_memberName hrest h]
  constructor
  · intro hkey
    split at hkey
    next run file =>
      obtain ⟨hdigests, heq⟩ := Option.ite_none_right_eq_some.mp hkey
      obtain rfl := Option.some.inj heq
      simp only [Bool.and_eq_true, decide_eq_true_eq] at hdigests
      obtain ⟨⟨hrun, hoperation⟩, hsuffix⟩ := hdigests
      refine ⟨?_, hrun, hoperation⟩
      rw [intentFile, ← hsuffix, List.take_append_drop]
    next => cases hkey
  · rintro ⟨rfl, hrun, hoperation⟩
    have hlength : key.2.length = 64 := by
      simp only [isDigest, Bool.and_eq_true, decide_eq_true_eq] at hoperation
      exact hoperation.1
    simp [intentFile, List.take_left' hlength, List.drop_left' hlength, hrun, hoperation]

theorem phaseFile_inj {phase phase' : Phase} (h : phaseFile phase = phaseFile phase') :
    phase = phase' := by
  cases phase <;> cases phase' <;> first | rfl | exact absurd h (by decide)

theorem executionMember?_memberName (hrest : rest ≠ []) (h : ∀ name ∈ rest, '/' ∉ name)
    {key : Digest × Digest} {phase : Phase} :
    executionMember? (memberName (runtimeName :: executionName :: rest)) = some (key, phase) ↔
      rest = [key.1, key.2, (phaseFile phase).toList] ∧ isDigest key.1 ∧ isDigest key.2 := by
  rw [executionMember?, executionDirectory_eq, partsBelow_memberName hrest h]
  constructor
  · intro hkey
    split at hkey
    next run operation file =>
      obtain ⟨hdigests, hphase⟩ := Option.ite_none_right_eq_some.mp hkey
      obtain ⟨phase', hfind, heq⟩ := Option.map_eq_some_iff.mp hphase
      obtain ⟨rfl, rfl⟩ := Prod.mk.inj heq
      have hfile : (phaseFile phase').toList = file := by simpa using List.find?_some hfind
      rw [Bool.and_eq_true] at hdigests
      exact ⟨by rw [hfile], hdigests⟩
    next => cases hkey
  · rintro ⟨rfl, hrun, hoperation⟩
    have hfind : (phases.find? fun phase' => (phaseFile phase').toList = (phaseFile phase).toList) =
        some phase := by
      cases phase <;> decide
    simp [hrun, hoperation, hfind]

end Names

/-! ### Files -/

section Files

variable {m : Reader} {home : Home} {uid : ℕ} {store : Name} {rest : List Name} {x : File}

def ReadsValue (m : Reader) (bytes : Bytes) (v : Value) : Prop :=
  bytes.length ≤ recordMaxBytes ∧ m.loadsUnique bytes = some v

/-- The bytes are the JSON of an intent that has these identifiers. -/
def ReadsIntent (m : Reader) (key : Digest × Digest) (bytes : Bytes)
    (intent : IntentRecord) : Prop :=
  ∃ v, ReadsValue m bytes v ∧ validateIntentRecord m.toVerifier v = some intent ∧
    identifies m key intent.request

/-- The file of an intent, which its names are the digests of. -/
structure IntentFile (m : Reader) (e : List Name × File)
    (entry : (Digest × Digest) × IntentRecord) : Prop where
  path : e.1 = [entry.1.1, intentFile entry.1.2]
  run : isDigest entry.1.1
  operation : isDigest entry.1.2
  reads : ReadsIntent m entry.1 e.2.bytes entry.2

/-- A file of an execution: its operation, its phase and the JSON in it. -/
structure PhaseFile (m : Reader) (e : List Name × File)
    (entry : (Digest × Digest) × Phase × Value) : Prop where
  path : e.1 = [entry.1.1, entry.1.2, (phaseFile entry.2.1).toList]
  run : isDigest entry.1.1
  operation : isDigest entry.1.2
  reads : ReadsValue m e.2.bytes entry.2.2

theorem isRecord_fileMember {e : List Name × File} (hpath : e.1 ≠ [])
    (h : ∀ name ∈ e.1, name ≠ [] ∧ '/' ∉ name) (hprivate : e.2.info.Private uid) :
    (fileMember e).isRecord ↔ e.2.bytes.length ≤ recordMaxBytes := by
  have htype : (fileMember e).fileType = 0o100000 := by
    rw [Member.fileType, fileMember, hprivate.2.1, Nat.shiftLeft_shiftRight]
    decide
  have hsize : (fileMember e).fileSize = e.2.bytes.length := rfl
  simp [Member.isRecord, not_isDir_fileMember hpath h, htype, hsize]

theorem readMember_fileMember {e : List Name × File} {journal : String} {v : Value} :
    readMember m journal (fileMember e) = .ok v ↔ ReadsValue m e.2.bytes v := by
  simp only [readMember, bind_eq_ok_iff, require_eq_ok_iff, ofOption_eq_ok_iff]
  constructor
  · rintro ⟨bytes, hbytes, _, ⟨hle, hlength⟩, hv⟩
    obtain rfl : e.2.bytes = bytes := Option.some.inj hbytes
    have htake : e.2.bytes.take (recordMaxBytes + 1) = e.2.bytes := by
      apply List.take_of_length_le
      have hsize : (e.2.bytes.take (recordMaxBytes + 1)).length = e.2.bytes.length := hlength
      omega
    rw [htake] at hle hv
    exact ⟨hle, hv⟩
  · rintro ⟨hle, hv⟩
    have htake : e.2.bytes.take (recordMaxBytes + 1) = e.2.bytes :=
      List.take_of_length_le (by omega)
    refine ⟨e.2.bytes, rfl, (), ?_, ?_⟩
    · rw [htake]
      exact ⟨hle, rfl⟩
    · rw [htake]
      exact hv

theorem files_eq : home.files store = child (child (filesOf home.tree) runtimeName) store := by
  rw [Home.files, Home.store, filesOf_child, filesOf_child]

theorem mem_files {path : List Name} : (path, x) ∈ home.files store ↔
    (runtimeName :: store :: path, x) ∈ filesOf home.tree := by
  rw [files_eq, mem_child, mem_child]

theorem Home.proper_store : Proper (home.store store) := home.proper.child.child

theorem Home.proper_files : Proper (home.files store) := Home.proper_store.filesOf

/-- A loop over the members that passes over all but those of a store is one over its files. -/
theorem foldlM_members {β : Type} {step : β → Member → Checked β} (hstore : '/' ∉ store)
    (hstores : [runtimeName, store] ∈ [[runtimeName], [runtimeName, journalName],
      [runtimeName, executionName]])
    (hskip : ∀ acc x, ¬ under (storeDirectory store) x.name → step acc x = .ok acc) (acc : β) :
    home.members.foldlM step acc = (home.files store).foldlM
      (fun acc e => step acc (fileMember (runtimeName :: store :: e.1, e.2))) acc := by
  suffices h : ∀ files : List (List Name × File), (∀ e ∈ files, e ∈ filesOf home.tree) → ∀ acc,
      (files.map fileMember).foldlM step acc = (child (child files runtimeName) store).foldlM
        (fun acc e => step acc (fileMember (runtimeName :: store :: e.1, e.2))) acc from
    files_eq ▸ h (filesOf home.tree) (fun _ he => he) acc
  intro files
  induction files with
  | nil =>
    intro _ acc
    rfl
  | cons e files ih =>
    intro hfiles acc
    rw [List.forall_mem_cons] at hfiles
    obtain ⟨hpath, hnames⟩ := home.named (e.1, some e.2) (mem_filesOf.mp hfiles.1)
    have hunder : under (storeDirectory store) (fileMember e).name ↔ _ :=
      under_memberName hpath (fun name hname => (hnames name hname).2) hstore
    rw [List.map_cons, List.foldlM_cons]
    by_cases hbelow : under (storeDirectory store) (fileMember e).name
    · obtain ⟨rest, hrest, heq⟩ := hunder.mp hbelow
      obtain ⟨path, x⟩ := e
      obtain rfl : path = runtimeName :: store :: rest := heq
      rw [child_cons_self, child_cons_self, List.foldlM_cons]
      exact bind_congr fun acc => ih hfiles.2 acc
    · have hchild : child (child (e :: files) runtimeName) store =
          child (child files runtimeName) store := by
        apply child_child_cons_of_ne
        intro rest heq
        have hrest : rest ≠ [] := by
          rintro rfl
          exact home.stores e hfiles.1 (heq ▸ hstores)
        exact hbelow (hunder.mpr ⟨rest, hrest, heq⟩)
      rw [hskip acc (fileMember e) hbelow, ok_bind, hchild]
      exact ih hfiles.2 acc

theorem Home.named_of_files {e : List Name × File} (he : e ∈ home.files store) :
    ∀ name ∈ runtimeName :: store :: e.1, name ≠ [] ∧ '/' ∉ name :=
  (home.named _ (mem_filesOf.mp (mem_files.mp he))).2

theorem Home.ne_nil_of_files (hstores : [runtimeName, store] ∈ [[runtimeName],
    [runtimeName, journalName], [runtimeName, executionName]]) {e : List Name × File}
    (he : e ∈ home.files store) : e.1 ≠ [] := by
  intro hnil
  have hmem := home.stores _ (mem_files.mp he)
  rw [hnil] at hmem
  exact hmem hstores

theorem under_store (hrest : rest ≠ [])
    (h : ∀ name ∈ runtimeName :: store :: rest, name ≠ [] ∧ '/' ∉ name) :
    under (storeDirectory store) (memberName (runtimeName :: store :: rest)) :=
  (under_memberName (List.cons_ne_nil _ _) (fun name hname => (h name hname).2)
    (h store (by simp)).2).mpr ⟨rest, hrest, rfl⟩

end Files

/-! ### Limits -/

/-- There are no more operations than a store may have, nor more of a run than it may have. -/
def Fits (keys : List (Digest × Digest)) : Prop :=
  keys.length ≤ journalMaxRecords ∧
    ∀ run, keys.countP (fun key => key.1 = run) ≤ journalMaxRecordsPerRun

theorem fits_concat {keys : List (Digest × Digest)} {key : Digest × Digest} (h : Fits keys) :
    Fits (keys ++ [key]) ↔ keys.length < journalMaxRecords ∧
      keys.countP (fun k => k.1 = key.1) < journalMaxRecordsPerRun := by
  simp only [Fits, List.length_append, List.length_singleton, List.countP_append,
    List.countP_singleton]
  constructor
  · rintro ⟨hlength, hruns⟩
    have hrun := hruns key.1
    simp only [decide_true, if_true] at hrun
    omega
  · rintro ⟨hlength, hrun⟩
    refine ⟨by omega, fun run => ?_⟩
    have hbefore := h.2 run
    by_cases heq : key.1 = run
    · subst heq
      simp only [decide_true, if_true]
      omega
    · simpa [heq] using hbefore

theorem Fits.of_append {keys new : List (Digest × Digest)} (h : Fits (keys ++ new)) :
    Fits keys := by
  refine ⟨?_, fun run => ?_⟩
  · have hlength := h.1
    rw [List.length_append] at hlength
    omega
  · have hrun := h.2 run
    rw [List.countP_append] at hrun
    omega

theorem fits_nil : Fits [] := by
  simp [Fits]

/-! ### Intents -/

section Journal

variable {m : Reader} {home : Home} {uid : ℕ} {e : List Name × File} {intents : Intents}

theorem addIntent_fileMember (h : home.Private uid) (he : e ∈ home.files journalName)
    {after : Intents} :
    addIntent m intents (fileMember (runtimeName :: journalName :: e.1, e.2)) = .ok after ↔
      ∃ entry, IntentFile m e entry ∧ intents.length < journalMaxRecords ∧
        intents.countP (fun e => e.1.1 = entry.1.1) < journalMaxRecordsPerRun ∧
          after = intents ++ [entry] := by
  have hne := Home.ne_nil_of_files (by simp) he
  have hnames := Home.named_of_files he
  have hprivate := h.file e (List.mem_append_left _ he)
  have hrest : ∀ name ∈ e.1, '/' ∉ name :=
    fun name hname => (hnames name (List.mem_cons_of_mem _ (List.mem_cons_of_mem _ hname))).2
  have hunder : under journalDirectory (fileMember (runtimeName :: journalName :: e.1, e.2)).name :=
    journalDirectory_eq ▸ under_store hne hnames
  have hrecord := isRecord_fileMember (e := (runtimeName :: journalName :: e.1, e.2))
    (List.cons_ne_nil _ _) hnames hprivate
  rw [addIntent, if_pos hunder]
  simp only [bind_eq_ok_iff, ofOption_eq_ok_iff, require_eq_ok_iff, pure_eq_ok_iff,
    readMember_fileMember, hrecord]
  constructor
  · rintro ⟨key, hkey, _, hsize, _, ⟨hlength, hcount⟩, v, hv, intent, hintent, _, hidentifies, rfl⟩
    obtain ⟨hpath, hrun, hoperation⟩ := (journalMember?_memberName hne hrest).mp hkey
    exact ⟨(key, intent), ⟨hpath, hrun, hoperation, v, hv, hintent, hidentifies⟩, hlength, hcount,
      rfl⟩
  · rintro ⟨⟨key, intent⟩, ⟨hpath, hrun, hoperation, v, hv, hintent, hidentifies⟩, hlength, hcount,
      rfl⟩
    exact ⟨key, (journalMember?_memberName hne hrest).mpr ⟨hpath, hrun, hoperation⟩, (), hv.1, (),
      ⟨hlength, hcount⟩, v, hv, intent, hintent, (), hidentifies, rfl⟩

theorem foldlM_addIntent (h : home.Private uid) {files : List (List Name × File)}
    (hfiles : ∀ e ∈ files, e ∈ home.files journalName) {before after : Intents}
    (hbefore : Fits (before.map Prod.fst)) :
    files.foldlM (fun intents e =>
        addIntent m intents (fileMember (runtimeName :: journalName :: e.1, e.2))) before =
          .ok after ↔
      ∃ new, List.Forall₂ (IntentFile m) files new ∧ after = before ++ new ∧
        Fits (after.map Prod.fst) := by
  induction files generalizing before with
  | nil =>
    rw [List.foldlM_nil, pure_eq_ok_iff]
    constructor
    · rintro rfl
      exact ⟨[], .nil, (List.append_nil _).symm, hbefore⟩
    · rintro ⟨new, hnew, rfl, -⟩
      cases hnew
      exact (List.append_nil _).symm
  | cons e files ih =>
    rw [List.forall_mem_cons] at hfiles
    simp only [List.foldlM_cons, bind_eq_ok_iff, addIntent_fileMember h hfiles.1]
    have hcount (entry : (Digest × Digest) × IntentRecord) :
        (before.map Prod.fst).countP (fun key => key.1 = entry.1.1) =
          before.countP fun e => e.1.1 = entry.1.1 := List.countP_map
    have hfits (entry : (Digest × Digest) × IntentRecord) :
        Fits ((before ++ [entry]).map Prod.fst) ↔ before.length < journalMaxRecords ∧
          before.countP (fun e => e.1.1 = entry.1.1) < journalMaxRecordsPerRun := by
      rw [List.map_append, List.map_singleton, fits_concat hbefore, List.length_map, hcount]
    constructor
    · rintro ⟨_, ⟨entry, hentry, hlength, hrun, rfl⟩, hrest⟩
      obtain ⟨new, hnew, rfl, hafter⟩ := (ih hfiles.2 ((hfits entry).mpr ⟨hlength, hrun⟩)).mp hrest
      exact ⟨entry :: new, .cons hentry hnew, by simp, hafter⟩
    · rintro ⟨new, hnew, rfl, hafter⟩
      cases hnew with
      | @cons _ entry _ new hentry hnew =>
        have hall : Fits ((before ++ [entry]).map Prod.fst ++ new.map Prod.fst) := by
          rw [← List.map_append, List.append_assoc]
          exact hafter
        have hstep := hall.of_append
        obtain ⟨hlength, hrun⟩ := (hfits entry).mp hstep
        refine ⟨_, ⟨entry, hentry, hlength, hrun, rfl⟩, (ih hfiles.2 hstep).mpr ⟨new, hnew, ?_, ?_⟩⟩
        · simp
        · simpa using hafter

theorem verifyArchivedOperationJournal_eq_ok_iff (h : home.Private uid) :
    verifyArchivedOperationJournal m home.members = .ok intents ↔
      List.Forall₂ (IntentFile m) (home.files journalName) intents ∧
        Fits (intents.map Prod.fst) := by
  have hslash : '/' ∉ journalName := by decide
  have hskip (acc : Intents) (x : Member) (hx : ¬ under (storeDirectory journalName) x.name) :
      addIntent m acc x = .ok acc := by
    rw [addIntent, journalDirectory_eq, if_neg hx]
    rfl
  have hnil : Fits (([] : Intents).map Prod.fst) := fits_nil
  rw [verifyArchivedOperationJournal, foldlM_members hslash (by simp) hskip,
    foldlM_addIntent h (fun _ he => he) hnil]
  simp

end Journal

/-! ### Operations -/

section Grouping

variable {operations : Operations} {key key' : Digest × Digest} {phase : Phase} {v : Value}
  {xs : List ((Digest × Digest) × Phase × Value)}

def recordsOf (xs : List ((Digest × Digest) × Phase × Value)) (key : Digest × Digest) :
    List (Phase × Value) :=
  xs.filterMap fun x => if x.1 = key then some x.2 else none

def group (xs : List ((Digest × Digest) × Phase × Value)) : Operations :=
  xs.foldl (fun operations x => addPhase (setDefault operations x.1) x.1 x.2.1 x.2.2) []

theorem group_concat {x : (Digest × Digest) × Phase × Value} :
    group (xs ++ [x]) = addPhase (setDefault (group xs) x.1) x.1 x.2.1 x.2.2 := by
  rw [group, group, List.foldl_append, List.foldl_cons, List.foldl_nil]

@[simp] theorem keys_addPhase :
    (addPhase operations key phase v).map Prod.fst = operations.map Prod.fst := by
  rw [addPhase, List.map_map]
  apply List.map_congr_left
  intro e _
  by_cases h : e.1 = key <;> simp [h]

theorem mem_keys_setDefault :
    key' ∈ (setDefault operations key).map Prod.fst ↔ key' ∈ operations.map Prod.fst ∨
      key' = key := by
  rw [setDefault]
  split
  next h =>
    obtain ⟨e, he, heq⟩ := List.any_eq_true.mp h
    have hmem : key ∈ operations.map Prod.fst :=
      List.mem_map.mpr ⟨e, he, of_decide_eq_true heq⟩
    constructor
    · exact .inl
    · rintro (hkey | rfl)
      · exact hkey
      · exact hmem
  next => simp

theorem nodup_keys_setDefault (h : (operations.map Prod.fst).Nodup) :
    ((setDefault operations key).map Prod.fst).Nodup := by
  rw [setDefault]
  split
  next => exact h
  next hnone =>
    have hnotMem : key ∉ operations.map Prod.fst := by
      intro hkey
      obtain ⟨e, he, rfl⟩ := List.mem_map.mp hkey
      exact hnone (List.any_eq_true.mpr ⟨e, he, decide_eq_true rfl⟩)
    rw [List.map_append, List.map_singleton, List.nodup_append]
    refine ⟨h, List.nodup_singleton _, ?_⟩
    rintro a ha b hb rfl
    have hkey : a = key := List.mem_singleton.mp hb
    exact hnotMem (hkey ▸ ha)

theorem recordsOf_concat {x : (Digest × Digest) × Phase × Value} :
    recordsOf (xs ++ [x]) key = recordsOf xs key ++ if x.1 = key then [x.2] else [] := by
  rw [recordsOf, recordsOf, List.filterMap_append]
  by_cases h : x.1 = key <;> simp [h]

theorem mem_recordsOf : (phase, v) ∈ recordsOf xs key ↔ (key, phase, v) ∈ xs := by
  simp only [recordsOf, List.mem_filterMap, Option.ite_none_right_eq_some, Option.some.injEq]
  constructor
  · rintro ⟨⟨_, _⟩, hmem, rfl, rfl⟩
    exact hmem
  · intro h
    exact ⟨_, h, rfl, rfl⟩

/-- The operations are those with a record, once each, with all their records. -/
structure Grouped (xs : List ((Digest × Digest) × Phase × Value)) (operations : Operations) :
    Prop where
  nodup : (operations.map Prod.fst).Nodup
  mem_keys : ∀ key, key ∈ operations.map Prod.fst ↔ key ∈ xs.map Prod.fst
  records : ∀ e ∈ operations, e.2 = recordsOf xs e.1

theorem grouped_group : Grouped xs (group xs) := by
  induction xs using List.reverseRecOn with
  | nil => exact ⟨List.nodup_nil, by simp [group], by simp [group]⟩
  | append_singleton xs x ih =>
    rw [group_concat]
    refine ⟨?_, fun key => ?_, fun e he => ?_⟩
    · rw [keys_addPhase]
      exact nodup_keys_setDefault ih.nodup
    · rw [keys_addPhase, mem_keys_setDefault, ih.mem_keys]
      simp
    · obtain ⟨d, hd, rfl⟩ := List.mem_map.mp he
      have hrecords : d.2 = recordsOf xs d.1 := by
        rw [setDefault] at hd
        split at hd
        next => exact ih.records d hd
        next hnone =>
          rcases List.mem_append.mp hd with hd | hd
          · exact ih.records d hd
          · -- A new operation has no records before its first.
            obtain rfl := List.mem_singleton.mp hd
            refine (List.filterMap_eq_nil_iff.mpr fun y hy => if_neg fun heq => hnone ?_).symm
            obtain ⟨e, he, hkey⟩ := List.mem_map.mp
              ((ih.mem_keys x.1).mpr (List.mem_map.mpr ⟨y, hy, heq⟩))
            exact List.any_eq_true.mpr ⟨e, he, decide_eq_true hkey⟩
      by_cases hkey : d.1 = x.1
      · rw [if_pos hkey, recordsOf_concat, if_pos hkey.symm, ← hrecords]
      · rw [if_neg hkey, recordsOf_concat, if_neg (Ne.symm hkey), List.append_nil, hrecords]

theorem length_group_le {ys : List ((Digest × Digest) × Phase × Value)} :
    (group xs).length ≤ (group (xs ++ ys)).length := by
  have hsub : (group xs).map Prod.fst ⊆ (group (xs ++ ys)).map Prod.fst := by
    intro key hkey
    rw [grouped_group.mem_keys] at hkey ⊢
    rw [List.map_append]
    exact List.mem_append_left _ hkey
  have hle := (List.subperm_of_subset grouped_group.nodup hsub).length_le
  rwa [List.length_map, List.length_map] at hle

end Grouping

section Execution

variable {m : Reader} {home : Home} {uid : ℕ} {e : List Name × File} {operations : Operations}

def recordPath (x : (Digest × Digest) × Phase × Value) : List Name :=
  [x.1.1, x.1.2, (phaseFile x.2.1).toList]

theorem recordPath_eq_iff {x y : (Digest × Digest) × Phase × Value} :
    recordPath x = recordPath y ↔ x.1 = y.1 ∧ x.2.1 = y.2.1 := by
  constructor
  · intro h
    simp only [recordPath, List.cons.injEq, and_true] at h
    exact ⟨Prod.ext h.1 h.2.1, phaseFile_inj (String.toList_inj.mp h.2.2)⟩
  · rintro ⟨hkey, hphase⟩
    rw [recordPath, recordPath, hkey, hphase]

theorem addRecord_fileMember (h : home.Private uid) (he : e ∈ home.files executionName)
    {after : Operations} :
    addRecord m operations (fileMember (runtimeName :: executionName :: e.1, e.2)) = .ok after ↔
      ∃ x, PhaseFile m e x ∧
        ((setDefault operations x.1).all fun e => e.1 ≠ x.1 || e.2.all fun r => r.1 ≠ x.2.1) ∧
          (setDefault operations x.1).length ≤ executionMaxOperations ∧
            after = addPhase (setDefault operations x.1) x.1 x.2.1 x.2.2 := by
  have hne := Home.ne_nil_of_files (by simp) he
  have hnames := Home.named_of_files he
  have hprivate := h.file e (List.mem_append_right _ he)
  have hrest : ∀ name ∈ e.1, '/' ∉ name :=
    fun name hname => (hnames name (List.mem_cons_of_mem _ (List.mem_cons_of_mem _ hname))).2
  have hunder :
      under executionDirectory (fileMember (runtimeName :: executionName :: e.1, e.2)).name :=
    executionDirectory_eq ▸ under_store hne hnames
  have hrecord := isRecord_fileMember (e := (runtimeName :: executionName :: e.1, e.2))
    (List.cons_ne_nil _ _) hnames hprivate
  rw [addRecord, if_pos hunder]
  simp only [bind_eq_ok_iff, ofOption_eq_ok_iff, require_eq_ok_iff, pure_eq_ok_iff,
    readMember_fileMember, hrecord]
  constructor
  · rintro ⟨⟨key, phase⟩, hkey, _, hsize, _, hnew, _, hlength, v, hv, rfl⟩
    obtain ⟨hpath, hrun, hoperation⟩ := (executionMember?_memberName hne hrest).mp hkey
    exact ⟨(key, phase, v), ⟨hpath, hrun, hoperation, hv⟩, hnew, hlength, rfl⟩
  · rintro ⟨⟨key, phase, v⟩, ⟨hpath, hrun, hoperation, hv⟩, hnew, hlength, rfl⟩
    exact ⟨(key, phase), (executionMember?_memberName hne hrest).mpr ⟨hpath, hrun, hoperation⟩, (),
      hv.1, (), hnew, (), hlength, v, hv, rfl⟩

/-- The check for a second record of a phase passes if no record had this path. -/
theorem all_setDefault_group {xs : List ((Digest × Digest) × Phase × Value)}
    {x : (Digest × Digest) × Phase × Value} (h : recordPath x ∉ xs.map recordPath) :
    (setDefault (group xs) x.1).all fun e => e.1 ≠ x.1 || e.2.all fun r => r.1 ≠ x.2.1 := by
  have hgroup : ∀ e ∈ group xs, (e.1 ≠ x.1 || e.2.all fun r => r.1 ≠ x.2.1) = true := by
    intro e he
    by_cases hkey : e.1 = x.1
    · rw [Bool.or_eq_true, List.all_eq_true]
      right
      rintro ⟨phase, v⟩ hr
      rw [grouped_group.records e he, mem_recordsOf] at hr
      refine decide_eq_true fun hphase => h ?_
      exact List.mem_map.mpr ⟨_, hr, recordPath_eq_iff.mpr ⟨hkey, hphase⟩⟩
    · simp [hkey]
  rw [setDefault]
  split
  next => exact List.all_eq_true.mpr hgroup
  next =>
    rw [List.all_append, List.all_eq_true.mpr hgroup]
    simp

theorem length_setDefault_group {xs : List ((Digest × Digest) × Phase × Value)}
    {x : (Digest × Digest) × Phase × Value} :
    (setDefault (group xs) x.1).length = (group (xs ++ [x])).length := by
  rw [group_concat, addPhase, List.length_map]

theorem foldlM_addRecord (h : home.Private uid) {files : List (List Name × File)}
    (hfiles : ∀ e ∈ files, e ∈ home.files executionName)
    {before : List ((Digest × Digest) × Phase × Value)} {after : Operations}
    (hnodup : (before.map recordPath ++ files.map Prod.fst).Nodup)
    (hbefore : (group before).length ≤ executionMaxOperations) :
    files.foldlM (fun operations e => addRecord m operations
        (fileMember (runtimeName :: executionName :: e.1, e.2))) (group before) = .ok after ↔
      ∃ new, List.Forall₂ (PhaseFile m) files new ∧ after = group (before ++ new) ∧
        after.length ≤ executionMaxOperations := by
  induction files generalizing before with
  | nil =>
    rw [List.foldlM_nil, pure_eq_ok_iff]
    constructor
    · rintro rfl
      exact ⟨[], .nil, by rw [List.append_nil], hbefore⟩
    · rintro ⟨new, hnew, rfl, -⟩
      cases hnew
      rw [List.append_nil]
  | cons e files ih =>
    rw [List.forall_mem_cons] at hfiles
    have hpath {x : (Digest × Digest) × Phase × Value} (hx : PhaseFile m e x) :
        e.1 = recordPath x := hx.path
    have hnext {x : (Digest × Digest) × Phase × Value} (hx : PhaseFile m e x) :
        ((before ++ [x]).map recordPath ++ files.map Prod.fst).Nodup := by
      rw [List.map_append, List.append_assoc, List.map_singleton, ← hpath hx]
      exact hnodup
    have hfresh {x : (Digest × Digest) × Phase × Value} (hx : PhaseFile m e x) :
        recordPath x ∉ before.map recordPath := by
      intro hmem
      have hdisjoint := List.disjoint_of_nodup_append hnodup
      exact hdisjoint hmem (hpath hx ▸ List.mem_map_of_mem List.mem_cons_self)
    simp only [List.foldlM_cons, bind_eq_ok_iff, addRecord_fileMember h hfiles.1]
    constructor
    · rintro ⟨_, ⟨x, hx, -, hlength, rfl⟩, hrest⟩
      rw [length_setDefault_group] at hlength
      rw [← group_concat] at hrest
      obtain ⟨new, hnew, rfl, hafter⟩ := (ih hfiles.2 (hnext hx) hlength).mp hrest
      exact ⟨x :: new, .cons hx hnew, by simp, hafter⟩
    · rintro ⟨new, hnew, rfl, hafter⟩
      cases hnew with
      | @cons _ x _ new hx hnew =>
        have hsplit : before ++ x :: new = before ++ [x] ++ new := by simp
        rw [hsplit] at hafter
        have hlength : (group (before ++ [x])).length ≤ executionMaxOperations :=
          length_group_le.trans hafter
        refine ⟨_, ⟨x, hx, all_setDefault_group (hfresh hx), ?_, rfl⟩, ?_⟩
        · rw [length_setDefault_group]
          exact hlength
        · rw [← group_concat]
          refine (ih hfiles.2 (hnext hx) hlength).mpr ⟨new, hnew, ?_, ?_⟩
          · rw [hsplit]
          · rw [hsplit]
            exact hafter

theorem addRecord_members_eq_ok_iff (h : home.Private uid) :
    home.members.foldlM (addRecord m) [] = .ok operations ↔
      ∃ xs, List.Forall₂ (PhaseFile m) (home.files executionName) xs ∧ operations = group xs ∧
        operations.length ≤ executionMaxOperations := by
  have hslash : '/' ∉ executionName := by decide
  have hskip (acc : Operations) (x : Member) (hx : ¬ under (storeDirectory executionName) x.name) :
      addRecord m acc x = .ok acc := by
    rw [addRecord, executionDirectory_eq, if_neg hx]
    rfl
  have hnodup : ((([] : List ((Digest × Digest) × Phase × Value)).map recordPath) ++
      (home.files executionName).map Prod.fst).Nodup := Home.proper_files.nodup
  rw [foldlM_members hslash (by simp) hskip]
  exact foldlM_addRecord h (fun _ he => he) hnodup (Nat.zero_le _)

/-- What the verification has of the records of an operation. -/
def OperationRead (m : Reader) (intents : Intents)
    (operation : (Digest × Digest) × List (Phase × Value)) (chain : Chain) : Prop :=
  ∃ intent, intents.lookup operation.1 = some intent ∧
    validateExecutionRecords m.toVerifier intent operation.2 = .ok chain ∧
      chain.dispatch.all fun dispatch => identifies m operation.1 dispatch.request

theorem checkOperation_eq_ok_iff {intents : Intents} {runs after : List Digest}
    {operation : (Digest × Digest) × List (Phase × Value)} :
    checkOperation m intents runs operation = .ok after ↔
      (∃ chain, OperationRead m intents operation chain) ∧
        runs.count operation.1.1 < executionMaxOperationsPerRun ∧
          after = runs ++ [operation.1.1] := by
  simp only [checkOperation, operationIntent, OperationRead, bind_eq_ok_iff, require_eq_ok_iff,
    ofOption_eq_ok_iff, pure_eq_ok_iff]
  constructor
  · rintro ⟨intent, ⟨_, hcount, hintent⟩, chain, hchain, _, hidentifies, rfl⟩
    exact ⟨⟨chain, intent, hintent, hchain, hidentifies⟩, hcount, rfl⟩
  · rintro ⟨⟨chain, intent, hintent, hchain, hidentifies⟩, hcount, rfl⟩
    exact ⟨intent, ⟨(), hcount, hintent⟩, chain, hchain, (), hidentifies, rfl⟩

theorem foldlM_checkOperation {intents : Intents} {runs : List Digest}
    (hruns : ∀ run, runs.count run ≤ executionMaxOperationsPerRun) :
    (∃ after, operations.foldlM (checkOperation m intents) runs = .ok after) ↔
      (∀ operation ∈ operations, ∃ chain, OperationRead m intents operation chain) ∧
        ∀ run, (runs ++ operations.map fun e => e.1.1).count run ≤
          executionMaxOperationsPerRun := by
  induction operations generalizing runs with
  | nil =>
    constructor
    · intro _
      exact ⟨by simp, by simpa using hruns⟩
    · intro _
      exact ⟨runs, rfl⟩
  | cons operation operations ih =>
    simp only [List.foldlM_cons, bind_eq_ok_iff, checkOperation_eq_ok_iff]
    have hstep : (∀ run, (runs ++ [operation.1.1]).count run ≤ executionMaxOperationsPerRun) ↔
        runs.count operation.1.1 < executionMaxOperationsPerRun := by
      simp only [List.count_append, List.count_singleton]
      constructor
      · intro h
        have hrun := h operation.1.1
        rw [if_pos (beq_self_eq_true _)] at hrun
        omega
      · intro h run
        have hrun := hruns run
        split
        next heq =>
          obtain rfl := eq_of_beq heq
          omega
        next => omega
    have hsplit : runs ++ (operation :: operations).map (fun e => e.1.1) =
        runs ++ [operation.1.1] ++ operations.map fun e => e.1.1 := by simp
    rw [hsplit]
    constructor
    · rintro ⟨after, _, ⟨hchain, hcount, rfl⟩, hrest⟩
      obtain ⟨hchains, hcounts⟩ := (ih (hstep.mpr hcount)).mp ⟨after, hrest⟩
      exact ⟨List.forall_mem_cons.mpr ⟨hchain, hchains⟩, hcounts⟩
    · rintro ⟨hchains, hcounts⟩
      rw [List.forall_mem_cons] at hchains
      have hbefore : ∀ run, (runs ++ [operation.1.1]).count run ≤ executionMaxOperationsPerRun := by
        intro run
        have hrun := hcounts run
        rw [List.count_append] at hrun
        omega
      obtain ⟨after, hrest⟩ := (ih hbefore).mpr ⟨hchains.2, hcounts⟩
      exact ⟨after, _, ⟨hchains.1, hstep.mp hbefore, rfl⟩, hrest⟩

/-- The executions are accepted when all their files are records, the records of each operation are
those of its intent, and there are not too many. -/
theorem verifyArchivedPatchExecution_eq_ok_iff (h : home.Private uid) {intents : Intents} :
    verifyArchivedPatchExecution m intents home.members = .ok () ↔
      ∃ xs, List.Forall₂ (PhaseFile m) (home.files executionName) xs ∧
        (∀ operation ∈ group xs, ∃ chain, OperationRead m intents operation chain) ∧
          Fits ((group xs).map Prod.fst) := by
  have hcount (operations : Operations) :
      (∀ run, (([] : List Digest) ++ operations.map fun e => e.1.1).count run ≤
          executionMaxOperationsPerRun) ↔
        ∀ run, (operations.map Prod.fst).countP (fun key => key.1 = run) ≤
          journalMaxRecordsPerRun := by
    apply forall_congr'
    intro run
    have hbeq : ((fun x : Digest => x == run) ∘ fun e : (Digest × Digest) × List (Phase × Value) =>
        e.1.1) = (fun key : Digest × Digest => decide (key.1 = run)) ∘ Prod.fst := by
      funext e
      exact Bool.eq_iff_iff.mpr (beq_iff_eq.trans decide_eq_true_iff.symm)
    rw [List.nil_append, List.count, List.countP_map, List.countP_map, hbeq]
    exact Iff.rfl
  have hfold (operations : Operations) :
      (∃ after, operations.foldlM (checkOperation m intents) [] = .ok after) ↔ _ :=
    foldlM_checkOperation (by simp)
  simp only [verifyArchivedPatchExecution, bind_eq_ok_iff, addRecord_members_eq_ok_iff h,
    pure_eq_ok_iff, and_true]
  constructor
  · rintro ⟨_, ⟨xs, hxs, rfl, hlength⟩, hrest⟩
    obtain ⟨hchains, hcounts⟩ := (hfold _).mp hrest
    exact ⟨xs, hxs, hchains, by rwa [List.length_map], (hcount _).mp hcounts⟩
  · rintro ⟨xs, hxs, hchains, hlength, hcounts⟩
    rw [List.length_map] at hlength
    exact ⟨_, ⟨xs, hxs, rfl, hlength⟩, (hfold _).mpr ⟨hchains, (hcount _).mpr hcounts⟩⟩

end Execution

end OrchKit.Archive
