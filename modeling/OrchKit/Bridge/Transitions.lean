import OrchKit.Bridge.Appended

/-! # How a patch proceeds

What calls for one operation do to the state, as a system of transitions: the journal grows,
staging files come and go in the store, a warranted record is linked, the staging file beside
the target is written or removed, and the replacement is installed, which is counted. From
the records alone and the two files it can be told how far a patch has come.
-/

namespace OrchKit.Bridge

open Except Program Table

namespace DispatchRecord

def target (d : DispatchRecord) : String := d.request.target

def staging (d : DispatchRecord) : String := beside d.request.target d.tempName

end DispatchRecord

section Files

variable (m : Machine) (files : Files) (d : DispatchRecord) (p : PublicationRecord)

def OriginalAt : Prop := ∃ file, files.lookup d.target = some file ∧
  file.capturable m.uid.toNat ∧ file.content m.digests = d.original

def StagedAt : Prop := ∃ file, files.lookup d.staging = some file ∧
  file.capturable m.uid.toNat ∧ file.content m.digests = p.staged

def InstalledAt : Prop := ∃ file, files.lookup d.target = some file ∧
  file.capturable m.uid.toNat ∧ sameStableMaterial (file.content m.digests) p.staged

end Files

/-- The files once a staging file has been renamed over a target. -/
def renamed (files : Files) (temp target : String) (file : Inode) (stamp : UInt64) : Files :=
  (files.delete temp).put target { file with ctimeNs := stamp }

/-- What is known of the files when a record is linked. -/
def Warranted (m : Machine) (s : State) (record : ExecutionRecord) : Prop :=
  match record with
  | .dispatch d => OriginalAt m s.files d ∧ d.anchors = s.anchors d.target
  | .publication p => ∃ d, (s.chainFor m record).dispatch = some d ∧ StagedAt m s.files d p
  | .result r => ∃ d, (s.chainFor m record).dispatch = some d ∧
    match r.disposition with
    | .applied => ∃ p, (s.chainFor m record).publication = some p ∧ InstalledAt m s.files d p
    | .notApplied => OriginalAt m s.files d

/-- What calls for one operation do to the state and to the count of installations. -/
inductive PatchStep (m : Machine) (rh oh : Digest) : State × ℕ → State × ℕ → Prop
  | journal {s : State} {n : ℕ} (journal : Option (Table Digest IntentDir))
    (hkept : s.runtime.KeepsIntents m.digests { s.runtime with journal := journal }) :
    PatchStep m rh oh (s, n) ({ s with runtime := { s.runtime with journal := journal } }, n)
  | store {s : State} {n : ℕ} {r : Runtime} (h : Runtime.Changed rh oh id s.runtime r) :
    PatchStep m rh oh (s, n) ({ s with runtime := r }, n)
  | record {s : State} {n : ℕ} {r : Runtime} {record : ExecutionRecord}
    (hr : record.runHash m = rh) (ho : record.operationHash m = oh) (ha : Admitted m record s)
    (hw : Warranted m s record) (h : Runtime.Changed rh oh (·.put record) s.runtime r) :
    PatchStep m rh oh (s, n) ({ s with runtime := r }, n)
  | fill {s : State} {n : ℕ} {d : DispatchRecord} {file : Inode}
    (hd : (s.runtime.chainAt rh oh).dispatch = some d)
    (hp : (s.runtime.chainAt rh oh).publication = none) (hne : d.staging ≠ d.target) :
    PatchStep m rh oh (s, n) ({ s with files := s.files.put d.staging file }, n)
  | discard {s : State} {n : ℕ} {d : DispatchRecord}
    (hd : (s.runtime.chainAt rh oh).dispatch = some d) (hne : d.staging ≠ d.target) :
    PatchStep m rh oh (s, n) ({ s with files := s.files.delete d.staging }, n)
  | install {s : State} {n : ℕ} {d : DispatchRecord} {p : PublicationRecord} {file : Inode}
    {stamp : UInt64} (hd : (s.runtime.chainAt rh oh).dispatch = some d)
    (hp : (s.runtime.chainAt rh oh).publication = some p)
    (hr : (s.runtime.chainAt rh oh).result = none) (ho : OriginalAt m s.files d)
    (hf : s.files.lookup d.staging = some file) (hc : file.capturable m.uid.toNat)
    (hs : file.content m.digests = p.staged) (hne : d.staging ≠ d.target) :
    PatchStep m rh oh (s, n)
      ({ s with files := renamed s.files d.staging d.target file stamp }, n + 1)

/-- How far a patch has come, by its records, its target and the installations so far. -/
inductive Stage (m : Machine) (files : Files) : Chain → ℕ → Prop
  | blank : Stage m files {} 0
  | dispatched {d : DispatchRecord} (ho : OriginalAt m files d) :
    Stage m files { dispatch := d } 0
  | published {d : DispatchRecord} {p : PublicationRecord} (ho : OriginalAt m files d)
    (hi : p.staged.identity.ino ≠ d.original.identity.ino) :
    Stage m files { dispatch := d, publication := p } 0
  | installed {d : DispatchRecord} {p : PublicationRecord} (ht : InstalledAt m files d p)
    (hi : p.staged.identity.ino ≠ d.original.identity.ino) :
    Stage m files { dispatch := d, publication := p } 1
  | settled {d : DispatchRecord} {p : Option PublicationRecord} {r : ResultRecord} {n : ℕ}
    (hn : n = if r.disposition = .applied then 1 else 0) : Stage m files ⟨some d, p, some r⟩ n

/-- The records of an operation are where they should be for its files. -/
def Tracked (m : Machine) (rh oh : Digest) (c : State × ℕ) : Prop :=
  Stage m c.1.files (c.1.runtime.chainAt rh oh) c.2

variable {m : Machine} {rh oh : Digest} {files files' : Files} {d : DispatchRecord}
  {p : PublicationRecord} {chain : Chain} {n : ℕ} {c c' : State × ℕ}

/-! ### Files that stay -/

theorem OriginalAt.congr (h : OriginalAt m files d)
    (ht : files'.lookup d.target = files.lookup d.target) : OriginalAt m files' d := by
  rwa [OriginalAt, ht]

theorem InstalledAt.congr (h : InstalledAt m files d p)
    (ht : files'.lookup d.target = files.lookup d.target) : InstalledAt m files' d p := by
  rwa [InstalledAt, ht]

theorem Stage.congr (h : Stage m files chain n)
    (hd : ∀ d, chain.dispatch = some d → files'.lookup d.target = files.lookup d.target) :
    Stage m files' chain n := by
  cases h with
  | blank => exact .blank
  | dispatched ho => exact .dispatched (ho.congr (hd _ rfl))
  | published ho hi => exact .published (ho.congr (hd _ rfl)) hi
  | installed ht hi => exact .installed (ht.congr (hd _ rfl)) hi
  | settled hn => exact .settled hn

theorem OriginalAt.not_installedAt (ho : OriginalAt m files d)
    (hi : p.staged.identity.ino ≠ d.original.identity.ino) : ¬ InstalledAt m files d p := by
  obtain ⟨file, hf, -, hc⟩ := ho
  rintro ⟨file', hf', -, hs⟩
  cases hf.symm.trans hf'
  rw [hc] at hs
  simp only [sameStableMaterial, Bool.and_eq_true, decide_eq_true_eq] at hs
  exact hi (congrArg FileSignature.ino hs.1.1.1).symm

/-! ### One step -/

theorem Stage.record (h : Stage m files chain n) {record : ExecutionRecord}
    (hfresh : chain.record record.phase = none) (hopen : chain.result = none)
    {intent : IntentRecord} (hvalid : (chain.put record).valid m.digests m.uid.toNat intent = true)
    (hw : match record with
      | .dispatch d => OriginalAt m files d
      | .publication p => ∃ d, chain.dispatch = some d ∧ StagedAt m files d p
      | .result r => ∃ d, chain.dispatch = some d ∧
        match r.disposition with
        | .applied => ∃ p, chain.publication = some p ∧ InstalledAt m files d p
        | .notApplied => OriginalAt m files d) : Stage m files (chain.put record) n := by
  cases h with
  | blank =>
    cases record with
    | dispatch d => exact .dispatched hw
    | publication p =>
      obtain ⟨d, hd, -⟩ := hw
      cases hd
    | result r =>
      obtain ⟨d, hd, -⟩ := hw
      cases hd
  | @dispatched d ho =>
    cases record with
    | dispatch d => cases hfresh
    | publication p =>
      obtain ⟨_, ⟨⟩, hs⟩ := hw
      refine .published ho ?_
      simp only [Chain.valid, Chain.put, Option.all_some, Chain.publicationMatches,
        Bool.and_eq_true, decide_eq_true_eq] at hvalid
      tauto
    | result r =>
      obtain ⟨_, ⟨⟩, hw⟩ := hw
      refine .settled ?_
      cases hr : r.disposition with
      | applied =>
        rw [hr] at hw
        obtain ⟨p, ⟨⟩, -⟩ := hw
      | notApplied => rfl
  | published ho hi =>
    cases record with
    | dispatch d => cases hfresh
    | publication p => cases hfresh
    | result r =>
      obtain ⟨_, ⟨⟩, hw⟩ := hw
      refine .settled ?_
      cases hr : r.disposition with
      | applied =>
        rw [hr] at hw
        obtain ⟨_, ⟨⟩, ht⟩ := hw
        exact absurd ht (ho.not_installedAt hi)
      | notApplied => rfl
  | installed ht hi =>
    cases record with
    | dispatch d => cases hfresh
    | publication p => cases hfresh
    | result r =>
      obtain ⟨_, ⟨⟩, hw⟩ := hw
      refine .settled ?_
      cases hr : r.disposition with
      | applied => rfl
      | notApplied =>
        rw [hr] at hw
        exact absurd ht (OriginalAt.not_installedAt hw hi)
  | settled hn => cases hopen

theorem Stage.install (h : Stage m files chain n) {file : Inode} {stamp : UInt64}
    (hd : chain.dispatch = some d) (hp : chain.publication = some p) (hr : chain.result = none)
    (ho : OriginalAt m files d) (hc : file.capturable m.uid.toNat)
    (hs : file.content m.digests = p.staged) :
    Stage m (renamed files d.staging d.target file stamp) chain (n + 1) := by
  cases h with
  | blank => cases hd
  | dispatched => cases hp
  | published _ hi =>
    cases hd
    cases hp
    refine .installed ⟨{ file with ctimeNs := stamp }, ?_, hc, ?_⟩ hi
    · rw [renamed, lookup_put, if_pos rfl]
    · rw [← hs]
      simp [sameStableMaterial, FileSignature.stable, Inode.content, Inode.signature]
  | installed ht hi =>
    cases hd
    cases hp
    exact absurd ht (ho.not_installedAt hi)
  | settled => cases hr

theorem PatchStep.tracked (h : PatchStep m rh oh c c') (ht : Tracked m rh oh c) :
    Tracked m rh oh c' := by
  cases h with
  | journal => exact ht
  | store h =>
    rw [Tracked, h.chain]
    exact ht
  | @record s n r record hr ho ha hw h =>
    rw [Tracked, h.chain]
    subst hr ho
    obtain ⟨intent, -, hvalid⟩ := ha.valid
    refine Stage.record ht ha.fresh ha.open_ hvalid ?_
    cases record with
    | dispatch d => exact hw.1
    | publication p => exact hw
    | result r => exact hw
  | fill hd hp hne =>
    refine Stage.congr ht fun d' hd' => ?_
    cases hd.symm.trans hd'
    rw [lookup_put, if_neg hne.symm]
  | discard hd hne =>
    refine Stage.congr ht fun d' hd' => ?_
    cases hd.symm.trans hd'
    rw [lookup_delete, if_neg hne.symm]
  | install hd hp hr ho hf hc hs hne => exact Stage.install ht hd hp hr ho hc hs

end OrchKit.Bridge
