import OrchKit.Bridge.History

/-! # Patches that are published but not settled

What holds of a published patch at every point of its history, as long as others leave its
target, its staging file and the store alone: the store can be read again once the staging
files of appends are gone from its directory, and the staged replacement is where it was
staged, or has been removed, or is installed.
-/

namespace OrchKit.Bridge

open Except Program Table

namespace Runtime

variable {digests : Digests} {uid : ℕ} {s t : Runtime} {rh oh : Digest}

/-- The store without the staging files in the directory of one operation. -/
def cleared (s : Runtime) (rh oh : Digest) : Runtime :=
  s.updateOp rh oh fun dir => { dir with temps := [] }

theorem KeepsIntents.readOperation (h : KeepsIntents digests s t) {dir : OpDir} {chain : Chain}
    (hr : s.readOperation digests uid rh oh dir = some chain) :
    t.readOperation digests uid rh oh dir = some chain := by
  obtain ⟨hc, ht, d, intent, hd, hrun, hop, hi, hv⟩ := readOperation_eq_some_iff.mp hr
  exact readOperation_eq_some_iff.mpr ⟨hc, ht, d, intent, hd, hrun, hop, h _ _ _ hi, hv⟩

theorem KeepsIntents.census (h : KeepsIntents digests s t) (he : t.execution = s.execution)
    (hc : s.census digests uid ≠ .unknown) : t.census digests uid ≠ .unknown := by
  intro hu
  obtain ⟨runs, hruns, hn⟩ := census_eq_unknown_iff.mp hu
  rw [he] at hruns
  refine hc (census_eq_unknown_iff.mpr ⟨runs, hruns, fun hr => hn ?_⟩)
  refine ⟨hr.ne_nil, hr.length_le, hr.run, fun e he e' he' => ?_, hr.sum_le⟩
  obtain ⟨hd, hread⟩ := hr.operation e he e' he'
  obtain ⟨chain, hread⟩ := Option.isSome_iff_exists.mp hread
  exact ⟨hd, Option.isSome_iff_exists.mpr ⟨chain, h.readOperation hread⟩⟩

theorem KeepsIntents.cleared (h : KeepsIntents digests s t) (he : t.execution = s.execution)
    (hc : (s.cleared rh oh).census digests uid ≠ .unknown) :
    (t.cleared rh oh).census digests uid ≠ .unknown := by
  refine KeepsIntents.census (fun runId operationId intent hi => ?_) ?_ hc
  · rw [inspectIntent_congr rfl] at hi ⊢
    exact h _ _ _ hi
  · rw [Runtime.cleared, Runtime.cleared, updateOp, updateOp, updateRun, updateRun, he]

theorem Changed.cleared {r : Runtime} (h : Changed rh oh id s r) {dir : OpDir}
    (hdir : s.findOp rh oh = some dir) : r.cleared rh oh = s.cleared rh oh := by
  obtain ⟨temps, rfl⟩ := h.inPlace dir hdir
  rw [Runtime.cleared, updateOp_updateOp]
  rfl

/-- Once a record has been linked in a store that could be read, the store can be read again
when the staging files are gone. -/
theorem Changed.cleared_census {r : Runtime} {record : ExecutionRecord} {dir : OpDir}
    (h : Changed rh oh (·.put record) s r) (hdir : s.findOp rh oh = some dir)
    (hc : s.census digests uid ≠ .unknown)
    (hread : (s.readOperation digests uid rh oh ⟨dir.chain.put record, []⟩).isSome) :
    (r.cleared rh oh).census digests uid ≠ .unknown := by
  obtain ⟨temps, rfl⟩ := h.inPlace dir hdir
  rw [Runtime.cleared, updateOp_updateOp]
  intro hu
  obtain ⟨runs, -, hruns, -⟩ := findOp_eq_some_iff.mp hdir
  have hreadable : Readable digests uid s runs := by
    by_contra hn
    exact hc (census_eq_unknown_iff.mpr ⟨runs, hruns, hn⟩)
  have hdone : ∀ dir', s.findOp rh oh = some dir' → (s.readOperation digests uid rh oh
      (((fun d : OpDir => { d with temps := [] }) ∘ fun d => ⟨d.chain.put record, temps⟩)
        dir')).isSome := by
    intro dir' hdir'
    cases hdir.symm.trans hdir'
    exact hread
  obtain ⟨runs', hruns', hreadable'⟩ := hreadable.updateOp hruns hdone
  obtain ⟨runs'', hruns'', hn⟩ := census_eq_unknown_iff.mp hu
  cases hruns'.symm.trans hruns''
  exact hn hreadable'

end Runtime

/-- What others may do that leave the store, the target and the staging file alone. -/
structure Aside (rh oh : Digest) (s t : State) : Prop where
  runtime : t.runtime = s.runtime
  files : ∀ d, (s.runtime.chainAt rh oh).dispatch = some d →
    t.files.lookup d.target = s.files.lookup d.target ∧
      t.files.lookup d.staging = s.files.lookup d.staging ∧ t.anchors d.target = s.anchors d.target

/-- What is known of an operation whose patch may be published. -/
structure Pending (m : Machine) (rh oh : Digest) (c : State × ℕ) : Prop where
  tracked : Tracked m rh oh c
  anchored : ∀ d, (c.1.runtime.chainAt rh oh).dispatch = some d → d.anchors = c.1.anchors d.target
  staged : ∀ (d : DispatchRecord) (p : PublicationRecord),
    c.1.runtime.chainAt rh oh = { dispatch := d, publication := p } →
    c.1.files.lookup d.staging = none ∨ c.2 = 0 ∧ StagedAt m c.1.files d p
  readable : ∀ (d : DispatchRecord) (p : PublicationRecord),
    c.1.runtime.chainAt rh oh = { dispatch := d, publication := p } →
    (c.1.runtime.cleared rh oh).census m.digests m.uid.toNat ≠ .unknown

variable {m : Machine} {rh oh : Digest} {c c' : State × ℕ} {s t : State} {n : ℕ} {runId : RunId}
  {operationId : String}

theorem findOp_of_chainAt {r : Runtime} {d : DispatchRecord}
    (h : (r.chainAt rh oh).dispatch = some d) :
    ∃ dir, r.findOp rh oh = some dir ∧ dir.chain = r.chainAt rh oh := by
  rcases hdir : r.findOp rh oh with _ | dir
  · rw [Runtime.chainAt_of_findOp_none hdir] at h
    cases h
  · exact ⟨dir, rfl, (Runtime.chainAt_of_findOp hdir).symm⟩

theorem publication_of_fresh (h : Tracked m rh oh (s, n))
    (hd : (s.runtime.chainAt rh oh).record .dispatch = none) (p : PublicationRecord) :
    (s.runtime.chainAt rh oh).publication ≠ some p := by
  rw [Tracked] at h
  simp only at h
  generalize s.runtime.chainAt rh oh = chain at h hd
  cases h with
  | blank => rintro ⟨⟩
  | _ => cases hd

theorem Stage.eq_zero {files : Files} {chain : Chain} (h : Stage m files chain n)
    (hp : chain.record .publication = none) (hr : chain.result = none) : n = 0 := by
  cases h with
  | installed => cases hp
  | settled => cases hr
  | _ => rfl

/-- The records with an admitted one besides can be read. -/
theorem readOperation_of_admitted {record : ExecutionRecord} (ha : Admitted m record s) :
    s.runtime.readOperation m.digests m.uid.toNat (record.runHash m) (record.operationHash m)
      ⟨(s.chainFor m record).put record, []⟩ = some ((s.chainFor m record).put record) := by
  obtain ⟨intent, hintent, hvalid⟩ := ha.valid
  have hlinked := hvalid
  rcases hd : ((s.chainFor m record).put record).dispatch with _ | d
  · simp only [Chain.valid, hd, Bool.false_eq_true] at hlinked
  simp only [Chain.valid, hd, Chain.linked, Bool.and_eq_true, decide_eq_true_eq] at hlinked
  obtain ⟨⟨⟨⟨⟨⟨⟨-, ⟨-, hdispatch⟩, -⟩, hpublication⟩, hresult⟩, -⟩, -⟩, -⟩, -⟩ := hlinked
  have hrequest : record.base.request = intent.request := by
    cases record with
    | dispatch d' =>
      cases hd
      exact hdispatch
    | publication p =>
      simp only [Chain.put, Option.all_some, Bool.and_eq_true, decide_eq_true_eq] at hpublication
      exact hpublication.1.2
    | result r =>
      simp only [Chain.put, Option.all_some, Bool.and_eq_true, decide_eq_true_eq] at hresult
      exact hresult.1.2
  have hsame : d.request = record.base.request := hdispatch.trans hrequest.symm
  refine Runtime.readOperation_eq_some_iff.mpr ⟨rfl, rfl, d, intent, hd, ?_, ?_, ?_, hvalid⟩
  · rw [hsame]
  · rw [hsame]
  · rw [hsame, hintent]

theorem PatchStep.pending (h : PatchStep m rh oh c c') (hc : Pending m rh oh c) :
    Pending m rh oh c' := by
  have htracked := h.tracked hc.tracked
  cases h with
  | journal journal hkept =>
    exact ⟨htracked, hc.anchored, hc.staged, fun d p hd => hkept.cleared rfl (hc.readable d p hd)⟩
  | @store s n r h =>
    refine ⟨htracked, ?_, ?_, ?_⟩
    · rw [h.chain]
      exact hc.anchored
    · rw [h.chain]
      exact hc.staged
    · rw [h.chain]
      intro d p hd
      have hdispatch : (s.runtime.chainAt rh oh).dispatch = some d := congrArg Chain.dispatch hd
      obtain ⟨dir, hdir, -⟩ := findOp_of_chainAt hdispatch
      rw [h.cleared hdir]
      exact hc.readable d p hd
  | @record s n r record hr ho ha hw h =>
    subst hr ho
    cases record with
    | dispatch d =>
      refine ⟨htracked, fun d' hd' => ?_, fun d' p' hd' => ?_, fun d' p' hd' => ?_⟩
      · rw [h.chain] at hd'
        cases hd'
        exact hw.2
      · rw [h.chain] at hd'
        exact absurd (congrArg Chain.publication hd') (publication_of_fresh hc.tracked ha.fresh p')
      · rw [h.chain] at hd'
        exact absurd (congrArg Chain.publication hd') (publication_of_fresh hc.tracked ha.fresh p')
    | publication p =>
      obtain ⟨d, hd, hs⟩ := hw
      have hdispatch : (s.runtime.chainAt _ _).dispatch = some d := hd
      have hn : n = 0 := Stage.eq_zero hc.tracked ha.fresh ha.open_
      refine ⟨htracked, fun d' hd' => ?_, fun d' p' hd' => .inr ⟨hn, ?_⟩, fun d' p' hd' => ?_⟩
      · rw [h.chain] at hd'
        exact hc.anchored d' hd'
      · rw [h.chain] at hd'
        have hdispatch' : (s.runtime.chainAt _ _).dispatch = some d' := congrArg Chain.dispatch hd'
        cases hdispatch.symm.trans hdispatch'
        cases congrArg Chain.publication hd'
        exact hs
      · obtain ⟨dir, hdir, hchain⟩ := findOp_of_chainAt hdispatch
        refine h.cleared_census hdir ha.census ?_
        have hread := readOperation_of_admitted ha
        rw [hchain]
        exact Option.isSome_iff_exists.mpr ⟨_, hread⟩
    | result r =>
      refine ⟨htracked, fun d' hd' => ?_, fun d' p' hd' => ?_, fun d' p' hd' => ?_⟩
      · rw [h.chain] at hd'
        exact hc.anchored d' hd'
      · rw [h.chain] at hd'
        cases congrArg Chain.result hd'
      · rw [h.chain] at hd'
        cases congrArg Chain.result hd'
  | @fill s n d file hd hp hne =>
    refine ⟨htracked, hc.anchored, fun d p hd' => ?_, hc.readable⟩
    simp only at hd'
    rw [hd'] at hp
    cases hp
  | @discard s n d hd hne =>
    refine ⟨htracked, hc.anchored, fun d' p hd' => .inl ?_, hc.readable⟩
    simp only at hd'
    rw [hd'] at hd
    cases hd
    exact lookup_delete.trans (if_pos rfl)
  | @install s n d p file stamp hd hp hr ho hf hcap hs hne =>
    refine ⟨htracked, hc.anchored, fun d' p' hd' => .inl ?_, hc.readable⟩
    simp only at hd'
    rw [hd'] at hd
    cases hd
    simp only [renamed, lookup_put, if_neg hne, lookup_delete, if_true]

theorem Aside.pending (h : Aside rh oh s t) (hs : Pending m rh oh (s, n)) :
    Pending m rh oh (t, n) := by
  have hchain : t.runtime.chainAt rh oh = s.runtime.chainAt rh oh := by rw [h.runtime]
  refine ⟨?_, ?_, ?_, ?_⟩
  · rw [Tracked, hchain]
    exact Stage.congr hs.tracked fun d hd => (h.files d hd).1
  · rw [hchain]
    intro d hd
    rw [(h.files d hd).2.2]
    exact hs.anchored d hd
  · rw [hchain]
    intro d p hd
    obtain ⟨-, hstaging, -⟩ := h.files d (congrArg Chain.dispatch hd)
    rcases hs.staged d p hd with h' | ⟨hn, h'⟩
    · exact .inl (hstaging.trans h')
    · refine .inr ⟨hn, ?_⟩
      rwa [StagedAt, hstaging]
  · rw [hchain, h.runtime]
    exact hs.readable

theorem pending_of_absent (h : s.runtime.findOp rh oh = none) : Pending m rh oh (s, 0) := by
  have hchain : s.runtime.chainAt rh oh = {} := Runtime.chainAt_of_findOp_none h
  refine ⟨tracked_of_absent h, ?_, ?_, ?_⟩
  · rw [hchain]
    rintro d ⟨⟩
  · rw [hchain]
    rintro d p ⟨⟩
  · rw [hchain]
    rintro d p ⟨⟩

theorem History.pending (h : History m (Aside (m.digests.id runId) (m.digests.id operationId)) runId
    operationId c c') (hc : Pending m (m.digests.id runId) (m.digests.id operationId) c) :
    Pending m (m.digests.id runId) (m.digests.id operationId) c' :=
  h.invariant (fun _ _ => PatchStep.pending) (fun _ _ _ => Aside.pending) hc

end OrchKit.Bridge
