import OrchKit.Bridge.Bounds
import OrchKit.Bridge.Undisturbed

/-! # Settling a published patch

A published patch is settled by any later call of `reconcile` under live authority, unless a
staging file of an append is left in its directory, or its staged replacement is gone
without having been installed: then no call ever settles it.
-/

namespace OrchKit.Bridge

open Except Program Table Routine

/-- Nothing fails, and the caller's run is live and may write the target. -/
structure Live (call : PatchCall) (L : Ledger) (env : Env) : Prop where
  undisturbed : env.fault = none
  authority : env.authority = true
  run : requireLiveRun L (env.host 0) call.binding = .ok ()
  allowed : ∃ run task, joined L call.binding.runId = some (run, task) ∧
    pathAllowed call.target task.payload.allowedPaths = true

variable {m : Machine} {call : PatchCall} {good : Env → Prop} {s : State} {n : ℕ} {file : Inode}
  {handle : Handle} {d : DispatchRecord} {p : PublicationRecord} {intent : IntentRecord}
  {β : Type} {Q : Except Exn β → State × ℕ → Prop}

/-! ### Looking at the target -/

section Target

variable (hlive : ∀ env, good env → Live call s.ledger env)
include hlive

theorem returns_authorize : Returns m good (act (.authorize call.binding)) () s s n := by
  refine returns_act (fun env he => (hlive env he).undisturbed) (fun _ => rfl) fun env he => ?_
  simp only [Act.perform, (hlive env he).authority, (hlive env he).run, require_of, ok_bind]
  rfl

theorem undisturbed_liveScope {f : List String → Routine β}
    (h : ∀ allowed, pathAllowed call.target allowed = true →
      (f allowed).MustEnd (counted m installs) good Q (s, n)) :
    (act (.liveScope call.binding) >>= f).MustEnd (counted m installs) good Q (s, n) := by
  refine undisturbed_choice (fun env he => (hlive env he).undisturbed) (fun _ => rfl)
    fun env he => ?_
  obtain ⟨run, task, hjoined, hallowed⟩ := (hlive env he).allowed
  have hne : task.payload.allowedPaths ≠ [] := by
    intro hn
    rw [hn, pathAllowed] at hallowed
    split at hallowed <;> cases hallowed
  refine ⟨task.payload.allowedPaths, ?_, h _ hallowed⟩
  simp only [Act.perform, (hlive env he).authority, (hlive env he).run, hjoined, hne, require_of,
    ok_bind, ofOption, ne_eq, not_false_eq_true]
  rfl

theorem returns_scope : Returns m good (scope call.binding call.target) () s s n := by
  unfold scope
  refine undisturbed_liveScope hlive fun allowed hallowed => ?_
  rw [Routine.require, if_pos hallowed]
  exact ⟨rfl, rfl⟩

theorem returns_readTarget (hf : s.files.lookup call.target = some file)
    (hc : file.capturable m.uid.toNat) :
    Returns m good call.readTarget (file.content m.digests) s s n := by
  unfold PatchCall.readTarget
  refine (returns_scope hlive).bind ?_
  exact (returns_act (fun env he => (hlive env he).undisturbed) (fun _ => rfl) fun env _ =>
    Act.perform_capture.mpr ⟨⟨file, hf, hc, rfl⟩, rfl⟩).bind ⟨rfl, rfl⟩

variable (hf : s.files.lookup call.target = some file)
  (hh : handle = ⟨s.anchors call.target, file.signature, file.metadata⟩)
include hf hh

theorem returns_recheck : Returns m good (call.recheck handle true) () s s n := by
  unfold PatchCall.recheck
  refine (returns_scope hlive).bind ?_
  refine returns_act (fun env he => (hlive env he).undisturbed) (fun _ => rfl) fun env he => ?_
  simp [Act.perform, hf, hh, require_of, ok_bind]

theorem returns_authorizedRecheck :
    Returns m good (call.authorizedRecheck handle true) () s s n :=
  (returns_authorize hlive).bind (returns_recheck hlive hf hh)

theorem returns_openPatchTarget (hc : file.capturable m.uid.toNat) :
    Returns m good call.openPatchTarget handle s s n := by
  unfold PatchCall.openPatchTarget
  refine undisturbed_liveScope hlive fun _ _ => ?_
  refine (returns_scope hlive).bind ?_
  refine (returns_act (fun env he => (hlive env he).undisturbed) (fun _ => rfl) fun env _ =>
    Act.perform_openTarget.mpr ⟨⟨file, hf, hc, hh⟩, rfl⟩).bind ?_
  exact (returns_recheck hlive hf hh).bind ⟨rfl, rfl⟩

end Target

/-! ### Recording the outcome -/

/-- The operation has a publication and no result, in a store that can be read. -/
structure Ripe (m : Machine) (call : PatchCall) (d : DispatchRecord) (p : PublicationRecord)
    (intent : IntentRecord) (s : State) : Prop where
  binding : call.request.binding = call.binding
  request : d.request = call.request
  find : s.runtime.findOp (call.runHash m) (call.operationHash m) =
    some ⟨{ dispatch := d, publication := p }, []⟩
  census : s.runtime.census m.digests m.uid.toNat ≠ .unknown
  recorded : s.runtime.inspectIntent m.digests call.request.binding.runId
    call.request.operationId = .recorded intent
  valid : Chain.valid m.digests m.uid.toNat intent { dispatch := d, publication := p } = true

/-- The routine has recorded a result and answers with it. -/
def Settled (m : Machine) (call : PatchCall) (x : Except Exn PatchReply) (c : State × ℕ) : Prop :=
  ∃ r, (call.chainIn m c.1).result = some r ∧ x = .ok { status := r.disposition.status }

theorem Ripe.request_eq (h : Ripe m call d p intent s) : d.request = intent.request := by
  have hvalid := h.valid
  simp only [Chain.valid, Chain.linked, Bool.and_eq_true, decide_eq_true_eq] at hvalid
  exact hvalid.1.1.1.1.1.1.2.1.2

theorem Ripe.patchRequest (h : Ripe m call d p intent s) : patchRequest d.request := by
  have hvalid := h.valid
  simp only [Chain.valid, Chain.linked, ExecutionRecord.valid, ExecutionRecord.base,
    Bool.and_eq_true] at hvalid
  exact hvalid.1.1.1.1.1.1.2.1.1.1.1.1

theorem Ripe.isDigest_fingerprint (h : Ripe m call d p intent s) : isDigest intent.fingerprint := by
  have hvalid := h.valid
  simp only [Chain.valid, IntentRecord.valid, Bool.and_eq_true] at hvalid
  exact hvalid.1.1.1.1.1.1.1.1.1.2

theorem Ripe.admitted (h : Ripe m call d p intent s) {result : ResultRecord}
    (hrequest : result.request = call.request)
    (hv : (ExecutionRecord.result result).valid m.uid.toNat)
    (hintent : result.intentFingerprint = intent.fingerprint)
    (hmatches : Chain.resultMatches m.digests d p result = true) :
    Admitted m (.result result) s := by
  have hchain : s.chainFor m (.result result) = { dispatch := d, publication := p } := by
    rw [State.chainFor, ExecutionRecord.runHash, ExecutionRecord.operationHash,
      ExecutionRecord.base, hrequest]
    exact Runtime.chainAt_of_findOp h.find
  refine ⟨h.census, ?_, ?_, intent, ?_, ?_⟩
  · rw [hchain]
    rfl
  · rw [hchain]
  · rw [ExecutionRecord.base, hrequest, h.recorded]
  · have hvalid := h.valid
    have hsame : call.request = intent.request := h.request ▸ h.request_eq
    rw [hchain]
    simp only [Chain.valid, Chain.put, Option.all_some, Option.all_none, Bool.and_eq_true,
      Bool.and_true, decide_eq_true_eq, Chain.linked, ExecutionRecord.base, hmatches, hv, hrequest,
      hintent, hsame, and_true] at hvalid ⊢
    tauto

theorem settles (h : Ripe m call d p intent s) (hlive : ∀ env, good env → Live call s.ledger env)
    (hf : s.files.lookup call.target = some file) (hc : file.capturable m.uid.toNat)
    (hh : handle = ⟨s.anchors call.target, file.signature, file.metadata⟩)
    {disposition : Disposition} {kind : BasisKind}
    (hbasis : match disposition with
      | .applied => kind ∈ [.apply, .reconcileApplied] ∧
        sameStableMaterial (file.content m.digests) p.staged
      | .notApplied => kind ∈ [.apply, .reconcileStaged] ∧ file.content m.digests = d.original) :
    (call.settle m intent d p disposition kind (file.content m.digests)
      (call.authorizedRecheck handle true)).MustEnd (counted m installs) good (Settled m call)
      (s, n) := by
  have hg : ∀ env, good env → env.fault = none := fun env he => (hlive env he).undisturbed
  unfold PatchCall.settle PatchCall.base
  rw [Prog.bind_assoc]
  refine undisturbed_choice hg (fun _ => rfl) fun env _ => ⟨env.now, rfl, ?_⟩
  rw [Prog.pure_eq, Prog.ret_bind]
  generalize hresult : ResultRecord.mk _ _ _ _ _ = result
  have hrequest : result.request = call.request := by rw [← hresult]
  have hintent : result.intentFingerprint = intent.fingerprint := by rw [← hresult]
  have hdisposition : result.disposition = disposition := by rw [← hresult]
  have hvalid : (ExecutionRecord.result result).valid m.uid.toNat := by
    refine ResultRecord.valid_of m.digests ?_ ?_ ?_ ?_ hc (hresult ▸ rfl)
      (hresult ▸ rfl)
    · rw [hrequest, ← h.request]
      exact h.patchRequest
    · rw [hintent]
      exact h.isDigest_fingerprint
    · rw [← hresult]
      exact m.digests.isDigest_record _
    · rw [← hresult]
      exact m.digests.isDigest_record _
  have hmatches : Chain.resultMatches m.digests d p result = true := by
    rw [← hresult]
    cases disposition <;> simp [Chain.resultMatches, hbasis]
  have ha := h.admitted hrequest hvalid hintent hmatches
  have hfind : s.runtime.findOp ((ExecutionRecord.result result).runHash m)
      ((ExecutionRecord.result result).operationHash m) =
      some ⟨{ dispatch := d, publication := p }, []⟩ := by
    rw [← h.find, ExecutionRecord.runHash, ExecutionRecord.operationHash, ExecutionRecord.base,
      hrequest]
  unfold PatchCall.append
  rw [Prog.bind_assoc]
  refine (returns_append hg (fun r => returns_authorizedRecheck hlive hf hh) hfind rfl ha hvalid
    fun h => by cases h).bind ?_
  refine ⟨result, ?_, ?_⟩
  · have hdone : (s.withRecord m (.result result)).runtime.findOp (call.runHash m)
        (call.operationHash m) =
        some ⟨{ dispatch := d, publication := p, result := result }, []⟩ := by
      rw [State.withRecord, Runtime.link, ExecutionRecord.runHash, ExecutionRecord.operationHash,
        ExecutionRecord.base, hrequest, Runtime.findOp_updateOp_self, h.find]
      rfl
    exact congrArg Chain.result (Runtime.chainAt_of_findOp hdone)
  · rw [hdisposition]

/-! ### Reconciliation -/

section Reconcile

variable (h : Ripe m call d p intent s) (hlive : ∀ env, good env → Live call s.ledger env)
  (hi : p.staged.identity.ino ≠ d.original.identity.ino)
include h hlive

theorem settles_installed (ht : InstalledAt m s.files d p)
    (hanchors : d.anchors = s.anchors d.target) (ha : s.files.lookup d.staging = none) :
    (call.reconcileDispatched m intent d p).MustEnd (counted m installs) good (Settled m call)
      (s, n) := by
  obtain ⟨file, hf, hc, hsame⟩ := ht
  have hg : ∀ env, good env → env.fault = none := fun env he => (hlive env he).undisturbed
  rw [← call.target_eq h.request] at hf hanchors
  unfold PatchCall.reconcileDispatched
  refine (returns_openPatchTarget hlive hf rfl hc).bind ?_
  refine undisturbed_require hanchors.symm ?_
  refine (returns_act hg (fun _ => rfl) fun env _ =>
    Act.perform_capture.mpr ⟨⟨file, hf, hc, rfl⟩, rfl⟩).bind ?_
  refine (returns_act hg (fun _ => rfl) fun env _ => Act.perform_entry.mpr ⟨rfl, rfl⟩).bind ?_
  simp only [hsame, if_true]
  unfold PatchCall.settleApplied
  refine undisturbed_require (by rw [call.staging_eq h.request, ha]; rfl) ?_
  refine (returns_authorizedRecheck hlive hf rfl).bind ?_
  refine (returns_act hg (v := ()) (fun _ => rfl) fun env _ => rfl).bind ?_
  refine (returns_readTarget hlive hf hc).bind ?_
  refine undisturbed_require hsame ?_
  exact settles h hlive hf hc rfl ⟨by decide, hsame⟩

include hi in
theorem settles_staged (ho : OriginalAt m s.files d) (hs : StagedAt m s.files d p)
    (hanchors : d.anchors = s.anchors d.target) :
    (call.reconcileDispatched m intent d p).MustEnd (counted m installs) good (Settled m call)
      (s, n) := by
  have hnot := ho.not_installedAt hi
  obtain ⟨file, hf, hc, horiginal⟩ := ho
  obtain ⟨file', hf', hc', hstaged⟩ := hs
  have hne : d.target ≠ d.staging := by
    intro he
    rw [he, hf'] at hf
    cases hf
    rw [horiginal] at hstaged
    exact hi (by rw [hstaged])
  have hother : ¬ sameStableMaterial (file.content m.digests) p.staged = true :=
    fun hsame => hnot ⟨file, hf, hc, hsame⟩
  have hg : ∀ env, good env → env.fault = none := fun env he => (hlive env he).undisturbed
  have hleft : (s.files.delete d.staging).lookup d.target = some file := by
    rw [lookup_delete, if_neg hne, hf]
  rw [← call.target_eq h.request] at hf hanchors hleft
  unfold PatchCall.reconcileDispatched
  refine (returns_openPatchTarget hlive hf rfl hc).bind ?_
  refine undisturbed_require hanchors.symm ?_
  refine (returns_act hg (fun _ => rfl) fun env _ =>
    Act.perform_capture.mpr ⟨⟨file, hf, hc, rfl⟩, rfl⟩).bind ?_
  refine (returns_act hg (fun _ => rfl) fun env _ => Act.perform_entry.mpr ⟨rfl, rfl⟩).bind ?_
  rw [call.staging_eq h.request, hf']
  simp only [hother]
  refine undisturbed_require (sameMaterial_iff.mpr horiginal) ?_
  have hdiscard : Returns m good (call.discardStaged
      ⟨s.anchors call.target, file.signature, file.metadata⟩ d.staging p (some file'.signature)) ()
      s { s with files := s.files.delete d.staging } n := by
    unfold PatchCall.discardStaged
    refine (returns_act hg (fun _ => rfl) fun env _ =>
      Act.perform_capture.mpr ⟨⟨file', hf', hc', rfl⟩, rfl⟩).bind ?_
    refine undisturbed_require ⟨?_, rfl, rfl⟩ ?_
    · rw [hstaged]
      simp [sameStableMaterial]
    refine (returns_authorizedRecheck hlive hf rfl).bind ?_
    refine (returns_act hg (fun _ => rfl) fun env _ => Act.perform_entry.mpr ⟨rfl, rfl⟩).bind ?_
    refine undisturbed_require (by simp [hf']) ?_
    refine (returns_act hg (v := ()) (fun _ => rfl) fun env _ =>
      Act.perform_unlink.mpr ⟨by rw [hf']; rfl, rfl⟩).bind ?_
    exact returns_act hg (a := .sync d.staging) (v := ()) (fun _ => rfl) fun env _ => rfl
  refine hdiscard.bind ?_
  have h' : Ripe m call d p intent { s with files := s.files.delete d.staging } :=
    ⟨h.binding, h.request, h.find, h.census, h.recorded, h.valid⟩
  unfold PatchCall.settleOriginal
  refine (returns_authorizedRecheck (s := { s with files := s.files.delete d.staging }) hlive hleft
    rfl).bind ?_
  refine (returns_act hg (fun _ => rfl) fun env _ => Act.perform_entry.mpr ⟨rfl, rfl⟩).bind ?_
  refine undisturbed_require ?_ ?_
  · rw [call.staging_eq h.request, lookup_delete, if_pos rfl]
    rfl
  refine (returns_readTarget (s := { s with files := s.files.delete d.staging }) hlive hleft
    hc).bind ?_
  refine undisturbed_require (sameMaterial_iff.mpr horiginal) ?_
  exact settles h' hlive hleft hc rfl ⟨by decide, horiginal⟩

theorem settles_reconcile (h' : (call.reconcileDispatched m intent d p).MustEnd
    (counted m installs) good (Settled m call) (s, n)) :
    (call.reconcile m).MustEnd (counted m installs) good (Settled m call) (s, n) := by
  have hg : ∀ env, good env → env.fault = none := fun env he => (hlive env he).undisturbed
  have hpatch := h.patchRequest
  have hread : s.runtime.readOperation m.digests m.uid.toNat (call.runHash m) (call.operationHash m)
      ⟨{ dispatch := d, publication := p }, []⟩ = some { dispatch := d, publication := p } := by
    refine Runtime.readOperation_eq_some_iff.mpr ⟨rfl, rfl, d, intent, rfl, ?_, ?_, ?_, h.valid⟩
    · rw [h.request]
    · rw [h.request]
    · rw [h.request, h.recorded]
  rw [h.request] at hpatch
  have hinspect : Look.see m s (.inspect call.binding.runId call.request.operationId) =
      .recorded { dispatch := d, publication := p } := by
    rw [← h.binding]
    exact Runtime.inspect_eq_recorded_iff.mpr ⟨isHashable_of_patchRequest hpatch, _, h.find, rfl,
      hread⟩
  have hintent : Look.see m s (.inspectIntent call.binding.runId call.request.operationId) =
      .recorded intent := by
    rw [← h.binding]
    exact h.recorded
  unfold PatchCall.reconcile
  refine Prog.Keeps.catching (Prog.Keeps.mono (Q := Settled m call) ?_ (fun _ h => h) ?_)
  · unfold PatchCall.reconcileLocked
    have hvalidate : Returns m good call.validate () s s n := by
      unfold PatchCall.validate
      refine undisturbed_require ⟨?_, h.binding⟩ (returns_authorize hlive)
      simp only [patchRequest, Bool.and_eq_true, decide_eq_true_eq] at hpatch
      exact hpatch.2
    refine hvalidate.bind ?_
    refine undisturbed_look hg hinspect ?_
    simp only [demand, Prog.ret_bind, h.request, ne_eq, not_true_eq_false, if_false,
      Option.isSome_none, Bool.false_eq_true]
    exact undisturbed_look hg hintent h'
  · rintro (e | reply) c ⟨r, hr, hx⟩
    · cases hx
    · exact ⟨r, hr, hx⟩

end Reconcile

/-- An operation that is published but not settled, with no staging file of an append left in its
directory, and with its staged replacement still there or installed. -/
def Settleable (rh oh : Digest) (d : DispatchRecord) (c : State × ℕ) : Prop :=
  (∀ dir, c.1.runtime.findOp rh oh = some dir → dir.temps = []) ∧
    (c.2 = 1 ∨ (c.1.files.lookup d.staging).isSome)

theorem Pending.ripe {rh oh : Digest} (h : Pending m rh oh (s, n))
    (hchain : s.runtime.chainAt rh oh = { dispatch := d, publication := p })
    (ht : ∀ dir, s.runtime.findOp rh oh = some dir → dir.temps = []) :
    (m.digests.id d.request.binding.runId = rh ∧ m.digests.id d.request.operationId = oh) ∧
      ∃ intent, Ripe m ⟨d.request.binding, d.request⟩ d p intent s := by
  have hdispatch : (s.runtime.chainAt rh oh).dispatch = some d := congrArg Chain.dispatch hchain
  obtain ⟨dir, hdir, hdirChain⟩ := findOp_of_chainAt hdispatch
  have htemps := ht dir hdir
  have hcleared : s.runtime.cleared rh oh = s.runtime := by
    refine Runtime.updateOp_eq_self fun dir' hdir' => ?_
    cases hdir.symm.trans hdir'
    rw [← htemps]
  have hcensus := h.readable d p hchain
  simp only [hcleared] at hcensus
  obtain ⟨hread, -⟩ := Runtime.readOperation_of_census hcensus hdir
  obtain ⟨-, -, d', intent, hd', hrun, hop, hintent, hvalid⟩ :=
    Runtime.readOperation_eq_some_iff.mp hread
  have hsame : dir.chain = { dispatch := d, publication := p } := hdirChain.trans hchain
  rw [hsame] at hd' hvalid
  cases hd'
  refine ⟨⟨hrun, hop⟩, intent, rfl, rfl, ?_, hcensus, hintent, hvalid⟩
  rw [PatchCall.runHash, PatchCall.operationHash, hrun, hop, hdir, ← hsame, ← htemps]

/-! ### Patches that stay unsettled -/

/-- The operation cannot be settled: its records cannot be read, or its staged replacement is
gone and the original still there. -/
def Blocked (m : Machine) (rh oh : Digest) (d : DispatchRecord) (p : PublicationRecord)
    (s : State) :
    Prop :=
  ∃ temps, s.runtime.findOp rh oh = some ⟨{ dispatch := d, publication := p }, temps⟩ ∧
    (temps ≠ [] ∨ OriginalAt m s.files d ∧
      p.staged.identity.ino ≠ d.original.identity.ino ∧ s.files.lookup d.staging = none)

/-- The second state has the store and the files of the first. -/
def SameEvidence (s t : State) : Prop :=
  t.runtime.execution = s.runtime.execution ∧ t.files = s.files

/-- Wherever the routine is cut off, the store and the files are those of `s`. -/
abbrev LeavesEvidence (m : Machine) (good : Env → Prop) (q : Routine β) (s : State)
    (c : State × ℕ) : Prop :=
  q.Keeps (counted m installs) good (fun c => SameEvidence s c.1) (fun _ c => SameEvidence s c.1) c

variable {rh oh : Digest} {t : State} {c : State × ℕ}

theorem Blocked.congr (h : Blocked m rh oh d p s) (ht : SameEvidence s t) :
    Blocked m rh oh d p t := by
  obtain ⟨he, hf⟩ := ht
  obtain ⟨temps, hfind, h⟩ := h
  refine ⟨temps, ?_, ?_⟩
  · rw [← hfind, Runtime.findOp, Runtime.findOp, he]
  · rwa [hf]

theorem Blocked.aside (h : Blocked m rh oh d p s) (ha : Aside rh oh s t) :
    Blocked m rh oh d p t := by
  obtain ⟨temps, hfind, h⟩ := h
  have hd : (s.runtime.chainAt rh oh).dispatch = some d := by
    rw [Runtime.chainAt_of_findOp hfind]
  obtain ⟨htarget, hstaging, -⟩ := ha.files d hd
  refine ⟨temps, ?_, ?_⟩
  · rw [ha.runtime, hfind]
  · rcases h with h | ⟨ho, hi, hn⟩
    · exact .inl h
    · exact .inr ⟨ho.congr htarget, hi, hstaging.trans hn⟩

theorem sameEvidence_calm {o : Op} (ho : o.calm) (env : Env) (ht : SameEvidence s t) :
    SameEvidence s ((bridgeSemantics m).after env t o) := by
  cases o with
  | ledger o => cases ho
  | look l => exact ht
  | act a =>
    rcases ho with ho | ho
    · rwa [after_of_reads (o := .act a) ho]
    · have hdone : ∀ {v : a.Value} {t'}, a.perform m env t = .ok (v, t') → SameEvidence s t' := by
        intro v t' h
        cases a with
        | linkIntent =>
          simp only [Act.perform] at h
          split at h <;> cases h <;> exact ht
        | makeJournal | makeIntentRun | stageIntent | unstageIntent =>
          cases h
          exact ht
        | _ => cases ho
      rcases a.answer_cases m env t with ⟨e, h⟩ | ⟨v, t', hp, h | ⟨e, h⟩⟩ <;>
        simp only [Semantics.after, bridgeSemantics, h]
      · exact ht
      · exact hdone hp
      · exact hdone hp

theorem leavesEvidence_calm {q : Routine β} (hq : q.Issues Op.calm) (hc : SameEvidence s c.1) :
    LeavesEvidence m good q s c := by
  have hkept : q.Keeps (counted m installs) good (fun c => SameEvidence s c.1)
      (fun _ c => True ∧ SameEvidence s c.1) c :=
    Prog.Keeps.of_within (fun _ _ env ht ho _ => sameEvidence_calm ho env ht) hq hc
  exact hkept.mono (fun _ h => h) fun _ _ h => h.2

theorem leavesEvidence_bind {α : Type} {q : Routine α} {f : α → Routine β} (hq : q.Issues Op.calm)
    (hc : SameEvidence s c.1)
    (hf : ∀ a t, SameEvidence s t.1 → LeavesEvidence m good (f a) s t) :
    LeavesEvidence m good (q >>= f) s c := by
  refine Prog.Keeps.bind ((leavesEvidence_calm hq hc).mono (fun _ h => h) ?_)
  rintro (e | a) t ht
  · exact ht
  · exact hf a t ht

theorem leavesEvidence_catching {q : Routine β} {f : Exn → Routine β}
    (hq : LeavesEvidence m good q s c) (hf : ∀ e, (f e).Issues Op.calm) :
    LeavesEvidence m good (q.catching f) s c := by
  refine Prog.Keeps.catching (hq.mono (fun _ h => h) ?_)
  rintro (e | a) t ht
  · exact leavesEvidence_calm (hf e) ht
  · exact ht

theorem blocked_apply {replacement : FilePatchReplacement}
    (h : Blocked m (call.runHash m) (call.operationHash m) d p s) :
    LeavesEvidence m good (call.apply m replacement) s (s, n) := by
  have hprepared : ∀ intent (t : State × ℕ), SameEvidence s t.1 →
      LeavesEvidence m good (call.applyPrepared m replacement intent) s t := by
    rintro intent ⟨t, k⟩ ht
    obtain ⟨temps, hfind, -⟩ := h.congr ht
    unfold PatchCall.applyPrepared
    refine keeps_look storeQuiet_installs.reads ht ?_ ht
    split
    · exact ht
    · refine leavesEvidence_calm (calm_of_reads (Prog.Issues.bind reads_demand fun d => ?_)) ht
      split
      · trivial
      split
      · exact reads_historicalResult
      · trivial
    next habsent =>
      rw [Runtime.inspect_eq_absent habsent] at hfind
      cases hfind
  unfold PatchCall.apply attempt
  have hlocked : LeavesEvidence m good (call.applyLocked m replacement) s (s, n) := by
    unfold PatchCall.applyLocked
    refine leavesEvidence_bind (calm_of_reads (reads_succeeds reads_validate)) ⟨rfl, rfl⟩
      fun valid t ht => ?_
    split
    · exact ht
    refine leavesEvidence_bind calm_prepare ht fun reply t ht => ?_
    split
    · exact hprepared _ t ht
    · exact hprepared _ t ht
    · exact ht
    · exact ht
    · exact ht
  refine Prog.Keeps.bind (Prog.Keeps.catching (Prog.Keeps.bind (hlocked.mono (fun _ h => h) ?_)))
  rintro (e | reply) t ht
  · refine leavesEvidence_bind (calm_of_reads (reads_look _)) ht fun found t ht => ?_
    split <;> exact ht
  · exact ht

theorem blocked_reconcileDispatched (hs : SameEvidence s s) (hreq : d.request = call.request)
    (ho : OriginalAt m s.files d) (hi : p.staged.identity.ino ≠ d.original.identity.ino)
    (hn : s.files.lookup d.staging = none) :
    LeavesEvidence m good (call.reconcileDispatched m intent d p) s (s, n) := by
  have hother := ho.not_installedAt hi
  obtain ⟨file, hf, hc, -⟩ := ho
  unfold PatchCall.reconcileDispatched
  refine keeps_reads storeQuiet_installs.reads reads_openPatchTarget hs (fun handle => ?_)
    fun _ => hs
  refine keeps_require (fun _ => ?_) fun _ => hs
  refine keeps_read storeQuiet_installs.reads trivial hs (fun _ => hs) fun env v _ hp => ?_
  obtain ⟨⟨file', hf', -, rfl⟩, -⟩ := Act.perform_capture.mp hp
  rw [call.target_eq hreq, hf] at hf'
  cases hf'
  refine keeps_read storeQuiet_installs.reads trivial hs (fun _ => hs) fun env v _ hp => ?_
  obtain ⟨rfl, -⟩ := Act.perform_entry.mp hp
  have hsame : ¬ sameStableMaterial (file.content m.digests) p.staged = true :=
    fun hsame => hother ⟨file, hf, hc, hsame⟩
  rw [call.staging_eq hreq, hn]
  simp only [hsame]
  refine keeps_require (fun _ => ?_) fun _ => hs
  exact hs

theorem blocked_reconcile (h : Blocked m (call.runHash m) (call.operationHash m) d p s) :
    LeavesEvidence m good (call.reconcile m) s (s, n) := by
  have hs : SameEvidence s s := ⟨rfl, rfl⟩
  obtain ⟨temps, hfind, hblocked⟩ := h
  unfold PatchCall.reconcile PatchCall.reconcileLocked PatchCall.validate
  refine leavesEvidence_catching ?_ fun _ => trivial
  rw [Prog.bind_assoc]
  refine keeps_require (fun ⟨_, hbinding⟩ => ?_) fun _ => hs
  rw [← hbinding]
  refine keeps_read storeQuiet_installs.reads trivial hs (fun _ => hs) fun _ _ _ _ => ?_
  refine keeps_look storeQuiet_installs.reads hs ?_ hs
  split
  next chain hfound =>
    obtain ⟨-, dir, hdir, rfl, hread⟩ := Runtime.inspect_eq_recorded_iff.mp hfound
    cases hfind.symm.trans hdir
    obtain ⟨-, htemps, -⟩ := Runtime.readOperation_eq_some_iff.mp hread
    obtain ⟨ho, hi, hn⟩ := hblocked.resolve_left (not_not.mpr htemps)
    simp only [demand, Prog.ret_bind, Option.isSome_none, Bool.false_eq_true, if_false]
    split
    · exact hs
    next hreq =>
      refine keeps_look storeQuiet_installs.reads hs ?_ hs
      split
      next intent _ =>
        exact blocked_reconcileDispatched hs (not_not.mp hreq) ho hi hn
      · exact hs
  · exact hs

variable {runId : RunId} {operationId : String} {c' : State × ℕ}

/-- What cannot be settled stays so whatever is called. -/
theorem History.blocked (h : History m (Aside (m.digests.id runId) (m.digests.id operationId)) runId
    operationId c c') (hb : Blocked m (m.digests.id runId) (m.digests.id operationId) d p c.1) :
    Blocked m (m.digests.id runId) (m.digests.id operationId) d p c'.1 := by
  induction h with
  | start => exact hb
  | @call c' _ action hr ho envs ih =>
    have hb' : Blocked m (action.call.runHash m) (action.call.operationHash m) d p c'.1 := by
      rw [PatchCall.runHash, PatchCall.operationHash, hr, ho]
      exact ih
    refine ih.congr ?_
    cases action with
    | apply call replacement =>
      exact (Prog.Keeps.exec (blocked_apply (n := c'.2) hb') ⟨rfl, rfl⟩ fun _ _ => trivial).1
    | reconcile call =>
      exact (Prog.Keeps.exec (blocked_reconcile (n := c'.2) hb') ⟨rfl, rfl⟩ fun _ _ => trivial).1
  | others _ ha ih => exact ih.aside ha

theorem Pending.blocked (h : Pending m rh oh (s, n))
    (hchain : s.runtime.chainAt rh oh = { dispatch := d, publication := p })
    (hs : ¬ Settleable rh oh d (s, n)) : Blocked m rh oh d p s := by
  have hdispatch : (s.runtime.chainAt rh oh).dispatch = some d := congrArg Chain.dispatch hchain
  obtain ⟨⟨chain, temps⟩, hdir, hdirChain⟩ := findOp_of_chainAt hdispatch
  simp only at hdirChain
  rw [hchain] at hdirChain
  subst hdirChain
  refine ⟨temps, hdir, ?_⟩
  by_cases ht : temps = []
  · right
    have hstaged : ¬ (n = 1 ∨ (s.files.lookup d.staging).isSome) := by
      refine fun hn => hs ⟨fun dir hdir' => ?_, hn⟩
      cases hdir.symm.trans hdir'
      exact ht
    rw [not_or, Option.not_isSome_iff_eq_none] at hstaged
    have htracked := h.tracked
    rw [Tracked, hchain] at htracked
    cases htracked with
    | published ho hi => exact ⟨ho, hi, hstaged.2⟩
    | installed => exact absurd rfl hstaged.1
  · exact .inl ht

/-- In every history in which others leave the store, the target and the staging file alone, a
published patch that is not settled yet is settled by every call of `reconcile` under live
authority if it is settleable, and never if not. -/
theorem settled_iff_settleable (hnew : s.runtime.opDir m.digests runId operationId = none)
    (h : History m (Aside (m.digests.id runId) (m.digests.id operationId)) runId operationId
      (s, 0) c)
    (hchain : c.1.runtime.chainAt (m.digests.id runId) (m.digests.id operationId) =
      { dispatch := d, publication := p }) :
    (Settleable (m.digests.id runId) (m.digests.id operationId) d c →
      (PatchCall.reconcile m ⟨d.request.binding, d.request⟩).MustEnd (counted m installs)
        (Live ⟨d.request.binding, d.request⟩ c.1.ledger)
        (fun _ c' => (c'.1.runtime.chainAt (m.digests.id runId)
          (m.digests.id operationId)).result ≠ none) c) ∧
    (¬ Settleable (m.digests.id runId) (m.digests.id operationId) d c → ∀ c',
      History m (Aside (m.digests.id runId) (m.digests.id operationId)) runId operationId c c' →
        (c'.1.runtime.chainAt (m.digests.id runId) (m.digests.id operationId)).result = none) := by
  obtain ⟨t, n⟩ := c
  have hpending := h.pending (pending_of_absent hnew)
  constructor
  · intro hs
    obtain ⟨⟨hrun, hop⟩, intent, hripe⟩ := hpending.ripe hchain hs.1
    have hanchors := hpending.anchored d (congrArg Chain.dispatch hchain)
    have hend : (PatchCall.reconcile m ⟨d.request.binding, d.request⟩).MustEnd (counted m installs)
        (Live ⟨d.request.binding, d.request⟩ t.ledger)
        (Settled m ⟨d.request.binding, d.request⟩) (t, n) := by
      refine settles_reconcile hripe (fun _ h => h) ?_
      have htracked := hpending.tracked
      rw [Tracked, hchain] at htracked
      have hstaged := hpending.staged d p hchain
      simp only at htracked hstaged
      cases htracked with
      | published ho hi =>
        have hpresent := hs.2.resolve_left Nat.zero_ne_one
        obtain ⟨-, hstaged⟩ := hstaged.resolve_left (Option.isSome_iff_ne_none.mp hpresent)
        exact settles_staged hripe (fun _ h => h) hi ho hstaged hanchors
      | installed ht hi =>
        have habsent := hstaged.resolve_right fun h => Nat.one_ne_zero h.1
        exact settles_installed hripe (fun _ h => h) ht hanchors habsent
    refine hend.mono (fun _ h => h) ?_
    rintro x c ⟨r, hr, -⟩
    rw [PatchCall.chainIn, PatchCall.runHash, PatchCall.operationHash] at hr
    simp only [hrun, hop] at hr
    rw [hr]
    exact Option.some_ne_none r
  · intro hs c' h'
    obtain ⟨temps, hfind, -⟩ := h'.blocked (hpending.blocked hchain hs)
    rw [Runtime.chainAt_of_findOp hfind]

namespace Scenario

/-- The patch of a call of `apply` that is cut off once it is published. -/
def published : State × ℕ :=
  (((PatchAction.apply patch oneByte).prog machine).exec (counted machine installs)
    (List.replicate 95 writing) (fresh, 0)).2

/-- The same once a call of `reconcile` has been cut off after removing the staging file. -/
def discarded : State × ℕ :=
  (((PatchAction.reconcile patch).prog machine).exec (counted machine installs)
    (List.replicate 16 writing) published).2

theorem published_history : History machine
    (Aside (machine.digests.id "r") (machine.digests.id "o")) "r" "o" (fresh, 0) published :=
  .call .start (.apply patch oneByte) rfl rfl _

theorem discarded_history : History machine
    (Aside (machine.digests.id "r") (machine.digests.id "o")) "r" "o" (fresh, 0) discarded :=
  .call published_history (.reconcile patch) rfl rfl _

def records (c : State × ℕ) : Chain :=
  c.1.runtime.chainAt (machine.digests.id "r") (machine.digests.id "o")

/-- What can be seen of a patch that is published and not settled. -/
def Observed (present : Bool) (c : State × ℕ) : Prop :=
  (records c).result = none ∧ (records c).publication.isSome ∧
    ((records c).dispatch.map fun d => (d.request, (c.1.files.lookup d.staging).isSome)) =
      some (request "o", present) ∧
    ((c.1.runtime.findOp (machine.digests.id "r") (machine.digests.id "o")).all
      fun dir => dir.temps = []) ∧ c.2 = 0 ∧
    requireLiveRun c.1.ledger (writing.host 0) binding = .ok () ∧
    (joined c.1.ledger "r").any fun e => pathAllowed "f" e.2.payload.allowedPaths

instance (present : Bool) (c : State × ℕ) : Decidable (Observed present c) :=
  inferInstanceAs (Decidable (_ ∧ _))

theorem Observed.records {present : Bool} {c : State × ℕ} (h : Observed present c) :
    ∃ d p, records c = { dispatch := some d, publication := some p } ∧ d.request = request "o" ∧
      (c.1.files.lookup d.staging).isSome = present := by
  obtain ⟨hr, hp, hd, -⟩ := h
  generalize Scenario.records c = chain at hr hp hd ⊢
  obtain ⟨dispatch, publication, result⟩ := chain
  obtain ⟨d, rfl, hd⟩ := Option.map_eq_some_iff.mp hd
  obtain ⟨p, rfl⟩ := Option.isSome_iff_exists.mp hp
  cases hr
  obtain ⟨hrequest, hpresent⟩ := Prod.mk.inj (Option.some.inj hd)
  exact ⟨d, p, rfl, hrequest, hpresent⟩

theorem Observed.live {present : Bool} {c : State × ℕ} (h : Observed present c) :
    Live patch c.1.ledger writing := by
  obtain ⟨-, -, -, -, -, hr, hj⟩ := h
  rw [Option.any_eq_true] at hj
  obtain ⟨⟨run, task⟩, hjoined, hallowed⟩ := hj
  exact ⟨rfl, rfl, hr, run, task, hjoined, hallowed⟩

end Scenario

open OrchKit.Bridge.Scenario in
theorem settled_iff_settleable_published :
    (((patch.reconcile machine).runAll
      (counted machine installs) writing published).2.1.runtime.chainAt
      (machine.digests.id "r") (machine.digests.id "o")).result ≠ none := by
  have hobserved : Observed true published := by decide
  obtain ⟨d, p, hchain, hrequest, hpresent⟩ := hobserved.records
  have htemps := hobserved.2.2.2.1
  have hsettleable : Settleable (machine.digests.id "r") (machine.digests.id "o") d published :=
    ⟨fun dir hdir => by simpa [hdir] using htemps, .inr hpresent⟩
  have hend := (settled_iff_settleable rfl published_history hchain).1 hsettleable
  rw [hrequest] at hend
  exact hend.runAll hobserved.live

open OrchKit.Bridge.Scenario in
theorem not_always_settled : ¬ ∀ (m : Machine) (s : State) (runId : RunId) (operationId : String)
    (c : State × ℕ) (d : DispatchRecord) (p : PublicationRecord) (env : Env),
    s.runtime.opDir m.digests runId operationId = none →
    History m (Aside (m.digests.id runId) (m.digests.id operationId)) runId operationId (s, 0) c →
    c.1.runtime.chainAt (m.digests.id runId) (m.digests.id operationId) =
      { dispatch := d, publication := p } →
    Live ⟨d.request.binding, d.request⟩ c.1.ledger env →
    ∃ c', History m (Aside (m.digests.id runId) (m.digests.id operationId)) runId operationId c c' ∧
      (c'.1.runtime.chainAt (m.digests.id runId) (m.digests.id operationId)).result ≠ none := by
  intro h
  have hobserved : Observed false discarded := by decide +kernel
  obtain ⟨d, p, hchain, hrequest, habsent⟩ := hobserved.records
  have hnot : ¬ Settleable (machine.digests.id "r") (machine.digests.id "o") d discarded := by
    rintro ⟨-, hn | hpresent⟩
    · rw [hobserved.2.2.2.2.1] at hn
      cases hn
    · rw [habsent] at hpresent
      cases hpresent
  have hpending : Pending machine (machine.digests.id "r") (machine.digests.id "o") discarded :=
    discarded_history.pending (pending_of_absent rfl)
  have hlive : Live ⟨d.request.binding, d.request⟩ discarded.1.ledger writing := by
    rw [hrequest]
    exact hobserved.live
  obtain ⟨c', h', hresult⟩ := h machine fresh "r" "o" discarded d p writing rfl discarded_history
    hchain hlive
  obtain ⟨temps, hfind, -⟩ := h'.blocked (hpending.blocked hchain hnot)
  exact hresult (by rw [Runtime.chainAt_of_findOp hfind])

end OrchKit.Bridge
