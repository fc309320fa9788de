import OrchKit.Ledger.Reconciling

/-! # Reconciling a publication twice

Reconciliation rewrites the journal it classifies. At a workspace that nobody else touches, calling
it again gives the status it gave before, from whatever stage the first call left behind; all but
one stage: an intent without any effect is abandoned and reported safe to retry, and an abandoned
publication is no longer recognised as such.
-/

namespace OrchKit

open Program Script

variable {site : Site} {sha : Sha256}

/-- A second call, right after a first one that returned, returns with the same status. -/
def Repeats (site : Site) (sha : Sha256) (runId : RunId) (resume : Bool) (x : Ledger × GitState) :
    Prop :=
  ∀ reply y, (reconcilePublication runId resume).Yields (site.semantics sha) () x reply y →
    ∃ reply' z, (reconcilePublication runId resume).Yields (site.semantics sha) () y reply' z ∧
      reply'.status = reply.status

/-- Reconciliation, called once for each flag, goes on to report that publishing can be retried. -/
def Retryable (site : Site) (sha : Sha256) (runId : RunId) : List Bool → Ledger × GitState → Prop
  | [], _ => True
  | resume :: rest, x => ∃ reply y,
    (reconcilePublication runId resume).Yields (site.semantics sha) () x reply y ∧
      reply.status = .safeToRetry ∧ Retryable site sha runId rest y

/-- Reconciling is stable: it repeats itself, and what can be retried stays that way. -/
structure StableReconciliation (site : Site) (sha : Sha256) (runId : RunId) (resume : Bool)
    (x : Ledger × GitState) : Prop where
  repeats : Repeats site sha runId resume x
  retryable : ∀ reply y,
    (reconcilePublication runId resume).Yields (site.semantics sha) () x reply y →
    reply.status = .safeToRetry → ∀ later, Retryable site sha runId later y

/-! ### A commit that is prepared -/

section Prepared

variable {c : Reconciling} {L M : Ledger} {s t : GitState} {commit : CommitId} {reply : Reply}
  {y : Ledger × GitState} {journal : Publication} {seen : Option Publication} {message : String}
  {payload : TaskPayload} {branch : String} {base : CommitId}

theorem ask_plain {o : Outside} (h : o.isPlain) : (ask o).Issues fun o : Op => o.isPlain :=
  ⟨h, fun _ => ofChecked_issues _⟩

theorem publicationWorkspaceGuard_plain (payload : TaskPayload) (manifest : Manifest)
    (base : CommitId) :
    (publicationWorkspaceGuard payload manifest base).Issues fun o : Op => o.isPlain := by
  refine (attempt_issues (ask_plain rfl)).bind fun outcome => ?_
  cases outcome with
  | error message => trivial
  | ok _ =>
    refine (ask_plain rfl).bind fun evidence => ?_
    rcases publicationScopeRefusal evidence base with _ | reason <;> trivial

theorem yields_guard {manifest : Manifest} {outcome : Except String Unit}
    (hs : t.head = s.head)
    (h : (attempt (publicationWorkspaceGuard payload manifest base)).Yields
      (site.semantics sha) () (L, s) outcome y) :
    y = (L, s) ∧ (attempt (publicationWorkspaceGuard payload manifest base)).Yields
      (site.semantics sha) () (M, t) outcome (M, t) := by
  obtain ⟨x, hx, hx'⟩ := runAll_plain
    (attempt_issues (publicationWorkspaceGuard_plain payload manifest base)) hs.symm L M
  rw [Prog.Yields, hx, Prod.mk.injEq] at h
  obtain ⟨rfl, rfl⟩ := h
  exact ⟨rfl, hx'⟩

theorem after_updateRef_of_ne {ref : String} {new old : CommitId}
    (h : site.answer s (.updateRef payload ref new old) ≠ .ok true) :
    site.after s (.updateRef payload ref new old) = s := by
  rw [Site.after]
  split
  next htrue _ => exact absurd htrue h
  next => rfl

theorem after_updateRef_of_ok {ref : String} {new old : CommitId}
    (h : site.answer s (.updateRef payload ref new old) = .ok true)
    (href : site.answer s (.symbolicRef payload) = .ok (some ref)) :
    site.after s (.updateRef payload ref new old) = s.withHead new := by
  rw [Site.after, h, show site.view s.head (.symbolicRef payload) = .ok (some ref) from href]
  exact if_pos rfl

theorem ask_outside (o : Outside) : (ask o).Issues fun o : Op => ∃ o', o = .outside o' :=
  ⟨⟨o, rfl⟩, fun _ => ofChecked_issues _⟩

theorem casUpdateBranch_outside (payload : TaskPayload) (branch : String)
    (commit base : CommitId) : (casUpdateBranch payload branch commit base).Issues
      fun o : Op => ∃ o', o = .outside o' := by
  refine (ask_outside _).bind fun _ => (require_issues _ _).bind fun _ =>
    (ask_outside _).bind fun updated => ?_
  split
  · exact (ask_outside _).bind fun _ => trivial
  · trivial

theorem yields_casUpdateBranch
    (h : (casUpdateBranch payload branch commit base).Yields (site.semantics sha) () (L, s) () y) :
    y = (L, s.withHead commit) := by
  obtain ⟨symbolic, hsymbolic, h⟩ := yields_ask_bind.mp h
  obtain ⟨hbranch, h⟩ := yields_require_bind.mp h
  obtain ⟨updated, hupdated, h⟩ := yields_ask_bind.mp h
  rw [hbranch] at hsymbolic
  cases updated with
  | true =>
    obtain ⟨-, rfl⟩ := Prog.yields_ret.mp h
    exact congrArg (L, ·) (after_updateRef_of_ok hupdated hsymbolic)
  | false =>
    obtain ⟨-, -, h⟩ := yields_ask_bind.mp h
    cases h

theorem raises_casUpdateBranch {e : Exn}
    (h : (casUpdateBranch payload branch commit base).Raises (site.semantics sha) () (L, s) e y) :
    y = (L, s) := by
  rcases raises_ask_bind.mp h with ⟨-, rfl⟩ | ⟨symbolic, hsymbolic, h⟩
  · rfl
  rw [require] at h
  split at h
  next hbranch =>
    rcases raises_ask_bind.mp h with ⟨hupdate, rfl⟩ | ⟨updated, hupdated, h⟩
    · refine congrArg (L, ·) (after_updateRef_of_ne ?_)
      intro htrue
      rw [htrue] at hupdate
      cases hupdate
    · cases updated with
      | true => exact absurd h Prog.raises_ret
      | false =>
        rw [after_updateRef_of_ne (by rw [hupdated]; simp)] at h
        rcases raises_ask_bind.mp h with ⟨-, rfl⟩ | ⟨head, -, h⟩
        · rfl
        · exact (Prog.raises_raise.mp h).2.symm
  next => exact (Prog.raises_raise.mp h).2.symm

theorem yields_casUpdateBranch_error {message : String}
    (h : (attempt (casUpdateBranch payload branch commit base)).Yields (site.semantics sha) ()
      (L, s) (.error message) y) :
    y = (L, s) ∧ (attempt (casUpdateBranch payload branch commit base)).Yields (site.semantics sha)
      () (M, s) (.error message) (M, s) := by
  have hy := raises_casUpdateBranch (yields_attempt_error.mp h)
  obtain ⟨x, t, hrun⟩ := runAll_outside
    (attempt_issues (casUpdateBranch_outside payload branch commit base)) s
  rw [hy, Prog.Yields, hrun, Prod.mk.injEq, Prod.mk.injEq] at h
  obtain ⟨rfl, -, rfl⟩ := h
  exact ⟨hy, hrun M⟩

theorem Reconciling.Reads.again_of_prepared (h : c.Reads L journal)
    (hstatus : journal.status ≠ .complete) (hcommit : journal.commitId = some commit)
    (hhead : s.head = some c.expectedBase) (hproven : c.Proven site s commit)
    (hret : (reconcilePrepared c (site.staged s.head c.payload c.manifest) commit
      (some journal)).Yields (site.semantics sha) () (L, s) reply y) :
    c.Again site sha (L, s) reply.status := by
  refine h.again (y := y) hstatus ((yields_reconcileJournal_some hcommit).mpr ⟨true, hproven, ?_⟩)
  rwa [if_neg (by simp), if_pos hhead]

theorem reconcilePrepared_again (h : c.Reads L journal) (hstatus : journal.status ≠ .complete)
    (hcommit : journal.commitId = some commit) (hhead : s.head = some c.expectedBase)
    (hproven : c.Proven site s commit)
    (hret : (reconcilePrepared c (site.staged s.head c.payload c.manifest) commit seen).Yields
      (site.semantics sha) () (L, s) reply y) :
    reply.status ≠ .safeToRetry ∧ c.Again site sha y reply.status := by
  have hagain : ∀ y', (reconcilePrepared c (site.staged s.head c.payload c.manifest) commit
      (some journal)).Yields (site.semantics sha) () (L, s) reply y' →
      c.Again site sha (L, s) reply.status :=
    fun _ => h.again_of_prepared hstatus hcommit hhead hproven
  rw [reconcilePrepared] at hret hagain
  split at hret
  next hstaged =>
    obtain ⟨hreply, rfl⟩ := Prog.yields_ret.mp hret
    refine ⟨by simp [← hreply, Reconciling.blocked], hagain (L, s) ?_⟩
    rw [if_pos hstaged]
    exact Prog.yields_ret.mpr ⟨hreply, rfl⟩
  next hstaged =>
  rw [if_neg hstaged] at hagain
  obtain ⟨outcome, _, hguard, hret⟩ := Prog.yields_bind.mp hret
  obtain ⟨rfl, hguard'⟩ := yields_guard (t := s) (M := L) rfl hguard
  cases outcome with
  | error reason =>
    obtain ⟨hreply, rfl⟩ := Prog.yields_ret.mp hret
    refine ⟨by simp [← hreply, Reconciling.blocked], hagain (L, s) ?_⟩
    exact Prog.yields_bind.mpr ⟨_, _, hguard', Prog.yields_ret.mpr ⟨hreply, rfl⟩⟩
  | ok _ =>
  by_cases hresume : c.resume
  · simp only [hresume, not_true_eq_false, if_false] at hret hagain
    obtain ⟨updated, _, hcas, hret⟩ := Prog.yields_bind.mp hret
    cases updated with
    | error message =>
      obtain ⟨rfl, hcas'⟩ := yields_casUpdateBranch_error (M := L) hcas
      obtain ⟨hreply, rfl⟩ := Prog.yields_ret.mp hret
      refine ⟨by simp [← hreply, Reconciling.blocked], hagain (L, s) ?_⟩
      refine Prog.yields_bind.mpr ⟨_, _, hguard', ?_⟩
      exact Prog.yields_bind.mpr ⟨_, _, hcas', Prog.yields_ret.mpr ⟨hreply, rfl⟩⟩
    | ok _ =>
      obtain rfl := yields_casUpdateBranch (yields_attempt_ok.mp hcas)
      obtain ⟨_, _, hupdate, hret⟩ := Prog.yields_bind.mp hret
      obtain ⟨rfl, rfl⟩ := h.yields_update.mp hupdate
      have hproven' : c.Proven site (s.withHead commit) commit := hproven.of_commits rfl
      refine reconcileCommitted_again (h.updated _) ?_ ?_ rfl hproven' hret
      · simp [PublicationPatch.apply]
      · simp [PublicationPatch.apply]
  · simp only [hresume] at hret hagain
    obtain ⟨hreply, rfl⟩ := Prog.yields_ret.mp hret
    refine ⟨by simp [← hreply], hagain (L, s) ?_⟩
    exact Prog.yields_bind.mpr ⟨_, _, hguard', Prog.yields_ret.mpr ⟨hreply, rfl⟩⟩

end Prepared

/-! ### Nothing committed -/

section Staged

variable {c : Reconciling} {L : Ledger} {s t : GitState} {commit : CommitId} {reply : Reply}
  {y : Ledger × GitState} {journal : Publication} {seen : Option Publication} {message : String}
  {payload : TaskPayload} {base : CommitId} {manifest : Manifest}

theorem Site.base_ne_commitId (site : Site) (s : GitState) (tree : Hash) (base : CommitId)
    (message : String) : base ≠ site.commitId s.commits ⟨tree, base⟩ message :=
  (site.commitId_ne_parent s.commits ⟨tree, base⟩ message).symm

/-- The state after a commit of the tree has been written. -/
def Site.committed (site : Site) (s : GitState) (tree : Hash) (base : CommitId)
    (message : String) : GitState :=
  s.withCommit (site.commitId s.commits ⟨tree, base⟩ message) ⟨tree, base⟩
    (site.base_ne_commitId s tree base message)

theorem commitTree_of_error {tree : Hash} {e : Exn}
    (h : site.view s.head (.commitTree payload tree base message) = .error e) :
    site.answer s (.commitTree payload tree base message) = .error e ∧
      site.after s (.commitTree payload tree base message) = s := by
  rw [Site.answer, Site.after, h]
  exact ⟨rfl, rfl⟩

theorem commitTree_of_none {tree : Hash}
    (h : site.view s.head (.commitTree payload tree base message) = .ok none) :
    site.answer s (.commitTree payload tree base message) = .ok none ∧
      site.after s (.commitTree payload tree base message) = s := by
  rw [Site.answer, Site.after, h]
  exact ⟨rfl, rfl⟩

theorem commitTree_of_some {tree : Hash} {made : CommitId}
    (h : site.view s.head (.commitTree payload tree base message) = .ok (some made)) :
    site.answer s (.commitTree payload tree base message) =
        .ok (some (site.commitId s.commits ⟨tree, base⟩ message)) ∧
      site.after s (.commitTree payload tree base message) =
        site.committed s tree base message := by
  rw [Site.answer, Site.after, h]
  exact ⟨rfl, rfl⟩

theorem answer_committed {tree : Hash} :
    site.answer (site.committed s tree base message) (.commitMatchesSnapshot payload
      (site.commitId s.commits ⟨tree, base⟩ message) base manifest) =
      site.content payload ⟨tree, base⟩ base manifest := by
  have hlookup : (site.committed s tree base message).commits.lookup
      (site.commitId s.commits ⟨tree, base⟩ message) = some ⟨tree, base⟩ := by
    simp [Site.committed, GitState.withCommit, Table.lookup_put]
  rw [Site.answer, hlookup]

/-- Preparing a commit fails before it writes one, or it writes one and the proof decides; which of
these depends on where the branch is. -/
theorem prepareSnapshotCommit_cases (site : Site) (sha : Sha256) (payload : TaskPayload)
    (base : CommitId) (manifest : Manifest) (message : String) (head : Option CommitId) :
    (∃ e, ∀ L s, s.head = head → (prepareSnapshotCommit payload base manifest message).Raises
      (site.semantics sha) () (L, s) e (L, s)) ∨
    ∃ tree, (∃ e, ∀ L s, s.head = head →
        (prepareSnapshotCommit payload base manifest message).Raises (site.semantics sha) () (L, s)
          e (L, site.committed s tree base message)) ∨
      (site.content payload ⟨tree, base⟩ base manifest = .ok true ∧ ∀ L s, s.head = head →
        (prepareSnapshotCommit payload base manifest message).Yields (site.semantics sha) () (L, s)
          (site.commitId s.commits ⟨tree, base⟩ message)
          (L, site.committed s tree base message)) := by
  rcases htree : site.view head (.writeTree payload) with e | tree
  · refine .inl ⟨e, ?_⟩
    rintro L s rfl
    exact raises_ask_bind.mpr (.inl ⟨htree, rfl⟩)
  rcases tree with _ | tree
  · refine .inl ⟨.other "RuntimeError" "git_write_tree_failed:", ?_⟩
    rintro L s rfl
    exact raises_ask_bind.mpr (.inr ⟨none, htree, Prog.raises_raise.mpr ⟨rfl, rfl⟩⟩)
  rcases hmade : site.view head (.commitTree payload tree base message) with e | made
  · refine .inl ⟨e, ?_⟩
    rintro L s rfl
    refine raises_ask_bind.mpr (.inr ⟨some tree, htree, ?_⟩)
    obtain ⟨hanswer, hafter⟩ := commitTree_of_error hmade
    exact raises_ask_bind.mpr (.inl ⟨hanswer, congrArg (L, ·) hafter.symm⟩)
  rcases made with _ | made
  · refine .inl ⟨.other "RuntimeError" "git_commit_tree_failed:", ?_⟩
    rintro L s rfl
    obtain ⟨hanswer, hafter⟩ := commitTree_of_none hmade
    refine raises_ask_bind.mpr (.inr ⟨some tree, htree, ?_⟩)
    refine raises_ask_bind.mpr (.inr ⟨none, hanswer, ?_⟩)
    exact Prog.raises_raise.mpr ⟨rfl, congrArg (L, ·) hafter⟩
  refine .inr ⟨tree, ?_⟩
  rcases hcontent : site.content payload ⟨tree, base⟩ base manifest with e | proven
  · refine .inl ⟨e, ?_⟩
    rintro L s rfl
    obtain ⟨hanswer, hafter⟩ := commitTree_of_some hmade
    refine raises_ask_bind.mpr (.inr ⟨some tree, htree, ?_⟩)
    refine raises_ask_bind.mpr (.inr ⟨_, hanswer, ?_⟩)
    refine raises_ask_bind.mpr (.inl ⟨?_, congrArg (L, ·) hafter.symm⟩)
    exact (congrArg (site.answer · _) hafter).trans (answer_committed.trans hcontent)
  cases proven with
  | false =>
    refine .inl ⟨.value "prepared_snapshot_mismatch", ?_⟩
    rintro L s rfl
    obtain ⟨hanswer, hafter⟩ := commitTree_of_some hmade
    refine raises_ask_bind.mpr (.inr ⟨some tree, htree, ?_⟩)
    refine raises_ask_bind.mpr (.inr ⟨_, hanswer, ?_⟩)
    refine raises_ask_bind.mpr (.inr ⟨false, ?_, ?_⟩)
    · exact (congrArg (site.answer · _) hafter).trans (answer_committed.trans hcontent)
    · exact Prog.raises_raise.mpr ⟨rfl, congrArg (L, ·) hafter⟩
  | true =>
    refine .inr ⟨rfl, ?_⟩
    rintro L s rfl
    obtain ⟨hanswer, hafter⟩ := commitTree_of_some hmade
    refine yields_ask_bind.mpr ⟨some tree, htree, ?_⟩
    refine yields_ask_bind.mpr ⟨_, hanswer, ?_⟩
    refine yields_ask_bind.mpr ⟨true, ?_, ?_⟩
    · exact (congrArg (site.answer · _) hafter).trans (answer_committed.trans hcontent)
    · exact Prog.yields_ret.mpr ⟨rfl, congrArg (L, ·) hafter⟩

theorem yields_reconcileJournal_base (hcommit : journal.commitId = none)
    (hhead : s.head = some c.expectedBase) :
    (reconcileJournal c journal).Yields (site.semantics sha) () (L, s) reply y ↔
      (reconcileStaged c (site.staged s.head c.payload c.manifest) journal.status
        (some journal)).Yields (site.semantics sha) () (L, s) reply y := by
  have hanswer : site.answer s (.revParseHead c.payload) = .ok (some c.expectedBase) :=
    congrArg Except.ok hhead
  simp only [reconcileJournal, hcommit]
  rw [yields_ask_bind]
  constructor
  · rintro ⟨head, h, hret⟩
    obtain rfl := Except.ok.inj (hanswer.symm.trans h)
    obtain ⟨_, ⟨⟩, hret⟩ := yields_ask_bind.mp hret
    simp only [if_true] at hret
    exact hret
  · intro hret
    refine ⟨_, hanswer, yields_ask_bind.mpr ⟨_, rfl, ?_⟩⟩
    simp only [if_true]
    exact hret

/-- Nothing is staged for an intent that has committed nothing. -/
def Untouched (site : Site) (c : Reconciling) (journal : Publication) (s : GitState) : Prop :=
  journal.status = .intent ∧ site.staged s.head c.payload c.manifest = false ∧
    site.answer s (.stagedPaths c.payload) = .ok (some [])

/-- Where preparing the commit fails, the call ends blocked. -/
theorem Reconciling.Reads.again_of_unprepared (h : c.Reads L journal)
    (hstatus : journal.status ≠ .complete) (hcommit : journal.commitId = none)
    (hhead : s.head = some c.expectedBase)
    (hstaged : ¬ ¬ site.staged s.head c.payload c.manifest) (hresume : c.resume)
    (hguard : (attempt (publicationWorkspaceGuard c.payload c.manifest c.expectedBase)).Yields
      (site.semantics sha) () (L, s) (.ok ()) (L, s)) {e : Exn}
    (hfails : (prepareSnapshotCommit c.payload c.expectedBase c.manifest
      (c.payload.publication.message c.taskId)).Raises (site.semantics sha) () (L, s) e (L, t)) :
    c.Again site sha (L, s) .blocked := by
  let failed : PublicationPatch := { status := .staged, error := some e.text }
  suffices hret : (reconcileJournal c journal).Yields (site.semantics sha) () (L, s)
      (c.blocked "commit_prepare_failed") (c.updated L failed, t) from h.again hstatus hret
  rw [yields_reconcileJournal_base hcommit hhead, reconcileStaged, if_neg hstaged]
  refine Prog.yields_bind.mpr ⟨_, _, hguard, ?_⟩
  simp only [hresume, not_true_eq_false, if_false]
  refine Prog.yields_bind.mpr ⟨_, _, Prog.yields_caught.mpr hfails, ?_⟩
  refine Prog.yields_bind.mpr ⟨_, _, h.yields_update.mpr ⟨rfl, rfl⟩, ?_⟩
  exact Prog.yields_ret.mpr ⟨rfl, rfl⟩

theorem reconcileStaged_again (h : c.Reads L journal) (hstatus : journal.status ≠ .complete)
    (hcommit : journal.commitId = none) (hhead : s.head = some c.expectedBase)
    (htouched : ¬ Untouched site c journal s)
    (hret : (reconcileStaged c (site.staged s.head c.payload c.manifest) journal.status
      (some journal)).Yields (site.semantics sha) () (L, s) reply y) :
    reply.status ≠ .safeToRetry ∧ c.Again site sha y reply.status := by
  have hself : y = (L, s) → c.Again site sha y reply.status := by
    rintro rfl
    exact h.again hstatus ((yields_reconcileJournal_base hcommit hhead).mpr hret)
  rw [reconcileStaged] at hret
  split at hret
  next hstaged =>
    obtain ⟨stagedRaw, hraw, hret⟩ := yields_ask_bind.mp hret
    split at hret
    next hempty =>
      refine absurd ⟨hempty.2, by simpa using hstaged, ?_⟩ htouched
      rw [hraw, hempty.1]
    next =>
      obtain ⟨hreply, rfl⟩ := Prog.yields_ret.mp hret
      exact ⟨by simp [← hreply, Reconciling.blocked], hself rfl⟩
  next hstaged =>
  obtain ⟨outcome, _, hguard, hret⟩ := Prog.yields_bind.mp hret
  obtain ⟨rfl, -⟩ := yields_guard (t := s) (M := L) rfl hguard
  cases outcome with
  | error reason =>
    obtain ⟨hreply, rfl⟩ := Prog.yields_ret.mp hret
    exact ⟨by simp [← hreply, Reconciling.blocked], hself rfl⟩
  | ok _ =>
  by_cases hresume : c.resume
  · simp only [hresume, not_true_eq_false, if_false] at hret
    obtain ⟨prepared, u, hprepare, hret⟩ := Prog.yields_bind.mp hret
    replace hprepare := Prog.yields_caught.mp hprepare
    -- wherever the first attempt stopped, the second starts from the same branch and index
    have hfailed : ∀ e t, t.head = s.head → prepared = .error e → u = (L, t) →
        (∀ L, ∃ e' t', (prepareSnapshotCommit c.payload c.expectedBase c.manifest
          (c.payload.publication.message c.taskId)).Raises (site.semantics sha) () (L, t) e'
            (L, t')) →
        reply.status ≠ .safeToRetry ∧ c.Again site sha y reply.status := by
      rintro e t ht rfl rfl hfails
      obtain ⟨_, _, hupdate, hret⟩ := Prog.yields_bind.mp hret
      obtain ⟨rfl, rfl⟩ := h.yields_update.mp hupdate
      obtain ⟨rfl, rfl⟩ := Prog.yields_ret.mp hret
      refine ⟨by simp [Reconciling.blocked], ?_⟩
      obtain ⟨e', t', hfails⟩ := hfails (c.updated L { status := .staged, error := some e.text })
      refine (h.updated _).again_of_unprepared ?_ ?_ (ht.trans hhead)
        (ht ▸ hstaged) hresume ?_ hfails
      · simp [PublicationPatch.apply]
      · simp [PublicationPatch.apply, hcommit]
      · exact (yields_guard ht hguard).2
    rcases prepareSnapshotCommit_cases site sha c.payload c.expectedBase c.manifest
      (c.payload.publication.message c.taskId) s.head with
      ⟨e, hfails⟩ | ⟨tree, ⟨e, hfails⟩ | ⟨hcontent, hmakes⟩⟩
    · obtain ⟨rfl, rfl⟩ := Prod.mk.inj (hprepare.symm.trans (hfails L s rfl))
      exact hfailed e s rfl rfl rfl fun L => ⟨e, s, hfails L s rfl⟩
    · obtain ⟨rfl, rfl⟩ := Prod.mk.inj (hprepare.symm.trans (hfails L s rfl))
      exact hfailed e (site.committed s tree c.expectedBase _) rfl rfl rfl fun L =>
        ⟨e, _, hfails L _ rfl⟩
    · obtain ⟨rfl, rfl⟩ := Prod.mk.inj (hprepare.symm.trans (hmakes L s rfl))
      obtain ⟨_, _, hupdate, hret⟩ := Prog.yields_bind.mp hret
      obtain ⟨rfl, rfl⟩ := h.yields_update.mp hupdate
      have hproven : c.Proven site (site.committed s tree c.expectedBase
          (c.payload.publication.message c.taskId)) _ := answer_committed.trans hcontent
      have hhead' : (site.committed s tree c.expectedBase
          (c.payload.publication.message c.taskId)).head = some c.expectedBase := hhead
      refine reconcilePrepared_again (h.updated _) ?_ ?_ hhead' hproven hret
      · simp [PublicationPatch.apply]
      · simp [PublicationPatch.apply]
  · simp only [hresume] at hret
    obtain ⟨hreply, rfl⟩ := Prog.yields_ret.mp hret
    exact ⟨by simp [← hreply], hself rfl⟩

/-- An intent without any effect is abandoned, and found blocked the next time. -/
theorem Untouched.abandoned (sha : Sha256) (h : c.Reads L journal)
    (hcommit : journal.commitId = none)
    (hhead : s.head = some c.expectedBase) (huntouched : Untouched site c journal s) :
    ∃ reply y reply' z,
      (reconcilePublication c.runId c.resume).Yields (site.semantics sha) () (L, s) reply y ∧
      reply.status = .safeToRetry ∧
      (reconcilePublication c.runId c.resume).Yields (site.semantics sha) () y reply' z ∧
      reply'.status = .blocked := by
  obtain ⟨hintent, hstaged, hraw⟩ := huntouched
  have hnot : ¬ site.staged s.head c.payload c.manifest = true := by simp [hstaged]
  let abandon : PublicationPatch := { status := .abandoned }
  let retry : Reply :=
    { status := .safeToRetry, runId := c.runId, reason := "no_git_side_effect_observed" }
  refine ⟨retry, (c.updated L abandon, s), c.blocked "unexpected_staging_state",
    (c.updated L abandon, s), h.yields_iff.mpr ?_, rfl, (h.updated abandon).yields_iff.mpr ?_, rfl⟩
  · rw [if_neg (by simp [hintent]), yields_reconcileJournal_base hcommit hhead, reconcileStaged,
      if_pos hnot]
    refine yields_ask_bind.mpr ⟨_, hraw, ?_⟩
    rw [if_pos ⟨rfl, hintent⟩]
    refine Prog.yields_bind.mpr ⟨_, _, h.yields_update.mpr ⟨rfl, rfl⟩, ?_⟩
    exact Prog.yields_ret.mpr ⟨rfl, rfl⟩
  · have hcommit' : (abandon.apply journal).commitId = none := by
      simp [PublicationPatch.apply, abandon, hcommit]
    rw [if_neg (by simp [PublicationPatch.apply, abandon]),
      yields_reconcileJournal_base hcommit' hhead, reconcileStaged, if_pos hnot]
    refine yields_ask_bind.mpr ⟨_, hraw, ?_⟩
    rw [if_neg (by simp [PublicationPatch.apply, abandon])]
    exact Prog.yields_ret.mpr ⟨rfl, rfl⟩

end Staged

/-! ### Any journal -/

section Journal

variable {c : Reconciling} {L : Ledger} {s : GitState} {reply : Reply} {y : Ledger × GitState}
  {journal : Publication} {runId : RunId} {resume : Bool}

theorem reconcileJournal_again (h : c.Reads L journal) (hstatus : journal.status ≠ .complete)
    (htouched : journal.commitId = none → s.head = some c.expectedBase →
      ¬ Untouched site c journal s)
    (hret : (reconcileJournal c journal).Yields (site.semantics sha) () (L, s) reply y) :
    reply.status ≠ .safeToRetry ∧ c.Again site sha y reply.status := by
  have hself : y = (L, s) → c.Again site sha y reply.status := by
    rintro rfl
    exact h.again hstatus hret
  rcases hcommit : journal.commitId with _ | commit
  · by_cases hbase : s.head = some c.expectedBase
    · rw [yields_reconcileJournal_base hcommit hbase] at hret
      exact reconcileStaged_again h hstatus hcommit hbase (htouched hcommit hbase) hret
    simp only [reconcileJournal, hcommit] at hret
    obtain ⟨_, ⟨⟩, hret⟩ := yields_ask_bind.mp hret
    obtain ⟨_, ⟨⟩, hret⟩ := yields_ask_bind.mp hret
    rcases hhead : s.head with _ | observed
    · simp only [hhead] at hret
      obtain ⟨hreply, rfl⟩ := Prog.yields_ret.mp hret
      exact ⟨by simp [← hreply, Reconciling.blocked], hself rfl⟩
    simp only [hhead] at hret hbase
    rw [if_neg fun heq => hbase (congrArg some heq)] at hret
    obtain ⟨proven, hproven, hret⟩ := yields_ask_bind.mp hret
    cases proven with
    | false =>
      obtain ⟨hreply, rfl⟩ := Prog.yields_ret.mp hret
      exact ⟨by simp [← hreply, Reconciling.blocked], hself rfl⟩
    | true =>
      obtain ⟨_, _, hupdate, hret⟩ := Prog.yields_bind.mp hret
      obtain ⟨rfl, rfl⟩ := h.yields_update.mp hupdate
      refine reconcileCommitted_again (h.updated _) ?_ ?_ hhead hproven hret
      · simp [PublicationPatch.apply]
      · simp [PublicationPatch.apply]
  · rw [yields_reconcileJournal_some hcommit] at hret
    obtain ⟨proven, hproven, hret⟩ := hret
    split at hret
    next =>
      obtain ⟨hreply, rfl⟩ := Prog.yields_ret.mp hret
      exact ⟨by simp [← hreply, Reconciling.blocked], hself rfl⟩
    next hproof =>
    obtain rfl : proven = true := by simpa using hproof
    split at hret
    next hbase => exact reconcilePrepared_again h hstatus hcommit hbase hproven hret
    next =>
    split at hret
    next hhead => exact reconcileCommitted_again h hstatus hcommit hhead hproven hret
    next =>
      obtain ⟨hreply, rfl⟩ := Prog.yields_ret.mp hret
      exact ⟨by simp [← hreply, Reconciling.blocked], hself rfl⟩

/-- What a call returns: it changes nothing, or it goes by a journal that is not complete. -/
theorem yields_reconcilePublication
    (h : (reconcilePublication runId resume).Yields (site.semantics sha) () (L, s) reply y) :
    (reply.status ≠ .safeToRetry ∧ y = (L, s)) ∨
      ∃ c journal, c.runId = runId ∧ c.resume = resume ∧ c.Reads L journal ∧
        journal.status ≠ .complete ∧
        (reconcileJournal c journal).Yields (site.semantics sha) () (L, s) reply y := by
  rw [reconcilePublication, yields_selectPublication_bind, yields_selectRun_bind] at h
  rcases hjournal : L.publications.lookup runId with _ | journal
  · rw [hjournal] at h
    obtain ⟨rfl, rfl⟩ := Prog.yields_ret.mp h
    exact .inl ⟨by simp, rfl⟩
  simp only [hjournal] at h
  obtain ⟨run, hrun, h⟩ := yields_demand_bind.mp h
  rw [reconcileRun, yields_selectTask_bind] at h
  obtain ⟨task, htask, h⟩ := yields_demand_bind.mp h
  rw [yields_selectSnapshot_bind] at h
  obtain ⟨snap, hsnap, h⟩ := yields_demand_bind.mp h
  obtain ⟨snapshotId, hid, hsnap⟩ := Option.bind_eq_some_iff.mp hsnap
  split at h
  next =>
    obtain ⟨rfl, rfl⟩ := Prog.yields_ret.mp h
    exact .inl ⟨by simp, rfl⟩
  next hstatus =>
  split at h
  next =>
    obtain ⟨rfl, rfl⟩ := Prog.yields_ret.mp h
    exact .inl ⟨by simp, rfl⟩
  next expectedBase hbase =>
    refine .inr ⟨_, journal, rfl, rfl, ⟨hjournal, ?_, hbase⟩, hstatus, h⟩
    exact ⟨run, task, snapshotId, snap, hrun, htask, hid, hsnap, rfl, rfl, rfl⟩

end Journal

/-- The journal is an intent without a commit, the branch is at the expected base, and nothing is
staged, though the snapshot has changes. -/
def LosesRetry (site : Site) (runId : RunId) (x : Ledger × GitState) : Prop :=
  ∃ c journal, c.runId = runId ∧ c.Reads x.1 journal ∧ journal.commitId = none ∧
    x.2.head = some c.expectedBase ∧ Untouched site c journal x.2

theorem not_stable_of_losesRetry {runId : RunId} {x : Ledger × GitState}
    (h : LosesRetry site runId x) (resume : Bool) :
    ¬ StableReconciliation site sha runId resume x := by
  rintro ⟨hrepeats, -⟩
  obtain ⟨L, s⟩ := x
  obtain ⟨c, journal, rfl, h, hcommit, hhead, huntouched⟩ := h
  have h' : ({ c with resume := resume } : Reconciling).Reads L journal := ⟨h.1, h.2, h.3⟩
  obtain ⟨reply, y, reply', z, hfirst, hretry, hsecond, hblocked⟩ :=
    Untouched.abandoned sha h' hcommit hhead huntouched
  obtain ⟨reply'', z', hagain, hsame⟩ := hrepeats reply y hfirst
  obtain ⟨rfl, -⟩ := hagain.unique hsecond
  rw [hblocked, hretry] at hsame
  cases hsame

/-- Reconciling is stable, save for an intent that has had no effect. -/
theorem stableReconciliation_iff (site : Site) (sha : Sha256) (runId : RunId) (resume : Bool)
    (x : Ledger × GitState) :
    StableReconciliation site sha runId resume x ↔ ¬ LosesRetry site runId x := by
  obtain ⟨L, s⟩ := x
  constructor
  · exact fun hstable hloses => not_stable_of_losesRetry hloses resume hstable
  · intro hnot
    have hstable : ∀ reply y,
        (reconcilePublication runId resume).Yields (site.semantics sha) () (L, s) reply y →
        reply.status ≠ .safeToRetry ∧ ∃ reply' z,
          (reconcilePublication runId resume).Yields (site.semantics sha) () y reply' z ∧
            reply'.status = reply.status := by
      intro reply y hret
      rcases yields_reconcilePublication hret with
        ⟨hretry, rfl⟩ | ⟨c, journal, rfl, rfl, h, hstatus, hjournal⟩
      · exact ⟨hretry, reply, _, hret, rfl⟩
      · refine reconcileJournal_again h hstatus (fun hcommit hhead huntouched => ?_) hjournal
        exact hnot ⟨c, journal, rfl, h, hcommit, hhead, huntouched⟩
    constructor
    · exact fun reply y hret => (hstable reply y hret).2
    · exact fun reply y hret hretry => absurd hretry (hstable reply y hret).1

/-! ### An intent cut off before its first effect -/

namespace CutOff

/-- A workspace with an empty index, where no commit can be made. -/
def workspace : Site where
  view _ o :=
    match o with
    | .stagedPaths _ => .ok (some [])
    | _ => .error (.other "RuntimeError" "unavailable")
  staged _ _ manifest := manifest.changed = []
  commitId _ object _ := object.parent ++ "'"
  content _ _ _ _ := .ok false
  accepts _ _ := .ok none
  listed _ _ := .ok none
  commitId_ne_parent _ object _ h := by
    have := congrArg String.length h
    simp at this
  parent_of_content _ _ _ _ h := by cases h

def payload : TaskPayload where
  id := "t"
  projectId := none
  writerKey := "w"
  workspace := "/srv/w"
  allowedPaths := ["a"]
  protectedPaths := []
  checks := []
  requiredReview := false
  review := none
  ownerAcceptance := false
  publication := { kind := .gitLocal }
  maxAttempts := 1
  dependencies := []

def manifest : Manifest where
  workspace := "/srv/w"
  files := [("a", ⟨false, some "h", 1, some 0o644⟩)]
  protectedFiles := []
  gitHead := some "b"
  createdAt := "0"

/-- A verified run whose publication has recorded its intent. -/
def ledger : Ledger := { Ledger.empty with
  tasks := Table.put ∅ "t" ⟨"p", 0, 1, .readyToPublish, payload⟩
  runs := Table.put ∅ "r"
    { taskId := "t", attempt := 1, workerId := "w", state := .verified, leaseToken := "l",
      startedAt := "0", claimGitHead := some "b", snapshotId := some "s" }
  snapshots := Table.put ∅ "s" ⟨"r", manifest⟩
  publications := Table.put ∅ "r"
    { operationId := "o", kind := .gitLocal, status := .intent, expectedBase := some "b" } }

def state : GitState := ⟨some "b", ∅, ∅, by simp⟩

end CutOff

theorem not_always_stable :
    LosesRetry CutOff.workspace "r" (CutOff.ledger, CutOff.state) ∧ ∀ sha : Sha256,
      ¬ StableReconciliation CutOff.workspace sha "r" false (CutOff.ledger, CutOff.state) := by
  have hloses : LosesRetry CutOff.workspace "r" (CutOff.ledger, CutOff.state) := by
    refine ⟨⟨"r", "t", CutOff.payload, CutOff.manifest, "b", false⟩, _, rfl,
      ⟨rfl, ?_, rfl⟩, rfl, rfl, rfl, ?_, rfl⟩
    · exact ⟨_, _, _, _, rfl, rfl, rfl, rfl, rfl, rfl, rfl⟩
    · decide
  exact ⟨hloses, fun _ => not_stable_of_losesRetry hloses false⟩

end OrchKit
