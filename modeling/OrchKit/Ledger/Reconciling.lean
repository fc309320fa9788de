import OrchKit.Git.Site
import OrchKit.Ledger.Footprint

/-! # Going by the journal again

What a call of `reconcile_publication` reads, and that bringing the remote up to a commit on the
branch comes to the same when it is done again from where it was left.
-/

namespace OrchKit

open Program Script

variable {site : Site} {sha : Sha256}

/-! ### What a call reads -/

/-- The ledger holds what the call has read, with this journal. -/
structure Reconciling.Reads (c : Reconciling) (L : Ledger) (journal : Publication) : Prop where
  publication : L.publications.lookup c.runId = some journal
  rows : ∃ run task snapshotId snap, L.runs.lookup c.runId = some run ∧
    L.tasks.lookup run.taskId = some task ∧ run.snapshotId = some snapshotId ∧
    L.snapshots.lookup snapshotId = some snap ∧
    run.taskId = c.taskId ∧ task.payload = c.payload ∧ snap.manifest = c.manifest
  base : (journal.expectedBase.or c.payload.publication.expectedBase).or c.manifest.gitHead =
    some c.expectedBase

/-- The same call, made again, returns with this status. -/
def Reconciling.Again (site : Site) (sha : Sha256) (c : Reconciling) (x : Ledger × GitState)
    (status : ReplyStatus) : Prop :=
  ∃ reply y, (reconcilePublication c.runId c.resume).Yields (site.semantics sha) () x reply y ∧
    reply.status = status

def Reconciling.updated (c : Reconciling) (L : Ledger) (patch : PublicationPatch) : Ledger :=
  { L with publications := L.publications.modify c.runId patch.apply }

section Reads

variable {c : Reconciling} {L : Ledger} {s : GitState} {journal : Publication} {reply : Reply}
  {y : Ledger × GitState} {patch : PublicationPatch} {seen row : Option Publication}

theorem Reconciling.Reads.updated (h : c.Reads L journal) (patch : PublicationPatch) :
    c.Reads (c.updated L patch) (patch.apply journal) := by
  constructor
  · simp [Reconciling.updated, Table.lookup_modify, h.publication]
  · exact h.rows
  · exact h.base

theorem Reconciling.Reads.yields_update (h : c.Reads L journal) :
    (publicationUpdate c.runId seen patch).Yields (site.semantics sha) () (L, s) row y ↔
      row = some (patch.apply journal) ∧ y = (c.updated L patch, s) := by
  rw [publicationUpdate, yields_selectPublication_bind, h.publication, Prog.yields_call,
    Prog.yields_ret]
  exact and_congr eq_comm eq_comm

theorem Reconciling.Reads.yields_iff (h : c.Reads L journal) :
    (reconcilePublication c.runId c.resume).Yields (site.semantics sha) () (L, s) reply y ↔
      if journal.status = .complete then
        reply = { status := .complete, commit := journal.commitId,
                  remoteCommit := journal.remoteCommit } ∧ y = (L, s)
      else (reconcileJournal c journal).Yields (site.semantics sha) () (L, s) reply y := by
  obtain ⟨run, task, snapshotId, snap, hrun, htask, hid, hsnap, htaskId, hpayload, hmanifest⟩ :=
    h.rows
  rw [reconcilePublication, yields_selectPublication_bind, yields_selectRun_bind, h.publication,
    hrun]
  simp only [demand, Prog.ret_bind, reconcileRun, yields_selectTask_bind, htask,
    yields_selectSnapshot_bind, hid, Option.bind_some, hsnap]
  split
  next hcomplete => simp [eq_comm]
  next hcomplete =>
    rw [hpayload, hmanifest, h.base, htaskId]

theorem Reconciling.Reads.again_of_complete (h : c.Reads L journal)
    (hcomplete : journal.status = .complete) : c.Again site sha (L, s) .complete :=
  ⟨_, _, h.yields_iff.mpr (by rw [if_pos hcomplete]; exact ⟨rfl, rfl⟩), rfl⟩

theorem Reconciling.Reads.again (h : c.Reads L journal) (hstatus : journal.status ≠ .complete)
    (hret : (reconcileJournal c journal).Yields (site.semantics sha) () (L, s) reply y) :
    c.Again site sha (L, s) reply.status :=
  ⟨reply, y, h.yields_iff.mpr (by rwa [if_neg hstatus]), rfl⟩

/-- Finalising leaves a journal that is complete. -/
theorem Reconciling.Reads.yields_finalize (h : c.Reads L journal) {commit : CommitId}
    {remoteCommit : Option CommitId} {kind : PublicationKind}
    (hret : (c.finalize commit remoteCommit kind seen).Yields (site.semantics sha) () (L, s)
      reply y) : reply.status = .complete ∧ c.Again site sha y .complete := by
  rw [Reconciling.finalize, transact, Prog.yields_call] at hret
  obtain ⟨rfl, rfl⟩ := Prog.yields_ret.mp hret
  refine ⟨rfl, ?_⟩
  obtain ⟨run, task, snapshotId, snap, hrun, htask, hid, hsnap, htaskId, hpayload, hmanifest⟩ :=
    h.rows
  let finished : Publication := { journal with
    status := .complete, commitId := some commit, remoteCommit := remoteCommit, error := none }
  suffices hreads : c.Reads _ finished from hreads.again_of_complete rfl
  refine ⟨?_, ?_, h.base⟩
  · simp [ledgerSemantics, Txn.run, Ledger.finalizePublication, Table.lookup_modify, h.publication,
      finished]
  · refine ⟨{ run with state := .complete }, { task with status := .done }, snapshotId, snap, ?_⟩
    simp [ledgerSemantics, Txn.run, Ledger.finalizePublication, Table.lookup_modify, hrun, htask,
      hid, hsnap, htaskId, hpayload, hmanifest]

end Reads

/-! ### The remote -/

section Remote

variable {c : Reconciling} {L : Ledger} {s : GitState} {payload : TaskPayload} {url ref : String}
  {commit : CommitId} {y : Ledger × GitState}

theorem yields_transportUrl_bind {α : Type} {f : String → Script α} {a : α} :
    (transportUrl payload url >>= f).Yields (site.semantics sha) () (L, s) a y ↔
      ∃ canonical, site.view s.head (.inspectTransportUrl payload url) = .ok (.ok canonical) ∧
        (f canonical).Yields (site.semantics sha) () (L, s) a y := by
  rw [transportUrl, Prog.bind_assoc, yields_ask_bind]
  constructor
  · rintro ⟨policy, hpolicy, h⟩
    cases policy with
    | ok canonical => exact ⟨canonical, hpolicy, h⟩
    | error reason => cases h
  · rintro ⟨canonical, hpolicy, h⟩
    exact ⟨.ok canonical, hpolicy, h⟩

theorem yields_lsRemote {remoteCommit : Option CommitId} :
    (transportLsRemote payload url ref).Yields (site.semantics sha) () (L, s) remoteCommit y ↔
      ∃ canonical, site.view s.head (.inspectTransportUrl payload url) = .ok (.ok canonical) ∧
        site.listed s.remotes (.lsRemote payload canonical ref) = .ok remoteCommit ∧
          y = (L, s) := by
  rw [transportLsRemote, yields_transportUrl_bind]
  exact exists_congr fun _ => and_congr_right fun _ => yields_ask

theorem yields_push {pushed : Option Unit} :
    (transportPush payload url commit ref).Yields (site.semantics sha) () (L, s) pushed y ↔
      ∃ canonical, site.view s.head (.inspectTransportUrl payload url) = .ok (.ok canonical) ∧
        site.answer s (.push payload canonical commit ref) = .ok pushed ∧
        y = (L, site.after s (.push payload canonical commit ref)) := by
  rw [transportPush, yields_transportUrl_bind]
  exact exists_congr fun _ => and_congr_right fun _ => yields_ask

theorem after_push_none (h : site.answer s (.push payload url commit ref) = .ok none) :
    site.after s (.push payload url commit ref) = s := by
  rw [Site.after, h]

theorem after_push_some (h : site.answer s (.push payload url commit ref) = .ok (some ())) :
    site.after s (.push payload url commit ref) = s.withRemote url ref commit := by
  rw [Site.after, h]

theorem push_again (site : Site) (s : GitState) (payload : TaskPayload) (url ref : String)
    (commit : CommitId) : site.answer (s.withRemote url ref commit) (.push payload url commit ref) =
      .ok (some ()) ∧
    site.after (s.withRemote url ref commit) (.push payload url commit ref) =
      s.withRemote url ref commit := by
  have hanswer : site.answer (s.withRemote url ref commit) (.push payload url commit ref) =
      .ok (some ()) := by
    rw [Site.answer, if_pos]
    simp [GitState.withRemote, Table.lookup_put]
  refine ⟨hanswer, ?_⟩
  rw [after_push_some hanswer]
  simp [GitState.withRemote, Table.put]

/-- Bringing the remote up to the commit gives this status, in any ledger that has the journal. -/
def Reconciling.RemoteAgain (site : Site) (sha : Sha256) (c : Reconciling) (commit : CommitId)
    (s : GitState) (status : ReplyStatus) : Prop :=
  ∀ L journal seen, c.Reads L journal → ∃ reply y,
    (reconcileRemote c commit seen).Yields (site.semantics sha) () (L, s) reply y ∧
      reply.status = status

/-- A journal of the commit, at a workspace whose branch and commits are as they were. -/
structure Reconciling.Settled (c : Reconciling) (commit : CommitId) (s : GitState)
    (y : Ledger × GitState) : Prop where
  journal : ∃ journal, c.Reads y.1 journal ∧ journal.status ≠ .complete ∧
    journal.commitId = some commit
  head : y.2.head = s.head
  commits : y.2.commits = s.commits

theorem Reconciling.Reads.settled_update {journal : Publication} (h : c.Reads L journal)
    {patch : PublicationPatch} (hcommit : patch.commitId = some commit)
    (hstatus : patch.status ≠ .complete) : c.Settled commit s (c.updated L patch, s) := by
  refine ⟨⟨patch.apply journal, h.updated patch, hstatus, ?_⟩, rfl, rfl⟩
  rw [PublicationPatch.apply, hcommit]
  rfl

/-- Whatever bringing the remote up comes to, it comes to again. -/
theorem reconcileRemote_again {journal : Publication} {reply : Reply} {seen : Option Publication}
    (h : c.Reads L journal) (hstatus : journal.status ≠ .complete)
    (hcommit : journal.commitId = some commit)
    (hret : (reconcileRemote c commit seen).Yields (site.semantics sha) () (L, s) reply y) :
    (reply.status = .complete ∧ c.Again site sha y .complete) ∨
      (reply.status ≠ .safeToRetry ∧ c.Settled commit s y ∧
        c.RemoteAgain site sha commit y.2 reply.status) := by
  have hself : c.Settled commit s (L, s) := ⟨⟨journal, h, hstatus, hcommit⟩, rfl, rfl⟩
  rcases hurl : c.payload.publication.url with _ | remoteUrl
  · simp only [reconcileRemote, hurl] at hret
    obtain ⟨rfl, rfl⟩ := Prog.yields_ret.mp hret
    refine .inr ⟨by simp [Reconciling.blocked], hself, fun L journal seen _ => ?_⟩
    simp only [reconcileRemote, hurl]
    exact ⟨_, _, Prog.yields_ret.mpr ⟨rfl, rfl⟩, rfl⟩
  simp only [reconcileRemote, hurl] at hret
  obtain ⟨remoteCommit, _, hls, hret⟩ := Prog.yields_bind.mp hret
  obtain ⟨canonical, hcanonical, hlisted, rfl⟩ := yields_lsRemote.mp hls
  have hls' : ∀ L : Ledger, (transportLsRemote c.payload remoteUrl
      c.payload.publication.refName).Yields (site.semantics sha) () (L, s) remoteCommit (L, s) :=
    fun L => yields_lsRemote.mpr ⟨canonical, hcanonical, hlisted, rfl⟩
  split at hret
  next hequal =>
    obtain ⟨_, _, hupdate, hret⟩ := Prog.yields_bind.mp hret
    obtain ⟨rfl, rfl⟩ := h.yields_update.mp hupdate
    exact .inl ((h.updated _).yields_finalize hret)
  next hequal =>
  split at hret
  next hresume =>
    obtain ⟨hreply, rfl⟩ := Prog.yields_ret.mp hret
    refine .inr ⟨?_, hself, fun L journal seen _ => ⟨reply, (L, s), ?_, rfl⟩⟩
    · simp [← hreply]
    simp only [reconcileRemote, hurl]
    refine Prog.yields_bind.mpr ⟨_, _, hls' L, ?_⟩
    rw [if_neg hequal, if_pos hresume]
    exact Prog.yields_ret.mpr ⟨hreply, rfl⟩
  next hresume =>
  split at hret
  next hadvanced =>
    obtain ⟨hreply, rfl⟩ := Prog.yields_ret.mp hret
    refine .inr ⟨?_, hself, fun L journal seen _ => ⟨reply, (L, s), ?_, rfl⟩⟩
    · simp [← hreply, Reconciling.blocked]
    simp only [reconcileRemote, hurl]
    refine Prog.yields_bind.mpr ⟨_, _, hls' L, ?_⟩
    rw [if_neg hequal, if_neg hresume, if_pos hadvanced]
    exact Prog.yields_ret.mpr ⟨hreply, rfl⟩
  next hadvanced =>
  obtain ⟨pushed, _, hpush, hret⟩ := Prog.yields_bind.mp hret
  obtain ⟨canonical', hcanonical', hanswer, rfl⟩ := yields_push.mp hpush
  obtain rfl : canonical = canonical' := by
    rw [hcanonical, Except.ok.injEq, Except.ok.injEq] at hcanonical'
    exact hcanonical'
  rcases pushed with _ | ⟨⟩
  · -- a push that fails leaves the remote alone, and fails again
    obtain ⟨_, _, hupdate, hret⟩ := Prog.yields_bind.mp hret
    rw [after_push_none hanswer] at hupdate
    obtain ⟨rfl, rfl⟩ := h.yields_update.mp hupdate
    obtain ⟨hreply, rfl⟩ := Prog.yields_ret.mp hret
    let failed : PublicationPatch :=
      { status := .committed, commitId := commit, error := "git_push_failed:" }
    refine .inr ⟨?_, h.settled_update rfl (by simp), fun L journal seen hreads =>
      ⟨reply, (c.updated L failed, s), ?_, rfl⟩⟩
    · simp [← hreply, Reconciling.blocked]
    simp only [reconcileRemote, hurl]
    refine Prog.yields_bind.mpr ⟨_, _, hls' L, ?_⟩
    rw [if_neg hequal, if_neg hresume, if_neg hadvanced]
    refine Prog.yields_bind.mpr ⟨_, _, yields_push.mpr ⟨_, hcanonical, hanswer, rfl⟩, ?_⟩
    rw [after_push_none hanswer]
    refine Prog.yields_bind.mpr ⟨_, _, hreads.yields_update.mpr ⟨rfl, rfl⟩, ?_⟩
    exact Prog.yields_ret.mpr ⟨hreply, rfl⟩
  · obtain ⟨_, _, hupdate, hret⟩ := Prog.yields_bind.mp hret
    rw [after_push_some hanswer] at hupdate
    obtain ⟨rfl, rfl⟩ := h.yields_update.mp hupdate
    obtain ⟨pushedCommit, _, hverify, hret⟩ := Prog.yields_bind.mp hret
    obtain ⟨canonical', hcanonical', hlisted', rfl⟩ := yields_lsRemote.mp hverify
    obtain rfl : canonical = canonical' := by
      rw [GitState.withRemote, hcanonical, Except.ok.injEq, Except.ok.injEq] at hcanonical'
      exact hcanonical'
    split at hret
    next hverified =>
      -- the remote does not show what was pushed: it has moved on, or it does not show it again
      obtain ⟨hreply, rfl⟩ := Prog.yields_ret.mp hret
      have hstatus : reply.status = .blocked := by
        rw [← hreply]
        rfl
      let pushing : PublicationPatch := { status := .pushed, commitId := commit }
      have hsettled : c.Settled commit s (c.updated L pushing, s) :=
        h.settled_update rfl (by simp [pushing])
      refine .inr ⟨by simp [hstatus], ⟨hsettled.journal, rfl, rfl⟩, fun L journal seen hreads => ?_⟩
      rw [hstatus]
      simp only [reconcileRemote, hurl]
      let t := s.withRemote canonical c.payload.publication.refName commit
      have hpush' : ∀ L : Ledger, (transportPush c.payload remoteUrl commit
          c.payload.publication.refName).Yields (site.semantics sha) () (L, t) (some ())
          (L, t) := by
        obtain ⟨hanswer', hafter⟩ :=
          push_again site s c.payload canonical c.payload.publication.refName commit
        exact fun L => yields_push.mpr ⟨canonical, hcanonical, hanswer', by rw [hafter]⟩
      have hls'' : ∀ L : Ledger, (transportLsRemote c.payload remoteUrl
          c.payload.publication.refName).Yields (site.semantics sha) () (L, t) pushedCommit
          (L, t) :=
        fun L => yields_lsRemote.mpr ⟨canonical, hcanonical, hlisted', rfl⟩
      by_cases hmoved : pushedCommit ≠ none ∧ pushedCommit ≠ some c.expectedBase
      · refine ⟨{ c.blocked "remote_advanced" with remoteCommit := pushedCommit },
          (L, t), Prog.yields_bind.mpr ⟨_, _, hls'' L, ?_⟩, rfl⟩
        rw [if_neg hverified, if_neg hresume, if_pos hmoved]
        exact Prog.yields_ret.mpr ⟨rfl, rfl⟩
      · refine ⟨{ c.blocked "remote_verification_failed" with remoteCommit := pushedCommit },
          (c.updated L pushing, t), Prog.yields_bind.mpr ⟨_, _, hls'' L, ?_⟩, rfl⟩
        rw [if_neg hverified, if_neg hresume, if_neg hmoved]
        refine Prog.yields_bind.mpr ⟨_, _, hpush' L, ?_⟩
        refine Prog.yields_bind.mpr ⟨_, _, hreads.yields_update.mpr ⟨rfl, rfl⟩, ?_⟩
        refine Prog.yields_bind.mpr ⟨_, _, hls'' _, ?_⟩
        rw [if_pos hverified]
        exact Prog.yields_ret.mpr ⟨rfl, rfl⟩
    next hverified =>
      obtain ⟨_, _, hupdate, hret⟩ := Prog.yields_bind.mp hret
      obtain ⟨rfl, rfl⟩ := (h.updated _).yields_update.mp hupdate
      exact .inl (((h.updated _).updated _).yields_finalize hret)

end Remote

/-! ### A commit on the branch -/

section Committed

variable {c : Reconciling} {L : Ledger} {s t : GitState} {commit : CommitId} {reply : Reply}
  {y : Ledger × GitState} {journal : Publication} {seen : Option Publication}

/-- The commit is the snapshot's, on top of the expected base. -/
def Reconciling.Proven (site : Site) (c : Reconciling) (s : GitState) (commit : CommitId) : Prop :=
  site.answer s (.commitMatchesSnapshot c.payload commit c.expectedBase c.manifest) = .ok true

theorem Reconciling.Proven.of_commits (h : c.Proven site s commit) (ht : t.commits = s.commits) :
    c.Proven site t commit := by
  rw [Reconciling.Proven, Site.answer, ht]
  exact h

theorem Reconciling.Proven.ne_base (h : c.Proven site s commit) : commit ≠ c.expectedBase := by
  rw [Reconciling.Proven, Site.answer] at h
  split at h
  next => cases h
  next object hlookup =>
    rw [← site.parent_of_content _ _ _ _ h]
    exact (s.acyclic commit object hlookup).symm

theorem yields_reconcileJournal_some (hcommit : journal.commitId = some commit) :
    (reconcileJournal c journal).Yields (site.semantics sha) () (L, s) reply y ↔
      ∃ proven, site.answer s
          (.commitMatchesSnapshot c.payload commit c.expectedBase c.manifest) = .ok proven ∧
        (if proven = false then .ret (c.blocked "commit_not_proven")
          else if s.head = some c.expectedBase then
            reconcilePrepared c (site.staged s.head c.payload c.manifest) commit (some journal)
          else if s.head = some commit then
            reconcileCommitted c commit journal.status (some journal)
          else .ret (c.blocked "publication_base_changed") : Script Reply).Yields
          (site.semantics sha) () (L, s) reply y := by
  simp only [reconcileJournal, hcommit]
  rw [yields_ask_bind]
  constructor
  · rintro ⟨_, ⟨⟩, h⟩
    obtain ⟨_, ⟨⟩, h⟩ := yields_ask_bind.mp h
    obtain ⟨proven, hproven, h⟩ := yields_ask_bind.mp h
    refine ⟨proven, hproven, ?_⟩
    cases proven <;> exact h
  · rintro ⟨proven, hproven, h⟩
    refine ⟨_, rfl, yields_ask_bind.mpr ⟨_, rfl, yields_ask_bind.mpr ⟨proven, hproven, ?_⟩⟩⟩
    cases proven <;> exact h

theorem Reconciling.Reads.again_of_committed (h : c.Reads L journal)
    (hstatus : journal.status ≠ .complete) (hcommit : journal.commitId = some commit)
    (hhead : s.head = some commit) (hproven : c.Proven site s commit)
    (hret : (reconcileCommitted c commit journal.status (some journal)).Yields
      (site.semantics sha) () (L, s) reply y) : c.Again site sha (L, s) reply.status := by
  refine h.again (y := y) hstatus ((yields_reconcileJournal_some hcommit).mpr ⟨true, hproven, ?_⟩)
  have hne : ¬ s.head = some c.expectedBase := by
    rw [hhead, Option.some.injEq]
    exact hproven.ne_base
  rwa [if_neg (by simp), if_neg hne, if_pos hhead]

/-- Recording that the commit is on the branch, where that is not recorded yet. -/
theorem Reconciling.Reads.yields_record (site : Site) (sha : Sha256) (s : GitState)
    (h : c.Reads L journal) (hstatus : journal.status ≠ .complete)
    (hcommit : journal.commitId = some commit) (status : PublicationStatus)
    (seen : Option Publication) : ∃ L' journal' seen',
    c.Reads L' journal' ∧ journal'.status ≠ .complete ∧ journal'.commitId = some commit ∧
    ∀ {α : Type} {f : Option Publication → Script α} {a : α} {y : Ledger × GitState},
      (if status = .committed then Prog.ret seen >>= f
        else publicationUpdate c.runId seen { status := .committed, commitId := commit } >>=
          f).Yields (site.semantics sha) () (L, s) a y ↔
        (f seen').Yields (site.semantics sha) () (L', s) a y := by
  by_cases hcommitted : status = .committed
  · refine ⟨L, journal, seen, h, hstatus, hcommit, fun {α f a y} => ?_⟩
    rw [if_pos hcommitted, Prog.ret_bind]
  · let patch : PublicationPatch := { status := .committed, commitId := commit }
    refine
      ⟨_, _, some (patch.apply journal), h.updated patch, by simp [patch, PublicationPatch.apply],
      by simp [patch, PublicationPatch.apply], fun {α f a y} => ?_⟩
    rw [if_neg hcommitted, Prog.yields_bind]
    constructor
    · rintro ⟨_, _, hupdate, hf⟩
      obtain ⟨rfl, rfl⟩ := h.yields_update.mp hupdate
      exact hf
    · intro hf
      exact ⟨_, _, h.yields_update.mpr ⟨rfl, rfl⟩, hf⟩

theorem reconcileCommitted_again (h : c.Reads L journal) (hstatus : journal.status ≠ .complete)
    (hcommit : journal.commitId = some commit) (hhead : s.head = some commit)
    (hproven : c.Proven site s commit) {status : PublicationStatus}
    (hret : (reconcileCommitted c commit status seen).Yields (site.semantics sha) () (L, s)
      reply y) : reply.status ≠ .safeToRetry ∧ c.Again site sha y reply.status := by
  obtain ⟨L₁, journal₁, seen₁, h₁, hstatus₁, hcommit₁, hrecord⟩ :=
    h.yields_record site sha s hstatus hcommit status seen
  rw [reconcileCommitted, hrecord] at hret
  obtain ⟨proven, hanswer, hret⟩ := yields_ask_bind.mp hret
  obtain rfl : true = proven := Except.ok.inj (hproven.symm.trans hanswer)
  rw [if_neg (by simp)] at hret
  by_cases hkind : c.payload.publication.kind = .gitLocal
  · rw [if_pos hkind] at hret
    obtain ⟨hcomplete, hagain⟩ := h₁.yields_finalize hret
    rw [hcomplete]
    exact ⟨by simp, hagain⟩
  rw [if_neg hkind] at hret
  rcases reconcileRemote_again h₁ hstatus₁ hcommit₁ hret with
    ⟨hcomplete, hagain⟩ | ⟨hretry, ⟨⟨journal₂, h₂, hstatus₂, hcommit₂⟩, hhead₂, hcommits₂⟩, hagain⟩
  · rw [hcomplete]
    exact ⟨by simp, hagain⟩
  refine ⟨hretry, ?_⟩
  obtain ⟨L₂, t⟩ := y
  obtain ⟨L₃, journal₃, seen₃, h₃, -, -, hrecord'⟩ :=
    h₂.yields_record site sha t hstatus₂ hcommit₂ journal₂.status (some journal₂)
  obtain ⟨reply', z, hremote, hsame⟩ := hagain L₃ journal₃ seen₃ h₃
  have hproven₂ := hproven.of_commits hcommits₂
  rw [← hsame]
  refine h₂.again_of_committed (y := z) hstatus₂ hcommit₂ (hhead₂.trans hhead) hproven₂ ?_
  rw [reconcileCommitted, hrecord']
  refine yields_ask_bind.mpr ⟨true, hproven₂, ?_⟩
  rwa [if_neg (by simp), if_neg hkind]

end Committed

end OrchKit
