import OrchKit.Lifecycle.Completion
import OrchKit.Lifecycle.Sequence

/-! # The journal when nobody interferes

Commands that do not overlap find the journal of a publication as they last saw it, and
begin one only for a run that is cleared: past its verification, and approved at its
snapshot where the owner has to accept it. A run that is cleared stays so, and a complete
publication is never written again.
-/

namespace OrchKit

open Except Program Script Ledger

namespace Ledger

/-- The run is past its verification, and approved at its snapshot if its owner has to accept
it. -/
def Cleared (L : Ledger) (r : RunId) : Prop :=
  ∃ run task, L.runs.lookup r = some run ∧ run.state ∈ publishableStates ∧
    L.tasks.lookup run.taskId = some task ∧ (task.payload.ownerAcceptance → L.approved r run)

def Covered (L : Ledger) : Prop := ∀ r, (L.publications.lookup r).isSome → L.Cleared r

/-- A run past its verification is at the snapshot it was at, for the same task. -/
structure Stays (L : Ledger) (r : RunId) (run : Run) (run' : Run) : Prop where
  found : L.runs.lookup r = some run'
  taskId : run'.taskId = run.taskId
  attempt : run'.attempt = run.attempt
  snapshotId : run'.snapshotId = run.snapshotId
  state : run'.state ∈ publishableStates

theorem approved_iff {L : Ledger} {r : RunId} {run : Run} : L.approved r run ↔
    ∃ approval, L.approvals.lookup r = some approval ∧
      some approval.snapshotId = run.snapshotId := by
  simp only [approved, Option.any_eq_true, decide_eq_true_eq]

end Ledger

/-- What a call has read of a run and its task is what the ledger has of them. -/
def Bound (L : Ledger) : Op → Prop
  | .transaction (.verifyResult runId run payload _ _) =>
    ∃ row task, L.runs.lookup runId = some row ∧ row.taskId = run.taskId ∧
      row.attempt = run.attempt ∧ L.tasks.lookup run.taskId = some task ∧ task.payload = payload
  | .insertPublication runId .. => L.Cleared runId
  | _ => True

namespace Effect

variable {sha : Sha256} {L L' : Ledger} {o : Op} {r : RunId} {run : Run}

/-- An approval of the snapshot a run is at is not lost. -/
theorem approved_kept (h : Effect sha L o L') (hr : L.runs.lookup r = some run)
    (ha : L.approved r run) : L'.approved r run := by
  have same (happrovals : L'.approvals = L.approvals) : L'.approved r run := by
    rwa [Ledger.approved, happrovals]
  cases h with
  | quiet _ h | queued _ h => exact same h.approvals
  | started h => exact same h.approvals
  | moved _ _ _ _ h | accepted _ _ _ _ _ h | completed _ _ _ _ _ _ _ h | waiting _ _ h =>
    exact same h.approvals
  | result h =>
    obtain ⟨_, _, _, -, h, -⟩ := verifyResult_spec h
    exact same h.approvals
  | unclaimed h => exact same (capabilityCreateFailed_spec h).1.approvals
  | finalized h => exact same (finalizePublication_spec h).1.approvals
  | deleted | inserted | updated => exact ha
  | @approved _ _ runId row snapshotId note moved _ found _ happrovals =>
    rw [approved_iff, happrovals]
    by_cases hid : r = runId
    · subst hid
      rw [moved.found] at hr
      cases hr
      exact ⟨⟨snapshotId, note⟩, by rw [Table.lookup_put, if_pos rfl], found.symm⟩
    · obtain ⟨approval, happroval, hsnap⟩ := approved_iff.mp ha
      exact ⟨approval, by rw [Table.lookup_put, if_neg hid, happroval], hsnap⟩

/-- A run past its verification keeps its snapshot. -/
theorem stays (h : Effect sha L o L') (hok : InOrder L o) (hr : L.runs.lookup r = some run)
    (hs : run.state ∈ publishableStates) : ∃ run', L'.Stays r run run' := by
  have same (heq : L'.runs.lookup r = L.runs.lookup r) : ∃ run', L'.Stays r run run' :=
    ⟨run, heq.trans hr, rfl, rfl, rfl, hs⟩
  have moved {runId : RunId} {row row' : Run} {status : Option TaskStatus}
      (h : Moved L L' runId row row' status) (hsnap : row'.snapshotId = row.snapshotId)
      (hstate : row.state ∈ publishableStates → row'.state ∈ publishableStates) :
      ∃ run', L'.Stays r run run' := by
    by_cases hid : r = runId
    · subst hid
      rw [h.found] at hr
      cases hr
      exact ⟨row', h.moved, h.taskId, h.attempt, hsnap, hstate hs⟩
    · exact same (h.runs r hid)
  -- what a transaction rewrites blindly has not been verified
  have other {runId : RunId} {f : Run → Run} {taskId : TaskId} {told : TaskStatus}
      {state : RunState} (h : Rewrote L L' runId f taskId told)
      (hlookup : (L.runs.lookup runId).all fun run => run.state = state)
      (hstate : state ∉ publishableStates) : ∃ run', L'.Stays r run run' := by
    refine same (h.lookup_ne ?_)
    rintro rfl
    rw [hr, Option.all_some, decide_eq_true_eq] at hlookup
    exact hstate (hlookup ▸ hs)
  cases h with
  | quiet _ h | queued _ h => exact same (by rw [h.runs])
  | started h =>
    refine same (h.lookup_ne ?_)
    rintro rfl
    rw [h.fresh] at hr
    cases hr
  | moved h move hsnap => exact moved h hsnap move.verified
  | accepted h _ state' hsnap => exact moved h hsnap fun _ => by rw [state']; decide
  | completed h _ state' hsnap => exact moved h hsnap fun _ => by rw [state']; decide
  | waiting h | approved h => exact moved h rfl id
  | result h =>
    obtain ⟨_, _, _, -, h, -⟩ := verifyResult_spec h
    exact other h hok (by decide)
  | unclaimed h => exact other (capabilityCreateFailed_spec h).1 hok (by decide)
  | @finalized runId _ _ _ _ _ _ _ h =>
    obtain ⟨h, -⟩ := finalizePublication_spec h
    by_cases hid : r = runId
    · subst hid
      refine ⟨{ run with state := .complete }, ?_, rfl, rfl, rfl, by simp [publishableStates]⟩
      rw [h.runs, Table.lookup_modify, if_pos rfl, hr]
      rfl
    · exact same (h.lookup_ne hid)
  | deleted | inserted | updated => exact same rfl

theorem cleared (h : Effect sha L o L') (hok : InOrder L o) (hc : L.Cleared r) : L'.Cleared r := by
  obtain ⟨run, task, hr, hs, ht, ha⟩ := hc
  obtain ⟨run', hstays⟩ := h.stays hok hr hs
  obtain ⟨task', ht', hp⟩ := h.tasksKept _ task ht
  refine ⟨run', task', hstays.found, hstays.state, hstays.taskId ▸ ht', fun howner => ?_⟩
  have hkept := h.approved_kept hr (ha (hp ▸ howner))
  rwa [Ledger.approved, hstays.snapshotId]

theorem covered (h : Effect sha L o L') (hL : L.Covered) (hok : InOrder L o) (hpre : Bound L o) :
    L'.Covered := by
  intro r hr
  rcases hp : L.publications.lookup r with _ | row
  · obtain ⟨row, seen, rfl⟩ := h.publication_of_new hp hr
    exact h.cleared hok hpre
  · exact h.cleared hok (hL r (by rw [hp]; rfl))

end Effect

/-! ### What the commands find -/

/-- The theory of commands that are in order and grounded: they write what they know. -/
def journaling (sha : Sha256) : Theory (ledgerSemantics sha) where
  inv := Covered
  ok := InOrder
  pre L o := WritesFresh L o ∧ Bound L o
  rely _ _ := False
  inv_after host hL hok hpre := (Effect.after sha host _ _).covered hL hok hpre.2

variable {sha : Sha256} {L : Ledger}

theorem journaling_stable (I : Ledger → Prop) : (journaling sha).Stable I :=
  fun _ _ _ _ h => False.elim h

section Safe

variable {α β ε : Type} {Q : Except ε α → Ledger → Prop}

theorem journaling_call {o : Op} {k : o.Ans → Prog orchSig ε α}
    (h : L.Covered → InOrder L o → (WritesFresh L o ∧ Bound L o) ∧ ∀ host : Host,
      (journaling sha).Safe (k ((ledgerSemantics sha).answer host L o).1) Q
        ((ledgerSemantics sha).after host L o)) :
    (journaling sha).Safe (.call o k) Q L :=
  Theory.Safe.call (I := (· = L)) (journaling_stable _) rfl <| by
    rintro _ hL rfl hok
    exact h hL hok

theorem bound_of_quiet {o : Op} (h : o.Quiet) : WritesFresh L o ∧ Bound L o := by
  cases o <;> first | exact ⟨trivial, trivial⟩ | exact absurd h (by simp [Op.Quiet])

theorem journaling_quiet {p : Prog orchSig ε α} {R : Except ε α → Prop}
    (hp : p.Within Op.Quiet R) : (journaling sha).Safe p (fun x t => R x ∧ t = L) L := by
  refine Theory.Safe.of_within (I := (· = L)) (journaling_stable _) ?_ ?_ hp rfl
  · exact fun t o _ _ _ ho => bound_of_quiet ho
  · rintro t o host - rfl - ho
    exact after_of_quiet ho

theorem journaling_bind_quiet {p : Prog orchSig ε β} {f : β → Prog orchSig ε α}
    (hp : p.Issues Op.Quiet) (hf : ∀ b, (journaling sha).Safe (f b) Q L)
    (herr : ∀ e, Q (.error e) L) : (journaling sha).Safe (p >>= f) Q L := by
  refine Theory.Safe.bind ((journaling_quiet hp).mono ?_)
  rintro (e | b) t ⟨-, rfl⟩
  · exact herr e
  · exact hf b

def Op.Free (o : Op) : Prop := ∀ L, WritesFresh L o ∧ Bound L o

theorem journaling_of_free {p : Prog orchSig ε α} (hp : p.Issues Op.Free) :
    (journaling sha).Safe p (fun _ _ => True) L :=
  (Theory.Safe.of_within (I := fun _ => True) (journaling_stable _) (fun t _ _ _ _ ho => ho t)
    (fun _ _ _ _ _ _ _ => trivial) hp trivial).mono fun _ _ _ => trivial

theorem Op.Quiet.free {o : Op} (h : o.Quiet) : o.Free := fun _ => bound_of_quiet h

theorem Op.Routes.free {grantId : String} {o : Op} (h : o.Routes grantId) : o.Free := by
  cases o with
  | transaction t =>
    cases t <;> first
      | exact fun _ => ⟨trivial, trivial⟩
      | exact absurd h (by simp [Op.Routes, Op.Quiet])
  | _ => first | exact fun _ => ⟨trivial, trivial⟩ | exact absurd h (by simp [Op.Routes, Op.Quiet])

end Safe

/-! ### Publications -/

/-- The journal of the run is as the call last saw it, and the run is cleared. -/
structure Known (L : Ledger) (runId : RunId) (seen : Option Publication) : Prop where
  fresh : L.publications.lookup runId = seen
  cleared : L.Cleared runId

/-- What a part of `publish` returns, or knows of the journal where it is interrupted. -/
def Interruptible {α : Type} (runId : RunId) (R : α → Ledger → Prop) :
    Except Interrupted α → Ledger → Prop
  | .ok a, L => R a L
  | .error i, L => Known L runId i.seen

/-- What a part returns, or the journal it leaves as it was where it fails. -/
def Attempted {α : Type} (runId : RunId) (seen : Option Publication) (R : α → Ledger → Prop) :
    Except Exn α → Ledger → Prop
  | .ok a, L => R a L
  | .error _, L => Known L runId seen

section Publications

variable {α β : Type} {runId : RunId} {taskId : TaskId} {seen : Option Publication}
  {phase : PublicationStatus} {patch : PublicationPatch} {intent : Option PublicationIntent}

theorem Known.of_eq {L' : Ledger} {seen' : Option Publication} (h : Known L runId seen)
    (hruns : L'.runs = L.runs) (htasks : L'.tasks = L.tasks)
    (happrovals : L'.approvals = L.approvals)
    (hseen : L'.publications.lookup runId = seen') : Known L' runId seen' := by
  obtain ⟨run, task, hr, hs, ht, ha⟩ := h.cleared
  refine ⟨hseen, run, task, hruns ▸ hr, hs, htasks ▸ ht, fun howner => ?_⟩
  rw [approved, happrovals]
  exact ha howner

theorem publicationUpdate_journaling (h : Known L runId seen) :
    (journaling sha).Safe (publicationUpdate runId seen patch intent)
      (Attempted runId seen fun seen' t => Known t runId seen') L := by
  refine journaling_call fun _ _ => ⟨⟨trivial, trivial⟩, fun _ => ?_⟩
  have hrow : ((ledgerSemantics sha).answer ‹Host› L (.selectPublication runId)).1 = seen := h.fresh
  rw [hrow]
  cases seen with
  | some row =>
    refine journaling_call fun _ _ => ⟨⟨h.fresh, trivial⟩, fun _ => ?_⟩
    refine h.of_eq rfl rfl rfl ?_
    simp only [Semantics.after, ledgerSemantics, Table.lookup_modify, if_pos, h.fresh,
      Option.map_some]
  | none =>
    cases intent with
    | none => exact h
    | some intent =>
      refine journaling_call fun _ _ => ⟨⟨h.fresh, h.cleared⟩, fun _ => ?_⟩
      simp only [Semantics.after, ledgerSemantics, h.fresh, if_pos]
      exact h.of_eq rfl rfl rfl (by simp only [Table.lookup_put, if_pos])

theorem finalize_journaling {commitId : CommitId} {remoteCommit : Option CommitId}
    {kind : PublicationKind} (h : Known L runId seen) : (journaling sha).Safe
      (transact (.finalizePublication runId taskId commitId remoteCommit kind seen))
      (fun x _ => ∃ reply, x = .ok reply) L :=
  journaling_call fun _ _ => ⟨⟨h.fresh, trivial⟩, fun _ => ⟨_, rfl⟩⟩

theorem interruptible_bind {p : Prog orchSig Interrupted α} {f : α → Prog orchSig Interrupted β}
    {R : α → Ledger → Prop} {R' : β → Ledger → Prop}
    (h : (journaling sha).Safe p (Interruptible runId R) L)
    (hf : ∀ a t, R a t → (journaling sha).Safe (f a) (Interruptible runId R') t) :
    (journaling sha).Safe (p >>= f) (Interruptible runId R') L := by
  refine Theory.Safe.bind (h.mono ?_)
  rintro (i | a) t ht
  · exact ht
  · exact hf a t ht

theorem inPhase_journaling {p : Script α} {R : α → Ledger → Prop}
    (h : (journaling sha).Safe p (Attempted runId seen R) L) :
    (journaling sha).Safe (inPhase phase seen p) (Interruptible runId R) L := by
  refine Theory.Safe.catching (h.mono ?_)
  rintro (e | a) t ht
  · exact ht
  · exact ht

theorem inPhase_quiet_journaling {p : Script α} (hp : p.Issues Op.Quiet) (h : Known L runId seen) :
    (journaling sha).Safe (inPhase phase seen p) (Interruptible runId fun _ t => Known t runId seen)
      L := by
  refine inPhase_journaling ((journaling_quiet hp).mono ?_)
  rintro (e | a) t ⟨-, rfl⟩
  · exact h
  · exact h

theorem inPhase_update_journaling (h : Known L runId seen) :
    (journaling sha).Safe (inPhase phase seen (publicationUpdate runId seen patch intent))
      (Interruptible runId fun seen' t => Known t runId seen') L :=
  inPhase_journaling (publicationUpdate_journaling h)

theorem inPhase_finalize_journaling {commitId : CommitId} {remoteCommit : Option CommitId}
    {kind : PublicationKind} (h : Known L runId seen) : (journaling sha).Safe (inPhase phase seen
      (transact (.finalizePublication runId taskId commitId remoteCommit kind seen)))
      (Interruptible runId fun _ _ => True) L := by
  refine inPhase_journaling ((finalize_journaling h).mono ?_)
  rintro _ t ⟨reply, rfl⟩
  trivial

theorem publishRemote_journaling (c : Publishing) (commitId : CommitId) (h : Known L c.runId seen) :
    (journaling sha).Safe (publishRemote c commitId seen) (Interruptible c.runId fun _ _ => True)
      L := by
  have hq : ∀ o : Op, o.Quiet → o.Quiet := fun _ => id
  rw [publishRemote]
  split
  · exact inPhase_finalize_journaling h
  · refine interruptible_bind (inPhase_quiet_journaling ((demand_issues _ _).bind fun _ =>
      (transportPush_issues hq _ _ _ _).bind fun _ => demand_issues _ _) h) fun remoteUrl t h => ?_
    refine interruptible_bind (inPhase_update_journaling h)
      fun seen t h => ?_
    refine interruptible_bind (inPhase_quiet_journaling (Prog.Issues.bind
      (transportLsRemote_issues hq _ _ _) fun _ => Prog.Issues.bind (require_issues _ _) fun _ =>
        trivial) h) fun remoteCommit t h => ?_
    refine interruptible_bind (inPhase_update_journaling h)
      fun seen t h => ?_
    exact inPhase_finalize_journaling h

theorem publishStages_journaling (c : Publishing) (h : Known L c.runId seen) :
    (journaling sha).Safe (publishStages c seen) (Interruptible c.runId fun _ _ => True) L := by
  have hq : ∀ o : Op, o.Quiet → o.Quiet := fun _ => id
  rw [publishStages]
  refine interruptible_bind (inPhase_quiet_journaling (Prog.Issues.bind (ask_issues hq _) fun _ =>
    Prog.Issues.bind (demand_issues _ _) fun _ => Prog.Issues.bind (ask_issues hq _) fun _ =>
      require_issues _ _) h) fun _ t h => ?_
  refine interruptible_bind (inPhase_update_journaling h) fun seen t h => ?_
  refine interruptible_bind (inPhase_quiet_journaling (prepareSnapshotCommit_issues hq _ _ _ _) h)
    fun commitId t h => ?_
  refine interruptible_bind (inPhase_update_journaling h) fun seen t h => ?_
  refine interruptible_bind
    (inPhase_quiet_journaling ((publicationWorkspaceGuard_issues hq _ _ _).bind
    fun _ => casUpdateBranch_issues hq _ _ _ _) h) fun _ t h => ?_
  refine interruptible_bind (inPhase_update_journaling h) fun seen t h => ?_
  exact publishRemote_journaling c commitId h

theorem publishFromIntent_journaling (c : Publishing) (operationId : String)
    (h : Known L c.runId none) : (journaling sha).Safe (publishFromIntent c operationId)
      (fun _ _ => True) L := by
  refine Theory.Safe.bind ((publicationUpdate_journaling h).mono ?_)
  rintro (e | seen) t ht
  · trivial
  refine Theory.Safe.catching ((publishStages_journaling c ht).mono ?_)
  rintro (i | reply) t hi
  · refine Theory.Safe.bind ((publicationUpdate_journaling hi).mono ?_)
    rintro (e | seen) t -
    · trivial
    · trivial
  · trivial

/-- What a call makes of a journal that is there already: it ends, or none is left. -/
theorem publishExisting_journaling {f : Option Reply → Script α}
    (hf : ∀ t, t.runs = L.runs → t.tasks = L.tasks → t.approvals = L.approvals →
      t.publications.lookup runId = none → (journaling sha).Safe (f none) (fun _ _ => True) t)
    (hreply : ∀ reply, (journaling sha).Safe (f (some reply)) (fun _ _ => True) L) :
    (journaling sha).Safe (publishExisting runId >>= f) (fun _ _ => True) L := by
  refine journaling_call fun _ _ => ⟨⟨trivial, trivial⟩, fun host => ?_⟩
  rcases hp : L.publications.lookup runId with _ | existing
  · have hrow : ((ledgerSemantics sha).answer host L (.selectPublication runId)).1 = none := hp
    rw [hrow]
    exact hf L rfl rfl rfl hp
  · have hrow : ((ledgerSemantics sha).answer host L (.selectPublication runId)).1 =
      some existing := hp
    rw [hrow]
    change (journaling sha).Safe ((if existing.status = .complete then _ else _) >>= f) _ L
    split
    · refine journaling_call fun _ _ => ⟨⟨trivial, trivial⟩, fun host => ?_⟩
      have hrow : ((ledgerSemantics sha).answer host L (.selectPublication runId)).1 =
        some existing := hp
      rw [hrow]
      exact hreply _
    · by_cases hs : existing.status = .abandoned
      · rw [Script.require, if_pos hs]
        refine journaling_call fun _ _ => ⟨⟨hp, trivial⟩, fun _ => ?_⟩
        exact hf _ rfl rfl rfl (by simp only [Semantics.after, ledgerSemantics,
          Table.lookup_delete, if_pos])
      · rw [Script.require, if_neg hs]
        trivial

theorem requireApproval_journaling {run : Run} {payload : TaskPayload} {f : Unit → Script α}
    (hf : (payload.ownerAcceptance → L.approved runId run) →
      (journaling sha).Safe (f ()) (fun _ _ => True) L) :
    (journaling sha).Safe (requireApproval runId run payload >>= f) (fun _ _ => True) L := by
  rw [requireApproval]
  split
  next howner =>
    refine journaling_call fun _ _ => ⟨⟨trivial, trivial⟩, fun _ => ?_⟩
    change (journaling sha).Safe (Script.require (L.approved runId run) _ >>= f) _ L
    by_cases ha : L.approved runId run
    · rw [Script.require, if_pos ha]
      exact hf fun _ => ha
    · rw [Script.require, if_neg ha]
      trivial
  next howner => exact hf fun h => absurd h howner

theorem publish_journaling (runId : RunId) :
    (journaling sha).Safe (publish runId) (fun _ _ => True) L := by
  have hq : ∀ o : Op, o.Quiet → o.Quiet := fun _ => id
  refine journaling_call fun _ _ => ⟨⟨trivial, trivial⟩, fun _ => ?_⟩
  change (journaling sha).Safe (demand (L.runs.lookup runId) _ >>= _) _ L
  rcases hr : L.runs.lookup runId with _ | run
  · trivial
  change (journaling sha).Safe (Script.require (run.state = .verified) _ >>= _) _ L
  by_cases hs : run.state = .verified
  swap
  · rw [Script.require, if_neg hs]
    trivial
  rw [Script.require, if_pos hs]
  refine journaling_call fun _ _ => ⟨⟨trivial, trivial⟩, fun _ => ?_⟩
  change (journaling sha).Safe (demand (L.tasks.lookup run.taskId) _ >>= _) _ L
  rcases ht : L.tasks.lookup run.taskId with _ | task
  · trivial
  change (journaling sha).Safe (selectSnapshot run.snapshotId >>= _) _ L
  refine journaling_bind_quiet (selectSnapshot_issues hq _) (fun snap => ?_) fun _ => trivial
  refine journaling_bind_quiet (demand_issues _ _) (fun snap => ?_) fun _ => trivial
  refine journaling_bind_quiet (ask_issues hq _) (fun _ => ?_) fun _ => trivial
  refine publishExisting_journaling (fun t hruns htasks happrovals hnone => ?_) fun _ => trivial
  refine requireApproval_journaling fun ha => ?_
  have hknown : Known t runId none := by
    refine ⟨hnone, run, task, hruns ▸ hr, by rw [hs]; decide, htasks ▸ ht, ha⟩
  refine Theory.Safe.bind ((journaling_quiet (publishPreflight_within hq runId run task.payload
    snap.manifest)).mono ?_)
  rintro (e | c) t ⟨hc, rfl⟩
  · trivial
  refine journaling_bind_quiet (ask_issues hq _) (fun operationId => ?_) fun _ => trivial
  rw [← hc.1] at hknown
  exact publishFromIntent_journaling c operationId hknown

/-! ### Reconciliations -/

theorem update_journaling {f : Option Publication → Script α} (h : Known L runId seen)
    (hf : ∀ seen' t, Known t runId seen' → (journaling sha).Safe (f seen') (fun _ _ => True) t) :
    (journaling sha).Safe (publicationUpdate runId seen patch intent >>= f)
      (fun _ _ => True) L := by
  refine Theory.Safe.bind ((publicationUpdate_journaling h).mono ?_)
  rintro (e | seen') t ht
  · trivial
  · exact hf seen' t ht

theorem Reconciling.finalize_journaling (c : Reconciling) {commitId : CommitId}
    {remoteCommit : Option CommitId} {kind : PublicationKind} (h : Known L c.runId seen) :
    (journaling sha).Safe (c.finalize commitId remoteCommit kind seen) (fun _ _ => True) L :=
  (OrchKit.finalize_journaling h).mono fun _ _ _ => trivial

theorem reconcileRemote_journaling (c : Reconciling) (commitId : CommitId)
    (h : Known L c.runId seen) :
    (journaling sha).Safe (reconcileRemote c commitId seen) (fun _ _ => True) L := by
  have hq : ∀ o : Op, o.Quiet → o.Quiet := fun _ => id
  rw [reconcileRemote]
  split
  next => trivial
  next remoteUrl _ =>
    refine journaling_bind_quiet (transportLsRemote_issues hq _ _ _) (fun remoteCommit => ?_)
      fun _ => trivial
    split
    · exact update_journaling h fun _ _ h => c.finalize_journaling h
    · split
      · trivial
      · split
        · trivial
        · refine journaling_bind_quiet (transportPush_issues hq _ _ _ _) (fun pushed => ?_)
            fun _ => trivial
          cases pushed with
          | none => exact update_journaling h fun _ _ _ => trivial
          | some _ =>
            refine update_journaling h fun seen t h => ?_
            refine journaling_bind_quiet (transportLsRemote_issues hq _ _ _)
              (fun remoteCommit => ?_)
              fun _ => trivial
            split
            · trivial
            · exact update_journaling h fun _ _ h => c.finalize_journaling h

theorem reconcileCommitted_journaling (c : Reconciling) (commitId : CommitId)
    (status : PublicationStatus) (h : Known L c.runId seen) :
    (journaling sha).Safe (reconcileCommitted c commitId status seen) (fun _ _ => True) L := by
  have hq : ∀ o : Op, o.Quiet → o.Quiet := fun _ => id
  have proceed {seen : Option Publication} {t : Ledger} (h : Known t c.runId seen) :
      (journaling sha).Safe (ask (.commitMatchesSnapshot c.payload commitId c.expectedBase
        c.manifest) >>= fun proven : Bool =>
          if ¬ proven then return c.blocked "commit_not_proven"
          else if c.payload.publication.kind = .gitLocal then
            c.finalize commitId none .gitLocal seen
          else reconcileRemote c commitId seen : Script Reply) (fun _ _ => True) t := by
    refine journaling_bind_quiet (ask_issues hq _) (fun proven => ?_) fun _ => trivial
    split
    · trivial
    · split
      · exact c.finalize_journaling h
      · exact reconcileRemote_journaling c commitId h
  rw [reconcileCommitted]
  split
  · exact proceed h
  · exact update_journaling h fun _ _ h => proceed h

theorem reconcilePrepared_journaling (c : Reconciling) (staged : Bool) (commitId : CommitId)
    (h : Known L c.runId seen) :
    (journaling sha).Safe (reconcilePrepared c staged commitId seen) (fun _ _ => True) L := by
  have hq : ∀ o : Op, o.Quiet → o.Quiet := fun _ => id
  rw [reconcilePrepared]
  split
  · trivial
  · refine journaling_bind_quiet (attempt_issues (publicationWorkspaceGuard_issues hq _ _ _))
      (fun guarded => ?_) fun _ => trivial
    cases guarded with
    | error reason => trivial
    | ok _ =>
      simp only
      split
      · trivial
      · refine journaling_bind_quiet (attempt_issues (casUpdateBranch_issues hq _ _ _ _))
          (fun updated => ?_) fun _ => trivial
        cases updated with
        | error _ => trivial
        | ok _ =>
          exact update_journaling h fun _ _ h => reconcileCommitted_journaling c commitId _ h

theorem reconcileStaged_journaling (c : Reconciling) (staged : Bool) (status : PublicationStatus)
    (h : Known L c.runId seen) :
    (journaling sha).Safe (reconcileStaged c staged status seen) (fun _ _ => True) L := by
  have hq : ∀ o : Op, o.Quiet → o.Quiet := fun _ => id
  rw [reconcileStaged]
  split
  · refine journaling_bind_quiet (ask_issues hq _) (fun stagedRaw => ?_) fun _ => trivial
    split
    · exact update_journaling h fun _ _ _ => trivial
    · trivial
  · refine journaling_bind_quiet (attempt_issues (publicationWorkspaceGuard_issues hq _ _ _))
      (fun guarded => ?_) fun _ => trivial
    cases guarded with
    | error reason => trivial
    | ok _ =>
      simp only
      split
      · trivial
      · refine journaling_bind_quiet (Prog.Issues.catching (Prog.Issues.bind
          (prepareSnapshotCommit_issues hq _ _ _ _) fun _ => trivial) fun _ => trivial)
          (fun prepared => ?_) fun _ => trivial
        cases prepared with
        | error e => exact update_journaling h fun _ _ _ => trivial
        | ok commitId =>
          exact update_journaling h fun _ _ h => reconcilePrepared_journaling c staged commitId h

theorem reconcileJournal_journaling (c : Reconciling) (journal : Publication)
    (h : Known L c.runId (some journal)) :
    (journaling sha).Safe (reconcileJournal c journal) (fun _ _ => True) L := by
  have hq : ∀ o : Op, o.Quiet → o.Quiet := fun _ => id
  rw [reconcileJournal]
  refine journaling_bind_quiet (ask_issues hq _) (fun head => ?_) fun _ => trivial
  refine journaling_bind_quiet (ask_issues hq _) (fun staged => ?_) fun _ => trivial
  split
  next commitId _ =>
    refine journaling_bind_quiet (ask_issues hq _) (fun proven => ?_) fun _ => trivial
    split
    · trivial
    · split
      · exact reconcilePrepared_journaling c staged commitId h
      · split
        · exact reconcileCommitted_journaling c commitId _ h
        · trivial
  next =>
    cases head with
    | none => trivial
    | some observed =>
      simp only
      split
      · exact reconcileStaged_journaling c staged _ h
      · refine journaling_bind_quiet (ask_issues hq _) (fun proven => ?_) fun _ => trivial
        split
        · trivial
        · exact update_journaling h fun _ _ h => reconcileCommitted_journaling c observed _ h

theorem reconcilePublication_journaling (runId : RunId) (resume : Bool) :
    (journaling sha).Safe (reconcilePublication runId resume) (fun _ _ => True) L := by
  have hq : ∀ o : Op, o.Quiet → o.Quiet := fun _ => id
  refine journaling_call fun hL _ => ⟨⟨trivial, trivial⟩, fun host => ?_⟩
  rcases hp : L.publications.lookup runId with _ | journal
  · have hrow : ((ledgerSemantics sha).answer host L (.selectPublication runId)).1 = none := hp
    rw [hrow]
    change (journaling sha).Safe (selectRun runId >>= _) _ L
    exact journaling_bind_quiet (selectRun_issues hq _) (fun _ => trivial) fun _ => trivial
  · have hrow : ((ledgerSemantics sha).answer host L (.selectPublication runId)).1 =
      some journal := hp
    rw [hrow]
    have h : Known L runId (some journal) := ⟨hp, hL runId (by rw [hp]; rfl)⟩
    change (journaling sha).Safe (selectRun runId >>= _) _ L
    refine journaling_bind_quiet (selectRun_issues hq _) (fun run => ?_) fun _ => trivial
    refine journaling_bind_quiet (demand_issues _ _) (fun run => ?_) fun _ => trivial
    refine journaling_bind_quiet (selectTask_issues hq _) (fun task => ?_) fun _ => trivial
    refine journaling_bind_quiet (demand_issues _ _) (fun task => ?_) fun _ => trivial
    refine journaling_bind_quiet (selectSnapshot_issues hq _) (fun snap => ?_) fun _ => trivial
    refine journaling_bind_quiet (demand_issues _ _) (fun snap => ?_) fun _ => trivial
    split
    · trivial
    · split
      · trivial
      · exact reconcileJournal_journaling _ journal h

/-! ### Verifications -/

theorem verifyRun_journaling {runId : RunId} {run : Run} (hr : L.runs.lookup runId = some run) :
    (journaling sha).Safe (verifyRun runId run) (fun _ _ => True) L := by
  have hq : ∀ o : Op, o.Quiet → o.Quiet := fun _ => id
  have blocked (reason : String) :
      (journaling sha).Safe (OrchKit.blockVerification runId reason) (fun _ _ => True) L :=
    journaling_of_free (Prog.Issues.bind (transact_issues fun _ => ⟨trivial, trivial⟩) fun _ =>
      Prog.Issues.bind (ask_issues (fun _ => Op.Quiet.free) _) fun _ => trivial)
  refine journaling_call fun _ _ => ⟨⟨trivial, trivial⟩, fun _ => ?_⟩
  change (journaling sha).Safe (demand (L.tasks.lookup run.taskId) _ >>= _) _ L
  rcases ht : L.tasks.lookup run.taskId with _ | task
  · trivial
  change (journaling sha).Safe (demand run.receipt _ >>= _) _ L
  refine journaling_bind_quiet (demand_issues _ _) (fun receipt => ?_) fun _ => trivial
  refine journaling_bind_quiet (ask_issues hq _) (fun scope => ?_) fun _ => trivial
  split
  next => exact blocked _
  next =>
    refine journaling_bind_quiet (ask_issues hq _) (fun authority => ?_) fun _ => trivial
    cases authority with
    | some reason => exact blocked _
    | none =>
      refine journaling_bind_quiet (attempt_issues (ask_issues hq _)) (fun taken => ?_)
        fun _ => trivial
      cases taken with
      | error reason =>
        simp only
        split
        · exact blocked _
        · trivial
      | ok manifest =>
        refine journaling_bind_quiet (runChecks_issues hq _ _ _) (fun checks => ?_) fun _ => trivial
        refine journaling_bind_quiet (ask_issues hq _) (fun postAuthority => ?_) fun _ => trivial
        cases postAuthority with
        | some reason => exact blocked _
        | none =>
          refine journaling_bind_quiet (attempt_issues ((ask_issues hq _).bind fun _ =>
            ask_issues hq _)) (fun evidence => ?_) fun _ => trivial
          cases evidence with
          | error reason => exact blocked _
          | ok evidence =>
            refine journaling_call fun _ _ =>
              ⟨⟨trivial, run, task, hr, rfl, rfl, ht, rfl⟩, fun _ => ?_⟩
            exact (journaling_quiet (ofChecked_issues _)).mono fun _ _ _ => trivial

theorem verify_journaling (runId : RunId) :
    (journaling sha).Safe (verify runId) (fun _ _ => True) L := by
  refine journaling_call fun _ _ => ⟨⟨trivial, trivial⟩, fun _ => ?_⟩
  change (journaling sha).Safe (demand (L.runs.lookup runId) _ >>= _) _ L
  rcases hr : L.runs.lookup runId with _ | run
  · trivial
  change (journaling sha).Safe (Script.require (run.state = .verifying) _ >>= _) _ L
  exact journaling_bind_quiet (require_issues _ _) (fun _ => verifyRun_journaling hr)
    fun _ => trivial

end Publications

/-- Nobody interfering, a command that is in order writes what it knows. -/
theorem script_journaling (c : Command) :
    (journaling sha).Safe c.script (fun _ _ => True) L := by
  have hq : ∀ o : Op, o.Quiet → o.Free := fun _ => Op.Quiet.free
  have free {t : Txn} (h : (Op.transaction t).Free) : (transact t).Issues Op.Free :=
    transact_issues h
  cases c with
  | verify => exact verify_journaling _
  | publish => exact publish_journaling _
  | reconcilePublication => exact reconcilePublication_journaling _ _
  | loadPlan =>
    exact journaling_of_free (Prog.Issues.bind (ask_issues hq _) fun _ =>
      Prog.Issues.bind (ofChecked_issues _) fun _ => free fun _ => ⟨trivial, trivial⟩)
  | submit | importReview =>
    exact journaling_of_free (Prog.Issues.bind (ask_issues hq _) fun _ =>
      free fun _ => ⟨trivial, trivial⟩)
  | readmit =>
    refine journaling_of_free (Prog.Issues.bind (ask_issues hq _) fun plan => ?_)
    split
    · exact free fun _ => ⟨trivial, trivial⟩
    · trivial
  | pause | resume =>
    exact journaling_of_free ⟨fun _ => ⟨trivial, trivial⟩, fun _ =>
      ⟨fun _ => ⟨trivial, trivial⟩, fun _ => trivial⟩⟩
  | claim =>
    refine journaling_of_free (Prog.Issues.bind (free fun _ => ⟨trivial, trivial⟩) fun reply => ?_)
    split
    · refine Prog.Issues.bind (Prog.Issues.catching (Prog.Issues.bind (ask_issues hq _)
        fun _ => trivial) fun _ => trivial) fun failed => ?_
      cases failed with
      | none => trivial
      | some e => exact free fun _ => ⟨trivial, trivial⟩
    · trivial
  | lifecycleRoute grantId calls =>
    exact journaling_of_free
      ((lifecycleRoute_issues grantId calls).mono (fun _ => Op.Routes.free) fun _ _ => trivial)
  | quiesce | abort =>
    exact journaling_of_free (Prog.Issues.bind (free fun _ => ⟨trivial, trivial⟩) fun _ =>
      Prog.Issues.bind (ask_issues hq _) fun _ => trivial)
  | _ => exact journaling_of_free (free fun _ => ⟨trivial, trivial⟩)

/-! ### Sequences -/

/-- What an operation finds in a ledger that only its own command works on. -/
structure Informed (L : Ledger) (o : Op) : Prop where
  inOrder : InOrder L o
  grounded : Grounded L o
  fresh : WritesFresh L o
  bound : Bound L o
  wellSeen : o.WellSeen

/-- The theory of commands that write what they know, and only over rows that are not complete. -/
def journalingSeen (sha : Sha256) : Theory (ledgerSemantics sha) :=
  { journaling sha with
    pre := fun L o => (WritesFresh L o ∧ Bound L o) ∧ o.WellSeen
    inv_after := fun host hL hok hpre => (journaling sha).inv_after host hL hok hpre.1 }

/-- The theory of commands that do not overlap, for an invariant that informed operations keep. -/
def informed (sha : Sha256) (inv : Ledger → Prop)
    (step : ∀ L L' o, Orderly L → Covered L → inv L → Effect sha L o L' → Informed L o → inv L') :
    Theory (ledgerSemantics sha) where
  inv L := Orderly L ∧ Covered L ∧ inv L
  ok _ _ := True
  pre := Informed
  rely _ _ := False
  inv_after host hL _ hpre :=
    have effect := Effect.after sha host _ _
    ⟨effect.orderly hL.1 hpre.inOrder hpre.grounded, effect.covered hL.2.1 hpre.inOrder hpre.bound,
      step _ _ _ hL.1 hL.2.1 hL.2.2 effect hpre⟩

theorem covered_empty : Ledger.empty.Covered := fun _ h => by cases h

section Informed

variable {inv : Ledger → Prop}
  {step : ∀ L L' o, Orderly L → Covered L → inv L → Effect sha L o L' → Informed L o → inv L'}

theorem informed_alone : (informed sha inv step).Alone := ⟨fun _ _ => trivial, fun _ _ h => h⟩

/-- Nobody interfering, what a command issues is informed. -/
theorem script_informed (c : Command) (hL : (informed sha inv step).inv L) :
    (informed sha inv step).Safe c.script (fun _ _ => True) L := by
  have ordered : (sequential sha (fun _ => True) fun _ _ _ _ _ _ _ _ => trivial).Alone :=
    ⟨fun _ _ => trivial, fun _ _ h => h⟩
  have orderly : (sequential sha (fun _ => True) fun _ _ _ _ _ _ _ _ => trivial).Safe c.script
      (fun _ _ => True) L :=
    ordered.safe_of_both (fun _ ht => ⟨trivial, ht.1⟩) (fun _ _ => ⟨trivial, id⟩)
      (fun _ _ h₁ h₂ => ⟨h₁, h₂⟩) (script_inOrder c) (script_safe c) ⟨hL.1, trivial⟩
  have known : (journaling sha).Safe c.script (fun _ _ => True) L := script_journaling c
  have seen : (journalingSeen sha).Safe c.script (fun _ _ => True) L := by
    have inv : ∀ L, (journalingSeen sha).inv L → (journaling sha).inv L := fun _ h => h
    refine known.strengthen inv (fun _ _ h => h) (fun _ _ h => h) ?_ (script_issues c)
    exact fun _ _ hpre hseen => ⟨hpre, hseen⟩
  refine informed_alone.safe_of_both ?_ ?_ ?_ orderly seen hL
  · exact fun _ ht => ⟨⟨ht.1, trivial⟩, ht.2.1⟩
  · exact fun _ _ => ⟨trivial, fun hpre => hpre.1⟩
  · exact fun _ _ hpre hseen => ⟨hpre.1, hpre.2, hseen.1.1, hseen.1.2, hseen.2⟩

end Informed

theorem session_informed {inv : Ledger → Prop}
    (step : ∀ L L' o, Orderly L → Covered L → inv L → Effect sha L o L' → Informed L o → inv L')
    (cs : List (Command × List Host)) (hL : Orderly L) (hc : Covered L) (h : inv L) :
    Orderly (session (ledgerSemantics sha) Command.script cs L) ∧
      Covered (session (ledgerSemantics sha) Command.script cs L) ∧
        inv (session (ledgerSemantics sha) Command.script cs L) :=
  informed_alone.session (T := informed sha inv step) (fun c _ ht => script_informed c ht) cs
    ⟨hL, hc, h⟩

/-- After every sequence of commands, wherever each is cut off, the publications that were complete
at any earlier point of it are as they were, and no run has a journal that is not past its
verification or lacks an approval its owner has to give. -/
theorem publications_session (sha : Sha256) (cs ds : List (Command × List Host)) :
    CompleteKept (session (ledgerSemantics sha) Command.script cs Ledger.empty)
        (session (ledgerSemantics sha) Command.script (cs ++ ds) Ledger.empty) ∧
      (session (ledgerSemantics sha) Command.script cs Ledger.empty).Covered := by
  have reached : Orderly (session (ledgerSemantics sha) Command.script cs Ledger.empty) ∧
      Covered (session (ledgerSemantics sha) Command.script cs Ledger.empty) ∧ True :=
    session_informed (fun _ _ _ _ _ _ _ _ => trivial) cs orderly_empty covered_empty trivial
  obtain ⟨hL, hc, -⟩ := reached
  refine ⟨?_, hc⟩
  rw [session_append]
  exact (session_informed (fun _ _ _ _ _ hk h ho => hk.trans (h.completeKept ho.fresh ho.wellSeen))
    ds hL hc (CompleteKept.refl _)).2.2

end OrchKit
