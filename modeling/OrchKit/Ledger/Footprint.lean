import OrchKit.Ledger.Publication

/-! # What a command may issue

The operations that the longer commands issue after they have read their run, and
what they know of the publication row when they write it: a row they wrote or read
themselves, and never one that was complete.
-/

namespace OrchKit

open Program

namespace Op

/-- The operation only reads. -/
def Quiet : Op → Prop
  | selectRun _ | selectTask _ | selectSnapshot _ | selectApproval _ | selectPublication _
  | selectGrant _ | selectOperation .. | matchTask _ | operationDigest _ | outside _ => True
  | _ => False

/-- The operations of a route of a grant. -/
def Routes (grantId : String) : Op → Prop
  | prepareCheckpoint g .. => g = grantId
  | transaction (.reserveGrant g _) | transaction (.consumeGrant g _)
  | transaction (.readyGrant g ..) | transaction (.recordCheckpoint g ..) => g = grantId
  | o => o.Quiet

/-- The operations of `verify` on a run it has read. -/
def Verifies (runId : RunId) (run : Run) : Op → Prop
  | transaction (.blockVerification r _) => r = runId
  | transaction (.verifyResult r row ..) => r = runId ∧ row = run
  | o => o.Quiet

end Op

/-- A publication row that may be missing is not complete. -/
def Unfinished (row : Option Publication) : Prop := ∀ p ∈ row, p.status ≠ .complete

def Underway (row : Option Publication) : Prop := ∃ p, row = some p ∧ p.status ≠ .complete

theorem Underway.unfinished {row : Option Publication} (h : Underway row) : Unfinished row := by
  obtain ⟨p, rfl, hp⟩ := h
  rintro _ ⟨⟩
  exact hp

/-- The operations of `publish` and `reconcile_publication` on a run they have read. -/
def Op.Publishes (runId : RunId) (taskId : TaskId) : Op → Prop
  | deletePublication r seen => r = runId ∧ Underway seen
  | insertPublication r row seen => r = runId ∧ row.status ≠ .complete ∧ Unfinished seen
  | updatePublication r patch seen => r = runId ∧ patch.status ≠ .complete ∧ Unfinished seen
  | transaction (.finalizePublication r t _ _ _ seen) => r = runId ∧ t = taskId ∧ Underway seen
  | o => o.Quiet

theorem Op.Quiet.publishes {runId : RunId} {taskId : TaskId} {o : Op} (h : o.Quiet) :
    o.Publishes runId taskId := by
  cases o <;> trivial

theorem Op.Quiet.verifies {runId : RunId} {run : Run} {o : Op} (h : o.Quiet) :
    o.Verifies runId run := by
  cases o <;> trivial

/-- What a write of a publication row knows of it; no other operation is concerned. -/
def Op.WellSeen : Op → Prop
  | deletePublication _ seen => Underway seen
  | insertPublication _ row seen => row.status ≠ .complete ∧ Unfinished seen
  | updatePublication _ patch seen => patch.status ≠ .complete ∧ Unfinished seen
  | transaction (.finalizePublication _ _ _ _ _ seen) => Underway seen
  | _ => True

theorem Op.Quiet.wellSeen {o : Op} (h : o.Quiet) : o.WellSeen := by
  cases o <;> trivial

theorem Op.Quiet.routes {grantId : String} {o : Op} (h : o.Quiet) : o.Routes grantId := by
  cases o <;> trivial

theorem Op.Routes.wellSeen {grantId : String} {o : Op} (h : o.Routes grantId) : o.WellSeen := by
  cases o with
  | transaction t => cases t <;> trivial
  | _ => trivial

theorem Op.Publishes.wellSeen {runId : RunId} {taskId : TaskId} {o : Op}
    (h : o.Publishes runId taskId) : o.WellSeen := by
  cases o with
  | transaction t =>
    cases t with
    | finalizePublication => exact h.2.2
    | _ => trivial
  | deletePublication | insertPublication | updatePublication => exact h.2
  | _ => trivial

theorem Op.Verifies.wellSeen {runId : RunId} {run : Run} {o : Op} (h : o.Verifies runId run) :
    o.WellSeen := by
  cases o with
  | transaction t =>
    cases t with
    | finalizePublication => cases h
    | _ => trivial
  | deletePublication | insertPublication | updatePublication => cases h
  | _ => trivial

/-- The operations of the commands that are a statement or a transaction of their own. -/
def Op.Single : Op → Prop
  | transaction (.loadPlan _ _ tasks) => validatePlan tasks = .ok ()
  | transaction (.finalizePublication ..) => False
  | transaction _ => True
  | setPaused _ => True
  | insertEvent kind => (∃ reason, kind = .paused reason) ∨ kind = .resumed
  | _ => False

def Op.Commanded (o : Op) : Prop :=
  o.Quiet ∨ (∃ grantId, o.Routes grantId) ∨ (∃ runId run, o.Verifies runId run) ∨
    (∃ runId taskId, o.Publishes runId taskId) ∨ o.Single

/-- What an operation that admits tasks rests on, and that no other pretends to. -/
def Op.Admits : Op → Prop
  | transaction (.loadPlan _ _ tasks) => validatePlan tasks = .ok ()
  | insertEvent kind => ∀ proof, kind ≠ .taskReadmitted proof
  | _ => True

theorem Op.Single.wellSeen {o : Op} (h : o.Single) : o.WellSeen := by
  cases o with
  | transaction t =>
    cases t with
    | finalizePublication => cases h
    | _ => trivial
  | deletePublication | insertPublication | updatePublication => cases h
  | _ => trivial

theorem Op.Commanded.wellSeen {o : Op} (h : o.Commanded) : o.WellSeen := by
  rcases h with h | ⟨_, h⟩ | ⟨_, _, h⟩ | ⟨_, _, h⟩ | h
  · exact h.wellSeen
  · exact h.wellSeen
  · exact h.wellSeen
  · exact h.wellSeen
  · exact h.wellSeen

theorem Op.Commanded.admits {o : Op} (h : o.Commanded) : o.Admits := by
  cases o with
  | transaction t =>
    cases t with
    | loadPlan =>
      rcases h with h | ⟨_, h⟩ | ⟨_, _, h⟩ | ⟨_, _, h⟩ | h
      · cases h
      · cases h
      · cases h
      · cases h
      · exact h
    | _ => trivial
  | insertEvent kind =>
    rcases h with h | ⟨_, h⟩ | ⟨_, _, h⟩ | ⟨_, _, h⟩ | ⟨_, rfl⟩ | rfl
    · cases h
    · cases h
    · cases h
    · cases h
    · exact fun _ h => by cases h
    · exact fun _ h => by cases h
  | _ => trivial

namespace Script

variable {α β : Type} {φ : Op → Prop}

theorem ofChecked_issues (x : Checked α) : (ofChecked x).Issues φ := by
  cases x <;> trivial

theorem demand_issues (x : Option α) (e : Exn) : (demand x e).Issues φ := by
  cases x <;> trivial

theorem require_issues (p : Prop) [Decidable p] (e : Exn) : (Script.require p e).Issues φ := by
  rw [Script.require]
  split <;> trivial

theorem attempt_issues {p : Script α} (h : p.Issues φ) : (attempt p).Issues φ :=
  Prog.Issues.catching (Prog.Issues.bind h fun _ => trivial) fun e => by cases e <;> trivial

theorem transact_issues {t : Txn} (h : φ (.transaction t)) : (transact t).Issues φ :=
  ⟨h, fun _ => ofChecked_issues _⟩

section Quiet

variable (hq : ∀ o : Op, o.Quiet → φ o)

include hq

theorem ask_issues (o : Outside) : (ask o).Issues φ := ⟨hq _ trivial, fun _ => ofChecked_issues _⟩

theorem selectRun_issues (runId : RunId) : (selectRun runId).Issues φ :=
  ⟨hq _ trivial, fun _ => trivial⟩

theorem selectPublication_issues (runId : RunId) : (selectPublication runId).Issues φ :=
  ⟨hq _ trivial, fun _ => trivial⟩

theorem selectTask_issues (taskId : TaskId) : (selectTask taskId).Issues φ :=
  ⟨hq _ trivial, fun _ => trivial⟩

theorem selectSnapshot_issues (snapshotId : Option SnapshotId) :
    (selectSnapshot snapshotId).Issues φ := by
  cases snapshotId with
  | none => trivial
  | some snapshotId => exact ⟨hq _ trivial, fun _ => trivial⟩

theorem selectApproval_issues (runId : RunId) : (selectApproval runId).Issues φ :=
  ⟨hq _ trivial, fun _ => trivial⟩

theorem selectGrant_issues (grantId : String) : (selectGrant grantId).Issues φ :=
  ⟨hq _ trivial, fun _ => ofChecked_issues _⟩

theorem selectOperation_issues (grantId operationId : String) :
    (selectOperation grantId operationId).Issues φ :=
  ⟨hq _ trivial, fun _ => ofChecked_issues _⟩

theorem liveGrant_issues (grantId : String) : (Script.liveGrant grantId).Issues φ :=
  (selectGrant_issues hq _).bind fun _ => (demand_issues _ _).bind fun _ =>
    (require_issues _ _).bind fun _ => trivial

theorem runChecks_issues (payload : TaskPayload) (runId : RunId) (checks : List Check) :
    (runChecks payload runId checks).Issues φ := by
  induction checks with
  | nil => trivial
  | cons check checks ih => exact (ask_issues hq _).bind fun _ => ih.bind fun _ => trivial

theorem publicationWorkspaceGuard_issues (payload : TaskPayload) (manifest : Manifest)
    (expectedBase : CommitId) :
    (publicationWorkspaceGuard payload manifest expectedBase).Issues φ := by
  refine (attempt_issues (ask_issues hq _)).bind fun x => ?_
  cases x with
  | error message => trivial
  | ok _ =>
    refine (ask_issues hq _).bind fun evidence => ?_
    rcases publicationScopeRefusal evidence expectedBase with _ | reason <;> trivial

theorem prepareSnapshotCommit_issues (payload : TaskPayload) (expectedBase : CommitId)
    (manifest : Manifest) (message : String) :
    (prepareSnapshotCommit payload expectedBase manifest message).Issues φ :=
  (ask_issues hq _).bind fun _ => (demand_issues _ _).bind fun _ => (ask_issues hq _).bind
    fun _ => (demand_issues _ _).bind fun _ => (ask_issues hq _).bind fun _ =>
      (require_issues _ _).bind fun _ => trivial

theorem casUpdateBranch_issues (payload : TaskPayload) (branch : String)
    (commitId expectedBase : CommitId) :
    (casUpdateBranch payload branch commitId expectedBase).Issues φ := by
  refine (ask_issues hq _).bind fun _ => (require_issues _ _).bind fun _ =>
    (ask_issues hq _).bind fun updated => ?_
  split
  · exact (ask_issues hq _).bind fun _ => trivial
  · trivial

theorem transportUrl_issues (payload : TaskPayload) (remoteUrl : String) :
    (transportUrl payload remoteUrl).Issues φ :=
  (ask_issues hq _).bind fun policy => by cases policy <;> trivial

theorem transportPush_issues (payload : TaskPayload) (remoteUrl : String) (commit : CommitId)
    (ref : String) : (transportPush payload remoteUrl commit ref).Issues φ :=
  (transportUrl_issues hq _ _).bind fun _ => ask_issues hq _

theorem transportLsRemote_issues (payload : TaskPayload) (remoteUrl : String) (ref : String) :
    (transportLsRemote payload remoteUrl ref).Issues φ :=
  (transportUrl_issues hq _ _).bind fun _ => ask_issues hq _

end Quiet

/-! ### Routes -/

section Route

theorem orUnknown_issues {a : α} {p : Script (Reply × α)} (h : p.Issues φ) :
    (orUnknown a p).Issues φ := Prog.Issues.catching h fun _ => trivial

theorem routeStatus_issues (hq : ∀ o : Op, o.Quiet → φ o) (grantId : String) (route : Route) :
    (Route.status grantId route).Issues φ := by
  have checkRun (spec : LifecycleGrantSpec) (claim : LifecycleOperation) :
      (Route.checkRun spec claim).Issues φ := by
    unfold Route.checkRun
    split
    · exact (demand_issues _ _).bind fun _ => (selectRun_issues hq _).bind fun _ =>
        (demand_issues _ _).bind fun _ => require_issues _ _
    · trivial
  have checkRecords : (Route.checkRecords grantId route).Issues φ := by
    refine (liveGrant_issues hq _).bind fun grant => ?_
    split
    · refine (demand_issues _ _).bind fun _ => (selectOperation_issues hq _ _).bind fun _ =>
        (demand_issues _ _).bind fun claim => (require_issues _ _).bind fun _ =>
          (checkRun _ _).bind fun _ => ?_
      split
      · exact require_issues _ _
      · exact (require_issues _ _).bind fun _ =>
          Prog.Issues.bind ⟨hq _ trivial, fun _ => trivial⟩ fun _ => require_issues _ _
    · exact require_issues _ _
  refine (require_issues _ _).bind fun _ => checkRecords.bind fun _ => ?_
  split
  · trivial
  · exact ask_issues hq _

theorem admit_issues (hq : ∀ o : Op, o.Quiet → φ o) (grantId : String) :
    (Route.admitRoute grantId).Issues φ := by
  refine (liveGrant_issues hq _).bind fun grant => ?_
  split
  · trivial
  · refine (demand_issues _ _).bind fun _ => (selectOperation_issues hq _ _).bind fun _ =>
      (demand_issues _ _).bind fun record => (require_issues _ _).bind fun _ =>
        (require_issues _ _).bind fun _ => ?_
    split
    · refine (require_issues _ _).bind fun _ => (ask_issues hq _).bind fun _ =>
        Prog.Issues.bind (Prog.Issues.catching (routeStatus_issues hq _ _) fun e => ?_)
          fun _ => trivial
      exact (ask_issues hq _).bind fun _ => trivial
    · exact (routeStatus_issues hq _ _).bind fun _ => trivial

theorem routeClaim_issues (grantId operationId : String) (route : Route) :
    (Route.claim grantId operationId route).Issues (Op.Routes grantId) := by
  have hq : ∀ o : Op, o.Quiet → o.Routes grantId := fun _ => Op.Quiet.routes
  have publishRun (binding : RouteBinding) (lease : String) :
      (Route.publishRun grantId operationId binding lease).Issues (Op.Routes grantId) :=
    Prog.Issues.bind (ask_issues hq _) fun _ => Prog.Issues.bind (require_issues _ _) fun _ =>
      Prog.Issues.bind (ask_issues hq _) fun _ => Prog.Issues.catching
        (Prog.Issues.bind (ask_issues hq _) fun _ => transact_issues rfl) fun _ =>
          Prog.Issues.bind (ask_issues hq _) fun _ => trivial
  have claimGrant : (Route.claimGrant grantId operationId route).Issues (Op.Routes grantId) := by
    refine Prog.Issues.bind (transact_issues rfl) fun reserved => ?_
    split
    · trivial
    · refine Prog.Issues.bind (transact_issues rfl) fun consumed => ?_
      split
      · exact orUnknown_issues (Prog.Issues.bind (publishRun _ _) fun _ => orUnknown_issues
          (Prog.Issues.bind (routeStatus_issues hq _ _) fun _ => trivial))
      · trivial
  refine Prog.Issues.bind (require_issues _ _) fun _ => orUnknown_issues
    (Prog.Issues.bind (routeStatus_issues hq _ _) fun _ => Prog.Issues.bind claimGrant
      fun answer => ?_)
  obtain ⟨reply, bound⟩ := answer
  simp only
  split
  · exact orUnknown_issues (Prog.Issues.bind (routeStatus_issues hq _ _) fun _ => trivial)
  · trivial

theorem routeCheckpoint_issues (grantId operationId reason processState : String) (route : Route) :
    (Route.checkpoint grantId operationId reason processState route).Issues
      (Op.Routes grantId) := by
  have hq : ∀ o : Op, o.Quiet → o.Routes grantId := fun _ => Op.Quiet.routes
  refine Prog.Issues.bind (require_issues _ _) fun _ => ?_
  split
  · trivial
  · refine orUnknown_issues (Prog.Issues.bind (routeStatus_issues hq _ _) fun _ => ?_)
    split
    · trivial
    · refine Prog.Issues.bind ⟨rfl, fun _ => ofChecked_issues _⟩ fun start => ?_
      cases start with
      | answered reply => trivial
      | replayed reply => exact Prog.Issues.bind (routeStatus_issues hq _ _) fun _ => trivial
      | prepared grant claim =>
        exact Prog.Issues.bind (transact_issues rfl) fun _ =>
          Prog.Issues.bind (routeStatus_issues hq _ _) fun _ => trivial

theorem ofReadyClaim_issues (hq : ∀ o : Op, o.Quiet → φ o) (grantId : String) (grant : Grant)
    (record : LifecycleOperation) : (Route.ofReadyClaim grantId grant record).Issues φ := by
  refine (demand_issues _ _).bind fun _ => (selectOperation_issues hq _ _).bind fun claim => ?_
  cases claim <;> trivial

theorem recorded_issues (hq : ∀ o : Op, o.Quiet → φ o) (grantId operationId : String) :
    (Route.recorded grantId operationId).Issues φ := by
  refine (liveGrant_issues hq _).bind fun grant =>
    (selectOperation_issues hq _ _).bind fun record => ?_
  cases record with
  | none => trivial
  | some record =>
    simp only
    split
    · trivial
    · split
      · trivial
      · split
        · trivial
        · refine Prog.Issues.bind ⟨hq _ trivial, fun _ => trivial⟩ fun anchor => ?_
          split
          · trivial
          · exact Prog.Issues.bind (ofReadyClaim_issues hq _ _ _) fun _ => trivial

theorem disposition_issues (hq : ∀ o : Op, o.Quiet → φ o) (grantId operationId : String)
    (route : Route) : (Route.disposition grantId operationId route).Issues φ := by
  refine (require_issues _ _).bind fun _ => orUnknown_issues
    ((routeStatus_issues hq _ _).bind fun _ => (recorded_issues hq _ _).bind fun found => ?_)
  cases found with
  | none => trivial
  | some reply => exact (routeStatus_issues hq _ _).bind fun _ => trivial

theorem close_issues (hq : ∀ o : Op, o.Quiet → φ o) (route : Route) :
    (Route.close route).Issues φ := by
  unfold Route.close
  split
  · split
    · exact (ask_issues hq _).bind fun _ => trivial
    · trivial
  · trivial

theorem routeCall_issues (grantId : String) (call : RouteCall) (route : Route) :
    (call.script grantId route).Issues (Op.Routes grantId) := by
  have hq : ∀ o : Op, o.Quiet → o.Routes grantId := fun _ => Op.Quiet.routes
  cases call with
  | claim => exact routeClaim_issues _ _ _
  | checkpoint => exact routeCheckpoint_issues _ _ _ _ _
  | disposition => exact disposition_issues hq _ _ _
  | status => exact Prog.Issues.bind (routeStatus_issues hq _ _) fun _ => trivial
  | close => exact close_issues hq _

theorem lifecycleRoute_issues (grantId : String) (calls : List RouteCall) :
    (lifecycleRoute grantId calls).Issues (Op.Routes grantId) := by
  refine Prog.Issues.bind (require_issues _ _) fun _ => Prog.Issues.bind
    (admit_issues (fun _ => Op.Quiet.routes) _) fun route => ?_
  induction calls generalizing route with
  | nil => trivial
  | cons call calls ih =>
    exact Prog.Issues.bind (Prog.Issues.catching (Prog.Issues.bind (routeCall_issues _ _ _)
      fun _ => trivial) fun _ => trivial) fun next => ih next

end Route

/-! ### verify -/

theorem blockVerification_issues (runId : RunId) (run : Run) (reason : String) :
    (OrchKit.blockVerification runId reason).Issues (Op.Verifies runId run) :=
  Prog.Issues.bind (transact_issues rfl) fun _ =>
    Prog.Issues.bind (ask_issues (fun _ => Op.Quiet.verifies) _) fun _ => trivial

theorem verifySnapshot_issues (runId : RunId) (run : Run) (payload : TaskPayload)
    (manifest : Manifest) :
    (verifySnapshot runId run payload manifest).Issues (Op.Verifies runId run) := by
  refine (runChecks_issues (fun _ => Op.Quiet.verifies) _ _ _).bind fun checks => ?_
  refine (ask_issues (fun _ => Op.Quiet.verifies) _).bind fun postAuthority => ?_
  cases postAuthority with
  | some reason => exact blockVerification_issues _ _ _
  | none =>
    refine (attempt_issues ((ask_issues (fun _ => Op.Quiet.verifies) _).bind fun _ =>
      ask_issues (fun _ => Op.Quiet.verifies) _)).bind fun x => ?_
    cases x with
    | error reason => exact blockVerification_issues _ _ _
    | ok evidence => exact transact_issues ⟨rfl, rfl⟩

theorem verifyRun_issues (runId : RunId) (run : Run) :
    (verifyRun runId run).Issues (Op.Verifies runId run) := by
  have hq : ∀ o : Op, o.Quiet → o.Verifies runId run := fun _ => Op.Quiet.verifies
  refine Prog.Issues.bind (selectTask_issues hq _) fun _ => ?_
  refine Prog.Issues.bind (demand_issues _ _) fun task => ?_
  refine Prog.Issues.bind (demand_issues _ _) fun receipt => ?_
  refine Prog.Issues.bind (ask_issues hq _) fun scope => ?_
  split
  next => exact blockVerification_issues _ _ _
  next =>
    refine Prog.Issues.bind (ask_issues hq _) fun authority => ?_
    cases authority with
    | some reason => exact blockVerification_issues _ _ _
    | none =>
      refine Prog.Issues.bind (attempt_issues (ask_issues hq _)) fun taken => ?_
      cases taken with
      | ok manifest => exact verifySnapshot_issues _ _ _ _
      | error reason =>
        simp only
        split
        · exact blockVerification_issues _ _ _
        · trivial

/-! ### publish and reconcile_publication -/

def Returns (Q : α → Prop) : Except Exn α → Prop
  | .ok a => Q a
  | .error _ => True

/-- What a part of `publish` returns, or knows of the row where it is interrupted. -/
def Staged (Q : α → Prop) : Except Interrupted α → Prop
  | .ok a => Q a
  | .error i => i.phase ≠ .complete ∧ Unfinished i.seen

theorem bind_staged {p : Prog orchSig Interrupted α} {f : α → Prog orchSig Interrupted β}
    {Q : α → Prop} {R : β → Prop} (h : p.Within φ (Staged Q))
    (hf : ∀ a, Q a → (f a).Within φ (Staged R)) : (p >>= f).Within φ (Staged R) :=
  h.bind hf fun _ h => h

theorem inPhase_staged {phase : PublicationStatus} {seen : Option Publication} {p : Script α}
    {Q : α → Prop} (hp : phase ≠ .complete) (hs : Unfinished seen) (h : p.Within φ (Returns Q)) :
    (inPhase phase seen p).Within φ (Staged Q) :=
  Prog.Within.catching h (fun _ h => h) fun _ _ => ⟨hp, hs⟩

theorem inPhase_quiet {phase : PublicationStatus} {seen : Option Publication} {p : Script α}
    (hp : phase ≠ .complete) (hs : Unfinished seen) (h : p.Issues φ) :
    (inPhase phase seen p).Within φ (Staged fun _ => True) :=
  inPhase_staged hp hs (h.mono (fun _ h => h) fun x _ => by cases x <;> trivial)

variable {runId : RunId} {taskId : TaskId}

theorem publicationUpdate_within {seen : Option Publication} {patch : PublicationPatch}
    {intent : Option PublicationIntent} (hp : patch.status ≠ .complete) (hs : Unfinished seen) :
    (publicationUpdate runId seen patch intent).Within (Op.Publishes runId taskId)
      (Returns Underway) := by
  refine ⟨trivial, fun row => ?_⟩
  cases row with
  | some row => exact ⟨⟨rfl, hp, hs⟩, fun _ => ⟨_, rfl, hp⟩⟩
  | none =>
    cases intent with
    | none => trivial
    | some intent =>
      refine ⟨⟨rfl, hp, hs⟩, fun answer => ?_⟩
      cases answer with
      | error e => trivial
      | ok u => exact ⟨_, rfl, hp⟩

theorem finalize_issues {commitId : CommitId} {remoteCommit : Option CommitId}
    {kind : PublicationKind} {seen : Option Publication} (hs : Underway seen) :
    (transact (.finalizePublication runId taskId commitId remoteCommit kind seen)).Issues
      (Op.Publishes runId taskId) := transact_issues ⟨rfl, rfl, hs⟩

theorem publishRemote_within (c : Publishing) (commitId : CommitId) {seen : Option Publication}
    (hs : Underway seen) : (publishRemote c commitId seen).Within (Op.Publishes c.runId c.taskId)
      (Staged fun _ => True) := by
  have hq : ∀ o : Op, o.Quiet → o.Publishes c.runId c.taskId := fun _ => Op.Quiet.publishes
  rw [publishRemote]
  split
  · exact inPhase_quiet (by decide) hs.unfinished (finalize_issues hs)
  · refine bind_staged (inPhase_quiet (by decide) hs.unfinished ((demand_issues _ _).bind fun _ =>
      (transportPush_issues hq _ _ _ _).bind fun _ => demand_issues _ _)) fun remoteUrl _ => ?_
    refine bind_staged (inPhase_staged (by decide) hs.unfinished
      (publicationUpdate_within (by simp) hs.unfinished)) fun seen hs => ?_
    refine bind_staged (inPhase_quiet (by decide) hs.unfinished
      (Prog.Issues.bind (transportLsRemote_issues hq _ _ _) fun _ =>
        Prog.Issues.bind (require_issues _ _) fun _ => trivial)) fun remoteCommit _ => ?_
    refine bind_staged (inPhase_staged (by decide) hs.unfinished
      (publicationUpdate_within (by simp) hs.unfinished)) fun seen hs => ?_
    exact inPhase_quiet (by decide) hs.unfinished (finalize_issues hs)

theorem publishStages_within (c : Publishing) {seen : Option Publication} (hs : Underway seen) :
    (publishStages c seen).Within (Op.Publishes c.runId c.taskId) (Staged fun _ => True) := by
  have hq : ∀ o : Op, o.Quiet → o.Publishes c.runId c.taskId := fun _ => Op.Quiet.publishes
  rw [publishStages]
  refine bind_staged (inPhase_quiet (by decide) hs.unfinished
    (Prog.Issues.bind (ask_issues hq _) fun _ => Prog.Issues.bind (demand_issues _ _) fun _ =>
      Prog.Issues.bind (ask_issues hq _) fun _ => require_issues _ _)) fun _ _ => ?_
  refine bind_staged (inPhase_staged (by decide) hs.unfinished
    (publicationUpdate_within (by simp) hs.unfinished)) fun seen hs => ?_
  refine bind_staged (inPhase_quiet (by decide) hs.unfinished
    (prepareSnapshotCommit_issues hq _ _ _ _)) fun commitId _ => ?_
  refine bind_staged (inPhase_staged (by decide) hs.unfinished
    (publicationUpdate_within (by simp) hs.unfinished)) fun seen hs => ?_
  refine bind_staged (inPhase_quiet (by decide) hs.unfinished
    ((publicationWorkspaceGuard_issues hq _ _ _).bind fun _ =>
      casUpdateBranch_issues hq _ _ _ _)) fun _ _ => ?_
  refine bind_staged (inPhase_staged (by decide) hs.unfinished
    (publicationUpdate_within (by simp) hs.unfinished)) fun seen hs => ?_
  exact publishRemote_within c commitId hs

theorem publishFromIntent_issues (c : Publishing) (operationId : String) :
    (publishFromIntent c operationId).Issues (Op.Publishes c.runId c.taskId) := by
  have none_unfinished : Unfinished none := fun _ h => by cases h
  refine Prog.Within.bind (publicationUpdate_within (by simp) none_unfinished)
    (fun seen hs => ?_) fun _ _ => trivial
  refine Prog.Within.catching (publishStages_within c hs) (fun _ _ => trivial) fun i hi => ?_
  exact Prog.Within.bind (publicationUpdate_within hi.1 hi.2) (fun _ _ => trivial)
    fun _ _ => trivial

theorem publishExisting_issues (runId : RunId) (taskId : TaskId) :
    (publishExisting runId).Issues (Op.Publishes runId taskId) := by
  refine ⟨trivial, fun existing => ?_⟩
  cases existing with
  | none => trivial
  | some existing =>
    change Prog.Issues _ (if existing.status = .complete then _ else _)
    split
    · exact ⟨trivial, fun row => (demand_issues _ _).bind fun _ => trivial⟩
    · next hs => exact (require_issues _ _).bind fun _ => ⟨⟨rfl, _, rfl, hs⟩, fun _ => trivial⟩

theorem requireApproval_issues (hq : ∀ o : Op, o.Quiet → φ o) (runId : RunId) (run : Run)
    (payload : TaskPayload) : (requireApproval runId run payload).Issues φ := by
  rw [requireApproval]
  split
  · exact (selectApproval_issues hq _).bind fun _ => require_issues _ _
  · trivial

/-- The preflight reads, and hands on the run it was given. -/
theorem publishPreflight_within (hq : ∀ o : Op, o.Quiet → φ o) (runId : RunId) (run : Run)
    (payload : TaskPayload) (manifest : Manifest) :
    (publishPreflight runId run payload manifest).Within φ
      (Returns fun c => c.runId = runId ∧ c.taskId = run.taskId) := by
  rw [publishPreflight]
  refine Prog.Within.bind (require_issues _ _) (fun _ _ => ?_) fun _ _ => trivial
  refine Prog.Within.bind (require_issues _ _) (fun _ _ => ?_) fun _ _ => trivial
  refine Prog.Within.bind (ask_issues hq _) (fun _ _ => ?_) fun _ _ => trivial
  refine Prog.Within.bind (ask_issues hq _) (fun _ _ => ?_) fun _ _ => trivial
  refine Prog.Within.bind (demand_issues _ _) (fun _ _ => ?_) fun _ _ => trivial
  refine Prog.Within.bind (require_issues _ _) (fun _ _ => ?_) fun _ _ => trivial
  refine Prog.Within.bind (demand_issues _ _) (fun _ _ => ?_) fun _ _ => trivial
  refine Prog.Within.bind (ask_issues hq _) (fun _ _ => ?_) fun _ _ => trivial
  refine Prog.Within.bind (require_issues _ _) (fun _ _ => ?_) fun _ _ => trivial
  refine Prog.Within.bind (ask_issues hq _) (fun _ _ => ?_) fun _ _ => trivial
  refine Prog.Within.bind (require_issues _ _) (fun _ _ => ?_) fun _ _ => trivial
  refine Prog.Within.bind (publicationWorkspaceGuard_issues hq _ _ _) (fun _ _ => ?_)
    fun _ _ => trivial
  exact ⟨rfl, rfl⟩

theorem reconcileRemote_issues (c : Reconciling) (commitId : CommitId)
    {seen : Option Publication} (hs : Underway seen) :
    (reconcileRemote c commitId seen).Issues (Op.Publishes c.runId c.taskId) := by
  have hq : ∀ o : Op, o.Quiet → o.Publishes c.runId c.taskId := fun _ => Op.Quiet.publishes
  have verified {seen : Option Publication} (hs : Underway seen) (remoteCommit : Option CommitId) :
      (publicationUpdate c.runId seen
          { status := .remoteVerified, commitId := commitId, remoteCommit := remoteCommit } >>=
        fun seen => c.finalize commitId remoteCommit .git seen).Issues
          (Op.Publishes c.runId c.taskId) :=
    Prog.Within.bind (publicationUpdate_within (by simp) hs.unfinished)
      (fun _ hs => finalize_issues hs) fun _ _ => trivial
  rw [reconcileRemote]
  split
  next => trivial
  next remoteUrl _ =>
    refine (transportLsRemote_issues hq _ _ _).bind fun remoteCommit => ?_
    split
    · exact verified hs _
    · split
      · trivial
      · split
        · trivial
        · refine (transportPush_issues hq _ _ _ _).bind fun pushed => ?_
          cases pushed with
          | none =>
            exact Prog.Within.bind (publicationUpdate_within (by simp) hs.unfinished)
              (fun _ _ => trivial) fun _ _ => trivial
          | some _ =>
            refine Prog.Within.bind (publicationUpdate_within (by simp) hs.unfinished)
              (fun seen hs => ?_) fun _ _ => trivial
            refine (transportLsRemote_issues hq _ _ _).bind fun remoteCommit => ?_
            split
            · trivial
            · exact verified hs _

theorem reconcileCommitted_issues (c : Reconciling) (commitId : CommitId)
    (status : PublicationStatus) {seen : Option Publication} (hs : Underway seen) :
    (reconcileCommitted c commitId status seen).Issues (Op.Publishes c.runId c.taskId) := by
  have hq : ∀ o : Op, o.Quiet → o.Publishes c.runId c.taskId := fun _ => Op.Quiet.publishes
  have proceed {seen : Option Publication} (hs : Underway seen) :
      (ask (.commitMatchesSnapshot c.payload commitId c.expectedBase c.manifest) >>=
        fun proven : Bool =>
          if ¬ proven then return c.blocked "commit_not_proven"
          else if c.payload.publication.kind = .gitLocal then
            c.finalize commitId none .gitLocal seen
          else reconcileRemote c commitId seen : Script Reply).Issues
        (Op.Publishes c.runId c.taskId) := by
    refine (ask_issues hq _).bind fun proven => ?_
    split
    · trivial
    · split
      · exact finalize_issues hs
      · exact reconcileRemote_issues c commitId hs
  rw [reconcileCommitted]
  split
  · exact proceed hs
  · exact Prog.Within.bind (publicationUpdate_within (by simp) hs.unfinished)
      (fun _ hs => proceed hs) fun _ _ => trivial

theorem reconcilePrepared_issues (c : Reconciling) (staged : Bool) (commitId : CommitId)
    {seen : Option Publication} (hs : Underway seen) :
    (reconcilePrepared c staged commitId seen).Issues (Op.Publishes c.runId c.taskId) := by
  have hq : ∀ o : Op, o.Quiet → o.Publishes c.runId c.taskId := fun _ => Op.Quiet.publishes
  rw [reconcilePrepared]
  split
  · trivial
  · refine (attempt_issues (publicationWorkspaceGuard_issues hq _ _ _)).bind fun guarded => ?_
    cases guarded with
    | error reason => trivial
    | ok _ =>
      simp only
      split
      · trivial
      · refine (attempt_issues (casUpdateBranch_issues hq _ _ _ _)).bind fun updated => ?_
        cases updated with
        | error _ => trivial
        | ok _ =>
          exact Prog.Within.bind (publicationUpdate_within (by simp) hs.unfinished)
            (fun _ hs => reconcileCommitted_issues c commitId _ hs) fun _ _ => trivial

theorem reconcileStaged_issues (c : Reconciling) (staged : Bool) (status : PublicationStatus)
    {seen : Option Publication} (hs : Underway seen) :
    (reconcileStaged c staged status seen).Issues (Op.Publishes c.runId c.taskId) := by
  have hq : ∀ o : Op, o.Quiet → o.Publishes c.runId c.taskId := fun _ => Op.Quiet.publishes
  rw [reconcileStaged]
  split
  · refine (ask_issues hq _).bind fun stagedRaw => ?_
    split
    · exact Prog.Within.bind (publicationUpdate_within (by simp) hs.unfinished)
        (fun _ _ => trivial) fun _ _ => trivial
    · trivial
  · refine (attempt_issues (publicationWorkspaceGuard_issues hq _ _ _)).bind fun guarded => ?_
    cases guarded with
    | error reason => trivial
    | ok _ =>
      simp only
      split
      · trivial
      · refine Prog.Issues.bind (Prog.Issues.catching (Prog.Issues.bind
          (prepareSnapshotCommit_issues hq _ _ _ _) fun _ => trivial) fun _ => trivial)
          fun prepared => ?_
        cases prepared with
        | error e =>
          exact Prog.Within.bind (publicationUpdate_within (by simp) hs.unfinished)
            (fun _ _ => trivial) fun _ _ => trivial
        | ok commitId =>
          exact Prog.Within.bind (publicationUpdate_within (by simp) hs.unfinished)
            (fun _ hs => reconcilePrepared_issues c staged commitId hs) fun _ _ => trivial

theorem reconcileJournal_issues (c : Reconciling) {journal : Publication}
    (hj : journal.status ≠ .complete) :
    (reconcileJournal c journal).Issues (Op.Publishes c.runId c.taskId) := by
  have hq : ∀ o : Op, o.Quiet → o.Publishes c.runId c.taskId := fun _ => Op.Quiet.publishes
  have hs : Underway (some journal) := ⟨journal, rfl, hj⟩
  rw [reconcileJournal]
  refine (ask_issues hq _).bind fun head => (ask_issues hq _).bind fun staged => ?_
  split
  next commitId _ =>
    refine (ask_issues hq _).bind fun proven => ?_
    split
    · trivial
    · split
      · exact reconcilePrepared_issues c staged commitId hs
      · split
        · exact reconcileCommitted_issues c commitId _ hs
        · trivial
  next =>
    cases head with
    | none => trivial
    | some observed =>
      simp only
      split
      · exact reconcileStaged_issues c staged _ hs
      · refine (ask_issues hq _).bind fun proven => ?_
        split
        · trivial
        · exact Prog.Within.bind (publicationUpdate_within (by simp) hs.unfinished)
            (fun _ hs => reconcileCommitted_issues c observed _ hs) fun _ _ => trivial

theorem publishRun_issues (runId : RunId) (run : Run) :
    (publishRun runId run).Issues (Op.Publishes runId run.taskId) := by
  have hq : ∀ o : Op, o.Quiet → o.Publishes runId run.taskId := fun _ => Op.Quiet.publishes
  refine Prog.Issues.bind (selectTask_issues hq _) fun _ => ?_
  refine Prog.Issues.bind (demand_issues _ _) fun task => ?_
  refine Prog.Issues.bind (selectSnapshot_issues hq _) fun _ => ?_
  refine Prog.Issues.bind (demand_issues _ _) fun snap => ?_
  refine Prog.Issues.bind (ask_issues hq _) fun _ => ?_
  refine Prog.Issues.bind (publishExisting_issues _ _) fun existing => ?_
  cases existing with
  | some reply => trivial
  | none =>
    refine Prog.Issues.bind (requireApproval_issues hq _ _ _) fun _ => ?_
    refine Prog.Within.bind (publishPreflight_within hq _ _ _ _) (fun c hc => ?_)
      fun _ _ => trivial
    refine Prog.Issues.bind (ask_issues hq _) fun operationId => ?_
    rw [← hc.1, ← hc.2]
    exact publishFromIntent_issues c operationId

theorem reconcileRun_issues (runId : RunId) (resume : Bool) (journal : Publication) (run : Run) :
    (reconcileRun runId resume journal run).Issues (Op.Publishes runId run.taskId) := by
  have hq : ∀ o : Op, o.Quiet → o.Publishes runId run.taskId := fun _ => Op.Quiet.publishes
  refine Prog.Issues.bind (selectTask_issues hq _) fun _ => ?_
  refine Prog.Issues.bind (demand_issues _ _) fun task => ?_
  refine Prog.Issues.bind (selectSnapshot_issues hq _) fun _ => ?_
  refine Prog.Issues.bind (demand_issues _ _) fun snap => ?_
  split
  next => trivial
  next hj =>
    split
    next => trivial
    next expectedBase _ =>
      exact reconcileJournal_issues ⟨runId, run.taskId, task.payload, snap.manifest,
        expectedBase, resume⟩ hj

/-- Whatever a command issues is one of the operations that are told apart here. -/
theorem script_commanded (c : Command) : c.script.Issues Op.Commanded := by
  have hq : ∀ o : Op, o.Quiet → o.Commanded := fun _ => .inl
  cases c with
  | loadPlan =>
    refine Prog.Issues.bind (ask_issues hq _) fun plan => ?_
    cases hp : validatePlan plan.2.2 with
    | error e => trivial
    | ok => exact transact_issues (.inr (.inr (.inr (.inr hp))))
  | submit | importReview =>
    exact Prog.Issues.bind (ask_issues hq _) fun _ =>
      transact_issues (.inr (.inr (.inr (.inr trivial))))
  | readmit =>
    refine Prog.Issues.bind (ask_issues hq _) fun plan => ?_
    split
    · exact transact_issues (.inr (.inr (.inr (.inr trivial))))
    · trivial
  | pause reason =>
    exact ⟨.inr (.inr (.inr (.inr trivial))), fun _ =>
      ⟨.inr (.inr (.inr (.inr (.inl ⟨_, rfl⟩)))), fun _ => trivial⟩⟩
  | resume =>
    exact ⟨.inr (.inr (.inr (.inr trivial))), fun _ =>
      ⟨.inr (.inr (.inr (.inr (.inr rfl)))), fun _ => trivial⟩⟩
  | claim =>
    refine Prog.Issues.bind (transact_issues (.inr (.inr (.inr (.inr trivial))))) fun reply => ?_
    split
    · refine Prog.Issues.bind (Prog.Issues.catching (Prog.Issues.bind (ask_issues hq _)
        fun _ => trivial) fun _ => trivial) fun failed => ?_
      cases failed with
      | none => trivial
      | some e => exact transact_issues (.inr (.inr (.inr (.inr trivial))))
    · trivial
  | lifecycleRoute grantId calls =>
    exact (lifecycleRoute_issues grantId calls).mono (fun _ h => .inr (.inl ⟨grantId, h⟩))
      fun _ _ => trivial
  | quiesce | abort =>
    exact Prog.Issues.bind (transact_issues (.inr (.inr (.inr (.inr trivial))))) fun _ =>
      Prog.Issues.bind (ask_issues hq _) fun _ => trivial
  | verify runId =>
    refine Prog.Issues.bind (selectRun_issues hq _) fun _ => ?_
    refine Prog.Issues.bind (demand_issues _ _) fun run => ?_
    exact Prog.Issues.bind (require_issues _ _) fun _ =>
      (verifyRun_issues runId run).mono (fun _ h => .inr (.inr (.inl ⟨runId, run, h⟩)))
        fun _ _ => trivial
  | publish runId =>
    refine Prog.Issues.bind (selectRun_issues hq _) fun _ => ?_
    refine Prog.Issues.bind (demand_issues _ _) fun run => ?_
    exact Prog.Issues.bind (require_issues _ _) fun _ =>
      (publishRun_issues runId run).mono
        (fun _ h => .inr (.inr (.inr (.inl ⟨runId, run.taskId, h⟩))))
        fun _ _ => trivial
  | reconcilePublication runId resume =>
    refine Prog.Issues.bind (selectPublication_issues hq _) fun journal => ?_
    refine Prog.Issues.bind (selectRun_issues hq _) fun run => ?_
    cases journal with
    | none => trivial
    | some journal =>
      exact Prog.Issues.bind (demand_issues _ _) fun run =>
        (reconcileRun_issues runId resume journal run).mono
          (fun _ h => .inr (.inr (.inr (.inl ⟨runId, run.taskId, h⟩)))) fun _ _ => trivial
  | _ => exact transact_issues (.inr (.inr (.inr (.inr trivial))))

theorem script_issues (c : Command) : c.script.Issues Op.WellSeen :=
  (script_commanded c).mono (fun _ => Op.Commanded.wellSeen) fun _ _ => trivial

theorem script_admits (c : Command) : c.script.Issues Op.Admits :=
  (script_commanded c).mono (fun _ => Op.Commanded.admits) fun _ _ => trivial

end Script

end OrchKit
