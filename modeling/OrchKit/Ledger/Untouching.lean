import OrchKit.Ledger.Footprint

/-! # Who writes to repositories

Commits, refs and remotes are written by `publish` and `reconcile_publication` only. Every other
command leaves them alone, and so do the guards that these two begin with.
-/

namespace OrchKit

open Program

def Outside.writes : Outside → Bool
  | .commitTree .. | .updateRef .. | .push .. => true
  | _ => false

/-- The operation writes neither to a repository nor to the journal of a publication. -/
def Op.Untouching : Op → Prop
  | .outside o => o.writes = false
  | .deletePublication .. | .insertPublication .. | .updatePublication .. => False
  | .transaction (.finalizePublication ..) => False
  | _ => True

def Op.Still : Op → Prop
  | .outside o => o.writes = false
  | o => o.Quiet

theorem Op.Still.untouching {o : Op} (h : o.Still) : o.Untouching := by
  cases o <;> first | exact h | exact h.elim

theorem Op.Still.quiet {o : Op} (h : o.Still) : o.Quiet := by
  cases o <;> first | exact h | trivial

namespace Script

variable {α : Type} {φ : Op → Prop}

theorem ask_still {o : Outside} (h : o.writes = false) : (ask o).Issues Op.Still :=
  ⟨h, fun _ => ofChecked_issues _⟩

theorem liveGrant_still (grantId : String) : (Script.liveGrant grantId).Issues Op.Still :=
  Prog.Issues.bind ⟨trivial, fun _ => ofChecked_issues _⟩ fun _ =>
    (demand_issues _ _).bind fun _ => (require_issues _ _).bind fun _ => trivial

theorem selectOperation_still (grantId operationId : String) :
    (selectOperation grantId operationId).Issues Op.Still :=
  ⟨trivial, fun _ => ofChecked_issues _⟩

theorem publicationWorkspaceGuard_still (payload : TaskPayload) (manifest : Manifest)
    (expectedBase : CommitId) :
    (publicationWorkspaceGuard payload manifest expectedBase).Issues Op.Still := by
  refine (attempt_issues (ask_still rfl)).bind fun x => ?_
  cases x with
  | error message => trivial
  | ok _ =>
    refine (ask_still rfl).bind fun evidence => ?_
    rcases publicationScopeRefusal evidence expectedBase with _ | reason <;> trivial

theorem requireApproval_still (runId : RunId) (run : Run) (payload : TaskPayload) :
    (requireApproval runId run payload).Issues Op.Still := by
  rw [requireApproval]
  split
  · exact Prog.Issues.bind ⟨trivial, fun _ => trivial⟩ fun _ => require_issues _ _
  · trivial

theorem runChecks_still (payload : TaskPayload) (runId : RunId) (checks : List Check) :
    (runChecks payload runId checks).Issues Op.Still := by
  induction checks with
  | nil => trivial
  | cons check checks ih => exact (ask_still rfl).bind fun _ => ih.bind fun _ => trivial

/-! ### Routes -/

theorem routeStatus_still (grantId : String) (route : Route) :
    (Route.status grantId route).Issues Op.Still := by
  have checkRun (spec : LifecycleGrantSpec) (claim : LifecycleOperation) :
      (Route.checkRun spec claim).Issues Op.Still := by
    unfold Route.checkRun
    split
    · exact (demand_issues _ _).bind fun _ => Prog.Issues.bind ⟨trivial, fun _ => trivial⟩ fun _ =>
        (demand_issues _ _).bind fun _ => require_issues _ _
    · trivial
  have checkRecords : (Route.checkRecords grantId route).Issues Op.Still := by
    refine (liveGrant_still _).bind fun grant => ?_
    split
    · refine (demand_issues _ _).bind fun _ => (selectOperation_still _ _).bind fun _ =>
        (demand_issues _ _).bind fun claim => (require_issues _ _).bind fun _ =>
          (checkRun _ _).bind fun _ => ?_
      split
      · exact require_issues _ _
      · exact (require_issues _ _).bind fun _ =>
          Prog.Issues.bind ⟨trivial, fun _ => trivial⟩ fun _ => require_issues _ _
    · exact require_issues _ _
  refine (require_issues _ _).bind fun _ => checkRecords.bind fun _ => ?_
  split
  · trivial
  · exact ask_still rfl

theorem admit_still (grantId : String) : (Route.admitRoute grantId).Issues Op.Still := by
  refine (liveGrant_still _).bind fun grant => ?_
  split
  · trivial
  · refine (demand_issues _ _).bind fun _ => (selectOperation_still _ _).bind fun _ =>
      (demand_issues _ _).bind fun record => (require_issues _ _).bind fun _ =>
        (require_issues _ _).bind fun _ => ?_
    split
    · refine (require_issues _ _).bind fun _ => (ask_still rfl).bind fun _ =>
        Prog.Issues.bind (Prog.Issues.catching (routeStatus_still _ _) fun e => ?_) fun _ => trivial
      exact (ask_still rfl).bind fun _ => trivial
    · exact (routeStatus_still _ _).bind fun _ => trivial

theorem untouching_of_still {p : Script α} (h : p.Issues Op.Still) : p.Issues Op.Untouching :=
  h.mono (fun _ => Op.Still.untouching) fun _ _ => trivial

theorem routeClaim_untouching (grantId operationId : String) (route : Route) :
    (Route.claim grantId operationId route).Issues Op.Untouching := by
  have status (route : Route) : (Route.status grantId route).Issues Op.Untouching :=
    untouching_of_still (routeStatus_still grantId route)
  have asked {o : Outside} (h : o.writes = false) : (ask o).Issues Op.Untouching :=
    untouching_of_still (ask_still h)
  have publishRun (binding : RouteBinding) (lease : String) :
      (Route.publishRun grantId operationId binding lease).Issues Op.Untouching :=
    Prog.Issues.bind (asked rfl) fun _ => Prog.Issues.bind (require_issues _ _) fun _ =>
      Prog.Issues.bind (asked rfl) fun _ => Prog.Issues.catching
        (Prog.Issues.bind (asked rfl) fun _ => transact_issues trivial) fun _ =>
          Prog.Issues.bind (asked rfl) fun _ => trivial
  have claimGrant : (Route.claimGrant grantId operationId route).Issues Op.Untouching := by
    refine Prog.Issues.bind (transact_issues trivial) fun reserved => ?_
    split
    · trivial
    · refine Prog.Issues.bind (transact_issues trivial) fun consumed => ?_
      split
      · exact orUnknown_issues (Prog.Issues.bind (publishRun _ _) fun _ => orUnknown_issues
          (Prog.Issues.bind (status _) fun _ => trivial))
      · trivial
  refine Prog.Issues.bind (require_issues _ _) fun _ => orUnknown_issues
    (Prog.Issues.bind (status _) fun _ => Prog.Issues.bind claimGrant fun answer => ?_)
  obtain ⟨reply, bound⟩ := answer
  simp only
  split
  · exact orUnknown_issues (Prog.Issues.bind (status _) fun _ => trivial)
  · trivial

theorem routeCheckpoint_untouching (grantId operationId reason processState : String)
    (route : Route) :
    (Route.checkpoint grantId operationId reason processState route).Issues Op.Untouching := by
  have status (route : Route) : (Route.status grantId route).Issues Op.Untouching :=
    untouching_of_still (routeStatus_still grantId route)
  refine Prog.Issues.bind (require_issues _ _) fun _ => ?_
  split
  · trivial
  · refine orUnknown_issues (Prog.Issues.bind (status _) fun _ => ?_)
    split
    · trivial
    · refine Prog.Issues.bind ⟨trivial, fun _ => ofChecked_issues _⟩ fun start => ?_
      cases start with
      | answered reply => trivial
      | replayed reply => exact Prog.Issues.bind (status _) fun _ => trivial
      | prepared grant claim =>
        exact Prog.Issues.bind (transact_issues trivial) fun _ =>
          Prog.Issues.bind (status _) fun _ => trivial

theorem recorded_still (grantId operationId : String) :
    (Route.recorded grantId operationId).Issues Op.Still := by
  have ofReadyClaim (grant : Grant) (record : LifecycleOperation) :
      (Route.ofReadyClaim grantId grant record).Issues Op.Still := by
    refine (demand_issues _ _).bind fun _ => (selectOperation_still _ _).bind fun claim => ?_
    cases claim <;> trivial
  refine (liveGrant_still _).bind fun grant => (selectOperation_still _ _).bind fun record => ?_
  cases record with
  | none => trivial
  | some record =>
    simp only
    split
    · trivial
    · split
      · trivial
      · split
        · trivial
        · refine Prog.Issues.bind ⟨trivial, fun _ => trivial⟩ fun anchor => ?_
          split
          · trivial
          · exact Prog.Issues.bind (ofReadyClaim _ _) fun _ => trivial

theorem disposition_still (grantId operationId : String) (route : Route) :
    (Route.disposition grantId operationId route).Issues Op.Still := by
  refine (require_issues _ _).bind fun _ => orUnknown_issues
    ((routeStatus_still _ _).bind fun _ => (recorded_still _ _).bind fun found => ?_)
  cases found with
  | none => trivial
  | some reply => exact (routeStatus_still _ _).bind fun _ => trivial

theorem close_still (route : Route) : (Route.close route).Issues Op.Still := by
  unfold Route.close
  split
  · split
    · exact (ask_still rfl).bind fun _ => trivial
    · trivial
  · trivial

theorem routeCall_untouching (grantId : String) (call : RouteCall) (route : Route) :
    (call.script grantId route).Issues Op.Untouching := by
  cases call with
  | claim => exact routeClaim_untouching _ _ _
  | checkpoint => exact routeCheckpoint_untouching _ _ _ _ _
  | disposition => exact untouching_of_still (disposition_still _ _ _)
  | status =>
    exact untouching_of_still (Prog.Issues.bind (routeStatus_still _ _) fun _ => trivial)
  | close => exact untouching_of_still (close_still _)

theorem lifecycleRoute_untouching (grantId : String) (calls : List RouteCall) :
    (lifecycleRoute grantId calls).Issues Op.Untouching := by
  refine Prog.Issues.bind (require_issues _ _) fun _ => Prog.Issues.bind
    (untouching_of_still (admit_still _)) fun route => ?_
  induction calls generalizing route with
  | nil => trivial
  | cons call calls ih =>
    exact Prog.Issues.bind (Prog.Issues.catching (Prog.Issues.bind (routeCall_untouching _ _ _)
      fun _ => trivial) fun _ => trivial) fun next => ih next

/-! ### verify -/

theorem blockVerification_untouching (runId : RunId) (reason : String) :
    (OrchKit.blockVerification runId reason).Issues Op.Untouching :=
  Prog.Issues.bind (transact_issues trivial) fun _ =>
    Prog.Issues.bind (untouching_of_still (ask_still rfl)) fun _ => trivial

theorem verifyRun_untouching (runId : RunId) (run : Run) :
    (verifyRun runId run).Issues Op.Untouching := by
  have asked {o : Outside} (h : o.writes = false) : (ask o).Issues Op.Untouching :=
    untouching_of_still (ask_still h)
  have snapshot (payload : TaskPayload) (manifest : Manifest) :
      (verifySnapshot runId run payload manifest).Issues Op.Untouching := by
    refine Prog.Issues.bind (untouching_of_still (runChecks_still _ _ _)) fun checks => ?_
    refine Prog.Issues.bind (asked rfl) fun postAuthority => ?_
    cases postAuthority with
    | some reason => exact blockVerification_untouching _ _
    | none =>
      refine Prog.Issues.bind (attempt_issues (Prog.Issues.bind (asked rfl) fun _ => asked rfl))
        fun x => ?_
      cases x with
      | error reason => exact blockVerification_untouching _ _
      | ok evidence => exact transact_issues trivial
  refine Prog.Issues.bind ⟨trivial, fun _ => trivial⟩ fun _ => ?_
  refine Prog.Issues.bind (demand_issues _ _) fun task => ?_
  refine Prog.Issues.bind (demand_issues _ _) fun receipt => ?_
  refine Prog.Issues.bind (asked rfl) fun scope => ?_
  split
  next => exact blockVerification_untouching _ _
  next =>
    refine Prog.Issues.bind (asked rfl) fun authority => ?_
    cases authority with
    | some reason => exact blockVerification_untouching _ _
    | none =>
      refine Prog.Issues.bind (attempt_issues (asked rfl)) fun taken => ?_
      cases taken with
      | ok manifest => exact snapshot _ _
      | error reason =>
        simp only
        split
        · exact blockVerification_untouching _ _
        · trivial

end Script

open Script in
/-- Only publications and their reconciliation write to repositories and journals. -/
theorem script_untouching (c : Command) (hp : ∀ runId, c ≠ .publish runId)
    (hr : ∀ runId resume, c ≠ .reconcilePublication runId resume) :
    c.script.Issues Op.Untouching := by
  have asked {o : Outside} (h : o.writes = false) : (ask o).Issues Op.Untouching :=
    untouching_of_still (ask_still h)
  cases c with
  | publish runId => exact absurd rfl (hp runId)
  | reconcilePublication runId resume => exact absurd rfl (hr runId resume)
  | loadPlan =>
    exact Prog.Issues.bind (asked rfl) fun _ => Prog.Issues.bind (ofChecked_issues _) fun _ =>
      transact_issues trivial
  | submit | importReview =>
    exact Prog.Issues.bind (asked rfl) fun _ => transact_issues trivial
  | readmit =>
    refine Prog.Issues.bind (asked rfl) fun plan => ?_
    split
    · exact transact_issues trivial
    · trivial
  | pause | resume => exact ⟨trivial, fun _ => ⟨trivial, fun _ => trivial⟩⟩
  | claim =>
    refine Prog.Issues.bind (transact_issues trivial) fun reply => ?_
    split
    · refine Prog.Issues.bind (Prog.Issues.catching (Prog.Issues.bind (asked rfl) fun _ => trivial)
        fun _ => trivial) fun failed => ?_
      cases failed with
      | none => trivial
      | some e => exact transact_issues trivial
    · trivial
  | lifecycleRoute grantId calls => exact lifecycleRoute_untouching grantId calls
  | quiesce | abort =>
    exact Prog.Issues.bind (transact_issues trivial) fun _ =>
      Prog.Issues.bind (asked rfl) fun _ => trivial
  | verify runId =>
    exact Prog.Issues.bind ⟨trivial, fun _ => trivial⟩ fun _ =>
      Prog.Issues.bind (demand_issues _ _) fun run =>
        Prog.Issues.bind (require_issues _ _) fun _ => verifyRun_untouching runId run
  | _ => exact transact_issues trivial

end OrchKit
