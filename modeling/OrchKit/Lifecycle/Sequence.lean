import OrchKit.Lifecycle.Absorption

/-! # Commands one after another

When commands do not overlap, what a verification or a failed claim has read is still
so when it writes. Every operation is then in order as well as grounded, so that a
sequence of commands, each of them possibly cut off, is a run of the board.
-/

namespace OrchKit

open Program Script Ledger

variable {sha : Sha256} {L L' : Ledger}

/-! ### What commands find when nobody interferes -/

/-- The theory in which every operation is in order. -/
def ordering (sha : Sha256) : Theory (ledgerSemantics sha) where
  inv _ := True
  ok _ _ := True
  pre := InOrder
  rely _ _ := False
  inv_after _ _ _ _ := trivial

theorem ordering_alone : (ordering sha).Alone := ⟨fun _ _ => trivial, fun _ _ h => h⟩

theorem after_of_quiet {host : Host} {o : Op} (h : o.Quiet) :
    (ledgerSemantics sha).after host L o = L := by
  cases o <;> trivial

theorem inOrder_of_quiet {o : Op} (h : o.Quiet) : InOrder L o := by
  cases o <;> trivial

section InOrder

variable {α β : Type}

theorem inOrder_bind_quiet {p : Script α} {f : α → Script β} (hp : p.Issues Op.Quiet)
    (hf : ∀ a, (ordering sha).Safe (f a) (fun _ _ => True) L) :
    (ordering sha).Safe (p >>= f) (fun _ _ => True) L := by
  refine Theory.Safe.bind ?_
  refine
    (Theory.Safe.of_within (I := fun t => t = L) (ordering_alone.stable _) ?_ ?_ hp rfl).mono ?_
  · exact fun t o _ _ _ h => inOrder_of_quiet h
  · rintro t o host - rfl - h
    exact after_of_quiet h
  · rintro x t ⟨-, rfl⟩
    cases x with
    | ok a => exact hf a
    | error e => trivial

theorem inOrder_of_issues {p : Script α} {φ : Op → Prop} (hφ : ∀ L o, φ o → InOrder L o)
    (hp : p.Issues φ) : (ordering sha).Safe p (fun _ _ => True) L :=
  (Theory.Safe.of_within (I := fun _ => True) (ordering_alone.stable _)
    (fun t o _ _ _ h => hφ t o h) (fun _ _ _ _ _ _ _ => trivial) hp trivial).mono
      fun _ _ _ => trivial

theorem inOrder_demand {x : Option β} {e : Exn} {f : β → Script α}
    (h : ∀ b, x = some b → (ordering sha).Safe (f b) (fun _ _ => True) L) :
    (ordering sha).Safe (demand x e >>= f) (fun _ _ => True) L := by
  cases x with
  | none => trivial
  | some b => exact h b rfl

theorem blockVerification_inOrder (runId : RunId) (reason : String) :
    (ordering sha).Safe (OrchKit.blockVerification runId reason) (fun _ _ => True) L :=
  inOrder_of_issues (φ := fun o => o.Quiet ∨ o = .transaction (.blockVerification runId reason))
    (fun _ _ h => h.elim inOrder_of_quiet fun h => h ▸ trivial)
    (Prog.Issues.bind (transact_issues (.inr rfl)) fun _ =>
      Prog.Issues.bind (ask_issues (fun _ => Or.inl) _) fun _ => trivial)

theorem verifySnapshot_inOrder {runId : RunId} {run : Run} (payload : TaskPayload)
    (manifest : Manifest) (hr : L.runs.lookup runId = some run) (hs : run.state = .verifying) :
    (ordering sha).Safe (verifySnapshot runId run payload manifest) (fun _ _ => True) L := by
  refine inOrder_bind_quiet (runChecks_issues (fun _ => id) _ _ _) fun checks => ?_
  refine inOrder_bind_quiet (ask_issues (fun _ => id) _) fun postAuthority => ?_
  cases postAuthority with
  | some reason => exact blockVerification_inOrder _ _
  | none =>
    refine inOrder_bind_quiet (attempt_issues ((ask_issues (fun _ => id) _).bind fun _ =>
      ask_issues (fun _ => id) _)) fun x => ?_
    cases x with
    | error reason => exact blockVerification_inOrder _ _
    | ok evidence =>
      refine (ordering_alone.safe_call trivial).mpr ⟨?_, fun host => ?_⟩
      · simp only [InOrder, ordering, hr, Option.all_some, hs, decide_true]
      · exact inOrder_of_issues (fun _ _ => inOrder_of_quiet) (ofChecked_issues _)

theorem verifyRun_inOrder {runId : RunId} {run : Run} (hr : L.runs.lookup runId = some run)
    (hs : run.state = .verifying) :
    (ordering sha).Safe (verifyRun runId run) (fun _ _ => True) L := by
  refine inOrder_bind_quiet (selectTask_issues (fun _ => id) _) fun _ => ?_
  refine inOrder_demand fun task _ => inOrder_demand fun receipt _ => ?_
  refine inOrder_bind_quiet (ask_issues (fun _ => id) _) fun scope => ?_
  split
  next => exact blockVerification_inOrder _ _
  next =>
    refine inOrder_bind_quiet (ask_issues (fun _ => id) _) fun authority => ?_
    cases authority with
    | some reason => exact blockVerification_inOrder _ _
    | none =>
      refine inOrder_bind_quiet (attempt_issues (ask_issues (fun _ => id) _)) fun taken => ?_
      cases taken with
      | ok manifest => exact verifySnapshot_inOrder _ _ hr hs
      | error reason =>
        simp only
        split
        · exact blockVerification_inOrder _ _
        · trivial

theorem verify_inOrder (runId : RunId) :
    (ordering sha).Safe (verify runId) (fun _ _ => True) L := by
  refine (ordering_alone.safe_call trivial).mpr ⟨trivial, fun host => ?_⟩
  change (ordering sha).Safe (demand (L.runs.lookup runId) _ >>= _) _ L
  refine inOrder_demand fun run hr => ?_
  unfold Script.require
  split
  next hs => exact verifyRun_inOrder hr hs
  next => trivial

theorem publishCapability_inOrder {reply : Reply} {runId : RunId} {taskId : TaskId}
    {lease : String} {run : Run} (hr : L.runs.lookup runId = some run)
    (hs : run.state = .running) :
    (ordering sha).Safe (publishCapability reply runId taskId lease) (fun _ _ => True) L := by
  refine inOrder_bind_quiet (Prog.Issues.catching (Prog.Issues.bind
    (ask_issues (fun _ => id) _) fun _ => trivial) fun _ => trivial) fun failed => ?_
  cases failed with
  | none => trivial
  | some e =>
    refine (ordering_alone.safe_call trivial).mpr ⟨?_, fun host => ?_⟩
    · simp only [InOrder, ordering, hr, Option.all_some, hs, decide_true]
    · exact inOrder_of_issues (fun _ _ => inOrder_of_quiet) (ofChecked_issues _)

theorem claim_inOrder (workerId : String) (projectId : Option ProjectId)
    (repairFromRunId : Option RunId) : (ordering sha).Safe
      (OrchKit.claim workerId projectId repairFromRunId) (fun _ _ => True) L := by
  refine (ordering_alone.safe_call trivial).mpr ⟨trivial, fun host => ?_⟩
  change (ordering sha).Safe (ofChecked _ >>= _) _ _
  rcases h : L.claim sha host workerId projectId repairFromRunId with e | ⟨reply, L'⟩
  · simp only [ledgerSemantics, Txn.run, h]
    trivial
  · simp only [Semantics.after, ledgerSemantics, Txn.run, h, ofChecked, Prog.ret_bind]
    split
    next runId taskId lease hstatus hrun _ _ =>
      rcases claim_spec h with ⟨-, hn, -⟩ | ⟨r, run, task, hs, hr, -⟩
      · exact absurd hstatus hn
      · rw [hrun] at hr
        cases hr
        exact publishCapability_inOrder hs.lookup_self hs.state
    next => trivial

/-- No operation of the command looks at a run it has not found itself. -/
def Op.Orderly : Op → Prop
  | .transaction (.verifyResult ..) | .transaction (.capabilityCreateFailed ..) => False
  | _ => True

theorem inOrder_of_orderly {o : Op} (h : o.Orderly) : InOrder L o := by
  cases o with
  | transaction t => cases t <;> trivial
  | _ => trivial

theorem Op.Quiet.orderly {o : Op} (h : o.Quiet) : o.Orderly := by
  cases o <;> trivial

theorem Op.Routes.orderly {grantId : String} {o : Op} (h : o.Routes grantId) : o.Orderly := by
  cases o with
  | transaction t => cases t <;> trivial
  | _ => trivial

theorem Op.Publishes.orderly {runId : RunId} {taskId : TaskId} {o : Op}
    (h : o.Publishes runId taskId) : o.Orderly := by
  cases o with
  | transaction t => cases t <;> trivial
  | _ => trivial

theorem inOrder_of_issues_orderly {p : Script α} (hp : p.Issues Op.Orderly) :
    (ordering sha).Safe p (fun _ _ => True) L :=
  inOrder_of_issues (fun _ _ => inOrder_of_orderly) hp

/-- Without interference, every operation of a command is in order. -/
theorem script_inOrder (c : Command) :
    (ordering sha).Safe c.script (fun _ _ => True) L := by
  have hq : ∀ o : Op, o.Quiet → o.Orderly := fun _ => Op.Quiet.orderly
  cases c with
  | verify => exact verify_inOrder _
  | claim => exact claim_inOrder _ _ _
  | loadPlan =>
    refine inOrder_of_issues_orderly (Prog.Issues.bind (ask_issues hq _) fun plan => ?_)
    exact Prog.Issues.bind (ofChecked_issues _) fun _ => transact_issues trivial
  | submit | importReview =>
    exact inOrder_of_issues_orderly (Prog.Issues.bind (ask_issues hq _) fun _ =>
      transact_issues trivial)
  | readmit =>
    refine inOrder_of_issues_orderly (Prog.Issues.bind (ask_issues hq _) fun plan => ?_)
    split <;> first | exact transact_issues trivial | trivial
  | pause | resume =>
    exact inOrder_of_issues_orderly ⟨trivial, fun _ => ⟨trivial, fun _ => trivial⟩⟩
  | lifecycleRoute =>
    exact inOrder_of_issues_orderly
      ((lifecycleRoute_issues _ _).mono (fun _ => Op.Routes.orderly) fun _ _ => trivial)
  | quiesce | abort =>
    exact inOrder_of_issues_orderly (Prog.Issues.bind (transact_issues trivial) fun _ =>
      Prog.Issues.bind (ask_issues hq _) fun _ => trivial)
  | publish runId =>
    refine inOrder_of_issues_orderly (Prog.Issues.bind (selectRun_issues hq _) fun _ => ?_)
    refine Prog.Issues.bind (demand_issues _ _) fun run => ?_
    exact Prog.Issues.bind (require_issues _ _) fun _ =>
      (publishRun_issues runId run).mono (fun _ => Op.Publishes.orderly) fun _ _ => trivial
  | reconcilePublication runId resume =>
    refine inOrder_of_issues_orderly (Prog.Issues.bind (selectPublication_issues hq _)
      fun journal => ?_)
    refine Prog.Issues.bind (selectRun_issues hq _) fun run => ?_
    cases journal with
    | none => trivial
    | some journal =>
      exact Prog.Issues.bind (demand_issues _ _) fun run =>
        (reconcileRun_issues runId resume journal run).mono (fun _ => Op.Publishes.orderly)
          fun _ _ => trivial
  | _ => exact inOrder_of_issues_orderly (transact_issues trivial)

end InOrder

/-! ### Sequences -/

/-- The theory of commands that do not overlap, for an invariant of orderly ledgers that every
operation in order and grounded keeps. -/
def sequential (sha : Sha256) (inv : Ledger → Prop)
    (step : ∀ L L' o, Orderly L → inv L → Effect sha L o L' → InOrder L o → Grounded L o → inv L') :
    Theory (ledgerSemantics sha) where
  inv L := Orderly L ∧ inv L
  ok _ _ := True
  pre L o := InOrder L o ∧ Grounded L o
  rely _ _ := False
  inv_after host hL _ hpre :=
    have effect := Effect.after sha host _ _
    ⟨effect.orderly hL.1 hpre.1 hpre.2, step _ _ _ hL.1 hL.2 effect hpre.1 hpre.2⟩

theorem session_invariant {inv : Ledger → Prop}
    (step : ∀ L L' o, Orderly L → inv L → Effect sha L o L' → InOrder L o → Grounded L o → inv L')
    (cs : List (Command × List Host)) (hL : Orderly L) (h : inv L) :
    Orderly (session (ledgerSemantics sha) Command.script cs L) ∧
      inv (session (ledgerSemantics sha) Command.script cs L) := by
  have alone : (sequential sha inv step).Alone := ⟨fun _ _ => trivial, fun _ _ h => h⟩
  refine alone.session (fun c t ht => ?_) cs ⟨hL, h⟩
  exact alone.safe_of_both (fun _ ht => ⟨trivial, ht.1⟩) (fun _ _ => ⟨trivial, id⟩)
    (fun _ _ h₁ h₂ => ⟨h₁, h₂⟩) (script_inOrder c) (script_safe c) ht

end OrchKit
