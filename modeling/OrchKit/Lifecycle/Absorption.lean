import OrchKit.Ledger.Footprint
import OrchKit.Lifecycle.Refinement
import OrchKit.Lifecycle.Exclusion

/-! # Runs that have ended

Every command is shown to be grounded while others interfere, so a run of the whole
system in which verifications and failed claims land in order is a run of the board.
There a run that has ended keeps its state, and a settled task keeps its status.
-/

namespace OrchKit

open Program Script Ledger

/-- The ledger is a sound board, and only runs past their verification have a publication. -/
structure Orderly (L : Ledger) : Prop where
  sound : L.board.Sound
  published : ∀ r, (L.publications.lookup r).isSome → ∃ t, L.RunAt r t publishableStates

/-- Runs stay with their tasks, and those past their verification stay past it. -/
def Advanced (L L' : Ledger) : Prop :=
  ∀ r run, L.runs.lookup r = some run → ∃ run', L'.runs.lookup r = some run' ∧
    run'.taskId = run.taskId ∧ (run.state ∈ publishableStates → run'.state ∈ publishableStates)

variable {sha : Sha256} {L L' : Ledger}

theorem Advanced.runAt (h : Advanced L L') {r : RunId} {t : TaskId}
    (hr : L.RunAt r t publishableStates) : L'.RunAt r t publishableStates := by
  obtain ⟨run, hrun, ht, hs⟩ := hr
  obtain ⟨run', hrun', ht', hs'⟩ := h r run hrun
  exact ⟨run', hrun', ht'.trans ht, hs' hs⟩

theorem Effect.advanced {o : Op} (h : Effect sha L o L') (hok : InOrder L o)
    (hpre : Grounded L o) : Advanced L L' := by
  intro r run hr
  obtain ⟨run', hr', ht, -⟩ := h.runsStay r run hr
  refine ⟨run', hr', ht, fun hs => ?_⟩
  obtain ⟨s', hs', hmem⟩ := (h.boardStep hok hpre).verified (board_run hr) hs
  obtain ⟨run'', hr'', -, rfl⟩ := board_run_eq_some_iff.mp hs'
  rw [hr'] at hr''
  cases hr''
  exact hmem

theorem Effect.orderly {o : Op} (h : Effect sha L o L') (hL : Orderly L) (hok : InOrder L o)
    (hpre : Grounded L o) : Orderly L' := by
  refine ⟨(h.boardStep hok hpre).sound hL.sound, fun r hr => ?_⟩
  have hadv := h.advanced hok hpre
  rcases hp : L.publications.lookup r with _ | row
  · obtain ⟨row, seen, rfl⟩ := h.publication_of_new hp hr
    obtain ⟨t, ht⟩ := hpre
    exact ⟨t, hadv.runAt ht⟩
  · obtain ⟨t, ht⟩ := hL.published r (by rw [hp]; rfl)
    exact ⟨t, hadv.runAt ht⟩

/-- The theory in which the commands are grounded. -/
def grounding (sha : Sha256) : Theory (ledgerSemantics sha) where
  inv := Orderly
  ok := InOrder
  pre := Grounded
  rely := Advanced
  inv_after host hL hok hpre := (Effect.after sha host _ _).orderly hL hok hpre

theorem grounding_shared : (grounding sha).Shared :=
  fun L o host _ hok hpre => (Effect.after sha host L o).advanced hok hpre

/-! ### The commands are grounded -/

def Ledger.RunOf (L : Ledger) (runId : RunId) (taskId : TaskId) : Prop :=
  ∃ run, L.runs.lookup runId = some run ∧ run.taskId = taskId

theorem stable_true : (grounding sha).Stable fun _ => True := fun _ _ _ _ _ _ => trivial

theorem stable_runOf {runId : RunId} {taskId : TaskId} :
    (grounding sha).Stable fun L => L.RunOf runId taskId := by
  rintro L L' - - h ⟨run, hr, ht⟩
  obtain ⟨run', hr', ht', -⟩ := h runId run hr
  exact ⟨run', hr', ht'.trans ht⟩

theorem stable_runAt {runId : RunId} {taskId : TaskId} :
    (grounding sha).Stable fun L => L.RunAt runId taskId publishableStates :=
  fun _ _ _ _ h hr => h.runAt hr

section Safe

variable {α : Type} {p : Script α}

theorem safe_of_issues {I : Ledger → Prop} {φ : Op → Prop} (hI : (grounding sha).Stable I)
    (hφ : ∀ L o, I L → φ o → Grounded L o) (hp : p.Issues φ) (hL : I L) :
    (grounding sha).Safe p (fun _ _ => True) L :=
  (grounding_shared.safe_of_within hI (fun t o _ hi _ ho => hφ t o hi ho) hp hL).mono
    fun _ _ _ => trivial

theorem safe_of_free (hp : p.Issues fun o => ∀ L, Grounded L o) :
    (grounding sha).Safe p (fun _ _ => True) L :=
  safe_of_issues stable_true (fun L _ _ h => h L) hp trivial

theorem quiet_free {o : Op} (h : o.Quiet) : ∀ L, Grounded L o := by
  cases o <;> first | exact fun _ => trivial | exact absurd h (by simp [Op.Quiet])

theorem transact_free {t : Txn} (h : ∀ L, Grounded L (.transaction t)) :
    (grounding sha).Safe (transact t) (fun _ _ => True) L :=
  safe_of_free (transact_issues h)

theorem transact_revoke_free {t : Txn} {runId : RunId} (h : ∀ L, Grounded L (.transaction t)) :
    (grounding sha).Safe (transact t >>= fun reply => ask (.revokeCapability runId) >>= fun _ =>
      pure reply) (fun _ _ => True) L :=
  safe_of_free (Prog.Issues.bind (transact_issues h) fun _ =>
    Prog.Issues.bind (ask_issues (fun _ => quiet_free) _) fun _ => trivial)

theorem verifies_grounded {runId : RunId} {run : Run} {o : Op} (hL : L.RunOf runId run.taskId)
    (ho : o.Verifies runId run) : Grounded L o := by
  cases o with
  | transaction t =>
    cases t with
    | verifyResult => obtain ⟨rfl, rfl⟩ := ho; exact hL
    | blockVerification => trivial
    | _ => cases ho
  | _ => trivial

theorem publishes_grounded {runId : RunId} {taskId : TaskId} {o : Op}
    (hL : L.RunAt runId taskId publishableStates) (ho : o.Publishes runId taskId) :
    Grounded L o := by
  cases o with
  | transaction t =>
    cases t with
    | finalizePublication => obtain ⟨rfl, rfl, -⟩ := ho; exact hL
    | _ => cases ho
  | insertPublication => obtain ⟨rfl, -⟩ := ho; exact ⟨_, hL⟩
  | _ => trivial

theorem safe_selectRun {I : Ledger → Prop} (hI : (grounding sha).Stable I) (hL : I L)
    {runId : RunId} {f : Option Run → Script α} {Q : Except Exn α → Ledger → Prop}
    (h : ∀ L, Orderly L → I L → (grounding sha).Safe (f (L.runs.lookup runId)) Q L) :
    (grounding sha).Safe (selectRun runId >>= f) Q L :=
  Theory.Safe.call hI hL fun L hinv hi _ => ⟨trivial, fun _ => h L hinv hi⟩

theorem safe_demand {β : Type} {x : Option β} {e : Exn} {f : β → Script α}
    (h : ∀ b, x = some b → (grounding sha).Safe (f b) (fun _ _ => True) L) :
    (grounding sha).Safe (demand x e >>= f) (fun _ _ => True) L := by
  cases x with
  | none => trivial
  | some b => exact h b rfl

theorem safe_require {q : Prop} [Decidable q] {e : Exn} {f : Unit → Script α}
    (h : q → (grounding sha).Safe (f ()) (fun _ _ => True) L) :
    (grounding sha).Safe (Script.require q e >>= f) (fun _ _ => True) L := by
  rw [Script.require]
  split
  next hq => exact h hq
  next => trivial

theorem verify_safe (runId : RunId) : (grounding sha).Safe (verify runId) (fun _ _ => True) L := by
  refine safe_selectRun stable_true trivial fun L _ _ => safe_demand fun run hr => ?_
  exact safe_require fun _ => safe_of_issues stable_runOf (fun _ _ => verifies_grounded)
    (verifyRun_issues runId run) ⟨run, hr, rfl⟩

theorem publish_safe (runId : RunId) :
    (grounding sha).Safe (publish runId) (fun _ _ => True) L := by
  refine safe_selectRun stable_true trivial fun L _ _ => safe_demand fun run hr => ?_
  refine safe_require fun hs => ?_
  have hat : L.RunAt runId run.taskId publishableStates := ⟨run, hr, rfl, by rw [hs]; decide⟩
  exact safe_of_issues stable_runAt (fun _ _ => publishes_grounded)
    (publishRun_issues runId run) hat

theorem reconcilePublication_safe (runId : RunId) (resume : Bool) :
    (grounding sha).Safe (reconcilePublication runId resume) (fun _ _ => True) L := by
  refine Theory.Safe.call stable_true trivial fun L hL _ _ => ⟨trivial, fun _ => ?_⟩
  change (grounding sha).Safe (selectRun runId >>= _) _ L
  rcases hp : L.publications.lookup runId with _ | journal
  · refine safe_of_free ⟨fun _ => trivial, fun run => ?_⟩
    simp only [ledgerSemantics, hp]
    trivial
  · -- the journal is that of a run past its verification, and so it stays
    obtain ⟨taskId, hat⟩ := hL.published runId (by rw [hp]; rfl)
    refine safe_selectRun stable_runAt hat fun L _ hat => ?_
    simp only [ledgerSemantics, hp]
    refine safe_demand fun run hr => ?_
    obtain ⟨row, hrow, rfl, hs⟩ := hat
    rw [hr] at hrow
    cases hrow
    exact safe_of_issues stable_runAt (fun _ _ => publishes_grounded)
      (reconcileRun_issues runId resume journal run) ⟨run, hr, rfl, hs⟩

theorem publishCapability_safe {reply : Reply} {runId : RunId} {taskId : TaskId} {lease : String}
    (hL : L.RunOf runId taskId) : (grounding sha).Safe
      (publishCapability reply runId taskId lease) (fun _ _ => True) L := by
  refine safe_of_issues (φ := fun o => o.Quiet ∨
      ∃ failure, o = .transaction (.capabilityCreateFailed runId taskId failure)) stable_runOf
    (fun L o hr ho => ?_) ?_ hL
  · rcases ho with ho | ⟨failure, rfl⟩
    · exact quiet_free ho L
    · exact hr
  · refine Prog.Issues.bind (Prog.Issues.catching (Prog.Issues.bind
      (ask_issues (fun _ => Or.inl) _) fun _ => trivial) fun _ => trivial) fun failed => ?_
    cases failed with
    | none => trivial
    | some e => exact transact_issues (.inr ⟨_, rfl⟩)

theorem claim_safe (workerId : String) (projectId : Option ProjectId)
    (repairFromRunId : Option RunId) : (grounding sha).Safe
      (OrchKit.claim workerId projectId repairFromRunId) (fun _ _ => True) L := by
  refine Theory.Safe.call stable_true trivial fun L _ _ _ => ⟨trivial, fun host => ?_⟩
  change (grounding sha).Safe (ofChecked _ >>= _) _ _
  rcases h : L.claim sha host workerId projectId repairFromRunId with e | ⟨reply, L'⟩
  · simp only [ledgerSemantics, Txn.run, h]
    trivial
  · simp only [Semantics.after, ledgerSemantics, Txn.run, h, ofChecked, Prog.ret_bind]
    split
    next runId taskId lease hstatus hrun htask _ =>
      refine publishCapability_safe ?_
      rcases claim_spec h with ⟨-, hn, -⟩ | ⟨r, run, task, hs, hr, ht, -⟩
      · exact absurd hstatus hn
      · rw [hrun] at hr
        rw [htask] at ht
        cases hr
        cases ht
        exact ⟨run, hs.lookup_self, rfl⟩
    next => trivial

theorem routes_free {grantId : String} {o : Op} (h : o.Routes grantId) : ∀ L, Grounded L o := by
  cases o with
  | transaction t =>
    cases t <;> first | exact fun _ => trivial | exact absurd h (by simp [Op.Routes, Op.Quiet])
  | _ => first | exact fun _ => trivial | exact absurd h (by simp [Op.Routes, Op.Quiet])

theorem ask_transact_safe {o : Outside} {f : o.Value → Txn}
    (h : ∀ x L, Grounded L (.transaction (f x))) :
    (grounding sha).Safe (ask o >>= fun x => transact (f x)) (fun _ _ => True) L :=
  safe_of_free (Prog.Issues.bind (ask_issues (fun _ => quiet_free) _) fun x =>
    transact_issues (h x))

theorem readmit_safe (previousRunId dependencyRunId : RunId) :
    (grounding sha).Safe (Command.script <| Command.readmit previousRunId dependencyRunId)
      (fun _ _ => True) L := by
  refine safe_of_free (Prog.Issues.bind (ask_issues (fun _ => quiet_free) _) fun plan => ?_)
  split
  · exact transact_issues fun _ => trivial
  · trivial

/-- Whatever the others do, a command issues only grounded operations. -/
theorem script_safe (c : Command) : (grounding sha).Safe c.script (fun _ _ => True) L := by
  cases c with
  | loadPlan =>
    refine safe_of_free (Prog.Issues.bind (ask_issues (fun _ => quiet_free) _) fun plan => ?_)
    exact Prog.Issues.bind (ofChecked_issues _) fun _ => transact_issues fun _ => trivial
  | submit => exact ask_transact_safe fun _ _ => trivial
  | importReview => exact ask_transact_safe fun _ _ => trivial
  | readmit => exact readmit_safe _ _
  | pause => exact safe_of_free ⟨fun _ => trivial, fun _ => ⟨fun _ => trivial, fun _ => trivial⟩⟩
  | resume => exact safe_of_free ⟨fun _ => trivial, fun _ => ⟨fun _ => trivial, fun _ => trivial⟩⟩
  | claim => exact claim_safe _ _ _
  | lifecycleRoute =>
    exact safe_of_free ((lifecycleRoute_issues _ _).mono (fun _ => routes_free) fun _ _ => trivial)
  | quiesce => exact transact_revoke_free fun _ => trivial
  | abort => exact transact_revoke_free fun _ => trivial
  | verify => exact verify_safe _
  | publish => exact publish_safe _
  | reconcilePublication => exact reconcilePublication_safe _ _
  | _ => exact transact_free fun _ => trivial

end Safe

theorem orderly_empty : Orderly Ledger.empty where
  sound :=
    { known := fun _ _ _ h => by cases h
      exclusive := fun _ _ _ h => by obtain ⟨_, _, _, h, -⟩ := h; cases h }
  published _ h := by cases h

/-! ### Ended runs and settled tasks -/

/-- Every ended run keeps its state and every settled task its status. -/
def EndsKept (L L' : Ledger) : Prop :=
  (∀ r run, L.runs.lookup r = some run → run.state ∈ endedRunStates →
    ∃ run', L'.runs.lookup r = some run' ∧ run'.state = run.state) ∧
  ∀ t task, L.tasks.lookup t = some task → task.status ∈ settledTaskStates →
    ∃ task', L'.tasks.lookup t = some task' ∧ task'.status = task.status

theorem EndsKept.refl (L : Ledger) : EndsKept L L :=
  ⟨fun _ run h _ => ⟨run, h, rfl⟩, fun _ task h _ => ⟨task, h, rfl⟩⟩

theorem EndsKept.trans {L₁ L₂ L₃ : Ledger} (h : EndsKept L₁ L₂) (h' : EndsKept L₂ L₃) :
    EndsKept L₁ L₃ := by
  constructor
  · intro r run hr hs
    obtain ⟨run', hr', hs'⟩ := h.1 r run hr hs
    obtain ⟨run'', hr'', hs''⟩ := h'.1 r run' hr' (hs' ▸ hs)
    exact ⟨run'', hr'', hs''.trans hs'⟩
  · intro t task ht hs
    obtain ⟨task', ht', hs'⟩ := h.2 t task ht hs
    obtain ⟨task'', ht'', hs''⟩ := h'.2 t task' ht' (hs' ▸ hs)
    exact ⟨task'', ht'', hs''.trans hs'⟩

theorem endsKept_of_boardStep (hL : L.board.Sound) (h : L.board.Step L'.board) :
    EndsKept L L' := by
  constructor
  · intro r run hr hs
    obtain ⟨run', hr', -, hs'⟩ := board_run_eq_some_iff.mp (h.ended (board_run hr) hs)
    exact ⟨run', hr', hs'⟩
  · intro t task ht hs
    obtain ⟨task', ht', -, hs'⟩ := board_task_eq_some_iff.mp (h.settled hL (board_task ht) hs)
    exact ⟨task', ht', hs'⟩

/-- Ended runs are absorbing: along a run of any number of commands side by side whose
verifications and failed claims land in order, what has ended by one moment has ended, in the same
way, at every later one. -/
theorem endsKept_of_inOrder (sha : Sha256) (as bs : List (Action Command Host))
    (h : World.Guarded (ledgerSemantics sha) Command.script InOrder emptyWorld (as ++ bs)) :
    EndsKept (World.run (ledgerSemantics sha) Command.script emptyWorld as).shared
      (World.run (ledgerSemantics sha) Command.script emptyWorld (as ++ bs)).shared := by
  obtain ⟨ha, hb⟩ := World.guarded_append.mp h
  have hsafe : ∀ (c : Command) L, Orderly L → (grounding sha).Safe c.script (fun _ _ => True) L :=
    fun c L _ => script_safe c
  have hsound := grounding_shared.sound_run hsafe ha (Theory.sound_of_inv orderly_empty)
  rw [World.run_append]
  exact grounding_shared.run_rel hsafe EndsKept.refl (fun _ _ _ => EndsKept.trans)
    (fun L o host hL hok hpre => endsKept_of_boardStep hL.sound
      ((Effect.after sha host L o).boardStep hok hpre)) hb hsound

open Scenario in
theorem endsKept_of_inOrder_aborted :
    EndsKept
      (World.run (ledgerSemantics Scenario.sha) Command.script emptyWorld
        (quiesced {} ++ call {} 4 2 (.abort "t-A1-0" "stop" false false))).shared
      (World.run (ledgerSemantics Scenario.sha) Command.script emptyWorld
        (quiesced {} ++ call {} 4 2 (.abort "t-A1-0" "stop" false false) ++
          call {} 5 1 (.verify "t-A1-0"))).shared :=
  endsKept_of_inOrder Scenario.sha _ _ (by decide)

open Scenario in
/-- A verification that is still going on when its run is aborted brings it back to life. -/
theorem not_always_endsKept : ¬ ∀ (sha : Sha256) (as bs : List (Action Command Host)),
    EndsKept (World.run (ledgerSemantics sha) Command.script emptyWorld as).shared
      (World.run (ledgerSemantics sha) Command.script emptyWorld (as ++ bs)).shared := by
  intro h
  obtain ⟨run, hrun, hstate⟩ := (h Scenario.sha (quiesced {} ++ call {} 4 8 (.verify "t-A1-0") ++
    call {} 5 2 (.abort "t-A1-0" "stop" false false)) (steps {} 4 1)).1 "t-A1-0" _ rfl (by decide)
  cases hrun
  exact absurd hstate (by decide)

end OrchKit
