import OrchKit.Ledger.Admission
import OrchKit.Ledger.Narrowing
import OrchKit.Lifecycle.Absorption
import OrchKit.Lifecycle.Coherence
import OrchKit.Lifecycle.Completion

/-! # The descendants of a task

A task that was readmitted under another one is superseded. Along such a chain no path
is allowed that was not, the attempts stay within the budget of the first task, and a
readmission can be asked for again. The budget rests on a superseded task staying
cancelled, which a verification that lands late can undo.
-/

namespace OrchKit

open Program Ledger Relation

namespace Ledger

def Supersedes (L : Ledger) (a b : TaskId) : Prop :=
  ∃ e ∈ L.readmissions, e.2.previousTaskId = a ∧ e.2.newTaskId = b

/-- The task a readmission has admitted is allowed no more paths than the one before it. -/
def PathsNarrowed (L : Ledger) (proof : ReadmissionProof) : Prop :=
  ∃ old new, L.payloadOf proof.previousTaskId = some old ∧
    L.payloadOf proof.newTaskId = some new ∧ PathsKept old new

/-- The task a readmission has superseded is cancelled, and leaves its remaining attempts to the
new one. -/
def Superseded (L : Ledger) (proof : ReadmissionProof) : Prop :=
  ∃ old new, L.tasks.lookup proof.previousTaskId = some old ∧ old.status = .cancelled ∧
    L.payloadOf proof.newTaskId = some new ∧
    L.attempts proof.previousTaskId + new.maxAttempts ≤ old.payload.maxAttempts

/-- What a readmission is compared with when it is asked for again is still there. -/
structure Replayable (L : Ledger) (sha : Sha256) (proof : ReadmissionProof) : Prop where
  plan : L.plans.lookup proof.planRevision = some proof.planDigest
  task : ∃ payload, L.payloadOf proof.newTaskId = some payload ∧
    sha.payload payload = proof.newPayloadSha256
  publication : ∃ row, L.publications.lookup proof.dependencyRunId = some row ∧
    row.status = .complete ∧ row.commitId = some proof.dependencyCommit

/-- The readmissions on record are of distinct runs and distinct tasks, and what they promise
holds. -/
structure Lineage (sha : Sha256) (L : Ledger) : Prop where
  superseded : ∀ e ∈ L.readmissions, L.Superseded e.2
  replayable : ∀ e ∈ L.readmissions, L.Replayable sha e.2
  runs : (L.readmissions.map Prod.fst).Nodup
  tasks : (L.readmissions.map fun e => e.2.previousTaskId).Nodup

end Ledger

variable {sha : Sha256} {L L' : Ledger} {proof : ReadmissionProof}

/-! ### Paths -/

def PayloadsStay (L L' : Ledger) : Prop :=
  ∀ t payload, L.payloadOf t = some payload → L'.payloadOf t = some payload

theorem payloadsStay_of_tasksKept (h : TasksKept L L') : PayloadsStay L L' := by
  intro t payload ht
  obtain ⟨task, htask, rfl⟩ := Option.map_eq_some_iff.mp ht
  obtain ⟨task', htask', hpayload⟩ := h t task htask
  rw [payloadOf, htask', Option.map_some, hpayload]

theorem payloadsStay_after (host : Host) (o : Op) :
    PayloadsStay L ((ledgerSemantics sha).after host L o) :=
  payloadsStay_of_tasksKept (Effect.after sha host L o).tasksKept

theorem PathsNarrowed.later (h : L.PathsNarrowed proof) (hp : PayloadsStay L L') :
    L'.PathsNarrowed proof := by
  obtain ⟨old, new, hold, hnew, hkept⟩ := h
  exact ⟨old, new, hp _ _ hold, hp _ _ hnew, hkept⟩

theorem pathsNarrowed_after (host : Host) {o : Op} (ho : o.Admits)
    (h : ∀ e ∈ L.readmissions, L.PathsNarrowed e.2) :
    ∀ e ∈ ((ledgerSemantics sha).after host L o).readmissions,
      ((ledgerSemantics sha).after host L o).PathsNarrowed e.2 := by
  have hstay : PayloadsStay L ((ledgerSemantics sha).after host L o) := payloadsStay_after host o
  have hstep := admissionStep_after sha host L ho
  generalize (ledgerSemantics sha).after host L o = L' at hstay hstep ⊢
  intro e he
  cases hstep with
  | kept hn => exact PathsNarrowed.later (h e (hn.readmissions ▸ he)) hstay
  | loaded _ _ _ readmissions => exact PathsNarrowed.later (h e (readmissions ▸ he)) hstay
  | readmitted admitted payloads _ readmissions =>
    rw [readmissions] at he
    rcases List.mem_cons.mp he with rfl | he
    · obtain ⟨task, dependencyTaskId, htask, -, hcontract⟩ := admitted.previous
      refine ⟨task.payload, _, hstay _ _ ?_, ?_, pathsKept_of_contract hcontract⟩
      · rw [payloadOf, htask, Option.map_some]
      · rw [admitted.newTaskId, payloads, if_pos rfl]
    · exact PathsNarrowed.later (h e he) hstay

theorem pathsKept_of_supersedes (h : ∀ e ∈ L.readmissions, L.PathsNarrowed e.2) {a b : TaskId}
    (hab : ReflTransGen L.Supersedes a b) {old new : TaskPayload}
    (hold : L.payloadOf a = some old) (hnew : L.payloadOf b = some new) : PathsKept old new := by
  induction hab generalizing new with
  | refl =>
    rw [hold, Option.some.injEq] at hnew
    subst hnew
    exact fun _ => id
  | tail _ hbc ih =>
    obtain ⟨e, he, rfl, rfl⟩ := hbc
    obtain ⟨before, after, hbefore, hafter, hkept⟩ := h e he
    rw [hnew, Option.some.injEq] at hafter
    subst hafter
    exact fun path hpath => ih hbefore path (hkept path hpath)

/-! ### Attempts -/

theorem Advance.attempts_of_cancelled (h : Advance L L') {t : TaskId} {task : Task}
    (ht : L.tasks.lookup t = some task) (hs : task.status = .cancelled) :
    L'.attempts t = L.attempts t := by
  cases h with
  | queue runs => exact attempts_of_runs_eq runs t
  | @started runId run row h =>
    have hne : run.taskId ≠ t := by
      rintro rfl
      have hready := h.claimable.status
      rw [h.claimable.found, Option.some.injEq] at ht
      rw [ht, hs] at hready
      exact absurd hready (by decide)
    rw [h.attempts, if_neg hne, Nat.add_zero]
  | moved h => exact h.attempts t

theorem Superseded.later (hL : L.board.Sound) (ha : Advance L L') (hk : TasksKept L L')
    (h : L.Superseded proof) : L'.Superseded proof := by
  obtain ⟨old, new, hold, hs, hnew, hbudget⟩ := h
  obtain ⟨old', hold', hpayload⟩ := hk _ old hold
  obtain ⟨old'', hold'', hs'⟩ := (endsKept_of_boardStep hL ha.boardStep).2 _ old hold
    (by rw [hs]; decide)
  rw [hold', Option.some.injEq] at hold''
  subst hold''
  refine ⟨old', new, hold', hs'.trans hs, payloadsStay_of_tasksKept hk _ _ hnew, ?_⟩
  rw [ha.attempts_of_cancelled hold hs, hpayload]
  exact hbudget

theorem Admitted.superseded {previousRunId dependencyRunId : RunId} {revision : String}
    {digest : Hash} {new : TaskPayload}
    (h : L.Admitted sha previousRunId dependencyRunId revision digest new proof)
    (hnew : L'.payloadOf new.id = some new) (hruns : L'.runs = L.runs)
    (hcancelled : ∀ task, L.tasks.lookup proof.previousTaskId = some task →
      L'.tasks.lookup proof.previousTaskId = some { task with status := .cancelled }) :
    L'.Superseded proof := by
  obtain ⟨task, dependencyTaskId, htask, -, hcontract⟩ := h.previous
  obtain ⟨hleft, hmax⟩ := attempts_of_contract hcontract
  refine ⟨_, new, hcancelled task htask, rfl, h.newTaskId ▸ hnew, ?_⟩
  rw [attempts_of_runs_eq hruns]
  dsimp only
  omega

/-- The runs of all tasks of a chain are within the budget of its first task. -/
theorem attempts_sum_le (hL : L.Tracked) (h : ∀ e ∈ L.readmissions, L.Superseded e.2) {t : TaskId}
    {ts : List TaskId} (hchain : (t :: ts).IsChain L.Supersedes) {payload : TaskPayload}
    (ht : L.payloadOf t = some payload) :
    ((t :: ts).map L.attempts).sum ≤ payload.maxAttempts := by
  induction ts generalizing t payload with
  | nil =>
    obtain ⟨task, htask, rfl⟩ := Option.map_eq_some_iff.mp ht
    simpa using hL.budget t task htask
  | cons u us ih =>
    rw [List.isChain_cons_cons] at hchain
    obtain ⟨⟨e, he, rfl, rfl⟩, hchain⟩ := hchain
    obtain ⟨old, new, hold, -, hnew, hbudget⟩ := h e he
    have hrest := ih hchain hnew
    rw [payloadOf, hold, Option.map_some, Option.some.injEq] at ht
    subst ht
    rw [List.map_cons, List.sum_cons]
    omega

/-! ### Replays -/

theorem Replayable.later (h : L.Replayable sha proof)
    (hplans : ∀ r d, L.plans.lookup r = some d → L'.plans.lookup r = some d)
    (hp : PayloadsStay L L') (hc : CompleteKept L L') : L'.Replayable sha proof where
  plan := hplans _ _ h.plan
  task := by
    obtain ⟨payload, ht, hsha⟩ := h.task
    exact ⟨payload, hp _ _ ht, hsha⟩
  publication := by
    obtain ⟨row, hrow, hs, hcommit⟩ := h.publication
    exact ⟨row, hc _ row hrow hs, hs, hcommit⟩

theorem filter_of_nodup {κ β : Type} [DecidableEq κ] {l : List (κ × β)}
    (h : (l.map Prod.fst).Nodup) {k : κ} {b : β} (hmem : (k, b) ∈ l) :
    l.filter (fun e => e.1 = k) = [(k, b)] := by
  induction l with
  | nil => cases hmem
  | cons e l ih =>
    rw [List.map_cons, List.nodup_cons] at h
    rcases List.mem_cons.mp hmem with rfl | hmem
    · rw [List.filter_cons_of_pos (by simp), List.filter_eq_nil_iff.mpr]
      intro e' he' hk
      rw [decide_eq_true_eq] at hk
      exact h.1 (List.mem_map.mpr ⟨e', he', hk⟩)
    · rw [List.filter_cons_of_neg, ih h.2 hmem]
      rw [decide_eq_true_eq]
      intro hk
      exact h.1 (List.mem_map.mpr ⟨(k, b), hmem, hk.symm⟩)

/-- A readmission that is on record is answered from the record. -/
theorem Lineage.replay (h : L.Lineage sha) {previousRunId : RunId}
    (hmem : (some previousRunId, proof) ∈ L.readmissions) (host : Host) (revision : String)
    (task : TaskPayload) :
    L.readmit sha host previousRunId proof.dependencyRunId revision proof.planDigest task =
      .ok ({ status := .readmitted, taskId := proof.newTaskId }, L) := by
  have hfound : L.readmissionsOf previousRunId = [proof] := by
    rw [readmissionsOf_eq, filter_of_nodup h.runs hmem]
    rfl
  have hreplay := h.replayable _ hmem
  obtain ⟨payload, hpayload, hsha⟩ := hreplay.task
  obtain ⟨held, hheld, rfl⟩ := Option.map_eq_some_iff.mp hpayload
  obtain ⟨row, hrow, -, hcommit⟩ := hreplay.publication
  unfold Ledger.readmit
  simp only [hfound]
  rw [Except.require_of]
  · rfl
  · simp only [hrow, hheld, hreplay.plan, Option.any_some, hcommit, hsha, decide_true, and_self]

/-! ### Runs in which the blind writes land in turn -/

/-- A write that does not look at what it writes finds what it is meant for. -/
def InTurn (L : Ledger) (o : Op) : Prop := InOrder L o ∧ WritesFresh L o

instance (L : Ledger) (o : Op) : Decidable (InTurn L o) := by
  unfold InTurn
  infer_instance

def Founded (L : Ledger) (o : Op) : Prop := Grounded L o ∧ o.WellSeen ∧ o.Admits

theorem readmissionsOf_eq_nil_iff {runId : RunId} :
    L.readmissionsOf runId = [] ↔ some runId ∉ L.readmissions.map Prod.fst := by
  rw [readmissionsOf_eq, List.reverse_eq_nil_iff, List.map_eq_nil_iff, List.filter_eq_nil_iff,
    List.mem_map]
  constructor
  · rintro h ⟨e, he, hr⟩
    exact h e he (decide_eq_true hr)
  · intro h e he hr
    exact h ⟨e, he, of_decide_eq_true hr⟩

theorem Lineage.after (hL : Orderly L) (h : L.Lineage sha) (host : Host) {o : Op}
    (hok : InTurn L o) (hpre : Founded L o) :
    ((ledgerSemantics sha).after host L o).Lineage sha := by
  have heffect := Effect.after sha host L o
  have hstep := admissionStep_after sha host L hpre.2.2
  generalize (ledgerSemantics sha).after host L o = L' at heffect hstep ⊢
  have hadvance := heffect.advance hok.1 hpre.1
  have hstay := payloadsStay_of_tasksKept heffect.tasksKept
  have hcomplete := heffect.completeKept hok.2 hpre.2.1
  have superseded : ∀ e ∈ L.readmissions, L'.Superseded e.2 := fun e he =>
    Superseded.later hL.sound hadvance heffect.tasksKept (h.superseded e he)
  have replayable (hplans : ∀ r d, L.plans.lookup r = some d → L'.plans.lookup r = some d) :
      ∀ e ∈ L.readmissions, L'.Replayable sha e.2 := fun e he =>
    Replayable.later (h.replayable e he) hplans hstay hcomplete
  cases hstep with
  | kept hn =>
    refine ⟨?_, ?_, ?_, ?_⟩ <;> rw [hn.readmissions]
    · exact superseded
    · exact replayable fun r d hr => hn.plans ▸ hr
    · exact h.runs
    · exact h.tasks
  | loaded _ _ plans readmissions =>
    refine ⟨?_, ?_, ?_, ?_⟩ <;> rw [readmissions]
    · exact superseded
    · exact replayable plans
    · exact h.runs
    · exact h.tasks
  | @readmitted previousRunId dependencyRunId revision digest new proof _ admitted payloads plans
      readmissions cancelled runs =>
    have hplans : ∀ r d, L.plans.lookup r = some d → L'.plans.lookup r = some d := by
      intro r d hr
      rw [plans, Table.lookup_put, if_neg, hr]
      rintro rfl
      rw [admitted.freshPlan] at hr
      cases hr
    have hnew : L'.payloadOf new.id = some new := by rw [payloads, if_pos rfl]
    refine ⟨?_, ?_, ?_, ?_⟩ <;> rw [readmissions]
    · rw [List.forall_mem_cons]
      exact ⟨Admitted.superseded admitted hnew runs cancelled, superseded⟩
    · rw [List.forall_mem_cons]
      obtain ⟨row, hrow, hs, hcommit⟩ := admitted.published
      refine ⟨⟨?_, ⟨new, admitted.newTaskId ▸ hnew, admitted.newPayload.symm⟩, row, ?_, hs,
        hcommit⟩, replayable hplans⟩
      · rw [admitted.planRevision, admitted.planDigest, plans, Table.lookup_put, if_pos rfl]
      · rw [admitted.dependencyRunId]
        exact hcomplete _ row hrow hs
    · rw [List.map_cons, List.nodup_cons]
      exact ⟨readmissionsOf_eq_nil_iff.mp admitted.first, h.runs⟩
    · rw [List.map_cons, List.nodup_cons]
      refine ⟨fun hmem => ?_, h.tasks⟩
      -- the task would have been superseded before, so it would be cancelled
      obtain ⟨e, he, heq⟩ := List.mem_map.mp hmem
      obtain ⟨old, _, hold, hs, -⟩ := h.superseded e he
      obtain ⟨task, _, htask, hready, -⟩ := admitted.previous
      rw [heq, htask, Option.some.injEq] at hold
      rw [hold, hs] at hready
      exact absurd hready (by decide)

/-- The theory of runs whose blind writes land in turn. -/
def descent (sha : Sha256) : Theory (ledgerSemantics sha) where
  inv L := Orderly L ∧ L.Tracked ∧ L.Lineage sha
  ok := InTurn
  pre := Founded
  rely := Advanced
  inv_after {L o} host hL hok hpre := by
    have heffect := Effect.after sha host L o
    obtain ⟨horderly, htracked, hlineage⟩ := hL
    exact ⟨heffect.orderly horderly hok.1 hpre.1,
      (heffect.advance hok.1 hpre.1).tracked horderly.sound htracked,
      Lineage.after horderly hlineage host hok hpre⟩

theorem descent_shared : (descent sha).Shared :=
  fun L o host _ hok hpre => (Effect.after sha host L o).advanced hok.1 hpre.1

theorem descent_safe (c : Command) (L : Ledger) :
    (descent sha).Safe c.script (fun _ _ => True) L := by
  refine Theory.Safe.strengthen (T := grounding sha) (φ := fun o => o.WellSeen ∧ o.Admits)
    (fun _ h => h.1) (fun _ _ h => h.1) (fun _ _ h => h) (fun _ _ hg ho => ⟨hg, ho⟩)
    (script_safe c) ?_
  exact (Script.script_commanded c).mono (fun _ h => ⟨h.wellSeen, h.admits⟩) fun _ _ => trivial

theorem lineage_empty : Ledger.empty.Lineage sha where
  superseded e he := by cases he
  replayable e he := by cases he
  runs := List.nodup_nil
  tasks := List.nodup_nil

theorem readmissions_after (host : Host) {o : Op} (ho : o.Admits) :
    L.readmissions ⊆ ((ledgerSemantics sha).after host L o).readmissions := by
  have hstep := admissionStep_after sha host L ho
  generalize (ledgerSemantics sha).after host L o = L' at hstep ⊢
  cases hstep with
  | kept hn => rw [hn.readmissions]; exact List.Subset.refl _
  | loaded _ _ _ readmissions => rw [readmissions]; exact List.Subset.refl _
  | readmitted _ _ _ readmissions => rw [readmissions]; exact List.subset_cons_self _ _

/-- A readmission that has succeeded is on record, under what it is compared with when it is asked
for again. -/
theorem readmit_recorded {previousRunId dependencyRunId : RunId} {revision : String}
    {digest : Hash} {task : TaskPayload} {host : Host} {reply : Reply}
    (h : L.readmit sha host previousRunId dependencyRunId revision digest task =
      .ok (reply, L')) :
    ∃ proof, (some previousRunId, proof) ∈ L'.readmissions ∧ proof.planDigest = digest ∧
      proof.dependencyRunId = dependencyRunId ∧
      reply = { status := .readmitted, taskId := proof.newTaskId } := by
  rcases readmit_spec h with ⟨proof, hfound, hdigest, hdependency, hreply, rfl⟩ |
    ⟨proof, _, hadmitted, -, hreply, rfl⟩
  · rw [readmissionsOf_eq] at hfound
    have hmem : proof ∈ ((L'.readmissions.filter fun e =>
        e.1 = some previousRunId).map Prod.snd).reverse := by
      rw [hfound]
      exact List.mem_singleton_self _
    rw [List.mem_reverse, List.mem_map] at hmem
    obtain ⟨e, he, rfl⟩ := hmem
    obtain ⟨he, hrun⟩ := List.mem_filter.mp he
    exact ⟨e.2, of_decide_eq_true hrun ▸ he, hdigest, hdependency, hreply⟩
  · refine ⟨proof, ?_, hadmitted.planDigest, hadmitted.dependencyRunId, ?_⟩
    · rw [readmissions, record_events]
      exact List.mem_cons_self
    · rw [hadmitted.newTaskId]
      exact hreply

/-- The next action of a run asks for a readmission, which succeeds. -/
def ReadmitsNext (sha : Sha256) (as : List (Action Command Host)) (a : Action Command Host)
    (previousRunId dependencyRunId : RunId) (digest : Hash) (reply : Reply) : Prop :=
  ∃ n host revision task, a = .step n host ∧
    (World.run (ledgerSemantics sha) Command.script emptyWorld as).issued a =
      some (.transaction <| Txn.readmit previousRunId dependencyRunId revision digest task) ∧
    ∃ L', Ledger.readmit (ledgerAfter sha as) sha host previousRunId dependencyRunId revision
      digest task = .ok (reply, L')

theorem after_transaction {t : Txn} {host : Host} {reply : Reply}
    (h : t.run sha host L = .ok (reply, L')) :
    (ledgerSemantics sha).after host L (.transaction t) = L' := by
  simp only [Semantics.after, ledgerSemantics, h]

theorem ReadmitsNext.recorded {as : List (Action Command Host)} {a : Action Command Host}
    {previousRunId dependencyRunId : RunId} {digest : Hash} {reply : Reply}
    (h : ReadmitsNext sha as a previousRunId dependencyRunId digest reply) :
    ∃ proof, (some previousRunId, proof) ∈ (ledgerAfter sha (as ++ [a])).readmissions ∧
      proof.planDigest = digest ∧ proof.dependencyRunId = dependencyRunId ∧
      reply = { status := .readmitted, taskId := proof.newTaskId } := by
  obtain ⟨n, host, revision, task, rfl, hissued, L', hreadmit⟩ := h
  have hafter : ledgerAfter sha (as ++ [.step n host]) = L' := by
    obtain ⟨k, hk⟩ := World.issued_step_eq_some hissued
    rw [ledgerAfter, World.run_append, World.run_cons, World.run_nil, World.act_step_call hk]
    exact after_transaction hreadmit
  rw [hafter]
  exact readmit_recorded hreadmit

/-- Whatever commands run side by side, along a chain of readmissions no path is allowed that was
not. If, besides, the writes that do not look at what they write land in turn, the runs of the
chain are within the budget of its first task, no task is superseded twice, and a readmission that
has succeeded is answered in the same way ever after, the ledger staying as it is. -/
theorem readmission_keeps_authority (sha : Sha256) (as : List (Action Command Host)) :
    (∀ a b old new, ReflTransGen (ledgerAfter sha as).Supersedes a b →
      (ledgerAfter sha as).payloadOf a = some old →
      (ledgerAfter sha as).payloadOf b = some new →
        ∀ path, pathAllowed path new.allowedPaths → pathAllowed path old.allowedPaths) ∧
    (World.Guarded (ledgerSemantics sha) Command.script InTurn emptyWorld as →
      (∀ t ts payload, (t :: ts).IsChain (ledgerAfter sha as).Supersedes →
        (ledgerAfter sha as).payloadOf t = some payload →
          ((t :: ts).map (ledgerAfter sha as).attempts).sum ≤ payload.maxAttempts) ∧
      (∀ t a b, (ledgerAfter sha as).Supersedes t a → (ledgerAfter sha as).Supersedes t b →
        a = b) ∧
      ∀ bs a cs previousRunId dependencyRunId digest reply, as = bs ++ a :: cs →
        ReadmitsNext sha bs a previousRunId dependencyRunId digest reply →
          ∀ host revision task,
            Ledger.readmit (ledgerAfter sha as) sha host previousRunId dependencyRunId revision
              digest task = .ok (reply, ledgerAfter sha as)) := by
  constructor
  · intro a b old new hab hold hnew
    refine pathsKept_of_supersedes ?_ hab hold hnew
    have hkept : ∀ (L : Ledger) (o : Op) (host : Host),
        (∀ e ∈ L.readmissions, L.PathsNarrowed e.2) → o.Admits →
          ∀ e ∈ ((ledgerSemantics sha).after host L o).readmissions,
            ((ledgerSemantics sha).after host L o).PathsNarrowed e.2 :=
      fun L o host hL ho => pathsNarrowed_after host ho hL
    apply Theory.run_invariant Script.script_admits hkept as
    intro e he
    cases he
  intro hguarded
  have hsafe : ∀ (c : Command) L, (descent sha).inv L →
      (descent sha).Safe c.script (fun _ _ => True) L := fun c L _ => descent_safe c L
  have hempty := Theory.sound_of_inv (T := descent sha) (ε := Exn) (α := Reply)
    ⟨orderly_empty, tracked_empty, lineage_empty⟩
  obtain ⟨-, htracked, hlineage⟩ := (descent_shared.sound_run hsafe hguarded hempty).1
  refine ⟨?_, ?_, ?_⟩
  · intro t ts payload hchain ht
    exact attempts_sum_le htracked hlineage.superseded hchain ht
  · rintro t a b ⟨e, he, rfl, rfl⟩ ⟨e', he', heq, rfl⟩
    rw [List.inj_on_of_nodup_map hlineage.tasks he' he heq]
  · intro bs a cs previousRunId dependencyRunId digest reply hsplit hreadmits host revision task
    obtain ⟨proof, hmem, rfl, rfl, rfl⟩ := hreadmits.recorded
    apply Lineage.replay hlineage
    -- readmissions stay on record for the rest of the run
    have happend : as = (bs ++ [a]) ++ cs := by rw [hsplit, List.append_assoc]; rfl
    rw [happend] at hguarded ⊢
    obtain ⟨hbefore, hafter⟩ := World.guarded_append.mp hguarded
    rw [World.run_append]
    exact descent_shared.run_rel (R := fun L L' => L.readmissions ⊆ L'.readmissions) hsafe
      (fun _ => List.Subset.refl _) (fun _ _ _ => List.Subset.trans)
      (fun L o host _ _ hpre => readmissions_after host hpre.2.2) hafter
      (descent_shared.sound_run hsafe hbefore hempty) hmem

namespace Scenario

/-- The tasks of a plan and the one that supersedes the second of them. -/
def chained : TaskId → TaskPayload
  | "u" => payload { kind := .gitLocal } "u"
  | "t" => { payload {} "t" with requiredReview := true, maxAttempts := 2 }
  | id => { payload {} id with
      requiredReview := true, maxAttempts := 1, dependencies := ["u"], workspace := "w2",
      writerKey := "k2" }

/-- A host on which every guard passes, every command succeeds and every review asks for a fix. -/
def repairing (plan : String × Hash × List TaskPayload) : Host := fun n o =>
  match o with
  | .readPlan => .ok plan
  | .claimGitState payload _ =>
    .ok (some (if payload.id = "n" then "c'" else "c"), some "main")
  | .loadWorkerReceipt runId => .ok (⟨runId, if runId = "u-A1-0" then "u" else "t", ["f"]⟩, "h", 1)
  | .loadReviewReport runId => .ok (⟨runId, "t", .needsFix, []⟩, "h", 1)
  | .snapshot payload _ _ => .ok { manifest with createdAt := payload.id }
  | .retainedEvidenceManifest .. => .ok ⟨⟨"s", "h", 1⟩, ⟨"a", "h", 1⟩, []⟩
  | .repairSourceCurrent .. => .ok ()
  | .itaVisibleStagedPaths _ => .ok (some [])
  | .capabilityPresent _ => .ok false
  | .readmissionProjects .. => .ok ()
  | .readmissionRetainedEvidence .. => .ok ()
  | .readmissionParents .. => .ok ["c'", "c"]
  | .readmissionDestination .. => .ok ()
  | o => host {} n o

def stamped : Sha256 := { Scenario.sha with snapshotId := Manifest.createdAt }

/-- The `n`-th process starts and takes its first `k` steps on this host. -/
def on (plan : String × Hash × List TaskPayload) (n k : ℕ) (c : Command) :
    List (Action Command Host) :=
  .start c :: List.replicate k (.step n (repairing plan))

def planned : String × Hash × List TaskPayload := ("p", "d", [chained "u", chained "t"])

/-- Task `u` is published, and the run of task `t` is rejected while a verification of it is still
going on. -/
def rejected : List (Action Command Host) :=
  on planned 0 2 .loadPlan ++ on planned 1 2 (.claim "w" none none) ++
    on planned 2 2 (.submit "u-A1-0" "l") ++ on planned 3 2 (.quiesce "u-A1-0" "l") ++
    on planned 4 9 (.verify "u-A1-0") ++ on planned 5 30 (.publish "u-A1-0") ++
    on planned 6 2 (.claim "w" none none) ++ on planned 7 2 (.submit "t-A1-0" "l") ++
    on planned 8 2 (.quiesce "t-A1-0" "l") ++ on planned 9 8 (.verify "t-A1-0") ++
    on planned 10 9 (.verify "t-A1-0") ++ on planned 11 2 (.importReview "t-A1-0")

/-- Task `t` is readmitted as task `n`. -/
def superseding : List (Action Command Host) :=
  rejected ++ (on ("q", "e", [chained "n"]) 12 2 <| Command.readmit "t-A1-0" "u-A1-0")

def revived : List (Action Command Host) :=
  superseding ++ [.step 9 (repairing planned)] ++ on planned 13 2 (.importReview "t-A1-0") ++
    on planned 14 2 (.claim "w" none none) ++ on planned 15 2 (.claim "w" none none)

end Scenario

set_option maxRecDepth 8000 in
open Scenario in
theorem readmission_keeps_authority_superseding :
    (["t", "n"].map (ledgerAfter stamped superseding).attempts).sum ≤ 2 := by
  have hchain : (ledgerAfter stamped superseding).Supersedes "t" "n" := by
    unfold Supersedes
    decide
  exact ((readmission_keeps_authority stamped superseding).2 (by decide)).1 "t" ["n"]
    (chained "t") (.cons_cons hchain (.singleton _)) rfl

set_option maxRecDepth 8000 in
open Scenario in
/-- A verification that lands after the task was superseded brings it back, and the chain has more
runs than its first task was allowed. -/
theorem not_always_within_attempts : ¬ ∀ (sha : Sha256) (as : List (Action Command Host))
    (t : TaskId)
    (ts : List TaskId) (payload : TaskPayload), (t :: ts).IsChain (ledgerAfter sha as).Supersedes →
      (ledgerAfter sha as).payloadOf t = some payload →
        ((t :: ts).map (ledgerAfter sha as).attempts).sum ≤ payload.maxAttempts := by
  intro h
  have hchain : (ledgerAfter stamped revived).Supersedes "t" "n" := by
    unfold Supersedes
    decide
  have hsum := h stamped revived "t" ["n"] (chained "t") (.cons_cons hchain (.singleton _)) rfl
  exact absurd hsum (by decide)

end OrchKit
