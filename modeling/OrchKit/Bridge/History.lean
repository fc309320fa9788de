import OrchKit.Bridge.Refusal
import OrchKit.Bridge.Simulation

/-! # Histories of a patch

The calls for one operation, one after another, each cut off anywhere, with what others do
between them. Over a whole history the replacement is renamed over the target at most once,
and what is recorded as the outcome is what has happened.
-/

namespace OrchKit.Bridge

open Except Program Table Routine

/-- A call for a patch. -/
inductive PatchAction
  | apply (call : PatchCall) (replacement : FilePatchReplacement)
  | reconcile (call : PatchCall)

namespace PatchAction

def call : PatchAction → PatchCall
  | apply call _ => call
  | reconcile call => call

def prog (m : Machine) : PatchAction → Routine PatchReply
  | apply call replacement => call.apply m replacement
  | reconcile call => call.reconcile m

end PatchAction

theorem PatchAction.simulated {m : Machine} (action : PatchAction) {s : State} {n : ℕ} :
    Simulated m action.call (s, n) (fun _ => True) (action.prog m) (s, n) := by
  cases action with
  | apply call replacement => exact simulated_apply .refl
  | reconcile call => exact simulated_reconcile .refl

/-- What others may do between the calls for an operation: anything but change the directory of
the operation and, once it has been dispatched, its target. -/
structure Apart (rh oh : Digest) (s t : State) : Prop where
  findOp : t.runtime.findOp rh oh = s.runtime.findOp rh oh
  target : ∀ d, (s.runtime.chainAt rh oh).dispatch = some d →
    t.files.lookup d.target = s.files.lookup d.target

/-- The states, with the numbers of installations so far, that are reached by calls for one
operation, while others do what `others` allows. -/
inductive History (m : Machine) (others : State → State → Prop) (runId : RunId)
    (operationId : String) (c : State × ℕ) : State × ℕ → Prop
  | start : History m others runId operationId c c
  | call {c' : State × ℕ} (h : History m others runId operationId c c') (action : PatchAction)
    (hr : action.call.request.binding.runId = runId)
    (ho : action.call.request.operationId = operationId) (envs : List Env) :
    History m others runId operationId c ((action.prog m).exec (counted m installs) envs c').2
  | others {s t : State} {n : ℕ} (h : History m others runId operationId c (s, n))
    (ha : others s t) : History m others runId operationId c (t, n)

variable {m : Machine} {others : State → State → Prop} {runId : RunId} {operationId : String}
  {c c' c'' : State × ℕ} {s t : State} {n k : ℕ} {call : PatchCall}

/-- What every transition and everybody else keeps holds along every history. -/
theorem History.invariant {J : State × ℕ → Prop} (h : History m others runId operationId c c')
    (hstep : ∀ c c', PatchStep m (m.digests.id runId) (m.digests.id operationId) c c' → J c → J c')
    (hothers : ∀ s t n, others s t → J (s, n) → J (t, n)) (hc : J c) : J c' := by
  induction h with
  | start => exact hc
  | @call c' _ action hr ho envs ih =>
    obtain ⟨s, n⟩ := c'
    have hsimulated : Simulated m action.call (s, n) (fun _ => True) (action.prog m) (s, n) :=
      action.simulated
    have hreach := (hsimulated.exec .refl fun env (_ : env ∈ envs) => trivial).1
    rw [PatchCall.Reaches, PatchCall.runHash, PatchCall.operationHash, hr, ho] at hreach
    generalize ((action.prog m).exec (counted m installs) envs (s, n)).2 = c'' at hreach ⊢
    induction hreach with
    | refl => exact ih
    | tail _ h ih => exact hstep _ _ h ih
  | others _ ha ih => exact hothers _ _ _ ha ih

theorem Apart.chainAt {rh oh : Digest} (h : Apart rh oh s t) :
    t.runtime.chainAt rh oh = s.runtime.chainAt rh oh := by
  rw [Runtime.chainAt, h.findOp, Runtime.chainAt]

theorem Apart.tracked {rh oh : Digest} (h : Apart rh oh s t) (hs : Tracked m rh oh (s, n)) :
    Tracked m rh oh (t, n) := by
  rw [Tracked, h.chainAt]
  exact Stage.congr hs h.target

theorem History.tracked (h : History m (Apart (m.digests.id runId) (m.digests.id operationId)) runId
    operationId c c') (hc : Tracked m (m.digests.id runId) (m.digests.id operationId) c) :
    Tracked m (m.digests.id runId) (m.digests.id operationId) c' :=
  h.invariant (fun _ _ => PatchStep.tracked) (fun _ _ _ => Apart.tracked) hc

theorem tracked_of_absent {rh oh : Digest} (h : s.runtime.findOp rh oh = none) :
    Tracked m rh oh (s, 0) := by
  rw [Tracked, Runtime.chainAt_of_findOp_none h]
  exact .blank

/-- A settled operation stays settled. -/
theorem History.settled (h : History m (Apart (m.digests.id runId) (m.digests.id operationId)) runId
    operationId (s, n) (t, k)) {chain : Chain}
    (hs : s.runtime.chainAt (m.digests.id runId) (m.digests.id operationId) = chain)
    (hr : chain.result.isSome) :
    t.runtime.chainAt (m.digests.id runId) (m.digests.id operationId) = chain ∧ k = n := by
  refine h.invariant (J := fun c => c.1.runtime.chainAt (m.digests.id runId)
    (m.digests.id operationId) = chain ∧ c.2 = n) ?_ ?_ ⟨hs, rfl⟩
  · rintro c c' hstep ⟨hc, hn⟩
    cases hstep with
    | journal => exact ⟨hc, hn⟩
    | store h =>
      refine ⟨?_, hn⟩
      rw [h.chain]
      exact hc
    | record hr' ho ha hw h =>
      have hopen := ha.open_
      rw [State.chainFor, hr', ho] at hopen
      simp only at hc
      rw [hc] at hopen
      rw [hopen] at hr
      cases hr
    | fill => exact ⟨hc, hn⟩
    | discard => exact ⟨hc, hn⟩
    | install hd hp hr' =>
      simp only at hc
      rw [hc] at hr'
      rw [hr'] at hr
      cases hr
  · rintro s t k ha ⟨hc, hk⟩
    exact ⟨ha.chainAt.trans hc, hk⟩

/-! ### Reconciliation writes no files -/

/-- The operation writes no bytes to a file of the workspace and renames none. -/
def Op.spares : Op → Prop
  | .act (.createFile _) | .act (.write ..) | .act (.copyMetadata ..) | .act (.rename ..) => False
  | _ => True

theorem spares_of_reads {α : Type} {p : Routine α} (h : p.Reads) : p.Issues Op.spares := by
  refine Prog.Within.mono h (fun o ho => ?_) fun _ h => h
  cases o with
  | ledger o => cases ho
  | look l => trivial
  | act a =>
    cases a with
    | createFile | write | copyMetadata | rename => cases ho
    | _ => trivial

theorem spares_act {a : Act} (ha : (Op.act a).spares) : (act a).Issues Op.spares :=
  ⟨ha, fun x => spares_of_reads (reads_ofChecked x)⟩

theorem spares_onError {α : Type} {p : Routine α} {cleanup : Routine Unit}
    (hp : p.Issues Op.spares) (hc : cleanup.Issues Op.spares) :
    (onError p cleanup).Issues Op.spares :=
  Prog.Issues.catching hp fun _ => Prog.Issues.bind hc fun _ => trivial

section Append

variable {record : ExecutionRecord} {authorize : Routine Unit} {name : TempName} {rh oh : Digest}

theorem spares_linkStaged (hread : authorize.Reads) :
    (linkStaged rh oh name record authorize).Issues Op.spares := by
  refine Prog.Issues.bind (spares_act trivial) fun _ =>
    Prog.Issues.bind (spares_of_reads (reads_succeeds hread)) fun live => ?_
  cases live with
  | false => trivial
  | true => exact Prog.Issues.bind (spares_act trivial) fun _ => trivial

theorem spares_publish (hread : authorize.Reads) :
    (publish m name record authorize).Issues Op.spares := by
  refine Prog.Issues.bind (spares_act trivial) fun _ => Prog.Issues.bind (spares_act trivial)
    fun _ => Prog.Issues.bind (spares_act trivial) fun _ => Prog.Issues.bind (spares_act trivial)
    fun _ => Prog.Issues.bind (spares_act trivial) fun _ =>
    Prog.Issues.bind (spares_onError (spares_linkStaged hread) (spares_act trivial))
      fun linked => ?_
  cases linked with
  | false => exact Prog.Issues.bind (spares_act trivial) fun _ => trivial
  | true =>
    refine Prog.Issues.catching ?_ fun _ => trivial
    exact Prog.Issues.bind (spares_onError (spares_act trivial) (spares_act trivial)) fun _ =>
      Prog.Issues.bind (spares_act trivial) fun _ => trivial

theorem spares_appendChecked (hread : authorize.Reads) :
    (appendChecked m name record authorize).Issues Op.spares := by
  unfold appendChecked
  refine Prog.Issues.bind (spares_act trivial) fun _ =>
    Prog.Issues.bind (spares_of_reads (reads_look _)) fun census =>
    Prog.Issues.bind (spares_of_reads (reads_require _)) fun _ =>
    Prog.Issues.bind (spares_of_reads (reads_look _)) fun found =>
    Prog.Issues.bind (spares_of_reads (reads_recordsOf found)) fun chain => ?_
  split
  · split
    · exact Prog.Issues.bind (spares_of_reads (reads_acknowledgeExisting hread)) fun _ => trivial
    · trivial
  split
  · trivial
  refine Prog.Issues.bind (spares_of_reads (reads_look _)) fun intent => ?_
  split
  · split
    · trivial
    split
    · trivial
    split
    · exact Prog.Issues.bind (spares_of_reads (reads_acknowledgeIntent hread)) fun _ =>
        spares_publish hread
    · exact spares_publish hread
  · trivial

theorem spares_append (hread : authorize.Reads) :
    (PatchCall.append m record authorize).Issues Op.spares := by
  refine Prog.Issues.bind ?_ fun reply => ?_
  · unfold append
    split
    · trivial
    refine Prog.Issues.bind (spares_of_reads (reads_succeeds (reads_act trivial))) fun _ => ?_
    split
    · trivial
    refine Prog.Issues.bind (spares_of_reads (reads_succeeds hread)) fun _ => ?_
    split
    · trivial
    exact Prog.Issues.catching (Prog.Issues.bind (spares_act trivial) fun _ =>
      spares_appendChecked hread) fun _ => trivial
  · split <;> trivial

end Append

theorem reads_demand {α : Type} {o : Option α} {e : Exn} : (demand o e).Reads := by
  cases o <;> trivial

theorem reads_readTarget : call.readTarget.Reads :=
  Prog.Issues.bind reads_scope fun _ => Prog.Issues.bind (reads_act trivial) fun _ => trivial

theorem reads_openPatchTarget : call.openPatchTarget.Reads :=
  Prog.Issues.bind (reads_act trivial) fun _ => Prog.Issues.bind reads_scope fun _ =>
    Prog.Issues.bind (reads_act trivial) fun _ => Prog.Issues.bind reads_recheck fun _ => trivial

variable {handle : Handle} {intent : IntentRecord} {d : DispatchRecord} {p : PublicationRecord}
  {publication : Option PublicationRecord} {named : Option FileSignature} {kind : BasisKind}

theorem spares_settle {disposition : Disposition} {content : Content} {authorize : Routine Unit}
    (hread : authorize.Reads) :
    (call.settle m intent d publication disposition kind content authorize).Issues Op.spares :=
  Prog.Issues.bind (spares_of_reads reads_base) fun _ =>
    Prog.Issues.bind (spares_append hread) fun _ => trivial

theorem spares_settleApplied :
    (call.settleApplied m handle intent d p named).Issues Op.spares :=
  Prog.Issues.bind (spares_of_reads (reads_require _)) fun _ =>
    Prog.Issues.bind (spares_of_reads reads_authorizedRecheck) fun _ =>
    Prog.Issues.bind (spares_act trivial) fun _ =>
    Prog.Issues.bind (spares_of_reads reads_readTarget) fun _ =>
    Prog.Issues.bind (spares_of_reads (reads_require _)) fun _ =>
    spares_settle reads_authorizedRecheck

theorem spares_discardStaged {temp : String} :
    (call.discardStaged handle temp p named).Issues Op.spares :=
  Prog.Issues.bind (spares_of_reads reads_demand) fun _ =>
    Prog.Issues.bind (spares_act trivial) fun _ =>
    Prog.Issues.bind (spares_of_reads (reads_require _)) fun _ =>
    Prog.Issues.bind (spares_of_reads reads_authorizedRecheck) fun _ =>
    Prog.Issues.bind (spares_act trivial) fun _ =>
    Prog.Issues.bind (spares_of_reads (reads_require _)) fun _ =>
    Prog.Issues.bind (spares_act trivial) fun _ => spares_act trivial

theorem spares_settleOriginal :
    (call.settleOriginal m handle intent d publication kind).Issues Op.spares :=
  Prog.Issues.bind (spares_of_reads reads_authorizedRecheck) fun _ =>
    Prog.Issues.bind (spares_act trivial) fun _ =>
    Prog.Issues.bind (spares_of_reads (reads_require _)) fun _ =>
    Prog.Issues.bind (spares_of_reads reads_readTarget) fun _ =>
    Prog.Issues.bind (spares_of_reads (reads_require _)) fun _ =>
    spares_settle reads_authorizedRecheck

theorem spares_reconcileDispatched :
    (call.reconcileDispatched m intent d publication).Issues Op.spares := by
  refine Prog.Issues.bind (spares_of_reads reads_openPatchTarget) fun _ =>
    Prog.Issues.bind (spares_of_reads (reads_require _)) fun _ =>
    Prog.Issues.bind (spares_act trivial) fun _ => Prog.Issues.bind (spares_act trivial) fun _ => ?_
  cases publication with
  | some p =>
    dsimp only
    split
    · exact spares_settleApplied
    · exact Prog.Issues.bind (spares_of_reads (reads_require _)) fun _ =>
        Prog.Issues.bind spares_discardStaged fun _ => spares_settleOriginal
  | none =>
    exact Prog.Issues.bind (spares_of_reads (reads_require _)) fun _ =>
      Prog.Issues.bind (spares_of_reads (reads_require _)) fun _ => spares_settleOriginal

theorem spares_reconcile : (call.reconcile m).Issues Op.spares := by
  refine Prog.Issues.catching ?_ fun _ => trivial
  unfold PatchCall.reconcileLocked
  refine Prog.Issues.bind (spares_of_reads reads_validate) fun _ =>
    Prog.Issues.bind (spares_of_reads (reads_look _)) fun found => ?_
  split
  · refine Prog.Issues.bind (spares_of_reads reads_demand) fun d => ?_
    split
    · trivial
    split
    · exact spares_of_reads reads_historicalResult
    · refine Prog.Issues.bind (spares_of_reads (reads_look _)) fun found => ?_
      split
      · exact spares_reconcileDispatched
      · trivial
  · trivial

/-! ### The outcome -/

theorem Stage.le_one {files : Files} {chain : Chain} (h : Stage m files chain n) : n ≤ 1 := by
  cases h with
  | blank | dispatched | published | installed => omega
  | settled hn => split at hn <;> omega

theorem Stage.eq_of_result {files : Files} {chain : Chain} {r : ResultRecord}
    (h : Stage m files chain n) (hr : chain.result = some r) :
    n = if r.disposition = .applied then 1 else 0 := by
  cases h with
  | settled hn =>
    cases hr
    exact hn
  | _ => cases hr

/-- Over every history of an operation the replacement is installed at most once; if it is recorded
as applied it has been, and if as not applied it has not and never will be. Reconciliation
writes no file and renames none. -/
theorem installed_atMostOnce (hnew : s.runtime.opDir m.digests runId operationId = none)
    (h : History m (Apart (m.digests.id runId) (m.digests.id operationId)) runId operationId
      (s, 0) (t, n)) :
    n ≤ 1 ∧
    (∀ r, (t.runtime.chainAt (m.digests.id runId) (m.digests.id operationId)).result = some r →
      match r.disposition with
      | .applied => n = 1
      | .notApplied => n = 0 ∧ ∀ t' n', History m
          (Apart (m.digests.id runId) (m.digests.id operationId)) runId operationId (t, n)
            (t', n') →
          n' = 0) ∧
    ∀ call : PatchCall, (call.reconcile m).Issues Op.spares := by
  have ht := h.tracked (tracked_of_absent hnew)
  refine ⟨Stage.le_one ht, fun r hr => ?_, fun call => spares_reconcile⟩
  · have hn : n = _ := Stage.eq_of_result ht hr
    cases hd : r.disposition with
    | applied => rwa [hd, if_pos rfl] at hn
    | notApplied =>
      rw [hd, if_neg (by decide)] at hn
      exact ⟨hn, fun t' n' h' => (h'.settled rfl (by rw [hr]; rfl)).2.trans hn⟩

namespace Scenario

def patch : PatchCall := ⟨binding, request "o"⟩

def oneByte : FilePatchReplacement := ⟨⟨hexes '0', 0⟩, [7]⟩

def fresh : State where
  ledger := ledger
  files := Table.put ∅ "f" target

def writing : Env := { env with
  name := List.replicate 32 '0', written := 1, created := ⟨1, 3, 20, by decide⟩ }

/-- A call of `apply` that nothing disturbs. -/
def applied : State × ℕ :=
  (((PatchAction.apply patch oneByte).prog machine).exec (counted machine installs)
    (List.replicate 130 writing) (fresh, 0)).2

end Scenario

open OrchKit.Bridge.Scenario in
theorem installed_atMostOnce_applied : ∃ r,
    (applied.1.runtime.chainAt (machine.digests.id "r") (machine.digests.id "o")).result = some r ∧
      r.disposition = .applied ∧ applied.2 = 1 := by
  have hdisposition : (applied.1.runtime.chainAt (machine.digests.id "r")
      (machine.digests.id "o")).result.map ResultRecord.disposition = some .applied := by
    decide
  obtain ⟨r, hr, hd⟩ := Option.map_eq_some_iff.mp hdisposition
  have hnew : fresh.runtime.opDir machine.digests "r" "o" = none := rfl
  have hhistory : History machine (Apart (machine.digests.id "r") (machine.digests.id "o")) "r" "o"
      (fresh, 0) (applied.1, applied.2) := .call .start (.apply patch oneByte) rfl rfl _
  have h := (installed_atMostOnce hnew hhistory).2.1 r hr
  rw [hd] at h
  exact ⟨r, hr, hd, h⟩

end OrchKit.Bridge
