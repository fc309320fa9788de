import OrchKit.Bridge.Intent
import OrchKit.Bridge.Steps

/-! # What the preparation of a patch touches

Up to the dispatch a call observes the ledger, the store and the workspace, and writes nothing
but the journal of intents.
-/

namespace OrchKit.Bridge

open Program Routine

def Act.journals : Act → Prop
  | makeJournal | makeIntentRun _ | stageIntent .. | linkIntent .. | unstageIntent .. => True
  | _ => False

def Op.calm : Op → Prop
  | .act a => a.reads ∨ a.journals
  | o => o.reads

variable {m : Machine}

theorem calm_of_reads {α : Type} {p : Routine α} (h : p.Reads) : p.Issues Op.calm := by
  refine Prog.Within.mono h (fun o ho => ?_) fun _ h => h
  cases o with
  | ledger o => cases ho
  | look l => exact ho
  | act a => exact .inl ho

theorem calm_act {a : Act} (ha : a.journals) : (act a).Issues Op.calm :=
  ⟨.inr ha, fun x => calm_of_reads (reads_ofChecked x)⟩

theorem calm_onError {α : Type} {p : Routine α} {cleanup : Routine Unit} (hp : p.Issues Op.calm)
    (hc : cleanup.Issues Op.calm) : (onError p cleanup).Issues Op.calm :=
  Prog.Issues.catching hp fun _ => Prog.Issues.bind hc fun _ => trivial

theorem reads_scope {binding : WorkerRunBinding} {target : String} :
    (scope binding target).Reads :=
  Prog.Issues.bind (reads_act trivial) fun _ => reads_require _

theorem reads_readBounded {binding : WorkerRunBinding} {target : String} :
    (readBounded binding target).Reads :=
  Prog.Issues.bind reads_scope fun _ => Prog.Issues.bind (reads_act trivial) fun _ =>
    Prog.Issues.bind reads_scope fun _ => trivial

theorem reads_preflight {binding : WorkerRunBinding} {target : String}
    {baseline : FilePatchBaseline} : (preflight m binding target baseline).Reads :=
  Prog.Issues.bind reads_readBounded fun _ => Prog.Issues.bind (reads_require _) fun _ =>
    Prog.Issues.bind reads_readBounded fun _ => reads_require _

theorem calm_linkStagedIntent {rh oh : Digest} {name : TempName} {intent : IntentRecord}
    {authorize : Routine Unit} (hread : authorize.Reads) :
    (linkStagedIntent rh oh name intent authorize).Issues Op.calm := by
  refine Prog.Issues.bind (calm_of_reads (reads_act trivial)) fun _ =>
    Prog.Issues.bind (calm_of_reads (reads_succeeds hread)) fun live => ?_
  cases live with
  | false => trivial
  | true => exact Prog.Issues.bind (calm_act trivial) fun _ => trivial

theorem calm_confirmIntent {rh : Digest} {name : TempName} {intent : IntentRecord} :
    (confirmIntent rh name intent).Issues Op.calm :=
  Prog.Issues.bind (calm_onError (calm_act trivial) (calm_act trivial)) fun _ =>
    calm_of_reads (reads_act trivial)

theorem calm_confirmLinked {rh : Digest} {name : TempName} {intent : IntentRecord} :
    (confirmLinked rh name intent).Issues Op.calm :=
  Prog.Issues.bind calm_confirmIntent fun _ =>
    Prog.Issues.bind (calm_of_reads (reads_require _)) fun _ => trivial

theorem calm_publishIntent {name : TempName} {intent : IntentRecord} {authorize : Routine Unit}
    (hread : authorize.Reads) : (publishIntent m name intent authorize).Issues Op.calm := by
  unfold publishIntent
  refine Prog.Issues.bind (calm_act trivial) fun _ => Prog.Issues.bind (calm_act trivial) fun _ =>
    Prog.Issues.bind (calm_of_reads (reads_act trivial)) fun _ =>
    Prog.Issues.bind (calm_onError (calm_linkStagedIntent hread) (calm_act trivial))
      fun linked => ?_
  rcases linked with _ | _ | _
  · exact Prog.Issues.bind (calm_act trivial) fun _ => trivial
  · refine Prog.Issues.bind calm_confirmIntent fun observed => ?_
    split <;> trivial
  · exact Prog.Issues.catching calm_confirmLinked fun _ => trivial

theorem calm_createLocked {name : TempName} {intent : IntentRecord} {authorize : Routine Unit}
    (hread : authorize.Reads) : (createLocked m name intent authorize).Issues Op.calm := by
  unfold createLocked
  refine Prog.Issues.bind (calm_of_reads (reads_act trivial)) fun inventory =>
    Prog.Issues.bind (calm_of_reads (reads_look _)) fun found => ?_
  cases found with
  | recorded previous =>
    dsimp only
    split <;> trivial
  | unknown => trivial
  | absent =>
    dsimp only
    split
    · trivial
    · exact calm_publishIntent hread

theorem calm_createIntent {intent : IntentRecord} {authorize : Routine Unit}
    (hread : authorize.Reads) : (createIntent m intent authorize).Issues Op.calm := by
  unfold createIntent
  split
  · trivial
  refine Prog.Issues.bind (calm_of_reads (reads_succeeds hread)) fun live => ?_
  split
  · trivial
  refine Prog.Issues.catching ?_ fun _ => trivial
  unfold createOpened
  refine Prog.Issues.bind (calm_of_reads (reads_act trivial)) fun name =>
    Prog.Issues.bind (calm_act trivial) fun _ =>
    Prog.Issues.bind (calm_of_reads (reads_succeeds (reads_act trivial))) fun locked => ?_
  split
  · trivial
  · exact calm_createLocked hread

theorem calm_prepareNew {binding : WorkerRunBinding} {request : WorkerOperationRequest}
    {metadata : PatchReplacement} : (prepareNew m binding request metadata).Issues Op.calm := by
  unfold prepareNew
  refine Prog.Issues.bind (calm_of_reads (reads_act trivial)) fun _ =>
    Prog.Issues.bind (calm_of_reads (reads_succeeds reads_preflight)) fun ready => ?_
  split
  · trivial
  refine Prog.Issues.bind (calm_of_reads (reads_act trivial)) fun now =>
    Prog.Issues.bind (calm_of_reads (reads_require _)) fun _ => calm_createIntent ?_
  exact Prog.Issues.bind (reads_act trivial) fun _ => reads_scope

/-- Preparing a patch writes nothing but the journal. -/
theorem calm_prepare {binding : WorkerRunBinding} {request : WorkerOperationRequest}
    {replacement : FilePatchReplacement} :
    (prepare m binding request replacement).Issues Op.calm := by
  unfold prepare
  split
  · trivial
  split
  · trivial
  refine Prog.Issues.bind (calm_of_reads (reads_succeeds (reads_act trivial))) fun live => ?_
  split
  · trivial
  refine Prog.Issues.bind (calm_of_reads (reads_require _)) fun _ =>
    Prog.Issues.bind (calm_of_reads (reads_look _)) fun found => ?_
  cases found with
  | unknown => trivial
  | recorded intent =>
    dsimp only
    split <;> trivial
  | absent => exact Prog.Issues.catching calm_prepareNew fun _ => trivial

end OrchKit.Bridge
