import OrchKit.Ledger.Admission
import OrchKit.Lifecycle.Coherence

/-! # Context packs built again

A claim builds the context pack of its run from the attempts its task has had so far;
`context` builds it again from the rows as they are by then. The task, the earlier
attempts and the run it was readmitted on stay as they were, so the two packs are the
same just as long as no later attempt of the task has left feedback.
-/

namespace OrchKit

open Except Program

namespace Ledger

variable {L L₁ L₂ : Ledger} {r : RunId} {run : Run} {t : TaskId} {excluded : Option RunId}

/-! ### The previous attempt -/

/-- The run is an attempt at the task, not the excluded one, and it left feedback. -/
structure LeftFeedback (L : Ledger) (t : TaskId) (excluded : Option RunId) (r : RunId)
    (run : Run) : Prop where
  found : L.runs.lookup r = some run
  taskId : run.taskId = t
  counted : some r ≠ excluded
  feedback : run.feedback.isSome

/-- The first of a sorted list comes before all the others. -/
theorem head?_insertionSort {α : Type} {before : α → α → Prop} [DecidableRel before]
    [Std.Total before] [IsTrans α before] {l : List α} {a : α}
    (h : (l.insertionSort before).head? = some a) : a ∈ l ∧ ∀ b ∈ l, b = a ∨ before a b := by
  have hsorted := List.pairwise_insertionSort before l
  have hmem : ∀ b, b ∈ l.insertionSort before ↔ b ∈ l := fun b => List.mem_insertionSort before
  generalize l.insertionSort before = sorted at h hsorted hmem
  cases sorted with
  | nil => cases h
  | cons x xs =>
    cases h
    constructor
    · exact (hmem a).mp List.mem_cons_self
    · intro b hb
      rcases List.mem_cons.mp ((hmem b).mpr hb) with rfl | hb
      · exact .inl rfl
      · exact .inr (List.rel_of_pairwise_cons hsorted hb)

theorem mem_previousAttempts {e : Sigma fun _ : RunId => Run} :
    e ∈ L.runs.entries.filter (fun e =>
      e.2.taskId = t ∧ some e.1 ≠ excluded ∧ e.2.feedback.isSome) ↔
      L.LeftFeedback t excluded e.1 e.2 := by
  rw [List.mem_filter, decide_eq_true_eq, ← AList.mem_lookup_iff, Option.mem_def]
  constructor
  · rintro ⟨hfound, htask, hcounted, hfeedback⟩
    exact ⟨hfound, htask, hcounted, hfeedback⟩
  · rintro ⟨hfound, htask, hcounted, hfeedback⟩
    exact ⟨hfound, htask, hcounted, hfeedback⟩

theorem previousAttempt_spec (h : L.previousAttempt t excluded = some (r, run)) :
    L.LeftFeedback t excluded r run ∧ ∀ r' run', L.LeftFeedback t excluded r' run' →
      run'.attempt ≤ run.attempt := by
  have : Std.Total fun a b : Sigma fun _ : RunId => Run => b.2.attempt ≤ a.2.attempt :=
    ⟨fun a b => Nat.le_total _ _⟩
  have : IsTrans (Sigma fun _ : RunId => Run) fun a b => b.2.attempt ≤ a.2.attempt :=
    ⟨fun a b c hab hbc => Nat.le_trans hbc hab⟩
  rw [previousAttempt, List.head?_map, Option.map_eq_some_iff] at h
  obtain ⟨e, he, heq⟩ := h
  cases heq
  obtain ⟨hmem, hfirst⟩ := head?_insertionSort he
  refine ⟨mem_previousAttempts.mp hmem, fun r' run' hleft => ?_⟩
  rcases hfirst ⟨r', run'⟩ (mem_previousAttempts.mpr hleft) with h | h
  · rw [← h]
  · exact h

theorem previousAttempt_eq_none (h : L.previousAttempt t excluded = none) (r : RunId) (run : Run) :
    ¬ L.LeftFeedback t excluded r run := by
  intro hleft
  have hmem := (mem_previousAttempts (e := ⟨r, run⟩)).mpr hleft
  rw [← List.mem_insertionSort fun a b : Sigma fun _ : RunId => Run =>
    b.2.attempt ≤ a.2.attempt] at hmem
  rw [previousAttempt, List.head?_map, Option.map_eq_none_iff, List.head?_eq_none_iff] at h
  rw [h] at hmem
  cases hmem

/-- The attempts of a task being numbered, which of them left feedback decides which is the
previous one. -/
theorem previousAttempt_congr {excluded' : Option RunId} (hn : L₁.Numbered)
    (h : ∀ r run, L.LeftFeedback t excluded r run ↔ L₁.LeftFeedback t excluded' r run) :
    L₁.previousAttempt t excluded' = L.previousAttempt t excluded := by
  rcases hold : L.previousAttempt t excluded with _ | ⟨r, run⟩
  · rcases hnew : L₁.previousAttempt t excluded' with _ | ⟨r', run'⟩
    · rfl
    · have hleft := (previousAttempt_spec hnew).1
      exact absurd ((h r' run').mpr hleft) (previousAttempt_eq_none hold r' run')
  · obtain ⟨hleft, hlast⟩ := previousAttempt_spec hold
    rcases hnew : L₁.previousAttempt t excluded' with _ | ⟨r', run'⟩
    · exact absurd ((h r run).mp hleft) (previousAttempt_eq_none hnew r run)
    · obtain ⟨hleft', hlast'⟩ := previousAttempt_spec hnew
      have hle := hlast' r run ((h r run).mp hleft)
      have hge := hlast r' run' ((h r' run').mpr hleft')
      have hfound := ((h r run).mp hleft).found
      have hid : r' = r := hn.distinct r' r run' run hleft'.found hfound
        (hleft'.taskId.trans hleft.taskId.symm) (by omega)
      subst hid
      rw [hleft'.found] at hfound
      cases hfound
      rfl

/-! ### Packs -/

def previousRun (L : Ledger) (taskId : TaskId) (excluded : Option RunId) : Option (RunId × Run) :=
  (L.previousAttempt taskId excluded).or ((L.readmissionProof taskId).bind fun proof =>
    (L.runs.lookup proof.previousRunId).map fun run => (proof.previousRunId, run))

/-- The pack that is built, whether or not it may be. -/
def packOf (L : Ledger) (taskId : TaskId) (task : Task) (runId : RunId) (attempt : ℕ)
    (claimGitHead : Option CommitId) (runPersisted : Bool) : ContextPack :=
  let previous := L.previousRun taskId (if runPersisted then some runId else none)
  { runId := runId
    taskId := taskId
    attempt := attempt
    planRevision := task.planRevision
    queueSeq := task.queueSeq
    claimGitHead := claimGitHead
    payload := task.payload
    feedback := previous.bind (·.2.feedback)
    previousRunId := previous.map (·.1)
    previousSnapshotId := previous.bind (·.2.snapshotId)
    readmission := L.readmissionProof taskId }

theorem buildContextPack_eq_ok_iff {view : View} {taskId : TaskId} {task : Task} {runId : RunId}
    {attempt : ℕ} {head : Option CommitId} {persisted : Bool} {pack : ContextPack} :
    L.buildContextPack view taskId task runId attempt head persisted = .ok pack ↔
      (∀ proof ∈ L.readmissionProof taskId, some proof.dependencyCommit = head) ∧
        L.packOf taskId task runId attempt head persisted = pack ∧
        ∃ size, view (.packSize pack) = .ok size ∧ size ≤ 32768 := by
  have hunfold : L.buildContextPack view taskId task runId attempt head persisted =
      (require (∀ proof ∈ L.readmissionProof taskId, some proof.dependencyCommit = head)
        (.value "readmission_claim_base_mismatch") >>= fun _ =>
        view (.packSize (L.packOf taskId task runId attempt head persisted)) >>= fun size =>
          require (size ≤ 32768) (.value ("context_pack_too_large:" ++ toString size)) >>= fun _ =>
            pure (L.packOf taskId task runId attempt head persisted)) := rfl
  simp only [hunfold, bind_eq_ok_iff, require_eq_ok_iff, pure_eq_ok_iff]
  constructor
  · rintro ⟨-, hbase, size, hsize, -, hle, rfl⟩
    exact ⟨hbase, rfl, size, hsize, hle⟩
  · rintro ⟨hbase, rfl, size, hsize, hle⟩
    exact ⟨(), hbase, size, hsize, (), hle, rfl⟩

/-! ### What stays -/

/-- What a later ledger has kept: the runs that had ended as they were, every run with its task,
its attempt and its commit, every task but for its status. New runs come after all earlier
attempts. -/
structure Carried (L L₁ : Ledger) : Prop where
  ended : ∀ r run, L.runs.lookup r = some run → ¬ Engaged run.state →
    L₁.runs.lookup r = some run
  runs : ∀ r run, L.runs.lookup r = some run → ∃ run', L₁.runs.lookup r = some run' ∧
    run'.taskId = run.taskId ∧ run'.attempt = run.attempt ∧
    run'.claimGitHead = run.claimGitHead
  tasks : ∀ t task, L.tasks.lookup t = some task →
    ∃ status, L₁.tasks.lookup t = some { task with status := status }
  proofs : ∀ t task, L.tasks.lookup t = some task →
    L₁.readmissionProof t = L.readmissionProof t
  attempts : ∀ t, L.attempts t ≤ L₁.attempts t
  newer : ∀ r run, L.runs.lookup r = none → L₁.runs.lookup r = some run →
    L.attempts run.taskId < run.attempt

theorem Carried.refl (L : Ledger) : Carried L L where
  ended _ _ h _ := h
  runs _ run h := ⟨run, h, rfl, rfl, rfl⟩
  tasks _ task h := ⟨task.status, h⟩
  proofs _ _ _ := rfl
  attempts _ := le_refl _
  newer r run hn h := by
    rw [hn] at h
    cases h

theorem Carried.trans (h : Carried L L₁) (h' : Carried L₁ L₂) : Carried L L₂ where
  ended r run hr hs := h'.ended r run (h.ended r run hr hs) hs
  runs r run hr := by
    obtain ⟨run', hr', ht, ha, hh⟩ := h.runs r run hr
    obtain ⟨run'', hr'', ht', ha', hh'⟩ := h'.runs r run' hr'
    exact ⟨run'', hr'', ht'.trans ht, ha'.trans ha, hh'.trans hh⟩
  tasks t task ht := by
    obtain ⟨status, ht'⟩ := h.tasks t task ht
    obtain ⟨status', ht''⟩ := h'.tasks t _ ht'
    exact ⟨status', ht''⟩
  proofs t task ht := by
    obtain ⟨status, ht'⟩ := h.tasks t task ht
    exact (h'.proofs t _ ht').trans (h.proofs t task ht)
  attempts t := (h.attempts t).trans (h'.attempts t)
  newer r run'' hn hr'' := by
    rcases hr' : L₁.runs.lookup r with _ | run'
    · have hlt := h'.newer r run'' hr' hr''
      have hle := h.attempts run''.taskId
      omega
    · have hlt := h.newer r run' hn hr'
      obtain ⟨run, hr, ht, ha, -⟩ := h'.runs r run' hr'
      rw [hr''] at hr
      cases hr
      rw [ht, ha]
      exact hlt

theorem TaskStep.told {task : Task} {row : Option Task} (h : TaskStep (some task) row) :
    ∃ status, row = some { task with status := status } := by
  cases h with
  | same => exact ⟨task.status, rfl⟩
  | blocked => exact ⟨.blocked, rfl⟩
  | cancelled => exact ⟨.cancelled, rfl⟩

theorem Started.lookup_of_found {runId : RunId} {task : Task} {row : Run}
    (h : Started L L₁ runId run task) (hr : L.runs.lookup r = some row) :
    L₁.runs.lookup r = some row := by
  have hne : r ≠ runId := by
    rintro rfl
    rw [h.fresh] at hr
    cases hr
  rw [h.lookup_ne hne]
  exact hr

theorem carried_of_queue (runs : L₁.runs = L.runs)
    (tasks : ∀ t, TaskStep (L.tasks.lookup t) (L₁.tasks.lookup t))
    (proofs : ∀ t task, L.tasks.lookup t = some task →
      L₁.readmissionProof t = L.readmissionProof t) : Carried L L₁ where
  ended r run hr _ := by
    rw [runs]
    exact hr
  runs r run hr := ⟨run, runs ▸ hr, rfl, rfl, rfl⟩
  tasks t task ht := by
    have hstep := tasks t
    rw [ht] at hstep
    exact TaskStep.told hstep
  proofs := proofs
  attempts t := by rw [attempts_of_runs_eq runs]
  newer r run hn hr := by
    rw [runs, hn] at hr
    cases hr

theorem Started.carried {runId : RunId} {task : Task} (h : Started L L₁ runId run task)
    (proofs : ∀ t task, L.tasks.lookup t = some task →
      L₁.readmissionProof t = L.readmissionProof t) : Carried L L₁ where
  ended r row hr _ := h.lookup_of_found hr
  runs r row hr := ⟨row, h.lookup_of_found hr, rfl, rfl, rfl⟩
  tasks t row ht := by
    by_cases hid : t = run.taskId
    · subst hid
      rw [h.claimable.found] at ht
      cases ht
      exact ⟨.inProgress, h.started⟩
    · have hstep := h.others t hid
      rw [ht] at hstep
      exact TaskStep.told hstep
  proofs := proofs
  attempts t := by
    rw [h.attempts]
    omega
  newer r row hn hr := by
    by_cases hid : r = runId
    · subst hid
      rw [h.lookup_self] at hr
      cases hr
      rw [h.attempt]
      omega
    · rw [h.lookup_ne hid, hn] at hr
      cases hr

theorem Moved.carried {runId : RunId} {run run' : Run} {status : Option TaskStatus}
    (h : Moved L L₁ runId run run' status) (move : Move run.state run'.state status)
    (proofs : ∀ t task, L.tasks.lookup t = some task →
      L₁.readmissionProof t = L.readmissionProof t) : Carried L L₁ where
  ended r row hr hs := by
    have hne : r ≠ runId := by
      rintro rfl
      rw [h.found] at hr
      cases hr
      exact hs move.source
    exact (h.runs r hne).trans hr
  runs r row hr := by
    by_cases hid : r = runId
    · subst hid
      rw [h.found] at hr
      cases hr
      exact ⟨run', h.moved, h.taskId, h.attempt, h.claimGitHead⟩
    · exact ⟨row, (h.runs r hid).trans hr, rfl, rfl, rfl⟩
  tasks t task ht := by
    by_cases hid : t = run.taskId
    · subst hid
      rw [h.told, ht]
      exact ⟨_, rfl⟩
    · exact ⟨task.status, (h.tasks t hid).trans ht⟩
  proofs := proofs
  attempts t := by rw [h.attempts]
  newer r row hn hr := by
    rw [h.noneNew r hn] at hr
    cases hr

/-- The run a readmission on record is of has been rejected. -/
def PriorsRejected (L : Ledger) : Prop :=
  ∀ e ∈ L.readmissions, ∃ run, L.runs.lookup e.2.previousRunId = some run ∧ run.state = .needsFix

theorem not_engaged_of_needsFix {s : RunState} (h : s = .needsFix) : ¬ Engaged s := by
  subst h
  simp [Engaged, writerLockRunStates, activeRunStates]

theorem mem_readmissions_of_proof {proof : ReadmissionProof}
    (h : L.readmissionProof t = some proof) : ∃ r, (r, proof) ∈ L.readmissions := by
  rw [readmissionProof, List.findSome?_eq_some_iff] at h
  obtain ⟨_, event, _, hevents, hevent, -⟩ := h
  refine ⟨event.runId, List.mem_filterMap.mpr ⟨event, ?_, ?_⟩⟩
  · rw [hevents]
    simp
  · obtain ⟨kind, taskId, runId⟩ := event
    cases kind with
    | taskReadmitted proof' =>
      simp only at hevent ⊢
      split at hevent
      · cases hevent
        rfl
      · cases hevent
    | _ => cases hevent

end Ledger

open Ledger

section Steps

variable {sha : Sha256} {L : Ledger}

theorem readmissionProof_after (host : Host) {o : Op} (ho : o.Admits) {t : TaskId} {task : Task}
    (ht : L.tasks.lookup t = some task) :
    ((ledgerSemantics sha).after host L o).readmissionProof t = L.readmissionProof t := by
  have hstep := admissionStep_after sha host L ho
  generalize (ledgerSemantics sha).after host L o = L' at hstep ⊢
  cases hstep with
  | kept hn => exact hn.proofs t
  | loaded _ _ _ _ proofs => exact proofs t
  | readmitted admitted _ _ _ _ _ proofs =>
    apply proofs
    rintro rfl
    rw [admitted.freshTask] at ht
    cases ht

theorem carried_after (host : Host) {o : Op} (hok : InOrder L o) (hpre : Grounded L o)
    (ho : o.Admits) : Carried L ((ledgerSemantics sha).after host L o) := by
  have hproofs : ∀ t task, L.tasks.lookup t = some task →
      ((ledgerSemantics sha).after host L o).readmissionProof t = L.readmissionProof t :=
    fun t task ht => readmissionProof_after host ho ht
  cases (Effect.after sha host L o).advance hok hpre with
  | queue runs tasks => exact carried_of_queue runs tasks hproofs
  | started h => exact h.carried hproofs
  | moved h move => exact h.carried move hproofs

theorem priorsRejected_after (host : Host) {o : Op} (hok : InOrder L o) (hpre : Grounded L o)
    (ho : o.Admits) (h : L.PriorsRejected) :
    ((ledgerSemantics sha).after host L o).PriorsRejected := by
  have hcarried : Carried L ((ledgerSemantics sha).after host L o) :=
    carried_after host hok hpre ho
  have hstep := admissionStep_after sha host L ho
  generalize (ledgerSemantics sha).after host L o = L' at hcarried hstep ⊢
  have hkept : ∀ e ∈ L.readmissions, ∃ run, L'.runs.lookup e.2.previousRunId = some run ∧
      run.state = .needsFix := by
    intro e he
    obtain ⟨run, hrun, hs⟩ := h e he
    exact ⟨run, hcarried.ended _ run hrun (not_engaged_of_needsFix hs), hs⟩
  intro e he
  cases hstep with
  | kept hn => exact hkept e (hn.readmissions ▸ he)
  | loaded _ _ _ readmissions => exact hkept e (readmissions ▸ he)
  | readmitted admitted _ _ readmissions _ runs =>
    rw [readmissions] at he
    rcases List.mem_cons.mp he with rfl | he
    · rw [runs]
      exact admitted.prior
    · exact hkept e he

/-- The theory of commands that do not overlap, for what every operation of theirs keeps. -/
def conducted (sha : Sha256) (inv : Ledger → Prop)
    (step : ∀ L host o, Orderly L → inv L → InOrder L o → Grounded L o → o.Admits →
      inv ((ledgerSemantics sha).after host L o)) : Theory (ledgerSemantics sha) where
  inv L := Orderly L ∧ inv L
  ok _ _ := True
  pre L o := InOrder L o ∧ Grounded L o ∧ o.Admits
  rely _ _ := False
  inv_after {L o} host hL _ hpre :=
    ⟨(Effect.after sha host L o).orderly hL.1 hpre.1 hpre.2.1,
      step L host o hL.1 hL.2 hpre.1 hpre.2.1 hpre.2.2⟩

/-- What every operation of a command keeps holds after every sequence of commands, wherever each
is cut off. -/
theorem conducted_session {inv : Ledger → Prop}
    (step : ∀ L host o, Orderly L → inv L → InOrder L o → Grounded L o → o.Admits →
      inv ((ledgerSemantics sha).after host L o))
    (cs : List (Command × List Host)) (hL : Orderly L) (h : inv L) :
    Orderly (session (ledgerSemantics sha) Command.script cs L) ∧
      inv (session (ledgerSemantics sha) Command.script cs L) := by
  have alone : (conducted sha inv step).Alone := ⟨fun _ _ => trivial, fun _ _ h => h⟩
  refine alone.session (fun c t ht => ?_) cs ⟨hL, h⟩
  have hboth : (sequential sha (fun _ => True) fun _ _ _ _ _ _ _ _ => trivial).Safe c.script
      (fun _ _ => True) t :=
    Theory.Alone.safe_of_both ⟨fun _ _ => trivial, fun _ _ h => h⟩
      (fun _ hs => ⟨trivial, hs.1⟩) (fun _ _ => ⟨trivial, id⟩) (fun _ _ h₁ h₂ => ⟨h₁, h₂⟩)
      (script_inOrder c) (script_safe c) ⟨ht.1, trivial⟩
  refine Theory.Safe.strengthen ?_ ?_ ?_ ?_ hboth (Script.script_admits c)
  · exact fun _ hs => ⟨hs.1, trivial⟩
  · exact fun _ _ => id
  · exact fun _ _ => id
  · exact fun _ _ hpre ho => ⟨hpre.1, hpre.2, ho⟩

end Steps

/-! ### Claims -/

namespace Ledger

/-- No later attempt at the task of the pack has left feedback. -/
def NoneLater (L : Ledger) (pack : ContextPack) : Prop :=
  ∀ r run, L.runs.lookup r = some run → run.taskId = pack.taskId → pack.attempt < run.attempt →
    run.feedback = none

/-- What the pack tells of a previous run is true of an earlier attempt at its task, or of the run
the task was readmitted on. -/
def FromEarlier (L : Ledger) (pack : ContextPack) : Prop :=
  match pack.previousRunId with
  | none => pack.feedback = none ∧ pack.previousSnapshotId = none
  | some r => ∃ run, L.runs.lookup r = some run ∧ pack.feedback = run.feedback ∧
      pack.previousSnapshotId = run.snapshotId ∧
      ((run.taskId = pack.taskId ∧ run.attempt < pack.attempt) ∨
        ∃ proof, pack.readmission = some proof ∧ proof.previousRunId = r)

/-- A claim has started a run and built this pack for it. -/
structure Packed (L L₁ : Ledger) (pack : ContextPack) (run : Run) (task : Task) : Prop where
  started : Started L L₁ pack.runId run task
  base : ∀ proof ∈ L.readmissionProof run.taskId, some proof.dependencyCommit = run.claimGitHead
  pack : L.packOf run.taskId task pack.runId run.attempt run.claimGitHead false = pack

variable {sha : Sha256} {host : Host} {L L₁ L₂ : Ledger} {r : RunId} {run row : Run} {task : Task}
  {t : TaskId} {excluded : Option RunId} {pack : ContextPack}

theorem Scanned.runs (h : Scanned L L₁) : L₁.runs = L.runs := by
  rcases h with rfl | ⟨projectId, rfl⟩
  · rfl
  · exact (scanQueue_spec projectId (fun e he => mem_queue he) (Demoted.refl L) {} rfl).1.runs

theorem Scanned.proofs (h : Scanned L L₁) (t : TaskId) :
    L₁.readmissionProof t = L.readmissionProof t := by
  rcases h with rfl | ⟨projectId, rfl⟩
  · rfl
  · exact (scanQueue_noneAdmitted projectId L.activeWriterLocks L.queue L {}).proofs t

theorem Scanned.packOf (h : Scanned L L₁) (taskId : TaskId) (task : Task) (runId : RunId)
    (attempt : ℕ) (head : Option CommitId) :
    L₁.packOf taskId task runId attempt head false =
      L.packOf taskId task runId attempt head false := by
  simp only [Ledger.packOf, previousRun, previousAttempt, h.runs, h.proofs]

theorem claim_packs {workerId : String} {projectId : Option ProjectId}
    {repairFromRunId : Option RunId} {reply : Reply}
    (h : L.claim sha host workerId projectId repairFromRunId = .ok (reply, L₁))
    (hpack : reply.context = some pack) :
    ∃ run task, Packed L L₁ pack run task ∧
      ∃ size, host 2 (.packSize pack) = .ok size ∧ size ≤ 32768 := by
  rcases claim_spec h with ⟨-, -, hnone⟩ |
    ⟨runId, run, task, hs, -, -, L₂, built, hscan, hbuild, hc⟩
  · rw [hpack] at hnone
    cases hnone
  · rw [hpack, Option.some.injEq] at hc
    subst hc
    rw [buildContextPack_eq_ok_iff, hscan.packOf, hscan.proofs] at hbuild
    obtain ⟨hbase, rfl, hsize⟩ := hbuild
    exact ⟨run, task, ⟨hs, hbase, rfl⟩, hsize⟩

theorem Packed.taskId (h : Packed L L₁ pack run task) : pack.taskId = run.taskId := by
  rw [← h.pack]
  rfl

theorem Packed.attempt (h : Packed L L₁ pack run task) : pack.attempt = run.attempt := by
  rw [← h.pack]
  rfl

theorem previousRun_cases (h : L.previousRun t excluded = some (r, run)) :
    L.previousAttempt t excluded = some (r, run) ∨
      ∃ proof, L.readmissionProof t = some proof ∧ proof.previousRunId = r ∧
        L.runs.lookup r = some run := by
  rw [previousRun, Option.or_eq_some_iff] at h
  rcases h with h | ⟨-, h⟩
  · exact .inl h
  · obtain ⟨proof, hproof, hfound⟩ := Option.bind_eq_some_iff.mp h
    obtain ⟨row, hrow, heq⟩ := Option.map_eq_some_iff.mp hfound
    cases heq
    exact .inr ⟨proof, hproof, rfl, hrow⟩

theorem previousRun_found (h : L.previousRun t excluded = some (r, run)) :
    L.runs.lookup r = some run := by
  rcases previousRun_cases h with h | ⟨_, -, -, h⟩
  · exact (previousAttempt_spec h).1.found
  · exact h

section Later

variable (hs : Started L L₁ r run task) (hL : L.board.Sound) (h : Carried L L₂)
include hs hL h

theorem earlier_kept {r' : RunId} (hr : L.runs.lookup r' = some row)
    (ht : row.taskId = run.taskId) : L₂.runs.lookup r' = some row :=
  h.ended r' row hr (hs.idle hL hr ht)

/-- As long as no later attempt leaves feedback, the attempts that left feedback are the earlier
ones. -/
theorem leftFeedback_iff (h₁ : Carried L₁ L₂)
    (hlater : ∀ r' row, L₂.runs.lookup r' = some row → row.taskId = run.taskId →
      run.attempt < row.attempt → row.feedback = none) (r' : RunId) (row : Run) :
    L.LeftFeedback run.taskId none r' row ↔ L₂.LeftFeedback run.taskId (some r) r' row := by
  constructor
  · rintro ⟨hfound, htask, -, hfeedback⟩
    refine ⟨earlier_kept hs hL h hfound htask, htask, ?_, hfeedback⟩
    rintro heq
    cases heq
    rw [hs.fresh] at hfound
    cases hfound
  · rintro ⟨hfound, htask, hcounted, hfeedback⟩
    have hne : r' ≠ r := fun heq => hcounted (congrArg some heq)
    rcases hr : L.runs.lookup r' with _ | row₀
    · -- a run that is newer still comes after the one that was claimed
      have hlt := h₁.newer r' row ((hs.lookup_ne hne).trans hr) hfound
      rw [hs.attempts, htask, if_pos rfl, ← hs.attempt] at hlt
      rw [hlater r' row hfound htask hlt] at hfeedback
      cases hfeedback
    · obtain ⟨row', hr', ht', -⟩ := h.runs r' row₀ hr
      rw [hfound] at hr'
      cases hr'
      have hkept := earlier_kept hs hL h hr (ht'.symm.trans htask)
      rw [hfound] at hkept
      cases hkept
      exact ⟨hr, htask, by simp, hfeedback⟩

theorem previousRun_eq (hn : L₂.Numbered) (hp : L.PriorsRejected) (h₁ : Carried L₁ L₂)
    (hlater : ∀ r' row, L₂.runs.lookup r' = some row → row.taskId = run.taskId →
      run.attempt < row.attempt → row.feedback = none) :
    L₂.previousRun run.taskId (some r) = L.previousRun run.taskId none := by
  rw [previousRun, previousRun, previousAttempt_congr hn (leftFeedback_iff hs hL h h₁ hlater),
    h.proofs run.taskId task hs.claimable.found]
  rcases hproof : L.readmissionProof run.taskId with _ | proof
  · rfl
  · obtain ⟨e, he⟩ := mem_readmissions_of_proof hproof
    obtain ⟨prior, hprior, hstate⟩ := hp _ he
    have hkept := h.ended _ prior hprior (not_engaged_of_needsFix hstate)
    simp only [Option.bind_some, hprior, hkept]

end Later

/-- The length of a pack as it is written out depends on the pack alone. -/
def Measures (size : ContextPack → ℕ) (view : View) : Prop :=
  ∀ pack, view (.packSize pack) = .ok (size pack)

section Packed

variable (hp : Packed L L₁ pack run task) (hn : L.Numbered) (h : Carried L L₂)
include hp hn h

/-- In every later ledger the pack of a claim is about an earlier run. -/
theorem fromEarlier_later (hL : L.board.Sound) (hprior : L.PriorsRejected) :
    L₂.FromEarlier pack := by
  have hrunId : pack.previousRunId = (L.previousRun run.taskId none).map (·.1) := by
    rw [← hp.pack]
    rfl
  have hfeedback : pack.feedback = (L.previousRun run.taskId none).bind (·.2.feedback) := by
    rw [← hp.pack]
    rfl
  have hsnapshot : pack.previousSnapshotId =
      (L.previousRun run.taskId none).bind (·.2.snapshotId) := by
    rw [← hp.pack]
    rfl
  have hreadmission : pack.readmission = L.readmissionProof run.taskId := by
    rw [← hp.pack]
    rfl
  rw [FromEarlier, hrunId, hfeedback, hsnapshot, hreadmission, hp.taskId, hp.attempt]
  rcases hprevious : L.previousRun run.taskId none with _ | ⟨r, row⟩
  · exact ⟨rfl, rfl⟩
  · rcases previousRun_cases hprevious with hattempt | ⟨proof, hproof, rfl, hfound⟩
    · obtain ⟨hleft, -⟩ := previousAttempt_spec hattempt
      have hle := hn.attempt_le hleft.found
      rw [hleft.taskId] at hle
      refine ⟨row, earlier_kept hp.started hL h hleft.found hleft.taskId, rfl, rfl,
        .inl ⟨hleft.taskId, ?_⟩⟩
      rw [hp.started.attempt]
      omega
    · obtain ⟨e, he⟩ := mem_readmissions_of_proof hproof
      obtain ⟨prior, hfound', hstate⟩ := hprior _ he
      rw [hfound, Option.some.injEq] at hfound'
      subst hfound'
      exact ⟨row, h.ended _ row hfound (not_engaged_of_needsFix hstate), rfl, rfl,
        .inr ⟨proof, hproof, rfl⟩⟩

/-- A later attempt that has left feedback takes the place of every earlier one. -/
theorem noneLater_of_packOf {run₂ : Run} {status : TaskStatus}
    (hrun : L₂.runs.lookup pack.runId = some run₂) (ha : run₂.attempt = run.attempt)
    (heq : L₂.packOf run.taskId { task with status := status } pack.runId run.attempt
      run.claimGitHead true = pack) : L₂.NoneLater pack := by
  have hsame : (L₂.previousRun run.taskId (some pack.runId)).map (·.1) =
      (L.previousRun run.taskId none).map (·.1) :=
    congrArg ContextPack.previousRunId (heq.trans hp.pack.symm)
  rw [NoneLater, hp.taskId, hp.attempt]
  intro r row hr htask hlt
  by_contra hfeedback
  have hleft : L₂.LeftFeedback run.taskId (some pack.runId) r row := by
    refine ⟨hr, htask, ?_, Option.isSome_iff_ne_none.mpr hfeedback⟩
    rintro hid
    cases hid
    rw [hrun] at hr
    cases hr
    omega
  rcases hattempt : L₂.previousAttempt run.taskId (some pack.runId) with _ | ⟨r', row'⟩
  · exact previousAttempt_eq_none hattempt r row hleft
  · have hlast := (previousAttempt_spec hattempt).2 r row hleft
    have hleft' := (previousAttempt_spec hattempt).1
    -- the claim would have to have known that run
    rw [previousRun, hattempt, Option.some_or, Option.map_some, eq_comm,
      Option.map_eq_some_iff] at hsame
    obtain ⟨⟨_, row₀⟩, hprevious, rfl⟩ := hsame
    have hfound := previousRun_found hprevious
    obtain ⟨row₂, hr₂, ht₂, ha₂, -⟩ := h.runs _ row₀ hfound
    have hrow := hleft'.found
    rw [hr₂, Option.some.injEq] at hrow
    subst hrow
    have hle := hn.attempt_le hfound
    have hattempts := hp.started.attempt
    rw [← ht₂, hleft'.taskId] at hle
    omega

/-- The pack that is built again is the one the claim built just as long as no later attempt has
left feedback. -/
theorem context_iff {size : ContextPack → ℕ} {view : View} (hL : L.board.Sound)
    (hprior : L.PriorsRejected) (hn₂ : L₂.Numbered) (h₁ : Carried L₁ L₂)
    (hview : Measures size view) (hsize : size pack ≤ 32768) :
    L₂.context view pack.runId = .ok pack ↔ L₂.NoneLater pack := by
  obtain ⟨run₂, hrun, ht, ha, hh⟩ := h₁.runs _ run hp.started.lookup_self
  obtain ⟨status, htask⟩ := h.tasks _ task hp.started.claimable.found
  have hproofs := h.proofs _ task hp.started.claimable.found
  have hcontext : L₂.context view pack.runId = L₂.buildContextPack view run.taskId
      { task with status := status } pack.runId run.attempt run.claimGitHead true := by
    simp only [context, hrun]
    rw [show ofOption (some run₂) _ = .ok run₂ from rfl, ok_bind, ht, htask, ha, hh]
    rfl
  rw [hcontext, buildContextPack_eq_ok_iff, hproofs]
  constructor
  · rintro ⟨-, heq, -⟩
    exact noneLater_of_packOf hp hn h hrun ha heq
  · intro hlater
    have hprevious : L₂.previousRun run.taskId (some pack.runId) = L.previousRun run.taskId
        none := by
      apply previousRun_eq hp.started hL h hn₂ hprior h₁
      rw [← hp.taskId, ← hp.attempt]
      exact hlater
    refine ⟨hp.base, ?_, size pack, hview pack, hsize⟩
    refine Eq.trans ?_ hp.pack
    simp only [packOf, if_true, hprevious, hproofs, Bool.false_eq_true, if_false]

end Packed

end Ledger

/-! ### Sequences -/

section Sequences

variable {sha : Sha256} {L L' : Ledger} {pack : ContextPack} {reply : Reply}

/-- A claim whose capability could not be written returns no pack. -/
theorem publishCapability_exec {claimed : Reply} {runId : RunId} {taskId : TaskId} {lease : String}
    {hosts : List Host}
    (h : (publishCapability claimed runId taskId lease).exec (ledgerSemantics sha) hosts L =
      (.ret reply, L')) (hpack : reply.context = some pack) :
    L' = L ∧ claimed.context = some pack := by
  cases hosts with
  | nil => cases h
  | cons host hosts =>
    change Prog.exec _ (_ >>= _) hosts L = _ at h
    rcases hw : host 0 (.writeCapability runId lease) with e | a
    · simp only [ledgerSemantics, hw, Script.ofChecked] at h
      cases hosts with
      | nil => cases h
      | cons host' hosts =>
        exfalso
        cases h
        cases hpack
    · simp only [ledgerSemantics, hw, Script.ofChecked] at h
      change Prog.exec _ (.ret { claimed with lease := none }) hosts L = _ at h
      rw [Prog.exec_ret] at h
      cases h
      exact ⟨rfl, hpack⟩

/-- A claim that has returned a pack has done nothing after its transaction. -/
theorem claim_exec {workerId : String} {projectId : Option ProjectId}
    {repairFromRunId : Option RunId} {hosts : List Host}
    (h : (Command.claim workerId projectId repairFromRunId).script.exec (ledgerSemantics sha) hosts
      L = (.ret reply, L')) (hpack : reply.context = some pack) :
    ∃ host ∈ hosts, ∃ answer, L.claim sha host workerId projectId repairFromRunId =
      .ok (answer, L') ∧ answer.context = some pack := by
  cases hosts with
  | nil => cases h
  | cons host hosts =>
    change Prog.exec _ (Script.ofChecked _ >>= _) hosts _ = _ at h
    rcases hclaim : L.claim sha host workerId projectId repairFromRunId with e | ⟨answer, L₁⟩
    · simp only [ledgerSemantics, Semantics.after, Txn.run, hclaim, Script.ofChecked] at h
      change Prog.exec _ (.raise e) hosts L = _ at h
      rw [Prog.exec_raise] at h
      cases h
    · simp only [ledgerSemantics, Semantics.after, Txn.run, hclaim, Script.ofChecked,
        Prog.ret_bind] at h
      split at h
      · obtain ⟨rfl, hcontext⟩ := publishCapability_exec h hpack
        exact ⟨host, List.mem_cons_self, answer, hclaim, hcontext⟩
      · change Prog.exec _ (.ret answer) hosts L₁ = _ at h
        rw [Prog.exec_ret] at h
        cases h
        exact ⟨host, List.mem_cons_self, _, hclaim, hpack⟩

theorem carried_session (hL : Orderly L) (cs : List (Command × List Host)) :
    Carried L (session (ledgerSemantics sha) Command.script cs L) := by
  have step : ∀ L₁ host o, Orderly L₁ → Carried L L₁ → InOrder L₁ o → Grounded L₁ o → o.Admits →
      Carried L ((ledgerSemantics sha).after host L₁ o) := by
    intro L₁ host o _ h hok hpre ho
    exact h.trans (carried_after host hok hpre ho)
  exact (conducted_session step cs hL (Carried.refl L)).2

theorem tracked_session (sha : Sha256) (cs : List (Command × List Host)) :
    (Orderly (session (ledgerSemantics sha) Command.script cs Ledger.empty)) ∧
      (session (ledgerSemantics sha) Command.script cs Ledger.empty).Tracked ∧
      (session (ledgerSemantics sha) Command.script cs Ledger.empty).PriorsRejected := by
  have step : ∀ L host o, Orderly L → L.Tracked ∧ L.PriorsRejected → InOrder L o → Grounded L o →
      o.Admits → ((ledgerSemantics sha).after host L o).Tracked ∧
        ((ledgerSemantics sha).after host L o).PriorsRejected := by
    intro L host o hL h hok hpre ho
    constructor
    · exact ((Effect.after sha host L o).advance hok hpre).tracked hL.sound h.1
    · exact priorsRejected_after host hok hpre ho h.2
  apply conducted_session step
  · exact orderly_empty
  · constructor
    · exact tracked_empty
    · intro e he
      cases he

/-- After every sequence of commands, a run that was claimed gets the pack again that the claim
returned for it just as long as no later attempt at its task has left feedback. The pack of the
claim is about an earlier attempt in every case. -/
theorem context_replays_iff (sha : Sha256) (size : ContextPack → ℕ)
    (cs ds : List (Command × List Host)) (hosts : List Host) (view : View) (workerId : String)
    (projectId : Option ProjectId) (repairFromRunId : Option RunId)
    (hclaim : (Command.claim workerId projectId repairFromRunId).script.exec (ledgerSemantics sha)
      hosts (session (ledgerSemantics sha) Command.script cs Ledger.empty) = (.ret reply, L))
    (hpack : reply.context = some pack) (hhosts : ∀ host ∈ hosts, ∀ n, Measures size (host n))
    (hview : Measures size view) :
    ((session (ledgerSemantics sha) Command.script ds L).context view pack.runId = .ok pack ↔
      (session (ledgerSemantics sha) Command.script ds L).NoneLater pack) ∧
    (session (ledgerSemantics sha) Command.script ds L).FromEarlier pack := by
  have hsession : L = session (ledgerSemantics sha) Command.script
      (cs ++ [(.claim workerId projectId repairFromRunId, hosts)]) Ledger.empty := by
    rw [session_append, session_cons, session_nil, hclaim]
  obtain ⟨host, hhost, answer, hanswer, hcontext⟩ := claim_exec hclaim hpack
  obtain ⟨run, task, hpacked, n, hn, hle⟩ := claim_packs hanswer hcontext
  rw [hhosts host hhost 2 pack, Except.ok.injEq] at hn
  subst hn
  obtain ⟨horderly, htracked, hprior⟩ := tracked_session sha cs
  have horderly₁ : Orderly L := hsession ▸ (tracked_session sha _).1
  have htracked₂ : (session (ledgerSemantics sha) Command.script ds L).Tracked := by
    rw [hsession, ← session_append]
    exact (tracked_session sha _).2.1
  have hcarried₁ : Carried L (session (ledgerSemantics sha) Command.script ds L) :=
    carried_session horderly₁ ds
  have hcarried : Carried (session (ledgerSemantics sha) Command.script cs Ledger.empty)
      (session (ledgerSemantics sha) Command.script ds L) := by
    refine Carried.trans ?_ hcarried₁
    rw [hsession, session_append]
    exact carried_session horderly _
  constructor
  · exact context_iff hpacked htracked.numbered hcarried horderly.sound hprior htracked₂.numbered
      hcarried₁ hview hle
  · exact fromEarlier_later hpacked htracked.numbered hcarried horderly.sound hprior

end Sequences

namespace Scenario

/-- A host on which the authority of a check cannot be established. -/
def unauthorised : Host := fun n o =>
  match o with
  | .checkAuthorityEvidence _ => .ok (some "check_authority_changed")
  | o => host {} n o

/-- A command that takes `k` steps on a host on which every guard passes. -/
def alone (k : ℕ) (c : Command) : Command × List Host := (c, List.replicate k (host {}))

def blocked : List (Command × List Host) :=
  [alone 2 (.submit "t-A2-0" "l"), alone 2 (.quiesce "t-A2-0" "l"),
    (.verify "t-A2-0", List.replicate 6 unauthorised)]

def givenUp : Command × List Host := alone 2 (.abort "t-A1-0" "stop" true true)

/-- The pack of the second attempt. -/
def secondPack : ContextPack where
  runId := "t-A2-0"
  taskId := "t"
  attempt := 2
  planRevision := "p"
  queueSeq := 1
  claimGitHead := some "c"
  payload := payload {} "t"
  feedback := none
  previousRunId := none
  previousSnapshotId := none
  readmission := none

theorem measures_host (n : ℕ) : Measures (fun _ => 1) (host {} n) := fun _ => rfl

end Scenario

section Runs

open Scenario

set_option maxRecDepth 8000 in
theorem context_replays_iff_blocked :
    (session (ledgerSemantics Scenario.sha) Command.script
      ([alone 2 .loadPlan, alone 2 (.claim "w" none none), givenUp,
        alone 2 (.claim "w" none none)] ++ blocked) Ledger.empty).NoneLater secondPack := by
  have hiff := context_replays_iff Scenario.sha (fun _ => 1)
    [alone 2 .loadPlan, alone 2 (.claim "w" none none), givenUp] blocked
    (List.replicate 2 (host {})) (host {} 0) "w" none none rfl rfl
    (fun host hhost n => List.eq_of_mem_replicate hhost ▸ measures_host n) (measures_host 0)
  exact hiff.1.mp rfl

set_option maxRecDepth 8000 in
/-- The first attempt is told of the second one's feedback. -/
theorem not_always_replays : ¬ ∀ (sha : Sha256) (size : ContextPack → ℕ)
    (cs ds : List (Command × List Host)) (hosts : List Host) (view : View) (workerId : String)
    (projectId : Option ProjectId) (repairFromRunId : Option RunId) (reply : Reply) (L : Ledger)
    (pack : ContextPack),
    (Command.claim workerId projectId repairFromRunId).script.exec (ledgerSemantics sha)
      hosts (session (ledgerSemantics sha) Command.script cs Ledger.empty) = (.ret reply, L) →
    reply.context = some pack → (∀ host ∈ hosts, ∀ n, Measures size (host n)) →
    Measures size view →
      (session (ledgerSemantics sha) Command.script ds L).context view pack.runId = .ok pack := by
  intro h
  have hsame := h Scenario.sha (fun _ => 1) [alone 2 .loadPlan]
    ([givenUp, alone 2 (.claim "w" none none)] ++ blocked) (List.replicate 2 (host {})) (host {} 0)
    "w" none none _ _ _ rfl rfl
    (fun host hhost n => List.eq_of_mem_replicate hhost ▸ measures_host n) (measures_host 0)
  have hprevious := congrArg (fun x : Checked ContextPack =>
    x.toOption.bind ContextPack.previousRunId) hsame
  exact absurd hprevious (by decide)

end Runs

end OrchKit
