import OrchKit.Ledger.Kept

/-! # One writer per key

The lock of a writer key is nowhere stored: it is whatever runs are in a state that
holds it. Every operation but one gives a run such a state only if the key was free
or the run had one before. The exception is the last transaction of `verify`, which
does not look at the run it writes, and it alone decides whether keys stay exclusive.
-/

namespace OrchKit

open Except Program

namespace Ledger

/-- The run is in a state that holds the writer key of its task. -/
def holdsKey (L : Ledger) (runId : RunId) (key : WriterKey) : Bool :=
  (L.runs.lookup runId).any fun run => run.state ∈ writerLockRunStates ∧
    (L.tasks.lookup run.taskId).any (·.payload.writerKey = key)

def keyOf (L : Ledger) (runId : RunId) : Option WriterKey :=
  (L.runs.lookup runId).bind fun run =>
    (L.tasks.lookup run.taskId).map (·.payload.writerKey)

def Exclusive (L : Ledger) : Prop :=
  ∀ r r' key, L.holdsKey r key → L.holdsKey r' key → r = r'

def LocksKept (L L' : Ledger) : Prop :=
  ∀ r run', L'.runs.lookup r = some run' → run'.state ∈ writerLockRunStates →
    ∃ run, L.runs.lookup r = some run ∧ run.state ∈ writerLockRunStates

variable {L L' : Ledger} {r : RunId} {key : WriterKey}

theorem holdsKey_iff : L.holdsKey r key ↔ ∃ run task, L.runs.lookup r = some run ∧
    run.state ∈ writerLockRunStates ∧ L.tasks.lookup run.taskId = some task ∧
      task.payload.writerKey = key := by
  simp only [holdsKey, Option.any_eq_true, decide_eq_true_eq]
  constructor
  · rintro ⟨run, hr, hs, task, ht, hk⟩
    exact ⟨run, task, hr, hs, ht, hk⟩
  · rintro ⟨run, task, hr, hs, ht, hk⟩
    exact ⟨run, hr, hs, task, ht, hk⟩

theorem keyOf_eq_some_iff : L.keyOf r = some key ↔ ∃ run task, L.runs.lookup r = some run ∧
    L.tasks.lookup run.taskId = some task ∧ task.payload.writerKey = key := by
  simp only [keyOf, Option.bind_eq_some_iff, Option.map_eq_some_iff]
  constructor
  · rintro ⟨run, hr, task, ht, hk⟩
    exact ⟨run, task, hr, ht, hk⟩
  · rintro ⟨run, task, hr, ht, hk⟩
    exact ⟨run, hr, task, ht, hk⟩

theorem KeyFree.not_holdsKey (h : L.KeyFree key) (r : RunId) : ¬ L.holdsKey r key := by
  rw [holdsKey_iff]
  rintro ⟨run, task, hr, hs, ht, hk⟩
  exact h r run task hr hs ht hk

theorem holdsKey_of_later (ht : TasksKept L L') (hr : RunsStay L L') (hL : L.TasksKnown)
    (hk : L'.holdsKey r key)
    (h : ∀ run', L'.runs.lookup r = some run' → run'.state ∈ writerLockRunStates →
      ∃ run, L.runs.lookup r = some run ∧ run.state ∈ writerLockRunStates) :
    L.holdsKey r key := by
  rw [holdsKey_iff] at hk ⊢
  obtain ⟨run', task', hrun', hs', htask', hkey⟩ := hk
  obtain ⟨run, hrun, hs⟩ := h run' hrun' hs'
  obtain ⟨task, htask⟩ := hL r run hrun
  rw [hr.taskId hrun hrun'] at htask'
  exact ⟨run, task, hrun, hs, htask, ht.payload htask htask' ▸ hkey⟩

theorem LocksKept.exclusive (h : LocksKept L L') (ht : TasksKept L L') (hr : RunsStay L L')
    (hL : L.TasksKnown) (he : L.Exclusive) : L'.Exclusive := by
  intro r r' key hk hk'
  exact he r r' key (holdsKey_of_later ht hr hL hk (h r)) (holdsKey_of_later ht hr hL hk' (h r'))

theorem locksKept_of_eq (h : L'.runs = L.runs) : LocksKept L L' :=
  fun _ run' hr hs => ⟨run', h ▸ hr, hs⟩

theorem Moved.locksKept {runId : RunId} {run run' : Run} {status : Option TaskStatus}
    (h : Moved L L' runId run run' status)
    (hs : run'.state ∈ writerLockRunStates → run.state ∈ writerLockRunStates) :
    LocksKept L L' := by
  intro r row' hr hrow
  by_cases hid : r = runId
  · subst hid
    rw [h.moved] at hr
    cases hr
    exact ⟨run, h.found, hs hrow⟩
  · exact ⟨row', (h.runs r hid).symm.trans hr, hrow⟩

theorem Rewrote.locksKept {runId : RunId} {f : Run → Run} {taskId : TaskId} {told : TaskStatus}
    (h : Rewrote L L' runId f taskId told) (hf : ∀ run, (f run).state ∉ writerLockRunStates) :
    LocksKept L L' := by
  intro r row' hr hrow
  by_cases hid : r = runId
  · subst hid
    rw [h.runs, Table.lookup_modify, if_pos rfl] at hr
    obtain ⟨run, -, rfl⟩ := Option.map_eq_some_iff.mp hr
    exact absurd hrow (hf run)
  · exact ⟨row', (h.lookup_ne hid).symm.trans hr, hrow⟩

/-- A run is started only under a key nobody holds. -/
theorem Started.exclusive {runId : RunId} {run : Run} {task : Task}
    (h : Started L L' runId run task) (hL : L.TasksKnown) (he : L.Exclusive) : L'.Exclusive := by
  have held : ∀ r key, L'.holdsKey r key →
      (r = runId ∧ key = task.payload.writerKey) ∨ L.holdsKey r key := by
    intro r key hk
    by_cases hid : r = runId
    · subst hid
      obtain ⟨run', task', hr, -, ht, hkey⟩ := holdsKey_iff.mp hk
      rw [h.lookup_self] at hr
      cases hr
      rw [h.started] at ht
      cases ht
      exact .inl ⟨rfl, hkey.symm⟩
    · refine .inr (holdsKey_of_later h.tasksKept h.runsStay hL hk fun run' hr hs => ?_)
      exact ⟨run', (h.lookup_ne hid).symm.trans hr, hs⟩
  intro r r' key hk hk'
  have free := h.claimable.free.not_holdsKey
  rcases held r key hk with ⟨hr, hkey⟩ | hk <;> rcases held r' key hk' with ⟨hr', hkey'⟩ | hk'
  · rw [hr, hr']
  · exact absurd (hkey ▸ hk') (free r')
  · exact absurd (hkey' ▸ hk) (free r)
  · exact he r r' key hk hk'

/-- A blind write that gives a run its lock keeps keys exclusive just when nobody else held the
run's key. -/
theorem Rewrote.exclusive_iff {runId : RunId} {f : Run → Run} {taskId : TaskId}
    {told : TaskStatus} (h : Rewrote L L' runId f taskId told)
    (hf : ∀ run, (f run).state ∈ writerLockRunStates) (hL : L.TasksKnown) (he : L.Exclusive) :
    L'.Exclusive ↔ ∀ key, L.keyOf runId = some key → ∀ r, L.holdsKey r key → r = runId := by
  have self : ∀ key, L'.holdsKey runId key ↔ L.keyOf runId = some key := by
    intro key
    rw [holdsKey_iff, keyOf_eq_some_iff]
    constructor
    · rintro ⟨run', task', hr, -, ht, hk⟩
      rw [h.runs, Table.lookup_modify, if_pos rfl] at hr
      obtain ⟨run, hrun, rfl⟩ := Option.map_eq_some_iff.mp hr
      obtain ⟨task, htask⟩ := hL runId run hrun
      rw [h.taskId] at ht
      exact ⟨run, task, hrun, htask, h.tasksKept.payload htask ht ▸ hk⟩
    · rintro ⟨run, task, hr, ht, hk⟩
      obtain ⟨task', ht', hp⟩ := h.tasksKept _ task ht
      refine ⟨f run, task', ?_, hf run, by rw [h.taskId]; exact ht', by rw [hp]; exact hk⟩
      rw [h.runs, Table.lookup_modify, if_pos rfl, hr]
      rfl
  have other : ∀ r key, r ≠ runId → (L'.holdsKey r key ↔ L.holdsKey r key) := by
    intro r key hid
    constructor
    · intro hk
      refine holdsKey_of_later h.tasksKept h.runsStay hL hk fun run' hr hs => ?_
      exact ⟨run', (h.lookup_ne hid).symm.trans hr, hs⟩
    · intro hk
      obtain ⟨run, task, hr, hs, ht, hkey⟩ := holdsKey_iff.mp hk
      obtain ⟨task', ht', hp⟩ := h.tasksKept _ task ht
      exact holdsKey_iff.mpr ⟨run, task', (h.lookup_ne hid).trans hr, hs, ht', hp ▸ hkey⟩
  constructor
  · intro he' key hkey r hk
    by_contra hid
    exact hid (he' r runId key ((other r key hid).mpr hk) ((self key).mpr hkey))
  · intro hfree r r' key hk hk'
    by_cases hid : r = runId <;> by_cases hid' : r' = runId
    · rw [hid, hid']
    · subst hid
      exact (hfree key ((self key).mp hk) r' ((other r' key hid').mp hk')).symm
    · subst hid'
      exact hfree key ((self key).mp hk') r ((other r key hid).mp hk)
    · exact he r r' key ((other r key hid).mp hk) ((other r' key hid').mp hk')

end Ledger

open Ledger

/-- The operation records that a run has passed its checks. -/
def RecordsPass : Op → Prop
  | .transaction (.verifyResult _ run payload manifest checks) =>
    checks.all CheckResult.passed ∧ ∃ d, decision payload manifest run.attempt = .ok d
  | _ => False

/-- The last transaction of `verify`, where it records that the run has passed, finds no other
run holding the run's writer key. -/
def VerifiesUncontested (L : Ledger) : Op → Prop
  | .transaction (.verifyResult runId run payload manifest checks) =>
    RecordsPass (.transaction (.verifyResult runId run payload manifest checks)) →
      ∀ key, L.keyOf runId = some key → ∀ r, L.holdsKey r key → r = runId
  | _ => True

theorem verifiesUncontested_of_not_recordsPass {L : Ledger} {o : Op} (h : ¬ RecordsPass o) :
    VerifiesUncontested L o := by
  cases o with
  | transaction t =>
    cases t with
    | verifyResult => exact fun hp => absurd hp h
    | _ => trivial
  | _ => trivial

theorem recordsPass_iff {o : Op} : RecordsPass o ↔ ∃ runId run payload manifest checks d,
    o = .transaction (.verifyResult runId run payload manifest checks) ∧
      checks.all CheckResult.passed ∧ decision payload manifest run.attempt = .ok d := by
  constructor
  · intro h
    cases o with
    | transaction t =>
      cases t with
      | verifyResult runId run payload manifest checks =>
        obtain ⟨hp, d, hd⟩ := h
        exact ⟨runId, run, payload, manifest, checks, d, rfl, hp, hd⟩
      | _ => cases h
    | _ => cases h
  · rintro ⟨runId, run, payload, manifest, checks, d, rfl, hp, hd⟩
    exact ⟨hp, d, hd⟩

namespace Effect

variable {sha : Sha256} {L L' : Ledger} {o : Op}

/-- What an operation does to the locks, unless it records a pass. -/
theorem locksKept_or_started (h : Effect sha L o L') (hn : ¬ RecordsPass o) :
    LocksKept L L' ∨ ∃ runId run task, Started L L' runId run task := by
  cases h with
  | quiet _ h | queued _ h => exact .inl (locksKept_of_eq h.runs)
  | started h => exact .inr ⟨_, _, _, h⟩
  | moved h move => exact .inl (h.locksKept move.holds)
  | accepted h hs => exact .inl (h.locksKept fun _ => by rw [hs]; decide)
  | completed h hs => exact .inl (h.locksKept fun _ => by rw [hs]; decide)
  | waiting h | approved h => exact .inl (h.locksKept id)
  | result h =>
    obtain ⟨_, _, _, ho, h, -⟩ := verifyResult_spec h
    cases ho with
    | review hp hd | verified hp hd => exact absurd ⟨hp, _, hd⟩ hn
    | failed => exact .inl (h.locksKept fun _ => by simp [writerLockRunStates, activeRunStates])
  | unclaimed h => exact .inl ((capabilityCreateFailed_spec h).1.locksKept fun _ => by
    simp [writerLockRunStates, activeRunStates])
  | finalized h => exact .inl ((finalizePublication_spec h).1.locksKept fun _ => by
    simp [writerLockRunStates, activeRunStates])
  | deleted | inserted | updated => exact .inl (locksKept_of_eq rfl)

theorem exclusive (h : Effect sha L o L') (hn : ¬ RecordsPass o) (hL : L.TasksKnown)
    (he : L.Exclusive) : L'.Exclusive := by
  rcases h.locksKept_or_started hn with hk | ⟨_, _, _, hs⟩
  · exact hk.exclusive h.tasksKept h.runsStay hL he
  · exact hs.exclusive hL he

end Effect

/-- A recorded pass gives its run a state that holds the lock. -/
theorem rewrote_of_recordsPass (sha : Sha256) (host : Host) (L : Ledger) (runId : RunId) {run : Run}
    {payload : TaskPayload} {manifest : Manifest} {checks : List CheckResult} {d : ReviewDecision}
    (hp : checks.all CheckResult.passed) (hd : decision payload manifest run.attempt = .ok d) :
    ∃ f told, Rewrote L ((ledgerSemantics sha).after host L
        (.transaction (.verifyResult runId run payload manifest checks))) runId f run.taskId told ∧
      ∀ run, (f run).state ∈ writerLockRunStates := by
  rcases h : L.verifyResult sha runId run payload manifest checks with e | ⟨reply, L'⟩
  · simp only [Ledger.verifyResult, hp, hd, if_true] at h
    cases h
  · have hafter : (ledgerSemantics sha).after host L
        (.transaction (.verifyResult runId run payload manifest checks)) = L' := by
      simp only [Semantics.after, ledgerSemantics, Txn.run, h]
    rw [hafter]
    obtain ⟨f, told, _, ho, hr, -⟩ := verifyResult_spec h
    refine ⟨f, told, hr, ?_⟩
    cases ho with
    | review | verified => simp [writerLockRunStates, activeRunStates]
    | failed hn => exact absurd hp hn

theorem exclusive_after_iff (sha : Sha256) (host : Host) {L : Ledger} (o : Op)
    (hL : L.TasksKnown) (he : L.Exclusive) :
    VerifiesUncontested L o ↔ ((ledgerSemantics sha).after host L o).Exclusive := by
  by_cases hn : RecordsPass o
  · obtain ⟨runId, run, payload, manifest, checks, d, rfl, hp, hd⟩ := recordsPass_iff.mp hn
    obtain ⟨f, told, hr, hf⟩ := rewrote_of_recordsPass sha host L runId hp hd
    rw [hr.exclusive_iff hf hL he]
    exact ⟨fun h => h hn, fun h _ => h⟩
  · exact ⟨fun _ => (Effect.after sha host L o).exclusive hn hL he,
      fun _ => verifiesUncontested_of_not_recordsPass hn⟩

abbrev emptyWorld : World orchSig Ledger Exn Reply := ⟨Ledger.empty, []⟩

/-- The ledger after a list of actions of processes that call its commands side by side. -/
def ledgerAfter (sha : Sha256) (as : List (Action Command Host)) : Ledger :=
  (World.run (ledgerSemantics sha) Command.script emptyWorld as).shared

theorem tasksKnown_empty : Ledger.empty.TasksKnown := by
  intro r run h
  cases h

theorem exclusive_empty : Ledger.empty.Exclusive := by
  intro r r' key h
  cases h

/-- Writer exclusion: along a run of any number of commands side by side, keys stay exclusive
exactly as long as no verification records a pass over another holder of its key. -/
theorem exclusive_iff_verifiesUncontested (sha : Sha256) (as : List (Action Command Host)) :
    World.Guarded (ledgerSemantics sha) Command.script VerifiesUncontested emptyWorld as ↔
      ∀ bs, bs <+: as →
        (World.run (ledgerSemantics sha) Command.script emptyWorld bs).shared.Exclusive :=
  World.guarded_iff (fun L o host hL => (Effect.after sha host L o).tasksKnown hL)
    (fun _ o host hL he => exclusive_after_iff sha host o hL he) tasksKnown_empty exclusive_empty

/-! ### Two tasks of one key -/

namespace Scenario

def payload (publication : PublicationPolicy) (id : TaskId) : TaskPayload where
  id := id
  projectId := none
  writerKey := "k"
  workspace := "w"
  allowedPaths := ["f"]
  protectedPaths := []
  checks := []
  requiredReview := false
  review := none
  ownerAcceptance := false
  publication := publication
  maxAttempts := 3
  dependencies := []

def manifest : Manifest where
  workspace := "w"
  files := [("f", ⟨false, some "h", 1, some 0o644⟩)]
  protectedFiles := []
  gitHead := some "c"
  createdAt := "0"

/-- A host on which every guard passes and every command succeeds. -/
def host (publication : PublicationPolicy) : Host := fun _ o =>
  match o with
  | .readPlan => .ok ("p", "d", [payload publication "t", payload publication "u"])
  | .claimGitState .. => .ok (some "c", some "main")
  | .claimWorkspaceGuard .. => .ok ⟨none, none⟩
  | .packSize _ => .ok 1
  | .uuidHex => .ok "0"
  | .tokenUrlsafe => .ok "l"
  | .utcNow => .ok "0"
  | .writeCapability .. => .ok ()
  | .revokeCapability .. => .ok ()
  | .executionResolved _ => .ok ()
  | .processesResolved _ => .ok ()
  | .loadWorkerReceipt runId => .ok (⟨runId, "t", ["f"]⟩, "h", 1)
  | .workspaceScopeEvidence .. => .ok ⟨.pass, ["f"], some "c", ["f"], [], [], [], []⟩
  | .checkAuthorityEvidence _ => .ok none
  | .snapshot .. => .ok manifest
  | .assertManifestCurrent .. => .ok ()
  | .verificationEvidenceManifest .. => .ok ⟨⟨"s", "h", 1⟩, ⟨"a", "h", 1⟩, []⟩
  | .assertPathsUnfiltered .. => .ok ()
  | .branchShowCurrent _ => .ok (some "main")
  | .revParseHead _ => .ok (some "c")
  | .stagedPaths _ => .ok (some [])
  | .gitAdd .. => .ok (some ())
  | .stagedMatchesSnapshot .. => .ok true
  | .writeTree _ => .ok (some "t")
  | .commitTree .. => .ok (some "c'")
  | .commitMatchesSnapshot .. => .ok true
  | .symbolicRef _ => .ok (some "refs/heads/main")
  | .updateRef .. => .ok true
  | _ => .error (.other "RuntimeError" "unused")

def sha : Sha256 where
  snapshotId _ := "s"
  payload _ := "p"
  fingerprint _ := "f"
  operationId id := id

/-- The `n`-th process takes its next `k` steps. -/
def steps (publication : PublicationPolicy) (n k : ℕ) : List (Action Command Host) :=
  List.replicate k (.step n (host publication))

/-- The `n`-th process starts and takes its first `k` steps. -/
def call (publication : PublicationPolicy) (n k : ℕ) (c : Command) : List (Action Command Host) :=
  .start c :: steps publication n k

/-- A run of task `t` is brought to the point where its verification begins. -/
def quiesced (publication : PublicationPolicy) : List (Action Command Host) :=
  call publication 0 2 .loadPlan ++ call publication 1 2 (.claim "w" none none) ++
    call publication 2 2 (.submit "t-A1-0" "l") ++ call publication 3 2 (.quiesce "t-A1-0" "l")

end Scenario

open Scenario in
/-- A run is aborted under a verification that is still going on, another task of its key is
claimed, and then the verification records its pass. -/
theorem not_always_exclusive : ¬ ∀ (sha : Sha256) (as : List (Action Command Host)),
    (World.run (ledgerSemantics sha) Command.script emptyWorld as).shared.Exclusive := by
  intro h
  have contested := h sha (quiesced {} ++ call {} 4 8 (.verify "t-A1-0") ++
    call {} 5 2 (.abort "t-A1-0" "stop" false false) ++ call {} 6 2 (.claim "w" none none) ++
    steps {} 4 1) "t-A1-0" "u-A1-0" "k" rfl rfl
  exact absurd contested (by decide)

end OrchKit
