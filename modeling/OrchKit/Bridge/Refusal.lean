import OrchKit.Bridge.Steps

/-! # What a refused record leaves

An append that refuses a record or finds a conflict has stored nothing. If authority was
denied only after the record had been staged, the directories made for it are still there,
and an operation's directory without a dispatch makes the whole census unknown.
-/

namespace OrchKit.Bridge

open Except Program Table Routine

variable {m : Machine} {s : State} {record : ExecutionRecord} {authorize : Routine Unit}
  {name : TempName} {good : Env → Prop}

def staging (_ : Env) (_ : State) : Op → Bool
  | .act (.stage ..) => true
  | _ => false

theorem quiet_staging : Quiet staging := by
  intro env s o ho
  cases o with
  | ledger o => rfl
  | look l => rfl
  | act a =>
    cases a with
    | stage => cases ho
    | _ => rfl

def AppendReply.declined (reply : AppendReply) : Prop :=
  reply.status = .refused ∨ reply.status = .conflict

/-- The state with the directories that are made for a record. -/
def roomFor (m : Machine) (record : ExecutionRecord) (s : State) : State :=
  let request := record.base.request
  let runHash := m.digests.id request.binding.runId
  { s with runtime := s.runtime.room runHash (m.digests.id request.operationId) }

/-- What is left when a record is declined: nothing, unless it had been staged. -/
def LeftBy (m : Machine) (record : ExecutionRecord) (s : State) (x : Except Exn AppendReply)
    (c : State × ℕ) : Prop :=
  ∀ reply, x = .ok reply → reply.declined → c = (s, 0) ∨ c.2 ≠ 0 ∧ c.1 = roomFor m record s

theorem leftBy_ok {reply : AppendReply} :
    LeftBy m record s (.ok reply) (s, 0) := fun _ _ _ => .inl rfl

theorem leftBy_of_not_declined {reply : AppendReply} {c : State × ℕ} (h : ¬ reply.declined) :
    LeftBy m record s (.ok reply) c := by
  intro r hr hd
  cases hr
  exact absurd hd h

theorem leftBy_error {e : Exn} {c : State × ℕ} : LeftBy m record s (.error e) c := by
  rintro reply ⟨⟩

theorem confirm_created {rh oh : Digest} {c : State × ℕ} :
    (confirm rh oh name record).MustEnd (counted m staging) good
      (fun x _ => ∀ reply, x = .ok reply → reply.status = .created) c := by
  unfold confirm
  refine Prog.MustEnd.bind_of_forall (fun _ t => ?_) fun e t => ?_
  · refine Prog.MustEnd.bind_of_forall (fun _ t => ?_) fun e t => ?_
    · rintro reply ⟨⟩
      rfl
    · rintro reply ⟨⟩
  · rintro reply ⟨⟩

theorem linkStaged_leaves {rh oh : Digest} {c : State × ℕ} (hread : authorize.Reads) :
    (linkStaged rh oh name record authorize).MustEnd (counted m staging) good
      (fun x t => x = .ok false → t = c) c := by
  obtain ⟨s, n⟩ := c
  unfold linkStaged
  refine keeps_read quiet_staging trivial trivial (fun e => ?_) fun env _ _ _ => ?_
  · rintro ⟨⟩
  refine keeps_reads quiet_staging (reads_succeeds hread) trivial (fun b => ?_) fun e => ?_
  · cases b with
    | false => exact fun _ => rfl
    | true =>
      refine keeps_act (fun _ => rfl) trivial (fun e => ?_) fun env _ s' _ _ => ?_
      · rintro ⟨⟩
      · refine ⟨trivial, fun e => ?_, ?_⟩
        · rintro ⟨⟩
        · rintro ⟨⟩
  · rintro ⟨⟩

theorem publish_leftBy (hread : authorize.Reads) :
    (publish m name record authorize).MustEnd (counted m staging) good
      (LeftBy m record s) (s, 0) := by
  unfold publish
  refine keeps_act (fun _ => rfl) trivial (fun e => leftBy_error) ?_
  rintro env _ _ - ⟨⟩
  refine ⟨trivial, fun e => leftBy_error, ?_⟩
  refine keeps_act (fun _ => rfl) trivial (fun e => leftBy_error) ?_
  rintro env _ _ - ⟨⟩
  refine ⟨trivial, fun e => leftBy_error, ?_⟩
  refine keeps_act (fun _ => rfl) trivial (fun e => leftBy_error) ?_
  rintro env _ _ - ⟨⟩
  refine ⟨trivial, fun e => leftBy_error, ?_⟩
  refine keeps_counted ?_
  rintro env - k rfl
  refine ⟨fun e => ⟨trivial, leftBy_error⟩, ?_⟩
  intro _ s' hp
  refine ⟨fun e => ⟨trivial, leftBy_error⟩, ?_⟩
  obtain ⟨⟨dir, hdir, hname⟩, rfl⟩ := Act.perform_stage.mp hp
  refine keeps_read quiet_staging trivial trivial (fun e => leftBy_error) fun _ _ _ _ => ?_
  refine Prog.Keeps.bind (Prog.Keeps.catching ((linkStaged_leaves hread).mono (fun _ h => h) ?_))
  rintro (e | _ | _) t ht
  · exact Prog.MustEnd.bind_of_forall (fun _ t => leftBy_error) fun e t => leftBy_error
  · cases ht rfl
    refine keeps_act (fun _ => rfl) trivial (fun e => leftBy_error) ?_
    intro _ _ s' _ hp
    refine ⟨trivial, fun e => leftBy_error, ?_⟩
    obtain ⟨-, rfl⟩ := Act.perform_unstage.mp hp
    rintro reply - -
    refine .inr ⟨Nat.one_ne_zero, ?_⟩
    rw [Runtime.unstage_stage hdir hname]
    rfl
  · refine Prog.Keeps.catching (confirm_created.mono (fun _ h => h) ?_)
    rintro (e | reply) t hr
    · exact leftBy_of_not_declined (by simp [AppendReply.declined])
    · exact leftBy_of_not_declined (by simp [AppendReply.declined, hr reply rfl])

/-- The part of an append that reads the store leaves it as it is. -/
theorem appendChecked_leftBy (hread : authorize.Reads) :
    (appendChecked m name record authorize).MustEnd (counted m staging) good
      (LeftBy m record s) (s, 0) := by
  unfold appendChecked
  have skip : ∀ {α : Type} {p : Routine α} {f : α → Routine AppendReply}, p.Reads →
      (∀ a, (f a).MustEnd (counted m staging) good (LeftBy m record s) (s, 0)) →
      (p >>= f).MustEnd (counted m staging) good (LeftBy m record s) (s, 0) :=
    fun hp hf => keeps_reads quiet_staging hp trivial hf fun e => leftBy_error
  refine skip (reads_act trivial) fun _ => skip (reads_look _) fun census =>
    skip (reads_require _) fun _ => skip (reads_look _) fun found =>
      skip (reads_recordsOf found) fun chain => ?_
  split
  · split
    · exact skip (reads_acknowledgeExisting hread) fun _ => leftBy_ok
    · exact leftBy_ok
  split
  · exact leftBy_ok
  refine skip (reads_look _) fun intent => ?_
  split
  · split
    · exact leftBy_ok
    split
    · exact leftBy_ok
    split
    · exact skip (reads_acknowledgeIntent hread) fun _ => publish_leftBy hread
    · exact publish_leftBy hread
  · exact leftBy_ok

theorem append_leftBy (hread : authorize.Reads) :
    (append m record authorize).MustEnd (counted m staging) good (LeftBy m record s) (s, 0) := by
  unfold append
  split
  · exact leftBy_ok
  refine keeps_reads quiet_staging (reads_succeeds (reads_act trivial)) trivial (fun locked => ?_)
    fun e => leftBy_error
  split
  · exact leftBy_ok
  refine keeps_reads quiet_staging (reads_succeeds hread) trivial (fun live => ?_)
    fun e => leftBy_error
  split
  · exact leftBy_ok
  refine Prog.Keeps.catching ?_
  refine keeps_read quiet_staging trivial trivial (fun e => ?_) fun _ name _ _ => ?_
  · exact leftBy_of_not_declined (by simp [AppendReply.declined])
  refine (appendChecked_leftBy hread).mono (fun _ h => h) ?_
  rintro (e | reply) t ht
  · exact leftBy_of_not_declined (by simp [AppendReply.declined])
  · exact ht

/-- A declined record leaves the census as it was, unless it was the first of its operation and
had been staged: then the census is unknown. -/
theorem declined_census (hread : authorize.Reads) {envs : List Env} {reply : AppendReply}
    {s' : State} {n : ℕ} {operations : List Operation}
    (hrun : (append m record authorize).exec (counted m staging) envs (s, 0) = (.ret reply, s', n))
    (hdeclined : reply.status = .refused ∨ reply.status = .conflict)
    (hready : s.runtime.census m.digests m.uid.toNat = .ready operations) :
    s'.runtime.census m.digests m.uid.toNat =
      if n ≠ 0 ∧ s.runtime.opDir m.digests record.base.request.binding.runId
          record.base.request.operationId = none
      then .unknown
      else .ready operations := by
  have hmust : (append m record authorize).MustEnd (counted m staging) (fun _ => True)
      (LeftBy m record s) (s, 0) := append_leftBy hread
  have hend := (hmust.exec trivial fun env (_ : env ∈ envs) => trivial).2
  rw [hrun] at hend
  rw [Runtime.opDir_eq_findOp]
  rcases hend reply rfl hdeclined with h | ⟨hn, h⟩
  · cases h
    rw [if_neg fun h => h.1 rfl, hready]
  · simp only at hn h
    subst h
    rcases hdir : s.runtime.findOp (m.digests.id record.base.request.binding.runId)
        (m.digests.id record.base.request.operationId) with _ | dir
    · rw [if_pos ⟨hn, rfl⟩]
      have hbare : (roomFor m record s).runtime.findOp
          (m.digests.id record.base.request.binding.runId)
          (m.digests.id record.base.request.operationId) = some {} := by
        rw [roomFor, Runtime.findOp_room, if_pos ⟨rfl, rfl⟩, hdir]
        rfl
      exact Runtime.census_of_bare hbare rfl
    · rw [if_neg (by simp), roomFor, Runtime.room_eq_self hdir]
      exact hready

namespace Scenario

def hexes (c : Char) : Digest := List.replicate 64 c

/-- Digests that tell the identifiers and the bytes of the examples apart. -/
def digests : Digests where
  id s := if s = "o" then hexes 'a' else if s = "p" then hexes 'b' else hexes 'c'
  request _ _ := hexes 'd'
  record _ := hexes 'e'
  content b := if b = [] then hexes '0' else hexes '1'
  xattrs _ := hexes 'f'
  isDigest_id s := by
    split
    · decide
    split <;> decide
  isDigest_request _ _ := by decide
  isDigest_record _ := by decide
  isDigest_content b := by split <;> decide
  isDigest_xattrs _ := by decide

def machine : Machine where
  sha := ⟨fun _ => "s", fun _ => "p", fun _ => "f", id⟩
  digests := digests
  processHash _ := hexes '0'
  uid := 501

def binding : WorkerRunBinding := ⟨"q", "k", "t", "r", 1⟩

def request (operationId : String) : WorkerOperationRequest where
  binding := binding
  operationId := operationId
  kind := .filePatch
  target := "f"

def replacement : PatchReplacement := ⟨⟨hexes '0', 0⟩, hexes '1', 1⟩

def intent (operationId : String) : IntentRecord :=
  ⟨request operationId, replacement, hexes 'd', 0⟩

def target : Inode where
  dev := 1
  ino := 2
  mode := 0o100644
  uid := 501
  gid := 20
  nlink := 1
  mtimeNs := 0
  ctimeNs := 0
  flags := 0
  data := []
  xattrs := []
  ino_ne_zero := by decide

def dispatch (operationId : String) : DispatchRecord where
  request := request operationId
  intentFingerprint := hexes 'd'
  createdAt := 0
  anchors := ⟨(1, 1), [(1, 1)], (1, 1)⟩
  original := target.content digests
  tempName := tempPrefix ++ List.replicate 32 '0' ++ tempSuffix

def payload : TaskPayload where
  id := "t"
  projectId := some "q"
  writerKey := "k"
  workspace := "w"
  allowedPaths := ["f"]
  protectedPaths := []
  checks := []
  requiredReview := false
  review := none
  ownerAcceptance := false
  publication := {}
  maxAttempts := 3
  dependencies := []

/-- A ledger with one task and its live run. -/
def ledger : Ledger := { Ledger.empty with
  tasks := Table.put ∅ "t" ⟨"p", 0, 0, .inProgress, payload⟩
  runs :=
    Table.put ∅ "r" ⟨"t", 1, "w", .running, "l", "0", none, none, none, none, none, none, none⟩ }

/-- The intents of two operations, and the dispatch of the first. -/
def dispatched : State where
  ledger := ledger
  runtime := ⟨some (Table.put ∅ (hexes 'c')
      ⟨Table.put (Table.put ∅ (hexes 'a') (intent "o")) (hexes 'b') (intent "p"), []⟩),
    some (Table.put ∅ (hexes 'c') (Table.put ∅ (hexes 'a') ⟨{ dispatch := dispatch "o" }, []⟩))⟩
  files := Table.put ∅ "f" target

def env : Env where
  name := ['n']
  host := fun _ o =>
    match o with
    | .leaseFromCapability _ => .ok "l"
    | _ => .error (.value "unavailable")

def lateDenial : List Env := List.replicate 16 env ++ [{ env with authority := false }, env]

theorem dispatched_ready : dispatched.runtime.census machine.digests machine.uid.toNat =
    .ready [⟨"r", "o", { dispatch := dispatch "o" }⟩] := by
  decide

theorem reads_authorize : (act (.authorize binding)).Reads :=
  reads_act (a := .authorize binding) trivial

def conflicting : Prog bridgeSig Exn AppendReply × State × ℕ :=
  (append machine (.dispatch { dispatch "o" with createdAt := 1 }) (act (.authorize binding))).exec
    (counted machine staging) (List.replicate 6 env) (dispatched, 0)

def deniedLate : Prog bridgeSig Exn AppendReply × State :=
  (append machine (.dispatch (dispatch "p")) (act (.authorize binding))).exec
    (bridgeSemantics machine) lateDenial dispatched

end Scenario

open OrchKit.Bridge.Scenario in
theorem declined_census_conflicting :
    conflicting.2.1.runtime.census machine.digests machine.uid.toNat =
      .ready [⟨"r", "o", { dispatch := dispatch "o" }⟩] := by
  have hreply : conflicting.1.returned? = some ⟨.conflict, "patch_execution_phase_conflict"⟩ := by
    decide
  have hrun : conflicting = (.ret ⟨.conflict, "patch_execution_phase_conflict"⟩,
      conflicting.2.1, conflicting.2.2) :=
    Prod.ext (Prog.returned?_eq_some_iff.mp hreply) rfl
  have hfound : dispatched.runtime.opDir machine.digests "r" "o" ≠ none := by decide
  rw [declined_census reads_authorize hrun (.inr rfl) dispatched_ready]
  exact if_neg fun h => hfound h.2

open OrchKit.Bridge.Scenario in
theorem not_always_census_kept : ¬ ∀ (m : Machine) (s s' : State) (record : ExecutionRecord)
    (authorize : Routine Unit) (envs : List Env) (reply : AppendReply)
    (operations : List Operation),
    authorize.Reads → (append m record authorize).exec (bridgeSemantics m) envs s =
      (.ret reply, s') →
    reply.status = .refused ∨ reply.status = .conflict →
    s.runtime.census m.digests m.uid.toNat = .ready operations →
    s'.runtime.census m.digests m.uid.toNat = .ready operations := by
  intro h
  have hreply : deniedLate.1.returned? = some ⟨.refused, "patch_execution_authority_denied"⟩ := by
    decide
  have hunknown : deniedLate.2.runtime.census machine.digests machine.uid.toNat = .unknown := by
    decide
  have hrun : deniedLate = (.ret ⟨.refused, "patch_execution_authority_denied"⟩, deniedLate.2) :=
    Prod.ext (Prog.returned?_eq_some_iff.mp hreply) rfl
  have hkept := h _ _ _ _ _ _ _ _ reads_authorize hrun (.inl rfl) dispatched_ready
  rw [hunknown] at hkept
  cases hkept

end OrchKit.Bridge
