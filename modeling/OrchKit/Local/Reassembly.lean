import OrchKit.Local.Reservations

/-! # Reading the output of a child that has exited

What a settled child retains no longer changes. Polls of it, each from where the one before has
stopped, hand it over piece by piece, and each takes at least three bytes of it if its limit leaves
room for them. What they cannot do is go on for ever: each of them is kept, and once the replies
that are kept leave no room the next poll is refused.
-/

namespace OrchKit.Local

open Bridge Json

namespace Owner

/-- The child is there, and only what is known of its exit has changed. -/
def Kept (owner : Owner) (handle : String) (child : Child) : Prop :=
  ∃ last, owner.children.lookup handle = some last ∧ last.settled ∧ last.output = child.output ∧
    last.total = child.total ∧ last.exitCode = child.exitCode ∧ last.reason = child.reason

section Kept

variable {hash : ProcessEvent → Digest} {owner : Owner} {handle : String} {child : Child}
  {request : WorkerOperationRequest} {a : Served} {cursor : ℤ} {outcome : Reply}

/-- What goes on with a child that is kept. -/
theorem Kept.onward {after : Owner} (h : owner.Kept handle child)
    (hafter : ∀ last, owner.children.lookup handle = some last → ∃ later terminate outcome,
      last.Onward later ∧
      after.children.lookup handle = some (release terminate later outcome)) :
    after.Kept handle child := by
  obtain ⟨last, hlast, hset, h₁, h₂, h₃, h₄⟩ := h
  obtain ⟨later, terminate, outcome, honward, hlater⟩ := hafter last hlast
  obtain ⟨hset', h₁', h₂', h₃', h₄'⟩ := honward.settled hset
  have hfields : (release terminate later outcome).toChild = later.toChild := by
    unfold release
    split
    · split
      · rfl
      · split <;> rfl
    · rfl
  refine ⟨_, hlater, ?_, ?_, ?_, ?_, ?_⟩
  all_goals rw [hfields]
  · exact hset'
  · exact h₁'.trans h₁
  · exact h₂'.trans h₂
  · exact h₃'.trans h₃
  · exact h₄'.trans h₄

theorem Kept.modifyChild {other : String} {f : OwnedChild → OwnedChild}
    (h : owner.Kept handle child) (hf : ∀ last : OwnedChild, last.Onward (f last)) :
    (owner.modifyChild other f).Kept handle child := by
  apply h.onward
  intro last hlast
  rw [Owner.modifyChild, Table.lookup_modify]
  split
  next =>
    refine ⟨f last, false, .unknown "", hf last, ?_⟩
    rw [hlast]
    rfl
  next => exact ⟨last, false, .unknown "", .refl last, hlast⟩

theorem Kept.report (h : owner.Kept handle child) (terminate : Bool) :
    (owner.report hash request a cursor terminate).1.Kept handle child := by
  cases hc : owner.children.lookup request.target with
  | none =>
    simp only [Owner.report, hc]
    split
    · exact h
    · split
      · exact h
      · exact h
  | some asked =>
    by_cases hroom : owner.occupied < maxCache ∨
        (if terminate then asked.terminateReserved else asked.terminalReserved) = true
    · rcases hobs : observe hash request a asked cursor.toNat terminate
        (!decide (owner.occupied < maxCache)) with ⟨later, outcome⟩
      have honward : asked.Onward later := by
        have hthis := onward_observe hash request a asked cursor.toNat terminate
          (!decide (owner.occupied < maxCache))
        rwa [hobs] at hthis
      have hmodify : ∀ outcome : Reply, (owner.modifyChild request.target fun _ =>
          release terminate later outcome).Kept handle child := by
        intro outcome
        apply h.onward
        intro last hlast
        rw [Owner.modifyChild, Table.lookup_modify]
        split
        next heq =>
          rw [heq, hc] at hlast
          cases hlast
          refine ⟨later, terminate, outcome, honward, ?_⟩
          rw [heq, hc]
          rfl
        next => exact ⟨last, false, .unknown "", .refl last, hlast⟩
      rw [report_of_child hc hroom hobs]
      cases outcome with
      | none => exact hmodify (.unknown "")
      | some outcome =>
        simp only
        split
        · exact hmodify outcome
        · exact hmodify outcome
    · rw [report_full hc hroom]
      exact h

theorem Kept.operate {call : Call} (h : owner.Kept handle child) (hs : owner.Sound) :
    (owner.operate hash request a call).1.Kept handle child := by
  unfold Owner.operate
  split
  · exact h
  · split
    · exact h
    · split
      · exact h
      · split
        · apply h.onward
          intro last hlast
          refine ⟨last.stop "owner_cleanup", false, .unknown "", OwnedChild.onward_stop
            (by decide), ?_⟩
          rw [Owner.cleanupRequests, Table.lookup_filterMap]
          exact Option.bind_eq_some_iff.mpr ⟨last, hlast, rfl⟩
        · split
          · split <;> exact h
          · cases call with
            | start =>
              simp only
              split
              · exact h
              next hroom =>
                have hstarted := started_start request a hs (by omega)
                have hkept : (owner.start request a).1.Kept handle child := by
                  apply h.onward
                  intro last hlast
                  obtain ⟨later, hlater, honward⟩ := hstarted.onward handle last hlast
                  exact ⟨later, false, .unknown "", honward, hlater⟩
                split
                next heq =>
                  rw [heq] at hkept
                  exact hkept
                next heq =>
                  rw [heq] at hkept
                  exact hkept
            | poll cursor => exact h.report false
            | terminate => exact h.report true

theorem Kept.run (h : owner.Kept handle child) (hs : owner.Sound) :
    ∀ events : List Event, (owner.run hash events).Kept handle child := by
  intro events
  induction events generalizing owner with
  | nil => exact h
  | cons event events ih =>
    apply ih _ (sound_step hs event)
    cases event with
    | called call request a => exact h.operate hs
    | supervised other s => exact h.modifyChild fun last => OwnedChild.onward_supervise s
    | recorded other stored => exact h.modifyChild fun last =>
        OwnedChild.onward_recordExit hash stored
    | intended seq intent => exact h

end Kept

/-! ### Polls -/

def ended (child : Child) : Child :=
  { child with settled := true, recorded := true, isUnknown := false }

/-- The limit leaves room for one more group in base 64, or for what is left. -/
def RoomForGroup (request : WorkerOperationRequest) (handle : String) (child : Child)
    (cursor : ℕ) : Prop :=
  ((ended child).body handle cursor (min 3 (child.output.length - cursor))).size ≤
    request.maxOutputBytes

/-- Polls of a child that are answered, each from where the one before has stopped, with whatever
happens in between. -/
inductive Polls (hash : ProcessEvent → Digest) (handle : String) (child : Child) :
    Owner → ℕ → List ProcessBody → Owner → ℕ → Prop
  | done (owner : Owner) (cursor : ℕ) : Polls hash handle child owner cursor [] owner cursor
  | poll {owner after last : Owner} {cursor next : ℕ} {request : WorkerOperationRequest}
      {a : Served} {body : ProcessBody} {bodies : List ProcessBody} (events : List Event)
      (admitted : Admitted (owner.run hash events) (.poll cursor) request a)
      (target : request.target = handle) (room : RoomForGroup request handle child cursor)
      (answer : (owner.run hash events).operate hash request a (.poll cursor) =
        (after, .succeeded body))
      (rest : Polls hash handle child after body.nextCursor bodies last next) :
      Polls hash handle child owner cursor (body :: bodies) last next

section Polls

variable {hash : ProcessEvent → Digest} {owner after last : Owner} {handle : String}
  {child : Child} {request : WorkerOperationRequest} {a : Served} {cursor next : ℕ}
  {reply : Reply} {bodies : List ProcessBody}

theorem body_ended {later : OwnedChild} {n : ℕ} (hexited : later.exited)
    (h₁ : later.output = child.output) (h₂ : later.total = child.total)
    (h₃ : later.exitCode = child.exitCode) (h₄ : later.reason = child.reason) :
    later.toChild.body handle cursor n = (ended child).body handle cursor n := by
  have hended : (later.settled && later.recorded) = true := hexited
  simp only [Child.body, ended, hended, h₁, h₂, h₃, h₄, Bool.and_self, if_true]
  rfl

/-- A poll of a settled child is answered with the longest slice that fits, unless it is refused for
want of room or the exit has become unknown. -/
theorem poll_settled (h : owner.Sound) (hk : owner.Kept handle child)
    (hq : Admitted owner (.poll cursor) request a) (ht : request.target = handle)
    (hc : cursor ≤ child.output.length)
    (hop : owner.operate hash request a (.poll cursor) = (after, reply)) :
    (∀ seen, after.children.lookup handle = some seen → ¬ seen.isUnknown →
      reply = .refused "process_operation_capacity" ∨ ∃ body, reply = .succeeded body) ∧
    ∀ body, reply = .succeeded body → ∃ n ≤ (child.output.drop cursor).length,
      body = (ended child).body handle cursor n ∧
      ∀ m ≤ (child.output.drop cursor).length,
        ((ended child).body handle cursor m).size ≤ request.maxOutputBytes → m ≤ n := by
  subst ht
  obtain ⟨owned, hlook, hset, h₁, h₂, h₃, h₄⟩ := hk
  have hplain := hq.plain (by simp)
  have hsound := h.child _ owned hlook
  have hcall : owner.operate hash request a (.poll cursor) =
      owner.report hash request a cursor false :=
        operate_of_admitted hq (Int.natCast_nonneg _) (by simp)
  rw [hcall] at hop
  by_cases hroom : owner.occupied < maxCache ∨
      (if false then owned.terminateReserved else owned.terminalReserved) = true
  · obtain ⟨later, outcome, last, hobs, hlast, hunknown, -, hreply, -⟩ :=
      report_let_through hash a (cursor : ℤ) hlook hroom
    have honward := onward_observe hash request a owned (cursor : ℤ).toNat false
      (!decide (owner.occupied < maxCache))
    have hknown : ∀ body, (observe hash request a owned (cursor : ℤ).toNat false
        (!decide (owner.occupied < maxCache))).2 = some (.succeeded body) →
          ¬ (observe hash request a
        owned (cursor : ℤ).toNat false (!decide (owner.occupied < maxCache))).1.isUnknown :=
      fun _ => not_isUnknown_of_observe
    rw [hobs] at honward hknown
    obtain ⟨hset', h₁', h₂', h₃', h₄'⟩ := honward.settled hset
    have answered : ¬ later.isUnknown → ∃ n ≤ (child.output.drop cursor).length,
        outcome = some (.succeeded ((ended child).body request.target cursor n)) ∧
        ∀ m ≤ (child.output.drop cursor).length,
          ((ended child).body request.target cursor m).size ≤ request.maxOutputBytes → m ≤ n := by
      intro hu
      obtain ⟨hexited, n, hn, houtcome, -, hmax⟩ := observe_settled hplain hsound hq.fits
        (by rw [h₁]; exact hc) hset hobs hu
      have hbody : ∀ m, later.toChild.body request.target cursor m =
          (ended child).body request.target cursor m := fun m =>
        body_ended hexited (h₁'.trans h₁) (h₂'.trans h₂) (h₃'.trans h₃) (h₄'.trans h₄)
      rw [Int.toNat_natCast] at hn houtcome hmax
      rw [h₁', h₁] at hn hmax
      simp only [hbody] at houtcome hmax
      exact ⟨n, hn, houtcome, hmax⟩
    rw [hop] at hlast hreply
    refine ⟨?_, ?_⟩
    · intro seen hseen hu
      rw [hlast] at hseen
      cases hseen
      obtain ⟨n, -, rfl, -⟩ := answered (by rwa [← hunknown])
      exact .inr ⟨_, hreply⟩
    · rintro body rfl
      cases outcome with
      | none => cases hreply
      | some outcome =>
        cases hreply
        obtain ⟨n, hn, houtcome, hmax⟩ := answered (hknown body rfl)
        simp only [Option.some.injEq, WorkerOperationOutcome.succeeded.injEq] at houtcome
        exact ⟨n, hn, houtcome, hmax⟩
  · rw [report_full hlook hroom] at hop
    cases hop
    exact ⟨fun _ _ _ => .inl rfl, fun body hbody => by cases hbody⟩

/-- What answered polls come to: the pieces put together are the output between the cursors, and
each poll goes on by three bytes or to the end. -/
structure Read (child : Child) (cursor : ℕ) (bodies : List ProcessBody) (next : ℕ) : Prop where
  within : cursor ≤ next ∧ next ≤ child.output.length
  pieces : bodies.flatMap (fun body => unbase64 (base64 body.data)) =
    (child.output.drop cursor).take (next - cursor)
  progress : min (cursor + 3 * bodies.length) child.output.length ≤ next
  more : ∀ body ∈ bodies.getLast?, body.hasMore = decide (next < child.output.length)

theorem Read.done (hc : cursor ≤ child.output.length) : Read child cursor [] cursor where
  within := ⟨le_rfl, hc⟩
  pieces := by simp
  progress := min_le_left _ _
  more := by simp

theorem Read.poll {n : ℕ} (hn : n ≤ (child.output.drop cursor).length)
    (hgroup : min 3 (child.output.length - cursor) ≤ n) (hc : cursor ≤ child.output.length)
    (hrest : Read child (cursor + n) bodies next) :
    Read child cursor ((ended child).body handle cursor n :: bodies) next := by
  have hlen : (child.output.drop cursor).length = child.output.length - cursor := List.length_drop
  rw [hlen] at hn
  obtain ⟨hle, hend⟩ := hrest.within
  have hprogress := hrest.progress
  refine ⟨⟨by omega, hend⟩, ?_, ?_, ?_⟩
  · have hdata : ((ended child).body handle cursor n).data = (child.output.drop cursor).take n :=
      rfl
    have hsplit : next - cursor = n + (next - (cursor + n)) := by omega
    rw [List.flatMap_cons, unbase64_base64, hrest.pieces, hdata, hsplit, List.take_add,
      List.drop_drop]
  · rw [List.length_cons]
    omega
  · intro body hbody
    cases bodies with
    | nil =>
      -- The last piece says whether there is more.
      rw [List.getLast?_singleton] at hbody
      cases hbody
      have hpieces := congrArg List.length hrest.pieces
      rw [List.flatMap_nil, List.length_nil, List.length_take, List.length_drop] at hpieces
      have hmore : ((ended child).body handle cursor n).hasMore =
          decide (n < (child.output.drop cursor).length) := rfl
      rw [hmore, hlen, decide_eq_decide]
      omega
    | cons other bodies =>
      rw [List.getLast?_cons_cons] at hbody
      exact hrest.more body hbody

theorem Polls.read (h : Polls hash handle child owner cursor bodies last next) (hs : owner.Sound)
    (hk : owner.Kept handle child) (hc : cursor ≤ child.output.length) :
    Read child cursor bodies next ∧ last.Sound ∧ last.Kept handle child := by
  induction h with
  | done owner cursor => exact ⟨.done hc, hs, hk⟩
  | @poll owner after last cursor next request a body bodies events hq ht hroom hop hrest ih =>
    have hs' : (owner.run hash events).Sound := sound_run hs events
    have hk' : (owner.run hash events).Kept handle child := hk.run hs events
    obtain ⟨n, hn, rfl, hmax⟩ := (poll_settled hs' hk' hq ht hc hop).2 body rfl
    have hlen : (child.output.drop cursor).length = child.output.length - cursor := List.length_drop
    have hafter : after.Sound ∧ after.Kept handle child := by
      have hsound : ((owner.run hash events).operate hash request a (.poll cursor)).1.Sound :=
        sound_operate hs'
      have hkept : ((owner.run hash events).operate hash request a (.poll cursor)).1.Kept
          handle child :=
        hk'.operate hs'
      rw [hop] at hsound hkept
      exact ⟨hsound, hkept⟩
    have hnext : ((ended child).body handle cursor n).nextCursor = cursor + n := by
      have hdata : ((ended child).body handle cursor n).data.length = n := length_data hn
      rw [ProcessBody.nextCursor, hdata]
      rfl
    rw [hnext] at ih
    obtain ⟨hread, hlast⟩ := ih hafter.1 hafter.2 (by omega)
    refine ⟨hread.poll hn ?_ hc, hlast⟩
    exact hmax _ (by omega) hroom

/-- Every reply on a child is within its limit and carries the longest slice from its cursor that
fits. Polls of a settled child, with limits that leave room for one more group, have put together
its output up to their cursor, and come to its end after a third as many polls as it has bytes; the
next poll is answered unless the kept replies leave no room for another or the exit has become
unknown. -/
theorem slices_reassemble (hash : ProcessEvent → Digest) (owner : Owner)
    (h : Reachable hash owner) (handle : String) (child : OwnedChild)
    (hc : owner.children.lookup handle = some child) :
    (∀ request cursor, identifier 200 isWord handle → ¬ child.isUnknown →
      cursor ≤ child.output.length → minimumFits request handle → child.total < 10 ^ 15 →
      ∃ n ≤ (child.output.drop cursor).length,
        envelope request handle child.toChild cursor =
          .ok (.succeeded (child.toChild.body handle cursor n)) ∧
        (child.toChild.body handle cursor n).size ≤ request.maxOutputBytes ∧
        ∀ m ≤ (child.output.drop cursor).length,
          (child.toChild.body handle cursor m).size ≤ request.maxOutputBytes → m ≤ n) ∧
    (child.settled → ∀ bodies last cursor,
      Polls hash handle child.toChild owner 0 bodies last cursor →
      bodies.flatMap (fun body => unbase64 (base64 body.data)) = child.output.take cursor ∧
      (child.output.length ≤ 3 * bodies.length → cursor = child.output.length ∧
        ∀ body ∈ bodies.getLast?, ¬ body.hasMore) ∧
      ∀ events request a, Admitted (last.run hash events) (.poll cursor) request a →
        request.target = handle → ∀ seen,
        ((last.run hash events).operate hash request a (.poll cursor)).1.children.lookup handle =
          some seen → ¬ seen.isUnknown →
        ((last.run hash events).operate hash request a (.poll cursor)).2 =
            .refused "process_operation_capacity" ∨
          ∃ body, ((last.run hash events).operate hash request a (.poll cursor)).2 =
            .succeeded body) := by
  have hs := h.sound
  have hbounded := (hs.child handle child hc).bounded
  refine ⟨?_, ?_⟩
  · intro request cursor hh hu hcursor hm ht
    have hplain := plain_of_identifier hh
    exact envelope_of_fits hplain hbounded hu
      (empty_fits hplain hbounded hcursor hm (lt_trans ht (by decide)))
  · intro hset bodies last cursor hpolls
    have hk : owner.Kept handle child.toChild := ⟨child, hc, hset, rfl, rfl, rfl, rfl⟩
    obtain ⟨hread, hlast, hkept⟩ := hpolls.read hs hk (Nat.zero_le _)
    obtain ⟨-, hend⟩ := hread.within
    refine ⟨hread.pieces, ?_, ?_⟩
    · intro hlen
      have hprogress := hread.progress
      have hall : cursor = child.output.length := by omega
      refine ⟨hall, fun body hbody => ?_⟩
      rw [hread.more body hbody, hall]
      simp
    · intro events request a hq ht seen hseen hu
      rcases hop : (last.run hash events).operate hash request a (.poll cursor) with ⟨after, reply⟩
      rw [hop] at hseen
      exact (poll_settled (sound_run hlast events) (hkept.run hlast events) hq ht hend hop).1 seen
        hseen hu

end Polls

open OrchKit.Local.Owner.Scenario in
theorem slices_reassemble_exited :
    ∃ child, Scenario.owner.children.lookup "proc-1" = some child ∧
      (∃ n ≤ (child.output.drop 0).length,
        envelope (ask "poll" .processPoll) "proc-1" child.toChild 0 =
          .ok (.succeeded (child.toChild.body "proc-1" 0 n)) ∧
        ∀ m ≤ (child.output.drop 0).length,
          (child.toChild.body "proc-1" 0 m).size ≤ 4096 → m ≤ n) ∧
      ∀ seen, (Scenario.owner.operate (fun _ => zeros) (ask "poll" .processPoll) {}
          (.poll (0 : ℕ))).1.children.lookup "proc-1" = some seen → ¬ seen.isUnknown →
        (Scenario.owner.operate (fun _ => zeros) (ask "poll" .processPoll) {} (.poll (0 : ℕ))).2 =
            .refused "process_operation_capacity" ∨
          ∃ body, (Scenario.owner.operate (fun _ => zeros) (ask "poll" .processPoll) {}
            (.poll (0 : ℕ))).2 = .succeeded body := by
  have hsome : (Scenario.owner.children.lookup "proc-1").any (fun child =>
      child.settled ∧ ¬ child.isUnknown ∧ child.total < 10 ^ 15) = true := by
    decide +kernel
  obtain ⟨child, hchild, hfacts⟩ := (Option.any_eq_true _ _).mp hsome
  obtain ⟨hsettled, hknown, htotal⟩ := of_decide_eq_true hfacts
  have hq : Admitted Scenario.owner (.poll (0 : ℕ)) (ask "poll" .processPoll) {} :=
    ⟨rfl, by decide, by decide +kernel, rfl, rfl, by decide +kernel, by decide +kernel⟩
  obtain ⟨hslices, hpolls⟩ := slices_reassemble (fun _ => zeros) Scenario.owner
    ⟨runBinding, zeros, [profile], [], Scenario.events, rfl⟩ "proc-1" child hchild
  refine ⟨child, hchild, ?_, ?_⟩
  · obtain ⟨n, hn, henvelope, -, hmax⟩ := hslices (ask "poll" .processPoll) 0 (by decide)
      hknown (Nat.zero_le _) (by decide +kernel) htotal
    exact ⟨n, hn, henvelope, hmax⟩
  · obtain ⟨-, -, hnext⟩ := hpolls hsettled [] Scenario.owner 0 (.done _ _)
    have hnow := hnext []
    simp only [run, List.foldl_nil] at hnow
    exact hnow (ask "poll" .processPoll) {} hq rfl

/-- As long as there is more of the output of a settled child, a poll with room for one more group
is answered with a piece of it. -/
def Reassembles (hash : ProcessEvent → Digest) : Prop :=
  ∀ owner handle child, Reachable hash owner → owner.children.lookup handle = some child →
    child.settled →
      ∀ bodies last cursor, Polls hash handle child.toChild owner 0 bodies last cursor →
    cursor < child.output.length → ∀ request a, Admitted last (.poll cursor) request a →
    request.target = handle → RoomForGroup request handle child.toChild cursor →
    ∀ seen, (last.operate hash request a (.poll cursor)).1.children.lookup handle = some seen →
    ¬ seen.isUnknown → ∃ body, (last.operate hash request a (.poll cursor)).2 = .succeeded body

instance (request : WorkerOperationRequest) (handle : String) (child : Child) (cursor : ℕ) :
    Decidable (RoomForGroup request handle child cursor) :=
  inferInstanceAs (Decidable (_ ≤ _))

namespace Scenario

def nobody (c : Char) : Event :=
  .called (.poll 0) { ask (String.singleton c) .processPoll with target := "none" } {}

def crowd : List Event :=
  [.called .start { ask "start" .processStart with target := "python" }
      { handle := "proc-1", dispatched := .stored 1 },
    .supervised "proc-1" (.read (List.replicate 100 65)), .supervised "proc-1" (.read []),
    .supervised "proc-1" (.reaped 0)] ++
  "ABCDEFGHIJKLMNOPQRSTUVWXYZabcdefghijklmnopqrstuvwxyz012345678".toList.map nobody

def crowded : Owner := (opened runBinding zeros [profile] []).run (fun _ => zeros) crowd

def tight (operationId : String) : WorkerOperationRequest :=
  { ask operationId .processPoll with maxOutputBytes := 273 }

def poll (owner : Owner) (operationId : String) (cursor : ℕ) : Owner × Reply :=
  owner.operate (fun _ => zeros) (tight operationId) {} (.poll cursor)

def nextOf : Reply → ℕ
  | .succeeded body => body.nextCursor
  | _ => 0

/-- The first poll hands over 33 of a hundred bytes, and the second is refused. -/
structure Stalls (owner : Owner) (first second : Owner × Reply) : Prop where
  child : (owner.children.lookup "proc-1").any (fun child => child.settled ∧
    child.output.length = 100 ∧ RoomForGroup (tight "first") "proc-1" child.toChild 0 ∧
    RoomForGroup (tight "second") "proc-1" child.toChild 33) = true
  fresh : owner.outcomes.lookup "first" = none ∧ first.1.outcomes.lookup "second" = none
  binding : owner.binding = runBinding ∧ first.1.binding = runBinding
  read : first.2.state = "SUCCEEDED" ∧ nextOf first.2 = 33
  seen : (second.1.children.lookup "proc-1").any (fun child => ¬ child.isUnknown) = true
  refused : second.2.errorCode = some "process_operation_capacity"

theorem not_reassembles_of_stalls {owner : Owner} {first second : Owner × Reply}
    (hr : Reachable (fun _ => zeros) owner) (hfirst : poll owner "first" 0 = first)
    (hsecond : poll first.1 "second" 33 = second) (h : Stalls owner first second) :
    ¬ Reassembles fun _ => zeros := by
  intro hall
  obtain ⟨child, hchild, hfacts⟩ := (Option.any_eq_true _ _).mp h.child
  obtain ⟨hsettled, hlen, hroom, hroom'⟩ := of_decide_eq_true hfacts
  obtain ⟨seen, hlast, hknown⟩ := (Option.any_eq_true _ _).mp h.seen
  obtain ⟨body, hbody⟩ := succeeded_of_state h.read.1
  have hcursor : body.nextCursor = 33 := by
    have hnext := h.read.2
    rwa [hbody] at hnext
  have hq : Admitted owner (.poll (0 : ℕ)) (tight "first") {} :=
    ⟨rfl, by decide, h.binding.1.symm, rfl, rfl, h.fresh.1, by decide +kernel⟩
  have hq' : Admitted first.1 (.poll (33 : ℕ)) (tight "second") {} :=
    ⟨rfl, by decide, h.binding.2.symm, rfl, rfl, h.fresh.2, by decide +kernel⟩
  have hanswer : poll owner "first" 0 = (first.1, .succeeded body) := by
    rw [hfirst, ← hbody]
  have hpolls : Polls (fun _ => zeros) "proc-1" child.toChild owner 0 [body] first.1 33 := by
    refine .poll [] hq rfl hroom hanswer ?_
    rw [hcursor]
    exact .done first.1 33
  obtain ⟨other, hother⟩ := hall owner "proc-1" child hr hchild hsettled [body] first.1 33 hpolls
    (by omega) (tight "second") {} hq' rfl hroom' seen (by rw [← hsecond] at hlast; exact hlast)
    (of_decide_eq_true hknown)
  have hrefused := h.refused
  rw [← hsecond, show (poll first.1 "second" 33).2 = .succeeded other from hother] at hrefused
  cases hrefused

end Scenario

open OrchKit.Local.Owner.Scenario in
/-- The one place that is left is spent on the first piece, and there is none for the second. -/
theorem not_reassembles : ¬ Reassembles fun _ => zeros := by
  have hfacts : (crowded.children.lookup "proc-1").any (fun child => child.settled ∧
        child.output.length = 100 ∧ RoomForGroup (tight "first") "proc-1" child.toChild 0 ∧
        RoomForGroup (tight "second") "proc-1" child.toChild 33) = true ∧
      ((crowded.outcomes.lookup "first").isNone = true ∧
        ((poll crowded "first" 0).1.outcomes.lookup "second").isNone = true) ∧
      (crowded.binding = runBinding ∧ (poll crowded "first" 0).1.binding = runBinding) ∧
      ((poll crowded "first" 0).2.state = "SUCCEEDED" ∧ nextOf (poll crowded "first" 0).2 = 33) ∧
      ((poll (poll crowded "first" 0).1 "second" 33).1.children.lookup "proc-1").any
        (fun child => ¬ child.isUnknown) = true ∧
      (poll (poll crowded "first" 0).1 "second" 33).2.errorCode =
        some "process_operation_capacity" := by
    decide +kernel
  obtain ⟨hchild, ⟨hfresh, hfresh'⟩, hbinding, hread, hseen, hrefused⟩ := hfacts
  rw [Option.isNone_iff_eq_none] at hfresh hfresh'
  have hstalls : Stalls crowded (poll crowded "first" 0)
      (poll (poll crowded "first" 0).1 "second" 33) :=
    ⟨hchild, ⟨hfresh, hfresh'⟩, hbinding, hread, hseen, hrefused⟩
  exact not_reassembles_of_stalls ⟨runBinding, zeros, [profile], [], crowd, rfl⟩ rfl rfl hstalls

end Owner

end OrchKit.Local
