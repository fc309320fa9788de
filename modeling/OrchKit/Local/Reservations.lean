import OrchKit.Local.Owner
import OrchKit.Local.Slicing

/-! # Room for the replies that are still owed

A child is started only if there is room for three replies: the one to its start, and one each to
a stop and to a poll that sees its exit. The room that is kept is given up only for the reply it is
kept for, so that these two can be had in whatever order requests, replays and exits come.
-/

namespace OrchKit.Local

open Bridge Json

/-! ### Children -/

namespace OwnedChild

/-- What holds of a child at any time. -/
structure Sound (child : OwnedChild) : Prop where
  retained : child.output.length ≤ child.profile.maxOutputBytes
  reason : ∀ r ∈ child.reason, r ∈ reasons
  stopReason : ∀ r ∈ child.stopReason, r ∈ reasons
  recorded : child.recorded → child.settled ∧ child.total < 2 ^ 63 ∧
    ∃ code, child.exitCode = some code ∧ -2 ^ 31 ≤ code ∧ code < 2 ^ 31
  attempted : child.recordAttempted → child.recorded ∨ child.isUnknown

/-- What can become of a child: its reservations stay, its output is only added to, and once it is
settled only what is known of its exit changes. -/
structure Onward (child later : OwnedChild) : Prop where
  sound : child.Sound → later.Sound
  terminate : later.terminateReserved = child.terminateReserved
  terminal : later.terminalReserved = child.terminalReserved
  output : child.output <+: later.output
  settled : child.settled → later.settled ∧ later.output = child.output ∧
    later.total = child.total ∧ later.exitCode = child.exitCode ∧ later.reason = child.reason
  recorded : child.recorded → later.recorded
  unknown : child.isUnknown → later.isUnknown

variable {child later last : OwnedChild} {hash : ProcessEvent → Digest}

theorem Sound.bounded (h : child.Sound) : child.toChild.Bounded where
  retained := h.retained.trans child.profile.bounded.2
  reason := h.reason
  code := by
    intro _ hrecorded i hi
    obtain ⟨-, -, code, hcode, hrange⟩ := h.recorded hrecorded
    rw [hcode] at hi
    cases hi
    exact hrange

theorem Sound.exited_iff (h : child.Sound) : child.exited ↔ child.recorded := by
  rw [exited, Bool.and_eq_true]
  exact ⟨fun he => he.2, fun hr => ⟨(h.recorded hr).1, hr⟩⟩

theorem sound_spawned (profile : Profile) (seq : ℕ) (intent : ProcessDispatch) :
    (spawned profile seq intent).Sound where
  retained := Nat.zero_le _
  reason := by simp [spawned]
  stopReason := by simp [spawned]
  recorded := by simp [spawned]
  attempted := by simp [spawned]

namespace Onward

theorem refl (child : OwnedChild) : Onward child child :=
  ⟨fun h => h, rfl, rfl, List.prefix_rfl, fun h => ⟨h, rfl, rfl, rfl, rfl⟩, fun h => h, fun h => h⟩

theorem trans (h : Onward child later) (h' : Onward later last) : Onward child last where
  sound hs := h'.sound (h.sound hs)
  terminate := h'.terminate.trans h.terminate
  terminal := h'.terminal.trans h.terminal
  output := h.output.trans h'.output
  settled hs := by
    obtain ⟨h₁, h₂, h₃, h₄, h₅⟩ := h.settled hs
    obtain ⟨h₁', h₂', h₃', h₄', h₅'⟩ := h'.settled h₁
    exact ⟨h₁', h₂'.trans h₂, h₃'.trans h₃, h₄'.trans h₄, h₅'.trans h₅⟩
  recorded hr := h'.recorded (h.recorded hr)
  unknown hu := h'.unknown (h.unknown hu)

end Onward

theorem onward_stop {reason : String} (hr : reason ∈ reasons) :
    Onward child (child.stop reason) := by
  unfold stop
  split
  next h =>
    refine ⟨?_, rfl, rfl, List.prefix_rfl, fun hs => ⟨hs, rfl, rfl, rfl, rfl⟩, fun h => h,
      fun h => h⟩
    intro hs
    refine ⟨hs.retained, hs.reason, ?_, hs.recorded, hs.attempted⟩
    intro r h'
    cases h'
    exact hr
  next => exact .refl child

theorem settled_stop {reason : String} : (child.stop reason).settled = child.settled := by
  unfold stop
  split <;> rfl

theorem onward_signal (hs : ¬ child.settled) : Onward child child.signal := by
  unfold signal
  split
  next =>
    refine ⟨?_, rfl, rfl, List.prefix_rfl, fun h => absurd h hs, fun h => h, fun h => h⟩
    exact fun h => ⟨h.retained, h.stopReason, h.stopReason, h.recorded, h.attempted⟩
  next => exact .refl child

theorem Sound.of_not_settled (h : child.Sound) (hs : ¬ child.settled) : ¬ child.recorded :=
  fun hr => hs (h.recorded hr).1

theorem onward_supervise (s : Supervision) : Onward child (child.supervise s) := by
  cases s with
  | lost =>
    exact ⟨fun h => ⟨h.retained, h.reason, h.stopReason, h.recorded, fun _ => .inr rfl⟩, rfl, rfl,
      List.prefix_rfl, fun hs => ⟨hs, rfl, rfl, rfl, rfl⟩, fun h => h, fun _ => rfl⟩
  | running late =>
    simp only [supervise]
    split
    next => exact .refl child
    next hgo =>
      have hrunning : ¬ child.settled := fun hs => hgo (.inl hs)
      split
      · exact (onward_stop (by decide)).trans (onward_signal (by rwa [settled_stop]))
      · exact onward_signal hrunning
  | reaped code =>
    simp only [supervise]
    split
    next => exact .refl child
    next hgo =>
      rw [not_or] at hgo
      refine ⟨?_, rfl, rfl, List.prefix_rfl, fun hs => absurd hs hgo.1, fun h => h, fun h => h⟩
      intro h
      refine ⟨h.retained, ?_, h.stopReason, fun hr => absurd hr (h.of_not_settled hgo.1),
        h.attempted⟩
      intro r hr
      cases hc : child.reason with
      | none =>
        simp only [hc] at hr
        cases hr
        decide
      | some r' =>
        simp only [hc] at hr
        cases hr
        exact h.reason r hc
  | read bytes =>
    simp only [supervise]
    split
    next => exact .refl child
    next hgo =>
      rw [not_or] at hgo
      split
      · refine ⟨?_, rfl, rfl, List.prefix_rfl, fun hs => absurd hs hgo.1, fun h => h, fun h => h⟩
        exact fun h => ⟨h.retained, h.reason, h.stopReason, h.recorded, h.attempted⟩
      · refine ⟨?_, rfl, rfl, List.prefix_append _ _, fun hs => absurd hs hgo.1, fun h => h,
          fun h => h⟩
        intro h
        refine ⟨?_, h.reason, h.stopReason, fun hr => absurd hr (h.of_not_settled hgo.1),
        h.attempted⟩
        have hlen := h.retained
        simp only [List.length_append, List.length_take]
        omega

theorem onward_superviseAll : ∀ (steps : List Supervision) {child : OwnedChild},
    Onward child (child.superviseAll steps)
  | [], child => .refl child
  | s :: steps, _ => (onward_supervise s).trans (onward_superviseAll steps)

theorem onward_recordExit (hash : ProcessEvent → Digest) (stored : Bool) :
    Onward child (child.recordExit hash stored) := by
  unfold recordExit
  split
  next => exact .refl child
  next hgo =>
    simp only [not_or, not_not] at hgo
    split
    next hvalid =>
      refine ⟨?_, rfl, rfl, List.prefix_rfl, fun hs => ⟨hs, rfl, rfl, rfl, rfl⟩, fun _ => rfl,
        fun h => h⟩
      intro h
      refine ⟨h.retained, h.reason, h.stopReason, fun _ => ⟨hgo.1, ?_⟩, fun _ => .inl rfl⟩
      -- What the ledger takes has been checked for the range of its code and its total.
      obtain ⟨exit, hexit, hev⟩ := (Option.any_eq_true _ _).mp hvalid.1
      simp only [exit?, Option.bind_eq_bind, Option.bind_eq_some_iff, Option.pure_def,
        Option.some.injEq] at hexit
      obtain ⟨code, hcode, reason, -, rfl⟩ := hexit
      simp only [ProcessEvent.valid, ProcessEvent.wellFormed, ProcessExit.valid, Bool.and_eq_true,
        decide_eq_true_eq] at hev
      exact ⟨hev.1.2.2, code, hcode, hev.1.2.1.1.2, hev.1.2.1.2⟩
    next =>
      exact ⟨fun h => ⟨h.retained, h.reason, h.stopReason, h.recorded, fun _ => .inr rfl⟩, rfl, rfl,
        List.prefix_rfl, fun hs => ⟨hs, rfl, rfl, rfl, rfl⟩, fun h => h, fun _ => rfl⟩

theorem recorded_or_unknown (hash : ProcessEvent → Digest) (hs : child.Sound)
    (hsettled : child.settled) (stored : Bool) :
    (child.recordExit hash stored).recorded ∨ (child.recordExit hash stored).isUnknown := by
  unfold recordExit
  split
  next h =>
    obtain hrunning | hunknown | hattempted := h
    · exact absurd hsettled hrunning
    · exact .inr hunknown
    · exact hs.attempted hattempted
  next =>
    split
    · exact .inl rfl
    · exact .inr rfl

end OwnedChild

/-! ### Replies on a child -/

namespace Owner

section Observe

variable {hash : ProcessEvent → Digest} {request : WorkerOperationRequest} {a : Served}
  {child later : OwnedChild} {cursor : ℕ} {terminate reservedOnly : Bool} {handle : String}
  {body : ProcessBody} {reply : Option Reply}

theorem exited_of_envelope? (h : envelope? request handle child cursor = some (.succeeded body)) :
    body.exited = child.exited := by
  have hbody : ∃ n, body = child.toChild.body handle cursor n := by
    rw [envelope?, envelope_eq] at h
    split at h
    · simp [Except.toOption] at h
    · split at h
      · simp [Except.toOption] at h
      · rw [validateWorkerOutcome] at h
        split at h
        · simp [Except.toOption] at h
        · simp only [Except.toOption, Option.some.injEq,
            WorkerOperationOutcome.succeeded.injEq] at h
          exact ⟨_, h.symm⟩
  obtain ⟨n, rfl⟩ := hbody
  rfl

variable (hash request a child cursor terminate reservedOnly) in
theorem onward_observe :
    OwnedChild.Onward child (observe hash request a child cursor terminate reservedOnly).1 := by
  have hfirst : child.Onward (child.superviseAll a.first) := OwnedChild.onward_superviseAll a.first
  have hlater : (child.superviseAll a.first).Onward _ :=
    (OwnedChild.onward_superviseAll a.second).trans
    ((OwnedChild.onward_recordExit hash a.stored).trans
      (OwnedChild.onward_superviseAll a.third))
  simp only [observe]
  split
  · exact .refl child
  · split
    · exact hfirst
    · split
      · exact hfirst.trans hlater
      · split
        · exact (hfirst.trans hlater).trans (OwnedChild.onward_stop (by decide))
        · exact hfirst.trans hlater

/-- A success shows the child as it then is; one that only a reserved place admits and that is no
stop shows its exit. -/
theorem exited_of_observe
    (h : (observe hash request a child cursor terminate reservedOnly).2 = some (.succeeded body)) :
    body.exited = (observe hash request a child cursor terminate reservedOnly).1.exited ∧
      (reservedOnly → ¬ terminate → body.exited) := by
  revert h
  simp only [observe]
  split
  · simp
  · split
    · simp
    · split
      · simp
      · next hgo =>
        intro h
        have hbody := exited_of_envelope? h
        refine ⟨hbody, ?_⟩
        intro hr ht
        rw [hbody, if_neg ht]
        by_contra he
        exact hgo ⟨hr, .inr ⟨ht, he⟩⟩

theorem not_isUnknown_of_observe
    (h : (observe hash request a child cursor terminate reservedOnly).2 = some (.succeeded body)) :
    ¬ (observe hash request a child cursor terminate reservedOnly).1.isUnknown := by
  have known : ∀ {handle : String} {child : OwnedChild},
      envelope? request handle child cursor = some (.succeeded body) → ¬ child.isUnknown := by
    intro handle child h hu
    rw [envelope?, envelope_eq, if_pos hu] at h
    simp [Except.toOption] at h
  revert h
  simp only [observe]
  split
  · simp
  · split
    · simp
    · split
      · simp
      · intro h
        exact known h

/-- A stop with room for the largest metadata is answered, unless the exit has become unknown or
the total has outgrown the room. -/
theorem observe_terminate (hh : Plain request.target) (hs : child.Sound)
    (hm : minimumFits request request.target)
    (hu : ¬ (observe hash request a child 0 true reservedOnly).1.isUnknown)
    (ht : (observe hash request a child 0 true reservedOnly).1.total < 2 ^ 63) :
    ∃ body, (observe hash request a child 0 true reservedOnly).2 = some (.succeeded body) := by
  have hsound := (onward_observe hash request a child 0 true reservedOnly).sound hs
  revert hu ht hsound
  simp only [observe, hm, not_true_eq_false, if_false, Nat.not_lt_zero, if_true]
  split
  · next hgo =>
    intro hu
    obtain ⟨-, hunknown | h⟩ := hgo
    · exact absurd hunknown hu
    · exact h.1.elim
  · intro hu ht hsound
    have hfit := empty_fits hh hsound.bounded (Nat.zero_le _) hm
      (lt_trans ht (by decide))
    obtain ⟨n, -, hreply, -⟩ := envelope_of_fits hh hsound.bounded hu hfit
    exact ⟨_, by rw [envelope?, hreply]; rfl⟩

/-- A poll of a settled child within its output, with room for the largest metadata, is answered
with the longest slice that fits, unless the exit has become unknown. -/
theorem observe_settled (hh : Plain request.target) (hs : child.Sound)
    (hm : minimumFits request request.target) (hc : cursor ≤ child.output.length)
    (hset : child.settled)
    (hobs : observe hash request a child cursor false reservedOnly = (later, reply))
    (hu : ¬ later.isUnknown) :
    later.exited ∧ ∃ n ≤ (later.output.drop cursor).length,
      reply = some (.succeeded (later.toChild.body request.target cursor n)) ∧
      (later.toChild.body request.target cursor n).size ≤ request.maxOutputBytes ∧
      ∀ m ≤ (later.output.drop cursor).length,
        (later.toChild.body request.target cursor m).size ≤ request.maxOutputBytes → m ≤ n := by
  have honward := onward_observe hash request a child cursor false reservedOnly
  rw [hobs] at honward
  have hsound := honward.sound hs
  have hlen := honward.output.length_le
  have hfirst : child.Onward (child.superviseAll a.first) := OwnedChild.onward_superviseAll a.first
  have hsecond := hfirst.trans (OwnedChild.onward_superviseAll a.second)
  have htried := OwnedChild.recorded_or_unknown hash (hsecond.sound hs)
    (hsecond.settled hset).1 a.stored
  have hthird : OwnedChild.Onward
      (((child.superviseAll a.first).superviseAll a.second).recordExit hash a.stored) _ :=
    OwnedChild.onward_superviseAll a.third
  simp only [observe, hm, not_true_eq_false, if_false, Bool.false_eq_true, not_false_eq_true,
    true_and, Nat.not_lt.mpr (hc.trans hfirst.output.length_le)] at hobs
  have hlater : later = (((child.superviseAll a.first).superviseAll a.second).recordExit hash
      a.stored).superviseAll a.third := by
    split at hobs <;> exact (congrArg Prod.fst hobs).symm
  have hrecorded : later.recorded := by
    rw [hlater] at hu ⊢
    obtain hr | hunknown := htried
    · exact hthird.recorded hr
    · exact absurd (hthird.unknown hunknown) hu
  have hexited := hsound.exited_iff.mpr hrecorded
  refine ⟨hexited, ?_⟩
  rw [if_neg (by rw [← hlater]; tauto), ← hlater] at hobs
  have htotal := (hsound.recorded hrecorded).2.1
  have hfit := empty_fits hh hsound.bounded (hc.trans hlen) hm
    (lt_trans htotal (by decide))
  obtain ⟨n, hn, hreply, hsize, hmax⟩ := envelope_of_fits hh hsound.bounded hu hfit
  refine ⟨n, hn, ?_, hsize, hmax⟩
  have hsame : envelope? request request.target later cursor = reply := congrArg Prod.snd hobs
  rw [← hsame, envelope?, hreply]
  rfl

end Observe

/-! ### The invariant -/

/-- A stop of the child has been answered with a success, and the reply is kept. -/
def Stopped (owner : Owner) (handle : String) : Prop :=
  ∃ id cached, owner.outcomes.lookup id = some cached ∧ cached.request.kind = .processTerminate ∧
    cached.request.target = handle ∧ ∃ body, cached.outcome = .succeeded body

/-- A poll of the child has been answered with its exit, and the reply is kept. -/
def Reported (owner : Owner) (handle : String) : Prop :=
  ∃ id cached, owner.outcomes.lookup id = some cached ∧ cached.request.kind = .processPoll ∧
    cached.request.target = handle ∧ ∃ body, cached.outcome = .succeeded body ∧ body.exited

/-- What holds of an owner between calls: a reservation is given up only for the reply it is kept
for, and replies and reservations together are never too many. -/
structure Sound (owner : Owner) : Prop where
  capacity : owner.occupied ≤ maxCache
  intended : ∀ handle child, owner.children.lookup handle = some child →
    ∃ old ∈ owner.intents, old.2.handle = handle
  child : ∀ handle child, owner.children.lookup handle = some child → child.Sound
  stopped : ∀ handle child, owner.children.lookup handle = some child →
    ¬ child.terminateReserved → owner.Stopped handle
  reported : ∀ handle child, owner.children.lookup handle = some child →
    ¬ child.terminalReserved → owner.Reported handle

section Changes

variable {owner : Owner} {request : WorkerOperationRequest} {handle : String}
  {child later : OwnedChild} {cursor : ℤ} {outcome : Reply} {f : OwnedChild → OwnedChild}

theorem sound_opened (binding : WorkerRunBinding) (sessionHash : Digest) (profiles : List Profile)
    (intents : List (ℕ × ProcessDispatch)) :
    (opened binding sessionHash profiles intents).Sound := by
  refine ⟨?_, ?_, ?_, ?_, ?_⟩
  · exact Nat.zero_le _
  all_goals
    intro handle child h
    simp [opened] at h

theorem Sound.intend (h : owner.Sound) (seq : ℕ) (intent : ProcessDispatch) :
    (owner.intend seq intent).Sound where
  capacity := h.capacity
  intended := by
    intro handle child hc
    obtain ⟨old, hold, heq⟩ := h.intended handle child hc
    exact ⟨old, List.mem_append_left _ hold, heq⟩
  child := h.child
  stopped := h.stopped
  reported := h.reported

theorem reservations_of_onward (h : child.Onward later) :
    later.reservations = child.reservations := by
  rw [OwnedChild.reservations, OwnedChild.reservations, h.terminate, h.terminal]

theorem Sound.modifyChild (h : owner.Sound)
    (hf : ∀ child, owner.children.lookup handle = some child → child.Onward (f child)) :
    (owner.modifyChild handle f).Sound := by
  have back : ∀ other later, (owner.modifyChild handle f).children.lookup other = some later →
      ∃ child, owner.children.lookup other = some child ∧ child.Onward later := by
    intro other later hl
    rw [Owner.modifyChild, Table.lookup_modify] at hl
    split at hl
    next heq =>
      obtain ⟨child, hc, rfl⟩ := Option.map_eq_some_iff.mp hl
      exact ⟨child, hc, hf child (heq ▸ hc)⟩
    next => exact ⟨later, hl, .refl later⟩
  constructor
  · rw [occupied, Owner.modifyChild, Table.rows_modify_map _ fun child hc =>
      reservations_of_onward (hf child hc)]
    exact h.capacity
  · intro other later hl
    obtain ⟨child, hc, -⟩ := back other later hl
    exact h.intended other child hc
  · intro other later hl
    obtain ⟨child, hc, honward⟩ := back other later hl
    exact honward.sound (h.child other child hc)
  · intro other later hl hflag
    obtain ⟨child, hc, honward⟩ := back other later hl
    exact h.stopped other child hc (by rwa [← honward.terminate])
  · intro other later hl hflag
    obtain ⟨child, hc, honward⟩ := back other later hl
    exact h.reported other child hc (by rwa [← honward.terminal])

theorem occupied_cleanupRequests : owner.cleanupRequests.occupied = owner.occupied := by
  rw [occupied, cleanupRequests, Table.rows_filterMap_some, List.map_map, occupied]
  congr 2
  apply List.map_congr_left
  intro child _
  exact reservations_of_onward (OwnedChild.onward_stop (by decide))

theorem Sound.cleanupRequests (h : owner.Sound) : owner.cleanupRequests.Sound := by
  have back : ∀ other later, owner.cleanupRequests.children.lookup other = some later →
      ∃ child, owner.children.lookup other = some child ∧ child.Onward later := by
    intro other later hl
    rw [Owner.cleanupRequests, Table.lookup_filterMap] at hl
    obtain ⟨child, hc, hs⟩ := Option.bind_eq_some_iff.mp hl
    cases hs
    exact ⟨child, hc, OwnedChild.onward_stop (by decide)⟩
  constructor
  · rw [occupied_cleanupRequests]
    exact h.capacity
  · intro other later hl
    obtain ⟨child, hc, -⟩ := back other later hl
    exact h.intended other child hc
  · intro other later hl
    obtain ⟨child, hc, honward⟩ := back other later hl
    exact honward.sound (h.child other child hc)
  · intro other later hl hflag
    obtain ⟨child, hc, honward⟩ := back other later hl
    exact h.stopped other child hc (by rwa [← honward.terminate])
  · intro other later hl hflag
    obtain ⟨child, hc, honward⟩ := back other later hl
    exact h.reported other child hc (by rwa [← honward.terminal])

theorem occupied_cache (hfresh : owner.outcomes.lookup request.operationId = none) :
    (owner.cache request cursor outcome).occupied = owner.occupied + 1 := by
  rw [occupied, cache, Table.rows_put_of_lookup_none hfresh, List.length_cons, occupied]
  exact Nat.add_right_comm _ _ _

theorem lookup_cache {id : String} {cached : Cached}
    (hfresh : owner.outcomes.lookup request.operationId = none)
    (h : owner.outcomes.lookup id = some cached) :
    (owner.cache request cursor outcome).outcomes.lookup id = some cached := by
  rw [cache, Table.lookup_put, if_neg]
  · exact h
  · rintro rfl
    rw [hfresh] at h
    cases h

variable (owner request cursor outcome) in
theorem lookup_cache_self :
    (owner.cache request cursor outcome).outcomes.lookup request.operationId =
      some ⟨request, cursor, outcome⟩ := by
  rw [cache, Table.lookup_put, if_pos rfl]

theorem Stopped.cache (h : owner.Stopped handle)
    (hfresh : owner.outcomes.lookup request.operationId = none) :
    (owner.cache request cursor outcome).Stopped handle := by
  obtain ⟨id, cached, hl, hrest⟩ := h
  exact ⟨id, cached, lookup_cache hfresh hl, hrest⟩

theorem Reported.cache (h : owner.Reported handle)
    (hfresh : owner.outcomes.lookup request.operationId = none) :
    (owner.cache request cursor outcome).Reported handle := by
  obtain ⟨id, cached, hl, hrest⟩ := h
  exact ⟨id, cached, lookup_cache hfresh hl, hrest⟩

theorem Sound.cache (h : owner.Sound) (hroom : owner.occupied < maxCache)
    (hfresh : owner.outcomes.lookup request.operationId = none) :
    (owner.cache request cursor outcome).Sound where
  capacity := by
    rw [occupied_cache hfresh]
    exact hroom
  intended := h.intended
  child := h.child
  stopped other child hc hflag := (h.stopped other child hc hflag).cache hfresh
  reported other child hc hflag := (h.reported other child hc hflag).cache hfresh

/-- A child under a handle of its own brings two reservations. -/
theorem Sound.addChild (h : owner.Sound) (hnew : owner.children.lookup handle = none)
    (hroom : owner.occupied + 2 ≤ maxCache) (hs : child.Sound)
    (hterminate : child.terminateReserved)
    (hterminal : child.terminalReserved) (hintent : ∃ old ∈ owner.intents, old.2.handle = handle) :
    (owner.addChild handle child).Sound ∧
      (owner.addChild handle child).occupied = owner.occupied + 2 := by
  have hoccupied : (owner.addChild handle child).occupied = owner.occupied + 2 := by
    have htwo : child.reservations = 2 := by
      rw [OwnedChild.reservations, hterminate, hterminal]
      rfl
    rw [occupied, Owner.addChild, Table.rows_put_of_lookup_none hnew, List.map_cons, List.sum_cons,
      htwo, occupied]
    change owner.outcomes.rows.length + (2 + _) = _
    omega
  have cases : ∀ other later, (owner.addChild handle child).children.lookup other = some later →
      (other = handle ∧ later = child) ∨ owner.children.lookup other = some later := by
    intro other later hl
    rw [Owner.addChild, Table.lookup_put] at hl
    split at hl
    next heq => exact .inl ⟨heq, (Option.some.inj hl).symm⟩
    next => exact .inr hl
  refine ⟨⟨?_, ?_, ?_, ?_, ?_⟩, hoccupied⟩
  · rw [hoccupied]
    exact hroom
  · intro other later hl
    obtain ⟨rfl, -⟩ | hc := cases other later hl
    · exact hintent
    · exact h.intended other later hc
  · intro other later hl
    obtain ⟨-, rfl⟩ | hc := cases other later hl
    · exact hs
    · exact h.child other later hc
  · intro other later hl hflag
    obtain ⟨-, rfl⟩ | hc := cases other later hl
    · exact absurd hterminate hflag
    · exact h.stopped other later hc hflag
  · intro other later hl hflag
    obtain ⟨-, rfl⟩ | hc := cases other later hl
    · exact absurd hterminal hflag
    · exact h.reported other later hc hflag

/-- What a start leaves behind: at most two reservations more, the replies as they were, and the
children that were there. -/
structure Started (owner after : Owner) : Prop where
  sound : after.Sound
  occupied : after.occupied ≤ owner.occupied + 2
  outcomes : after.outcomes = owner.outcomes
  onward : ∀ handle child, owner.children.lookup handle = some child →
    ∃ later, after.children.lookup handle = some later ∧ child.Onward later

theorem Started.self (h : owner.Sound) : Started owner owner :=
  ⟨h, Nat.le_add_right _ 2, rfl, fun _ child hc => ⟨child, hc, .refl child⟩⟩

theorem started_spawn {a : Served} {profile : Profile} {seq : ℕ} {intent : ProcessDispatch}
    (h : owner.Sound) (hroom : owner.occupied + 2 ≤ maxCache)
    (hnew : owner.isNew request a.handle) (hhandle : intent.handle = a.handle) :
    Started owner ((owner.intend seq intent).spawn request a profile seq intent).1 := by
  have hintended := h.intend seq intent
  have hself : Started owner (owner.intend seq intent) :=
    ⟨hintended, Nat.le_add_right _ 2, rfl, fun _ child hc => ⟨child, hc, .refl child⟩⟩
  -- No child has the handle, because the intents of the ledger would have it too.
  have hchild : (owner.intend seq intent).children.lookup a.handle = none := by
    cases hl : owner.children.lookup a.handle with
    | none => exact hl
    | some child =>
      obtain ⟨old, hold, heq⟩ := h.intended _ child hl
      have hne := List.all_eq_true.mp hnew old hold
      rw [decide_eq_true_eq] at hne
      exact absurd heq hne.2
  have hintent : ∃ old ∈ (owner.intend seq intent).intents, old.2.handle = a.handle :=
    ⟨_, List.mem_append_right _ (List.mem_singleton_self _), hhandle⟩
  have hadded : ∀ added handle child, owner.children.lookup handle = some child →
      ∃ later, ((owner.intend seq intent).addChild a.handle added).children.lookup handle =
        some later ∧ child.Onward later := by
    intro added handle child hc
    refine ⟨child, ?_, .refl child⟩
    rw [Owner.addChild, Table.lookup_put, if_neg]
    · exact hc
    · rintro rfl
      rw [show owner.children.lookup a.handle = none from hchild] at hc
      cases hc
  have hspawned := OwnedChild.sound_spawned profile seq intent
  simp only [spawn]
  split
  · refine ⟨hintended.cleanupRequests, ?_, rfl, ?_⟩
    · rw [occupied_cleanupRequests]
      exact hself.occupied
    · intro handle child hc
      refine ⟨child.stop "owner_cleanup", ?_, OwnedChild.onward_stop (by decide)⟩
      rw [Owner.cleanupRequests, Table.lookup_filterMap]
      exact Option.bind_eq_some_iff.mpr ⟨child, hc, rfl⟩
  · split
    · exact hself
    · split
      · have hunknown : { OwnedChild.spawned profile seq intent with isUnknown := true }.Sound :=
          ⟨hspawned.retained, hspawned.reason, hspawned.stopReason, hspawned.recorded,
            fun _ => .inr rfl⟩
        obtain ⟨hsound, hoccupied⟩ := hintended.addChild hchild hroom hunknown rfl rfl hintent
        exact ⟨hsound, hoccupied.le, rfl, hadded _⟩
      · have honward : (OwnedChild.spawned profile seq intent).Onward _ :=
          OwnedChild.onward_superviseAll a.first
        obtain ⟨hsound, hoccupied⟩ := hintended.addChild hchild hroom (honward.sound hspawned)
          honward.terminate honward.terminal hintent
        exact ⟨hsound, hoccupied.le, rfl, hadded _⟩

theorem started_start (request : WorkerOperationRequest) (a : Served) (h : owner.Sound)
    (hroom : owner.occupied + 2 ≤ maxCache) :
    Started owner (owner.start request a).1 := by
  unfold start
  split
  · exact .self h
  · split
    · exact .self h
    · split
      · split
        · exact .self h
        · exact .self h
      · split
        · exact .self h
        · simp only
          split
          · exact .self h
          · next seq _ =>
            split
            · cases seq with
              | none => exact .self h
              | some seq => exact ⟨h.intend seq _, Nat.le_add_right _ 2, rfl,
                  fun _ child hc => ⟨child, hc, .refl child⟩⟩
            · exact .self h
          · split
            next hnew => exact started_spawn h hroom hnew rfl
            next => exact .self h

/-! ### Releases -/

section Release

variable {terminate : Bool}

theorem sound_release (h : child.Sound) : (release terminate child outcome).Sound := by
  unfold release
  split
  · split
    · exact ⟨h.retained, h.reason, h.stopReason, h.recorded, h.attempted⟩
    · split
      · exact ⟨h.retained, h.reason, h.stopReason, h.recorded, h.attempted⟩
      · exact h
  · exact h

theorem reservations_release_le (terminate : Bool) (child : OwnedChild) (outcome : Reply) :
    (release terminate child outcome).reservations ≤ child.reservations := by
  unfold release
  split
  · split
    · simp [OwnedChild.reservations]
    · split
      · simp [OwnedChild.reservations]
      · exact le_rfl
  · exact le_rfl

/-- The reply is the one that the reservation of this kind is kept for. -/
def Owed (terminate : Bool) (child : OwnedChild) (outcome : Reply) : Prop :=
  ∃ body, outcome = .succeeded body ∧
    if terminate then child.terminateReserved = true
    else child.terminalReserved = true ∧ body.exited = true

theorem reservations_release (h : Owed terminate child outcome) :
    (release terminate child outcome).reservations + 1 = child.reservations := by
  obtain ⟨body, rfl, h⟩ := h
  unfold release
  cases terminate with
  | true =>
    rw [if_pos rfl] at h
    simp only [if_true, OwnedChild.reservations, h, Bool.toNat_true, Bool.toNat_false]
    omega
  | false =>
    rw [if_neg Bool.false_ne_true] at h
    simp only [Bool.false_eq_true, if_false, h.2, if_true, OwnedChild.reservations, h.1,
      Bool.toNat_true, Bool.toNat_false]

theorem stopped_or_reserved (h : ¬ (release terminate child outcome).terminateReserved) :
    ¬ child.terminateReserved ∨ terminate ∧ ∃ body, outcome = .succeeded body := by
  unfold release at h
  split at h
  next body =>
    split at h
    next ht => exact .inr ⟨ht, body, rfl⟩
    next => split at h <;> exact .inl h
  next => exact .inl h

theorem reported_or_reserved (h : ¬ (release terminate child outcome).terminalReserved) :
    ¬ child.terminalReserved ∨ ¬ terminate ∧ ∃ body, outcome = .succeeded body ∧ body.exited := by
  unfold release at h
  split at h
  next body =>
    split at h
    next => exact .inl h
    next ht =>
      split at h
      next he => exact .inr ⟨ht, body, rfl, he⟩
      next => exact .inl h
  next => exact .inl h

/-- A reply on a child is kept if there is room for it, or if it is owed. -/
theorem Sound.answer (h : owner.Sound)
    (hfresh : owner.outcomes.lookup request.operationId = none)
    (hkind : request.kind = if terminate then .processTerminate else .processPoll)
    (hc : owner.children.lookup request.target = some child) (honward : child.Onward later)
    (hroom : owner.occupied < maxCache ∨ Owed terminate later outcome) :
    ((owner.modifyChild request.target fun _ => release terminate later outcome).cache
      request cursor
      outcome).Sound := by
  have hsum := Table.sum_rows_modify (f := fun _ => release terminate later outcome)
    (g := OwnedChild.reservations) hc
  have hsame := reservations_of_onward honward
  have hseen : ∀ other last, (owner.modifyChild request.target
      fun _ => release terminate later outcome).children.lookup other = some last →
      (other = request.target ∧ last = release terminate later outcome) ∨
        owner.children.lookup other = some last := by
    intro other last hl
    rw [Owner.modifyChild, Table.lookup_modify] at hl
    split at hl
    next heq =>
      rw [heq, hc] at hl
      exact .inl ⟨heq, (Option.some.inj hl).symm⟩
    next => exact .inr hl
  have hfresh' : (owner.modifyChild request.target
    fun _ => release terminate later outcome).outcomes.lookup request.operationId = none := hfresh
  have hself := lookup_cache_self (owner.modifyChild request.target
    fun _ => release terminate later outcome) request cursor outcome
  constructor
  · have hcapacity := h.capacity
    rw [occupied_cache hfresh']
    rw [occupied] at hcapacity hroom ⊢
    change owner.outcomes.rows.length + (List.map OwnedChild.reservations
      (owner.children.modify request.target _).rows).sum + 1 ≤ maxCache
    obtain hroom | howed := hroom
    · have hle := reservations_release_le terminate later outcome
      omega
    · have hless := reservations_release howed
      omega
  · intro other last hl
    obtain ⟨rfl, -⟩ | hl := hseen other last hl
    · exact h.intended request.target child hc
    · exact h.intended other last hl
  · intro other last hl
    obtain ⟨-, rfl⟩ | hl := hseen other last hl
    · exact sound_release (honward.sound (h.child request.target child hc))
    · exact h.child other last hl
  · intro other last hl hflag
    obtain ⟨rfl, rfl⟩ | hl := hseen other last hl
    · obtain hkept | ⟨ht, body, rfl⟩ := stopped_or_reserved hflag
      · rw [honward.terminate] at hkept
        exact (h.stopped _ child hc hkept).cache hfresh'
      · rw [if_pos ht] at hkind
        exact ⟨_, _, hself, hkind, rfl, body, rfl⟩
    · exact (h.stopped other last hl hflag).cache hfresh'
  · intro other last hl hflag
    obtain ⟨rfl, rfl⟩ | hl := hseen other last hl
    · obtain hkept | ⟨ht, body, rfl, he⟩ := reported_or_reserved hflag
      · rw [honward.terminal] at hkept
        exact (h.reported _ child hc hkept).cache hfresh'
      · rw [if_neg ht] at hkind
        exact ⟨_, _, hself, hkind, rfl, body, rfl, he⟩
    · exact (h.reported other last hl hflag).cache hfresh'

end Release

end Changes

/-! ### Runs -/

section Runs

variable {hash : ProcessEvent → Digest} {owner : Owner} {request : WorkerOperationRequest}
  {a : Served} {cursor : ℤ} {terminate : Bool} {call : Call}

/-- What a poll or a stop of a child comes to, once it is let through. -/
theorem report_of_child {child later : OwnedChild} {outcome : Option Reply}
    (hc : owner.children.lookup request.target = some child)
    (hroom : owner.occupied < maxCache ∨
      (if terminate then child.terminateReserved else child.terminalReserved) = true) :
    observe hash request a child cursor.toNat terminate
      (!decide (owner.occupied < maxCache)) = (later, outcome) →
    owner.report hash request a cursor terminate = match outcome with
      | none => (owner.modifyChild request.target fun _ => later, .refused "process_runtime_denied")
      | some outcome =>
        let seen := owner.modifyChild request.target fun _ => release terminate later outcome
        if outcome.state = "SUCCEEDED" ∨ owner.occupied < maxCache then
          (seen.cache request cursor outcome, outcome)
        else (seen, outcome) := by
  intro hobs
  have hgo : ¬ (¬ decide (owner.occupied < maxCache) = true ∧
      ¬ (if terminate = true then child.terminateReserved else child.terminalReserved) = true) := by
    rintro ⟨hfull, hnone⟩
    obtain hordinary | hreserved := hroom
    · exact hfull (decide_eq_true hordinary)
    · exact hnone hreserved
  simp only [report, hc]
  rw [if_neg hgo, hobs]
  cases outcome with
  | none => rfl
  | some outcome => simp only [decide_eq_true_eq]

theorem report_full {child : OwnedChild} (hc : owner.children.lookup request.target = some child)
    (hroom : ¬ (owner.occupied < maxCache ∨
      (if terminate then child.terminateReserved else child.terminalReserved) = true)) :
    owner.report hash request a cursor terminate =
      (owner, .refused "process_operation_capacity") := by
  rw [not_or] at hroom
  simp only [report, hc]
  rw [if_pos ⟨by simpa using hroom.1, hroom.2⟩]

theorem succeeded_of_state {outcome : Reply} (h : outcome.state = "SUCCEEDED") :
    ∃ body, outcome = .succeeded body := by
  cases outcome with
  | succeeded body => exact ⟨body, rfl⟩
  | refused _ | failed _ | unknown _ => simp [WorkerOperationOutcome.state] at h

theorem release_of_state {outcome : Reply} {child : OwnedChild}
    (h : ¬ outcome.state = "SUCCEEDED") : release terminate child outcome = child := by
  cases outcome with
  | succeeded body => exact absurd rfl h
  | refused _ | failed _ | unknown _ => rfl

theorem sound_report (h : owner.Sound) (hfresh : owner.outcomes.lookup request.operationId = none)
    (hkind : request.kind = if terminate then .processTerminate else .processPoll) :
    (owner.report hash request a cursor terminate).1.Sound := by
  cases hc : owner.children.lookup request.target with
  | none =>
    simp only [report, hc]
    split
    · exact h
    next hordinary =>
      rw [not_not, decide_eq_true_eq] at hordinary
      split
      · exact h
      · exact h.cache hordinary hfresh
  | some child =>
    by_cases hroom : owner.occupied < maxCache ∨
        (if terminate then child.terminateReserved else child.terminalReserved) = true
    · rcases hobs : observe hash request a child cursor.toNat terminate
        (!decide (owner.occupied < maxCache)) with ⟨later, outcome⟩
      have honward : child.Onward later := by
        have hthis := onward_observe hash request a child cursor.toNat terminate
          (!decide (owner.occupied < maxCache))
        rwa [hobs] at hthis
      have hmodify : (owner.modifyChild request.target fun _ => later).Sound := by
        apply h.modifyChild
        intro other hother
        rw [hc] at hother
        cases hother
        exact honward
      rw [report_of_child hc hroom hobs]
      cases outcome with
      | none => exact hmodify
      | some outcome =>
        simp only
        split
        next hkept =>
          apply h.answer hfresh hkind hc honward
          by_cases hordinary : owner.occupied < maxCache
          · exact .inl hordinary
          · -- Only a reply that is owed gets through when there is no room.
            right
            obtain ⟨body, rfl⟩ := succeeded_of_state (hkept.resolve_right hordinary)
            have hreserved := hroom.resolve_left hordinary
            refine ⟨body, rfl, ?_⟩
            cases terminate with
            | true =>
              rw [if_pos rfl] at hreserved ⊢
              rw [honward.terminate, hreserved]
            | false =>
              rw [if_neg Bool.false_ne_true] at hreserved ⊢
              refine ⟨by rw [honward.terminal, hreserved], ?_⟩
              have hexited := (exited_of_observe (by rw [hobs])).2
              rw [decide_eq_false hordinary] at hexited
              exact hexited rfl Bool.false_ne_true
        next hlost =>
          rw [not_or] at hlost
          rw [release_of_state hlost.1]
          exact hmodify
    · rw [report_full hc hroom]
      exact h

theorem sound_operate (h : owner.Sound) : (owner.operate hash request a call).1.Sound := by
  unfold operate
  split
  · exact h
  next hkind =>
    rw [not_or, not_not] at hkind
    split
    · exact h
    · split
      · exact h
      · split
        · exact h.cleanupRequests
        · split
          · split <;> exact h
          next hfresh =>
            cases call with
            | start =>
              simp only
              split
              · exact h
              next hroom =>
                have hstarted := started_start request a h (by omega)
                split
                next after heq =>
                  rw [heq] at hstarted
                  exact hstarted.sound
                next after outcome heq =>
                  rw [heq] at hstarted
                  have hoccupied := hstarted.occupied
                  refine hstarted.sound.cache ?_ (by rw [hstarted.outcomes, hfresh])
                  simp only at hoccupied ⊢
                  omega
            | poll cursor => exact sound_report h hfresh hkind.1
            | terminate => exact sound_report h hfresh hkind.1

theorem sound_step (h : owner.Sound) (event : Event) : (owner.step hash event).Sound := by
  cases event with
  | called call request a => exact sound_operate h
  | supervised handle s => exact h.modifyChild fun _ _ => OwnedChild.onward_supervise s
  | recorded handle stored => exact h.modifyChild fun _ _ =>
      OwnedChild.onward_recordExit hash stored
  | intended seq intent => exact h.intend seq intent

theorem sound_run (h : owner.Sound) : ∀ events : List Event, (owner.run hash events).Sound := by
  intro events
  induction events generalizing owner with
  | nil => exact h
  | cons event events ih => exact ih (sound_step h event)

/-- A call under live authority that has not been made before, whose limit leaves room for the
largest metadata. -/
structure Admitted (owner : Owner) (call : Call) (request : WorkerOperationRequest) (a : Served) :
    Prop where
  kind : request.kind = call.kind
  valid : request.valid
  binding : request.binding = owner.binding
  locked : a.locked
  live : a.live
  fresh : owner.outcomes.lookup request.operationId = none
  fits : minimumFits request request.target

theorem Admitted.plain (h : Admitted owner call request a) (hk : call ≠ .start) :
    Plain request.target := by
  have hvalid := h.valid
  have hkind := h.kind
  simp only [WorkerOperationRequest.valid, Bool.and_eq_true] at hvalid
  have hprocess : request.kind ∉ fileOperationKinds := by
    rw [hkind]
    cases call <;> simp [Call.kind, fileOperationKinds]
  rw [if_neg hprocess] at hvalid
  exact plain_of_identifier hvalid.1.1.2

theorem operate_of_admitted (h : Admitted owner call request a) (hcursor : 0 ≤ call.cursor)
    (hk : call ≠ .start) :
    owner.operate hash request a call =
      owner.report hash request a call.cursor (decide (call = .terminate)) := by
  have hgo : ¬ (request.kind ≠ call.kind ∨ call.cursor < 0) := by
    rw [not_or, not_not]
    exact ⟨h.kind, by omega⟩
  unfold operate
  rw [if_neg hgo, if_neg (not_not.mpr h.binding.symm), if_neg (not_not.mpr h.locked),
    if_neg (not_not.mpr h.live), h.fresh]
  cases call with
  | start => exact absurd rfl hk
  | poll cursor => rfl
  | terminate => rfl

theorem isUnknown_release {child : OwnedChild} {outcome : Reply} :
    (release terminate child outcome).isUnknown = child.isUnknown := by
  unfold release
  split
  · split
    · rfl
    · split <;> rfl
  · rfl

theorem total_release {child : OwnedChild} {outcome : Reply} :
    (release terminate child outcome).total = child.total := by
  unfold release
  split
  · split
    · rfl
    · split <;> rfl
  · rfl

/-- A look at a child that is let through: what has become of the child, and that a success is
kept. -/
theorem report_let_through (hash : ProcessEvent → Digest) (a : Served) (cursor : ℤ)
    {child : OwnedChild}
    (hc : owner.children.lookup request.target = some child)
    (hroom : owner.occupied < maxCache ∨
      (if terminate then child.terminateReserved else child.terminalReserved) = true) :
    ∃ later outcome last, observe hash request a child cursor.toNat terminate
        (!decide (owner.occupied < maxCache)) = (later, outcome) ∧
      (owner.report hash request a cursor terminate).1.children.lookup request.target = some last ∧
      last.isUnknown = later.isUnknown ∧ last.total = later.total ∧
      (owner.report hash request a cursor terminate).2 =
        outcome.getD (.refused "process_runtime_denied") ∧
      ∀ body, outcome = some (.succeeded body) →
        (owner.report hash request a cursor terminate).1.outcomes.lookup request.operationId =
          some ⟨request, cursor, .succeeded body⟩ := by
  rcases hobs : observe hash request a child cursor.toNat terminate
    (!decide (owner.occupied < maxCache)) with ⟨later, outcome⟩
  have hreport := report_of_child hc hroom hobs
  have hmodified : ∀ f : OwnedChild → OwnedChild,
      (owner.modifyChild request.target f).children.lookup request.target = some (f child) := by
    intro f
    rw [Owner.modifyChild, Table.lookup_modify, if_pos rfl, hc, Option.map_some]
  rw [hreport]
  cases outcome with
  | none => exact ⟨later, none, _, rfl, hmodified _, rfl, rfl, rfl, fun _ h => by cases h⟩
  | some outcome =>
    refine ⟨later, some outcome, release terminate later outcome, rfl, ?_, isUnknown_release,
      total_release, ?_, ?_⟩
    · simp only
      split
      · exact hmodified _
      · exact hmodified _
    · simp only
      split <;> rfl
    · intro body hbody
      cases hbody
      simp only [WorkerOperationOutcome.state, true_or, if_true]
      exact lookup_cache_self _ _ _ _

theorem envelope?_ne_capacity {handle : String} {child : OwnedChild} {n : ℕ} :
    envelope? request handle child n ≠ some (.refused "process_operation_capacity") := by
  rw [envelope?, envelope_eq]
  split
  · simp [Except.toOption]
  · split
    · simp [Except.toOption]
    · rw [validateWorkerOutcome]
      split <;> simp [Except.toOption]

theorem observe_terminate_ne {child : OwnedChild} {reservedOnly : Bool}
    (hu : ¬ (observe hash request a child 0 true reservedOnly).1.isUnknown) :
    (observe hash request a child 0 true reservedOnly).2 ≠
      some (.refused "process_operation_capacity") := by
  revert hu
  simp only [observe]
  split
  · simp
  · split
    · simp
    · split
      next h =>
        intro hu
        obtain ⟨-, hunknown | hrunning⟩ := h
        · exact absurd hunknown hu
        · exact absurd trivial hrunning.1
      next => exact fun _ => envelope?_ne_capacity

/-- While its place is kept, a stop is answered and the answer is kept. -/
theorem terminate_granted {child last : OwnedChild} (h : owner.Sound)
    (hq : Admitted owner .terminate request a)
    (hc : owner.children.lookup request.target = some child) (hreserved : child.terminateReserved)
    (hlast : (owner.operate hash request a .terminate).1.children.lookup request.target = some last)
    (hu : ¬ last.isUnknown) :
    (owner.operate hash request a .terminate).2 ≠ .refused "process_operation_capacity" ∧
      (last.total < 2 ^ 63 → ∃ body,
        (owner.operate hash request a .terminate).2 = .succeeded body ∧
        (owner.operate hash request a .terminate).1.outcomes.lookup request.operationId =
          some ⟨request, 0, .succeeded body⟩) := by
  have hplain := hq.plain (by decide)
  have hcall : owner.operate hash request a .terminate = owner.report hash request a 0 true :=
    operate_of_admitted hq le_rfl (by decide)
  rw [hcall] at hlast ⊢
  obtain ⟨later, outcome, seen, hobs, hseen, hunknown, htotal, hreply, hkept⟩ :=
    report_let_through hash a 0 hc
      (.inr (show (if true then child.terminateReserved else child.terminalReserved) = true from
        hreserved))
  rw [hlast] at hseen
  cases hseen
  rw [Int.toNat_zero] at hobs
  have hne : (observe hash request a child 0 true (!decide (owner.occupied < maxCache))).2 ≠
      some (.refused "process_operation_capacity") :=
    observe_terminate_ne (by rw [hobs, ← hunknown]; exact hu)
  rw [hobs] at hne
  refine ⟨?_, ?_⟩
  · rw [hreply]
    cases outcome with
    | none => simp
    | some outcome => simpa using hne
  · intro ht
    obtain ⟨body, hbody⟩ : ∃ body, (observe hash request a child 0 true
        (!decide (owner.occupied < maxCache))).2 = some (.succeeded body) :=
      observe_terminate hplain (h.child _ child hc) hq.fits (by rw [hobs, ← hunknown]; exact hu)
        (by rw [hobs, ← htotal]; exact ht)
    rw [hobs] at hbody
    refine ⟨body, ?_, hkept body hbody⟩
    rw [hreply, show outcome = _ from hbody]
    rfl

/-- While its place is kept, a poll of a recorded exit is answered with it and the answer is
kept. -/
theorem poll_granted {child last : OwnedChild} (h : owner.Sound)
    (hq : Admitted owner (.poll cursor) request a) (hcursor : 0 ≤ cursor)
    (hc : owner.children.lookup request.target = some child) (hreserved : child.terminalReserved)
    (hwithin : cursor.toNat ≤ child.output.length) (hrecorded : child.recorded)
    (hlast : (owner.operate hash request a (.poll cursor)).1.children.lookup request.target =
      some last)
    (hu : ¬ last.isUnknown) :
    ∃ body, (owner.operate hash request a (.poll cursor)).2 = .succeeded body ∧ body.exited ∧
      (owner.operate hash request a (.poll cursor)).1.outcomes.lookup request.operationId =
        some ⟨request, cursor, .succeeded body⟩ := by
  have hplain := hq.plain (by simp)
  have hcall : owner.operate hash request a (.poll cursor) =
      owner.report hash request a cursor false := operate_of_admitted hq hcursor (by simp)
  rw [hcall] at hlast ⊢
  obtain ⟨later, outcome, seen, hobs, hseen, hunknown, -, hreply, hkept⟩ :=
    report_let_through hash a cursor hc
      (.inr (show (if false then child.terminateReserved else child.terminalReserved) = true from
        hreserved))
  rw [hlast] at hseen
  cases hseen
  have hsound := h.child _ child hc
  obtain ⟨hexited, n, -, rfl, -⟩ := observe_settled hplain hsound hq.fits hwithin
    (hsound.recorded hrecorded).1 hobs (by rwa [← hunknown])
  exact ⟨_, hreply, hexited, hkept _ rfl⟩

def Reachable (hash : ProcessEvent → Digest) (owner : Owner) : Prop :=
  ∃ binding sessionHash profiles intents events,
    owner = (opened binding sessionHash profiles intents).run hash events

theorem Reachable.sound (h : Reachable hash owner) : owner.Sound := by
  obtain ⟨binding, sessionHash, profiles, intents, events, rfl⟩ := h
  exact sound_run (sound_opened binding sessionHash profiles intents) events

/-- Whatever requests, replays and exits have come before, replies and reservations are never too
many, and a child whose exit does not become unknown has had a stop answered or gets it answered,
and likewise a poll of its exit once that is recorded. The largest metadata leave room for a total
of 63 bits. -/
theorem replies_reserved (hash : ProcessEvent → Digest) (owner : Owner)
    (h : Reachable hash owner) :
    owner.occupied ≤ maxCache ∧
    ∀ request child a, owner.children.lookup request.target = some child →
      (Admitted owner .terminate request a → owner.Stopped request.target ∨
        ∀ last, (owner.operate hash request a .terminate).1.children.lookup request.target =
          some last → ¬ last.isUnknown →
        (owner.operate hash request a .terminate).2 ≠ .refused "process_operation_capacity" ∧
        (last.total < 2 ^ 63 → ∃ body,
          (owner.operate hash request a .terminate).2 = .succeeded body ∧
          (owner.operate hash request a .terminate).1.outcomes.lookup request.operationId =
            some ⟨request, 0, .succeeded body⟩)) ∧
      ∀ cursor : ℤ, Admitted owner (.poll cursor) request a → 0 ≤ cursor →
        cursor.toNat ≤ child.output.length → child.recorded → owner.Reported request.target ∨
        ∀ last, (owner.operate hash request a (.poll cursor)).1.children.lookup request.target =
          some last → ¬ last.isUnknown →
        ∃ body, (owner.operate hash request a (.poll cursor)).2 = .succeeded body ∧ body.exited ∧
          (owner.operate hash request a (.poll cursor)).1.outcomes.lookup request.operationId =
            some ⟨request, cursor, .succeeded body⟩ := by
  have h := h.sound
  refine ⟨h.capacity, fun request child a hc => ⟨?_, ?_⟩⟩
  · intro hq
    by_cases hreserved : child.terminateReserved
    · exact .inr fun last hlast hu => terminate_granted h hq hc hreserved hlast hu
    · exact .inl (h.stopped _ child hc hreserved)
  · intro cursor hq hcursor hwithin hrecorded
    by_cases hreserved : child.terminalReserved
    · exact .inr fun last hlast hu =>
        poll_granted h hq hcursor hc hreserved hwithin hrecorded hlast hu
    · exact .inl (h.reported _ child hc hreserved)

end Runs

/-! ### A child that has exited -/

namespace Scenario

def zeros : Digest := List.replicate 64 '0'

def runBinding : WorkerRunBinding := ⟨"project", "writer", "task", "run", 1⟩

def profile : Profile := ⟨"python", zeros, 65536, by decide⟩

def ask (operationId : String) (kind : WorkerOperationKind) : WorkerOperationRequest :=
  ⟨runBinding, operationId, kind, "proc-1", 4096⟩

def events : List Event :=
  [.called .start { ask "start" .processStart with target := "python" }
      { handle := "proc-1", dispatched := .stored 1 },
    .supervised "proc-1" (.read [72, 105]), .supervised "proc-1" (.read []),
    .supervised "proc-1" (.reaped 0), .recorded "proc-1" true]

def owner : Owner := (opened runBinding zeros [profile] []).run (fun _ => zeros) events

end Scenario

open OrchKit.Local.Owner.Scenario in
theorem replies_reserved_exited :
    Scenario.owner.occupied = 3 ∧ ∃ child, Scenario.owner.children.lookup "proc-1" = some child ∧
      (Scenario.owner.Stopped "proc-1" ∨
        ∀ last, (Scenario.owner.operate (fun _ => zeros) (ask "stop" .processTerminate) {}
          .terminate).1.children.lookup "proc-1" = some last → ¬ last.isUnknown →
        (Scenario.owner.operate (fun _ => zeros) (ask "stop" .processTerminate) {} .terminate).2 ≠
          .refused "process_operation_capacity") ∧
      (Scenario.owner.Reported "proc-1" ∨
        ∀ last, (Scenario.owner.operate (fun _ => zeros) (ask "poll" .processPoll) {}
          (.poll 0)).1.children.lookup "proc-1" = some last → ¬ last.isUnknown →
        ∃ body, (Scenario.owner.operate (fun _ => zeros) (ask "poll" .processPoll) {} (.poll 0)).2 =
          .succeeded body ∧ body.exited) := by
  obtain ⟨child, hchild, hrecorded⟩ : ∃ child, Scenario.owner.children.lookup "proc-1" =
      some child ∧
      child.recorded = true := by
    have hsome : (Scenario.owner.children.lookup "proc-1").any (·.recorded) = true := by
      decide +kernel
    exact (Option.any_eq_true _ _).mp hsome
  have hgranted := (replies_reserved (fun _ => zeros) Scenario.owner
    ⟨runBinding, zeros, [profile], [], Scenario.events, rfl⟩).2
  have hstop : Admitted Scenario.owner .terminate (ask "stop" .processTerminate) {} :=
    ⟨rfl, by decide, by decide +kernel, rfl, rfl, by decide +kernel, by decide +kernel⟩
  have hpoll : Admitted Scenario.owner (.poll 0) (ask "poll" .processPoll) {} :=
    ⟨rfl, by decide, by decide +kernel, rfl, rfl, by decide +kernel, by decide +kernel⟩
  refine ⟨by decide +kernel, child, hchild, ?_, ?_⟩
  · obtain hstopped | hlast := (hgranted (ask "stop" .processTerminate) child {} hchild).1 hstop
    · exact .inl hstopped
    · exact .inr fun last hl hu => (hlast last hl hu).1
  · obtain hreported | hlast :=
      (hgranted (ask "poll" .processPoll) child {} hchild).2 0 hpoll le_rfl
      (Nat.zero_le _) hrecorded
    · exact .inl hreported
    · refine .inr fun last hl hu => ?_
      obtain ⟨body, hbody, hexited, -⟩ := hlast last hl hu
      exact ⟨body, hbody, hexited⟩

end Owner

end OrchKit.Local
