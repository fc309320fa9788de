import Mathlib.Data.List.Basic
import OrchKit.Ledger.State

/-! # The life of a run

What a ledger is for, apart from its tables: a board of runs, each working for a
task, and of tasks, each under a writer key. A run lives through the moves of a
small automaton and tells its task how far it is. A board is sound when every task
says what its run owes it and no key is held twice; every step of a sound board
leaves it sound, and none moves a run that has ended or a task that is settled.
-/

namespace OrchKit

/-- The moves of a run, with the status its task is given. -/
inductive Move : RunState → RunState → Option TaskStatus → Prop
  | submit : Move .running .resultSubmitted none
  | quiesce : Move .resultSubmitted .verifying none
  | block : Move .verifying .blocked (some .blocked)
  | fail : Move .verifying .needsFix (some .needsFix)
  | askReview : Move .verifying .reviewing (some .waitingReview)
  | verify : Move .verifying .verified (some .readyToPublish)
  | accept : Move .reviewing .verified (some .readyToPublish)
  | reject : Move .reviewing .needsFix (some .needsFix)
  | rejectBlocked : Move .reviewing .needsFix (some .blocked)
  | askOwner : Move .verified .verified (some .waitingOwner)
  | approve : Move .verified .verified (some .readyToPublish)
  | complete : Move .verified .complete (some .done)
  | completeAgain : Move .complete .complete (some .done)
  | abort {s : RunState} (h : s ∈ activeRunStates) : Move s .aborted (some .blocked)
  | abortRetry {s : RunState} (h : s ∈ activeRunStates) : Move s .aborted (some .needsFix)

def endedRunStates : List RunState := [.complete, .aborted, .needsFix, .blocked]

/-- The states of a run from the end of its verification and review on. -/
def publishableStates : List RunState := [.verified, .complete]

/-- The statuses a command on a run never takes a task out of. -/
def settledTaskStates : List TaskStatus := [.done, .cancelled]

/-- The status a task may have while a run of it is in a state; a run that ended without
completing owes nothing. -/
def Owes : RunState → TaskStatus → Prop
  | .running, u | .resultSubmitted, u | .quiescing, u | .verifying, u => u = .inProgress
  | .reviewing, u => u = .waitingReview
  | .verified, u => u = .readyToPublish ∨ u = .waitingOwner
  | .complete, u => u = .done
  | .needsFix, _ | .blocked, _ | .aborted, _ => True

namespace Move

variable {s s' : RunState} {status : Option TaskStatus}

theorem source (h : Move s s' status) : s ∈ writerLockRunStates ∨ s = .complete := by
  cases h with
  | abort h => exact .inl (List.mem_append_left _ h)
  | abortRetry h => exact .inl (List.mem_append_left _ h)
  | completeAgain => exact .inr rfl
  | _ => exact .inl (by decide)

theorem owes {u : TaskStatus} (h : Move s s' (some u)) : Owes s' u := by
  cases h <;> simp [Owes]

theorem owes_none {u : TaskStatus} (h : Move s s' none) (hu : Owes s u) : Owes s' u := by
  cases h <;> exact hu

theorem ended (h : Move s s' status) (hs : s ∈ endedRunStates) : s' = s := by
  rcases h.source with hl | rfl
  · cases s <;> simp_all [endedRunStates, writerLockRunStates, activeRunStates]
  · cases h with
    | completeAgain => rfl
    | abort h => simp [activeRunStates] at h
    | abortRetry h => simp [activeRunStates] at h

theorem verified (h : Move s s' status) (hs : s ∈ publishableStates) : s' ∈ publishableStates := by
  simp only [publishableStates, List.mem_cons, List.not_mem_nil, or_false] at hs
  rcases hs with rfl | rfl
  · cases h with
    | abort h | abortRetry h => simp [activeRunStates] at h
    | _ => decide
  · rw [h.ended (by decide)]
    decide

theorem holds (h : Move s s' status) (hs : s' ∈ writerLockRunStates) : s ∈ writerLockRunStates := by
  cases h <;> simp_all [writerLockRunStates, activeRunStates]

end Move

theorem Owes.not_idle {s : RunState} {u : TaskStatus} (h : Owes s u)
    (hs : s ∈ writerLockRunStates ∨ s = .complete) : u ∉ readyTaskStates ++ [.blocked] := by
  rcases hs with hs | rfl
  · cases s <;> simp_all [Owes, writerLockRunStates, activeRunStates, readyTaskStates]
    rcases h with rfl | rfl <;> simp
  · rw [Owes] at h
    subst h
    decide

theorem Owes.not_settled {s : RunState} {u : TaskStatus} (h : Owes s u)
    (hs : s ∈ writerLockRunStates) : u ∉ settledTaskStates := by
  cases s <;> simp_all [Owes, writerLockRunStates, activeRunStates, settledTaskStates]
  rcases h with rfl | rfl <;> simp

/-- Runs with their tasks and states, and tasks with their writer keys and statuses. -/
structure Board (R T K : Type) where
  run : R → Option (T × RunState)
  task : T → Option (K × TaskStatus)

namespace Board

variable {R T K : Type}

/-- What the queue may do to a task: only where no run works on it. -/
inductive QueueStep : Option (K × TaskStatus) → Option (K × TaskStatus) → Prop
  | same (row : Option (K × TaskStatus)) : QueueStep row row
  | planned (k : K) : QueueStep none (some (k, .planned))
  | blocked (k : K) {u : TaskStatus} (h : u ∈ readyTaskStates) :
      QueueStep (some (k, u)) (some (k, .blocked))
  | cancelled (k : K) {u : TaskStatus} (h : u ∈ readyTaskStates ++ [.blocked]) :
      QueueStep (some (k, u)) (some (k, .cancelled))

def Holds (b : Board R T K) (r : R) (k : K) : Prop :=
  ∃ t s u, b.run r = some (t, s) ∧ s ∈ writerLockRunStates ∧ b.task t = some (k, u)

/-- The status a task has after a move of one of its runs. -/
def told (row : Option (K × TaskStatus)) : Option TaskStatus → Option (K × TaskStatus)
  | none => row
  | some u => row.map fun x => (x.1, u)

inductive Step (b b' : Board R T K) : Prop
  | queue (runs : ∀ r, b'.run r = b.run r) (tasks : ∀ t, QueueStep (b.task t) (b'.task t))
  | claim (r : R) (t : T) (k : K) (u : TaskStatus) (fresh : b.run r = none)
      (found : b.task t = some (k, u)) (claimable : u ∈ readyTaskStates ++ [.blocked])
      (free : ∀ r, ¬ b.Holds r k) (started : b'.run r = some (t, .running))
      (runs : ∀ r', r' ≠ r → b'.run r' = b.run r') (taken : b'.task t = some (k, .inProgress))
      (tasks : ∀ t', t' ≠ t → QueueStep (b.task t') (b'.task t'))
  | move (r : R) (t : T) (s s' : RunState) (status : Option TaskStatus)
      (found : b.run r = some (t, s)) (move : Move s s' status)
      (moved : b'.run r = some (t, s')) (runs : ∀ r', r' ≠ r → b'.run r' = b.run r')
      (told : b'.task t = Board.told (b.task t) status)
      (tasks : ∀ t', t' ≠ t → b'.task t' = b.task t')

structure Sound (b : Board R T K) : Prop where
  known : ∀ r t s, b.run r = some (t, s) → ∃ k u, b.task t = some (k, u) ∧ Owes s u
  exclusive : ∀ r r' k, b.Holds r k → b.Holds r' k → r = r'

namespace QueueStep

variable {row row' : Option (K × TaskStatus)} {k : K} {u : TaskStatus}

theorem busy (h : QueueStep row row') (hr : row = some (k, u))
    (hu : u ∉ readyTaskStates ++ [.blocked]) : row' = some (k, u) := by
  cases h with
  | same => exact hr
  | planned => cases hr
  | blocked k h => cases hr; exact absurd (List.mem_append_left _ h) hu
  | cancelled k h => cases hr; exact absurd h hu

theorem key (h : QueueStep row row') (hr : row = some (k, u)) : ∃ u', row' = some (k, u') := by
  cases h with
  | same => exact ⟨u, hr⟩
  | planned => cases hr
  | blocked => cases hr; exact ⟨_, rfl⟩
  | cancelled => cases hr; exact ⟨_, rfl⟩

theorem key_of (h : QueueStep row row') (hr : row' = some (k, u)) (hn : row ≠ none) :
    ∃ u', row = some (k, u') := by
  cases h with
  | same => exact ⟨u, hr⟩
  | planned => exact absurd rfl hn
  | blocked => cases hr; exact ⟨_, rfl⟩
  | cancelled => cases hr; exact ⟨_, rfl⟩

end QueueStep

variable {b b' : Board R T K}

theorem Sound.known_queue (hb : b.Sound) {r : R} {t : T} {s : RunState}
    (hr : b.run r = some (t, s)) (hq : QueueStep (b.task t) (b'.task t)) :
    ∃ k u, b'.task t = some (k, u) ∧ Owes s u := by
  obtain ⟨k, u, ht, ho⟩ := hb.known r t s hr
  by_cases hs : s ∈ writerLockRunStates ∨ s = .complete
  · exact ⟨k, u, hq.busy ht (ho.not_idle hs), ho⟩
  · obtain ⟨u', ht'⟩ := hq.key ht
    refine ⟨k, u', ht', ?_⟩
    cases s <;> simp_all [Owes, writerLockRunStates, activeRunStates]

theorem Sound.holds_queue (hb : b.Sound) {r : R} {k : K} (hr : ∀ r, b'.run r = b.run r)
    (hq : ∀ t, QueueStep (b.task t) (b'.task t)) (h : b'.Holds r k) : b.Holds r k := by
  obtain ⟨t, s, u, hrun, hs, ht⟩ := h
  rw [hr] at hrun
  obtain ⟨k₀, u₀, ht₀, -⟩ := hb.known r t s hrun
  obtain ⟨u', ht'⟩ := (hq t).key_of ht (by rw [ht₀]; simp)
  exact ⟨t, s, u', hrun, hs, ht'⟩

theorem Sound.only_worker (hb : b.Sound) {r r' : R} {t : T} {s s' : RunState}
    (hr : b.run r = some (t, s)) (hr' : b.run r' = some (t, s'))
    (hs : s ∈ writerLockRunStates) (hs' : s' ∈ writerLockRunStates) : r = r' := by
  obtain ⟨k, u, ht, -⟩ := hb.known r t s hr
  exact hb.exclusive r r' k ⟨t, s, u, hr, hs, ht⟩ ⟨t, s', u, hr', hs', ht⟩

theorem Step.sound (hb : b.Sound) (h : Step b b') : b'.Sound := by
  cases h with
  | queue runs tasks =>
    constructor
    · intro r t s hr
      exact hb.known_queue ((runs r).symm.trans hr) (tasks t)
    · intro r r' k h h'
      exact hb.exclusive r r' k (hb.holds_queue runs tasks h) (hb.holds_queue runs tasks h')
  | claim r₀ t₀ k₀ u₀ fresh found claimable free started runs taken tasks =>
    have idle : ∀ r s, b.run r = some (t₀, s) → s ∉ writerLockRunStates ∧ s ≠ .complete := by
      intro r s hr
      rw [← not_or]
      intro hs
      obtain ⟨k, u, ht, ho⟩ := hb.known r t₀ s hr
      rw [found] at ht
      cases ht
      exact ho.not_idle hs claimable
    have queued : ∀ r t s, b.run r = some (t, s) → ∃ k u, b'.task t = some (k, u) ∧ Owes s u := by
      intro r t s hr
      by_cases ht : t = t₀
      · subst ht
        refine ⟨k₀, .inProgress, taken, ?_⟩
        have := idle r s hr
        cases s <;> simp_all [Owes, writerLockRunStates, activeRunStates]
      · exact hb.known_queue hr (tasks t ht)
    -- a holder on the new board is the new run, or held the same key before
    have held : ∀ r k, b'.Holds r k → (r = r₀ ∧ k = k₀) ∨ b.Holds r k := by
      rintro r k ⟨t, s, u, hr, hs, ht⟩
      by_cases h : r = r₀
      · subst h
        rw [started] at hr
        cases hr
        rw [taken] at ht
        cases ht
        exact .inl ⟨rfl, rfl⟩
      · rw [runs r h] at hr
        have htne : t ≠ t₀ := by
          rintro rfl
          exact (idle r s hr).1 hs
        obtain ⟨k₁, u₁, ht₁, -⟩ := hb.known r t s hr
        obtain ⟨u', ht'⟩ := (tasks t htne).key_of ht (by rw [ht₁]; simp)
        exact .inr ⟨t, s, u', hr, hs, ht'⟩
    constructor
    · intro r t s hr
      by_cases h : r = r₀
      · subst h
        rw [started] at hr
        cases hr
        exact ⟨k₀, .inProgress, taken, rfl⟩
      · exact queued r t s ((runs r h).symm.trans hr)
    · intro r r' k h h'
      rcases held r k h with ⟨hr, hk⟩ | h <;> rcases held r' k h' with ⟨hr', hk'⟩ | h'
      · rw [hr, hr']
      · exact absurd (hk ▸ h') (free r')
      · exact absurd (hk' ▸ h) (free r)
      · exact hb.exclusive r r' k h h'
  | move r₀ t₀ s₀ s₁ status found move moved runs told tasks =>
    obtain ⟨k₀, u₀, ht₀, ho₀⟩ := hb.known r₀ t₀ s₀ found
    -- the key of a task never changes
    have key : ∀ t k u, b'.task t = some (k, u) → ∃ u', b.task t = some (k, u') := by
      intro t k u ht
      by_cases h : t = t₀
      · subst h
        rw [told, ht₀] at ht
        cases status <;> cases ht <;> exact ⟨u₀, ht₀⟩
      · exact ⟨u, (tasks t h).symm.trans ht⟩
    have held : ∀ r k, b'.Holds r k → b.Holds r k := by
      rintro r k ⟨t, s, u, hr, hs, ht⟩
      obtain ⟨u', ht'⟩ := key t k u ht
      by_cases h : r = r₀
      · subst h
        rw [moved] at hr
        cases hr
        exact ⟨_, s₀, u', found, move.holds hs, ht'⟩
      · rw [runs r h] at hr
        exact ⟨t, s, u', hr, hs, ht'⟩
    constructor
    · intro r t s hr
      by_cases h : r = r₀
      · subst h
        rw [moved] at hr
        cases hr
        cases status with
        | none => exact ⟨k₀, u₀, by rw [told, ht₀]; rfl, move.owes_none ho₀⟩
        | some u => exact ⟨k₀, u, by rw [told, ht₀]; rfl, move.owes⟩
      · rw [runs r h] at hr
        obtain ⟨k, u, ht, ho⟩ := hb.known r t s hr
        by_cases htne : t = t₀
        · subst htne
          rw [ht₀] at ht
          cases ht
          cases status with
          | none => exact ⟨k₀, u₀, by rw [told, ht₀]; rfl, ho⟩
          | some u =>
            refine ⟨k₀, u, by rw [told, ht₀]; rfl, ?_⟩
            -- another run of the task owes it nothing, or both have completed
            by_cases hs : s ∈ writerLockRunStates ∨ s = .complete
            · rcases move.source with hl | rfl
              · rcases hs with hs | rfl
                · exact absurd (hb.only_worker found hr hl hs).symm h
                · rw [Owes] at ho
                  subst ho
                  exact absurd (by decide) (ho₀.not_settled hl)
              · have hu := move.owes
                rw [Owes] at ho₀
                subst ho₀
                have hs₁ : s₁ = .complete := move.ended (by decide)
                subst hs₁
                rw [Owes] at hu
                subst hu
                exact ho
            · cases s <;> simp_all [Owes, writerLockRunStates, activeRunStates]
        · exact ⟨k, u, (tasks t htne).trans ht, ho⟩
    · intro r r' k h h'
      exact hb.exclusive r r' k (held r k h) (held r' k h')

theorem Step.ended (h : Step b b') {r : R} {t : T} {s : RunState} (hr : b.run r = some (t, s))
    (hs : s ∈ endedRunStates) : b'.run r = some (t, s) := by
  cases h with
  | queue runs tasks => exact (runs r).trans hr
  | claim r₀ t₀ k₀ u₀ fresh found claimable free started runs taken tasks =>
    by_cases h : r = r₀
    · subst h
      rw [fresh] at hr
      cases hr
    · exact (runs r h).trans hr
  | move r₀ t₀ s₀ s₁ status found move moved runs told tasks =>
    by_cases h : r = r₀
    · subst h
      rw [found] at hr
      cases hr
      rw [moved, move.ended hs]
    · exact (runs r h).trans hr

theorem Step.verified (h : Step b b') {r : R} {t : T} {s : RunState} (hr : b.run r = some (t, s))
    (hs : s ∈ publishableStates) : ∃ s', b'.run r = some (t, s') ∧ s' ∈ publishableStates := by
  cases h with
  | queue runs tasks => exact ⟨s, (runs r).trans hr, hs⟩
  | claim r₀ t₀ k₀ u₀ fresh found claimable free started runs taken tasks =>
    by_cases h : r = r₀
    · subst h
      rw [fresh] at hr
      cases hr
    · exact ⟨s, (runs r h).trans hr, hs⟩
  | move r₀ t₀ s₀ s₁ status found move moved runs told tasks =>
    by_cases h : r = r₀
    · subst h
      rw [found] at hr
      cases hr
      exact ⟨s₁, moved, move.verified hs⟩
    · exact ⟨s, (runs r h).trans hr, hs⟩

theorem Step.settled (hb : b.Sound) (h : Step b b') {t : T} {k : K} {u : TaskStatus}
    (ht : b.task t = some (k, u)) (hu : u ∈ settledTaskStates) : b'.task t = some (k, u) := by
  have busy : u ∉ readyTaskStates ++ [.blocked] := by
    simp only [settledTaskStates, List.mem_cons, List.not_mem_nil, or_false] at hu
    rcases hu with rfl | rfl <;> decide
  cases h with
  | queue runs tasks => exact (tasks t).busy ht busy
  | claim r₀ t₀ k₀ u₀ fresh found claimable free started runs taken tasks =>
    by_cases h : t = t₀
    · subst h
      rw [found] at ht
      cases ht
      exact absurd claimable busy
    · exact (tasks t h).busy ht busy
  | move r₀ t₀ s₀ s₁ status found move moved runs told tasks =>
    by_cases h : t = t₀
    · subst h
      obtain ⟨k₀, u₀, ht₀, ho₀⟩ := hb.known r₀ t s₀ found
      rw [ht₀] at ht
      cases ht
      rcases move.source with hl | rfl
      · exact absurd hu (ho₀.not_settled hl)
      · rw [Owes] at ho₀
        subst ho₀
        rw [told, ht₀]
        cases status with
        | none => rfl
        | some u =>
          have hmove := move.owes
          rw [move.ended (by decide), Owes] at hmove
          rw [hmove]
          rfl
    · exact (tasks t h).trans ht

end Board

end OrchKit
