import OrchKit.Data.Table

/-! # The broker of local contexts

A broker owns what its contexts have to close: the owner of their processes, the scope of their
files and their slot in the routing. Each of these can fail to close in a way of its own, and what
a failure leaves is kept for a later close, apart from a scope whose descriptor may be another's by
then. The broker belongs to one thread; what the closes of the parts come to is given.
-/

namespace OrchKit.Local

/-! ### The entries of a broker -/

/-- What a context has to close. -/
inductive Part
  | processes
  | scope
  | route
  deriving DecidableEq

/-- What a close comes to. A scope that is busy is known to be as it was. -/
inductive Closing
  | closed
  | busy
  | raised
  deriving DecidableEq

/-- What is done about the parts of a context. -/
inductive Deed
  | made (part : Part)
  | tried (part : Part) (closing : Closing)
  deriving DecidableEq

inductive CleanupFailure
  | failed
  | unresolved
  deriving DecidableEq

/-- `_OwnedContext`, as far as it is closed. -/
structure OwnedContext where
  scope : Bool := false
  processes : Bool := false
  closed : Bool := false
  sessionOpen : Bool := true
  cleanupUnresolved : Bool := false
  processCleanupUnresolved : Bool := false
  deriving DecidableEq

/-- What the closes of the parts come to; those of the processes and of the route either return or
raise. -/
structure Cleanup where
  processes : Bool := true
  scope : Closing := .closed
  route : Bool := true

/-- An entry in the course of `__close_owned`. -/
structure Unwinding where
  owned : OwnedContext
  failure : Option CleanupFailure := none
  deeds : List Deed := []

namespace Unwinding

variable (u : Unwinding) (c : Cleanup)

/-- An owner of processes can be closed again, whatever was raised. -/
def closeProcesses : Unwinding :=
  if ¬ u.owned.processes then u
  else if c.processes then { u with
    owned := { u.owned with processes := false, processCleanupUnresolved := false }
    deeds := u.deeds ++ [.tried .processes .closed] }
  else {
    owned := { u.owned with processCleanupUnresolved := true }
    failure := some .unresolved
    deeds := u.deeds ++ [.tried .processes .raised] }

def closeScope : Unwinding :=
  if ¬ u.owned.scope ∨ u.owned.cleanupUnresolved then u
  else match c.scope with
  | .busy => { u with failure := some .failed, deeds := u.deeds ++ [.tried .scope .busy] }
  | .raised => {
    owned := { u.owned with cleanupUnresolved := true }
    failure := some .unresolved
    deeds := u.deeds ++ [.tried .scope .raised] }
  | .closed => { u with
    owned := { u.owned with scope := false }
    deeds := u.deeds ++ [.tried .scope .closed] }

def closeRoute : Unwinding :=
  if ¬ u.owned.sessionOpen then u
  else if c.route then { u with
    owned := { u.owned with sessionOpen := false }
    deeds := u.deeds ++ [.tried .route .closed] }
  else {
    owned := { u.owned with cleanupUnresolved := true }
    failure := some .unresolved
    deeds := u.deeds ++ [.tried .route .raised] }

end Unwinding

def OwnedContext.unwinding (owned : OwnedContext) : Unwinding where
  owned := { owned with closed := true }
  failure := if owned.cleanupUnresolved then some .unresolved else none

/-- `__close_owned`, up to whether the entry leaves the table. -/
def OwnedContext.close (owned : OwnedContext) (c : Cleanup) : Unwinding :=
  let u := ((owned.unwinding.closeProcesses c).closeScope c).closeRoute c
  { u with failure := if u.owned.processCleanupUnresolved then some .unresolved else u.failure }

/-! ### The broker -/

/-- The entries and the contexts by the numbers they are opened under, with what has been done. -/
structure Broker where
  owned : Table ℕ OwnedContext := ∅
  contexts : List ℕ := []
  closed : Bool := false
  next : ℕ := 0
  log : List (ℕ × Deed) := []

/-- How far an `open_context` gets: whether the authority has a session for it, which constructors
return, whether there are profiles, and whether the session is live in the end. -/
structure Opening where
  session : Bool := true
  scope : Bool := true
  adapters : Bool := true
  profiled : Bool := false
  processes : Bool := true
  live : Bool := true
  cleanup : Cleanup := {}

/-- What an `open_context` comes to: a context, or an error, which is one of its cleanup if that
fails. -/
inductive Opened
  | context (id : ℕ)
  | raised (failure : Option CleanupFailure)

namespace Broker

variable (b : Broker)

def past (id : ℕ) : List Deed := (b.log.filter fun e => e.1 = id).map Prod.snd

def record (id : ℕ) (deeds : List Deed) : Broker :=
  { b with log := b.log ++ deeds.map fun deed => (id, deed) }

/-- `__close_owned`. -/
def closeOwned (id : ℕ) (c : Cleanup) : Broker × Option CleanupFailure :=
  match b.owned.lookup id with
  | none => (b, none)
  | some owned =>
    let u := owned.close c
    let b := b.record id u.deeds
    match u.failure with
    | none => ({ b with
        owned := b.owned.delete id, contexts := b.contexts.filter (· ≠ id) }, none)
    | some failure => ({ b with owned := b.owned.modify id fun _ => u.owned }, some failure)

/-- A new entry, with the parts that are made for it. -/
def enter (scope processes : Bool) : Broker :=
  { b.record b.next ([.made .route] ++ (if scope then [.made .scope] else []) ++
      (if processes then [.made .processes] else [])) with
    owned := b.owned.put b.next { scope, processes }, next := b.next + 1 }

/-- `open_context`: an entry is in the table before anything that can fail. -/
def openContext (o : Opening) : Broker × Opened :=
  if b.closed ∨ ¬ o.session then (b, .raised none)
  else
    let id := b.next
    let b := b.enter o.scope (o.scope && o.adapters && o.profiled && o.processes)
    if o.scope ∧ o.adapters ∧ (o.profiled → o.processes) ∧ o.live then
      ({ b with contexts := id :: b.contexts }, .context id)
    else
      let (b, failure) := b.closeOwned id o.cleanup
      (b, .raised failure)

/-- `_close_context`. -/
def closeContext (id : ℕ) (c : Cleanup) : Broker × Option CleanupFailure :=
  if id ∈ b.contexts then b.closeOwned id c else (b, none)

/-- The entries one after another, each whatever the others come to. -/
def closeEach (c : ℕ → Cleanup) : List ℕ → Broker → Option CleanupFailure →
    Broker × Option CleanupFailure
  | [], b, failure => (b, failure)
  | id :: ids, b, failure =>
    let (b, current) := b.closeOwned id (c id)
    closeEach c ids b (if current = some .unresolved ∨ failure = none then current else failure)

/-- `close`: it can be called again, for what is left. -/
def close (c : ℕ → Cleanup) : Broker × Option CleanupFailure :=
  closeEach c b.owned.keys.reverse { b with closed := true } none

end Broker

/-- The calls on a broker. -/
inductive BrokerCall
  | openContext (o : Opening)
  | closeContext (id : ℕ) (c : Cleanup)
  | close (c : ℕ → Cleanup)

def Broker.step (b : Broker) : BrokerCall → Broker
  | .openContext o => (b.openContext o).1
  | .closeContext id c => (b.closeContext id c).1
  | .close c => (b.close c).1

def Broker.run (b : Broker) (calls : List BrokerCall) : Broker := calls.foldl Broker.step b

/-! ### The life of an entry -/

section Entries

def Due (past : List Deed) (part : Part) : Prop := .made part ∈ past ∧ .tried part .closed ∉ past

/-- The scope or the slot in the routing has failed to close, otherwise than as busy. -/
def Ambiguous (past : List Deed) : Prop :=
  .tried .scope .raised ∈ past ∨ .tried .route .raised ∈ past

/-- After a scope has failed to close otherwise than as busy, it is not closed again. -/
def NeverAgain (past : List Deed) : Prop :=
  ∀ xs ys, past = xs ++ .tried .scope .raised :: ys → ∀ closing, .tried .scope closing ∉ ys

def OwnedContext.holds (o : OwnedContext) : Part → Bool
  | .processes => o.processes
  | .scope => o.scope
  | .route => o.sessionOpen

/-- The flags of an entry say what has become of its parts. -/
structure Follows (past : List Deed) (o : OwnedContext) : Prop where
  opened : .made .route ∈ past
  holds : ∀ part, o.holds part ↔ Due past part
  ambiguous : o.cleanupUnresolved ↔ Ambiguous past
  owner : o.processCleanupUnresolved → o.processes
  once : NeverAgain past

variable {past : List Deed} {o o' : OwnedContext} {u : Unwinding} {c : Cleanup} {part : Part}
  {closing : Closing}

theorem NeverAgain.tried (h : NeverAgain past)
    (hgo : part = .scope → .tried .scope .raised ∉ past) :
    NeverAgain (past ++ [.tried part closing]) := by
  intro xs ys heq closing' hmem
  obtain rfl | ⟨ys, last, rfl⟩ := List.eq_nil_or_concat ys
  · cases hmem
  · rw [List.concat_eq_append] at heq hmem
    have hsplit : past ++ [.tried part closing] = (xs ++ .tried .scope .raised :: ys) ++
        [last] := by
      rw [heq, List.append_assoc, List.cons_append]
    obtain ⟨hpast, hlast⟩ := List.append_inj' hsplit rfl
    rw [List.mem_append, List.mem_singleton, ← List.singleton_inj.mp hlast] at hmem
    obtain hmem | hmem := hmem
    · exact h xs ys hpast closing' hmem
    · apply hgo (by cases hmem; rfl)
      rw [hpast]
      exact List.mem_append_right xs List.mem_cons_self

/-- What a single close of a part does to an entry. -/
theorem Follows.tried (h : Follows past o)
    (hholds : ∀ p, o'.holds p = (o.holds p && !decide (p = part ∧ closing = .closed)))
    (hambiguous : o'.cleanupUnresolved =
      (o.cleanupUnresolved || decide (part ≠ .processes ∧ closing = .raised)))
    (howner : o'.processCleanupUnresolved → o'.processes)
    (hgo : part = .scope → ¬ o.cleanupUnresolved) :
    Follows (past ++ [.tried part closing]) o' where
  opened := List.mem_append_left _ h.opened
  holds p := by
    rw [hholds, Bool.and_eq_true, h.holds, Due, Due]
    simp only [List.mem_append, List.mem_singleton, reduceCtorEq, or_false, Deed.tried.injEq,
      Bool.not_eq_true', decide_eq_false_iff_not, not_or]
    constructor
    · rintro ⟨⟨hmade, hopen⟩, hother⟩
      exact ⟨hmade, hopen, fun heq => hother ⟨heq.1, heq.2.symm⟩⟩
    · rintro ⟨hmade, hopen, hother⟩
      exact ⟨⟨hmade, hopen⟩, fun heq => hother ⟨heq.1, heq.2.symm⟩⟩
  ambiguous := by
    rw [hambiguous, Bool.or_eq_true, h.ambiguous, Ambiguous, Ambiguous, decide_eq_true_eq]
    simp only [List.mem_append, List.mem_singleton, Deed.tried.injEq]
    cases part <;> simp <;> tauto
  owner := howner
  once := h.once.tried fun hscope hraised => hgo hscope (h.ambiguous.mpr (.inl hraised))

theorem Follows.closeProcesses (h : Follows (past ++ u.deeds) u.owned) :
    Follows (past ++ (u.closeProcesses c).deeds) (u.closeProcesses c).owned := by
  unfold Unwinding.closeProcesses
  split
  · exact h
  next hheld =>
    rw [not_not] at hheld
    split
    · rw [← List.append_assoc]
      refine h.tried ?_ ?_ ?_ (by simp)
      · intro p
        cases p <;> simp [OwnedContext.holds]
      · simp
      · simp
    · rw [← List.append_assoc]
      refine h.tried ?_ ?_ ?_ (by simp)
      · intro p
        cases p <;> simp [OwnedContext.holds]
      · simp
      · exact fun _ => hheld

theorem Follows.closeScope (h : Follows (past ++ u.deeds) u.owned) :
    Follows (past ++ (u.closeScope c).deeds) (u.closeScope c).owned := by
  unfold Unwinding.closeScope
  split
  · exact h
  next hgo =>
    rw [not_or] at hgo
    split
    all_goals
      rw [← List.append_assoc]
      refine h.tried ?_ ?_ h.owner fun _ => hgo.2
      · intro p
        cases p <;> simp [OwnedContext.holds]
      · simp

theorem Follows.closeRoute (h : Follows (past ++ u.deeds) u.owned) :
    Follows (past ++ (u.closeRoute c).deeds) (u.closeRoute c).owned := by
  unfold Unwinding.closeRoute
  split
  · exact h
  · split
    all_goals
      rw [← List.append_assoc]
      refine h.tried ?_ ?_ h.owner (by simp)
      · intro p
        cases p <;> simp [OwnedContext.holds]
      · simp

theorem Follows.close (h : Follows past o) :
    Follows (past ++ (o.close c).deeds) (o.close c).owned := by
  apply Follows.closeRoute
  apply Follows.closeScope
  apply Follows.closeProcesses
  rw [show o.unwinding.deeds = [] from rfl, List.append_nil]
  exact ⟨h.opened, h.holds, h.ambiguous, h.owner, h.once⟩

/-- An entry that has something left to close, or that it is not known of. -/
def Owing (o : OwnedContext) : Prop := o.cleanupUnresolved ∨ ∃ part, o.holds part

theorem failure_closeProcesses (howner : u.owned.processCleanupUnresolved → u.owned.processes)
    (h : u.failure = none ↔ ¬ u.owned.cleanupUnresolved) :
    ((u.closeProcesses c).failure = none ↔ ¬ (u.closeProcesses c).owned.cleanupUnresolved ∧
      ¬ (u.closeProcesses c).owned.processes) ∧
    ((u.closeProcesses c).owned.processCleanupUnresolved →
      (u.closeProcesses c).owned.processes) := by
  unfold Unwinding.closeProcesses
  split
  next hnone =>
    refine ⟨?_, howner⟩
    rw [h]
    tauto
  next hheld =>
    rw [not_not] at hheld
    split
    · simp [h]
    · simp [hheld]

theorem failure_closeScope
    (h : u.failure = none ↔ ¬ u.owned.cleanupUnresolved ∧ ¬ u.owned.processes) :
    (u.closeScope c).failure = none ↔ ¬ (u.closeScope c).owned.cleanupUnresolved ∧
      ¬ (u.closeScope c).owned.processes ∧ ¬ (u.closeScope c).owned.scope := by
  unfold Unwinding.closeScope
  split
  next hno =>
    rw [h]
    tauto
  next hgo =>
    rw [not_or, not_not] at hgo
    split
    · simp [hgo.1]
    · simp
    · simp [h]

theorem failure_closeRoute
    (h : u.failure = none ↔ ¬ u.owned.cleanupUnresolved ∧ ¬ u.owned.processes ∧ ¬ u.owned.scope) :
    (u.closeRoute c).failure = none ↔ ¬ (u.closeRoute c).owned.cleanupUnresolved ∧
      ¬ (u.closeRoute c).owned.processes ∧ ¬ (u.closeRoute c).owned.scope ∧
      ¬ (u.closeRoute c).owned.sessionOpen := by
  unfold Unwinding.closeRoute
  split
  next hno =>
    rw [h]
    tauto
  next hgo =>
    split
    · simp [h]
    · simp

theorem owner_closeScope : (u.closeScope c).owned.processCleanupUnresolved =
    u.owned.processCleanupUnresolved ∧ (u.closeScope c).owned.processes = u.owned.processes := by
  unfold Unwinding.closeScope
  split
  · exact ⟨rfl, rfl⟩
  · split <;> exact ⟨rfl, rfl⟩

theorem owner_closeRoute : (u.closeRoute c).owned.processCleanupUnresolved =
    u.owned.processCleanupUnresolved ∧ (u.closeRoute c).owned.processes = u.owned.processes := by
  unfold Unwinding.closeRoute
  split
  · exact ⟨rfl, rfl⟩
  · split <;> exact ⟨rfl, rfl⟩

/-- A close fails as long as the entry owes something. -/
theorem failure_close (howner : o.processCleanupUnresolved → o.processes) :
    (o.close c).failure = none ↔ ¬ Owing (o.close c).owned := by
  obtain ⟨hprocesses, howner'⟩ := failure_closeProcesses (u := o.unwinding) (c := c) howner
    (by simp [OwnedContext.unwinding])
  have hroute := failure_closeRoute (c := c) (failure_closeScope (c := c) hprocesses)
  have hkept : (o.close c).owned.processCleanupUnresolved → (o.close c).owned.processes := by
    intro h
    have hscope := @owner_closeScope (o.unwinding.closeProcesses c) c
    have hlast := @owner_closeRoute ((o.unwinding.closeProcesses c).closeScope c) c
    rw [OwnedContext.close, hlast.1, hscope.1] at h
    rw [OwnedContext.close, hlast.2, hscope.2]
    exact howner' h
  have howing : ¬ Owing (o.close c).owned ↔ ¬ (o.close c).owned.cleanupUnresolved ∧
      ¬ (o.close c).owned.processes ∧ ¬ (o.close c).owned.scope ∧
      ¬ (o.close c).owned.sessionOpen := by
    rw [Owing, not_or, not_exists]
    refine and_congr_right fun _ => ⟨fun h => ⟨h .processes, h .scope, h .route⟩, ?_⟩
    rintro ⟨h₁, h₂, h₃⟩ part
    cases part
    · exact h₁
    · exact h₂
    · exact h₃
  rw [howing]
  by_cases hunresolved : (o.close c).owned.processCleanupUnresolved
  · have hfailure : (o.close c).failure = some .unresolved := if_pos hunresolved
    rw [hfailure]
    simp [hkept hunresolved]
  · have hfailure : (o.close c).failure =
        (((o.unwinding.closeProcesses c).closeScope c).closeRoute c).failure := if_neg hunresolved
    rw [hfailure]
    exact hroute

/-! What a close tries. -/

theorem prefix_closeScope : u.deeds <+: (u.closeScope c).deeds := by
  unfold Unwinding.closeScope
  split
  · exact List.prefix_rfl
  · split <;> exact List.prefix_append _ _

theorem prefix_closeRoute : u.deeds <+: (u.closeRoute c).deeds := by
  unfold Unwinding.closeRoute
  split
  · exact List.prefix_rfl
  · split <;> exact List.prefix_append _ _

theorem tried_processes (h : o.processes) :
    ∃ closing, .tried .processes closing ∈ (o.close c).deeds := by
  have hfirst : ∃ closing, .tried .processes closing ∈ (o.unwinding.closeProcesses c).deeds := by
    unfold Unwinding.closeProcesses
    rw [if_neg (not_not.mpr (show o.unwinding.owned.processes from h))]
    split
    · exact ⟨.closed, by simp⟩
    · exact ⟨.raised, by simp⟩
  obtain ⟨closing, hmem⟩ := hfirst
  exact ⟨closing, prefix_closeRoute.subset (prefix_closeScope.subset hmem)⟩

theorem scope_closeProcesses : (u.closeProcesses c).owned.scope = u.owned.scope ∧
    (u.closeProcesses c).owned.cleanupUnresolved = u.owned.cleanupUnresolved := by
  unfold Unwinding.closeProcesses
  split
  · exact ⟨rfl, rfl⟩
  · split <;> exact ⟨rfl, rfl⟩

theorem tried_scope (h : o.scope) (hclear : ¬ o.cleanupUnresolved) :
    ∃ closing, .tried .scope closing ∈ (o.close c).deeds := by
  have hfirst : ∃ closing, .tried .scope closing ∈
      ((o.unwinding.closeProcesses c).closeScope c).deeds := by
    have hscope := scope_closeProcesses (u := o.unwinding) (c := c)
    have hgo : ¬ (¬ o.unwinding.owned.scope ∨ o.unwinding.owned.cleanupUnresolved) :=
      not_or.mpr ⟨not_not.mpr h, hclear⟩
    rw [Unwinding.closeScope, hscope.1, hscope.2, if_neg hgo]
    cases c.scope with
    | closed => exact ⟨.closed, by simp⟩
    | busy => exact ⟨.busy, by simp⟩
    | raised => exact ⟨.raised, by simp⟩
  obtain ⟨closing, hmem⟩ := hfirst
  exact ⟨closing, prefix_closeRoute.subset hmem⟩

theorem route_closeProcesses : (u.closeProcesses c).owned.sessionOpen = u.owned.sessionOpen := by
  unfold Unwinding.closeProcesses
  split
  · rfl
  · split <;> rfl

theorem route_closeScope : (u.closeScope c).owned.sessionOpen = u.owned.sessionOpen := by
  unfold Unwinding.closeScope
  split
  · rfl
  · split <;> rfl

theorem tried_route (h : o.sessionOpen) :
    ∃ closing, .tried .route closing ∈ (o.close c).deeds := by
  have hopen : ((o.unwinding.closeProcesses c).closeScope c).owned.sessionOpen := by
    rw [route_closeScope, route_closeProcesses]
    exact h
  change ∃ closing, _ ∈ (((o.unwinding.closeProcesses c).closeScope c).closeRoute c).deeds
  rw [Unwinding.closeRoute, if_neg (not_not.mpr hopen)]
  split
  · exact ⟨.closed, by simp⟩
  · exact ⟨.raised, by simp⟩

end Entries

def OwnedContext.after (o : OwnedContext) (c : Cleanup) : Option OwnedContext :=
  if (o.close c).failure = none then none else some (o.close c).owned

/-! ### The table -/

namespace Broker

section Tables

variable {b : Broker} {id j : ℕ} {c : Cleanup} {deeds : List Deed}

theorem past_record : (b.record id deeds).past j =
    if j = id then b.past j ++ deeds else b.past j := by
  rw [past, record, List.filter_append, List.map_append]
  by_cases h : j = id
  · rw [if_pos h]
    subst h
    congr 1
    simp [List.filter_map, Function.comp_def]
  · have hid : ¬ id = j := fun heq => h heq.symm
    rw [if_neg h]
    simp [List.filter_map, Function.comp_def, hid, past]

/-- A close of one entry leaves the others as they are. -/
theorem past_closeOwned : (b.closeOwned id c).1.past j =
    if j = id then b.past j ++ ((b.owned.lookup j).map fun o => (o.close c).deeds).getD []
    else b.past j := by
  unfold closeOwned
  split
  next h =>
    split
    next heq => rw [heq, h, Option.map_none, Option.getD_none, List.append_nil]
    next => rfl
  next o h =>
    have hpast : ((b.record id (o.close c).deeds)).past j = if j = id then b.past j ++
        ((b.owned.lookup j).map fun o => (o.close c).deeds).getD [] else b.past j := by
      rw [past_record]
      split
      next heq => rw [heq, h, Option.map_some, Option.getD_some]
      next => rfl
    simp only
    split <;> exact hpast

theorem lookup_closeOwned : (b.closeOwned id c).1.owned.lookup j =
    if j = id then (b.owned.lookup j).bind fun o => OwnedContext.after o c
    else b.owned.lookup j := by
  unfold closeOwned
  split
  next h =>
    split
    next heq => rw [heq, h, Option.bind_none]
    next => rfl
  next o h =>
    simp only
    split
    next hnone =>
      simp only [record]
      rw [Table.lookup_delete]
      split
      next heq => rw [heq, h, Option.bind_some, OwnedContext.after, if_pos hnone]
      next => rfl
    next failure hsome =>
      simp only [record]
      rw [Table.lookup_modify]
      split
      next heq =>
        rw [heq, h, Option.map_some, Option.bind_some, OwnedContext.after, if_neg (by simp [hsome])]
      next => rfl

theorem failure_closeOwned : (b.closeOwned id c).2 =
    (b.owned.lookup id).bind fun o => (o.close c).failure := by
  unfold closeOwned
  split
  next h => rw [h, Option.bind_none]
  next o h =>
    simp only
    split
    next hnone => rw [h, Option.bind_some, hnone]
    next failure hsome => rw [h, Option.bind_some, hsome]

theorem next_closeOwned : (b.closeOwned id c).1.next = b.next := by
  unfold closeOwned
  split
  · rfl
  · simp only
    split <;> rfl

theorem mem_contexts_closeOwned (h : j ≠ id) :
    j ∈ (b.closeOwned id c).1.contexts ↔ j ∈ b.contexts := by
  unfold closeOwned
  split
  · rfl
  · simp only
    split
    · simp [record, h]
    · rfl

end Tables

section Closes

variable {c : ℕ → Cleanup} {j : ℕ}

theorem past_closeEach {ids : List ℕ} (h : ids.Nodup) (b : Broker) (f : Option CleanupFailure) :
    (closeEach c ids b f).1.past j =
      if j ∈ ids then b.past j ++ ((b.owned.lookup j).map fun o => (o.close (c j)).deeds).getD []
      else b.past j := by
  induction ids generalizing b f with
  | nil => rfl
  | cons id ids ih =>
    obtain ⟨hid, hids⟩ := List.nodup_cons.mp h
    rw [closeEach, ih hids, past_closeOwned, lookup_closeOwned]
    by_cases heq : j = id
    · subst heq
      rw [if_neg hid, if_pos rfl, if_pos List.mem_cons_self]
    · simp only [heq, if_false, List.mem_cons, false_or]

theorem lookup_closeEach {ids : List ℕ} (h : ids.Nodup) (b : Broker) (f : Option CleanupFailure) :
    (closeEach c ids b f).1.owned.lookup j =
      if j ∈ ids then (b.owned.lookup j).bind fun o => o.after (c j) else b.owned.lookup j := by
  induction ids generalizing b f with
  | nil => rfl
  | cons id ids ih =>
    obtain ⟨hid, hids⟩ := List.nodup_cons.mp h
    rw [closeEach, ih hids, lookup_closeOwned]
    by_cases heq : j = id
    · subst heq
      rw [if_neg hid, if_pos rfl, if_pos List.mem_cons_self]
    · simp only [heq, if_false, List.mem_cons, false_or]

/-- What is raised in the end is raised for one of the entries. -/
theorem failure_closeEach {ids : List ℕ} (h : ids.Nodup) (b : Broker) (f : Option CleanupFailure) :
    (closeEach c ids b f).2 = none ↔
      f = none ∧ ∀ id ∈ ids, ((b.owned.lookup id).bind fun o => (o.close (c id)).failure) =
        none := by
  induction ids generalizing b f with
  | nil => simp [closeEach]
  | cons id ids ih =>
    obtain ⟨hid, hids⟩ := List.nodup_cons.mp h
    have hothers : (∀ j ∈ ids, (((b.closeOwned id (c id)).1.owned.lookup j).bind fun o =>
        (o.close (c j)).failure) = none) ↔
        ∀ j ∈ ids, ((b.owned.lookup j).bind fun o => (o.close (c j)).failure) = none := by
      refine forall₂_congr fun j hj => ?_
      rw [lookup_closeOwned, if_neg]
      rintro rfl
      exact hid hj
    rw [closeEach, ih hids, hothers, failure_closeOwned, List.forall_mem_cons, ← and_assoc]
    refine and_congr_left fun _ => ?_
    split
    next hnow =>
      constructor
      · intro hcurrent
        rw [hcurrent] at hnow
        simp only [reduceCtorEq, false_or] at hnow
        exact ⟨hnow, hcurrent⟩
      · exact fun hboth => hboth.2
    next hnow =>
      rw [not_or] at hnow
      exact ⟨fun hf => absurd hf hnow.2, fun hboth => absurd hboth.1 hnow.2⟩

theorem nodup_keys (b : Broker) : b.owned.keys.reverse.Nodup :=
  List.nodup_reverse.mpr b.owned.keys_nodup

theorem mem_keys_reverse {b : Broker} : j ∈ b.owned.keys.reverse ↔ b.owned.lookup j ≠ none := by
  rw [List.mem_reverse, Table.mem_keys]

theorem past_close (b : Broker) : (b.close c).1.past j =
    b.past j ++ ((b.owned.lookup j).map fun o => (o.close (c j)).deeds).getD [] := by
  rw [close, past_closeEach b.nodup_keys]
  split
  next => rfl
  next h =>
    rw [mem_keys_reverse, not_not] at h
    rw [h, Option.map_none, Option.getD_none, List.append_nil]
    exact rfl

theorem lookup_close (b : Broker) : (b.close c).1.owned.lookup j =
    (b.owned.lookup j).bind fun o => o.after (c j) := by
  rw [close, lookup_closeEach b.nodup_keys]
  split
  next => rfl
  next h =>
    rw [mem_keys_reverse, not_not] at h
    rw [h, Option.bind_none]

/-- The close of the broker raises as long as an entry is left. -/
theorem close_raises_iff (b : Broker) :
    (b.close c).2 ≠ none ↔ ∃ id, (b.close c).1.owned.lookup id ≠ none := by
  have hentry : ∀ id, ((b.owned.lookup id).bind fun o => (o.close (c id)).failure) = none ↔
      (b.close c).1.owned.lookup id = none := by
    intro id
    rw [lookup_close]
    cases b.owned.lookup id with
    | none => simp
    | some o =>
      rw [Option.bind_some, Option.bind_some, OwnedContext.after]
      split
      next h => exact ⟨fun _ => rfl, fun _ => h⟩
      next h => simp [h]
  rw [← not_forall_not, not_iff_not]
  simp only [not_not, ← hentry]
  rw [close, failure_closeEach b.nodup_keys]
  constructor
  · rintro ⟨-, h⟩ id
    by_cases hkey : b.owned.lookup id = none
    · rw [hkey, Option.bind_none]
    · exact h id (mem_keys_reverse.mpr hkey)
  · intro h
    exact ⟨rfl, fun id _ => h id⟩

end Closes

/-! ### Every run -/

section Runs

variable {b : Broker} {id : ℕ} {past : List Deed} {o : OwnedContext}

/-- What is known of an entry from what has been done about it: one that has left the table has been
closed in all its parts, and one that has not been closed at all has its context. -/
def Known (past : List Deed) (routed : Prop) : Option OwnedContext → Prop
  | none => (∀ part, .made part ∈ past → .tried part .closed ∈ past) ∧ NeverAgain past
  | some o => Follows past o ∧ Owing o ∧
      (o.closed → ∃ closing, .tried .route closing ∈ past) ∧
      (¬ o.closed → routed ∧ ∀ part closing, .tried part closing ∉ past)

structure Sound (b : Broker) : Prop where
  known : ∀ id, Known (b.past id) (id ∈ b.contexts) (b.owned.lookup id)
  fresh : ∀ id, b.next ≤ id → b.past id = [] ∧ b.owned.lookup id = none

theorem closed_close (c : Cleanup) : (o.close c).owned.closed := by
  have hprocesses : ∀ u : Unwinding, (u.closeProcesses c).owned.closed = u.owned.closed := by
    intro u
    unfold Unwinding.closeProcesses
    split
    · rfl
    · split <;> rfl
  have hscope : ∀ u : Unwinding, (u.closeScope c).owned.closed = u.owned.closed := by
    intro u
    unfold Unwinding.closeScope
    split
    · rfl
    · split <;> rfl
  have hroute : ∀ u : Unwinding, (u.closeRoute c).owned.closed = u.owned.closed := by
    intro u
    unfold Unwinding.closeRoute
    split
    · rfl
    · split <;> rfl
  rw [OwnedContext.close, hroute, hscope, hprocesses]
  rfl

/-- A close leaves an entry that still owes something, or leaves nothing to close. -/
theorem known_close (h : Follows past o) (c : Cleanup) (routed : Prop) :
    Known (past ++ (o.close c).deeds) routed (o.after c) := by
  have hfollows := h.close (c := c)
  have hroute : ∃ closing, .tried .route closing ∈ past ++ (o.close c).deeds := by
    by_cases hopen : o.sessionOpen
    · obtain ⟨closing, hmem⟩ := tried_route (c := c) hopen
      exact ⟨closing, List.mem_append_right past hmem⟩
    · have hclosed := mt (h.holds .route).mpr hopen
      rw [Due, not_and, not_not] at hclosed
      exact ⟨.closed, List.mem_append_left _ (hclosed h.opened)⟩
  unfold OwnedContext.after
  split
  next hnone =>
    rw [failure_close h.owner, Owing, not_or, not_exists] at hnone
    refine ⟨?_, hfollows.once⟩
    intro part hmade
    have hdue := mt (hfollows.holds part).mpr (hnone.2 part)
    rw [Due, not_and, not_not] at hdue
    exact hdue hmade
  next hsome =>
    rw [failure_close h.owner, not_not] at hsome
    exact ⟨hfollows, hsome, fun _ => hroute, fun hopen => absurd (closed_close c) hopen⟩

theorem Sound.closeOwned (h : b.Sound) (id : ℕ) (c : Cleanup) : (b.closeOwned id c).1.Sound where
  known j := by
    have hj := h.known j
    rw [past_closeOwned, lookup_closeOwned]
    by_cases heq : j = id
    · rw [if_pos heq, if_pos heq]
      cases howned : b.owned.lookup j with
      | none =>
        rw [howned] at hj
        rw [Option.map_none, Option.getD_none, List.append_nil, Option.bind_none]
        exact hj
      | some o =>
        rw [howned] at hj
        exact known_close hj.1 c _
    · rw [if_neg heq, if_neg heq, mem_contexts_closeOwned heq]
      exact hj
  fresh j hj := by
    rw [next_closeOwned] at hj
    obtain ⟨hpast, hnone⟩ := h.fresh j hj
    rw [past_closeOwned, lookup_closeOwned, hpast, hnone]
    simp

theorem Sound.closeEach (h : b.Sound) (c : ℕ → Cleanup) (ids : List ℕ) (f : Option CleanupFailure) :
    (closeEach c ids b f).1.Sound := by
  induction ids generalizing b f with
  | nil => exact h
  | cons id ids ih => exact ih (h.closeOwned id (c id)) _

/-- A new entry follows what has been made for it. -/
theorem follows_made (scope processes : Bool) :
    Follows ([.made .route] ++ (if scope then [.made .scope] else []) ++
      (if processes then [.made .processes] else [])) { scope, processes } := by
  constructor
  · simp
  · intro part
    cases part <;> cases scope <;> cases processes <;> simp [OwnedContext.holds, Due]
  · cases scope <;> cases processes <;> simp [Ambiguous]
  · intro h
    cases h
  · intro xs ys heq
    have hmem : Deed.tried .scope .raised ∈ [Deed.made .route] ++
        (if scope then [.made .scope] else []) ++
          (if processes then [.made .processes] else []) := by
      rw [heq]
      exact List.mem_append_right xs List.mem_cons_self
    cases scope <;> cases processes <;> simp at hmem

section Enter

variable {j : ℕ} (scope processes : Bool)

theorem past_enter (h : b.Sound) : (b.enter scope processes).past j =
    if j = b.next then [.made .route] ++ (if scope then [.made .scope] else []) ++
      (if processes then [.made .processes] else []) else b.past j := by
  have hpast := @past_record b b.next j ([.made .route] ++ (if scope then [.made .scope] else []) ++
    (if processes then [.made .processes] else []))
  change (b.record b.next _).past j = _
  rw [hpast]
  split
  next heq => rw [heq, (h.fresh b.next le_rfl).1, List.nil_append]
  next => rfl

theorem lookup_enter : (b.enter scope processes).owned.lookup j =
    if j = b.next then some { scope, processes } else b.owned.lookup j := Table.lookup_put

end Enter

theorem Sound.openContext (h : b.Sound) (o : Opening) : (b.openContext o).1.Sound := by
  unfold Broker.openContext
  split
  · exact h
  · simp only
    generalize (o.scope && o.adapters && o.profiled && o.processes) = processes
    have hfresh : ∀ j, b.next + 1 ≤ j → (b.enter o.scope processes).past j = [] ∧
        (b.enter o.scope processes).owned.lookup j = none := by
      intro j hj
      rw [past_enter _ _ h, lookup_enter, if_neg (by omega), if_neg (by omega)]
      exact h.fresh j (by omega)
    split
    · refine ⟨fun j => ?_, hfresh⟩
      change Known ((b.enter o.scope processes).past j) (j ∈ b.next :: b.contexts)
        ((b.enter o.scope processes).owned.lookup j)
      rw [past_enter _ _ h, lookup_enter]
      split
      next heq =>
        have hfollows := follows_made o.scope processes
        refine ⟨hfollows, .inr ⟨.route, rfl⟩, ?_, fun _ => ⟨?_, ?_⟩⟩
        · intro hclosed
          cases hclosed
        · rw [heq]
          exact List.mem_cons_self
        · intro part closing hmem
          cases o.scope <;> cases processes <;> simp at hmem
      next hne =>
        rw [List.mem_cons, or_iff_right hne]
        exact h.known j
    · refine ⟨fun j => ?_, fun j hj => ?_⟩
      · rw [past_closeOwned, lookup_closeOwned, past_enter _ _ h, lookup_enter]
        by_cases heq : j = b.next
        · simp only [heq, if_true, Option.map_some, Option.getD_some, Option.bind_some]
          exact known_close (follows_made o.scope processes) o.cleanup _
        · rw [if_neg heq, if_neg heq, if_neg heq, if_neg heq, mem_contexts_closeOwned heq]
          exact h.known j
      · rw [next_closeOwned] at hj
        obtain ⟨hpast, hnone⟩ := hfresh j hj
        rw [past_closeOwned, lookup_closeOwned, hpast, hnone]
        simp

theorem Sound.step (h : b.Sound) (call : BrokerCall) : (b.step call).Sound := by
  cases call with
  | openContext o => exact h.openContext o
  | closeContext id c =>
    unfold Broker.step Broker.closeContext
    simp only
    split
    · exact h.closeOwned id c
    · exact h
  | close c => exact Sound.closeEach (b := { b with closed := true }) ⟨h.known, h.fresh⟩ c _ none

theorem Sound.run (h : b.Sound) (calls : List BrokerCall) : (b.run calls).Sound := by
  induction calls generalizing b with
  | nil => exact h
  | cons call calls ih => exact ih (h.step call)

theorem sound_new : ({} : Broker).Sound where
  known _ := by
    refine ⟨fun part hmade => ?_, fun xs ys heq => ?_⟩
    · cases hmade
    · cases xs <;> cases heq
  fresh _ _ := ⟨rfl, rfl⟩

end Runs

section Cleanups

variable {b : Broker} {id : ℕ}

def Reached (b : Broker) : Prop := ∃ calls, b = run {} calls

theorem Reached.sound (h : b.Reached) : b.Sound := by
  obtain ⟨calls, rfl⟩ := h
  exact sound_new.run calls

end Cleanups

end Broker

/-- A call that closes an entry, either by its context or with the broker. -/
def BrokerCall.closes (b : Broker) (id : ℕ) : BrokerCall → Prop
  | openContext _ => False
  | closeContext j _ => j = id ∧ id ∈ b.contexts
  | close _ => True

namespace Broker

section Retries

variable {b : Broker} {id : ℕ} {o : OwnedContext} {part : Part} {past : List Deed}

theorem Sound.lookup_of_due (h : b.Sound) (hdue : Due (b.past id) part) :
    ∃ o, b.owned.lookup id = some o ∧ Follows (b.past id) o := by
  have hknown := h.known id
  cases hlook : b.owned.lookup id with
  | none =>
    rw [hlook] at hknown
    exact absurd (hknown.1 part hdue.1) hdue.2
  | some o =>
    rw [hlook] at hknown
    exact ⟨o, rfl, hknown.1⟩

theorem tried_of_due (h : Follows past o) (hdue : Due past part) (c : Cleanup)
    (hscope : part = .scope → ¬ Ambiguous past) :
    ∃ closing, .tried part closing ∈ (o.close c).deeds := by
  have hheld := (h.holds part).mpr hdue
  cases part with
  | processes => exact tried_processes hheld
  | scope => exact tried_scope hheld (mt h.ambiguous.mp (hscope rfl))
  | route => exact tried_route hheld

/-- A close of an entry tries whatever of it is due. -/
theorem Sound.retries (h : b.Sound) (hdue : Due (b.past id) part)
    (hscope : part = .scope → ¬ Ambiguous (b.past id)) {call : BrokerCall}
    (hcall : call.closes b id) :
    ∃ deeds, (b.step call).past id = b.past id ++ deeds ∧
      ∃ closing, .tried part closing ∈ deeds := by
  obtain ⟨o, hlook, hfollows⟩ := h.lookup_of_due hdue
  cases call with
  | openContext o => exact hcall.elim
  | closeContext j c =>
    obtain ⟨rfl, hrouted⟩ := hcall
    refine ⟨(o.close c).deeds, ?_, tried_of_due hfollows hdue c hscope⟩
    rw [Broker.step, Broker.closeContext, if_pos hrouted, past_closeOwned, if_pos rfl, hlook,
      Option.map_some, Option.getD_some]
  | close c =>
    refine ⟨(o.close (c id)).deeds, ?_, tried_of_due hfollows hdue (c id) hscope⟩
    rw [Broker.step, past_close, hlook, Option.map_some, Option.getD_some]

/-- The cleanup of a broker, in every run. A scope whose close has failed otherwise than as busy is
never closed again. An entry has its context and nothing tried of it, or the release of its slot has
been tried. What is due of an entry keeps it in the table, and every close of it tries that. An
entry that has left the table is closed in all its parts; one that has not, without an ambiguous
failure, still has a part that is due. The broker's close raises exactly when an entry is left. -/
theorem cleanup_sound (b : Broker) (h : b.Reached) :
    (∀ id, NeverAgain (b.past id)) ∧
    (∀ id, .made .route ∈ b.past id →
      (id ∈ b.contexts ∧ ∀ part closing, .tried part closing ∉ b.past id) ∨
        ∃ closing, .tried .route closing ∈ b.past id) ∧
    (∀ id part, Due (b.past id) part → b.owned.lookup id ≠ none ∧
      ((part = .scope → ¬ Ambiguous (b.past id)) → ∀ call : BrokerCall, call.closes b id →
        ∃ deeds, (b.step call).past id = b.past id ++ deeds ∧
          ∃ closing, .tried part closing ∈ deeds)) ∧
    (∀ id, b.owned.lookup id = none → ∀ part, ¬ Due (b.past id) part) ∧
    (∀ id, b.owned.lookup id ≠ none → ¬ Ambiguous (b.past id) → ∃ part, Due (b.past id) part) ∧
    ∀ c, (b.close c).2 ≠ none ↔ ∃ id, (b.close c).1.owned.lookup id ≠ none := by
  have hsound := h.sound
  refine ⟨?_, ?_, ?_, ?_, ?_, fun c => close_raises_iff b⟩
  · intro id
    have hknown := hsound.known id
    cases hlook : b.owned.lookup id with
    | none =>
      rw [hlook] at hknown
      exact hknown.2
    | some o =>
      rw [hlook] at hknown
      exact hknown.1.once
  · intro id hmade
    have hknown := hsound.known id
    cases hlook : b.owned.lookup id with
    | none =>
      rw [hlook] at hknown
      exact .inr ⟨.closed, hknown.1 .route hmade⟩
    | some o =>
      rw [hlook] at hknown
      obtain ⟨-, -, hclosed, hopen⟩ := hknown
      by_cases hc : o.closed
      · exact .inr (hclosed hc)
      · exact .inl (hopen hc)
  · intro id part hdue
    obtain ⟨o, hlook, -⟩ := hsound.lookup_of_due hdue
    refine ⟨by simp [hlook], fun hscope call hcall => hsound.retries hdue hscope hcall⟩
  · intro id hnone part hdue
    obtain ⟨o, hlook, -⟩ := hsound.lookup_of_due hdue
    rw [hnone] at hlook
    cases hlook
  · intro id hsome hclear
    obtain ⟨o, hlook⟩ := Option.ne_none_iff_exists'.mp hsome
    have hknown := hsound.known id
    rw [hlook] at hknown
    obtain ⟨hfollows, howing, -, -⟩ := hknown
    obtain hunresolved | ⟨part, hheld⟩ := howing
    · exact absurd (hfollows.ambiguous.mp hunresolved) hclear
    · exact ⟨part, (hfollows.holds part).mp hheld⟩

/-- A process owner that failed to close is tried again, with the broker closed already. -/
theorem cleanup_sound_retried :
    let b := run {} [.openContext { profiled := true }, .close fun _ => { processes := false }]
    b.owned.lookup 0 ≠ none ∧ ∃ deeds, (b.step (.close fun _ => {})).past 0 = b.past 0 ++ deeds ∧
      ∃ closing, .tried .processes closing ∈ deeds := by
  intro b
  obtain ⟨-, -, hdue, -⟩ := cleanup_sound b ⟨_, rfl⟩
  obtain ⟨hkept, htried⟩ := hdue 0 .processes ⟨by decide, by decide⟩
  exact ⟨hkept, htried (fun hscope => by cases hscope) (.close fun _ => {}) trivial⟩

end Retries

end Broker

end OrchKit.Local
