import OrchKit.Bridge.Steps

/-! # What an append does

Wherever it is cut off, an append has changed nothing but the directory of its operation,
and there either nothing but staging files or, once the record is linked, the record
besides. It links a record only where that continues the chain, under an intent, in a store
that can be read.
-/

namespace OrchKit.Bridge

open Except Program Table Routine

namespace Runtime

variable {rh oh : Digest} {f g : Chain → Chain} {r r' r'' : Runtime} {dir : OpDir}

/-- The store is the same but for the directory of one operation, where the records are `f` of
what they were. -/
structure Changed (rh oh : Digest) (f : Chain → Chain) (r r' : Runtime) : Prop where
  journal : r'.journal = r.journal
  chain : r'.chainAt rh oh = f (r.chainAt rh oh)
  inPlace : ∀ dir, r.findOp rh oh = some dir →
    ∃ temps, r' = r.updateOp rh oh fun d => ⟨f d.chain, temps⟩
  others : ∀ rh' oh', ¬ (rh' = rh ∧ oh' = oh) → r'.findOp rh' oh' = r.findOp rh' oh'

theorem Changed.refl (r : Runtime) : Changed rh oh id r r where
  journal := rfl
  chain := rfl
  inPlace dir hdir := by
    refine ⟨dir.temps, (updateOp_eq_self fun dir' hdir' => ?_).symm⟩
    cases hdir.symm.trans hdir'
    rfl
  others _ _ _ := rfl

theorem Changed.trans (h : Changed rh oh f r r') (h' : Changed rh oh g r' r'') :
    Changed rh oh (g ∘ f) r r'' where
  journal := h'.journal.trans h.journal
  chain := by rw [h'.chain, h.chain, Function.comp_apply]
  inPlace dir hdir := by
    obtain ⟨temps, rfl⟩ := h.inPlace dir hdir
    obtain ⟨temps', rfl⟩ :=
      h'.inPlace ⟨f dir.chain, temps⟩ (by rw [findOp_updateOp_self, hdir]; rfl)
    exact ⟨temps', updateOp_updateOp⟩
  others rh' oh' hne := (h'.others rh' oh' hne).trans (h.others rh' oh' hne)

theorem changed_updateOp {k : OpDir → OpDir} (hk : ∀ d, (k d).chain = f d.chain)
    (hf : r.findOp rh oh = none → f {} = {}) : Changed rh oh f r (r.updateOp rh oh k) where
  journal := rfl
  chain := by
    rcases hdir : r.findOp rh oh with _ | dir
    · rw [chainAt_of_findOp_none hdir, hf hdir, chainAt_of_findOp_none]
      rw [findOp_updateOp_self, hdir]
      rfl
    · rw [chainAt_of_findOp hdir, ← hk, chainAt_of_findOp]
      rw [findOp_updateOp_self, hdir]
      rfl
  inPlace dir hdir := by
    refine ⟨(k dir).temps, updateOp_congr fun dir' hdir' => ?_⟩
    cases hdir.symm.trans hdir'
    rw [← hk]
  others rh' oh' hne := by rw [findOp_updateOp, if_neg hne]

theorem findOp_makeExecution {rh' oh' : Digest} :
    r.makeExecution.findOp rh' oh' = r.findOp rh' oh' := by
  obtain ⟨journal, execution⟩ := r
  rcases execution with _ | runs
  · simp [makeExecution, findOp, AList.lookup_empty]
  · rfl

theorem findOp_makeRun {rh' oh' : Digest} : (r.makeRun rh).findOp rh' oh' = r.findOp rh' oh' := by
  obtain ⟨journal, execution⟩ := r
  rcases execution with _ | runs
  · rfl
  · simp only [makeRun, findOp, Option.map_some, Option.bind_some]
    split
    · rfl
    next h =>
      rw [lookup_put]
      split
      next he =>
        rw [he, Option.not_isSome_iff_eq_none.mp h]
        simp [AList.lookup_empty]
      next => rfl

theorem makeExecution_eq_self (h : r.findOp rh oh = some dir) : r.makeExecution = r := by
  obtain ⟨runs, -, hruns, -⟩ := findOp_eq_some_iff.mp h
  obtain ⟨journal, execution⟩ := r
  cases hruns
  rfl

theorem makeRun_eq_self (h : r.findOp rh oh = some dir) : r.makeRun rh = r := by
  obtain ⟨runs, run, hruns, hrun, -⟩ := findOp_eq_some_iff.mp h
  obtain ⟨journal, execution⟩ := r
  cases hruns
  simp only [makeRun, Option.map_some, hrun, Option.isSome_some, if_true]

theorem makeOperation_eq_self (h : r.findOp rh oh = some dir) : r.makeOperation rh oh = r := by
  have hroom := room_eq_self h
  rwa [room, makeExecution_eq_self h, makeRun_eq_self h] at hroom

theorem changed_makeExecution : Changed rh oh id r r.makeExecution where
  journal := rfl
  chain := by rw [chainAt, findOp_makeExecution, id, chainAt]
  inPlace dir hdir := by
    rw [makeExecution_eq_self hdir]
    exact (Changed.refl r).inPlace dir hdir
  others _ _ _ := findOp_makeExecution

theorem changed_makeRun : Changed rh oh id r (r.makeRun rh) where
  journal := rfl
  chain := by rw [chainAt, findOp_makeRun, id, chainAt]
  inPlace dir hdir := by
    rw [makeRun_eq_self hdir]
    exact (Changed.refl r).inPlace dir hdir
  others _ _ _ := findOp_makeRun

theorem changed_room : Changed rh oh id r (r.room rh oh) where
  journal := rfl
  chain := by
    rw [chainAt, findOp_room, if_pos ⟨rfl, rfl⟩, id, chainAt]
    rcases r.findOp rh oh with _ | dir <;> rfl
  inPlace dir hdir := by
    rw [room_eq_self hdir]
    exact (Changed.refl r).inPlace dir hdir
  others rh' oh' hne := by rw [findOp_room, if_neg hne]

theorem Changed.stage (h : Changed rh oh f r r') (name : TempName) :
    Changed rh oh f r (r'.stage rh oh name) := by
  have hs : Changed rh oh id r' (r'.stage rh oh name) :=
    changed_updateOp (fun _ => rfl) fun _ => rfl
  exact h.trans hs

theorem Changed.unstage (h : Changed rh oh f r r') (name : TempName) :
    Changed rh oh f r (r'.unstage rh oh name) := by
  have hs : Changed rh oh id r' (r'.unstage rh oh name) :=
    changed_updateOp (fun _ => rfl) fun _ => rfl
  exact h.trans hs

theorem Changed.link (h : Changed rh oh id r r') (hdir : r'.findOp rh oh = some dir)
    (record : ExecutionRecord) : Changed rh oh (·.put record) r (r'.link rh oh record) :=
  h.trans (changed_updateOp (f := (·.put record)) (fun _ => rfl) fun hn => by
    rw [hdir] at hn
    cases hn)

end Runtime

theorem Chain.record_put (c : Chain) (record : ExecutionRecord) :
    (c.put record).record record.phase = some record := by
  cases record <;> rfl

abbrev ExecutionRecord.runHash (record : ExecutionRecord) (m : Machine) : Digest :=
  m.digests.id record.base.request.binding.runId

abbrev ExecutionRecord.operationHash (record : ExecutionRecord) (m : Machine) : Digest :=
  m.digests.id record.base.request.operationId

/-- The records of the operation that a record belongs to. -/
abbrev State.chainFor (s : State) (m : Machine) (record : ExecutionRecord) : Chain :=
  s.runtime.chainAt (record.runHash m) (record.operationHash m)

/-- What an append has found when it links a record. -/
structure Admitted (m : Machine) (record : ExecutionRecord) (s : State) : Prop where
  census : s.runtime.census m.digests m.uid.toNat ≠ .unknown
  fresh : (s.chainFor m record).record record.phase = none
  open_ : (s.chainFor m record).result = none
  valid : ∃ intent, s.runtime.inspectIntent m.digests record.base.request.binding.runId
      record.base.request.operationId = .recorded intent ∧
    ((s.chainFor m record).put record).valid m.digests m.uid.toNat intent = true

/-- The store while a record is being appended: as it was, or with the record besides. -/
inductive Appending (m : Machine) (record : ExecutionRecord) (s : State) (r : Runtime) : Prop
  | before (h : Runtime.Changed (record.runHash m) (record.operationHash m) id s.runtime r)
  | after (ha : Admitted m record s)
      (h : Runtime.Changed (record.runHash m) (record.operationHash m) (·.put record) s.runtime r)

/-- What an append has left when it answers. -/
structure Answered (m : Machine) (record : ExecutionRecord) (s : State) (n : ℕ)
    (reply : AppendReply) (c : State × ℕ) : Prop where
  state : ∃ r, c = ({ s with runtime := r }, n) ∧ Appending m record s r
  recorded : reply.status = .created ∨ reply.status = .existing →
    (c.1.chainFor m record).record record.phase = some record
  existing : reply.status = .existing → (s.chainFor m record).record record.phase = some record

def Act.stores : Act → Prop
  | makeExecution | makeRun _ | makeOperation .. | stage .. | link .. | unstage .. => True
  | _ => False

/-- Neither observations nor changes of the execution store count. -/
structure StoreQuiet (P : Env → State → Op → Bool) : Prop where
  reads : Quiet P
  stores : ∀ env s (a : Act), a.stores → P env s (.act a) = false

variable {m : Machine} {s : State} {record : ExecutionRecord} {authorize : Routine Unit}
  {name : TempName} {good : Env → Prop} {P : Env → State → Op → Bool} {n : ℕ}
  {J : State × ℕ → Prop} {r : Runtime}

theorem Appending.unstage (h : Appending m record s r) (name : TempName) :
    Appending m record s (r.unstage (record.runHash m) (record.operationHash m) name) := by
  cases h with
  | before h => exact .before (h.unstage name)
  | after ha h => exact .after ha (h.unstage name)

theorem Appending.answered (h : Appending m record s r) {reply : AppendReply}
    (hr : ¬ (reply.status = .created ∨ reply.status = .existing)) :
    Answered m record s n reply ({ s with runtime := r }, n) :=
  ⟨⟨r, rfl, h⟩, fun h => absurd h hr, fun h => absurd (.inr h) hr⟩

theorem chainFor_of_found {found : Found Chain} {chain : Chain}
    (hfound : found = Look.see m s (.inspect record.base.request.binding.runId
      record.base.request.operationId))
    (hchain : recordsOf found = .ret chain) : s.chainFor m record = chain := by
  rw [State.chainFor]
  cases found with
  | absent =>
    cases hchain
    exact Runtime.chainAt_of_findOp_none (Runtime.inspect_eq_absent hfound.symm)
  | recorded chain' =>
    cases hchain
    obtain ⟨-, dir, hdir, rfl, -⟩ := Runtime.inspect_eq_recorded_iff.mp hfound.symm
    exact Runtime.chainAt_of_findOp hdir
  | unknown => cases hchain

theorem keeps_recordsOf {found : Found Chain} {f : Chain → Routine AppendReply}
    {Q : Except Exn AppendReply → State × ℕ → Prop} {c : State × ℕ}
    (hok : ∀ chain, recordsOf found = .ret chain → (f chain).Keeps (counted m P) good J Q c)
    (herr : ∀ e, Q (.error e) c) : (recordsOf found >>= f).Keeps (counted m P) good J Q c := by
  cases found with
  | unknown => exact herr _
  | absent => exact hok _ rfl
  | recorded chain => exact hok _ rfl

section Publish

variable (hP : StoreQuiet P) (hJ : ∀ r, Appending m record s r → J ({ s with runtime := r }, n))
include hP hJ

theorem unstage_keeps {β : Type} {f : Unit → Routine β} {Q : Except Exn β → State × ℕ → Prop}
    (h : Appending m record s r)
    (hok : ∀ r', Appending m record s r' →
      (f ()).Keeps (counted m P) good J Q ({ s with runtime := r' }, n))
    (herr : ∀ e r', Appending m record s r' → Q (.error e) ({ s with runtime := r' }, n)) :
    (act (.unstage (record.runHash m) (record.operationHash m) name) >>= f).Keeps (counted m P)
      good J Q ({ s with runtime := r }, n) := by
  refine keeps_act (fun env => hP.stores env _ (.unstage ..) trivial) (hJ _ h)
    (fun e => herr e r h) ?_
  intro env _ s' _ hp
  obtain ⟨-, rfl⟩ := Act.perform_unstage.mp hp
  have h' := h.unstage name
  exact ⟨hJ _ h', fun e => herr e _ h', hok _ h'⟩

theorem unstage_ends {Q : Except Exn Unit → State × ℕ → Prop} (h : Appending m record s r)
    (hQ : ∀ x r', Appending m record s r' → Q x ({ s with runtime := r' }, n)) :
    (act (.unstage (record.runHash m) (record.operationHash m) name)).Keeps (counted m P) good J Q
      ({ s with runtime := r }, n) := by
  rw [← Prog.bind_ret (act _)]
  exact unstage_keeps hP hJ h (fun r' h' => hQ _ r' h') fun e r' h' => hQ _ r' h'

theorem confirm_keeps (ha : Admitted m record s)
    (h : Runtime.Changed (record.runHash m) (record.operationHash m) (·.put record) s.runtime r) :
    (confirm (record.runHash m) (record.operationHash m) name record).Keeps (counted m P) good J
      (fun x c => ∃ r', c = ({ s with runtime := r' }, n) ∧ Appending m record s r' ∧
        ∀ reply, x = .ok reply → Answered m record s n reply c) ({ s with runtime := r }, n) := by
  unfold confirm
  refine Prog.Keeps.bind (keeps_onError (unstage_ends hP hJ (.after ha h) fun x r' h' => ?_))
  rcases x with e | _
  · refine unstage_ends hP hJ h' fun x r'' h'' e => ⟨r'', rfl, h'', ?_⟩
    rintro reply ⟨⟩
  · refine keeps_read hP.reads trivial (hJ _ h') (fun e => ⟨r', rfl, h', ?_⟩) fun env _ _ hp => ?_
    · rintro reply ⟨⟩
    obtain ⟨⟨dir, hdir, -, hrecord⟩, -⟩ := Act.perform_readBack.mp hp
    refine ⟨r', rfl, h', ?_⟩
    rintro reply ⟨⟩
    refine ⟨⟨r', rfl, h'⟩, fun _ => ?_, by rintro ⟨⟩⟩
    rw [State.chainFor, Runtime.chainAt_of_findOp hdir]
    exact hrecord

/-- Where a routine that writes the store may end. -/
def Ends (m : Machine) (record : ExecutionRecord) (s : State) (n : ℕ)
    (x : Except Exn AppendReply) (c : State × ℕ) : Prop :=
  ∃ r, c = ({ s with runtime := r }, n) ∧ Appending m record s r ∧
    ∀ reply, x = .ok reply → Answered m record s n reply c

theorem linkStaged_keeps (hread : authorize.Reads) (ha : Admitted m record s)
    (h : Runtime.Changed (record.runHash m) (record.operationHash m) id s.runtime r) :
    (linkStaged (record.runHash m) (record.operationHash m) name record authorize).Keeps
      (counted m P) good J (fun x c => ∃ r', c = ({ s with runtime := r' }, n) ∧
        Appending m record s r' ∧ (x = .ok true → Runtime.Changed (record.runHash m)
          (record.operationHash m) (·.put record) s.runtime r')) ({ s with runtime := r }, n) := by
  have hbefore : Appending m record s r := .before h
  unfold linkStaged
  refine keeps_read hP.reads trivial (hJ _ hbefore) (fun e => ⟨r, rfl, hbefore, ?_⟩)
    fun _ _ _ _ => ?_
  · rintro ⟨⟩
  refine keeps_reads hP.reads (reads_succeeds hread) (hJ _ hbefore) (fun b => ?_)
    fun e => ⟨r, rfl, hbefore, ?_⟩
  · cases b with
    | false =>
      refine ⟨r, rfl, hbefore, ?_⟩
      rintro ⟨⟩
    | true =>
      refine keeps_act (fun env => hP.stores env _ (.link ..) trivial) (hJ _ hbefore)
        (fun e => ⟨r, rfl, hbefore, ?_⟩) fun env _ s' _ hp => ?_
      · rintro ⟨⟩
      obtain ⟨⟨dir, hdir, -⟩, rfl⟩ := Act.perform_link.mp hp
      have hafter := h.link hdir record
      refine ⟨hJ _ (.after ha hafter), fun e => ⟨_, rfl, .after ha hafter, ?_⟩, ?_⟩
      · rintro ⟨⟩
      · exact ⟨_, rfl, .after ha hafter, fun _ => hafter⟩
  · rintro ⟨⟩

theorem publish_keeps (hread : authorize.Reads) (ha : Admitted m record s) :
    (publish m name record authorize).Keeps (counted m P) good J (Ends m record s n) (s, n) := by
  have failed : ∀ {r}, Appending m record s r → ∀ e,
      Ends m record s n (.error e) ({ s with runtime := r }, n) := fun h e => by
    refine ⟨_, rfl, h, ?_⟩
    rintro reply ⟨⟩
  have h₀ : Appending m record s s.runtime := .before (.refl _)
  have h₁ : Appending m record s s.runtime.makeExecution := .before Runtime.changed_makeExecution
  have h₂ : Appending m record s (s.runtime.makeExecution.makeRun (record.runHash m)) :=
    .before (Runtime.changed_makeExecution.trans Runtime.changed_makeRun)
  have h₃ : Appending m record s (s.runtime.room (record.runHash m) (record.operationHash m)) :=
    .before Runtime.changed_room
  have h₄ : Runtime.Changed (record.runHash m) (record.operationHash m) id s.runtime
      ((s.runtime.room (record.runHash m) (record.operationHash m)).stage (record.runHash m)
        (record.operationHash m) name) := Runtime.changed_room.stage name
  unfold publish
  refine keeps_act (fun env => hP.stores env _ .makeExecution trivial) (hJ _ h₀) (failed h₀) ?_
  rintro env _ _ - ⟨⟩
  refine ⟨hJ _ h₁, failed h₁, ?_⟩
  refine keeps_act (fun env => hP.stores env _ (.makeRun _) trivial) (hJ _ h₁) (failed h₁) ?_
  rintro env _ _ - ⟨⟩
  refine ⟨hJ _ h₂, failed h₂, ?_⟩
  refine keeps_act (fun env => hP.stores env _ (.makeOperation ..) trivial) (hJ _ h₂) (failed h₂) ?_
  rintro env _ _ - ⟨⟩
  refine ⟨hJ _ h₃, failed h₃, ?_⟩
  refine keeps_act (fun env => hP.stores env _ (.stage ..) trivial) (hJ _ h₃) (failed h₃) ?_
  intro env _ s' _ hp
  obtain ⟨-, rfl⟩ := Act.perform_stage.mp hp
  refine ⟨hJ _ (.before h₄), failed (.before h₄), ?_⟩
  refine keeps_read hP.reads trivial (hJ _ (.before h₄)) (failed (.before h₄)) fun _ _ _ _ => ?_
  refine Prog.Keeps.bind (keeps_onError ((linkStaged_keeps hP hJ hread ha h₄).mono
    (fun _ h => h) ?_))
  rintro (e | _ | _) t ⟨r', rfl, h', hlinked⟩
  · exact unstage_ends hP hJ h' fun x r'' h'' e => failed h'' e
  · refine unstage_keeps hP hJ h' (fun r'' h'' => ⟨r'', rfl, h'', ?_⟩) fun e r'' h'' => failed h'' e
    rintro reply ⟨⟩
    exact h''.answered (by simp)
  · refine Prog.Keeps.catching ((confirm_keeps hP hJ ha (hlinked rfl)).mono (fun _ h => h) ?_)
    rintro (e | reply) t ⟨r'', rfl, h'', hend⟩
    · refine ⟨r'', rfl, h'', ?_⟩
      rintro reply ⟨⟩
      exact h''.answered (by simp)
    · exact ⟨r'', rfl, h'', hend⟩

theorem appendChecked_keeps (hread : authorize.Reads) :
    (appendChecked m name record authorize).Keeps (counted m P) good J (Ends m record s n)
      (s, n) := by
  have h₀ : Appending m record s s.runtime := .before (.refl _)
  have hs : J (s, n) := hJ _ h₀
  have failed : ∀ e, Ends m record s n (.error e) (s, n) := fun e => by
    refine ⟨_, rfl, h₀, ?_⟩
    rintro reply ⟨⟩
  have declined : ∀ reply : AppendReply, ¬ (reply.status = .created ∨ reply.status = .existing) →
      Ends m record s n (.ok reply) (s, n) := fun reply hr => by
    refine ⟨_, rfl, h₀, ?_⟩
    rintro _ ⟨⟩
    exact h₀.answered hr
  unfold appendChecked
  refine keeps_read hP.reads trivial hs failed fun _ _ _ _ => ?_
  refine keeps_look hP.reads hs (keeps_require (fun hcensus => ?_) fun _ => failed _)
    (keeps_require (fun h => absurd rfl h) fun _ => failed _)
  refine keeps_look hP.reads hs ?_ (keeps_recordsOf (fun _ h => by cases h) failed)
  refine keeps_recordsOf (fun chain hfound => ?_) failed
  have hchain := chainFor_of_found rfl hfound
  split
  next existing hexisting =>
    split
    next he =>
      refine keeps_reads hP.reads (reads_acknowledgeExisting hread) hs (fun _ => ?_) failed
      refine ⟨_, rfl, h₀, ?_⟩
      rintro _ ⟨⟩
      have hstored : (s.chainFor m record).record record.phase = some record := by
        rw [hchain, hexisting, he]
      exact ⟨⟨_, rfl, h₀⟩, fun _ => hstored, fun _ => hstored⟩
    next => exact declined _ (by simp)
  next hfresh =>
    split
    · exact declined _ (by simp)
    next hopen =>
      refine keeps_look hP.reads hs ?_ (declined _ (by simp))
      split
      next intent hintent =>
        split
        · refine declined _ ?_
          split <;> simp
        next hvalid =>
          rw [not_not] at hvalid
          split
          · exact declined _ (by simp)
          · have ha : Admitted m record s := by
              refine ⟨hcensus, ?_, ?_, intent, hintent, ?_⟩
              · rw [hchain, hfresh]
              · rwa [hchain, ← Option.not_isSome_iff_eq_none]
              · rw [hchain, hvalid]
            split
            · exact keeps_reads hP.reads (reads_acknowledgeIntent hread) hs
                (fun _ => publish_keeps hP hJ hread ha) failed
            · exact publish_keeps hP hJ hread ha
      next => exact declined _ (by simp)

/-- Wherever it is cut off, an append has left the store as it was, or with its record besides,
and where it answers that the record is stored, it is. -/
theorem append_keeps (hread : authorize.Reads) :
    (append m record authorize).Keeps (counted m P) good J (Ends m record s n) (s, n) := by
  have h₀ : Appending m record s s.runtime := .before (.refl _)
  have hs : J (s, n) := hJ _ h₀
  have failed : ∀ e, Ends m record s n (.error e) (s, n) := fun e => by
    refine ⟨_, rfl, h₀, ?_⟩
    rintro reply ⟨⟩
  have declined : ∀ {r} (reply : AppendReply), Appending m record s r →
      ¬ (reply.status = .created ∨ reply.status = .existing) →
      Ends m record s n (.ok reply) ({ s with runtime := r }, n) := fun reply h hr => by
    refine ⟨_, rfl, h, ?_⟩
    rintro _ ⟨⟩
    exact h.answered hr
  unfold append
  split
  · exact declined _ h₀ (by simp)
  refine keeps_reads hP.reads (reads_succeeds (reads_act trivial)) hs (fun locked => ?_) failed
  split
  · exact declined _ h₀ (by simp)
  refine keeps_reads hP.reads (reads_succeeds hread) hs (fun live => ?_) failed
  split
  · exact declined _ h₀ (by simp)
  refine Prog.Keeps.catching ?_
  refine keeps_read hP.reads trivial hs (fun e => declined _ h₀ (by simp)) fun _ name _ _ => ?_
  refine (appendChecked_keeps hP hJ hread).mono (fun _ h => h) ?_
  rintro (e | reply) t ⟨r, rfl, h, hend⟩
  · exact declined _ h (by simp)
  · exact ⟨r, rfl, h, hend⟩

end Publish

end OrchKit.Bridge
