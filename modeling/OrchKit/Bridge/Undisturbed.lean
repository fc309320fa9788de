import OrchKit.Bridge.Pending

/-! # Appends that nothing disturbs

Where no operation fails and authority is live, a routine returns what it should. An append
of a record that continues its chain, in a store that can be read, links the record and
leaves nothing else.
-/

namespace OrchKit.Bridge

open Except Program Table Routine

/-- Under the choices in `good` the routine returns `v` and leaves `t`. -/
abbrev Returns {α : Type} (m : Machine) (good : Env → Prop) (p : Routine α) (v : α) (s t : State)
    (n : ℕ) : Prop :=
  p.MustEnd (counted m installs) good (fun x c => x = .ok v ∧ c = (t, n)) (s, n)

variable {m : Machine} {good : Env → Prop} {s t u : State} {n : ℕ} {α β : Type} {p : Routine α}
  {f : α → Routine β} {v : α} {Q : Except Exn β → State × ℕ → Prop}

namespace Returns

theorem bind (h : Returns m good p v s t n)
    (hf : (f v).MustEnd (counted m installs) good Q (t, n)) :
    (p >>= f).MustEnd (counted m installs) good Q (s, n) := by
  refine Prog.Keeps.bind (h.mono (fun _ h => h) ?_)
  rintro _ _ ⟨rfl, rfl⟩
  exact hf

theorem catching {g : Exn → Routine α} (h : Returns m good p v s t n) :
    Returns m good (p.catching g) v s t n := by
  refine Prog.Keeps.catching (h.mono (fun _ h => h) ?_)
  rintro _ _ ⟨rfl, rfl⟩
  exact ⟨rfl, rfl⟩

theorem onError {cleanup : Routine Unit} (h : Returns m good p v s t n) :
    Returns m good (onError p cleanup) v s t n := h.catching

theorem succeeds {p : Routine Unit} (h : Returns m good p () s t n) :
    Returns m good (succeeds p) true s t n :=
  Returns.catching (h.bind (f := fun _ => .ret true) ⟨rfl, rfl⟩)

end Returns

section Rules

variable (hg : ∀ env, good env → env.fault = none)
include hg

theorem returns_act {a : Act} {v : a.Value} (hP : ∀ env, installs env s (.act a) = false)
    (h : ∀ env, good env → a.perform m env s = .ok (v, t)) : Returns m good (act a) v s t n := by
  rw [Returns, ← Prog.bind_ret (act a)]
  exact keeps_act_undisturbed hP fun env he => ⟨hg env he, v, t, h env he, trivial, rfl, rfl⟩

theorem undisturbed_choice {a : Act} {f : a.Value → Routine β}
    (hP : ∀ env, installs env s (.act a) = false)
    (h : ∀ env, good env → ∃ v, a.perform m env s = .ok (v, s) ∧
      (f v).MustEnd (counted m installs) good Q (s, n)) :
    (act a >>= f).MustEnd (counted m installs) good Q (s, n) := by
  refine keeps_act_undisturbed hP fun env he => ?_
  obtain ⟨v, hp, hf⟩ := h env he
  exact ⟨hg env he, v, s, hp, trivial, hf⟩

theorem undisturbed_look {l : Look} {f : l.Value → Routine β} {w : l.Value} (hw : l.see m s = w)
    (h : (f w).MustEnd (counted m installs) good Q (s, n)) :
    (look l >>= f).MustEnd (counted m installs) good Q (s, n) := by
  subst hw
  intro env he
  have hvalue : ((counted m installs).answer env (s, n) (.look l)).1 = l.see m s := by
    change (if env.fault.isSome then l.disturbed else l.see m s) = _
    rw [hg env he]
    rfl
  rw [hvalue]
  exact ⟨trivial, h⟩

omit hg in
theorem undisturbed_require {q : Prop} [Decidable q] {e : Exn} {f : Unit → Routine β} (hq : q)
    (h : (f ()).MustEnd (counted m installs) good Q (s, n)) :
    (Routine.require q e >>= f).MustEnd (counted m installs) good Q (s, n) := by
  rw [Routine.require, if_pos hq]
  exact h

end Rules

/-! ### Appends -/

variable {record : ExecutionRecord} {authorize : Routine Unit} {name : TempName} {dir : OpDir}

def State.withRecord (s : State) (m : Machine) (record : ExecutionRecord) : State :=
  { s with runtime := s.runtime.link (record.runHash m) (record.operationHash m) record }

theorem link_unstage {r : Runtime} {rh oh : Digest} (hdir : r.findOp rh oh = some dir)
    (ht : dir.temps = []) :
    ((r.stage rh oh name).link rh oh record).unstage rh oh name = r.link rh oh record := by
  rw [Runtime.stage, Runtime.link, Runtime.unstage, Runtime.updateOp_updateOp,
    Runtime.updateOp_updateOp, Runtime.link]
  refine Runtime.updateOp_congr fun dir' hdir' => ?_
  cases hdir.symm.trans hdir'
  simp [ht]

theorem isHashable_of_patchRequest {request : WorkerOperationRequest} (h : patchRequest request) :
    isHashable request.binding.runId ∧ isHashable request.operationId := by
  simp only [patchRequest, WorkerOperationRequest.valid, WorkerRunBinding.valid,
    Bool.and_eq_true] at h
  exact ⟨h.1.1.1.1.1.1.1.2, h.1.1.1.1.2⟩

section Append

variable (hg : ∀ env, good env → env.fault = none)
  (hauth : ∀ r, Returns m good authorize () { s with runtime := r } { s with runtime := r } n)
  (hdir : s.runtime.findOp (record.runHash m) (record.operationHash m) = some dir)
  (ht : dir.temps = []) (ha : Admitted m record s)
include hg hauth hdir ht ha

theorem returns_publish :
    Returns m good (publish m name record authorize) { status := .created } s
      (s.withRecord m record) n := by
  obtain ⟨staged, hstaged⟩ : ∃ r, r = s.runtime.stage (record.runHash m) (record.operationHash m)
    name := ⟨_, rfl⟩
  obtain ⟨linked, hlinked⟩ : ∃ r, r = staged.link (record.runHash m) (record.operationHash m)
    record := ⟨_, rfl⟩
  have hfindStaged : staged.findOp (record.runHash m) (record.operationHash m) =
      some ⟨dir.chain, [name]⟩ := by
    rw [hstaged, Runtime.stage, Runtime.findOp_updateOp_self, hdir, Option.map_some, ht]
    rfl
  have hfindLinked : linked.findOp (record.runHash m) (record.operationHash m) =
      some ⟨dir.chain.put record, [name]⟩ := by
    rw [hlinked, Runtime.link, Runtime.findOp_updateOp_self, hfindStaged]
    rfl
  have hunstaged : linked.unstage (record.runHash m) (record.operationHash m) name =
      s.runtime.link (record.runHash m) (record.operationHash m) record := by
    rw [hlinked, hstaged, link_unstage hdir ht]
  have hchain : s.chainFor m record = dir.chain := Runtime.chainAt_of_findOp hdir
  have hlink : Returns m good (linkStaged (record.runHash m) (record.operationHash m) name record
      authorize) true { s with runtime := staged } { s with runtime := linked } n := by
    unfold linkStaged
    refine (returns_act hg (v := ()) (fun _ => rfl) fun env _ => rfl).bind ?_
    refine (Returns.succeeds (hauth _)).bind ?_
    rw [hlinked]
    refine (returns_act hg (v := ()) (fun _ => rfl) fun env _ =>
      Act.perform_link.mpr ⟨⟨_, hfindStaged, List.mem_singleton_self _, ?_⟩, rfl⟩).bind ⟨rfl, rfl⟩
    rw [← hchain, ha.fresh]
  have hconfirm : Returns m good (confirm (record.runHash m) (record.operationHash m) name record)
      { status := .created } { s with runtime := linked } (s.withRecord m record) n := by
    unfold confirm
    rw [State.withRecord, ← hunstaged]
    refine (Returns.onError (returns_act hg (v := ()) (fun _ => rfl) fun env _ =>
      Act.perform_unstage.mpr ⟨⟨_, hfindLinked, List.mem_singleton_self _⟩, rfl⟩)).bind ?_
    refine (returns_act hg (v := ()) (fun _ => rfl) fun env _ =>
      Act.perform_readBack.mpr ⟨⟨⟨dir.chain.put record, []⟩, ?_, ?_, Chain.record_put _ _⟩,
        rfl⟩).bind ⟨rfl, rfl⟩
    · simp only [Runtime.unstage, Runtime.findOp_updateOp_self, hfindLinked, Option.map_some,
        List.erase_cons_head]
    · rw [← hchain]
      refine Runtime.KeepsIntents.readOperation ?_ (readOperation_of_admitted ha)
      refine Runtime.keepsIntents_of_journal ?_
      rw [hlinked, hstaged]
      rfl
  unfold publish
  refine (returns_act hg (t := s) (v := ()) (fun _ => rfl) fun env _ => ?_).bind ?_
  · simp only [Act.perform, Runtime.makeExecution_eq_self hdir]
    rfl
  refine (returns_act hg (t := s) (v := ()) (fun _ => rfl) fun env _ => ?_).bind ?_
  · simp only [Act.perform]
    rw [Runtime.makeRun_eq_self hdir]
    rfl
  refine (returns_act hg (t := s) (v := ()) (fun _ => rfl) fun env _ => ?_).bind ?_
  · simp only [Act.perform]
    rw [Runtime.makeOperation_eq_self hdir]
    rfl
  refine (returns_act hg (t := { s with runtime := staged }) (v := ()) (fun _ => rfl) fun env _ =>
    Act.perform_stage.mpr ⟨⟨dir, hdir, by simp [ht]⟩, by rw [hstaged]⟩).bind ?_
  refine (returns_act hg (v := ()) (fun _ => rfl) fun env _ => rfl).bind ?_
  refine (Returns.onError hlink).bind ?_
  exact Returns.catching hconfirm

/-- What has been admitted is linked, and nothing else is left. -/
theorem returns_append (hvalid : record.valid m.uid.toNat) (hphase : record.phase ≠ .dispatch) :
    Returns m good (append m record authorize) { status := .created } s (s.withRecord m record)
      n := by
  have hchain : s.chainFor m record = dir.chain := Runtime.chainAt_of_findOp hdir
  obtain ⟨hread, d, hd⟩ := Runtime.readOperation_of_census ha.census hdir
  have hinspect : Look.see m s (.inspect record.base.request.binding.runId
      record.base.request.operationId) = .recorded dir.chain := by
    refine Runtime.inspect_eq_recorded_iff.mpr
      ⟨isHashable_of_patchRequest ?_, dir, hdir, rfl, hread⟩
    simp only [ExecutionRecord.valid, Bool.and_eq_true] at hvalid
    exact hvalid.1.1.1
  have hfresh : dir.chain.record record.phase = none := by rw [← hchain, ha.fresh]
  have hopen : dir.chain.result = none := by rw [← hchain, ha.open_]
  have hne : dir.chain ≠ {} := by
    intro he
    rw [he] at hd
    cases hd
  obtain ⟨intent, hintent, hvalid'⟩ := ha.valid
  unfold append
  rw [if_neg (not_not.mpr hvalid)]
  refine (Returns.succeeds (returns_act hg (a := .checkLock) (v := ()) (fun _ => rfl)
    fun env _ => rfl)).bind ?_
  rw [if_neg (not_not.mpr rfl)]
  refine (Returns.succeeds (hauth s.runtime)).bind ?_
  rw [if_neg (not_not.mpr rfl)]
  refine Returns.catching ?_
  refine undisturbed_choice hg (fun _ => rfl) fun env _ => ⟨env.name, rfl, ?_⟩
  unfold appendChecked
  refine (returns_act hg (v := ()) (fun _ => rfl) fun env _ => rfl).bind ?_
  refine undisturbed_look hg rfl (undisturbed_require ha.census ?_)
  refine undisturbed_look hg hinspect ?_
  simp only [recordsOf, Prog.ret_bind, hfresh, hopen, Option.isSome_none,
    Bool.false_eq_true, if_false]
  refine undisturbed_look hg hintent ?_
  rw [hchain] at hvalid'
  simp only [hvalid', hne, not_true_eq_false, false_and, if_false]
  have hpublish : Returns m good (publish m env.name record authorize) { status := .created } s
      (s.withRecord m record) n := returns_publish hg hauth hdir ht ha
  cases record with
  | dispatch d => exact absurd rfl hphase
  | publication p => exact hpublish
  | result r => exact hpublish

end Append

end OrchKit.Bridge
