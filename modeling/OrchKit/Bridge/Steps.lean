import OrchKit.Bridge.Evidence
import OrchKit.Program.Outcome

/-! # Steps of the bridge

What the operations of the bridge leave alone: observations and checks leave the state as
it is, the execution store is changed without the ledger or the workspace, and the workspace
without either. The rules say what a routine keeps that begins with one operation.
-/

namespace OrchKit.Bridge

open Except Program Table

variable {m : Machine} {env : Env} {s s' : State} {a : Act}

namespace Act

attribute [local simp] perform

/-- The operation observes or checks, and changes nothing. -/
def reads : Act → Prop
  | authorize _ | checkLock | now | randomName | bindingOf _ | evidence .. | openStaged
  | writeStaged | readBack .. | journalReady | journalInventory | intentEvidence ..
  | lockJournal | readIntent .. | liveScope _ | openTarget _ | checkTarget .. | readFile _
  | capture _ | entry _ | sync _ => True
  | _ => False

theorem perform_of_reads (ha : a.reads) {v : a.Value} (h : perform m env s a = .ok (v, s')) :
    s' = s := by
  cases a with
  | checkLock | now | randomName | openStaged | writeStaged | lockJournal | entry | sync =>
    cases h
    rfl
  | readIntent runId operationId =>
    simp only [perform] at h
    generalize s.runtime.inspectIntent m.digests runId operationId = found at h
    cases found <;> cases h
    rfl
  | authorize | bindingOf | evidence | readBack | journalReady | journalInventory
  | intentEvidence | liveScope | openTarget | checkTarget | readFile | capture =>
    simp only [perform, bind_eq_ok_iff, pure_eq_ok_iff, Prod.mk.injEq] at h
    grind
  | _ => cases ha

theorem require_return_eq_ok_iff {p : Prop} [Decidable p] {e : Exn} {v : Unit} {t : State} :
    (do require p e; return ((), t) : Checked (Unit × State)) = .ok (v, s') ↔ p ∧ s' = t := by
  rw [bind_eq_ok_iff]
  constructor
  · rintro ⟨_, hp, ht⟩
    cases ht
    exact ⟨require_eq_ok_iff.mp hp, rfl⟩
  · rintro ⟨hp, rfl⟩
    exact ⟨(), require_of hp, rfl⟩

theorem perform_stage {rh oh : Digest} {name : TempName} {v : Unit} :
    perform m env s (.stage rh oh name) = .ok (v, s') ↔
      (∃ dir, s.runtime.findOp rh oh = some dir ∧ name ∉ dir.temps) ∧
        s' = { s with runtime := s.runtime.stage rh oh name } := by
  refine require_return_eq_ok_iff.trans ?_
  simp only [Option.any_eq_true, decide_eq_true_eq]

theorem perform_link {rh oh : Digest} {name : TempName} {record : ExecutionRecord} {v : Unit} :
    perform m env s (.link rh oh name record) = .ok (v, s') ↔
      (∃ dir, s.runtime.findOp rh oh = some dir ∧ name ∈ dir.temps ∧
        dir.chain.record record.phase = none) ∧
        s' = { s with runtime := s.runtime.link rh oh record } := by
  refine require_return_eq_ok_iff.trans ?_
  simp only [Option.any_eq_true, decide_eq_true_eq]

theorem perform_unstage {rh oh : Digest} {name : TempName} {v : Unit} :
    perform m env s (.unstage rh oh name) = .ok (v, s') ↔
      (∃ dir, s.runtime.findOp rh oh = some dir ∧ name ∈ dir.temps) ∧
        s' = { s with runtime := s.runtime.unstage rh oh name } := by
  refine require_return_eq_ok_iff.trans ?_
  simp only [Option.any_eq_true, decide_eq_true_eq]

theorem perform_readBack {rh oh : Digest} {record : ExecutionRecord} {v : Unit} :
    perform m env s (.readBack rh oh record) = .ok (v, s') ↔
      (∃ dir, s.runtime.findOp rh oh = some dir ∧
        s.runtime.readOperation m.digests m.uid.toNat rh oh dir = some dir.chain ∧
        dir.chain.record record.phase = some record) ∧ s' = s := by
  refine require_return_eq_ok_iff.trans (and_congr_left fun _ => ?_)
  simp only [Option.any_eq_true, decide_eq_true_eq]
  refine exists_congr fun dir => and_congr_right fun _ => ?_
  constructor
  · rintro ⟨chain, hc, hr⟩
    obtain ⟨rfl, -⟩ := Runtime.readOperation_eq_some_iff.mp hc
    exact ⟨hc, hr⟩
  · rintro ⟨hc, hr⟩
    exact ⟨_, hc, hr⟩

theorem perform_capture {path : String} {v : Content × Bytes × Metadata} :
    perform m env s (.capture path) = .ok (v, s') ↔ (∃ file, s.files.lookup path = some file ∧
      file.capturable m.uid.toNat ∧ v = (file.content m.digests, file.data, file.metadata)) ∧
        s' = s := by
  simp only [perform, bind_eq_ok_iff, pure_eq_ok_iff, ofOption_eq_ok_iff, require_eq_ok_iff,
    Prod.mk.injEq]
  constructor
  · rintro ⟨file, hf, _, hc, rfl, rfl⟩
    exact ⟨⟨file, hf, hc, rfl⟩, rfl⟩
  · rintro ⟨⟨file, hf, hc, rfl⟩, rfl⟩
    exact ⟨file, hf, (), hc, rfl, rfl⟩

theorem perform_entry {path : String} {v : Option FileSignature} :
    perform m env s (.entry path) = .ok (v, s') ↔
      v = (s.files.lookup path).map Inode.signature ∧ s' = s := by
  simp only [perform, pure_eq_ok_iff, Prod.mk.injEq]
  exact and_congr eq_comm eq_comm

theorem perform_openTarget {target : String} {v : Handle} :
    perform m env s (.openTarget target) = .ok (v, s') ↔
      (∃ file, s.files.lookup target = some file ∧ file.capturable m.uid.toNat ∧
        v = ⟨s.anchors target, file.signature, file.metadata⟩) ∧ s' = s := by
  simp only [perform, bind_eq_ok_iff, pure_eq_ok_iff, ofOption_eq_ok_iff, require_eq_ok_iff,
    Prod.mk.injEq]
  constructor
  · rintro ⟨file, hf, _, hc, rfl, rfl⟩
    exact ⟨⟨file, hf, hc, rfl⟩, rfl⟩
  · rintro ⟨⟨file, hf, hc, rfl⟩, rfl⟩
    exact ⟨file, hf, (), hc, rfl, rfl⟩

theorem perform_createFile {path : String} {v : FileSignature}
    (h : perform m env s (.createFile path) = .ok (v, s')) : s.files.lookup path = none ∧
      ∃ file : Inode, v = file.signature ∧ s' = { s with files := s.files.put path file } := by
  simp only [perform, bind_eq_ok_iff, pure_eq_ok_iff, require_eq_ok_iff, Prod.mk.injEq] at h
  obtain ⟨_, ⟨hn, -⟩, rfl, rfl⟩ := h
  exact ⟨hn, _, rfl, rfl⟩

theorem perform_write {path : String} {bytes : Bytes} {v : ℕ}
    (h : perform m env s (.write path bytes) = .ok (v, s')) :
    ∃ file, s' = { s with files := s.files.put path file } := by
  simp only [perform, bind_eq_ok_iff, pure_eq_ok_iff, ofOption_eq_ok_iff, Prod.mk.injEq] at h
  obtain ⟨_, -, _, -, -, rfl⟩ := h
  exact ⟨_, rfl⟩

theorem perform_copyMetadata {path : String} {metadata : Metadata} {v : Unit}
    (h : perform m env s (.copyMetadata metadata path) = .ok (v, s')) :
    ∃ file, s' = { s with files := s.files.put path file } := by
  simp only [perform, bind_eq_ok_iff, pure_eq_ok_iff, ofOption_eq_ok_iff, Prod.mk.injEq] at h
  obtain ⟨_, -, _, -, _, -, -, rfl⟩ := h
  exact ⟨_, rfl⟩

theorem perform_rename {temp target : String} {v : Unit} :
    perform m env s (.rename temp target) = .ok (v, s') ↔ ∃ file, s.files.lookup temp = some file ∧
      s' = { s with files :=
        (s.files.delete temp).put target { file with ctimeNs := env.stamp } } := by
  simp only [perform, bind_eq_ok_iff, pure_eq_ok_iff, ofOption_eq_ok_iff, Prod.mk.injEq, true_and]
  exact exists_congr fun _ => and_congr_right fun _ => eq_comm

theorem perform_unlink {path : String} {v : Unit} :
    perform m env s (.unlink path) = .ok (v, s') ↔ (s.files.lookup path).isSome ∧
      s' = { s with files := s.files.delete path } :=
  require_return_eq_ok_iff

theorem answer_cases (m : Machine) (env : Env) (s : State) (a : Act) :
    (∃ e, a.answer m env s = (.error e, s)) ∨ ∃ v s', perform m env s a = .ok (v, s') ∧
      (a.answer m env s = (.ok v, s') ∨ ∃ e, a.answer m env s = (.error e, s')) := by
  rcases hp : perform m env s a with e | ⟨v, s'⟩
  · exact .inl ⟨e, by simp only [answer, hp]⟩
  · rcases hf : env.fault with _ | _ | _
    · exact .inr ⟨v, s', rfl, .inl (by simp only [answer, hp, hf])⟩
    · exact .inl ⟨ioError, by simp only [answer, hp, hf]⟩
    · exact .inr ⟨v, s', rfl, .inr ⟨ioError, by simp only [answer, hp, hf]⟩⟩

theorem answer_of_fault_none (hf : env.fault = none) {v : a.Value}
    (h : perform m env s a = .ok (v, s')) : a.answer m env s = (.ok v, s') := by
  simp only [answer, h, hf]

end Act

/-- The operation observes or checks, and changes nothing. -/
def Op.reads : Op → Prop
  | .ledger _ => False
  | .look _ => True
  | .act a => a.reads

theorem after_of_reads {o : Op} (ho : o.reads) : (bridgeSemantics m).after env s o = s := by
  cases o with
  | ledger o => cases ho
  | look l => rfl
  | act a =>
    rcases a.answer_cases m env s with ⟨e, h⟩ | ⟨v, s', hp, h | ⟨e, h⟩⟩ <;>
      simp only [Semantics.after, bridgeSemantics, h]
    all_goals exact Act.perform_of_reads ho hp

namespace Routine

section Rules

variable {α β : Type} {P : Env → State → Op → Bool} {good : Env → Prop} {J : State × ℕ → Prop}
  {Q : Except Exn β → State × ℕ → Prop} {n : ℕ}

/-- The routine observes and checks, and changes nothing. -/
abbrev Reads (p : Routine α) : Prop := p.Issues Op.reads

def Quiet (P : Env → State → Op → Bool) : Prop := ∀ env s o, o.reads → P env s o = false

variable (m P) in
/-- The bridge, beside a count of the operations that satisfy `P`. -/
abbrev counted : Semantics bridgeSig (State × ℕ) Env := (bridgeSemantics m).counting P

theorem counted_answer {x : Checked a.Value × State} (h : a.answer m env s = x) :
    ((counted m P).answer env (s, n) (.act a)).1 = x.1 := by
  rw [← h]
  rfl

theorem counted_after {x : Checked a.Value × State} (h : a.answer m env s = x) :
    (counted m P).after env (s, n) (.act a) = (x.2, n + if P env s (.act a) then 1 else 0) := by
  rw [← h]
  rfl

theorem keeps_counted {f : a.Value → Routine β} (h : ∀ env, good env → ∀ k,
    k = n + (if P env s (.act a) then 1 else 0) → (∀ e, J (s, k) ∧ Q (.error e) (s, k)) ∧
      ∀ v s', a.perform m env s = .ok (v, s') → (∀ e, J (s', k) ∧ Q (.error e) (s', k)) ∧
        (f v).Keeps (counted m P) good J Q (s', k)) :
    (act a >>= f).Keeps (counted m P) good J Q (s, n) := by
  intro env hg
  obtain ⟨hfail, hdone⟩ := h env hg _ rfl
  rcases a.answer_cases m env s with ⟨e, he⟩ | ⟨v, s', hp, he⟩
  · rw [counted_after he, counted_answer he]
    exact hfail e
  · obtain ⟨herr, hk⟩ := hdone v s' hp
    rcases he with he | ⟨e, he⟩ <;> rw [counted_after he, counted_answer he]
    · exact ⟨(herr ioError).1, hk⟩
    · exact herr e

theorem keeps_act {f : a.Value → Routine β} (hP : ∀ env, P env s (.act a) = false) (hs : J (s, n))
    (hfail : ∀ e, Q (.error e) (s, n))
    (hdone : ∀ env v s', good env → a.perform m env s = .ok (v, s') →
      J (s', n) ∧ (∀ e, Q (.error e) (s', n)) ∧ (f v).Keeps (counted m P) good J Q (s', n)) :
    (act a >>= f).Keeps (counted m P) good J Q (s, n) := by
  refine keeps_counted fun env hg k hk => ?_
  rw [hP, if_neg Bool.false_ne_true, Nat.add_zero] at hk
  subst hk
  refine ⟨fun e => ⟨hs, hfail e⟩, fun v s' hp => ?_⟩
  obtain ⟨hj, herr, hnext⟩ := hdone env v s' hg hp
  exact ⟨fun e => ⟨hj, herr e⟩, hnext⟩

theorem keeps_read {f : a.Value → Routine β} (hP : Quiet P) (ha : a.reads) (hs : J (s, n))
    (hfail : ∀ e, Q (.error e) (s, n))
    (hdone : ∀ env v, good env → a.perform m env s = .ok (v, s) →
      (f v).Keeps (counted m P) good J Q (s, n)) :
    (act a >>= f).Keeps (counted m P) good J Q (s, n) := by
  refine keeps_act (fun env => hP env s _ ha) hs hfail fun env v s' hg hp => ?_
  cases Act.perform_of_reads ha hp
  exact ⟨hs, hfail, hdone env v hg hp⟩

theorem keeps_act_undisturbed {f : a.Value → Routine β} (hP : ∀ env, P env s (.act a) = false)
    (h : ∀ env, good env → env.fault = none ∧ ∃ v s', a.perform m env s = .ok (v, s') ∧
      J (s', n) ∧ (f v).Keeps (counted m P) good J Q (s', n)) :
    (act a >>= f).Keeps (counted m P) good J Q (s, n) := by
  intro env hg
  obtain ⟨hf, v, s', hp, hj, hk⟩ := h env hg
  have he := Act.answer_of_fault_none hf hp
  rw [counted_after he, counted_answer he, hP]
  exact ⟨hj, hk⟩

theorem keeps_require {p : Prop} [Decidable p] {e : Exn} {f : Unit → Routine β}
    (hok : p → (f ()).Keeps (counted m P) good J Q (s, n))
    (herr : ¬ p → Q (.error e) (s, n)) :
    (Routine.require p e >>= f).Keeps (counted m P) good J Q (s, n) := by
  by_cases h : p
  · rw [Routine.require, if_pos h]
    exact hok h
  · rw [Routine.require, if_neg h]
    exact herr h

theorem keeps_look {l : Look} {f : l.Value → Routine β} (hP : Quiet P) (hs : J (s, n))
    (hsee : (f (l.see m s)).Keeps (counted m P) good J Q (s, n))
    (hdisturbed : (f l.disturbed).Keeps (counted m P) good J Q (s, n)) :
    (look l >>= f).Keeps (counted m P) good J Q (s, n) := by
  intro env hg
  have hafter : (counted m P).after env (s, n) (.look l) = (s, n) := by
    rw [counting_after, hP env s (.look l) trivial]
    rfl
  have hvalue : ((counted m P).answer env (s, n) (.look l)).1 =
      if env.fault.isSome then l.disturbed else l.see m s := rfl
  rw [hafter, hvalue]
  refine ⟨hs, ?_⟩
  by_cases h : env.fault.isSome
  · rwa [if_pos h]
  · rwa [if_neg h]

theorem keeps_onError {p : Routine α} {cleanup : Routine Unit} {c : State × ℕ}
    {Q : Except Exn α → State × ℕ → Prop}
    (h : p.Keeps (counted m P) good J (fun x t => match x with
      | .ok a => Q (.ok a) t
      | .error _ => cleanup.Keeps (counted m P) good J (fun _ u => ∀ e, Q (.error e) u) t) c) :
    (onError p cleanup).Keeps (counted m P) good J Q c := by
  refine Prog.Keeps.catching (h.mono (fun _ h => h) ?_)
  rintro (e | a) t ht
  · refine Prog.Keeps.bind (Prog.Keeps.mono ht (fun _ h => h) ?_)
    rintro (e' | _) u hu
    · exact hu e'
    · exact hu e
  · exact ht

theorem keeps_reads {p : Routine α} {f : α → Routine β} (hP : Quiet P) (hp : p.Reads)
    (hs : J (s, n)) (hok : ∀ v, (f v).Keeps (counted m P) good J Q (s, n))
    (herr : ∀ e, Q (.error e) (s, n)) : (p >>= f).Keeps (counted m P) good J Q (s, n) := by
  refine Prog.Keeps.bind_of_within (fun o i ho => ?_) hp hs (fun v _ => hok v) fun e _ => herr e
  rw [counting_after, hP i s o ho, after_of_reads ho]
  rfl

end Rules

theorem reads_ofChecked {α : Type} (x : Checked α) : (ofChecked x).Reads := by
  cases x <;> trivial

theorem reads_act (ha : a.reads) : (act a).Reads := ⟨ha, reads_ofChecked⟩

theorem reads_look (l : Look) : (look l).Reads := ⟨trivial, fun _ => trivial⟩

theorem reads_require {p : Prop} [Decidable p] (e : Exn) : (Routine.require p e).Reads := by
  by_cases h : p
  · rw [Routine.require, if_pos h]
    trivial
  · rw [Routine.require, if_neg h]
    trivial

theorem reads_recordsOf (found : Found Chain) : (recordsOf found).Reads := by
  cases found <;> trivial

theorem reads_acknowledgeExisting {runId : RunId} {operationId : String} {expected : Chain}
    {request : Option WorkerOperationRequest} {binding : Option WorkerRunBinding}
    {authorize : Routine Unit} (hread : authorize.Reads) :
    (acknowledgeExisting runId operationId expected authorize request binding).Reads :=
  Prog.Issues.bind hread fun _ => Prog.Issues.bind (reads_act trivial) fun _ =>
    Prog.Issues.bind hread fun _ => trivial

theorem reads_acknowledgeIntent {intent : IntentRecord} {dispatch : DispatchRecord}
    {authorize : Routine Unit} (hread : authorize.Reads) :
    (acknowledgeIntent intent dispatch authorize).Reads :=
  Prog.Issues.bind hread fun _ => Prog.Issues.bind (reads_act trivial) fun _ => hread

theorem reads_succeeds {p : Routine Unit} (hp : p.Reads) : (succeeds p).Reads :=
  Prog.Issues.catching (Prog.Issues.bind hp fun _ => trivial) fun _ => trivial

end Routine

end OrchKit.Bridge
