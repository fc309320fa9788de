import OrchKit.Bridge.Appended
import OrchKit.Bridge.Refusal

/-! # The discipline of the execution store

Appends follow one another under the lock of the runtime directory, whatever they are given
and wherever they are cut off. The records of an operation then always continue one another
from the dispatch to the result, under the intent they were dispatched for, and what has
been stored stays.
-/

namespace OrchKit.Bridge

open Program Routine

/-- The place of a phase in the declared order. -/
def Phase.rank : Phase → ℕ
  | dispatch => 0
  | publication => 1
  | result => 2

/-- The arguments of `append`; `authorize` may end in any way, and checks only. -/
structure AppendCall where
  record : ExecutionRecord
  authorize : Routine Unit
  reads : authorize.Reads

def AppendCall.prog (m : Machine) (call : AppendCall) : Routine AppendReply :=
  append m call.record call.authorize

abbrev AppendCall.exec (m : Machine) (call : AppendCall) (envs : List Env) (s : State) :
    Routine AppendReply × State :=
  (call.prog m).exec (bridgeSemantics m) envs s

/-- What is done besides: the execution store is left alone, and intents stay recorded. -/
structure Beside (m : Machine) (s t : State) : Prop where
  execution : t.runtime.execution = s.runtime.execution
  intents : s.runtime.KeepsIntents m.digests t.runtime

/-- The states that appends reach, each of them cut off anywhere. -/
inductive Appends (m : Machine) (s : State) : State → Prop
  | start : Appends m s s
  | call {t : State} (h : Appends m s t) (call : AppendCall) (envs : List Env) :
    Appends m s (call.exec m envs t).2
  /-- the record that a call had linked when it was cut off was never synced, and is lost -/
  | lost {t : State} (h : Appends m s t) (call : AppendCall) (envs : List Env)
    (hcut : (call.exec m envs t).1.returned? = none) (r : Runtime)
    (hr : Runtime.Changed (call.record.runHash m) (call.record.operationHash m) id t.runtime r) :
    Appends m s { (call.exec m envs t).2 with runtime := r }
  | others {t u : State} (h : Appends m s t) (hb : Beside m t u) : Appends m s u

/-- The records that are stored of an operation are valid under its intent. -/
def Runtime.Disciplined (m : Machine) (r : Runtime) : Prop :=
  ∀ rh oh, r.chainAt rh oh = {} ∨ ∃ runId operationId intent,
    m.digests.id runId = rh ∧ m.digests.id operationId = oh ∧
    r.inspectIntent m.digests runId operationId = .recorded intent ∧
    (r.chainAt rh oh).valid m.digests m.uid.toNat intent = true

/-- The records of an operation with those that were added since: in the order of the phases. -/
structure Chain.Continues (c d : Chain) : Prop where
  kept : ∀ phase record, c.record phase = some record → d.record phase = some record
  ordered : ∀ phase phase', c.record phase ≠ none → c.record phase' = none →
    d.record phase' ≠ none → phase.rank < phase'.rank

variable {m : Machine} {s t u : State} {record : ExecutionRecord} {c d e : Chain} {r r' : Runtime}
  {rh oh : Digest}

namespace Chain

theorem Continues.refl (c : Chain) : c.Continues c where
  kept _ _ h := h
  ordered _ _ _ hnone hsome := absurd hnone hsome

theorem Continues.trans (h : c.Continues d) (h' : d.Continues e) : c.Continues e := by
  constructor
  · intro phase record hc
    exact h'.kept phase record (h.kept phase record hc)
  · intro phase phase' hc hnone hsome
    by_cases hd : d.record phase' = none
    · obtain ⟨record, hrecord⟩ := Option.ne_none_iff_exists'.mp hc
      apply h'.ordered phase phase' _ hd hsome
      rw [h.kept phase record hrecord]
      simp
    · exact h.ordered phase phase' hc hnone hd

/-- Nothing is appended after a result. -/
theorem Continues.eq_of_result (h : c.Continues d) (hc : c.result.isSome) : d = c := by
  have heq : ∀ phase, d.record phase = c.record phase := by
    intro phase
    rcases hp : c.record phase with _ | record
    · by_contra hd
      have hresult : c.record .result ≠ none := by
        simpa [Chain.record, Option.isSome_iff_ne_none] using hc
      have hrank := h.ordered .result phase hresult hp hd
      cases phase <;> simp [Phase.rank] at hrank
    · exact h.kept phase record hp
  have hdispatch := heq .dispatch
  have hpublication := heq .publication
  have hresult := heq .result
  simp only [Chain.record] at hdispatch hpublication hresult
  cases c
  cases d
  simp_all [Option.map_inj_right]

theorem dispatch_of_valid {digests : Digests} {uid : ℕ} {intent : IntentRecord}
    (h : c.valid digests uid intent = true) : c.dispatch ≠ none := by
  intro hn
  simp [Chain.valid, hn] at h

theorem record_put_of_ne {phase : Phase} (h : phase ≠ record.phase) :
    (c.put record).record phase = c.record phase := by
  cases record <;> cases phase <;> first | rfl | exact absurd rfl h

/-- A record that is appended to an open chain comes after those before it. -/
theorem continues_put (hfresh : c.record record.phase = none) (hopen : c.result = none)
    (hc : c = {} ∨ c.dispatch ≠ none) : c.Continues (c.put record) := by
  constructor
  · intro phase stored hstored
    rwa [record_put_of_ne]
    rintro rfl
    rw [hfresh] at hstored
    cases hstored
  · intro phase phase' hstored hnone hsome
    obtain rfl : phase' = record.phase := by
      by_contra hne
      rw [record_put_of_ne hne] at hsome
      exact hsome hnone
    have hne : phase ≠ record.phase := by
      rintro rfl
      exact hstored hfresh
    rcases hc with rfl | hc
    · cases phase <;> simp [Chain.record] at hstored
    · cases phase <;> cases record <;>
        simp_all [Chain.record, ExecutionRecord.phase, Phase.rank]

end Chain

/-- The store under one operation, as it was or with records that continue the earlier ones. -/
def Runtime.Continues (r r' : Runtime) : Prop :=
  ∀ rh oh, (r.chainAt rh oh).Continues (r'.chainAt rh oh)

namespace Runtime

theorem Changed.chainAt_of_ne {f : Chain → Chain} (h : Changed rh oh f r r') {rh' oh' : Digest}
    (hne : ¬ (rh' = rh ∧ oh' = oh)) : r'.chainAt rh' oh' = r.chainAt rh' oh' := by
  rw [chainAt, h.others rh' oh' hne, chainAt]

theorem Changed.chainAt_eq (h : Changed rh oh id r r') (rh' oh' : Digest) :
    r'.chainAt rh' oh' = r.chainAt rh' oh' := by
  by_cases hat : rh' = rh ∧ oh' = oh
  · obtain ⟨rfl, rfl⟩ := hat
    exact h.chain
  · exact h.chainAt_of_ne hat

theorem Disciplined.of_chainAt (h : r.Disciplined m) (hk : r.KeepsIntents m.digests r')
    (hc : ∀ rh oh, r'.chainAt rh oh = r.chainAt rh oh) : r'.Disciplined m := by
  intro rh oh
  rw [hc]
  rcases h rh oh with hnone | ⟨runId, operationId, intent, hrh, hoh, hi, hv⟩
  · exact .inl hnone
  · exact .inr ⟨runId, operationId, intent, hrh, hoh, hk _ _ _ hi, hv⟩

theorem continues_of_chainAt (hc : ∀ rh oh, r'.chainAt rh oh = r.chainAt rh oh) :
    r.Continues r' := by
  intro rh oh
  rw [hc]
  exact .refl _

end Runtime

/-- An append continues a store in order, wherever it is cut off. -/
theorem Appending.disciplined (h : Appending m record s r) (hs : s.runtime.Disciplined m) :
    r.Disciplined m ∧ s.runtime.Continues r := by
  cases h with
  | before h =>
    have hk : s.runtime.KeepsIntents m.digests r := Runtime.keepsIntents_of_journal h.journal
    exact ⟨hs.of_chainAt hk h.chainAt_eq, Runtime.continues_of_chainAt h.chainAt_eq⟩
  | after ha h =>
    have hk : s.runtime.KeepsIntents m.digests r := Runtime.keepsIntents_of_journal h.journal
    constructor
    · intro rh oh
      by_cases hat : rh = record.runHash m ∧ oh = record.operationHash m
      · obtain ⟨rfl, rfl⟩ := hat
        obtain ⟨intent, hi, hv⟩ := ha.valid
        refine .inr ⟨_, _, intent, rfl, rfl, hk _ _ _ hi, ?_⟩
        rwa [h.chain]
      · rw [h.chainAt_of_ne hat]
        rcases hs rh oh with hnone | ⟨runId, operationId, intent, hrh, hoh, hi, hv⟩
        · exact .inl hnone
        · exact .inr ⟨runId, operationId, intent, hrh, hoh, hk _ _ _ hi, hv⟩
    · intro rh oh
      by_cases hat : rh = record.runHash m ∧ oh = record.operationHash m
      · obtain ⟨rfl, rfl⟩ := hat
        rw [h.chain]
        apply Chain.continues_put ha.fresh ha.open_
        rcases hs (record.runHash m) (record.operationHash m) with
          hnone | ⟨_, _, _, _, _, _, hv⟩
        · exact .inl hnone
        · exact .inr (Chain.dispatch_of_valid hv)
      · rw [h.chainAt_of_ne hat]
        exact .refl _

/-- What a call of `append` leaves, wherever it is cut off. -/
theorem AppendCall.exec_spec (call : AppendCall) (envs : List Env) (s : State) :
    (∃ r, (call.exec m envs s).2 = { s with runtime := r } ∧ Appending m call.record s r) ∧
      ∀ reply, (call.exec m envs s).1 = .ret reply →
        Answered m call.record s 0 reply ((call.exec m envs s).2, 0) := by
  have hquiet : StoreQuiet fun _ _ _ => false := ⟨fun _ _ _ _ => rfl, fun _ _ _ _ => rfl⟩
  have hkeeps : (call.prog m).Keeps (counted m fun _ _ _ => false) (fun _ => True)
      (fun c => ∃ r, c = ({ s with runtime := r }, 0) ∧ Appending m call.record s r)
      (Ends m call.record s 0) (s, 0) :=
    append_keeps hquiet (fun r h => ⟨r, rfl, h⟩) call.reads
  obtain ⟨⟨r, hr, happ⟩, hend⟩ := hkeeps.exec ⟨s.runtime, rfl, .before (.refl _)⟩
    (fun _ _ => trivial : ∀ env ∈ envs, True)
  obtain ⟨hprog, hstate⟩ :=
    exec_counting (M := bridgeSemantics m) (P := fun _ _ _ => false) (call.prog m) envs (s, 0)
  rw [hr] at hstate hend
  rw [AppendCall.exec, ← hstate]
  constructor
  · exact ⟨r, rfl, happ⟩
  · intro reply hreply
    rw [hprog, hreply] at hend
    obtain ⟨-, -, -, hanswered⟩ := hend
    exact hanswered reply rfl

/-- Appends and what is done besides continue a disciplined store in order. -/
theorem Appends.disciplined (h : Appends m s t) (hs : s.runtime.Disciplined m) :
    t.runtime.Disciplined m ∧ s.runtime.Continues t.runtime := by
  have onward : ∀ {t u : State}, t.runtime.Disciplined m ∧ s.runtime.Continues t.runtime →
      u.runtime.Disciplined m ∧ t.runtime.Continues u.runtime →
      u.runtime.Disciplined m ∧ s.runtime.Continues u.runtime := fun ht hu =>
    ⟨hu.1, fun rh oh => (ht.2 rh oh).trans (hu.2 rh oh)⟩
  induction h with
  | start => exact ⟨hs, fun _ _ => .refl _⟩
  | @call t _ call envs ih =>
    obtain ⟨⟨r, hr, happ⟩, -⟩ := call.exec_spec (m := m) envs t
    rw [hr]
    exact onward ih (happ.disciplined ih.1)
  | lost _ call envs _ r hr ih => exact onward ih (Appending.disciplined (.before hr) ih.1)
  | others _ hb ih =>
    have hc : ∀ {t u : State}, Beside m t u → ∀ rh oh,
        u.runtime.chainAt rh oh = t.runtime.chainAt rh oh := fun hb rh oh => by
      simp only [Runtime.chainAt, Runtime.findOp, hb.execution]
    exact onward ih ⟨ih.1.of_chainAt hb.intents (hc hb), Runtime.continues_of_chainAt (hc hb)⟩

theorem disciplined_of_absent (h : r.execution = none) : r.Disciplined m := by
  intro rh oh
  left
  apply Runtime.chainAt_of_findOp_none
  simp only [Runtime.findOp, h, Option.bind_none]

/-- From an empty store on, whatever is appended and wherever the appends are cut off, the records
of every operation are valid under one recorded intent; what is stored stays, and more is
only added later in the order of the phases, nothing after a result. An append answers that
its record exists only where that very record is stored. -/
theorem append_discipline (h₀ : s.runtime.execution = none) (h : Appends m s t) :
    (∀ rh oh, t.runtime.chainAt rh oh = {} ∨ ∃ runId operationId intent,
      m.digests.id runId = rh ∧ m.digests.id operationId = oh ∧
      t.runtime.inspectIntent m.digests runId operationId = .recorded intent ∧
      (t.runtime.chainAt rh oh).valid m.digests m.uid.toNat intent = true) ∧
    (∀ u, Appends m t u → ∀ rh oh,
      (t.runtime.chainAt rh oh).Continues (u.runtime.chainAt rh oh) ∧
      ((t.runtime.chainAt rh oh).result.isSome →
        u.runtime.chainAt rh oh = t.runtime.chainAt rh oh)) ∧
    ∀ (call : AppendCall) envs reply, (call.exec m envs t).1 = .ret reply →
      reply.status = .existing →
      (t.chainFor m call.record).record call.record.phase = some call.record := by
  obtain ⟨hdisciplined, -⟩ := h.disciplined (disciplined_of_absent h₀)
  refine ⟨hdisciplined, fun u hu rh oh => ?_, fun call envs reply hreply hstatus => ?_⟩
  · have hcontinues := (hu.disciplined hdisciplined).2 rh oh
    exact ⟨hcontinues, hcontinues.eq_of_result⟩
  · exact ((call.exec_spec envs t).2 reply hreply).existing hstatus

namespace Scenario

def intended : State :=
  { dispatched with runtime := { dispatched.runtime with execution := none } }

def dispatchCall : AppendCall :=
  ⟨.dispatch (dispatch "o"), act (.authorize binding), reads_authorize⟩

def afterDispatch : State := (dispatchCall.exec machine (List.replicate 40 env) intended).2

end Scenario

open OrchKit.Bridge.Scenario in
theorem append_discipline_dispatched :
    (∃ runId operationId intent, machine.digests.id runId = hexes 'c' ∧
      machine.digests.id operationId = hexes 'a' ∧
      afterDispatch.runtime.inspectIntent machine.digests runId operationId = .recorded intent ∧
      (afterDispatch.runtime.chainAt (hexes 'c') (hexes 'a')).valid machine.digests
        machine.uid.toNat intent = true) ∧
    (afterDispatch.chainFor machine dispatchCall.record).record .dispatch =
      some dispatchCall.record := by
  obtain ⟨hvalid, -, hexisting⟩ := append_discipline (m := machine) (s := intended) rfl
    (.call .start dispatchCall (List.replicate 40 env))
  have hstored : afterDispatch.runtime.chainAt (hexes 'c') (hexes 'a') ≠ {} := by decide
  have hreply : (dispatchCall.exec machine (List.replicate 40 env) afterDispatch).1.returned? =
      some ⟨.existing, ""⟩ := by decide
  constructor
  · exact (hvalid _ _).resolve_left hstored
  · exact hexisting dispatchCall _ _ (Prog.returned?_eq_some_iff.mp hreply) rfl

end OrchKit.Bridge
