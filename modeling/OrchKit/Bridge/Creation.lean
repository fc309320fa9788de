import OrchKit.Bridge.Intent
import OrchKit.Bridge.Refusal
import OrchKit.Program.Alone

/-! # Intents are created once

Calls that create intents, one after another and with nothing failing in them. The journal stays
readable and within its limits; an identifier for which an intent is stored keeps that intent, and
every later call for it is answered from it, whether or not there would be room for another.
-/

namespace OrchKit.Bridge

open Except Program Table Routine

/-! ### Journals that can be read -/

/-- An entry of the journal that can be read, of a run in `runIds`. -/
structure DirSound (digests : Digests) (runIds : Set RunId) (entry : (_ : Digest) × IntentDir) :
    Prop where
  digest : isDigest entry.1
  temps_eq : entry.2.temps = []
  length_le : entry.2.records.entries.length ≤ maxOperationsPerRun
  record : ∀ e ∈ entry.2.records.entries, isDigest e.1 ∧ e.2.valid digests ∧
    digests.id e.2.request.binding.runId = entry.1 ∧ digests.id e.2.request.operationId = e.1 ∧
      e.2.request.binding.runId ∈ runIds

/-- A journal that can be read, all of whose intents are of runs in `runIds`. -/
structure JournalSound (digests : Digests) (runIds : Set RunId) (runs : Table Digest IntentDir) :
    Prop where
  length_le : runs.entries.length ≤ maxOperations
  sum_le : (runs.entries.map fun entry => entry.2.records.entries.length).sum ≤ maxOperations
  dir : ∀ entry ∈ runs.entries, DirSound digests runIds entry

namespace Runtime

variable {digests : Digests} {runIds : Set RunId} {r : Runtime} {rh oh : Digest}
  {runs : Table Digest IntentDir} {dir : IntentDir} {intent : IntentRecord} {name : TempName}
  {f g : IntentDir → IntentDir}

def Filled (runs : Table Digest IntentDir) : Prop :=
  ∀ entry ∈ runs.entries, entry.2.records.entries ≠ []

def Journalled (digests : Digests) (runIds : Set RunId) (r : Runtime) : Prop :=
  ∀ runs, r.journal = some runs → JournalSound digests runIds runs ∧ Filled runs

def intents (r : Runtime) : List IntentRecord :=
  (r.journal.getD ∅).entries.flatMap fun entry => entry.2.records.rows

theorem journalReady_of_sound (hruns : r.journal = some runs)
    (h : JournalSound digests runIds runs) : r.journalReady digests := by
  simp only [journalReady, hruns, Bool.and_eq_true, decide_eq_true_eq, List.all_eq_true]
  refine ⟨⟨h.length_le, h.sum_le⟩, fun entry hentry => ?_⟩
  have hdir := h.dir entry hentry
  refine ⟨⟨⟨hdir.digest, hdir.temps_eq⟩, hdir.length_le⟩, fun e he => ?_⟩
  obtain ⟨hdigest, hvalid, hrun, hoperation, -⟩ := hdir.record e he
  exact ⟨⟨⟨hdigest, hvalid⟩, hrun⟩, hoperation⟩

theorem journal_makeJournal : r.makeJournal.journal = some (r.journal.getD ∅) := rfl

theorem journalled_makeJournal (h : r.Journalled digests runIds) :
    r.makeJournal.Journalled digests runIds := by
  rintro runs hruns
  rw [journal_makeJournal, Option.some.injEq] at hruns
  cases hjournal : r.journal with
  | some runs' =>
    rw [hjournal] at hruns
    exact h runs (hjournal.trans (congrArg some hruns))
  | none =>
    rw [hjournal] at hruns
    subst hruns
    exact ⟨⟨Nat.zero_le _, Nat.zero_le _, by rintro _ ⟨⟩⟩, by rintro _ ⟨⟩⟩

/-! ### Storing an intent -/

def withIntent (r : Runtime) (rh oh : Digest) (intent : IntentRecord) : Runtime :=
  (r.makeIntentRun rh).updateIntents rh fun dir => { dir with records := dir.records.put oh intent }

/-- The directory of a run in a journal, made if it is not there. -/
def dirIn (runs : Table Digest IntentDir) (rh : Digest) : IntentDir := (runs.lookup rh).getD {}

/-- The runs with one more directory, if it is not there. -/
def madeIn (runs : Table Digest IntentDir) (rh : Digest) : Table Digest IntentDir :=
  if (runs.lookup rh).isSome then runs else runs.put rh {}

theorem lookup_madeIn : (madeIn runs rh).lookup rh = some (dirIn runs rh) := by
  rw [madeIn, dirIn]
  split
  next h =>
    obtain ⟨dir, hdir⟩ := Option.isSome_iff_exists.mp h
    rw [hdir]
    rfl
  next h =>
    rw [lookup_put, if_pos rfl, Option.not_isSome_iff_eq_none.mp h]
    rfl

theorem journal_makeIntentRun (hruns : r.journal = some runs) :
    (r.makeIntentRun rh).journal = some (madeIn runs rh) := by
  rw [makeIntentRun, hruns]
  rfl

theorem journal_updateIntents (hruns : r.journal = some runs) :
    (r.updateIntents rh f).journal = some (runs.modify rh f) := by
  rw [updateIntents, hruns]
  rfl

theorem updateIntents_updateIntents :
    (r.updateIntents rh f).updateIntents rh g = r.updateIntents rh (g ∘ f) := by
  obtain ⟨journal, execution⟩ := r
  cases journal with
  | none => rfl
  | some runs => simp only [updateIntents, Option.map_some, modify_modify]

theorem updateIntents_congr (hruns : r.journal = some runs) (hdir : runs.lookup rh = some dir)
    (h : f dir = g dir) : r.updateIntents rh f = r.updateIntents rh g := by
  have hmodify : runs.modify rh f = runs.modify rh g := by
    apply modify_congr
    intro b hb
    rw [hdir, Option.some.injEq] at hb
    rw [← hb, h]
  simp only [updateIntents, hruns, Option.map_some, hmodify]

theorem unstage_link_stage (hruns : r.journal = some runs) (htemps : (dirIn runs rh).temps = []) :
    ((((r.makeIntentRun rh).stageIntent rh name).linkIntent rh oh name intent).unstageIntent rh
      name) = r.withIntent rh oh intent := by
  rw [unstageIntent, linkIntent, stageIntent, updateIntents_updateIntents,
    updateIntents_updateIntents, withIntent]
  apply updateIntents_congr (journal_makeIntentRun hruns) lookup_madeIn
  simp [htemps]

/-! ### What is stored -/

theorem perm_madeIn (hfresh : runs.lookup rh = none) :
    (madeIn runs rh).entries = ⟨rh, {}⟩ :: runs.entries := by
  rw [madeIn, hfresh]
  exact AList.entries_insert_of_notMem (AList.lookup_eq_none.mp hfresh)

theorem dirSound_dirIn (h : JournalSound digests runIds runs) (hdigest : isDigest rh) :
    DirSound digests runIds ⟨rh, dirIn runs rh⟩ := by
  cases hlookup : runs.lookup rh with
  | none =>
    rw [dirIn, hlookup]
    exact ⟨hdigest, rfl, Nat.zero_le _, by rintro _ ⟨⟩⟩
  | some dir =>
    rw [dirIn, hlookup]
    exact h.dir ⟨rh, dir⟩ (AList.mem_lookup_iff.mp hlookup)

theorem journalSound_madeIn (h : JournalSound digests runIds runs) (hdigest : isDigest rh)
    (hroom : runs.lookup rh = none → runs.entries.length < maxOperations) :
    JournalSound digests runIds (madeIn runs rh) := by
  cases hlookup : runs.lookup rh with
  | some dir =>
    rw [madeIn, hlookup]
    exact h
  | none =>
    have hentries := perm_madeIn hlookup
    constructor
    · rw [hentries, List.length_cons]
      exact hroom hlookup
    · rw [hentries, List.map_cons, List.sum_cons]
      exact (Nat.zero_add _).trans_le h.sum_le
    · rw [hentries]
      intro entry hentry
      rcases List.mem_cons.mp hentry with rfl | hentry
      · have hdir := dirSound_dirIn h hdigest
        rw [dirIn, hlookup] at hdir
        exact hdir
      · exact h.dir entry hentry

theorem countP_intents_eq_sum {p : IntentRecord → Bool} (hruns : r.journal = some runs) :
    r.intents.countP p = (runs.entries.map fun entry => entry.2.records.rows.countP p).sum := by
  rw [intents, hruns, Option.getD_some, List.countP_flatMap]
  rfl

theorem length_intents (hruns : r.journal = some runs) :
    r.intents.length = (runs.entries.map fun entry => entry.2.records.entries.length).sum := by
  rw [intents, hruns, Option.getD_some, List.length_flatMap]
  simp only [length_rows]

/-- As long as no two runs have the same digest, the intents of a run are those in its
directory. -/
theorem countP_run (h : JournalSound digests runIds runs) (hruns : r.journal = some runs)
    (hinj : Set.InjOn digests.id runIds) {runId : RunId} (hrun : runId ∈ runIds) :
    r.intents.countP (fun intent => intent.request.binding.runId = runId) =
      (dirIn runs (digests.id runId)).records.entries.length := by
  rw [countP_intents_eq_sum hruns]
  have hzero : ∀ e ∈ runs.entries, e.1 ≠ digests.id runId →
      e.2.records.rows.countP (fun intent => intent.request.binding.runId = runId) = 0 := by
    intro e he hne
    rw [List.countP_eq_zero]
    intro intent hintent
    obtain ⟨row, hrow, rfl⟩ := List.mem_map.mp hintent
    obtain ⟨-, -, hdigest, -, -⟩ := (h.dir e he).record row hrow
    rw [decide_eq_true_eq]
    intro hsame
    exact hne (hdigest ▸ congrArg digests.id hsame)
  rw [sum_of_key (g := fun dir : IntentDir => dir.records.rows.countP
    fun intent => intent.request.binding.runId = runId) hzero, dirIn]
  cases hlookup : runs.lookup (digests.id runId) with
  | none => rfl
  | some dir =>
    have hdir := h.dir _ (AList.mem_lookup_iff.mp hlookup)
    simp only [Option.elim_some, Option.getD_some]
    rw [← length_rows, List.countP_eq_length]
    intro intent hintent
    obtain ⟨row, hrow, rfl⟩ := List.mem_map.mp hintent
    obtain ⟨-, -, hdigest, -, hmem⟩ := hdir.record row hrow
    exact decide_eq_true (hinj hmem hrun hdigest)

/-- No run has more intents than it may have, and all runs together do not. -/
theorem Journalled.bounds (h : r.Journalled digests runIds) (hinj : Set.InjOn digests.id runIds) :
    r.intents.length ≤ maxOperations ∧ ∀ runId,
      r.intents.countP (fun intent => intent.request.binding.runId = runId) ≤
        maxOperationsPerRun := by
  cases hruns : r.journal with
  | none =>
    have hnil : r.intents = [] := by
      rw [intents, hruns]
      rfl
    rw [hnil]
    exact ⟨Nat.zero_le _, fun _ => Nat.zero_le _⟩
  | some runs =>
    have hsound := (h runs hruns).1
    constructor
    · rw [length_intents hruns]
      exact hsound.sum_le
    · intro runId
      by_cases hrun : runId ∈ runIds
      · rw [countP_run hsound hruns hinj hrun]
        exact (dirSound_dirIn hsound (digests.isDigest_id runId)).length_le
      · have hzero : r.intents.countP (fun intent => intent.request.binding.runId = runId) = 0 := by
          rw [List.countP_eq_zero]
          intro intent hintent
          rw [intents, hruns, Option.getD_some, List.mem_flatMap] at hintent
          obtain ⟨entry, hentry, hintent⟩ := hintent
          obtain ⟨row, hrow, rfl⟩ := List.mem_map.mp hintent
          obtain ⟨-, -, -, -, hmem⟩ := (hsound.dir entry hentry).record row hrow
          rw [decide_eq_true_eq]
          rintro rfl
          exact hrun hmem
        rw [hzero]
        exact Nat.zero_le _

/-- Where the journal can be read, an identifier is looked up in the directory of its run. -/
theorem inspectIntent_of_sound (h : JournalSound digests runIds runs)
    (hruns : r.journal = some runs)
    {runId : RunId} {operationId : String} (hrun : isHashable runId)
    (hoperation : isHashable operationId) :
    r.inspectIntent digests runId operationId =
      ((dirIn runs (digests.id runId)).records.lookup (digests.id operationId)).elim .absent
        .recorded := by
  have hhashable : ¬ (¬ isHashable runId ∨ ¬ isHashable operationId) := by
    simp [hrun, hoperation]
  rw [inspectIntent, if_neg hhashable, intentDir, hruns, Option.bind_some, dirIn]
  cases hlookup : runs.lookup (digests.id runId) with
  | none => rfl
  | some dir =>
    simp only [Option.getD_some]
    cases hrecord : dir.records.lookup (digests.id operationId) with
    | none => rfl
    | some intent =>
      have hdir := h.dir _ (AList.mem_lookup_iff.mp hlookup)
      obtain ⟨-, hvalid, hrunDigest, hoperationDigest, -⟩ :=
        hdir.record _ (AList.mem_lookup_iff.mp hrecord)
      have htemps : dir.temps.all (fun t => t.2 ≠ some (digests.id operationId)) := by
        rw [hdir.temps_eq]
        rfl
      simp only [Option.elim_some]
      rw [if_pos ⟨htemps, hvalid, hrunDigest, hoperationDigest⟩]

theorem journal_withIntent (hruns : r.journal = some runs) :
    (r.withIntent rh oh intent).journal = some ((madeIn runs rh).modify rh fun dir =>
      { dir with records := dir.records.put oh intent }) :=
  journal_updateIntents (journal_makeIntentRun hruns)

/-- There is room for one more intent, of a run with this digest. -/
structure RoomFor (runs : Table Digest IntentDir) (rh : Digest) : Prop where
  run : (dirIn runs rh).records.entries.length < maxOperationsPerRun
  total : (runs.entries.map fun entry => entry.2.records.entries.length).sum < maxOperations
  dirs : runs.lookup rh = none → runs.entries.length < maxOperations

theorem sum_madeIn : ((madeIn runs rh).entries.map fun e => e.2.records.entries.length).sum =
    (runs.entries.map fun e => e.2.records.entries.length).sum := by
  cases hlookup : runs.lookup rh with
  | some dir => rw [madeIn, hlookup, Option.isSome_some, if_pos rfl]
  | none =>
    rw [perm_madeIn hlookup, List.map_cons, List.sum_cons]
    exact Nat.zero_add _

theorem length_put {t : Table Digest IntentRecord} (h : t.lookup oh = none) :
    (t.put oh intent).entries.length = t.entries.length + 1 := by
  rw [← length_rows, rows_put_of_lookup_none h, List.length_cons, length_rows]

theorem journalSound_withIntent (h : JournalSound digests runIds runs)
    (hroom : RoomFor runs (digests.id intent.request.binding.runId))
    (hfree : (dirIn runs (digests.id intent.request.binding.runId)).records.lookup
      (digests.id intent.request.operationId) = none)
    (hvalid : intent.valid digests) (hrun : intent.request.binding.runId ∈ runIds) :
    JournalSound digests runIds
      ((madeIn runs (digests.id intent.request.binding.runId)).modify
        (digests.id intent.request.binding.runId) fun dir =>
          { dir with records :=
            dir.records.put (digests.id intent.request.operationId) intent }) := by
  have hmade := journalSound_madeIn h (digests.isDigest_id intent.request.binding.runId) hroom.dirs
  have hdirSound := dirSound_dirIn h (digests.isDigest_id intent.request.binding.runId)
  constructor
  · exact (List.length_map _).trans_le hmade.length_le
  · have hsum := sum_modify (g := fun dir : IntentDir => dir.records.entries.length) (d := 1)
      (f := fun dir : IntentDir =>
        { dir with records := dir.records.put (digests.id intent.request.operationId) intent })
      (@lookup_madeIn (digests.id intent.request.binding.runId) runs) (length_put hfree)
    rw [hsum, sum_madeIn]
    exact hroom.total
  · intro entry hentry
    obtain ⟨old, hold, rfl⟩ := List.mem_map.mp hentry
    have holdSound := hmade.dir old hold
    by_cases hkey : old.1 = digests.id intent.request.binding.runId
    · have hsame : old.2 = dirIn runs (digests.id intent.request.binding.runId) := by
        have hlookup := AList.mem_lookup_iff.mpr hold
        rw [hkey, lookup_madeIn] at hlookup
        exact (Option.some.inj hlookup).symm
      dsimp only
      rw [if_pos hkey, hkey, hsame]
      refine ⟨hdirSound.digest, hdirSound.temps_eq, ?_, fun e he => ?_⟩
      · rw [length_put hfree]
        exact hroom.run
      · rw [Table.put, AList.entries_insert_of_notMem (AList.lookup_eq_none.mp hfree)] at he
        rcases List.mem_cons.mp he with rfl | he
        · exact ⟨digests.isDigest_id _, hvalid, rfl, rfl, hrun⟩
        · exact hdirSound.record e he
    · dsimp only
      rw [if_neg hkey]
      exact holdSound

theorem filled_withIntent (h : Filled runs) :
    Filled ((madeIn runs rh).modify rh fun dir =>
      { dir with records := dir.records.put oh intent }) := by
  intro entry hentry
  obtain ⟨old, hold, rfl⟩ := List.mem_map.mp hentry
  dsimp only
  split
  next hkey => exact List.cons_ne_nil _ _
  next hkey =>
    cases hlookup : runs.lookup rh with
    | some dir =>
      rw [madeIn, hlookup] at hold
      exact h old hold
    | none =>
      rw [perm_madeIn hlookup] at hold
      rcases List.mem_cons.mp hold with rfl | hold
      · exact absurd rfl hkey
      · exact h old hold

theorem length_le_intents (hruns : r.journal = some runs) (h : Filled runs) :
    runs.entries.length ≤ r.intents.length := by
  rw [length_intents hruns]
  have hone : ∀ n ∈ runs.entries.map fun entry => entry.2.records.entries.length, 1 ≤ n := by
    intro n hn
    obtain ⟨entry, hentry, rfl⟩ := List.mem_map.mp hn
    exact List.length_pos_iff.mpr (h entry hentry)
  calc runs.entries.length
      = (runs.entries.map fun entry => entry.2.records.entries.length).length :=
        (List.length_map _).symm
    _ ≤ (runs.entries.map fun entry => entry.2.records.entries.length).sum :=
        List.length_le_sum_of_one_le _ hone

theorem lookup_withIntent (hruns : r.journal = some runs) {runs' : Table Digest IntentDir}
    (hruns' : (r.withIntent rh oh intent).journal = some runs') :
    (dirIn runs' rh).records.lookup oh = some intent := by
  rw [journal_withIntent hruns, Option.some.injEq] at hruns'
  rw [← hruns', dirIn, lookup_modify, if_pos rfl, lookup_madeIn]
  simp only [Option.map_some, Option.getD_some]
  rw [lookup_put, if_pos rfl]

theorem keepsIntents_withIntent (hruns : r.journal = some runs)
    (hfree : (dirIn runs rh).records.lookup oh = none) :
    KeepsIntents digests r (r.withIntent rh oh intent) := by
  intro runId operationId found hfound
  apply @keepsIntents_updateIntents digests (r.makeIntentRun rh)
  · intro dir hdir oh' found' hrecord
    have hne : oh' ≠ oh := by
      rintro rfl
      rw [journal_makeIntentRun hruns, Option.bind_some, lookup_madeIn, Option.some.injEq] at hdir
      rw [← hdir, hfree] at hrecord
      cases hrecord
    rw [lookup_put, if_neg hne]
    exact ⟨hrecord, id⟩
  · exact keepsIntents_makeIntentRun runId operationId found hfound

end Runtime

/-! ### A call -/

section Call

variable {m : Machine} {env : Env} {runIds : Set RunId} {s t : State} {intent : IntentRecord}
  {authorize : Routine Unit} {runs : Table Digest IntentDir} {α : Type} {p : Routine α} {v : α}

/-- The routine returns `v` and leaves `t`, if the environment always chooses `env`. -/
abbrev Completes (m : Machine) (env : Env) (p : Routine α) (s : State) (v : α) (t : State) : Prop :=
  p.Yields (bridgeSemantics m) env s v t

theorem completes_act (hfault : env.fault = none) {a : Act} {v : a.Value}
    (h : a.perform m env s = .ok (v, t)) : Completes m env (act a) s v t := by
  have hanswer : a.answer m env s = (.ok v, t) := by
    rw [Act.answer, h]
    simp only [hfault]
  have hsemantics : (bridgeSemantics m).answer env s (.act a) = (.ok v, t) := hanswer
  rw [Completes, act, Prog.yields_call, Semantics.after, hsemantics]
  exact Prog.yields_ret.mpr ⟨rfl, rfl⟩

theorem completes_look (hfault : env.fault = none) {l : Look} :
    Completes m env (look l) s (l.see m s) s := by
  have hsemantics : (bridgeSemantics m).answer env s (.look l) = (l.see m s, s) := by
    simp [bridgeSemantics, hfault]
  rw [Completes, look, Prog.yields_call, Semantics.after, hsemantics]
  exact Prog.yields_ret.mpr ⟨rfl, rfl⟩

theorem Completes.bind {β : Type} {f : α → Routine β} {w : β} {u : State}
    (h : Completes m env p s v t)
    (hf : Completes m env (f v) t w u) : Completes m env (p >>= f) s w u :=
  Prog.yields_bind.mpr ⟨v, t, h, hf⟩

theorem Completes.catching {g : Exn → Routine α} (h : Completes m env p s v t) :
    Completes m env (p.catching g) s v t :=
  Prog.yields_catching.mpr (.inl h)

theorem Completes.succeeds {p : Routine Unit} (h : Completes m env p s () t) :
    Completes m env (succeeds p) s true t :=
  (h.bind (f := fun _ => .ret true) (Prog.yields_ret.mpr ⟨rfl, rfl⟩)).catching

theorem completes_ret : Completes m env (.ret v) s v s := Prog.yields_ret.mpr ⟨rfl, rfl⟩

abbrev State.withRuntime (s : State) (r : Runtime) : State := { s with runtime := r }

/-- The digests of the run and of the operation of an intent. -/
abbrev runHash (m : Machine) (intent : IntentRecord) : Digest :=
  m.digests.id intent.request.binding.runId

abbrev operationHash (m : Machine) (intent : IntentRecord) : Digest :=
  m.digests.id intent.request.operationId

theorem ids_hashable (hvalid : intent.valid m.digests) :
    isHashable intent.request.binding.runId ∧ isHashable intent.request.operationId := by
  have hrequest : intent.request.valid := by
    simp only [IntentRecord.valid, patchRequest, Bool.and_eq_true] at hvalid
    exact hvalid.1.1.1.1.1
  simp only [WorkerOperationRequest.valid, WorkerRunBinding.valid, Bool.and_eq_true] at hrequest
  exact ⟨hrequest.1.1.1.1.1.1.2, hrequest.1.1.1.2⟩

theorem completes_linkStagedIntent (hfault : env.fault = none) (name : TempName)
    (hgrant : Completes m env authorize s () s) (hruns : s.runtime.journal = some runs)
    (hfree : ∀ dir, runs.lookup (runHash m intent) = some dir →
      dir.records.lookup (operationHash m intent) = none) :
    Completes m env
      (linkStagedIntent (runHash m intent) (operationHash m intent) name intent authorize) s
      (some true) (s.withRuntime (s.runtime.linkIntent (runHash m intent) (operationHash m intent)
        name intent)) := by
  refine (completes_act hfault rfl).bind (hgrant.succeeds.bind ?_)
  have hperform : Act.perform m env s (.linkIntent (runHash m intent) (operationHash m intent) name
      intent) = .ok (true, s.withRuntime (s.runtime.linkIntent (runHash m intent)
        (operationHash m intent) name intent)) := by
    rw [Act.perform, hruns, Option.bind_some]
    cases hlookup : runs.lookup (runHash m intent) with
    | none => rfl
    | some dir =>
      rw [Option.any_some, hfree dir hlookup]
      rfl
  exact (completes_act hfault hperform).bind completes_ret

theorem completes_publishIntent (hfault : env.fault = none) {name : TempName}
    (hgrant : ∀ s, Completes m env authorize s () s) (hruns : s.runtime.journal = some runs)
    (hsound : JournalSound m.digests runIds runs) (hvalid : intent.valid m.digests)
    (hrun : intent.request.binding.runId ∈ runIds)
    (hroom : Runtime.RoomFor runs (runHash m intent))
    (hfree : (Runtime.dirIn runs (runHash m intent)).records.lookup
      (operationHash m intent) = none) :
    Completes m env (publishIntent m name intent authorize) s (.created intent)
      (s.withRuntime
        (s.runtime.withIntent (runHash m intent) (operationHash m intent) intent)) := by
  have htemps := (Runtime.dirSound_dirIn hsound
    (m.digests.isDigest_id intent.request.binding.runId)).temps_eq
  have hstored := @Runtime.unstage_link_stage s.runtime _ (operationHash m intent) runs intent name
    hruns htemps
  have hjournal := @Runtime.journal_withIntent s.runtime (runHash m intent) (operationHash m intent)
    runs intent hruns
  have hstaged : ∀ dir, ((Runtime.madeIn runs (runHash m intent)).modify (runHash m intent)
      fun dir => { dir with temps := dir.temps ++ [(name, none)] }).lookup (runHash m intent) =
        some dir → dir.records.lookup (operationHash m intent) = none := by
    intro dir hdir
    rw [lookup_modify, if_pos rfl, Runtime.lookup_madeIn, Option.map_some,
      Option.some.injEq] at hdir
    rw [← hdir]
    exact hfree
  have hlinked := completes_linkStagedIntent hfault name
    (s := s.withRuntime ((s.runtime.makeIntentRun (runHash m intent)).stageIntent (runHash m intent)
      name)) (hgrant _)
    (Runtime.journal_updateIntents (Runtime.journal_makeIntentRun hruns)) hstaged
  have hread : Act.perform m env
      (s.withRuntime (s.runtime.withIntent (runHash m intent) (operationHash m intent) intent))
      (.readIntent intent.request.binding.runId intent.request.operationId) =
        .ok (intent, s.withRuntime (s.runtime.withIntent (runHash m intent)
          (operationHash m intent) intent)) := by
    have hfound := Runtime.inspectIntent_of_sound
      (Runtime.journalSound_withIntent hsound hroom hfree hvalid hrun) hjournal
        (ids_hashable hvalid).1
      (ids_hashable hvalid).2
    rw [Runtime.lookup_withIntent hruns hjournal] at hfound
    rw [Act.perform, hfound]
    rfl
  refine (completes_act hfault rfl).bind
    ((completes_act hfault rfl).bind ((completes_act hfault rfl).bind ?_))
  refine hlinked.catching.bind (Completes.catching ?_)
  have hunstage : Completes m env (act (.unstageIntent (runHash m intent) name))
      (s.withRuntime (((s.runtime.makeIntentRun (runHash m intent)).stageIntent (runHash m intent)
        name).linkIntent (runHash m intent) (operationHash m intent) name intent)) ()
      (s.withRuntime
        (s.runtime.withIntent (runHash m intent) (operationHash m intent) intent)) := by
    rw [← hstored]
    exact completes_act hfault rfl
  refine Completes.bind (hunstage.catching.bind (completes_act hfault hread)) ?_
  rw [Routine.require, if_pos rfl]
  exact completes_ret

/-- A run has as many intents as it may have, or all runs together do. -/
def Runtime.Full (r : Runtime) (runId : RunId) : Prop :=
  maxOperationsPerRun ≤ r.intents.countP (fun intent => intent.request.binding.runId = runId) ∨
    maxOperations ≤ r.intents.length

/-- What `create` answers about a valid intent, and the runtime directory it leaves: it looks
for an intent under the same identifiers before it looks for room. -/
inductive CreateAnswered (m : Machine) (intent : IntentRecord) (r : Runtime) :
    JournalReply → Runtime → Prop
  | existing {previous : IntentRecord}
      (found : r.inspectIntent m.digests intent.request.binding.runId intent.request.operationId =
        .recorded previous)
      (same : previous.fingerprint = intent.fingerprint) :
      CreateAnswered m intent r (.existing previous) r.makeJournal
  | conflict {previous : IntentRecord}
      (found : r.inspectIntent m.digests intent.request.binding.runId intent.request.operationId =
        .recorded previous)
      (other : previous.fingerprint ≠ intent.fingerprint) :
      CreateAnswered m intent r (.conflict "journal_operation_conflict") r.makeJournal
  | full
      (absent : r.inspectIntent m.digests intent.request.binding.runId
        intent.request.operationId = .absent)
      (full : r.Full intent.request.binding.runId) :
      CreateAnswered m intent r (.refused "journal_capacity_exceeded") r.makeJournal
  | created
      (absent : r.inspectIntent m.digests intent.request.binding.runId
        intent.request.operationId = .absent)
      (room : ¬ r.Full intent.request.binding.runId) :
      CreateAnswered m intent r (.created intent)
        (r.makeJournal.withIntent (runHash m intent) (operationHash m intent) intent)

theorem Runtime.inspectIntent_makeJournal {r : Runtime} {runId : RunId} {operationId : String} :
    r.makeJournal.inspectIntent m.digests runId operationId =
      r.inspectIntent m.digests runId operationId := by
  obtain ⟨journal, execution⟩ := r
  cases journal with
  | none => rfl
  | some runs => rfl

theorem roomFor_of_not_full {r : Runtime} (hruns : r.journal = some runs)
    (hsound : JournalSound m.digests runIds runs) (hfilled : Runtime.Filled runs)
    (hinj : Set.InjOn m.digests.id runIds) (hrun : intent.request.binding.runId ∈ runIds)
    (h : ¬ r.Full intent.request.binding.runId) : Runtime.RoomFor runs (runHash m intent) := by
  rw [Runtime.Full, not_or, Nat.not_le, Nat.not_le,
    Runtime.countP_run hsound hruns hinj hrun] at h
  obtain ⟨hone, htotal⟩ := h
  constructor
  · exact hone
  · rwa [← Runtime.length_intents hruns]
  · intro _
    exact (Runtime.length_le_intents hruns hfilled).trans_lt htotal

/-- What `create` does under the lock of a journal that can be read. -/
theorem completes_createLocked (hfault : env.fault = none) (name : TempName)
    (hgrant : ∀ s, Completes m env authorize s () s) (hinj : Set.InjOn m.digests.id runIds)
    (hruns : s.runtime.journal = some runs) (hsound : JournalSound m.digests runIds runs)
    (hfilled : Runtime.Filled runs) (hvalid : intent.valid m.digests)
    (hrun : intent.request.binding.runId ∈ runIds) :
    (∃ previous, s.runtime.inspectIntent m.digests intent.request.binding.runId
        intent.request.operationId = .recorded previous ∧
      Completes m env (createLocked m name intent authorize) s
        (if previous.fingerprint = intent.fingerprint then .existing previous
          else .conflict "journal_operation_conflict") s) ∨
    s.runtime.inspectIntent m.digests intent.request.binding.runId
        intent.request.operationId = .absent ∧
      (s.runtime.Full intent.request.binding.runId ∧
          Completes m env (createLocked m name intent authorize) s
            (.refused "journal_capacity_exceeded")
            s ∨
        ¬ s.runtime.Full intent.request.binding.runId ∧
          Completes m env (createLocked m name intent authorize) s (.created intent)
            (s.withRuntime (s.runtime.withIntent (runHash m intent) (operationHash m intent)
              intent))) := by
  have hids := ids_hashable hvalid
  have hfound := Runtime.inspectIntent_of_sound hsound hruns hids.1 hids.2
  have hready := Runtime.journalReady_of_sound hruns hsound
  have hinventory : Act.perform m env s .journalInventory =
      .ok (runs.entries.map fun e => (e.1, e.2.records.rows), s) := by
    simp only [Act.perform, require_of hready, hruns, ofOption, ok_bind]
    rfl
  have hrecords : (runs.entries.map fun e => (e.1, e.2.records.rows)).flatMap Prod.snd =
      s.runtime.intents := by
    rw [List.flatMap_map, Runtime.intents, hruns]
    rfl
  cases hlookup : (Runtime.dirIn runs (runHash m intent)).records.lookup
      (operationHash m intent) with
  | some previous =>
    rw [hlookup] at hfound
    refine .inl ⟨previous, hfound, ?_⟩
    refine (completes_act hfault hinventory).bind ((completes_look hfault).bind ?_)
    rw [show Look.see m s (.inspectIntent intent.request.binding.runId
      intent.request.operationId) = _ from hfound]
    dsimp only [Option.elim_some]
    split <;> exact completes_ret
  | none =>
    rw [hlookup] at hfound
    refine .inr ⟨hfound, ?_⟩
    by_cases hfull : s.runtime.Full intent.request.binding.runId
    · refine .inl ⟨hfull, ?_⟩
      refine (completes_act hfault hinventory).bind ((completes_look hfault).bind ?_)
      rw [show Look.see m s (.inspectIntent intent.request.binding.runId
        intent.request.operationId) = _ from hfound]
      dsimp only [Option.elim_none]
      rw [hrecords, if_pos (hfull.elim .inl fun h => .inr (.inl h))]
      exact completes_ret
    · refine .inr ⟨hfull, ?_⟩
      have hroom := roomFor_of_not_full hruns hsound hfilled hinj hrun hfull
      refine (completes_act hfault hinventory).bind ((completes_look hfault).bind ?_)
      rw [show Look.see m s (.inspectIntent intent.request.binding.runId
        intent.request.operationId) = _ from hfound]
      dsimp only [Option.elim_none]
      rw [hrecords, if_neg]
      · exact completes_publishIntent hfault hgrant hruns hsound hvalid hrun hroom hlookup
      · rintro (h | h | ⟨hnone, h⟩)
        · exact hfull (.inl h)
        · exact hfull (.inr h)
        · rw [List.length_map] at h
          exact absurd ((Runtime.length_le_intents hruns hfilled).trans' h) fun h => hfull (.inr h)

theorem completes_createOpened (hfault : env.fault = none)
    (hgrant : ∀ s, Completes m env authorize s () s) (hinj : Set.InjOn m.digests.id runIds)
    (hs : s.runtime.Journalled m.digests runIds) (hvalid : intent.valid m.digests)
    (hrun : intent.request.binding.runId ∈ runIds) :
    ∃ reply r, CreateAnswered m intent s.runtime reply r ∧
      Completes m env (createOpened m intent authorize) s reply (s.withRuntime r) := by
  have hmade := Runtime.journal_makeJournal (r := s.runtime)
  obtain ⟨hsound, hfilled⟩ := Runtime.journalled_makeJournal hs _ hmade
  have opened : ∀ {reply t}, Completes m env (createLocked m env.name intent authorize)
      (s.withRuntime s.runtime.makeJournal) reply t →
        Completes m env (createOpened m intent authorize) s reply t := by
    intro reply t h
    refine (completes_act hfault rfl).bind ((completes_act hfault rfl).bind ?_)
    refine Completes.bind (Completes.succeeds (completes_act hfault rfl)) ?_
    rw [if_neg (not_not.mpr rfl)]
    exact h
  rcases completes_createLocked (s := s.withRuntime s.runtime.makeJournal) hfault env.name
    hgrant hinj hmade hsound hfilled hvalid hrun with
    ⟨previous, hfound, hcompletes⟩ | ⟨habsent, ⟨hfull, hcompletes⟩ | ⟨hroom, hcompletes⟩⟩
  · rw [Runtime.inspectIntent_makeJournal] at hfound
    by_cases hsame : previous.fingerprint = intent.fingerprint
    · rw [if_pos hsame] at hcompletes
      exact ⟨_, _, .existing hfound hsame, opened hcompletes⟩
    · rw [if_neg hsame] at hcompletes
      exact ⟨_, _, .conflict hfound hsame, opened hcompletes⟩
  · rw [Runtime.inspectIntent_makeJournal] at habsent
    exact ⟨_, _, .full habsent hfull, opened hcompletes⟩
  · rw [Runtime.inspectIntent_makeJournal] at habsent
    exact ⟨_, _, .created habsent hroom, opened hcompletes⟩

theorem completes_createIntent (hfault : env.fault = none)
    (hgrant : ∀ s, Completes m env authorize s () s) (hinj : Set.InjOn m.digests.id runIds)
    (hs : s.runtime.Journalled m.digests runIds) (hvalid : intent.valid m.digests)
    (hrun : intent.request.binding.runId ∈ runIds) :
    ∃ reply r, CreateAnswered m intent s.runtime reply r ∧
      Completes m env (createIntent m intent authorize) s reply (s.withRuntime r) := by
  obtain ⟨reply, r, hanswered, hcompletes⟩ :=
    completes_createOpened hfault hgrant hinj hs hvalid hrun
  refine ⟨reply, r, hanswered, ?_⟩
  rw [createIntent, if_neg (not_not.mpr hvalid)]
  refine (hgrant s).succeeds.bind ?_
  rw [if_neg (not_not.mpr rfl)]
  exact hcompletes.catching

theorem completes_createIntent_invalid (hinvalid : ¬ intent.valid m.digests) :
    Completes m env (createIntent m intent authorize) s (.refused "journal_invalid_intent") s := by
  rw [createIntent, if_pos hinvalid]
  exact completes_ret

/-! ### What a call keeps -/

theorem lookup_eq_none_of_absent {r : Runtime} (hruns : r.journal = some runs)
    (hsound : JournalSound m.digests runIds runs) (hvalid : intent.valid m.digests)
    (habsent : r.inspectIntent m.digests intent.request.binding.runId intent.request.operationId =
      .absent) :
    (Runtime.dirIn runs (runHash m intent)).records.lookup (operationHash m intent) = none := by
  have hids := ids_hashable hvalid
  rw [Runtime.inspectIntent_of_sound hsound hruns hids.1 hids.2] at habsent
  cases hlookup : (Runtime.dirIn runs (runHash m intent)).records.lookup
      (operationHash m intent) with
  | none => rfl
  | some previous =>
    rw [hlookup] at habsent
    cases habsent

theorem CreateAnswered.journalled {r r' : Runtime} {reply : JournalReply}
    (h : CreateAnswered m intent r reply r') (hinj : Set.InjOn m.digests.id runIds)
    (hr : r.Journalled m.digests runIds) (hvalid : intent.valid m.digests)
    (hrun : intent.request.binding.runId ∈ runIds) : r'.Journalled m.digests runIds := by
  have hmade := Runtime.journalled_makeJournal hr
  cases h with
  | existing | conflict | full => exact hmade
  | created habsent hroom =>
    have hruns := Runtime.journal_makeJournal (r := r)
    obtain ⟨hsound, hfilled⟩ := hmade _ hruns
    have hfree := lookup_eq_none_of_absent hruns hsound hvalid
      (Runtime.inspectIntent_makeJournal.trans habsent)
    intro runs' hruns'
    rw [Runtime.journal_withIntent hruns, Option.some.injEq] at hruns'
    rw [← hruns']
    constructor
    · exact Runtime.journalSound_withIntent hsound
        (roomFor_of_not_full hruns hsound hfilled hinj hrun hroom) hfree hvalid hrun
    · exact Runtime.filled_withIntent hfilled

theorem CreateAnswered.keepsIntents {r r' : Runtime} {reply : JournalReply}
    (h : CreateAnswered m intent r reply r') (hr : r.Journalled m.digests runIds)
    (hvalid : intent.valid m.digests) : Runtime.KeepsIntents m.digests r r' := by
  have hkept : Runtime.KeepsIntents m.digests r r.makeJournal := Runtime.keepsIntents_makeJournal
  cases h with
  | existing | conflict | full => exact hkept
  | created habsent hroom =>
    have hruns := Runtime.journal_makeJournal (r := r)
    obtain ⟨hsound, -⟩ := Runtime.journalled_makeJournal hr _ hruns
    have hfree := lookup_eq_none_of_absent hruns hsound hvalid
      (Runtime.inspectIntent_makeJournal.trans habsent)
    intro runId operationId found hrecorded
    exact Runtime.keepsIntents_withIntent hruns hfree runId operationId found
      (hkept runId operationId found hrecorded)

theorem recorded_of_created {r : Runtime} (hinj : Set.InjOn m.digests.id runIds)
    (hr : r.Journalled m.digests runIds) (hvalid : intent.valid m.digests)
    (hrun : intent.request.binding.runId ∈ runIds)
    (habsent : r.inspectIntent m.digests intent.request.binding.runId intent.request.operationId =
      .absent) (hroom : ¬ r.Full intent.request.binding.runId) :
    (r.makeJournal.withIntent (runHash m intent) (operationHash m intent) intent).inspectIntent
      m.digests intent.request.binding.runId intent.request.operationId = .recorded intent := by
  have hjournal := @Runtime.journal_withIntent r.makeJournal (runHash m intent)
    (operationHash m intent) _ intent Runtime.journal_makeJournal
  have hafter := (CreateAnswered.created habsent hroom).journalled hinj hr hvalid hrun _ hjournal
  have hids := ids_hashable hvalid
  rw [Runtime.inspectIntent_of_sound hafter.1 hjournal hids.1 hids.2,
    Runtime.lookup_withIntent Runtime.journal_makeJournal hjournal]
  rfl

end Call

/-! ### Calls one after another -/

/-- A call of `create`, with what the environment chooses in it. -/
structure CreateCall where
  intent : IntentRecord
  authorize : Routine Unit
  env : Env

namespace CreateCall

def run (m : Machine) (call : CreateCall) (s : State) : Except Exn JournalReply × State :=
  (createIntent m call.intent call.authorize).runAll (bridgeSemantics m) call.env s

/-- Nothing fails in the call and its authority is live. -/
structure Granted (m : Machine) (call : CreateCall) : Prop where
  fault_eq : call.env.fault = none
  authorize : ∀ s, Completes m call.env call.authorize s () s

end CreateCall

def createAll (m : Machine) (calls : List CreateCall) (s : State) : State :=
  calls.foldl (fun s call => (call.run m s).2) s

section Calls

variable {m : Machine} {runIds : Set RunId} {s : State} {call : CreateCall}
  {calls later : List CreateCall}

theorem CreateCall.Granted.step (h : call.Granted m) (hinj : Set.InjOn m.digests.id runIds)
    (hs : s.runtime.Journalled m.digests runIds)
    (hrun : call.intent.request.binding.runId ∈ runIds) :
    (call.run m s).2.runtime.Journalled m.digests runIds ∧
      Runtime.KeepsIntents m.digests s.runtime (call.run m s).2.runtime := by
  by_cases hvalid : call.intent.valid m.digests
  · obtain ⟨reply, r, hanswered, hcompletes⟩ :=
      completes_createIntent h.fault_eq h.authorize hinj hs hvalid hrun
    rw [CreateCall.run, show Prog.runAll _ _ _ _ = _ from hcompletes]
    exact ⟨hanswered.journalled hinj hs hvalid hrun, hanswered.keepsIntents hs hvalid⟩
  · have hcompletes :=
      @completes_createIntent_invalid m call.env s call.intent call.authorize hvalid
    rw [CreateCall.run, show Prog.runAll _ _ _ _ = _ from hcompletes]
    exact ⟨hs, fun _ _ _ h => h⟩

theorem createAll_keeps (hinj : Set.InjOn m.digests.id runIds)
    (hs : s.runtime.Journalled m.digests runIds)
    (hcalls : ∀ call ∈ calls, call.Granted m ∧ call.intent.request.binding.runId ∈ runIds) :
    (createAll m calls s).runtime.Journalled m.digests runIds ∧
      Runtime.KeepsIntents m.digests s.runtime (createAll m calls s).runtime := by
  induction calls generalizing s with
  | nil => exact ⟨hs, fun _ _ _ h => h⟩
  | cons call calls ih =>
    rw [List.forall_mem_cons] at hcalls
    obtain ⟨⟨hgranted, hrun⟩, hrest⟩ := hcalls
    obtain ⟨hnext, hkept⟩ := hgranted.step hinj hs hrun
    obtain ⟨hlast, hkept'⟩ := ih hnext hrest
    exact ⟨hlast, fun runId operationId intent h =>
      hkept' runId operationId intent (hkept runId operationId intent h)⟩

/-- In every sequence of calls that create intents, whatever has been stored for an identifier
stays; a call for it answers that it exists if the fingerprints are equal and reports a conflict
otherwise, also if there is no room for another, and a call for another identifier stores its intent
unless there is no room; and no run, nor all runs together, has more intents than it may have. -/
theorem intents_createdOnce (hinj : Set.InjOn m.digests.id runIds)
    (hstart : s.runtime.journal = none)
    (hcalls : ∀ c ∈ calls ++ call :: later,
      c.Granted m ∧ c.intent.request.binding.runId ∈ runIds) :
    let before := createAll m calls s
    let after := (call.run m before).2
    let runId := call.intent.request.binding.runId
    let operationId := call.intent.request.operationId
    (∀ r o stored, before.runtime.inspectIntent m.digests r o = .recorded stored →
      (createAll m later after).runtime.inspectIntent m.digests r o = .recorded stored) ∧
    (call.intent.valid m.digests →
      match before.runtime.inspectIntent m.digests runId operationId with
      | .recorded previous => (call.run m before).1 =
          .ok (if previous.fingerprint = call.intent.fingerprint then .existing previous
            else .conflict "journal_operation_conflict")
      | .absent => before.runtime.Full runId ∧
            (call.run m before).1 = .ok (.refused "journal_capacity_exceeded") ∨
          ¬ before.runtime.Full runId ∧ (call.run m before).1 = .ok (.created call.intent) ∧
            after.runtime.inspectIntent m.digests runId operationId = .recorded call.intent
      | .unknown => False) ∧
    before.runtime.intents.length ≤ maxOperations ∧ ∀ r,
      before.runtime.intents.countP (fun intent => intent.request.binding.runId = r) ≤
        maxOperationsPerRun := by
  intro before after runId operationId
  have hbefore : ∀ c ∈ calls, c.Granted m ∧ c.intent.request.binding.runId ∈ runIds :=
    fun c hc => hcalls c (List.mem_append_left _ hc)
  have hlater : ∀ c ∈ later, c.Granted m ∧ c.intent.request.binding.runId ∈ runIds :=
    fun c hc => hcalls c (List.mem_append_right _ (List.mem_cons_of_mem _ hc))
  obtain ⟨hgranted, hrun⟩ := hcalls call (List.mem_append_right _ List.mem_cons_self)
  have hempty : s.runtime.Journalled m.digests runIds := by
    intro runs hruns
    rw [hstart] at hruns
    cases hruns
  obtain ⟨hjournalled, -⟩ := createAll_keeps hinj hempty hbefore
  obtain ⟨hnext, hkept⟩ := hgranted.step hinj hjournalled hrun
  refine ⟨?_, ?_, hjournalled.bounds hinj⟩
  · intro r o stored hstored
    exact (createAll_keeps hinj hnext hlater).2 r o stored (hkept r o stored hstored)
  · intro hvalid
    obtain ⟨reply, r, hanswered, hcompletes⟩ :=
      completes_createIntent hgranted.fault_eq hgranted.authorize hinj hjournalled hvalid hrun
    have hcall : call.run m before = (.ok reply, before.withRuntime r) := hcompletes
    have hafter : after = before.withRuntime r := congrArg Prod.snd hcall
    rw [hcall, hafter]
    cases hanswered with
    | existing hfound hsame =>
      rw [show before.runtime.inspectIntent m.digests runId operationId = _ from hfound]
      dsimp only
      rw [if_pos hsame]
    | conflict hfound hother =>
      rw [show before.runtime.inspectIntent m.digests runId operationId = _ from hfound]
      dsimp only
      rw [if_neg hother]
    | full habsent hfull =>
      rw [show before.runtime.inspectIntent m.digests runId operationId = _ from habsent]
      exact .inl ⟨hfull, rfl⟩
    | created habsent hroom =>
      rw [show before.runtime.inspectIntent m.digests runId operationId = _ from habsent]
      exact .inr ⟨hroom, rfl, recorded_of_created hinj hjournalled hvalid hrun habsent hroom⟩

end Calls

namespace Scenario

def createCall (operationId : String) : CreateCall := ⟨intent operationId, .ret (), env⟩

theorem granted_createCall {operationId : String} : (createCall operationId).Granted machine where
  fault_eq := rfl
  authorize _ := completes_ret

def bare : State := ⟨ledger, [], {}, ∅, fun _ => ⟨(1, 1), [(1, 1)], (1, 1)⟩⟩

end Scenario

open OrchKit.Bridge.Scenario in
/-- The second of two equal calls finds the intent of the first. -/
theorem intents_createdOnce_again :
    ((createCall "o").run machine (createAll machine [createCall "o"] bare)).1 =
      .ok (.existing (intent "o")) := by
  have hcalls : ∀ c ∈ [createCall "o"] ++ createCall "o" :: [],
      c.Granted machine ∧ c.intent.request.binding.runId ∈ ({"r"} : Set RunId) := by
    intro c hc
    rw [List.singleton_append, List.mem_cons, List.mem_singleton, or_self] at hc
    rw [hc]
    exact ⟨granted_createCall, rfl⟩
  have hvalid : (createCall "o").intent.valid machine.digests := by decide
  have hfound : (createAll machine [createCall "o"] bare).runtime.inspectIntent machine.digests
      "r" "o" = .recorded (intent "o") := by
    decide
  have honce := (@intents_createdOnce machine _ bare (createCall "o") [createCall "o"] []
    (Set.injOn_singleton _ "r") rfl hcalls).2.1 hvalid
  rw [show (createCall "o").intent.request.binding.runId = "r" from rfl,
    show (createCall "o").intent.request.operationId = "o" from rfl, hfound] at honce
  exact honce

end OrchKit.Bridge
