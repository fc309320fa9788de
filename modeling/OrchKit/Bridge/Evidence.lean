import OrchKit.Bridge.Append

/-! # Reading the evidence

What each change of the runtime directory does to what is read of it. The evidence of one
operation is read from its own directory and from the journal alone, and the census of the
store is complete exactly if every directory in it can be read.
-/

namespace OrchKit.Bridge

open Except Program Table

/-! ### Lists of options -/

section MapM

variable {α β γ : Type} {f : α → Option β} {xs : List α} {ys : List β}

theorem mapM_cons_eq_some_iff {x : α} :
    (x :: xs).mapM f = some ys ↔ ∃ y ys', f x = some y ∧ xs.mapM f = some ys' ∧ ys = y :: ys' := by
  simp only [List.mapM_cons, Option.bind_eq_bind, Option.bind_eq_some_iff, Option.pure_def,
    Option.some.injEq]
  constructor
  · rintro ⟨y, hy, ys', hys, rfl⟩
    exact ⟨y, ys', hy, hys, rfl⟩
  · rintro ⟨y, ys', hy, hys, rfl⟩
    exact ⟨y, hy, ys', hys, rfl⟩

theorem exists_of_mapM (h : xs.mapM f = some ys) {x : α} (hx : x ∈ xs) :
    ∃ y ∈ ys, f x = some y := by
  induction xs generalizing ys with
  | nil => cases hx
  | cons x' xs ih =>
    obtain ⟨y, ys', hy, hys, rfl⟩ := mapM_cons_eq_some_iff.mp h
    rcases List.mem_cons.mp hx with rfl | hx
    · exact ⟨y, List.mem_cons_self, hy⟩
    · obtain ⟨z, hz, hfz⟩ := ih hys hx
      exact ⟨z, List.mem_cons_of_mem _ hz, hfz⟩

theorem mapM_isSome (h : ∀ x ∈ xs, (f x).isSome) : (xs.mapM f).isSome := by
  induction xs with
  | nil => rfl
  | cons x xs ih =>
    obtain ⟨y, hy⟩ := Option.isSome_iff_exists.mp (h x List.mem_cons_self)
    obtain ⟨ys', hys⟩ := Option.isSome_iff_exists.mp
      (ih fun x' hx' => h x' (List.mem_cons_of_mem _ hx'))
    rw [mapM_cons_eq_some_iff.mpr ⟨y, ys', hy, hys, rfl⟩]
    rfl

theorem map_eq_of_mapM {g : α → γ} {h : β → γ} (hg : ∀ x y, f x = some y → h y = g x)
    (hm : xs.mapM f = some ys) : ys.map h = xs.map g := by
  induction xs generalizing ys with
  | nil =>
    cases hm
    rfl
  | cons x xs ih =>
    obtain ⟨y, ys', hy, hys, rfl⟩ := mapM_cons_eq_some_iff.mp hm
    rw [List.map_cons, List.map_cons, hg x y hy, ih hys]

theorem length_of_mapM (hm : xs.mapM f = some ys) : ys.length = xs.length := by
  have h := map_eq_of_mapM (g := fun _ => ()) (h := fun _ => ()) (fun _ _ _ => rfl) hm
  simpa using congrArg List.length h

end MapM

theorem guard_eq_some_iff {p : Prop} [Decidable p] {u : Unit} :
    (guard p : Option Unit) = some u ↔ p := by
  by_cases h : p <;> simp [h, guard, failure]

theorem guard_bind_eq_some_iff {β : Type} {p : Prop} [Decidable p] {f : Unit → Option β} {b : β} :
    (guard p : Option Unit).bind f = some b ↔ p ∧ f () = some b := by
  simp only [Option.bind_eq_some_iff, guard_eq_some_iff]
  exact ⟨fun ⟨_, h⟩ => h, fun h => ⟨(), h⟩⟩

namespace Runtime

variable {digests : Digests} {uid : ℕ} {s t : Runtime} {rh oh : Digest} {runId : RunId}
  {operationId : String} {dir : OpDir} {chain : Chain} {f g : OpDir → OpDir}

/-! ### Directories -/

theorem opDir_eq_findOp :
    s.opDir digests runId operationId = s.findOp (digests.id runId) (digests.id operationId) := rfl

theorem findOp_eq_some_iff :
    s.findOp rh oh = some dir ↔ ∃ runs run, s.execution = some runs ∧ runs.lookup rh = some run ∧
      run.lookup oh = some dir := by
  simp only [findOp, Option.bind_eq_some_iff]
  constructor
  · rintro ⟨runs, hruns, run, hrun, hdir⟩
    exact ⟨runs, run, hruns, hrun, hdir⟩
  · rintro ⟨runs, run, hruns, hrun, hdir⟩
    exact ⟨runs, hruns, run, hrun, hdir⟩

@[simp] theorem journal_updateOp : (s.updateOp rh oh f).journal = s.journal := rfl

theorem findOp_updateOp {rh' oh' : Digest} :
    (s.updateOp rh oh f).findOp rh' oh' =
      if rh' = rh ∧ oh' = oh then (s.findOp rh' oh').map f else s.findOp rh' oh' := by
  simp only [findOp, updateOp, updateRun]
  rcases s.execution with _ | runs
  · simp
  simp only [Option.map_some, Option.bind_some, lookup_modify]
  by_cases hr : rh' = rh
  · rcases runs.lookup rh' with _ | run
    · simp
    · by_cases ho : oh' = oh <;> simp [hr, ho, lookup_modify]
  · simp [hr]

theorem findOp_updateOp_self : (s.updateOp rh oh f).findOp rh oh = (s.findOp rh oh).map f := by
  rw [findOp_updateOp, if_pos ⟨rfl, rfl⟩]

theorem updateOp_updateOp :
    (s.updateOp rh oh f).updateOp rh oh g = s.updateOp rh oh (g ∘ f) := by
  simp only [updateOp, updateRun, Option.map_map]
  congr 2
  funext runs
  simp only [Function.comp_apply, modify_modify]
  congr 1
  funext run
  exact modify_modify

theorem updateOp_eq_self (h : ∀ dir, s.findOp rh oh = some dir → f dir = dir) :
    s.updateOp rh oh f = s := by
  obtain ⟨journal, execution⟩ := s
  rcases execution with _ | runs
  · rfl
  · simp only [updateOp, updateRun, Option.map_some, Runtime.mk.injEq, Option.some.injEq, true_and]
    refine modify_eq_self fun run hrun => modify_eq_self fun dir hdir => h dir ?_
    exact findOp_eq_some_iff.mpr ⟨runs, run, rfl, hrun, hdir⟩

theorem updateOp_congr (h : ∀ dir, s.findOp rh oh = some dir → f dir = g dir) :
    s.updateOp rh oh f = s.updateOp rh oh g := by
  obtain ⟨journal, execution⟩ := s
  rcases execution with _ | runs
  · rfl
  · simp only [updateOp, updateRun, Option.map_some, Runtime.mk.injEq, Option.some.injEq, true_and]
    refine modify_congr fun run hrun => modify_congr fun dir hdir => h dir ?_
    exact findOp_eq_some_iff.mpr ⟨runs, run, rfl, hrun, hdir⟩

theorem unstage_stage {name : TempName} (hf : s.findOp rh oh = some dir) (hn : name ∉ dir.temps) :
    (s.stage rh oh name).unstage rh oh name = s := by
  rw [stage, unstage, updateOp_updateOp]
  refine updateOp_eq_self fun dir' hf' => ?_
  cases hf.symm.trans hf'
  simp only [Function.comp_apply, List.erase_append_right _ hn, List.erase_cons_head,
    List.append_nil]

/-- The directories are made down to that of an operation. -/
def room (s : Runtime) (rh oh : Digest) : Runtime :=
  (s.makeExecution.makeRun rh).makeOperation rh oh

@[simp] theorem journal_room : (s.room rh oh).journal = s.journal := rfl

theorem room_eq_self (h : s.findOp rh oh = some dir) : s.room rh oh = s := by
  obtain ⟨runs, run, hruns, hrun, hdir⟩ := findOp_eq_some_iff.mp h
  obtain ⟨journal, execution⟩ := s
  cases hruns
  simp only [room, makeExecution, makeRun, makeOperation, updateRun, Option.getD_some,
    Option.map_some, hrun, Option.isSome_some, if_true, Runtime.mk.injEq,
    Option.some.injEq, true_and]
  refine modify_eq_self fun run' hrun' => ?_
  cases hrun.symm.trans hrun'
  rw [hdir, Option.isSome_some, if_pos rfl]

theorem findOp_room {rh' oh' : Digest} :
    (s.room rh oh).findOp rh' oh' =
      if rh' = rh ∧ oh' = oh then some ((s.findOp rh oh).getD {}) else s.findOp rh' oh' := by
  obtain ⟨journal, execution⟩ := s
  have made : ∀ runs : Table Digest RunDir,
      (room ⟨journal, some runs⟩ rh oh).findOp rh' oh' =
        if rh' = rh ∧ oh' = oh then some ((findOp ⟨journal, some runs⟩ rh oh).getD {})
        else findOp ⟨journal, some runs⟩ rh' oh' := by
    intro runs
    have hrun : ((if (runs.lookup rh).isSome then runs else runs.put rh ∅).lookup rh') =
        if rh' = rh then some ((runs.lookup rh).getD ∅) else runs.lookup rh' := by
      rcases h : runs.lookup rh with _ | run
      · simp only [Option.isSome_none, Bool.false_eq_true, if_false, lookup_put, Option.getD_none]
      · simp only [Option.isSome_some, if_true, Option.getD_some]
        split
        next he => rw [he, h]
        next => rfl
    simp only [room, makeExecution, makeRun, makeOperation, updateRun, findOp, Option.getD_some,
      Option.map_some, Option.bind_some, lookup_modify, hrun]
    by_cases hr : rh' = rh
    · subst hr
      rcases runs.lookup rh' with _ | run
      · by_cases ho : oh' = oh <;>
          simp [ho, lookup_put, AList.lookup_empty]
      · by_cases ho : oh' = oh
        · subst ho
          rcases h : run.lookup oh' with _ | dir <;> simp [h, lookup_put]
        · rcases h : run.lookup oh with _ | dir <;> simp [ho, h, lookup_put]
    · simp [hr]
  rcases execution with _ | runs
  · exact made ∅
  · exact made runs

/-! ### Records -/

/-- The records of an operation, none if it has no directory. -/
def chainAt (s : Runtime) (rh oh : Digest) : Chain := ((s.findOp rh oh).map OpDir.chain).getD {}

theorem chainAt_of_findOp (h : s.findOp rh oh = some dir) : s.chainAt rh oh = dir.chain := by
  rw [chainAt, h]
  rfl

theorem chainAt_of_findOp_none (h : s.findOp rh oh = none) : s.chainAt rh oh = {} := by
  rw [chainAt, h]
  rfl

theorem readOperation_eq_some_iff :
    s.readOperation digests uid rh oh dir = some chain ↔ chain = dir.chain ∧ dir.temps = [] ∧
      ∃ dispatch intent, dir.chain.dispatch = some dispatch ∧
        digests.id dispatch.request.binding.runId = rh ∧
        digests.id dispatch.request.operationId = oh ∧
        s.inspectIntent digests dispatch.request.binding.runId dispatch.request.operationId =
          .recorded intent ∧ dir.chain.valid digests uid intent = true := by
  simp only [readOperation, Option.bind_eq_bind, guard_bind_eq_some_iff]
  rcases hd : dir.chain.dispatch with _ | dispatch
  · simp
  simp only [Option.bind_some, guard_bind_eq_some_iff, Option.some.injEq, Option.pure_def]
  constructor
  · rintro ⟨ht, ⟨hr, ho⟩, h⟩
    split at h
    next intent hi =>
      obtain ⟨hv, h⟩ := guard_bind_eq_some_iff.mp h
      exact ⟨(Option.some.inj h).symm, ht, dispatch, intent, rfl, hr, ho, hi, hv⟩
    next => cases h
  · rintro ⟨rfl, ht, _, intent, rfl, hr, ho, hi, hv⟩
    refine ⟨ht, ⟨hr, ho⟩, ?_⟩
    rw [hi]
    exact guard_bind_eq_some_iff.mpr ⟨hv, rfl⟩

theorem inspect_eq_absent (h : s.inspect digests uid runId operationId = .absent) :
    s.findOp (digests.id runId) (digests.id operationId) = none := by
  rw [inspect, opDir_eq_findOp] at h
  split at h
  · cases h
  · rcases hf : s.findOp (digests.id runId) (digests.id operationId) with _ | dir
    · rfl
    · simp only [hf] at h
      split at h <;> cases h

theorem inspect_eq_recorded_iff :
    s.inspect digests uid runId operationId = .recorded chain ↔
      (isHashable runId ∧ isHashable operationId) ∧ ∃ dir,
        s.findOp (digests.id runId) (digests.id operationId) = some dir ∧ dir.chain = chain ∧
          s.readOperation digests uid (digests.id runId) (digests.id operationId) dir =
            some dir.chain := by
  rw [inspect, opDir_eq_findOp]
  by_cases hh : ¬ isHashable runId ∨ ¬ isHashable operationId
  · rw [if_pos hh]
    constructor
    · rintro ⟨⟩
    · rintro ⟨⟨h₁, h₂⟩, -⟩
      exact (hh.elim (· h₁) (· h₂)).elim
  · rw [if_neg hh]
    rw [not_or, not_not, not_not] at hh
    rcases s.findOp (digests.id runId) (digests.id operationId) with _ | dir
    · simp
    · simp only [hh, Option.some.injEq, exists_eq_left', true_and, and_self]
      rcases hr : s.readOperation digests uid (digests.id runId) (digests.id operationId) dir
        with _ | chain'
      · simp
      · obtain ⟨rfl, -⟩ := readOperation_eq_some_iff.mp hr
        simp

/-! ### The census -/

/-- Every directory of the store can be read, and there are not too many of them. -/
structure Readable (digests : Digests) (uid : ℕ) (s : Runtime) (runs : Table Digest RunDir) :
    Prop where
  ne_nil : runs.entries ≠ []
  length_le : runs.entries.length ≤ maxOperations
  run : ∀ e ∈ runs.entries, isDigest e.1 ∧ e.2.entries ≠ [] ∧
    e.2.entries.length ≤ maxOperationsPerRun
  operation : ∀ e ∈ runs.entries, ∀ e' ∈ e.2.entries,
    isDigest e'.1 ∧ (s.readOperation digests uid e.1 e'.1 e'.2).isSome
  sum_le : (runs.entries.map fun e => e.2.entries.length).sum ≤ maxOperations

theorem readEntry_eq_some_iff {e : (_ : Digest) × OpDir} {operation : Operation} :
    s.readEntry digests uid rh e = some operation ↔ isDigest e.1 ∧
      s.readOperation digests uid rh e.1 e.2 = some e.2.chain ∧
      ∃ dispatch, e.2.chain.dispatch = some dispatch ∧
        operation = ⟨dispatch.request.binding.runId, dispatch.request.operationId, e.2.chain⟩ := by
  simp only [readEntry, Option.bind_eq_bind, Option.bind_eq_some_iff, guard_eq_some_iff,
    exists_const, Option.pure_def, Option.some.injEq]
  constructor
  · rintro ⟨hd, chain, hc, dispatch, hdis, rfl⟩
    obtain ⟨rfl, -⟩ := readOperation_eq_some_iff.mp hc
    exact ⟨hd, hc, dispatch, hdis, rfl⟩
  · rintro ⟨hd, hc, dispatch, hdis, rfl⟩
    exact ⟨hd, _, hc, dispatch, hdis, rfl⟩

theorem readRun_eq_some_iff {e : (_ : Digest) × RunDir} {operations : List Operation} :
    s.readRun digests uid e = some operations ↔
      (isDigest e.1 ∧ e.2.entries ≠ [] ∧ e.2.entries.length ≤ maxOperationsPerRun) ∧
        e.2.entries.mapM (s.readEntry digests uid e.1) = some operations := by
  rw [readRun, Option.bind_eq_bind, guard_bind_eq_some_iff]

theorem inventory_eq_some_iff {runs : Table Digest RunDir} {operations : List Operation} :
    s.inventory digests uid runs = some operations ↔
      (runs.entries ≠ [] ∧ runs.entries.length ≤ maxOperations) ∧
        ∃ found, runs.entries.mapM (s.readRun digests uid) = some found ∧
          found.flatten.length ≤ maxOperations ∧ found.flatten = operations := by
  simp only [inventory, Option.bind_eq_bind, Option.bind_eq_some_iff, guard_eq_some_iff,
    exists_const, Option.pure_def, Option.some.injEq]

theorem length_flatten {runs : Table Digest RunDir} {found : List (List Operation)}
    (h : runs.entries.mapM (s.readRun digests uid) = some found) :
    found.flatten.length = (runs.entries.map fun e => e.2.entries.length).sum := by
  rw [List.length_flatten]
  congr 1
  exact map_eq_of_mapM (fun e os he => length_of_mapM (readRun_eq_some_iff.mp he).2) h

theorem inventory_isSome_iff {runs : Table Digest RunDir} :
    (s.inventory digests uid runs).isSome ↔ Readable digests uid s runs := by
  constructor
  · intro h
    obtain ⟨operations, h⟩ := Option.isSome_iff_exists.mp h
    obtain ⟨⟨hne, hle⟩, found, hfound, hsum, -⟩ := inventory_eq_some_iff.mp h
    refine ⟨hne, hle, fun e he => ?_, fun e he e' he' => ?_, length_flatten hfound ▸ hsum⟩
    · obtain ⟨os, -, hos⟩ := exists_of_mapM hfound he
      exact (readRun_eq_some_iff.mp hos).1
    · obtain ⟨os, -, hos⟩ := exists_of_mapM hfound he
      obtain ⟨o, -, ho⟩ := exists_of_mapM (readRun_eq_some_iff.mp hos).2 he'
      obtain ⟨hd, hr, -⟩ := readEntry_eq_some_iff.mp ho
      exact ⟨hd, by rw [hr]; rfl⟩
  · intro h
    have hrun : (runs.entries.mapM (s.readRun digests uid)).isSome := by
      refine mapM_isSome fun e he => ?_
      have hop : (e.2.entries.mapM (s.readEntry digests uid e.1)).isSome := by
        refine mapM_isSome fun e' he' => ?_
        obtain ⟨hd, hr⟩ := h.operation e he e' he'
        obtain ⟨chain, hchain⟩ := Option.isSome_iff_exists.mp hr
        obtain ⟨rfl, -, dispatch, -, hdis, -⟩ := readOperation_eq_some_iff.mp hchain
        rw [readEntry_eq_some_iff.mpr ⟨hd, hchain, dispatch, hdis, rfl⟩]
        rfl
      obtain ⟨os, hos⟩ := Option.isSome_iff_exists.mp hop
      rw [readRun_eq_some_iff.mpr ⟨h.run e he, hos⟩]
      rfl
    obtain ⟨found, hfound⟩ := Option.isSome_iff_exists.mp hrun
    rw [inventory_eq_some_iff.mpr ⟨⟨h.ne_nil, h.length_le⟩, found, hfound,
      length_flatten hfound ▸ h.sum_le, rfl⟩]
    rfl

/-- The store stays readable when a directory is replaced by another that can be read. -/
theorem Readable.updateOp {runs : Table Digest RunDir} (h : Readable digests uid s runs)
    (hs : s.execution = some runs)
    (hf : ∀ dir, s.findOp rh oh = some dir → (s.readOperation digests uid rh oh (f dir)).isSome) :
    ∃ runs', (s.updateOp rh oh f).execution = some runs' ∧
      Readable digests uid (s.updateOp rh oh f) runs' := by
  refine ⟨runs.modify rh fun run => run.modify oh f, ?_, ?_⟩
  · rw [Runtime.updateOp, updateRun, hs]
    rfl
  -- the entries are the old ones, with the same keys and the same numbers of entries
  have hrun : ∀ e ∈ (runs.modify rh fun run => run.modify oh f).entries, ∃ e₀ ∈ runs.entries,
      e.1 = e₀.1 ∧ e.2 = if e₀.1 = rh then e₀.2.modify oh f else e₀.2 := by
    intro e he
    obtain ⟨e₀, he₀, rfl⟩ := List.mem_map.mp he
    exact ⟨e₀, he₀, rfl, rfl⟩
  have hlength : ∀ run : RunDir, ((run.modify oh f).entries).length = run.entries.length :=
    fun run => List.length_map _
  refine ⟨?_, ?_, ?_, ?_, ?_⟩
  · exact fun hn => h.ne_nil (List.map_eq_nil_iff.mp hn)
  · exact (List.length_map _).trans_le h.length_le
  · intro e he
    obtain ⟨e₀, he₀, hk, hv⟩ := hrun e he
    obtain ⟨hd, hne, hle⟩ := h.run e₀ he₀
    rw [hk, hv]
    split
    · exact ⟨hd, fun hn => hne (List.map_eq_nil_iff.mp hn), (hlength _).trans_le hle⟩
    · exact ⟨hd, hne, hle⟩
  · intro e he e' he'
    obtain ⟨e₀, he₀, hk, hv⟩ := hrun e he
    rw [hk]
    rw [hv] at he'
    split at he'
    next hr =>
      obtain ⟨e₁, he₁, rfl⟩ := List.mem_map.mp he'
      obtain ⟨hd, hsome⟩ := h.operation e₀ he₀ e₁ he₁
      refine ⟨hd, ?_⟩
      dsimp only
      split
      next ho =>
        rw [hr, ho]
        refine hf e₁.2 (findOp_eq_some_iff.mpr ⟨runs, e₀.2, hs, ?_, ?_⟩)
        · exact hr ▸ AList.mem_lookup_iff.mpr he₀
        · exact ho ▸ AList.mem_lookup_iff.mpr he₁
      next => exact hsome
    next => exact h.operation e₀ he₀ e' he'
  · refine (congrArg List.sum ?_).trans_le h.sum_le
    simp only [Table.modify, List.map_map]
    refine List.map_congr_left fun e _ => ?_
    simp only [Function.comp_apply]
    split
    · exact hlength _
    · rfl

theorem census_eq_unknown_iff :
    s.census digests uid = .unknown ↔ ∃ runs, s.execution = some runs ∧
      ¬ Readable digests uid s runs := by
  rw [census]
  rcases s.execution with _ | runs
  · simp
  · simp only [Option.some.injEq, exists_eq_left', ← inventory_isSome_iff]
    rcases s.inventory digests uid runs with _ | operations <;> simp

theorem census_eq_ready_iff {operations : List Operation} :
    s.census digests uid = .ready operations ↔
      ∃ runs, s.execution = some runs ∧ s.inventory digests uid runs = some operations := by
  rw [census]
  rcases s.execution with _ | runs
  · simp
  · simp only [Option.some.injEq, exists_eq_left']
    rcases s.inventory digests uid runs with _ | operations <;> simp

theorem census_eq_absent_iff : s.census digests uid = .absent ↔ s.execution = none := by
  rw [census]
  rcases s.execution with _ | runs
  · simp
  · rcases h : s.inventory digests uid runs with _ | operations <;> simp [h]

theorem mem_of_census_ready {operations : List Operation}
    (h : s.census digests uid = .ready operations) (hf : s.findOp rh oh = some dir) :
    s.readOperation digests uid rh oh dir = some dir.chain ∧
      ∃ dispatch, dir.chain.dispatch = some dispatch ∧
        ⟨dispatch.request.binding.runId, dispatch.request.operationId, dir.chain⟩ ∈ operations := by
  obtain ⟨runs, run, hruns, hrun, hdir⟩ := findOp_eq_some_iff.mp hf
  obtain ⟨runs', hruns', hinv⟩ := census_eq_ready_iff.mp h
  cases hruns.symm.trans hruns'
  obtain ⟨-, found, hfound, -, rfl⟩ := inventory_eq_some_iff.mp hinv
  obtain ⟨os, hos, hread⟩ := exists_of_mapM hfound (AList.mem_lookup_iff.mp hrun)
  obtain ⟨o, ho, he⟩ := exists_of_mapM (readRun_eq_some_iff.mp hread).2
    (AList.mem_lookup_iff.mp hdir)
  obtain ⟨-, hr, dispatch, hdis, rfl⟩ := readEntry_eq_some_iff.mp he
  exact ⟨hr, dispatch, hdis, List.mem_flatten.mpr ⟨os, hos, ho⟩⟩

theorem census_of_bare (hf : s.findOp rh oh = some dir) (hd : dir.chain.dispatch = none) :
    s.census digests uid = .unknown := by
  rcases hc : s.census digests uid with _ | operations | _
  · obtain ⟨runs, -, hruns, -⟩ := findOp_eq_some_iff.mp hf
    rw [census_eq_absent_iff.mp hc] at hruns
    cases hruns
  · obtain ⟨-, dispatch, hdis, -⟩ := mem_of_census_ready hc hf
    rw [hd] at hdis
    cases hdis
  · rfl

theorem readOperation_of_census (hc : s.census digests uid ≠ .unknown)
    (hf : s.findOp rh oh = some dir) : s.readOperation digests uid rh oh dir = some dir.chain ∧
      ∃ dispatch, dir.chain.dispatch = some dispatch := by
  rcases h : s.census digests uid with _ | operations | _
  · obtain ⟨runs, -, hruns, -⟩ := findOp_eq_some_iff.mp hf
    rw [census_eq_absent_iff.mp h] at hruns
    cases hruns
  · obtain ⟨hread, dispatch, hd, -⟩ := mem_of_census_ready h hf
    exact ⟨hread, dispatch, hd⟩
  · exact absurd h hc

/-! ### The journal -/

theorem inspectIntent_eq_recorded_iff {intent : IntentRecord} :
    s.inspectIntent digests runId operationId = .recorded intent ↔
      (isHashable runId ∧ isHashable operationId) ∧ ∃ dir, s.intentDir digests runId = some dir ∧
        dir.records.lookup (digests.id operationId) = some intent ∧
        (dir.temps.all (fun t => t.2 ≠ some (digests.id operationId)) ∧ intent.valid digests ∧
          digests.id intent.request.binding.runId = digests.id runId ∧
          digests.id intent.request.operationId = digests.id operationId) := by
  rw [inspectIntent]
  by_cases hh : ¬ isHashable runId ∨ ¬ isHashable operationId
  · rw [if_pos hh]
    constructor
    · rintro ⟨⟩
    · rintro ⟨⟨h₁, h₂⟩, -⟩
      exact (hh.elim (· h₁) (· h₂)).elim
  · rw [if_neg hh]
    rw [not_or, not_not, not_not] at hh
    rcases s.intentDir digests runId with _ | dir
    · simp
    · rcases hr : dir.records.lookup (digests.id operationId) with _ | intent'
      · simp [hr]
      · simp only [hh, and_self, true_and, Option.some.injEq, exists_eq_left', hr]
        split
        next h =>
          simp only [Found.recorded.injEq]
          constructor
          · rintro rfl
            exact ⟨rfl, h⟩
          · exact fun h => h.1
        next h =>
          constructor
          · rintro ⟨⟩
          · rintro ⟨rfl, h'⟩
            exact absurd h' h

def KeepsIntents (digests : Digests) (s t : Runtime) : Prop :=
  ∀ runId operationId intent, s.inspectIntent digests runId operationId = .recorded intent →
    t.inspectIntent digests runId operationId = .recorded intent

theorem inspectIntent_congr (h : t.journal = s.journal) (runId : RunId) (operationId : String) :
    t.inspectIntent digests runId operationId = s.inspectIntent digests runId operationId := by
  rw [inspectIntent, inspectIntent, intentDir, intentDir, h]

theorem keepsIntents_of_journal (h : t.journal = s.journal) : KeepsIntents digests s t :=
  fun _ _ _ hi => (inspectIntent_congr h _ _).trans hi

theorem keepsIntents_of (h : ∀ runId dir, s.intentDir digests runId = some dir →
    ∃ dir', t.intentDir digests runId = some dir' ∧ ∀ oh intent,
      dir.records.lookup oh = some intent → dir'.records.lookup oh = some intent ∧
        ((∀ e ∈ dir.temps, e.2 ≠ some oh) → ∀ e ∈ dir'.temps, e.2 ≠ some oh)) :
    KeepsIntents digests s t := by
  intro runId operationId intent hi
  obtain ⟨hh, dir, hdir, hrecord, htemps, hvalid⟩ := inspectIntent_eq_recorded_iff.mp hi
  obtain ⟨dir', hdir', hkept⟩ := h runId dir hdir
  obtain ⟨hrecord', htemps'⟩ := hkept _ _ hrecord
  refine inspectIntent_eq_recorded_iff.mpr ⟨hh, dir', hdir', hrecord', ?_, hvalid⟩
  simp only [List.all_eq_true, decide_eq_true_eq] at htemps ⊢
  exact htemps' htemps

theorem keepsIntents_makeJournal : KeepsIntents digests s s.makeJournal := by
  refine keepsIntents_of fun runId dir hdir => ⟨dir, ?_, fun _ _ h => ⟨h, id⟩⟩
  obtain ⟨journal, execution⟩ := s
  cases journal with
  | none => cases hdir
  | some runs => exact hdir

theorem keepsIntents_makeIntentRun : KeepsIntents digests s (s.makeIntentRun rh) := by
  refine keepsIntents_of fun runId dir hdir => ⟨dir, ?_, fun _ _ h => ⟨h, id⟩⟩
  obtain ⟨journal, execution⟩ := s
  cases journal with
  | none => cases hdir
  | some runs =>
    simp only [intentDir, makeIntentRun, Option.map_some, Option.bind_some] at hdir ⊢
    split
    · exact hdir
    next h =>
      rw [lookup_put]
      split
      next he =>
        rw [he] at hdir
        rw [hdir] at h
        exact absurd rfl h
      next => exact hdir

theorem keepsIntents_updateIntents {f : IntentDir → IntentDir}
    (h : ∀ dir, s.journal.bind (·.lookup rh) = some dir → ∀ oh intent,
      dir.records.lookup oh = some intent → (f dir).records.lookup oh = some intent ∧
        ((∀ e ∈ dir.temps, e.2 ≠ some oh) → ∀ e ∈ (f dir).temps, e.2 ≠ some oh)) :
    KeepsIntents digests s (s.updateIntents rh f) := by
  refine keepsIntents_of fun runId dir hdir => ?_
  by_cases hr : digests.id runId = rh
  · refine ⟨f dir, ?_, fun oh intent => h dir ?_ oh intent⟩
    · obtain ⟨journal, execution⟩ := s
      cases journal with
      | none => cases hdir
      | some runs =>
        simp only [intentDir, updateIntents, Option.map_some, Option.bind_some] at hdir ⊢
        rw [lookup_modify, if_pos hr, hdir]
        rfl
    · rw [← hr]
      exact hdir
  · refine ⟨dir, ?_, fun _ _ h => ⟨h, id⟩⟩
    obtain ⟨journal, execution⟩ := s
    cases journal with
    | none => cases hdir
    | some runs =>
      simp only [intentDir, updateIntents, Option.map_some, Option.bind_some] at hdir ⊢
      rw [lookup_modify, if_neg hr, hdir]

theorem keepsIntents_stageIntent {name : TempName} :
    KeepsIntents digests s (s.stageIntent rh name) := by
  refine keepsIntents_updateIntents fun dir _ oh intent hr => ⟨hr, fun ht e he => ?_⟩
  rcases List.mem_append.mp he with he | he
  · exact ht e he
  · cases List.mem_singleton.mp he
    simp

theorem keepsIntents_unstageIntent {name : TempName} :
    KeepsIntents digests s (s.unstageIntent rh name) := by
  refine keepsIntents_updateIntents fun dir _ oh intent hr => ⟨hr, fun ht e he => ?_⟩
  exact ht e (List.mem_filter.mp he).1

theorem keepsIntents_linkIntent {name : TempName} {intent : IntentRecord}
    (hfree : ∀ dir, s.journal.bind (·.lookup rh) = some dir → dir.records.lookup oh = none) :
    KeepsIntents digests s (s.linkIntent rh oh name intent) := by
  refine keepsIntents_updateIntents fun dir hdir oh' intent' hr => ?_
  have hne : oh' ≠ oh := by
    rintro rfl
    rw [hfree dir hdir] at hr
    cases hr
  refine ⟨?_, fun ht e he => ?_⟩
  · rw [lookup_put, if_neg hne, hr]
  · obtain ⟨e', he', rfl⟩ := List.mem_map.mp he
    split
    · simpa using Ne.symm hne
    · exact ht e' he'

end Runtime

end OrchKit.Bridge
