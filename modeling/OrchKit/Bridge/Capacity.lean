import OrchKit.Bridge.Chains
import OrchKit.Bridge.Closing
import OrchKit.Bridge.Refusal
import OrchKit.Bridge.Steps
import OrchKit.Lifecycle.Exclusion

/-! # The capacity of the process ledger

Stores that share a home dispatch processes and observe their exits while commands move and
close the runs. The invariant counts rows: what is not resolved stays under the limits, a run
has no more rows than it has dispatches, exits and closings, and the reader accepts them all.
-/

namespace OrchKit.Bridge

open Except Program ProcessChains

/-! ### Counting by key -/

theorem sum_indicator {κ : Type} [DecidableEq κ] (a : κ) (n : ℕ) (ks : List κ) :
    (ks.map fun k => if a = k then n else 0).sum = ks.count a * n := by
  induction ks with
  | nil => simp
  | cons k ks ih =>
    rw [List.map_cons, List.sum_cons, ih, List.count_cons]
    by_cases h : a = k
    · simp [h, Nat.add_mul, Nat.add_comm]
    · simp [h, Ne.symm h]

/-- Counted key by key, nothing is left out and nothing is counted twice. -/
theorem sum_countP_filter {α κ : Type} [DecidableEq κ] (key : α → κ) (p : α → Bool) {ks : List κ}
    (hks : ks.Nodup) {l : List α} (h : ∀ a ∈ l, key a ∈ ks) :
    (ks.map fun k => (l.filter fun a => key a = k).countP p).sum = l.countP p := by
  induction l with
  | nil => simp
  | cons a l ih =>
    have hcount : ks.count (key a) = 1 := List.count_eq_one_of_mem hks (h a List.mem_cons_self)
    have hsplit : ∀ k, ((a :: l).filter fun b => key b = k).countP p =
        (l.filter fun b => key b = k).countP p +
          if key a = k then (if p a then 1 else 0) else 0 := by
      intro k
      rw [List.filter_cons]
      by_cases hk : key a = k
      · simp [hk, List.countP_cons]
      · simp [hk]
    simp only [hsplit, List.sum_map_add, sum_indicator, hcount, Nat.one_mul, List.countP_cons]
    rw [ih fun b hb => h b (List.mem_cons_of_mem _ hb)]

theorem foldlM_sum {α : Type} {ε : Type} {step : ℕ → α → Except ε ℕ} {f : α → ℕ} {l : List α}
    (h : ∀ n, ∀ a ∈ l, step n a = .ok (n + f a)) (n : ℕ) :
    l.foldlM step n = .ok (n + (l.map f).sum) := by
  induction l generalizing n with
  | nil => rfl
  | cons a l ih =>
    rw [List.foldlM_cons, h n a List.mem_cons_self, ok_bind,
      ih fun n b hb => h n b (List.mem_cons_of_mem _ hb), List.map_cons, List.sum_cons,
      Nat.add_assoc]

/-! ### The invariant -/

section Invariant

variable {m : Machine} {s s' : State} {env : Env} {runId : RunId} {L L' : Ledger}
  {rows : List ProcessRow} {dispatch : ProcessDispatch} {exit : ProcessExit} {seq : ℕ}

/-- The rows of a run are read under the binding the ledger has for it, its unresolved processes
are within their limit, and it has been closed no more often than its state says. -/
def RunSound (m : Machine) (L : Ledger) (rows : List ProcessRow) (runId : RunId) : Prop :=
  ∃ run task binding c, joined L runId = some (run, task) ∧
    ledgerBinding runId run task = some binding ∧ binding.valid ∧
    Reads m.processHash binding (rowsOf runId rows) c ∧
    c.intents.length ≤ c.terminals.length + m.maxProcessesPerRun ∧
    closureCount (rowsOf runId rows) + closings run.state ≤ 3

/-- What all stores and commands keep of the process rows. -/
structure RowsSound (m : Machine) (L : Ledger) (rows : List ProcessRow) : Prop where
  seqs : (rows.map ProcessRow.seq).Nodup
  runs : ∀ row ∈ rows, RunSound m L rows row.event.binding.runId
  total : dispatchCount rows ≤ exitCount rows + m.maxProcessesTotal

theorem joined_eq_some_iff {run : Run} {task : Task} : joined L runId = some (run, task) ↔
    L.runs.lookup runId = some run ∧ L.tasks.lookup run.taskId = some task := by
  simp only [joined, Option.bind_eq_some_iff, Option.map_eq_some_iff, Prod.mk.injEq]
  constructor
  · rintro ⟨run, hr, task, ht, rfl, rfl⟩
    exact ⟨hr, ht⟩
  · rintro ⟨hr, ht⟩
    exact ⟨run, hr, task, ht, rfl, rfl⟩

theorem joined_kept (hk : ClosingsKept L L') (ht : Ledger.TasksKept L L') {run : Run} {task : Task}
    (h : joined L runId = some (run, task)) : ∃ run' task', joined L' runId = some (run', task') ∧
      ledgerBinding runId run' task' = ledgerBinding runId run task ∧
      closings run'.state ≤ closings run.state := by
  obtain ⟨hr, htask⟩ := joined_eq_some_iff.mp h
  obtain ⟨run', hr', hid, hattempt, hle⟩ := hk _ _ hr
  obtain ⟨task', htask', hpayload⟩ := ht _ _ htask
  refine ⟨run', task', joined_eq_some_iff.mpr ⟨hr', hid ▸ htask'⟩, ?_, hle⟩
  rw [ledgerBinding, ledgerBinding, hpayload, hid, hattempt]

theorem RunSound.kept (hk : ClosingsKept L L') (ht : Ledger.TasksKept L L')
    (h : RunSound m L rows runId) : RunSound m L' rows runId := by
  obtain ⟨run, task, binding, c, hj, hb, hv, hread, hper, hclosed⟩ := h
  obtain ⟨run', task', hj', hb', hle⟩ := joined_kept hk ht hj
  exact ⟨run', task', binding, c, hj', hb'.trans hb, hv, hread, hper, by omega⟩

theorem RowsSound.kept (hk : ClosingsKept L L') (ht : Ledger.TasksKept L L')
    (h : RowsSound m L rows) : RowsSound m L' rows :=
  ⟨h.seqs, fun row hrow => (h.runs row hrow).kept hk ht, h.total⟩

/-- A row that the reader accepts after the others keeps the invariant. -/
theorem RowsSound.insert (h : RowsSound m L rows) {event : ProcessEvent} (hv : event.valid)
    {run : Run} {task : Task} {c c' : ProcessChains}
    (hj : joined L event.binding.runId = some (run, task))
    (hb : ledgerBinding event.binding.runId run task = some event.binding)
    (hread : Reads m.processHash event.binding (rowsOf event.binding.runId rows) c)
    (hadded : Added m.processHash c ⟨nextSeq rows, event⟩ c')
    (hper : c'.intents.length ≤ c'.terminals.length + m.maxProcessesPerRun)
    (hclosed : closureCount (rowsOf event.binding.runId rows) + (if event.isClosure then 1 else 0) +
      closings run.state ≤ 3)
    (htotal : dispatchCount rows + (if event.isDispatch then 1 else 0) ≤
      exitCount rows + (if event.isExit then 1 else 0) + m.maxProcessesTotal) :
    RowsSound m L (rows ++ [⟨nextSeq rows, event⟩]) := by
  constructor
  · rw [List.map_append, List.nodup_append]
    refine ⟨h.seqs, List.nodup_singleton _, ?_⟩
    intro a ha b hb
    obtain ⟨row, hrow, rfl⟩ := List.mem_map.mp ha
    rw [List.mem_singleton.mp hb]
    exact (seq_lt_nextSeq hrow).ne
  · have hconcat : rowsOf event.binding.runId (rows ++ [⟨nextSeq rows, event⟩]) =
        rowsOf event.binding.runId rows ++ [⟨nextSeq rows, event⟩] := rowsOf_concat rfl
    have own : RunSound m L (rows ++ [⟨nextSeq rows, event⟩]) event.binding.runId := by
      refine ⟨run, task, event.binding, c', hj, hb, ProcessEvent.valid_binding hv, ?_, hper, ?_⟩
      · rw [hconcat]
        exact reads_concat.mpr ⟨c, hread, add_eq_ok_iff.mpr
          ⟨⟨hv, Nat.le_add_left _ _, rfl⟩, hadded⟩⟩
      · rw [hconcat, closureCount_concat]
        exact hclosed
    intro row hrow
    by_cases hid : row.event.binding.runId = event.binding.runId
    · rw [hid]
      exact own
    · have hold : row ∈ rows := by
        rcases List.mem_append.mp hrow with hrow | hrow
        · exact hrow
        · rw [List.mem_singleton.mp hrow] at hid
          exact absurd rfl hid
      rw [RunSound, rowsOf_concat_of_ne fun he => hid he.symm]
      exact h.runs row hold
  · rw [dispatchCount_concat, exitCount_concat]
    exact htotal

section Read

variable (h : RowsSound m s.ledger s.processes)
include h

/-- The reader returns the chains of every run, and they are as they should be. -/
theorem RowsSound.chainsOf (runId : RunId) : ∃ c,
    s.chainsOf m runId ((joined s.ledger runId).bind fun e => ledgerBinding runId e.1 e.2) = .ok c ∧
      c.Of (rowsOf runId s.processes) ∧
      c.intents.length ≤ c.terminals.length + m.maxProcessesPerRun ∧
      (rowsOf runId s.processes).length ≤ maxRunRows := by
  have hrows : maxRunRows = 132 := rfl
  by_cases hn : rowsOf runId s.processes = []
  · refine ⟨{}, chains_of_nil hn, ?_, Nat.zero_le _, ?_⟩
    · rw [hn]
      exact .nil
    · rw [hn]
      exact Nat.zero_le _
  · obtain ⟨row, hrow⟩ := List.exists_mem_of_ne_nil _ hn
    obtain ⟨hmem, rfl⟩ := mem_rowsOf.mp hrow
    obtain ⟨run, task, binding, c, hj, hb, hv, hread, hper, hclosed⟩ := h.runs row hmem
    have hof := hread.of
    have hlength := hof.length_eq
    have hended := hof.ended_le
    have hroom := hof.room
    have hcap : maxDispatches = 64 := rfl
    have hle : (rowsOf row.event.binding.runId s.processes).length ≤ maxRunRows := by omega
    refine ⟨c, ?_, hof, hper, hle⟩
    rw [State.chainsOf, hj, Option.bind_some, hb]
    exact chains_of_reads hv hle hread

/-- The reader counts what is unresolved in the whole ledger. -/
theorem RowsSound.unresolved : ∃ total, s.unresolvedProcesses m = .ok total ∧
    total + exitCount s.processes = dispatchCount s.processes := by
  have hkeys : ∀ row ∈ s.processes, row.event.binding.runId ∈
      (s.processes.map (·.event.binding.runId)).dedup := fun row hrow =>
    List.mem_dedup.mpr (List.mem_map_of_mem hrow)
  have hexits : ((s.processes.map (·.event.binding.runId)).dedup.map fun runId =>
      exitCount (rowsOf runId s.processes)).sum = exitCount s.processes :=
    sum_countP_filter (fun row : ProcessRow => row.event.binding.runId) _ (List.nodup_dedup _) hkeys
  have hdispatches : ((s.processes.map (·.event.binding.runId)).dedup.map fun runId =>
      dispatchCount (rowsOf runId s.processes)).sum = dispatchCount s.processes :=
    sum_countP_filter (fun row : ProcessRow => row.event.binding.runId) _ (List.nodup_dedup _) hkeys
  have hrun : ∀ runId ∈ (s.processes.map (·.event.binding.runId)).dedup, ∃ run task c,
      joined s.ledger runId = some (run, task) ∧
      s.chainsOf m runId (ledgerBinding runId run task) = .ok c ∧
      c.intents.length = dispatchCount (rowsOf runId s.processes) ∧
      c.terminals.length = exitCount (rowsOf runId s.processes) ∧
      c.terminals.length ≤ c.intents.length := by
    intro runId hid
    obtain ⟨row, hrow, rfl⟩ := List.mem_map.mp (List.mem_dedup.mp hid)
    obtain ⟨run, task, binding, -, hj, -⟩ := h.runs row hrow
    obtain ⟨c, hc, hof, -⟩ := h.chainsOf row.event.binding.runId
    rw [hj, Option.bind_some] at hc
    exact ⟨run, task, c, hj, hc, hof.dispatches, hof.exits, hof.ended_le⟩
  have hfold : s.unresolvedProcesses m = .ok (0 +
      ((s.processes.map (·.event.binding.runId)).dedup.map fun runId =>
        dispatchCount (rowsOf runId s.processes) - exitCount (rowsOf runId s.processes)).sum) := by
    apply foldlM_sum
    intro n runId hid
    obtain ⟨run, task, c, hj, hc, hdispatch, hexit, -⟩ := hrun runId hid
    rw [hj, ofOption, ok_bind]
    simp only
    rw [hc, ok_bind, hdispatch, hexit]
    rfl
  refine ⟨_, hfold, ?_⟩
  rw [← hexits, ← hdispatches, Nat.zero_add, ← List.sum_map_add]
  congr 1
  apply List.map_congr_left
  intro runId hid
  obtain ⟨run, task, c, -, -, hdispatch, hexit, hle⟩ := hrun runId hid
  rw [← hdispatch, ← hexit]
  exact Nat.sub_add_cancel hle

end Read

/-! ### The writers -/

/-- What a store asks of a dispatch, room for an unresolved process apart. -/
structure Dispatchable (m : Machine) (s : State) (dispatch : ProcessDispatch) : Prop where
  valid : dispatch.valid
  live : ∃ run task, joined s.ledger dispatch.request.binding.runId = some (run, task) ∧
    ledgerBinding dispatch.request.binding.runId run task = some dispatch.request.binding ∧
    run.state = .running ∧ task.status = .inProgress
  latest : s.ledger.latestAttempt dispatch.request.binding.taskId =
    some dispatch.request.binding.attempt
  sole : soleWriter s.ledger dispatch.request.binding.writerKey dispatch.request.binding.runId
  fresh : ∀ c, s.chainsOf m dispatch.request.binding.runId (some dispatch.request.binding) = .ok c →
    ∀ intent ∈ c.intents, intent.2.request.operationId ≠ dispatch.request.operationId ∧
      intent.2.handle ≠ dispatch.handle
  room : ∀ c, s.chainsOf m dispatch.request.binding.runId (some dispatch.request.binding) = .ok c →
    c.intents.length < maxDispatches

theorem dispatchProcess_eq_ok_iff : s.dispatchProcess m dispatch = .ok rows ↔
    Dispatchable m s dispatch ∧ (∃ c, s.chainsOf m dispatch.request.binding.runId
        (some dispatch.request.binding) = .ok c ∧
      c.intents.length - c.terminals.length < m.maxProcessesPerRun) ∧
    (∃ total, s.unresolvedProcesses m = .ok total ∧ total < m.maxProcessesTotal) ∧
    rows = s.processes ++ [⟨nextSeq s.processes, .dispatchIntent dispatch⟩] := by
  unfold State.dispatchProcess
  simp only [bind_eq_ok_iff, require_eq_ok_iff, ofOption_eq_ok_iff, insertProcessRow_eq_ok_iff,
    List.all_eq_true, decide_eq_true_eq]
  constructor
  · rintro ⟨_, hv, ⟨run, task⟩, hj, _, ⟨hb, hrun, htask⟩, _, ⟨hlatest, hsole⟩, c, hc, _, hfresh,
      total, htotal, _, ⟨hroom, hper, hlt⟩, -, rfl⟩
    refine ⟨⟨hv, ⟨run, task, hj, hb, hrun, htask⟩, hlatest, hsole, ?_, ?_⟩, ⟨c, hc, hper⟩,
      ⟨total, htotal, hlt⟩, rfl⟩
    · intro c' hc'
      rw [hc] at hc'
      cases hc'
      exact hfresh
    · intro c' hc'
      rw [hc] at hc'
      cases hc'
      exact hroom
  · rintro ⟨⟨hv, ⟨run, task, hj, hb, hrun, htask⟩, hlatest, hsole, hfresh, hroom⟩, ⟨c, hc, hper⟩,
      ⟨total, htotal, hlt⟩, rfl⟩
    exact ⟨(), hv, (run, task), hj, (), ⟨hb, hrun, htask⟩, (), ⟨hlatest, hsole⟩, c, hc, (),
      hfresh c hc, total, htotal, (), ⟨hroom c hc, hper, hlt⟩, ProcessEvent.valid_iff.mpr hv, rfl⟩

theorem RowsSound.dispatched (h : RowsSound m s.ledger s.processes)
    (hd : s.dispatchProcess m dispatch = .ok rows) : RowsSound m s.ledger rows := by
  obtain ⟨hdispatchable, ⟨c, hc, hper⟩, ⟨total, htotal, hlt⟩, rfl⟩ :=
    dispatchProcess_eq_ok_iff.mp hd
  obtain ⟨run, task, hj, hb, -, -⟩ := hdispatchable.live
  obtain ⟨total', htotal', hcount⟩ := h.unresolved
  rw [htotal] at htotal'
  cases htotal'
  have hread := reads_of_chains hc
  have hended := hread.of.ended_le
  refine h.insert (ProcessEvent.valid_iff.mpr hdispatchable.valid) hj hb hread
    (.dispatch rfl (hdispatchable.fresh c hc) (hdispatchable.room c hc)) ?_ ?_ ?_
  · rw [List.length_append]
    change c.intents.length + 1 ≤ c.terminals.length + m.maxProcessesPerRun
    omega
  · have hclosings := closings_le run.state
    by_cases hn : rowsOf dispatch.request.binding.runId s.processes = []
    · change closureCount (rowsOf dispatch.request.binding.runId s.processes) + 0 +
        closings run.state ≤ 3
      rw [hn]
      exact (Nat.zero_add _).trans_le hclosings
    · obtain ⟨row, hrow⟩ := List.exists_mem_of_ne_nil _ hn
      obtain ⟨hmem, hid⟩ := mem_rowsOf.mp hrow
      obtain ⟨run', task', -, -, hj', -, -, -, -, hclosed⟩ := h.runs row hmem
      rw [hid] at hj' hclosed
      rw [hj] at hj'
      cases hj'
      exact hclosed
  · change dispatchCount s.processes + 1 ≤ exitCount s.processes + 0 + m.maxProcessesTotal
    omega

theorem observeExit_eq_ok_iff : s.observeExit m seq dispatch exit = .ok rows ↔
    (ProcessEvent.valid (.exitObserved dispatch exit) ∧ exit.intentSeq = seq) ∧
    (∃ c, s.chainsOf m dispatch.request.binding.runId (some dispatch.request.binding) = .ok c ∧
      c.intents.lookup seq = some dispatch ∧
      exit.intentHash = m.processHash (.dispatchIntent dispatch) ∧ c.terminals.lookup seq = none) ∧
    rows = s.processes ++ [⟨nextSeq s.processes, .exitObserved dispatch exit⟩] := by
  unfold State.observeExit
  simp only [bind_eq_ok_iff, require_eq_ok_iff, insertProcessRow_eq_ok_iff]
  constructor
  · rintro ⟨_, hv, c, hc, _, hfound, -, rfl⟩
    exact ⟨hv, ⟨c, hc, hfound⟩, rfl⟩
  · rintro ⟨hv, ⟨c, hc, hfound⟩, rfl⟩
    exact ⟨(), hv, c, hc, (), hfound, hv.1, rfl⟩

/-- A run that has an intent has rows, and is as the invariant says. -/
theorem RowsSound.of_intents (h : RowsSound m s.ledger s.processes)
    {expected : Option WorkerRunBinding}
    {c : ProcessChains} (hc : s.chainsOf m runId expected = .ok c) (hn : c.intents ≠ []) :
    ∃ run task binding, expected = some binding ∧ joined s.ledger runId = some (run, task) ∧
      ledgerBinding runId run task = some binding ∧ binding.runId = runId ∧
      Reads m.processHash binding (rowsOf runId s.processes) c ∧
      c.intents.length ≤ c.terminals.length + m.maxProcessesPerRun ∧
      closureCount (rowsOf runId s.processes) + closings run.state ≤ 3 := by
  rcases chains_spec hc with ⟨-, rfl⟩ | ⟨binding, rfl, hactual, hread⟩
  · exact absurd rfl hn
  have hrows : rowsOf runId s.processes ≠ [] := by
    intro he
    rw [he] at hread
    cases hread
    exact hn rfl
  obtain ⟨row, hrow⟩ := List.exists_mem_of_ne_nil _ hrows
  obtain ⟨hmem, rfl⟩ := mem_rowsOf.mp hrow
  obtain ⟨run, task, b, c', hj, hb, -, hread', hper, hclosed⟩ := h.runs row hmem
  rw [hj, Option.bind_some, hb] at hactual
  cases hactual
  obtain rfl := hread.unique hread'
  refine ⟨run, task, _, rfl, hj, hb, ?_, hread, hper, hclosed⟩
  rw [ledgerBinding, Option.map_eq_some_iff] at hb
  obtain ⟨_, -, rfl⟩ := hb
  rfl

/-- An exit frees a place among the unresolved processes of the run and of the home. -/
theorem RowsSound.observed (h : RowsSound m s.ledger s.processes)
    (he : s.observeExit m seq dispatch exit = .ok rows) : RowsSound m s.ledger rows := by
  obtain ⟨⟨hv, rfl⟩, ⟨c, hc, hstart, hhash, hopen⟩, rfl⟩ := observeExit_eq_ok_iff.mp he
  have hn : c.intents ≠ [] := by
    intro hn
    rw [hn] at hstart
    cases hstart
  obtain ⟨run, task, binding, hbinding, hj, hb, -, hread, hper, hclosed⟩ := h.of_intents hc hn
  cases hbinding
  refine h.insert hv hj hb hread (.exit rfl hstart hhash hopen) ?_ ?_ ?_
  · rw [List.length_append]
    exact hper.trans (Nat.add_le_add_right (Nat.le_succ _) _)
  · exact hclosed
  · have htotal := h.total
    change dispatchCount s.processes + 0 ≤ exitCount s.processes + 1 + m.maxProcessesTotal
    omega

theorem link_intentSeq {c : ProcessChains} {link : ExitLink}
    (h : c.link m.processHash seq = some link) :
    link.intentSeq = seq := by
  simp only [ProcessChains.link, bind, Option.bind_eq_some_iff] at h
  obtain ⟨_, -, _, -, h⟩ := h
  cases h
  rfl

/-- The links of all exits are an acknowledgement that the reader accepts. -/
theorem added_closure {c : ProcessChains} {row : ProcessRow} {rows : List ProcessRow}
    {binding : WorkerRunBinding} (hof : c.Of rows) (hseqs : (rows.map ProcessRow.seq).Nodup)
    (hevent : row.event = .closureAcknowledged binding
      (c.intents.filterMap fun intent => c.link m.processHash intent.1)) :
    Added m.processHash c row c := by
  refine .closure hevent ?_ ?_
  · intro link hlink
    obtain ⟨intent, -, hl⟩ := List.mem_filterMap.mp hlink
    rw [link_intentSeq hl, hl]
  · have hsub : ∀ intents : List (ℕ × ProcessDispatch),
        ((intents.filterMap fun intent => c.link m.processHash intent.1).map
          ExitLink.intentSeq).Sublist (intents.map Prod.fst) := by
      intro intents
      induction intents with
      | nil => exact .slnil
      | cons intent intents ih =>
        rw [List.filterMap_cons, List.map_cons]
        split
        next => exact ih.cons _
        next link hl =>
          rw [List.map_cons, link_intentSeq hl]
          exact ih.cons_cons _
    exact ((hsub c.intents).trans hof.seqs).nodup hseqs

theorem requireProcessesResolved_spec (h : s.requireProcessesResolved m runId = .ok rows) :
    rows = s.processes ∨ ∃ run task binding c, joined s.ledger runId = some (run, task) ∧
      ledgerBinding runId run task = some binding ∧
      s.chainsOf m runId (some binding) = .ok c ∧ c.intents ≠ [] ∧
      ProcessEvent.valid (.closureAcknowledged binding
        (c.intents.filterMap fun intent => c.link m.processHash intent.1)) ∧
      rows = s.processes ++ [⟨nextSeq s.processes, .closureAcknowledged binding
        (c.intents.filterMap fun intent => c.link m.processHash intent.1)⟩] := by
  simp only [State.requireProcessesResolved] at h
  obtain ⟨⟨run, task⟩, hj, h⟩ := bind_eq_ok_iff.mp h
  obtain ⟨c, hc, h⟩ := bind_eq_ok_iff.mp h
  obtain ⟨_, -, h⟩ := bind_eq_ok_iff.mp h
  split at h
  next binding intent intents hb hintents =>
    obtain ⟨hv, rfl⟩ := insertProcessRow_eq_ok_iff.mp h
    refine .inr ⟨run, task, binding, c, ofOption_eq_ok_iff.mp hj, hb, hb ▸ hc, ?_, hv, rfl⟩
    rw [hintents]
    exact List.cons_ne_nil _ _
  next =>
    cases h
    exact .inl rfl

/-- Closing a run takes it further on its way, and acknowledges its exits if it has any. -/
theorem RowsSound.closed (h : RowsSound m s.ledger s.processes) {t : Txn}
    (hn : ¬ s.ledger.Revives t) {execution : Checked Unit} {reply : Reply}
    (hc : Act.runClose m env s t execution = .ok (reply, s')) :
    RowsSound m s'.ledger s'.processes := by
  simp only [Act.runClose] at hc
  obtain ⟨⟨reply', L⟩, hrun, hc⟩ := bind_eq_ok_iff.mp hc
  obtain ⟨rows, hrows, hc⟩ := bind_eq_ok_iff.mp hc
  cases hc
  have heffect := Effect.transaction hrun
  have hk := heffect.closingsKept fun _ he => by cases he; exact hn
  have hkept := h.kept hk heffect.tasksKept
  rcases hid : Txn.runId? t with _ | runId
  · rw [hid] at hrows
    cases hrows
    exact hkept
  · rw [hid] at hrows
    rcases requireProcessesResolved_spec hrows with rfl | ⟨run, task, binding, c, hj, hb, hchains,
      hintents, hv, rfl⟩
    · exact hkept
    obtain ⟨run', task', hj', hb', -⟩ := joined_kept hk heffect.tasksKept hj
    obtain ⟨run₀, task₀, b, hbinding, hj₀, -, hrunId, hread, hper, hclosed⟩ :=
      h.of_intents hchains hintents
    cases hbinding
    rw [hj] at hj₀
    cases hj₀
    obtain ⟨before, after, hbefore, hafter, hlt⟩ := closes_spec hid hrun
    rw [(joined_eq_some_iff.mp hj).1] at hbefore
    cases hbefore
    rw [(joined_eq_some_iff.mp hj').1] at hafter
    cases hafter
    subst hrunId
    refine hkept.insert hv hj' (hb'.trans hb) hread (added_closure hread.of ?_ rfl) hper ?_ h.total
    · exact ((List.filter_sublist (l := s.processes)).map ProcessRow.seq).nodup h.seqs
    · change closureCount (rowsOf binding.runId s.processes) + 1 + closings run'.state ≤ 3
      omega

/-! ### Runs of stores and commands -/

/-- The operation brings a run that has ended back into review. -/
def RevivesRun (s : State) : Op → Prop
  | .ledger (.transaction t) | .act (.close t _) => s.ledger.Revives t
  | _ => False

instance (s : State) (o : Op) : Decidable (RevivesRun s o) := by
  unfold RevivesRun
  split <;> infer_instance

theorem perform_rest {a : Act} {v : a.Value} (h : Act.perform m env s a = .ok (v, s'))
    (hd : ∀ d, a ≠ .dispatchProcess d) (he : ∀ seq d e, a ≠ .observeExit seq d e)
    (hc : ∀ t e, a ≠ .close t e) : s'.ledger = s.ledger ∧ s'.processes = s.processes := by
  by_cases hr : a.reads
  · rw [Act.perform_of_reads hr h]
    exact ⟨rfl, rfl⟩
  · cases a with
    | dispatchProcess d => exact absurd rfl (hd d)
    | observeExit seq d e => exact absurd rfl (he seq d e)
    | close t e => exact absurd rfl (hc t e)
    | makeExecution | makeRun | makeOperation | makeJournal | makeIntentRun | stageIntent
    | unstageIntent =>
      cases h
      exact ⟨rfl, rfl⟩
    | linkIntent =>
      simp only [Act.perform] at h
      split at h <;>
      · cases h
        exact ⟨rfl, rfl⟩
    | stage | link | unstage | createFile | write | copyMetadata | rename | unlink =>
      simp only [Act.perform, bind_eq_ok_iff, pure_eq_ok_iff, Prod.mk.injEq] at h
      grind
    | _ => exact absurd trivial hr

theorem RowsSound.after (h : RowsSound m s.ledger s.processes) (o : Op) (env : Env)
    (hn : ¬ RevivesRun s o) : RowsSound m ((bridgeSemantics m).after env s o).ledger
      ((bridgeSemantics m).after env s o).processes := by
  cases o with
  | ledger o =>
    have heffect := Effect.after m.sha env.host s.ledger o
    refine h.kept (heffect.closingsKept fun t ht => ?_) heffect.tasksKept
    subst ht
    exact hn
  | look l => exact h
  | act a =>
    have hperform : ∀ {v : a.Value} {t}, a.perform m env s = .ok (v, t) →
        RowsSound m t.ledger t.processes := by
      intro v t hp
      cases a with
      | dispatchProcess d =>
        obtain ⟨rows, hd, hp⟩ := bind_eq_ok_iff.mp hp
        cases hp
        exact h.dispatched hd
      | observeExit seq d e =>
        obtain ⟨rows, he, hp⟩ := bind_eq_ok_iff.mp hp
        cases hp
        exact h.observed he
      | close t e => exact h.closed hn hp
      | _ =>
        obtain ⟨hledger, hprocesses⟩ := perform_rest hp (fun _ => by rintro ⟨⟩)
          (fun _ _ _ => by rintro ⟨⟩) fun _ _ => by rintro ⟨⟩
        rw [hledger, hprocesses]
        exact h
    rcases a.answer_cases m env s with ⟨e, ha⟩ | ⟨v, t, hp, ha | ⟨e, ha⟩⟩ <;>
      simp only [Semantics.after, bridgeSemantics, ha]
    · exact h
    · exact hperform hp
    · exact hperform hp

/-- A command of the ledger as the bridge runs it: a run is closed together with its process
rows, where the execution store answers `execution`. -/
def closing {α : Type} (execution : Checked Unit) : Script α → Routine α
  | .ret a => .ret a
  | .raise e => .raise e
  | .call (.transaction t) k =>
    if (Txn.runId? t).isSome then
      .call (.act (.close t execution)) fun a => closing execution (k a)
    else
      .call (.ledger (.transaction t)) fun a => closing execution (k a)
  | .call o k => .call (.ledger o) fun a => closing execution (k a)

/-- Calls on one home: commands, and transactions of the stores that share it. -/
inductive ProcessCall
  | command (c : Command) (execution : Checked Unit)
  | dispatch (dispatch : ProcessDispatch)
  | observeExit (seq : ℕ) (dispatch : ProcessDispatch) (exit : ProcessExit)

def ProcessCall.prog : ProcessCall → Routine Unit
  | .command c execution => closing execution c.script >>= fun _ => .ret ()
  | .dispatch d => Routine.act (.dispatchProcess d)
  | .observeExit seq d e => Routine.act (.observeExit seq d e)

/-- The state after calls side by side, each cut off anywhere. -/
abbrev stateAfter (m : Machine) (s : State) (as : List (Action ProcessCall Env)) : State :=
  (World.run (bridgeSemantics m) ProcessCall.prog ⟨s, []⟩ as).shared

/-- The limits hold, the reader accepts all rows, and a place that an exit frees can be used. -/
structure WithinCapacity (m : Machine) (s : State) : Prop where
  total : ∃ n, s.unresolvedProcesses m = .ok n ∧ n ≤ m.maxProcessesTotal
  run : ∀ runId, ∃ c,
    s.chainsOf m runId ((joined s.ledger runId).bind fun e => ledgerBinding runId e.1 e.2) = .ok c ∧
    c.intents.length ≤ maxDispatches ∧
    c.intents.length - c.terminals.length ≤ m.maxProcessesPerRun ∧
    (c.intents.map (·.2.request.operationId)).Nodup ∧ (c.intents.map (·.2.handle)).Nodup ∧
    (c.terminals.map Prod.fst).Nodup
  rows : ∀ runId, (rowsOf runId s.processes).length ≤ maxRunRows
  bytes : ∀ row ∈ s.processes, row.event.bytes ≤ row.event.maxBytes
  reusable : ∀ seq d e rows, s.observeExit m seq d e = .ok rows →
    ∀ d', Dispatchable m { s with processes := rows } d' →
      (d'.request.binding.runId ≠ d.request.binding.runId → ∀ c,
        State.chainsOf m { s with processes := rows } d'.request.binding.runId
          (some d'.request.binding) = .ok c →
        c.intents.length - c.terminals.length < m.maxProcessesPerRun) →
      ∃ rows', State.dispatchProcess m { s with processes := rows } d' = .ok rows'

theorem RowsSound.reusable (h : RowsSound m s.ledger s.processes)
    (he : s.observeExit m seq dispatch exit = .ok rows) {d : ProcessDispatch}
    (hd : Dispatchable m { s with processes := rows } d)
    (hper : d.request.binding.runId ≠ dispatch.request.binding.runId → ∀ c,
      State.chainsOf m { s with processes := rows } d.request.binding.runId
        (some d.request.binding) = .ok c →
      c.intents.length - c.terminals.length < m.maxProcessesPerRun) :
    ∃ rows', State.dispatchProcess m { s with processes := rows } d = .ok rows' := by
  have hafter : RowsSound m (State.mk s.ledger rows s.runtime s.files s.anchors).ledger rows :=
    h.observed he
  have htotal := h.total
  obtain ⟨run, task, hj, hb, -⟩ := hd.live
  obtain ⟨c, hc, hof, hle, -⟩ := RowsSound.chainsOf (s := { s with processes := rows }) hafter
    d.request.binding.runId
  rw [hj, Option.bind_some, hb] at hc
  obtain ⟨total, ht, hcount⟩ := RowsSound.unresolved (s := { s with processes := rows }) hafter
  obtain ⟨-, ⟨c₀, hc₀, hstart, -⟩, rfl⟩ := observeExit_eq_ok_iff.mp he
  have hlt : c.intents.length - c.terminals.length < m.maxProcessesPerRun := by
    by_cases hid : d.request.binding.runId = dispatch.request.binding.runId
    · have hn : c₀.intents ≠ [] := by
        intro hn
        rw [hn] at hstart
        cases hstart
      obtain ⟨run₀, task₀, b, hbinding, hj₀, hb₀, -, hread₀, hper₀, -⟩ := h.of_intents hc₀ hn
      cases hbinding
      rw [hid, hj₀] at hj
      cases hj
      rw [hid, hb₀] at hb
      have hread := reads_of_chains hc
      rw [← Option.some.inj hb] at hread
      have hconcat : rowsOf dispatch.request.binding.runId
          (s.processes ++ [⟨nextSeq s.processes, .exitObserved dispatch exit⟩]) =
          rowsOf dispatch.request.binding.runId s.processes ++
            [⟨nextSeq s.processes, .exitObserved dispatch exit⟩] := rowsOf_concat rfl
      rw [hconcat] at hread
      obtain ⟨c₁, hread₁, hadd⟩ := reads_concat.mp hread
      obtain rfl := hread₁.unique hread₀
      have hended := hof.ended_le
      cases (add_eq_ok_iff.mp hadd).2 with
      | closure event => cases event
      | dispatch event => cases event
      | exit event =>
        rw [List.length_append] at hended ⊢
        change c₁.terminals.length + 1 ≤ c₁.intents.length at hended
        change c₁.intents.length - (c₁.terminals.length + 1) < m.maxProcessesPerRun
        omega
    · exact hper hid c hc
  refine ⟨_, dispatchProcess_eq_ok_iff.mpr ⟨hd, ⟨c, hc, hlt⟩, ⟨total, ht, ?_⟩, rfl⟩⟩
  rw [dispatchCount_concat, exitCount_concat] at hcount
  change total + (exitCount s.processes + 1) = dispatchCount s.processes + 0 at hcount
  omega

theorem RowsSound.withinCapacity (h : RowsSound m s.ledger s.processes) : WithinCapacity m s where
  total := by
    obtain ⟨n, hn, hcount⟩ := h.unresolved
    have htotal := h.total
    exact ⟨n, hn, by omega⟩
  run runId := by
    obtain ⟨c, hc, hof, hper, -⟩ := h.chainsOf runId
    exact ⟨c, hc, hof.room, by omega, hof.operations, hof.handles, hof.ended⟩
  rows runId := by
    obtain ⟨-, -, -, -, hlength⟩ := h.chainsOf runId
    exact hlength
  bytes row hrow := by
    obtain ⟨_, _, _, _, _, _, _, hread, _⟩ := h.runs row hrow
    have hvalid := hread.valid (mem_rowsOf.mpr ⟨hrow, rfl⟩)
    exact ProcessEvent.bytes_le (ProcessEvent.valid_iff.mp hvalid)
  reusable _ _ _ _ he _ hd hper := h.reusable he hd hper

theorem rowsSound_of_empty (h : s.processes = []) : RowsSound m s.ledger s.processes := by
  rw [h]
  constructor
  · exact .nil
  · intro row hrow
    cases hrow
  · exact Nat.zero_le _

end Invariant

/-! ### Verifications that aborts overtake -/

theorem abort_ok {L : Ledger} (host : Host) {runId : RunId} {run : Run}
    (hfound : L.runs.lookup runId = some run) (hactive : run.state ∈ activeRunStates)
    (hrunning : run.state ≠ .running) (hresolved : Ledger.requireResolved (host 0) runId = .ok ())
    (reason : String) (retry confirmed : Bool) :
    ∃ reply L', L.abort host runId reason retry confirmed = .ok (reply, L') := by
  have hgate : ¬ (run.state = .running ∧ (L.runCheckpoints.lookup runId).isSome = true ∧
      ¬ confirmed = true) := fun h => hrunning h.1
  rw [Ledger.abort, hfound, ofOption, ok_bind, require_of hactive, ok_bind]
  simp only
  rw [require_of hgate, ok_bind, hresolved, ok_bind]
  exact ⟨_, _, rfl⟩

/-- A verification that has passed and asks for a review is recorded whatever the run is doing. -/
theorem verifyResult_reviews (L : Ledger) (sha : Sha256) (runId : RunId) {run : Run}
    {payload : TaskPayload} {manifest : Manifest} {checks : List CheckResult} {d : ReviewDecision}
    (hpassed : checks.all CheckResult.passed) (hd : decision payload manifest run.attempt = .ok d)
    (hrequired : d.required) : ∃ reply L' f,
      L.verifyResult sha runId run payload manifest checks = .ok (reply, L') ∧
      Ledger.Rewrote L L' runId f run.taskId .waitingReview ∧
      ∀ row, (f row).state = .reviewing := by
  obtain ⟨reply, L', h⟩ : ∃ reply L',
      L.verifyResult sha runId run payload manifest checks = .ok (reply, L') := by
    rw [Ledger.verifyResult]
    simp only [hpassed, hd, if_true]
    exact ⟨_, _, rfl⟩
  obtain ⟨f, told, kind, houtcome, hrewrote, -⟩ := Ledger.verifyResult_spec h
  cases houtcome with
  | review => exact ⟨reply, L', _, h, hrewrote, fun _ => rfl⟩
  | verified _ decided unrequired =>
    rw [hd] at decided
    cases decided
    exact absurd hrequired unrequired
  | failed failed => exact absurd hpassed failed

theorem joined_rewrote {L L' : Ledger} {runId : RunId} {run : Run} {task : Task} {f : Run → Run}
    {taskId : TaskId} {told : TaskStatus} (h : Ledger.Rewrote L L' runId f taskId told)
    (hj : joined L runId = some (run, task)) : ∃ task', joined L' runId = some (f run, task') ∧
      ledgerBinding runId (f run) task' = ledgerBinding runId run task := by
  obtain ⟨hr, ht⟩ := joined_eq_some_iff.mp hj
  obtain ⟨task', ht', hpayload⟩ := h.tasksKept _ _ ht
  refine ⟨task', joined_eq_some_iff.mpr ⟨?_, ?_⟩, ?_⟩
  · rw [h.runs, Table.lookup_modify, if_pos rfl, hr, Option.map_some]
  · rw [h.taskId, ht']
  · rw [ledgerBinding, ledgerBinding, hpayload, h.taskId, h.attempt]

namespace Scenario

/-- A host that hands out a task whose results must be reviewed. -/
def reviewingHost : Host := fun n o =>
  match o with
  | .readPlan => .ok ("p", "d",
      [{ OrchKit.Scenario.payload {} "t" with projectId := some "q", requiredReview := true }])
  | .leaseFromCapability _ => .ok "l"
  | o => OrchKit.Scenario.host {} n o

def reviewing : Env := { env with host := reviewingHost }

def home : Machine where
  sha := OrchKit.Scenario.sha
  digests := digests
  processHash _ := hexes '0'
  uid := 501

def runBinding : WorkerRunBinding := ⟨"q", "k", "t", "t-A1-0", 1⟩

def started : ProcessDispatch where
  request := { binding := runBinding, operationId := "o", kind := .processStart, target := "x" }
  sessionHash := hexes '1'
  profileHash := hexes '2'
  handle := "h"

def finished : ProcessExit := ⟨1, hexes '0', 0, .exited, 0, false⟩

def call (c : Command) : ProcessCall := .command c (.ok ())

/-- A worker starts a process and sees it exit, and hands in its result. -/
def handedIn : List (ProcessCall × List Env) :=
  [(call .loadPlan, List.replicate 2 reviewing),
    (call (.claim "w" none none), List.replicate 2 reviewing),
    (.dispatch started, [reviewing]),
    (.observeExit 1 started finished, [reviewing]),
    (call (.submit "t-A1-0" "l"), List.replicate 2 reviewing),
    (call (.quiesce "t-A1-0" "l"), List.replicate 2 reviewing)]

def opened : State :=
  session (bridgeSemantics home) ProcessCall.prog handedIn { ledger := Ledger.empty }

def paused : Routine Unit :=
  ((call (.verify "t-A1-0")).prog.exec (bridgeSemantics home) (List.replicate 8 reviewing) opened).1

theorem verify_pauses : (call (.verify "t-A1-0")).prog.exec (bridgeSemantics home)
    (List.replicate 8 reviewing) opened = (paused, opened) := rfl

theorem paused_eq : ∃ run payload manifest checks d next, paused =
      .call (.ledger (.transaction (.verifyResult "t-A1-0" run payload manifest checks))) next ∧
    run.taskId = "t" ∧ checks.all CheckResult.passed ∧
    decision payload manifest run.attempt = .ok d ∧ d.required :=
  ⟨_, _, _, _, _, _, rfl, rfl, rfl, rfl, rfl⟩

theorem verifiers_run (n : ℕ) :
    World.run (bridgeSemantics home) ProcessCall.prog ⟨opened, []⟩
      ((List.range n).flatMap fun k => .start (call (.verify "t-A1-0")) ::
        (List.replicate 8 reviewing).map (.step k)) = ⟨opened, List.replicate n paused⟩ := by
  induction n with
  | zero => rfl
  | succ n ih =>
    have hrun := World.run_start_steps (bridgeSemantics home) ProcessCall.prog
      (call (.verify "t-A1-0")) (List.replicate 8 reviewing) opened (List.replicate n paused)
    rw [List.length_replicate, verify_pauses] at hrun
    rw [List.range_succ, List.flatMap_append, World.run_append, ih, List.flatMap_singleton, hrun,
      List.replicate_succ']

def ended : ProcessChains where
  intents := [(1, started)]
  terminals := [(1, 2, started, finished)]

def acknowledgement : ProcessEvent :=
  .closureAcknowledged runBinding (ended.intents.filterMap fun i => ended.link home.processHash i.1)

theorem acknowledgement_valid : acknowledgement.valid := by decide

/-- The run is in review, or was never out of it, with `n` rows behind it. -/
structure Reopened (n : ℕ) (s : State) : Prop where
  run : ∃ run task, joined s.ledger "t-A1-0" = some (run, task) ∧
    ledgerBinding "t-A1-0" run task = some runBinding ∧
    run.state ∈ activeRunStates ∧ run.state ≠ .running
  seqs : (s.processes.map ProcessRow.seq).Nodup
  own : rowsOf "t-A1-0" s.processes = s.processes
  reads : Reads home.processHash runBinding s.processes ended
  length : s.processes.length = n

theorem opened_reopened : Reopened 4 opened where
  run := ⟨_, _, rfl, rfl, by decide, by decide⟩
  seqs := by decide
  own := by rfl
  reads := by rfl
  length := by rfl

variable {n : ℕ} {s : State}

/-- An abort closes the run once more and adds a row. -/
theorem Reopened.aborted (h : Reopened n s) (hn : n ≤ maxRunRows) : ∃ s' run task,
    ((call (.abort "t-A1-0" "stop" false true)).prog.exec (bridgeSemantics home) [reviewing] s).2 =
      s' ∧ joined s'.ledger "t-A1-0" = some (run, task) ∧
    ledgerBinding "t-A1-0" run task = some runBinding ∧
    s'.processes = s.processes ++ [⟨nextSeq s.processes, acknowledgement⟩] := by
  obtain ⟨⟨run, task, hj, hb, hactive, hrunning⟩, -, hown, hread, hlength⟩ := h
  have hchains : s.chainsOf home "t-A1-0" (some runBinding) = .ok ended := by
    rw [State.chainsOf, hj, Option.bind_some, hb]
    exact chains_of_reads (by decide) (by rw [hown]; omega) (hown.symm ▸ hread)
  have hrows : s.requireProcessesResolved home "t-A1-0" =
      .ok (s.processes ++ [⟨nextSeq s.processes, acknowledgement⟩]) := by
    simp only [State.requireProcessesResolved, hj, ofOption, ok_bind, hb, hchains]
    rw [require_of (p := ended.intents.length = ended.terminals.length) rfl, ok_bind]
    exact insertProcessRow_eq_ok_iff.mpr ⟨acknowledgement_valid, rfl⟩
  have hfound := (joined_eq_some_iff.mp hj).1
  obtain ⟨reply, L, hrun⟩ := abort_ok
    (resolvedHost reviewing.host (.ok ()) (.ok ())) hfound hactive hrunning rfl "stop" false true
  have hclose : Act.runClose home reviewing s (.abort "t-A1-0" "stop" false true) (.ok ()) =
      .ok (reply, { s with
        ledger := L, processes := s.processes ++ [⟨nextSeq s.processes, acknowledgement⟩] }) := by
    simp only [Act.runClose, Txn.runId?, hrows, Except.map, Txn.run]
    rw [hrun]
    rfl
  have heffect : Effect home.sha s.ledger (.transaction (.abort "t-A1-0" "stop" false true)) L :=
    Effect.transaction hrun
  obtain ⟨run', task', hj', hb', -⟩ :=
    joined_kept (heffect.closingsKept fun _ he => by cases he; exact id) heffect.tasksKept hj
  have hexec : ((call (.abort "t-A1-0" "stop" false true)).prog.exec (bridgeSemantics home)
      [reviewing] s).2 = { s with
        ledger := L, processes := s.processes ++ [⟨nextSeq s.processes, acknowledgement⟩] } := by
    obtain ⟨next, hnext⟩ : ∃ next, (call (.abort "t-A1-0" "stop" false true)).prog =
        .call (.act (.close (.abort "t-A1-0" "stop" false true) (.ok ()))) next := ⟨_, rfl⟩
    rw [hnext, Prog.exec_cons, Prog.exec_nil]
    simp only [Semantics.after, bridgeSemantics, Act.answer, Act.perform, hclose]
    rfl
  exact ⟨_, run', task', hexec, hj', hb'.trans hb, rfl⟩

/-- An abort, and then the record of the first of `k + 1` verifiers, `k + 1` times over. -/
def repeats : ℕ → List (Action ProcessCall Env)
  | 0 => []
  | k + 1 => World.alone (k + 1) (call (.abort "t-A1-0" "stop" false true)) [reviewing] ++
      [.step 0 reviewing, .crash 0] ++ repeats k

/-- An abort and then the record of a verifier leave the run in review, with one more row. -/
theorem Reopened.again (h : Reopened n s) (hn : n ≤ maxRunRows) (ps : List (Routine Unit)) :
    ∃ s', Reopened (n + 1) s' ∧ World.run (bridgeSemantics home) ProcessCall.prog
      ⟨s, paused :: ps⟩ (World.alone (ps.length + 1) (call (.abort "t-A1-0" "stop" false true))
        [reviewing] ++ [.step 0 reviewing, .crash 0]) = ⟨s', ps⟩ := by
  obtain ⟨s₁, run, task, hexec, hj, hb, hprocesses⟩ := h.aborted hn
  obtain ⟨row, payload, manifest, checks, d, next, hpaused, -, hpassed, hd, hrequired⟩ := paused_eq
  obtain ⟨reply, L, f, hrun, hrewrote, hstate⟩ := verifyResult_reviews
    s₁.ledger home.sha "t-A1-0" hpassed hd hrequired
  obtain ⟨task', hj', hb'⟩ := joined_rewrote hrewrote hj
  refine ⟨{ s₁ with ledger := L }, ⟨⟨_, task', hj', hb'.trans hb, ?_, ?_⟩, ?_, ?_, ?_, ?_⟩, ?_⟩
  · rw [hstate]
    decide
  · rw [hstate]
    decide
  · change (s₁.processes.map ProcessRow.seq).Nodup
    rw [hprocesses, List.map_append, List.nodup_append]
    refine ⟨h.seqs, List.nodup_singleton _, ?_⟩
    intro a ha b hb
    obtain ⟨row, hrow, rfl⟩ := List.mem_map.mp ha
    rw [List.mem_singleton.mp hb]
    exact (seq_lt_nextSeq hrow).ne
  · change rowsOf "t-A1-0" s₁.processes = s₁.processes
    have hconcat : rowsOf "t-A1-0" (s.processes ++ [⟨nextSeq s.processes, acknowledgement⟩]) =
        rowsOf "t-A1-0" s.processes ++ [⟨nextSeq s.processes, acknowledgement⟩] := rowsOf_concat rfl
    rw [hprocesses, hconcat, h.own]
  · change Reads home.processHash runBinding s₁.processes ended
    rw [hprocesses]
    exact reads_concat.mpr ⟨ended, h.reads, add_eq_ok_iff.mpr
      ⟨⟨acknowledgement_valid, Nat.le_add_left _ _, rfl⟩, added_closure h.reads.of h.seqs rfl⟩⟩
  · change s₁.processes.length = n + 1
    rw [hprocesses, List.length_append, h.length, List.length_singleton]
  · have halone := World.run_alone (bridgeSemantics home) ProcessCall.prog
      (call (.abort "t-A1-0" "stop" false true)) [reviewing] s (paused :: ps)
    rw [List.length_cons, hexec] at halone
    rw [World.run_append, halone, World.run_cons,
      World.act_step_call (congrArg some hpaused)]
    have hafter : (bridgeSemantics home).after reviewing s₁
        (.ledger (.transaction (.verifyResult "t-A1-0" row payload manifest checks))) =
          { s₁ with ledger := L } := by
      simp only [Semantics.after, bridgeSemantics, ledgerSemantics, Txn.run, hrun]
    rw [hafter]
    rfl

theorem Reopened.repeated {k : ℕ} (h : Reopened n s) (hn : n + k ≤ maxRunRows + 1) :
    Reopened (n + k) (World.run (bridgeSemantics home) ProcessCall.prog
      ⟨s, List.replicate k paused⟩ (repeats k)).shared := by
  induction k generalizing n s with
  | zero => exact h
  | succ k ih =>
    obtain ⟨s', h', hrun⟩ := h.again (by omega) (List.replicate k paused)
    rw [List.length_replicate] at hrun
    rw [List.replicate_succ, repeats, World.run_append, hrun, ← Nat.add_assoc, Nat.add_right_comm]
    exact ih h' (by omega)

/-- One process, and a result that many verifiers find at the same time. -/
def overtaken : List (Action ProcessCall Env) :=
  handedIn.flatMap (fun c => World.alone 0 c.1 c.2) ++
    ((List.range 129).flatMap fun k => .start (call (.verify "t-A1-0")) ::
      (List.replicate 8 reviewing).map (.step k)) ++ repeats 129

end Scenario

open OrchKit.Bridge.Scenario

/-- Whatever stores of one home and commands run side by side, the process rows stay within
capacity as long as no verification brings a run that has ended back into review. -/
theorem processes_withinCapacity {m : Machine} {s : State} (h₀ : s.processes = [])
    {as : List (Action ProcessCall Env)}
    (hg : World.Guarded (bridgeSemantics m) ProcessCall.prog (fun s o => ¬ RevivesRun s o)
      ⟨s, []⟩ as) : WithinCapacity m (stateAfter m s as) := by
  have hstep : ∀ (s : State) (o : Op) (env : Env), RowsSound m s.ledger s.processes →
      ¬ RevivesRun s o → RowsSound m ((bridgeSemantics m).after env s o).ledger
        ((bridgeSemantics m).after env s o).processes := fun s o env h hn => h.after o env hn
  have hrun := World.Guarded.invariant _ hstep hg (rowsSound_of_empty h₀)
  exact RowsSound.withinCapacity hrun

theorem processes_withinCapacity_handedIn :
    WithinCapacity home (stateAfter home { ledger := Ledger.empty }
      (handedIn.flatMap fun c => World.alone 0 c.1 c.2)) :=
  processes_withinCapacity rfl (by decide +kernel)

/-- Verifications that aborts overtake fill the rows of a run with acknowledgements, until the
reader refuses them. -/
theorem overtaken_not_withinCapacity :
    ¬ WithinCapacity home (stateAfter home { ledger := Ledger.empty } overtaken) := by
  intro h
  have hopened := World.run_session (bridgeSemantics home) ProcessCall.prog handedIn
    { ledger := Ledger.empty } []
  have hreopened : Reopened 133 (stateAfter home { ledger := Ledger.empty } overtaken) := by
    rw [stateAfter, overtaken, World.run_append, World.run_append]
    rw [List.length_nil] at hopened
    rw [hopened]
    change Reopened (4 + 129) (World.run _ _ (World.run _ _ ⟨opened, []⟩ _) _).shared
    rw [verifiers_run]
    exact opened_reopened.repeated (by decide)
  have hrows := h.rows "t-A1-0"
  rw [hreopened.own, hreopened.length] at hrows
  exact absurd hrows (by decide)

end OrchKit.Bridge
