import OrchKit.Bridge.Bounds
import OrchKit.Bridge.Processes

/-! # Reading process rows

What the reader of the process rows demands of a row after those before it, and what holds of
the chains it then returns. The rows of a run that pass are never too long: identifiers,
digests and numbers are bounded one by one.
-/

namespace OrchKit.Bridge

open Canonical Except

namespace ProcessEvent

def isDispatch : ProcessEvent → Bool
  | dispatchIntent _ => true
  | _ => false

def isExit : ProcessEvent → Bool
  | exitObserved .. => true
  | _ => false

def isClosure : ProcessEvent → Bool
  | closureAcknowledged .. => true
  | _ => false

end ProcessEvent

def dispatchCount (rows : List ProcessRow) : ℕ := rows.countP (·.event.isDispatch)

def exitCount (rows : List ProcessRow) : ℕ := rows.countP (·.event.isExit)

def closureCount (rows : List ProcessRow) : ℕ := rows.countP (·.event.isClosure)

section Concat

variable (rows : List ProcessRow) (row : ProcessRow)

theorem dispatchCount_concat : dispatchCount (rows ++ [row]) =
    dispatchCount rows + if row.event.isDispatch then 1 else 0 := by
  rw [dispatchCount, List.countP_append, List.countP_singleton, dispatchCount]

theorem exitCount_concat : exitCount (rows ++ [row]) =
    exitCount rows + if row.event.isExit then 1 else 0 := by
  rw [exitCount, List.countP_append, List.countP_singleton, exitCount]

theorem closureCount_concat : closureCount (rows ++ [row]) =
    closureCount rows + if row.event.isClosure then 1 else 0 := by
  rw [closureCount, List.countP_append, List.countP_singleton, closureCount]

end Concat

/-! ### Sizes -/

theorem WorkerOperationRequest.bytes_le_of_start {request : WorkerOperationRequest}
    (h : request.valid) (hk : request.kind = .processStart) : request.bytes ≤ 1450 := by
  simp only [valid, Bool.and_eq_true, decide_eq_true_eq] at h
  obtain ⟨⟨⟨⟨hb, ho⟩, ht⟩, -⟩, hm⟩ := h
  rw [hk, if_neg (by decide)] at ht
  have hbinding := WorkerRunBinding.bytes_le hb
  have hoperation := str_le_of_identifier ho fun c hc => charSize_of_isWord hc
  have htarget := str_le_of_identifier ht fun c hc => charSize_of_isWord hc
  have hmax : nat request.maxOutputBytes ≤ 5 := nat_le (by decide) (by
    have : workerMaxOutputBytes = 65536 := rfl
    omega)
  have hkind : word request.kind.text = 15 := by
    rw [hk]
    decide
  have hframe : frame ["binding", "kind", "max_output_bytes", "operation_id", "schema_version",
    "target"] = 84 := by decide
  have hone : nat 1 = 1 := by decide
  simp only [bytes, obj_eq, List.map_cons, List.map_nil, List.sum_cons, List.sum_nil, hframe, hkind,
    hone]
  omega

theorem ProcessDispatch.fields_le {dispatch : ProcessDispatch} (h : dispatch.valid) :
    (dispatch.fields.map Prod.snd).sum ≤ 1800 := by
  simp only [valid, Bool.and_eq_true, decide_eq_true_eq] at h
  obtain ⟨⟨⟨⟨hrequest, hkind⟩, hsession⟩, hprofile⟩, hhandle⟩ := h
  have hr := WorkerOperationRequest.bytes_le_of_start hrequest hkind
  have hh := str_le_of_identifier hhandle fun c hc => charSize_of_isWord hc
  have hs := chars_le_of_isDigest hsession
  have hp := chars_le_of_isDigest hprofile
  have hone : nat 1 = 1 := by decide
  simp only [fields, List.map_cons, List.map_nil, List.sum_cons, List.sum_nil, hone]
  omega

theorem ExitLink.bytes_le {link : ExitLink} (h : link.valid) : link.bytes ≤ 250 := by
  simp only [valid, Bool.and_eq_true, decide_eq_true_eq] at h
  obtain ⟨⟨⟨⟨⟨-, hi⟩, -⟩, he⟩, hih⟩, heh⟩ := h
  have hintent := nat_le_of_lt (n := link.intentSeq) (by omega)
  have hexit := nat_le_of_lt (n := link.exitSeq) (by omega)
  have hintentHash := chars_le_of_isDigest hih
  have hexitHash := chars_le_of_isDigest heh
  have hframe : frame ["exit_hash", "exit_seq", "intent_hash", "intent_seq"] = 55 := by decide
  simp only [bytes, obj_eq, List.map_cons, List.map_nil, List.sum_cons, List.sum_nil, hframe]
  omega

theorem int_le_of_lt {i : ℤ} (h : -(2 ^ 31) ≤ i ∧ i < 2 ^ 31) : int i ≤ 21 := by
  have hn := nat_le_of_lt (n := i.natAbs) (by omega)
  rw [int]
  split <;> omega

/-- No payload that is well formed is too long to be stored. -/
theorem ProcessEvent.bytes_le {event : ProcessEvent} (h : event.wellFormed) :
    event.bytes ≤ event.maxBytes := by
  have hrecord : maxRecordBytes = 8192 := rfl
  have hack : maxAckBytes = 32768 := rfl
  have hcap : maxDispatches = 64 := rfl
  have hframe : frame ["handle", "profile_hash", "request", "schema_version",
      "session_hash"] = 72 :=
    by decide
  cases event with
  | dispatchIntent dispatch =>
    have hfields := ProcessDispatch.fields_le h
    simp only [bytes, maxBytes, obj_eq, ProcessDispatch.fields, List.map_cons, List.map_nil,
      hframe] at hfields ⊢
    omega
  | exitObserved dispatch exit =>
    simp only [wellFormed, ProcessExit.valid, Bool.and_eq_true, decide_eq_true_eq] at h
    obtain ⟨hd, ⟨⟨⟨⟨-, hseq⟩, hhash⟩, hlow⟩, hhigh⟩, houtput⟩ := h
    have hfields := ProcessDispatch.fields_le hd
    have hcode := int_le_of_lt ⟨hlow, hhigh⟩
    have hintent := nat_le_of_lt (n := exit.intentSeq) (by omega)
    have hbytes := nat_le_of_lt (n := exit.outputBytes) (by omega)
    have hintentHash := chars_le_of_isDigest hhash
    have hreason : word exit.reason.text ≤ 15 := by cases exit.reason <;> decide
    have htruncated : Canonical.bool exit.truncated ≤ 5 := by cases exit.truncated <;> decide
    have hframe : frame ["handle", "profile_hash", "request", "schema_version", "session_hash",
      "exit_code", "intent_hash", "intent_seq", "output_bytes", "reason", "truncated"] = 153 := by
      decide
    simp only [bytes, maxBytes, obj_eq, ProcessDispatch.fields, List.map_cons, List.map_nil,
      List.cons_append, List.nil_append, List.sum_cons, List.sum_nil, hframe] at hfields ⊢
    omega
  | closureAcknowledged binding exits =>
    simp only [wellFormed, Bool.and_eq_true, decide_eq_true_eq, List.all_eq_true] at h
    obtain ⟨⟨⟨hb, -⟩, hlength⟩, hlinks⟩ := h
    have hbinding := WorkerRunBinding.bytes_le hb
    have hsum : (exits.map ExitLink.bytes).sum ≤ exits.length * 250 := by
      have hs := List.sum_le_card_nsmul (exits.map ExitLink.bytes) 250 fun n hn => by
        obtain ⟨link, hl, rfl⟩ := List.mem_map.mp hn
        exact ExitLink.bytes_le (hlinks link hl)
      rwa [List.length_map, nsmul_eq_mul, Nat.cast_id] at hs
    have hframe : frame ["binding", "exits", "schema_version"] = 39 := by decide
    have hone : nat 1 = 1 := by decide
    simp only [bytes, maxBytes, obj_eq, arr, List.map_cons, List.map_nil, List.sum_cons,
      List.sum_nil, List.length_map, hframe, hone]
    omega

theorem ProcessEvent.valid_iff {event : ProcessEvent} : event.valid ↔ event.wellFormed := by
  simp only [valid, Bool.and_eq_true, decide_eq_true_eq]
  exact ⟨fun h => h.1, fun h => ⟨h, bytes_le h⟩⟩

/-! ### Chains -/

namespace ProcessChains

variable {hash : ProcessEvent → Digest} {c c' : ProcessChains} {binding : WorkerRunBinding}
  {row : ProcessRow} {rows : List ProcessRow} {seq : ℕ}

/-- What a row adds to the chains it follows. -/
inductive Added (hash : ProcessEvent → Digest) (c : ProcessChains) (row : ProcessRow) :
    ProcessChains → Prop
  | closure {binding : WorkerRunBinding} {exits : List ExitLink}
      (event : row.event = .closureAcknowledged binding exits)
      (links : ∀ link ∈ exits, c.link hash link.intentSeq = some link)
      (distinct : (exits.map ExitLink.intentSeq).Nodup) : Added hash c row c
  | dispatch {dispatch : ProcessDispatch} (event : row.event = .dispatchIntent dispatch)
      (fresh : ∀ intent ∈ c.intents, intent.2.request.operationId ≠ dispatch.request.operationId ∧
        intent.2.handle ≠ dispatch.handle) (room : c.intents.length < maxDispatches) :
      Added hash c row { c with intents := c.intents ++ [(row.seq, dispatch)] }
  | exit {dispatch : ProcessDispatch} {exit : ProcessExit}
      (event : row.event = .exitObserved dispatch exit)
      (start : c.intents.lookup exit.intentSeq = some dispatch)
      (digest : exit.intentHash = hash (.dispatchIntent dispatch))
      (open_ : c.terminals.lookup exit.intentSeq = none) :
      Added hash c row { c with
        terminals := c.terminals ++ [(exit.intentSeq, row.seq, dispatch, exit)] }

theorem add_eq_ok_iff : c.add hash binding row = .ok c' ↔
    (row.event.valid ∧ 1 ≤ row.seq ∧ row.event.binding = binding) ∧ Added hash c row c' := by
  obtain ⟨n, event⟩ := row
  constructor
  · intro h
    unfold add at h
    obtain ⟨_, hvalid, h⟩ := bind_eq_ok_iff.mp h
    obtain ⟨_, hbinding, h⟩ := bind_eq_ok_iff.mp h
    obtain ⟨hvalid, hseq⟩ := require_eq_ok_iff.mp hvalid
    refine ⟨⟨hvalid, hseq, require_eq_ok_iff.mp hbinding⟩, ?_⟩
    cases event with
    | dispatchIntent dispatch =>
      simp only [bind_eq_ok_iff, require_eq_ok_iff, pure_eq_ok_iff, List.all_eq_true,
        decide_eq_true_eq] at h
      obtain ⟨_, hfresh, _, hroom, rfl⟩ := h
      exact .dispatch rfl hfresh hroom
    | exitObserved dispatch exit =>
      simp only [bind_eq_ok_iff, require_eq_ok_iff, ofOption_eq_ok_iff, pure_eq_ok_iff] at h
      obtain ⟨start, hstart, _, ⟨hopen, hdigest, rfl⟩, rfl⟩ := h
      exact .exit rfl hstart hdigest hopen
    | closureAcknowledged b exits =>
      simp only [bind_eq_ok_iff, require_eq_ok_iff, pure_eq_ok_iff, List.all_eq_true,
        decide_eq_true_eq] at h
      obtain ⟨_, hlinks, _, hdistinct, rfl⟩ := h
      exact .closure rfl hlinks hdistinct
  · rintro ⟨⟨hvalid, hseq, hbinding⟩, h⟩
    unfold add
    rw [require_of ⟨hvalid, hseq⟩, ok_bind, require_of hbinding, ok_bind]
    cases h with
    | closure event links distinct =>
      cases event
      simp only [bind_eq_ok_iff, require_eq_ok_iff, pure_eq_ok_iff, List.all_eq_true,
        decide_eq_true_eq]
      exact ⟨(), links, (), distinct, trivial⟩
    | dispatch event fresh room =>
      cases event
      simp only [bind_eq_ok_iff, require_eq_ok_iff, pure_eq_ok_iff, List.all_eq_true,
        decide_eq_true_eq]
      exact ⟨(), fresh, (), room, trivial⟩
    | exit event start digest open_ =>
      cases event
      simp only [bind_eq_ok_iff, require_eq_ok_iff, ofOption_eq_ok_iff, pure_eq_ok_iff]
      exact ⟨_, start, (), ⟨open_, digest, rfl⟩, trivial⟩

def Reads (hash : ProcessEvent → Digest) (binding : WorkerRunBinding) (rows : List ProcessRow)
    (c : ProcessChains) : Prop :=
  rows.foldlM (fun (c : ProcessChains) row => c.add hash binding row) {} = .ok c

theorem reads_nil : Reads hash binding [] {} := rfl

theorem Reads.unique (h : Reads hash binding rows c) (h' : Reads hash binding rows c') :
    c = c' := by
  rw [Reads, h] at h'
  cases h'
  rfl

theorem reads_concat : Reads hash binding (rows ++ [row]) c' ↔
    ∃ c, Reads hash binding rows c ∧ c.add hash binding row = .ok c' := by
  rw [Reads, List.foldlM_append, bind_eq_ok_iff]
  simp only [List.foldlM_cons, List.foldlM_nil, bind_pure]
  rfl

theorem Reads.valid (h : Reads hash binding rows c) (hr : row ∈ rows) : row.event.valid := by
  induction rows using List.reverseRecOn generalizing c with
  | nil => cases hr
  | append_singleton rows r ih =>
    obtain ⟨c₀, hc, ha⟩ := reads_concat.mp h
    rcases List.mem_append.mp hr with hr | hr
    · exact ih hc hr
    · rw [List.mem_singleton.mp hr]
      exact (add_eq_ok_iff.mp ha).1.1

/-- What holds of chains that have been read from rows. -/
structure Of (rows : List ProcessRow) (c : ProcessChains) : Prop where
  dispatches : c.intents.length = dispatchCount rows
  exits : c.terminals.length = exitCount rows
  room : c.intents.length ≤ maxDispatches
  operations : (c.intents.map (·.2.request.operationId)).Nodup
  handles : (c.intents.map (·.2.handle)).Nodup
  ended : (c.terminals.map Prod.fst).Nodup
  started : ∀ seq ∈ c.terminals.map Prod.fst, seq ∈ c.intents.map Prod.fst
  seqs : (c.intents.map Prod.fst).Sublist (rows.map ProcessRow.seq)

theorem mem_keys_of_lookup {β : Type} {l : List (ℕ × β)} {b : β} (h : l.lookup seq = some b) :
    seq ∈ l.map Prod.fst := by
  induction l with
  | nil => cases h
  | cons e l ih =>
    rw [List.lookup_cons] at h
    split at h
    next he => exact List.mem_cons.mpr (.inl (beq_iff_eq.mp he))
    next => exact List.mem_cons_of_mem _ (ih h)

theorem lookup_eq_none_iff {β : Type} {l : List (ℕ × β)} :
    l.lookup seq = none ↔ seq ∉ l.map Prod.fst := by
  rw [List.lookup_eq_none_iff, List.mem_map]
  constructor
  · rintro h ⟨e, he, rfl⟩
    simpa using h e he
  · intro h e he
    rw [bne_iff_ne]
    rintro rfl
    exact h ⟨e, he, rfl⟩

theorem Added.of (ha : Added hash c row c') (h : c.Of rows) : c'.Of (rows ++ [row]) := by
  have hsub : (c.intents.map Prod.fst).Sublist ((rows ++ [row]).map ProcessRow.seq) := by
    rw [List.map_append]
    exact h.seqs.trans (List.sublist_append_left _ _)
  cases ha with
  | closure event =>
    refine ⟨?_, ?_, h.room, h.operations, h.handles, h.ended, h.started, hsub⟩
    · rw [dispatchCount_concat, event, h.dispatches]
      rfl
    · rw [exitCount_concat, event, h.exits]
      rfl
  | dispatch event fresh room =>
    refine ⟨?_, ?_, ?_, ?_, ?_, h.ended, ?_, ?_⟩
    · rw [dispatchCount_concat, event, List.length_append, h.dispatches]
      rfl
    · rw [exitCount_concat, event, h.exits]
      rfl
    · rw [List.length_append]
      exact room
    · rw [List.map_append, List.nodup_append]
      refine ⟨h.operations, List.nodup_singleton _, ?_⟩
      intro a ha b hb
      obtain ⟨intent, hi, rfl⟩ := List.mem_map.mp ha
      rw [List.mem_singleton.mp hb]
      exact (fresh intent hi).1
    · rw [List.map_append, List.nodup_append]
      refine ⟨h.handles, List.nodup_singleton _, ?_⟩
      intro a ha b hb
      obtain ⟨intent, hi, rfl⟩ := List.mem_map.mp ha
      rw [List.mem_singleton.mp hb]
      exact (fresh intent hi).2
    · intro seq hs
      rw [List.map_append]
      exact List.mem_append_left _ (h.started seq hs)
    · rw [List.map_append, List.map_append]
      exact h.seqs.append (.refl _)
  | exit event start digest open_ =>
    refine ⟨?_, ?_, h.room, h.operations, h.handles, ?_, ?_, hsub⟩
    · rw [dispatchCount_concat, event, h.dispatches]
      rfl
    · rw [exitCount_concat, event, List.length_append, h.exits]
      rfl
    · rw [List.map_append, List.nodup_append]
      refine ⟨h.ended, List.nodup_singleton _, ?_⟩
      intro a ha b hb
      rw [List.mem_singleton.mp hb]
      rintro rfl
      exact lookup_eq_none_iff.mp open_ ha
    · intro seq hs
      rw [List.map_append, List.mem_append] at hs
      rcases hs with hs | hs
      · exact h.started seq hs
      · rw [List.mem_singleton.mp hs]
        exact mem_keys_of_lookup start

theorem Of.nil : ({} : ProcessChains).Of [] :=
  ⟨rfl, rfl, Nat.zero_le _, .nil, .nil, .nil, fun _ h => h, .slnil⟩

theorem Reads.of (h : Reads hash binding rows c) : c.Of rows := by
  induction rows using List.reverseRecOn generalizing c with
  | nil =>
    cases h
    exact .nil
  | append_singleton rows row ih =>
    obtain ⟨c₀, hc, ha⟩ := reads_concat.mp h
    exact (add_eq_ok_iff.mp ha).2.of (ih hc)

theorem Of.ended_le (h : c.Of rows) : c.terminals.length ≤ c.intents.length := by
  have hsub := List.subperm_of_subset h.ended h.started
  have hle := hsub.length_le
  rwa [List.length_map, List.length_map] at hle

theorem Of.length_eq (h : c.Of rows) : rows.length =
    c.intents.length + c.terminals.length + closureCount rows := by
  have hkinds : ∀ rows : List ProcessRow, rows.length =
      dispatchCount rows + exitCount rows + closureCount rows := by
    intro rows
    induction rows with
    | nil => rfl
    | cons row rows ih =>
      have hone : (if row.event.isDispatch then 1 else 0) + (if row.event.isExit then 1 else 0) +
          (if row.event.isClosure then 1 else 0) = 1 := by cases row.event <;> rfl
      simp only [dispatchCount, exitCount, closureCount, List.countP_cons, List.length_cons] at ih ⊢
      omega
  rw [hkinds rows, h.dispatches, h.exits]

end ProcessChains

/-! ### What the reader returns -/

section Reader

open ProcessChains

variable {hash : ProcessEvent → Digest} {rows rows' : List ProcessRow} {row : ProcessRow}
  {runId : RunId} {expected actual : Option WorkerRunBinding} {binding : WorkerRunBinding}
  {c c' : ProcessChains} {event : ProcessEvent}

theorem rowsOf_concat (h : row.event.binding.runId = runId) :
    rowsOf runId (rows ++ [row]) = rowsOf runId rows ++ [row] := by
  simp [rowsOf, h]

theorem rowsOf_concat_of_ne (h : row.event.binding.runId ≠ runId) :
    rowsOf runId (rows ++ [row]) = rowsOf runId rows := by
  simp [rowsOf, h]

theorem mem_rowsOf : row ∈ rowsOf runId rows ↔ row ∈ rows ∧ row.event.binding.runId = runId := by
  simp [rowsOf]

theorem chains_of_nil (h : rowsOf runId rows = []) :
    chains hash rows runId expected actual = .ok {} := by
  rw [chains, h, require_of (by decide), ok_bind, if_pos rfl]
  rfl

theorem chains_of_reads (hb : binding.valid) (hlength : (rowsOf runId rows).length ≤ maxRunRows)
    (h : Reads hash binding (rowsOf runId rows) c) :
    chains hash rows runId (some binding) (some binding) = .ok c := by
  rw [chains, require_of hlength, ok_bind]
  split
  next hn =>
    rw [hn] at h
    cases h
    rfl
  next =>
    rw [ofOption, ok_bind, require_of hb, ok_bind, require_of rfl, ok_bind]
    exact h

theorem chains_spec (h : chains hash rows runId expected actual = .ok c) :
    (rowsOf runId rows = [] ∧ c = {}) ∨ ∃ binding, expected = some binding ∧ actual = some binding ∧
      Reads hash binding (rowsOf runId rows) c := by
  simp only [chains] at h
  obtain ⟨_, -, h⟩ := bind_eq_ok_iff.mp h
  split at h
  next hn =>
    cases h
    exact .inl ⟨hn, rfl⟩
  next =>
    obtain ⟨binding, hb, h⟩ := bind_eq_ok_iff.mp h
    obtain ⟨_, -, h⟩ := bind_eq_ok_iff.mp h
    obtain ⟨_, ha, h⟩ := bind_eq_ok_iff.mp h
    exact .inr ⟨binding, ofOption_eq_ok_iff.mp hb, require_eq_ok_iff.mp ha, h⟩

theorem reads_of_chains (h : chains hash rows runId (some binding) actual = .ok c) :
    Reads hash binding (rowsOf runId rows) c := by
  rcases chains_spec h with ⟨hn, rfl⟩ | ⟨b, hb, -, hr⟩
  · rw [hn]
    exact reads_nil
  · cases hb
    exact hr

theorem insertProcessRow_eq_ok_iff : insertProcessRow rows event = .ok rows' ↔
    event.valid ∧ rows' = rows ++ [⟨nextSeq rows, event⟩] := by
  rw [insertProcessRow, bind_eq_ok_iff]
  constructor
  · rintro ⟨_, hv, h⟩
    exact ⟨require_eq_ok_iff.mp hv, (pure_eq_ok_iff.mp h).symm⟩
  · rintro ⟨hv, rfl⟩
    exact ⟨(), require_of hv, rfl⟩

theorem seq_lt_nextSeq (h : row ∈ rows) : row.seq < nextSeq rows := by
  rw [nextSeq, Nat.lt_succ_iff]
  induction rows with
  | nil => cases h
  | cons r rows ih =>
    rw [List.map_cons, List.foldr_cons]
    rcases List.mem_cons.mp h with rfl | h
    · exact le_max_left ..
    · exact (ih h).trans (le_max_right ..)

theorem ProcessEvent.valid_binding (h : event.valid) : event.binding.valid := by
  have hw := valid_iff.mp h
  cases event <;>
    simp only [wellFormed, ProcessDispatch.valid, WorkerOperationRequest.valid, Bool.and_eq_true,
      binding] at hw ⊢
  · exact hw.1.1.1.1.1.1.1.1
  · exact hw.1.1.1.1.1.1.1.1.1
  · exact hw.1.1.1

end Reader

end OrchKit.Bridge
