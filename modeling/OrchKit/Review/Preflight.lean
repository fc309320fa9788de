import OrchKit.Data.Lines
import OrchKit.Ledger.Declared

/-! # Responses before a review

The responses of the app server are read in chunks until all that are awaited are there. A chunk
may end anywhere in a line, and the lines of a chunk are all handled even if an earlier one of them
has completed the responses. So the chunks can decide whether the responses are accepted: just when
what may come in one chunk with the last of them is too much, or has a line that is refused.
-/

namespace OrchKit.Preflight

open Except Json Lines

abbrev Bytes := List UInt8

def newline : UInt8 := 10

def preflightMaxBytes : ℕ := 256 * 1024

/-- The size that `os.read` is asked for. -/
def readBytes : ℕ := 8192

abbrev Responses := List (ℤ × Fields)

section Reading

variable (loads : Bytes → Parsed) (expected : List ℤ)

/-- Store the message if it is a response that is awaited. -/
def store (result : Responses) (message : Fields) : Checked Responses :=
  match (get message "id").int? with
  | some ident =>
    if ident ∈ expected then do
      require (ident ∉ result.map Prod.fst) (.value "codex_preflight_duplicate_response")
      return result ++ [(ident, message)]
    else return result
  | none => return result

/-- One round of the loop over the lines. -/
def readLine (result : Responses) (line : Bytes) : Checked Responses :=
  match loads line with
  | .value (.obj message) => store expected result message
  | .value _ => .error (.value "codex_preflight_invalid_response")
  | .malformed | .fault (.valueError _) => .error (.value "codex_preflight_invalid_json")
  | .fault fault => .error (ofFault fault)

/-- `set(result) == expected`. -/
def collected (result : Responses) : Bool :=
  expected.all (fun ident => ident ∈ result.map Prod.fst) &&
    result.all fun response => response.1 ∈ expected

def clean (result : Responses) : Bool :=
  result.all fun response => !(get response.2 "error").truthy

structure State where
  result : Responses := []
  pending : Bytes := []
  used : ℕ := 0

/-- One round of the loop over the chunks. -/
def readChunk (s : State) (data : Bytes) : Checked State := do
  let used := s.used + data.length
  require (used ≤ preflightMaxBytes) (.value "codex_preflight_too_large")
  let (lines, pending) := cut newline (s.pending ++ data)
  let result ← lines.foldlM (readLine loads expected) s.result
  return ⟨result, pending, used⟩

def finish (result : Responses) : Checked Responses := do
  require (collected expected result ∧ clean result) (.value "codex_preflight_incomplete")
  return result

/-- The loop over the chunks that are still to come; there is nothing to read after the last. -/
def readChunks (s : State) : List Bytes → Checked Responses
  | [] => finish expected s.result
  | data :: chunks =>
    if collected expected s.result then finish expected s.result
    else do
      let s ← readChunk loads expected s data
      readChunks s chunks

/-- `_read_preflight_responses`, without its deadline. -/
def readPreflightResponses (chunks : List Bytes) : Checked Responses :=
  readChunks loads expected {} chunks

/-- The chunks are what reads can make of the stream. -/
structure Splits (stream : Bytes) (chunks : List Bytes) : Prop where
  flatten_eq : chunks.flatten = stream
  sized : ∀ data ∈ chunks, data ≠ [] ∧ data.length ≤ readBytes

/-! ### When all responses are there -/

/-- What the lines come to that are complete in the first `n` bytes. -/
abbrev responses (stream : Bytes) (n : ℕ) : Checked Responses :=
  scan newline (readLine loads expected) [] (stream.take n)

/-- The `n`th byte brings the last response that is awaited, none reports an error, and no more
bytes than allowed were read for them. -/
structure CollectedAt (stream : Bytes) (n : ℕ) (result : Responses) : Prop where
  le_length : n ≤ stream.length
  le_max : n ≤ preflightMaxBytes
  responses_eq : responses loads expected stream n = .ok result
  collected : collected expected result
  clean : clean result
  least : ∀ k < n, ∀ earlier, responses loads expected stream k = .ok earlier →
    ¬ Preflight.collected expected earlier

/-- The last byte that can come in one chunk with the `n`th. -/
def reach (stream : Bytes) (n : ℕ) : ℕ := min stream.length (n + (readBytes - 1))

/-- If all responses are there at some byte, what can come in one chunk with it is not too much and
none of its lines is refused. -/
def Steady (stream : Bytes) : Prop :=
  ∀ n result, CollectedAt loads expected stream n result → 0 < n →
    reach stream n ≤ preflightMaxBytes ∧
      ∃ later, responses loads expected stream (reach stream n) = .ok later

end Reading

section Chunks

variable {loads : Bytes → Parsed} {expected : List ℤ} {stream : Bytes} {k m n : ℕ}
  {result : Responses} {chunks : List Bytes}

/-! ### Lines after the last response -/

theorem readLine_of_collected {later : Responses} {line : Bytes}
    (h : collected expected result) (hline : readLine loads expected result line = .ok later) :
    later = result := by
  have hall : ∀ ident ∈ expected, ident ∈ result.map Prod.fst := by
    intro ident hident
    rw [collected, Bool.and_eq_true] at h
    exact of_decide_eq_true (List.all_eq_true.mp h.1 ident hident)
  unfold readLine at hline
  split at hline
  case h_1 message _ =>
    unfold store at hline
    split at hline
    case h_1 ident _ =>
      split at hline
      next hmem =>
        rw [require, if_neg (not_not.mpr (hall ident hmem)), error_bind] at hline
        cases hline
      next => exact (pure_eq_ok_iff.mp hline).symm
    case h_2 => exact (pure_eq_ok_iff.mp hline).symm
  all_goals cases hline

theorem CollectedAt.later_eq (h : CollectedAt loads expected stream n result) (hle : n ≤ k)
    {later : Responses} (hlater : responses loads expected stream k = .ok later) :
    later = result :=
  scan_take_of_le (fun _ _ => readLine_of_collected h.collected) hle h.responses_eq hlater

/-! ### Where the reading stops -/

/-- The end of the first chunk that reaches the `n`th byte, after `k` bytes. -/
def boundary (n k : ℕ) : List Bytes → ℕ
  | [] => k
  | data :: chunks => if n ≤ k then k else boundary n (k + data.length) chunks

theorem le_boundary : k ≤ boundary n k chunks := by
  induction chunks generalizing k with
  | nil => exact le_rfl
  | cons data chunks ih =>
    rw [boundary]
    split
    · exact le_rfl
    · exact (Nat.le_add_right k data.length).trans ih

theorem boundary_le_length : boundary n k chunks ≤ k + chunks.flatten.length := by
  induction chunks generalizing k with
  | nil => exact Nat.le_add_right k _
  | cons data chunks ih =>
    rw [boundary, List.flatten_cons, List.length_append]
    split
    · omega
    · have := @ih (k + data.length)
      omega

theorem boundary_lt (hsized : ∀ data ∈ chunks, data.length ≤ readBytes) (h : k < n) :
    boundary n k chunks ≤ n + (readBytes - 1) := by
  induction chunks generalizing k with
  | nil =>
    rw [boundary]
    omega
  | cons data chunks ih =>
    rw [List.forall_mem_cons] at hsized
    rw [boundary, if_neg (by omega)]
    rcases Nat.lt_or_ge (k + data.length) n with hlt | hge
    · exact ih hsized.2 hlt
    · have hstop : boundary n (k + data.length) chunks = k + data.length := by
        cases chunks with
        | nil => rfl
        | cons _ _ => exact if_pos hge
      have := hsized.1
      have : 0 < readBytes := by decide
      omega

theorem boundary_append {before rest : List Bytes} {data : Bytes}
    (hbefore : k + before.flatten.length < n)
    (hdata : n ≤ k + before.flatten.length + data.length) :
    boundary n k (before ++ data :: rest) = k + before.flatten.length + data.length := by
  induction before generalizing k with
  | nil =>
    rw [List.flatten_nil, List.length_nil, Nat.add_zero] at hbefore hdata ⊢
    rw [List.nil_append, boundary, if_neg (by omega)]
    cases rest with
    | nil => rfl
    | cons _ _ => exact if_pos hdata
  | cons first before ih =>
    rw [List.flatten_cons, List.length_append, ← Nat.add_assoc] at hbefore hdata ⊢
    rw [List.cons_append, boundary, if_neg (by omega), ih hbefore hdata]

/-! ### A reading -/

/-- What the reader holds after the first `n` bytes. -/
structure At (loads : Bytes → Parsed) (expected : List ℤ) (stream : Bytes) (n : ℕ) (s : State) :
    Prop where
  used_eq : s.used = n
  le_max : n ≤ preflightMaxBytes
  responses_eq : responses loads expected stream n = .ok s.result
  pending_eq : s.pending = (cut newline (stream.take n)).2

variable {s t : State} {data rest : Bytes}

theorem at_zero : At loads expected stream 0 {} := ⟨rfl, Nat.zero_le _, rfl, rfl⟩

theorem take_add_of_drop (h : stream.drop n = data ++ rest) :
    stream.take (n + data.length) = stream.take n ++ data := by
  rw [List.take_add, h, List.take_left]

/-- A chunk is read unless there are too many bytes or one of its lines is refused. -/
theorem At.readChunk_eq_ok_iff (h : At loads expected stream n s)
    (hdata : stream.drop n = data ++ rest) :
    readChunk loads expected s data = .ok t ↔ At loads expected stream (n + data.length) t := by
  have hscan : responses loads expected stream (n + data.length) =
      (cut newline (s.pending ++ data)).1.foldlM (readLine loads expected) s.result := by
    have hbefore : scan newline (readLine loads expected) [] (stream.take n) = .ok s.result :=
      h.responses_eq
    rw [responses, take_add_of_drop hdata, scan_append, hbefore, ← h.pending_eq, ok_bind]
  have hcut : (cut newline (stream.take (n + data.length))).2 =
      (cut newline (s.pending ++ data)).2 := by
    rw [take_add_of_drop hdata, cut_append, h.pending_eq]
  simp only [readChunk, bind_eq_ok_iff, require_eq_ok_iff, pure_eq_ok_iff, ← hscan, ← hcut,
    h.used_eq]
  constructor
  · rintro ⟨-, hmax, _, hlines, rfl⟩
    exact ⟨rfl, hmax, hlines, rfl⟩
  · intro hat
    refine ⟨(), hat.le_max, t.result, hat.responses_eq, ?_⟩
    cases t
    simp only [State.mk.injEq, true_and]
    exact ⟨hat.pending_eq.symm, hat.used_eq.symm⟩

theorem finish_eq_ok_iff {returned : Responses} : finish expected result = .ok returned ↔
    (collected expected result ∧ clean result) ∧ result = returned := by
  simp only [finish, bind_eq_ok_iff, require_eq_ok_iff, pure_eq_ok_iff]
  constructor
  · rintro ⟨-, h, hresult⟩
    exact ⟨h, hresult⟩
  · rintro ⟨h, hresult⟩
    exact ⟨(), h, hresult⟩

/-- A reader that returns has all responses at some byte that it has reached. -/
theorem At.exists_of_readChunks (h : At loads expected stream n s)
    (hrest : stream.drop n = chunks.flatten)
    (hread : readChunks loads expected s chunks = .ok result) :
    ∃ k ≤ stream.length, k ≤ preflightMaxBytes ∧
      responses loads expected stream k = .ok result ∧ collected expected result ∧
        clean result := by
  have stop : ∀ {s n}, At loads expected stream n s → finish expected s.result = .ok result →
      ∃ k ≤ stream.length, k ≤ preflightMaxBytes ∧
        responses loads expected stream k = .ok result ∧ collected expected result ∧
          clean result := by
    intro s n h hfinish
    obtain ⟨⟨hcollected, hclean⟩, rfl⟩ := finish_eq_ok_iff.mp hfinish
    refine ⟨min n stream.length, min_le_right _ _, (min_le_left _ _).trans h.le_max, ?_,
      hcollected, hclean⟩
    rw [← h.responses_eq, responses, responses, ← List.take_take, List.take_length]
  induction chunks generalizing n s with
  | nil => exact stop h hread
  | cons data chunks ih =>
    rw [readChunks] at hread
    split at hread
    · exact stop h hread
    · obtain ⟨t, ht, hread⟩ := bind_eq_ok_iff.mp hread
      rw [List.flatten_cons] at hrest
      have hnext : stream.drop (n + data.length) = chunks.flatten := by
        rw [← List.drop_drop, hrest, List.drop_left]
      exact ih ((h.readChunk_eq_ok_iff hrest).mp ht) hnext hread

/-- The responses are returned just if the chunk that brings the last of them is not too much and
has no line that is refused. -/
theorem CollectedAt.readChunks_eq_ok_iff (hc : CollectedAt loads expected stream k result)
    (h : At loads expected stream n s) (hrest : stream.drop n = chunks.flatten)
    (hn : n ≤ stream.length) :
    readChunks loads expected s chunks = .ok result ↔
      boundary k n chunks ≤ preflightMaxBytes ∧
        ∃ later, responses loads expected stream (boundary k n chunks) = .ok later := by
  have stop : ∀ {s n}, At loads expected stream n s → k ≤ n →
      (finish expected s.result = .ok result ↔
        n ≤ preflightMaxBytes ∧ ∃ later, responses loads expected stream n = .ok later) := by
    intro s n h hle
    have hfinal := hc.later_eq hle h.responses_eq
    rw [finish_eq_ok_iff, hfinal]
    exact iff_of_true ⟨⟨hc.collected, hc.clean⟩, rfl⟩ ⟨h.le_max, s.result, h.responses_eq⟩
  induction chunks generalizing n s with
  | nil =>
    have hlength := congrArg List.length hrest
    rw [List.length_drop, List.flatten_nil, List.length_nil] at hlength
    have hle : k ≤ n := by
      have := hc.le_length
      omega
    exact stop h hle
  | cons data chunks ih =>
    rw [readChunks, boundary]
    by_cases hle : k ≤ n
    · have hcollected : Preflight.collected expected s.result := by
        rw [hc.later_eq hle h.responses_eq]
        exact hc.collected
      rw [if_pos hle, if_pos hcollected]
      exact stop h hle
    · rw [if_neg hle, if_neg (hc.least n (by omega) _ h.responses_eq)]
      rw [List.flatten_cons] at hrest
      have hlength := congrArg List.length hrest
      rw [List.length_drop, List.length_append] at hlength
      have hnext : stream.drop (n + data.length) = chunks.flatten := by
        rw [← List.drop_drop, hrest, List.drop_left]
      rw [bind_eq_ok_iff]
      constructor
      · rintro ⟨t, ht, hread⟩
        exact (ih ((h.readChunk_eq_ok_iff hrest).mp ht) hnext (by omega)).mp hread
      · rintro ⟨hmax, later, hlater⟩
        have hbound : n + data.length ≤ boundary k (n + data.length) chunks := le_boundary
        obtain ⟨after, hafter⟩ := scan_take_ok hbound hlater
        have hat : At loads expected stream (n + data.length)
            ⟨after, (cut newline (stream.take (n + data.length))).2, n + data.length⟩ :=
          ⟨rfl, hbound.trans hmax, hafter, rfl⟩
        exact ⟨_, (h.readChunk_eq_ok_iff hrest).mpr hat,
          (ih hat hnext (by omega)).mpr ⟨hmax, later, hlater⟩⟩

/-! ### Readings of one stream -/

theorem readPreflightResponses_eq_ok_iff (hc : CollectedAt loads expected stream n result)
    (hsplits : Splits stream chunks) :
    readPreflightResponses loads expected chunks = .ok result ↔
      boundary n 0 chunks ≤ preflightMaxBytes ∧
        ∃ later, responses loads expected stream (boundary n 0 chunks) = .ok later :=
  hc.readChunks_eq_ok_iff at_zero hsplits.flatten_eq.symm (Nat.zero_le _)

/-- Whatever is returned is what there was at the byte that brought the last response. -/
theorem exists_collectedAt (hsplits : Splits stream chunks)
    (hread : readPreflightResponses loads expected chunks = .ok result) :
    ∃ n, CollectedAt loads expected stream n result := by
  let p : ℕ → Prop := fun n =>
    ∃ earlier, responses loads expected stream n = .ok earlier ∧ collected expected earlier
  obtain ⟨k, hlength, hmax, hresult, hcollected, hclean⟩ :=
    At.exists_of_readChunks at_zero hsplits.flatten_eq.symm hread
  classical
  have hex : ∃ n, p n := ⟨k, result, hresult, hcollected⟩
  obtain ⟨earlier, hearlier, hearlierCollected⟩ := Nat.find_spec hex
  have hle : Nat.find hex ≤ k := Nat.find_le ⟨result, hresult, hcollected⟩
  have hsame : result = earlier :=
    scan_take_of_le (fun _ _ => readLine_of_collected hearlierCollected) hle hearlier hresult
  refine ⟨Nat.find hex, hle.trans hlength, hle.trans hmax, hsame ▸ hearlier, hcollected, hclean,
    fun j hj other hother hcomplete => ?_⟩
  exact Nat.find_min hex hj ⟨other, hother, hcomplete⟩

theorem Splits.boundary_le_reach (h : Splits stream chunks) (hn : 0 < n) :
    boundary n 0 chunks ≤ reach stream n := by
  apply le_min
  · have hlength : boundary n 0 chunks ≤ 0 + chunks.flatten.length := boundary_le_length
    rwa [h.flatten_eq, Nat.zero_add] at hlength
  · exact boundary_lt (fun data hdata => (h.sized data hdata).2) hn

/-- One byte at a time up to the `n`th, then all up to the `m`th at once. -/
def splitAt (stream : Bytes) (n m : ℕ) : List Bytes :=
  (stream.take (n - 1)).map ([·]) ++ (stream.take m).drop (n - 1) :: (stream.drop m).map ([·])

theorem flatten_singles {bytes : Bytes} : (bytes.map ([·])).flatten = bytes := by
  induction bytes with
  | nil => rfl
  | cons b bytes ih => rw [List.map_cons, List.flatten_cons, ih, List.singleton_append]

theorem length_slice (hm : m ≤ stream.length) :
    ((stream.take m).drop (n - 1)).length = m - (n - 1) := by
  rw [List.length_drop, List.length_take, min_eq_left hm]

theorem splits_splitAt (hn : 0 < n) (hnm : n ≤ m) (hm : m ≤ reach stream n) :
    Splits stream (splitAt stream n m) := by
  have hlength : m ≤ stream.length := hm.trans (min_le_left _ _)
  have hsize : m ≤ n + (readBytes - 1) := hm.trans (min_le_right _ _)
  have hpos : 0 < readBytes := by decide
  constructor
  · have htake : stream.take (n - 1) = (stream.take m).take (n - 1) := by
      rw [List.take_take, min_eq_left (by omega)]
    rw [splitAt, List.flatten_append, List.flatten_cons, flatten_singles, flatten_singles,
      ← List.append_assoc, htake, List.take_append_drop, List.take_append_drop]
  · have single : ∀ bytes : Bytes, ∀ data ∈ bytes.map ([·]),
        data ≠ [] ∧ data.length ≤ readBytes := by
      intro bytes data hdata
      obtain ⟨b, -, rfl⟩ := List.mem_map.mp hdata
      exact ⟨List.cons_ne_nil _ _, hpos⟩
    intro data hdata
    rcases List.mem_append.mp hdata with hdata | hdata
    · exact single _ data hdata
    · rcases List.mem_cons.mp hdata with rfl | hdata
      · have hslice := @length_slice stream m n hlength
        constructor
        · apply List.ne_nil_of_length_pos
          omega
        · omega
      · exact single _ data hdata

theorem boundary_splitAt (hn : 0 < n) (hnm : n ≤ m) (hm : m ≤ reach stream n) :
    boundary n 0 (splitAt stream n m) = m := by
  have hlength : m ≤ stream.length := hm.trans (min_le_left _ _)
  have hslice := @length_slice stream m n hlength
  have hbefore : ((stream.take (n - 1)).map ([·])).flatten.length = n - 1 := by
    rw [flatten_singles, List.length_take, min_eq_left (by omega)]
  rw [splitAt, boundary_append (by omega) (by omega)]
  omega

/-- Every two readings of a stream return the same responses or both refuse, just if the stream is
steady. -/
theorem chunkIndependent_iff :
    (∀ chunks chunks', Splits stream chunks → Splits stream chunks' → ∀ result,
      readPreflightResponses loads expected chunks = .ok result ↔
        readPreflightResponses loads expected chunks' = .ok result) ↔
      Steady loads expected stream := by
  constructor
  · intro h n result hc hn
    have hle : n ≤ reach stream n := le_min hc.le_length (Nat.le_add_right n _)
    have hshort := splits_splitAt hn le_rfl hle
    have hlong := splits_splitAt hn hle (le_refl (reach stream n))
    have hreturned : readPreflightResponses loads expected (splitAt stream n n) = .ok result := by
      rw [readPreflightResponses_eq_ok_iff hc hshort, boundary_splitAt hn le_rfl hle]
      exact ⟨hc.le_max, result, hc.responses_eq⟩
    have hother := (h _ _ hshort hlong result).mp hreturned
    rwa [readPreflightResponses_eq_ok_iff hc hlong, boundary_splitAt hn hle le_rfl] at hother
  · intro h chunks chunks' hsplits hsplits' result
    have follows : ∀ {chunks chunks' result}, Splits stream chunks → Splits stream chunks' →
        readPreflightResponses loads expected chunks = .ok result →
          readPreflightResponses loads expected chunks' = .ok result := by
      intro chunks chunks' result hsplits hsplits' hread
      obtain ⟨n, hc⟩ := exists_collectedAt hsplits hread
      rw [readPreflightResponses_eq_ok_iff hc hsplits']
      rcases Nat.eq_zero_or_pos n with rfl | hn
      · have hzero : boundary 0 0 chunks' = 0 := by cases chunks' <;> rfl
        rw [hzero]
        exact ⟨Nat.zero_le _, result, hc.responses_eq⟩
      · obtain ⟨hmax, later, hlater⟩ := h n result hc hn
        have hreach := hsplits'.boundary_le_reach hn
        exact ⟨hreach.trans hmax, scan_take_ok hreach hlater⟩
    constructor
    · exact follows hsplits hsplits'
    · exact follows hsplits' hsplits

end Chunks

namespace Scenario

/-- The line `r` is the response that is awaited. -/
def loads (line : Bytes) : Parsed :=
  if line = [114] then .value (object [("id", nat 0)]) else .malformed

def stream : Bytes := [114, 10, 120, 10]

theorem splits_one : Splits stream [[114, 10, 120, 10]] := by
  constructor
  · rfl
  · decide

theorem splits_two : Splits stream [[114, 10], [120, 10]] := by
  constructor
  · rfl
  · decide

end Scenario

theorem not_chunkIndependent :
    ¬ ∀ (loads : Bytes → Parsed) (expected : List ℤ) (stream : Bytes) (chunks chunks' : List Bytes),
      Splits stream chunks → Splits stream chunks' → ∀ result,
        readPreflightResponses loads expected chunks = .ok result ↔
          readPreflightResponses loads expected chunks' = .ok result := by
  intro h
  have hreturned : readPreflightResponses Scenario.loads [0] [[114, 10], [120, 10]] =
      .ok [(0, [(.str "id", nat 0)])] := by
    rfl
  have hrefused : (readPreflightResponses Scenario.loads [0] [[114, 10, 120, 10]]).isOk =
      false := by
    rfl
  have hsame := (h _ _ _ _ _ Scenario.splits_two Scenario.splits_one _).mp hreturned
  rw [hsame] at hrefused
  cases hrefused

end OrchKit.Preflight
