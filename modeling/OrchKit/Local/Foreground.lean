import OrchKit.Local.Slicing
import OrchKit.Local.Transport

/-! # The foreground service

It serves one session on one connection at a time, and its requests with the adapters themselves.
What an adapter may put out is what the envelope of the response leaves of the budget, in groups of
three bytes, so that a file or a directory is answered with exactly where the answer fits.
-/

namespace OrchKit.Local

open Bridge Json Except

/-! ### The service -/

section Foreground

variable (svc : Service) (route : Route)

/-- `send_frame`: the frame, unless it is too long. -/
def sendFrame (v : Value) (budget : Option ℕ) : Option Bytes :=
  if min svc.limits.maxFrameBytes (budget.getD svc.limits.maxResponseBytes) <
      (encodePayload svc v).length then none
  else some (frame svc v)

/-- `_dispatch`. -/
def dispatch (request : LocalRequest svc.limits) (a : Native) : Checked Value :=
  let refused (code : String) : Value := refusal svc code (some (.file request)) (some route)
  match request.operation with
  | .status => do
    require (a.status = true) (.value "local_bridge_authority_denied")
    return fitted svc route request (response svc route request "" (some (sessionStatus svc route)))
  | .file kind =>
    let raw := nativePayloadBudget svc (response svc route request "" none) request.maxResponseBytes
    if raw < 1 then .ok (refused "local_bridge_response_too_large")
    else do
      let operation ← operationRequest route.binding request.requestId kind
        (request.target.getD "") raw
      match (if operation.kind = .fileRead then readFile a.file operation
        else listDirectory a.directory operation) with
      | .succeeded output =>
        return fitted svc route request
          (response svc route request (String.ofList (base64 output)) none)
      | .failed code => return refused (
          if code ∈ ["file_read_too_large", "file_list_too_large"] then
            "local_bridge_response_too_large" else "local_bridge_io_failed")
      | .refused code | .unknown code => return refused (
          if code ∈ ["file_read_too_large", "file_list_too_large"] then
            "local_bridge_response_too_large" else "local_bridge_operation_denied")

/-- What comes of a request: the frame that is sent, if one is, whether the connection takes
another request, and whether the service goes on. -/
structure Exchange where
  sent : Option Bytes
  another : Bool
  serving : Bool

/-- A turn of the loop of `_serve_connection`, for a request that has been decoded. -/
def exchange (fields : Fields) (a : Native) : Exchange :=
  match validateRequest fields svc.limits with
  | none =>
      ⟨sendFrame svc (refusal svc "local_bridge_invalid_request" (none : Option (Asked svc.limits))
      (some route)) (Transport.refusalBudget svc.limits fields), false, true⟩
  | some request =>
    let budget := some request.maxResponseBytes
    if request.sessionId ≠ route.sessionId then
      ⟨sendFrame svc (refusal svc "local_bridge_session_denied" (some (.file request)) (some route))
        budget, false, true⟩
    else
      let made : Checked Value := do
        requireLive a.before
        let v ← dispatch svc route request a
        requireLive a.after
        return v
      match made with
      | .error _ => ⟨sendFrame svc (refusal svc "local_bridge_authority_denied"
          (some (.file request)) (some route)) budget, false, false⟩
      | .ok v => ⟨sendFrame svc v budget, (sendFrame svc v budget).isSome, true⟩

end Foreground

/-! ### Listings -/

section Listings

variable {names names' : List Text} {limit : ℕ}

def namesLength (names : List Text) : ℕ := (names.map fun s => s.write.length).sum

theorem writeAll_str (real : ℚ → List Char) (names : List Text) :
    writeAll real (names.map .str) = names.map Text.write := by
  induction names with
  | nil => rfl
  | cons s names ih => rw [List.map_cons, writeAll, ih, Value.write, List.map_cons]

theorem write_listing (names : List Text) :
    (listing names).write (fun _ => []) = "\x7b\"entries\":[".toList ++ (commas
      (((names.map Text.points).insertionSort (· ≤ ·)).map fun points =>
        '"' :: points.flatMap escape ++ ['"']) ++ "]\x7d".toList) := by
  have hsort : (names.insertionSort fun s t => s.points ≤ t.points).map Text.points =
      (names.map Text.points).insertionSort (· ≤ ·) :=
    List.map_insertionSort _ _ Text.points names fun s _ t _ => Iff.rfl
  have hkey : (Text.str "entries").write = "\"entries\"".toList := by decide
  have hone : ∀ part, commas [part] = part := by simp [commas]
  rw [← hsort, List.map_map, listing, object, Value.write, List.map_cons, List.map_nil, writeFields,
    writeFields, List.insertionSort_cons, List.insertionSort_nil, Value.write, writeAll_str]
  simp only [List.orderedInsert_nil, List.map_cons, List.map_nil, hkey, hone, List.cons_append,
    List.append_assoc]
  rfl

theorem listing_of_perm (h : names.Perm names') :
    (listing names).write (fun _ => []) = (listing names').write (fun _ => []) := by
  have hsorted : (names.map Text.points).insertionSort (· ≤ ·) =
      (names'.map Text.points).insertionSort (· ≤ ·) := by
    apply @List.Perm.eq_of_pairwise _ (· ≤ ·)
    · intro s t _ _ hst hts
      exact le_antisymm hst hts
    · exact List.pairwise_insertionSort (· ≤ ·) _
    · exact List.pairwise_insertionSort (· ≤ ·) _
    · exact ((List.perm_insertionSort _ _).trans (h.map _)).trans (List.perm_insertionSort _ _).symm
  rw [write_listing, write_listing, hsorted]

theorem length_listing (names : List Text) : ((listing names).write fun _ => []).length =
    14 + namesLength names + (names.length - 1) := by
  have hkeyed : keyed ["entries"] = 12 := by decide
  have hperm := (names.perm_insertionSort fun s t => s.points ≤ t.points).map
    fun s => s.write.length
  have hlen := List.length_insertionSort (fun s t : Text => s.points ≤ t.points) names
  have hsum : (((names.insertionSort fun s t => s.points ≤ t.points).map Text.write).map
      List.length).sum = namesLength names := by
    rw [List.map_map, namesLength, ← hperm.sum_eq]
    rfl
  rw [listing, length_write_object _ ["entries"] rfl (by decide), hkeyed]
  simp only [List.map_cons, List.map_nil, List.sum_cons, List.sum_nil, Value.write, writeAll_str,
    List.length_append, List.length_cons, List.length_nil, length_commas, hsum,
    List.length_map, hlen]
  omega

/-- With a name before it, each name that follows takes its comma as well. -/
theorem listAll_cons {used : ℕ} {found : List Text} (hfound : found ≠ []) :
    ∀ names : List Text, used ≤ limit → listAll limit used found (names.map some) =
      if used + namesLength names + names.length ≤ limit then
        .succeeded (used + namesLength names + names.length, found ++ names)
      else .refused "file_list_too_large" := by
  intro names
  induction names generalizing used found with
  | nil =>
    intro hused
    rw [List.map_nil, listAll, namesLength, List.map_nil, List.sum_nil, List.length_nil,
      List.append_nil, Nat.add_zero, Nat.add_zero, if_pos hused]
  | cons s names ih =>
    intro hused
    have hsum : namesLength (s :: names) = s.write.length + namesLength names := by
      rw [namesLength, List.map_cons, List.sum_cons, namesLength]
    rw [List.map_cons, listAll, if_neg hfound, hsum, List.length_cons]
    split
    next hover => rw [if_neg (by omega)]
    next hfits =>
      have hsplit : found ++ [s] ++ names = found ++ s :: names := by
        rw [List.append_assoc, List.singleton_append]
      have htotal : used + (s.write.length + 1) + namesLength names + names.length =
          used + (s.write.length + namesLength names) + (names.length + 1) := by omega
      rw [ih (by simp) (not_lt.mp hfits), hsplit, htotal]

/-- The names are counted to what the whole listing takes, or are refused. -/
theorem listAll_names (names : List Text) (h : 14 ≤ limit) :
    listAll limit 14 [] (names.map some) =
      if ((listing names).write fun _ => []).length ≤ limit then
        .succeeded (((listing names).write fun _ => []).length, names)
      else .refused "file_list_too_large" := by
  rw [length_listing]
  cases names with
  | nil =>
    rw [List.map_nil, listAll, namesLength, List.map_nil, List.sum_nil, List.length_nil,
      Nat.add_zero, Nat.add_zero, if_pos h]
  | cons s names =>
    have hsum : namesLength (s :: names) = s.write.length + namesLength names := by
      rw [namesLength, List.map_cons, List.sum_cons, namesLength]
    rw [List.map_cons, listAll, if_pos rfl, hsum, List.length_cons]
    simp only [Nat.add_zero, Nat.add_sub_cancel]
    split
    next hover => rw [if_neg (by omega)]
    next hfits =>
      have htotal : 14 + s.write.length + namesLength names + names.length =
          14 + (s.write.length + namesLength names) + names.length := by omega
      rw [List.nil_append, listAll_cons (by simp) names (not_lt.mp hfits), htotal]
      rfl

end Listings

/-! ### What the adapters are shown -/

section Views

/-- The reads give what is left of a file in pieces of any length, up to its end or to the first
byte too many. -/
inductive Reads (limit : ℕ) : Bytes → Bytes → List (Option Bytes) → Prop
  | done (data : Bytes) : Reads limit data [] []
  | ended (data : Bytes) (chunks : List (Option Bytes)) : Reads limit data [] (some [] :: chunks)
  | over {data : Bytes} (rest : Bytes) (chunks : List (Option Bytes)) (h : limit < data.length) :
    Reads limit data rest chunks
  | piece {data piece rest : Bytes} {chunks : List (Option Bytes)} (hne : piece ≠ [])
    (hlen : piece.length ≤ min readChunkBytes (limit + 1 - data.length))
    (h : Reads limit (data ++ piece) rest chunks) :
    Reads limit data (piece ++ rest) (some piece :: chunks)

/-- A regular file with this content, that nothing changes meanwhile. -/
def FileView.Shows (view : FileView) (limit : ℕ) (content : Bytes) : Prop :=
  view.opened ∧ Reads limit [] content view.chunks ∧ ∃ sig : Signature, isRegular sig.mode ∧
    sig.size = content.length ∧ view.before = some sig ∧ view.after = some sig ∧
      view.reopened = some sig

/-- A directory of these names, in the order they are enumerated in. -/
def DirectoryView.Shows (view : DirectoryView) (names : List Text) : Prop :=
  view.opened ∧ view.names = names.map some ∧ ∃ sig : Signature,
    view.before = some (true, sig) ∧ view.after = some sig ∧ view.reopened = some sig

def listingBytes (names : List Text) : Bytes :=
  ((listing names).write fun _ => []).map fun c => UInt8.ofNat c.toNat

variable {limit : ℕ} {request : WorkerOperationRequest}

theorem readAll_reads {data rest : Bytes} {chunks : List (Option Bytes)}
    (h : Reads limit data rest chunks) (hdata : data.length ≤ limit) :
    readAll limit data chunks =
      if (data ++ rest).length ≤ limit then .succeeded (data ++ rest)
      else .refused "file_read_too_large" := by
  induction h with
  | done data => rw [readAll, List.append_nil, if_pos hdata]
  | ended data chunks => rw [readAll, List.take_nil, if_pos rfl, List.append_nil, if_pos hdata]
  | «over» rest chunks hover => exact absurd hover (not_lt.mpr hdata)
  | @piece data piece rest chunks hne hlen h ih =>
    rw [readAll, List.take_of_length_le hlen, if_neg hne]
    split
    next hover =>
      have hlonger : ¬ (data ++ (piece ++ rest)).length ≤ limit := by
        rw [← List.append_assoc, List.length_append]
        omega
      rw [if_neg hlonger]
    next hfits => rw [ih (not_lt.mp hfits), List.append_assoc]

theorem readFile_of_shows {view : FileView} {content : Bytes}
    (h : view.Shows request.maxOutputBytes content) :
    readFile view request =
      if content.length ≤ request.maxOutputBytes then .succeeded content
      else .refused "file_read_too_large" := by
  obtain ⟨hopened, hreads, sig, hregular, hsize, hbefore, hafter, hreopened⟩ := h
  have hall := readAll_reads hreads (Nat.zero_le _)
  rw [List.nil_append] at hall
  simp only [readFile, hopened, not_true_eq_false, if_false, hbefore, hregular, hsize, hall, hafter,
    hreopened]
  by_cases hfits : content.length ≤ request.maxOutputBytes
  · simp [hfits, not_lt.mpr hfits, validateWorkerOutcome]
  · simp [hfits, not_le.mp hfits]

theorem length_empty_listing : "\x7b\"entries\":[]\x7d".length = 14 := by decide

theorem length_listingBytes (names : List Text) :
    (listingBytes names).length = ((listing names).write fun _ => []).length := List.length_map _

/-- A directory is listed where its listing is within the limit. -/
theorem listDirectory_of_shows {view : DirectoryView} {names : List Text} (h : view.Shows names) :
    listDirectory view request =
      if (listingBytes names).length ≤ request.maxOutputBytes then .succeeded (listingBytes names)
      else .refused "file_list_too_large" := by
  obtain ⟨hopened, hnames, sig, hbefore, hafter, hreopened⟩ := h
  have hlen := length_listingBytes names
  simp only [listDirectory, hopened, not_true_eq_false, if_false, hbefore, hnames, hafter,
    hreopened, length_empty_listing, ne_eq]
  by_cases hroom : request.maxOutputBytes < 14
  · have hmore : ¬ (listingBytes names).length ≤ request.maxOutputBytes := by
      rw [hlen, length_listing]
      omega
    rw [if_pos hroom, if_neg hmore]
  · rw [if_neg hroom, listAll_names names (not_lt.mp hroom), ← hlen]
    by_cases hfits : (listingBytes names).length ≤ request.maxOutputBytes
    · have hvalid : validateWorkerOutcome List.length request (.succeeded (listingBytes names)) =
          .ok (.succeeded (listingBytes names)) := by
        rw [validateWorkerOutcome, if_neg (not_lt.mpr hfits)]
      rw [if_pos hfits, if_pos hfits]
      have hbytes : ((listing names).write fun _ => []).map (fun c => UInt8.ofNat c.toNat) =
        listingBytes names := rfl
      simp only [hbytes, hvalid, not_true_eq_false, if_false]
    · rw [if_neg hfits, if_neg hfits]

theorem listDirectory_of_perm (view : DirectoryView) {names names' : List Text}
    (h : names.Perm names') :
    listDirectory { view with names := names.map some } request =
      listDirectory { view with names := names'.map some } request := by
  simp only [listDirectory, length_empty_listing]
  by_cases hroom : request.maxOutputBytes < 14
  · simp only [hroom, if_true]
  · rw [listAll_names names (not_lt.mp hroom), listAll_names names' (not_lt.mp hroom),
      listing_of_perm h]
    by_cases hfits : ((listing names').write fun _ => []).length ≤ request.maxOutputBytes
    · simp only [hfits, if_true, listing_of_perm h]
    · simp only [hfits, if_false]

end Views

/-! ### Budgets -/

section Budgets

variable {svc : Service} {route : Route} {request : LocalRequest svc.limits}

def responseKeys : List String :=
  ["schema_version", "request_id", "session_id", "service_incarnation", "operation", "state",
    "output_base64", "error_code"]

def success (svc : Service) (route : Route) (request : LocalRequest svc.limits) (output : Bytes) :
    Value :=
  response svc route request (String.ofList (base64 output)) none

theorem length_success (output : Bytes) :
    (encodePayload svc (success svc route request output)).length =
    (encodePayload svc (response svc route request "" none)).length +
      4 * ((output.length + 2) / 3) := by
  have hempty : ((text "").write svc.real).length = 2 := length_write_text svc.real (by decide)
  rw [length_encodePayload, length_encodePayload, success, response, response,
    length_write_object svc.real responseKeys rfl (by decide),
    length_write_object svc.real responseKeys rfl (by decide)]
  simp only [List.map_append, List.sum_append, List.map_cons, List.map_nil, List.sum_cons,
    List.sum_nil, Option.map_none, Option.toList_none, length_write_base64, hempty]
  omega

theorem fits_iff {output : Bytes} (h : output ≠ []) :
    output.length ≤ nativePayloadBudget svc (response svc route request "" none)
        request.maxResponseBytes ↔
      (encodePayload svc (success svc route request output)).length ≤ request.maxResponseBytes := by
  have hpos := List.length_pos_of_ne_nil h
  rw [length_success, nativePayloadBudget]
  omega

theorem not_succeeded_refusal (code : String) (asked : Option (Asked svc.limits))
    (route : Option Route) : succeeded (refusal svc code asked route) = false := rfl

theorem operationRequest_eq {kind : WorkerOperationKind} (hkind : request.operation = .file kind)
    {raw : ℕ} (hraw : 1 ≤ raw) (hmax : raw ≤ workerMaxOutputBytes) :
    operationRequest route.binding request.requestId kind (request.target.getD "") raw =
      .ok ⟨route.binding, request.requestId, kind, request.target.getD "", raw⟩ := by
  obtain ⟨target, htarget, hchecked⟩ := request.targeted kind hkind
  have hbound := route.bound
  rw [targetChecked] at hchecked
  simp only [WorkerOperationRequest.valid, Bool.and_eq_true] at hchecked
  have hvalid : WorkerOperationRequest.valid
      ⟨route.binding, request.requestId, kind, request.target.getD "", raw⟩ = true := by
    simp only [WorkerOperationRequest.valid, Bool.and_eq_true, decide_eq_true_eq, htarget,
      Option.getD_some]
    exact ⟨⟨⟨⟨hbound, hchecked.1.1.1.2⟩, hchecked.1.1.2⟩, hraw⟩, hmax⟩
  simp only [operationRequest, hvalid, if_true]

theorem raw_le : nativePayloadBudget svc (response svc route request "" none)
    request.maxResponseBytes ≤ workerMaxOutputBytes := by
  have hwithin := request.within.2
  have hframes := svc.limits.frames
  rw [nativePayloadBudget, workerMaxOutputBytes]
  omega

theorem fitted_of_le {v : Value} (h : (encodePayload svc v).length ≤ request.maxResponseBytes) :
    fitted svc route request v = v := if_neg (not_lt.mpr h)

/-- What an adapter that puts out an output where it is within the limit comes to. -/
theorem dispatch_of_output {a : Native} {kind : WorkerOperationKind} {output : Bytes}
    (code : String)
    (hkind : request.operation = .file kind) (hne : output ≠ [])
    (hcode : code ∈ ["file_read_too_large", "file_list_too_large"])
    (h : ∀ operation : WorkerOperationRequest, operation.kind = kind → operation.maxOutputBytes =
        nativePayloadBudget svc (response svc route request "" none) request.maxResponseBytes →
      (if kind = .fileRead then readFile a.file operation
        else listDirectory a.directory operation) =
        if output.length ≤ operation.maxOutputBytes then .succeeded output else .refused code) :
    dispatch svc route request a = .ok (
      if (encodePayload svc (success svc route request output)).length ≤
        request.maxResponseBytes then
        success svc route request output
      else refusal svc "local_bridge_response_too_large" (some (.file request)) (some route)) := by
  have hfits := @fits_iff svc route request _ hne
  simp only [dispatch, hkind]
  split
  next hraw =>
    have hpos := List.length_pos_of_ne_nil hne
    rw [if_neg (by rw [← hfits]; omega)]
  next hraw =>
    rw [operationRequest_eq hkind (not_lt.mp hraw) raw_le, Except.ok_bind]
    simp only
    rw [h _ rfl rfl]
    by_cases hle : output.length ≤ nativePayloadBudget svc (response svc route request "" none)
        request.maxResponseBytes
    · rw [if_pos hle, if_pos (hfits.mp hle)]
      exact congrArg Except.ok (fitted_of_le (hfits.mp hle))
    · rw [if_neg hle, if_neg (by rwa [← hfits])]
      simp only [hcode, if_true]
      rfl

theorem length_le_of_succeeded {a : Native} {v : Value} (h : dispatch svc route request a = .ok v)
    (hs : succeeded v) : (encodePayload svc v).length ≤ request.maxResponseBytes := by
  have hfitted : ∀ w, fitted svc route request w = v →
      (encodePayload svc v).length ≤ request.maxResponseBytes := by
    intro w hw
    rw [fitted] at hw
    split at hw
    · rw [← hw, not_succeeded_refusal] at hs
      cases hs
    next hfits =>
      rw [← hw]
      exact not_lt.mp hfits
  have hrefused : ∀ code, refusal svc code (some (.file request)) (some route) ≠ v := by
    rintro code rfl
    rw [not_succeeded_refusal] at hs
    cases hs
  simp only [dispatch] at h
  split at h
  · obtain ⟨_, -, h⟩ := bind_eq_ok_iff.mp h
    exact hfitted _ (pure_eq_ok_iff.mp h)
  · split at h
    · exact absurd (Except.ok.inj h) (hrefused _)
    · obtain ⟨operation, -, h⟩ := bind_eq_ok_iff.mp h
      split at h
      · exact hfitted _ (pure_eq_ok_iff.mp h)
      all_goals exact absurd (pure_eq_ok_iff.mp h) (hrefused _)

theorem length_of_sendFrame {v : Value} {budget : ℕ} {sent : Bytes}
    (h : sendFrame svc v (some budget) = some sent) : sent.length ≤ 4 + budget := by
  rw [sendFrame, Option.getD_some] at h
  split at h
  · cases h
  next hfits =>
    cases h
    have hle := (not_lt.mp hfits).trans (min_le_right _ _)
    rw [frame, List.length_append, packSize, List.length_map]
    exact Nat.add_le_add_left hle 4

def Succeeds (made : Checked Value) : Prop := ∃ v, made = .ok v ∧ succeeded v

theorem succeeds_iff {made : Checked Value} {output : Bytes} {p : Prop} [Decidable p]
    {code : String}
    {asked : Option (Asked svc.limits)} {served : Option Route}
    (h : made = .ok (if p then success svc route request output
      else refusal svc code asked served)) :
    (Succeeds made ↔ p) ∧ (p → made = .ok (success svc route request output)) := by
  have hmade : p → made = .ok (success svc route request output) := fun hp => by rw [h, if_pos hp]
  refine ⟨⟨?_, fun hp => ⟨_, hmade hp, rfl⟩⟩, hmade⟩
  rintro ⟨v, hv, hs⟩
  by_contra hp
  rw [h, if_neg hp] at hv
  cases hv
  cases hs

/-- A file or a directory is answered with exactly where the complete response fits the budget of
the request, and the order in which a directory is enumerated does not matter. No success takes
more than the budget, and nothing that does is sent: a refusal may, and is then not sent. -/
theorem budgets_exact (svc : Service) (route : Route) (request : LocalRequest svc.limits)
    (a : Native) :
    (∀ content, request.operation = .file .fileRead → content ≠ [] →
      a.file.Shows (nativePayloadBudget svc (response svc route request "" none)
        request.maxResponseBytes) content →
      (Succeeds (dispatch svc route request a) ↔
        (encodePayload svc (success svc route request content)).length ≤
          request.maxResponseBytes) ∧
      ((encodePayload svc (success svc route request content)).length ≤ request.maxResponseBytes →
        dispatch svc route request a = .ok (success svc route request content))) ∧
    (∀ names, request.operation = .file .fileList → a.directory.Shows names →
      (Succeeds (dispatch svc route request a) ↔
        (encodePayload svc (success svc route request (listingBytes names))).length ≤
          request.maxResponseBytes) ∧
      ((encodePayload svc (success svc route request (listingBytes names))).length ≤
          request.maxResponseBytes →
        dispatch svc route request a = .ok (success svc route request (listingBytes names)))) ∧
    (∀ names names' : List Text, names.Perm names' →
      dispatch svc route request
        { a with directory := { a.directory with names := names.map some } } =
        dispatch svc route request
          { a with directory := { a.directory with names := names'.map some } }) ∧
    (∀ v, dispatch svc route request a = .ok v → succeeded v →
      (encodePayload svc v).length ≤ request.maxResponseBytes) ∧
    ∀ fields, validateRequest fields svc.limits = some request → ∀ sent,
      (exchange svc route fields a).sent = some sent →
        sent.length ≤ 4 + request.maxResponseBytes := by
  refine ⟨?_, ?_, ?_, ?_, ?_⟩
  · intro content hkind hne hshows
    apply succeeds_iff
    refine dispatch_of_output "file_read_too_large" hkind hne (by decide) ?_
    intro operation _ hmax
    rw [if_pos rfl]
    exact readFile_of_shows (hmax ▸ hshows)
  · intro names hkind hshows
    have hne : listingBytes names ≠ [] := by
      rw [← List.length_pos_iff, length_listingBytes, length_listing]
      omega
    apply succeeds_iff
    refine dispatch_of_output "file_list_too_large" hkind hne (by decide) ?_
    intro operation _ _
    rw [if_neg (by decide)]
    exact listDirectory_of_shows hshows
  · intro names names' hperm
    simp only [dispatch, listDirectory_of_perm _ hperm]
  · intro v hv hs
    exact length_le_of_succeeded hv hs
  · intro fields hvalid sent hsent
    simp only [exchange, hvalid] at hsent
    split at hsent
    · exact length_of_sendFrame hsent
    · split at hsent
      · exact length_of_sendFrame hsent
      · exact length_of_sendFrame hsent

end Budgets

namespace Foreground

def route : Route where
  token := "transport-token-for-the-run-of-task-1-00001"
  sessionId := "session-of-the-run-of-task-1-001"
  binding := ⟨"project", "writer", "task-1", "run", 1⟩
  bound := by decide

theorem default_frames : 65536 ≤ 65536 ∧ 65536 ≤ 65536 := by decide

theorem default_timeouts : 0 < (Number.real 5).value ∧ (Number.real 5).value ≤ 5 ∧
    0 < (Number.real 30).value ∧ (Number.real 30).value ≤ 30 := by decide

/-- A service that a request may leave a single byte for its response. -/
def svc : Service where
  flavour := .readOnly
  limits := { minResponseBytes := 1, frames := default_frames, timeouts := default_timeouts }
  incarnation := "incarnation-of-the-service-00001"
  loads := fun _ => none
  real := fun _ => []
  hmac := fun _ _ => []

def fields (operation target : String) (budget : ℕ) : Fields :=
  [("schema_version", nat 1), ("request_id", text "request-1"),
    ("session_id", text "session-of-the-run-of-task-1-001"), ("operation", text operation),
    ("target", text target), ("max_response_bytes", nat budget)].map fun e => (.str e.1, e.2)

def signature : Signature := ⟨1, 2, 0o100644, 1, 2, 3, 4⟩

/-- A file of two bytes, in a directory that has another file in it. -/
def native : Native where
  file := { before := some signature, chunks := [some [72], some [105], some []]
            after := some signature, reopened := some signature }
  directory := { before := some (true, signature), names := [some (.str "b"), some (.str "a")]
                 after := some signature, reopened := some signature }

theorem shows_file (limit : ℕ) : native.file.Shows limit [72, 105] := by
  refine ⟨rfl, ?_, signature, by decide, rfl, rfl, rfl, rfl⟩
  change Reads limit [] ([72] ++ [105]) _
  refine .piece (by decide) (le_min (by decide) (by simp)) ?_
  by_cases h : limit < 1
  · exact .over _ _ h
  · change Reads limit _ ([105] ++ []) _
    refine .piece (by decide) (le_min (by decide) ?_) (.ended _ _)
    simp only [List.nil_append, List.length_cons, List.length_nil]
    omega

end Foreground

open Foreground in
theorem budgets_exact_4096 : ∃ request,
    validateRequest (fields "file.read" "docs/a" 4096) svc.limits = some request ∧
      Succeeds (dispatch svc route request native) := by
  have hvalid : (validateRequest (fields "file.read" "docs/a" 4096) svc.limits).any (fun request =>
      request.operation = .file .fileRead ∧
        (encodePayload svc (success svc route request [72, 105])).length ≤
          request.maxResponseBytes) = true := by
    decide +kernel
  obtain ⟨request, hrequest, hfacts⟩ := (Option.any_eq_true _ _).mp hvalid
  obtain ⟨hkind, hfits⟩ := of_decide_eq_true hfacts
  obtain ⟨hread, -⟩ := budgets_exact svc route request native
  exact ⟨request, hrequest, (hread [72, 105] hkind (by decide) (shows_file _)).1.mpr hfits⟩

open Foreground in
/-- A refusal takes more than a single byte, and is then not sent. -/
theorem refusal_exceeds : (∀ limit, native.file.Shows limit [72, 105]) ∧
    ∃ request, validateRequest (fields "file.read" "docs/a" 1) svc.limits = some request ∧
      ∃ v, dispatch svc route request native = .ok v ∧
        ¬ (encodePayload svc v).length ≤ request.maxResponseBytes ∧
        (exchange svc route (fields "file.read" "docs/a" 1) native).sent = none := by
  refine ⟨shows_file, ?_⟩
  have hvalid : (validateRequest (fields "file.read" "docs/a" 1) svc.limits).any (fun request =>
      match dispatch svc route request native with
      | .ok v => ¬ (encodePayload svc v).length ≤ request.maxResponseBytes
      | .error _ => False) = true := by
    decide +kernel
  have hsent : (exchange svc route (fields "file.read" "docs/a" 1) native).sent = none := by
    decide +kernel
  obtain ⟨request, hrequest, hfacts⟩ := (Option.any_eq_true _ _).mp hvalid
  cases hmade : dispatch svc route request native with
  | error e =>
    rw [hmade] at hfacts
    exact absurd (of_decide_eq_true hfacts) not_false
  | ok v =>
    rw [hmade] at hfacts
    exact ⟨request, hrequest, v, hmade, of_decide_eq_true hfacts, hsent⟩

end OrchKit.Local
