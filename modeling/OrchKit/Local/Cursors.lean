import OrchKit.Local.Responses
import OrchKit.Local.Slicing

/-! # Cursors, operation identifiers and the size of process replies

A cursor and an operation identifier are signed with the same key, but never under one message: a
cursor is signed with a session, a handle and an offset, an identifier with a session and a nonce,
and none of these has a colon in it. With the cursors signed and the identifiers around it, a reply
still fits what was left for it.
-/

namespace OrchKit.Local

open Bridge Json

/-! ### Signed text -/

section Tokens

theorem split_mark {α : Type} {a : α} {y y' : List α} : ∀ {x x' : List α}, a ∉ x → a ∉ x' →
    x ++ a :: y = x' ++ a :: y' → x = x' ∧ y = y'
  | [], [], _, _, h => ⟨rfl, (List.cons.inj h).2⟩
  | [], b :: x', _, hx', h => by
    have hab : a = b := (List.cons.inj h).1
    exact absurd (hab ▸ List.mem_cons_self) hx'
  | b :: x, [], hx, _, h => by
    have hba : b = a := (List.cons.inj h).1
    exact absurd (hba ▸ List.mem_cons_self) hx
  | b :: x, b' :: x', hx, hx', h => by
    obtain ⟨rfl, htail⟩ := List.cons.inj h
    obtain ⟨rfl, rfl⟩ := split_mark (fun hm => hx (List.mem_cons_of_mem b hm))
      (fun hm => hx' (List.mem_cons_of_mem b hm)) htail
    exact ⟨rfl, rfl⟩

theorem isHex_digitChar {d : ℕ} (h : d < 16) : isHex d.digitChar := by
  have all : ∀ i : Fin 16, isHex (i : ℕ).digitChar := by decide
  exact all ⟨d, h⟩

theorem ofHex_concat (digits : List Char) {d : ℕ} (h : d < 16) :
    ofHex (digits ++ [d.digitChar]) = ofHex digits * 16 + d := by
  have all : ∀ i : Fin 16, (if (i : ℕ).digitChar.isDigit = true then (i : ℕ).digitChar.toNat - 48
      else (i : ℕ).digitChar.toNat - 87) = i := by decide
  rw [ofHex, List.foldl_append, List.foldl_cons, List.foldl_nil, all ⟨d, h⟩]
  rfl

theorem isHex_toDigits (n : ℕ) : ∀ c ∈ Nat.toDigits 16 n, isHex c := by
  induction n using Nat.strong_induction_on with
  | _ n ih =>
    intro c hc
    by_cases hn : n < 16
    · rw [Nat.toDigits_of_lt_base hn, List.mem_singleton] at hc
      rw [hc]
      exact isHex_digitChar hn
    · rw [Nat.toDigits_of_base_le (by decide) (by omega), List.mem_append, List.mem_singleton] at hc
      obtain hc | rfl := hc
      · exact ih (n / 16) (by omega) c hc
      · exact isHex_digitChar (Nat.mod_lt n (by decide))

theorem ofHex_toDigits (n : ℕ) : ofHex (Nat.toDigits 16 n) = n := by
  induction n using Nat.strong_induction_on with
  | _ n ih =>
    by_cases hn : n < 16
    · have hone := ofHex_concat [] hn
      rw [Nat.toDigits_of_lt_base hn]
      simpa [ofHex] using hone
    · rw [Nat.toDigits_of_base_le (by decide) (by omega),
        ofHex_concat _ (Nat.mod_lt n (by decide)), ih (n / 16) (by omega)]
      omega

theorem not_mem_of_isHex {c : Char} {cs : List Char} (h : ∀ d ∈ cs, isHex d) (hc : ¬ isHex c) :
    c ∉ cs := fun hm => hc (h c hm)

theorem not_mem_toDigits {c : Char} (n : ℕ) (hc : ¬ isHex c) : c ∉ Nat.toDigits 16 n :=
  not_mem_of_isHex (isHex_toDigits n) hc

theorem takeWhile_mark {number rest : List Char} (h : '.' ∉ number) :
    (number ++ '.' :: rest).takeWhile (fun c => decide (c ≠ '.')) = number := by
  rw [List.takeWhile_append_of_pos, List.takeWhile_cons_of_neg, List.append_nil]
  · simp
  · intro c hc
    rw [decide_eq_true_eq]
    rintro rfl
    exact h hc

end Tokens

/-! ### Cursors and identifiers -/

section Cursors

variable {svc : Service} {route route' : Route} {handle handle' : String} {offset n : ℕ}
  {nonce : List Char}

/-- The key and the message that a cursor is signed with. -/
def cursorMessage (route : Route) (handle : String) (offset : ℕ) : List Char × List Char :=
  (route.token.toList,
    route.sessionId.toList ++ ':' :: handle.toList ++ ':' :: Nat.toDigits 16 offset)

/-- The key and the message that an operation identifier is signed with. -/
def operationMessage (route : Route) (nonce : List Char) : List Char × List Char :=
  (route.token.toList, route.sessionId.toList ++ ':' :: nonce)

def CollisionFree (svc : Service) (messages : Set (List Char × List Char)) : Prop :=
  Set.InjOn (fun m => svc.hmac m.1 m.2) messages

theorem cursorOf_eq : cursorOf svc route handle offset = Nat.toDigits 16 offset ++ '.' ::
    svc.hmac (cursorMessage route handle offset).1 (cursorMessage route handle offset).2 := rfl

theorem signOperationId_eq : signOperationId svc route nonce = nonce ++ '.' ::
    svc.hmac (operationMessage route nonce).1 (operationMessage route nonce).2 := rfl

theorem offsetOf?_eq_some {cursor : String} :
    offsetOf? svc route handle (some cursor) = some n ↔
      n = ofHex (cursor.toList.takeWhile fun c => decide (c ≠ '.')) ∧ n ≤ 65536 ∧
        cursor.toList = cursorOf svc route handle n := by
  unfold offsetOf?
  simp only
  split
  next h =>
    simp only [reduceCtorEq, false_iff]
    rintro ⟨rfl, hle, heq⟩
    obtain hbig | hne := h
    · omega
    · exact hne heq
  next h =>
    rw [not_or, not_lt, not_not] at h
    simp only [Option.some.injEq]
    constructor
    · rintro rfl
      exact ⟨rfl, h.1, h.2⟩
    · rintro ⟨rfl, -, -⟩
      rfl

theorem offsetOf?_cursorOf (h : offset ≤ 65536) :
    offsetOf? svc route handle (some (String.ofList (cursorOf svc route handle offset))) =
      some offset := by
  rw [offsetOf?_eq_some, String.toList_ofList]
  refine ⟨?_, h, rfl⟩
  rw [cursorOf_eq, takeWhile_mark (not_mem_toDigits offset (by decide)), ofHex_toDigits]

theorem eq_of_offsetOf?_append {number digest : List Char} (hn : '.' ∉ number)
    (h : offsetOf? svc route handle (some (String.ofList (number ++ '.' :: digest))) = some n) :
    number = Nat.toDigits 16 n ∧
      digest = svc.hmac (cursorMessage route handle n).1 (cursorMessage route handle n).2 := by
  rw [offsetOf?_eq_some, String.toList_ofList, cursorOf_eq] at h
  exact split_mark hn (not_mem_toDigits n (by decide)) h.2.2

theorem cursorMessage_inj (hs : ':' ∉ route.sessionId.toList) (hs' : ':' ∉ route'.sessionId.toList)
    (hh : ':' ∉ handle.toList) (hh' : ':' ∉ handle'.toList)
    (h : cursorMessage route handle offset = cursorMessage route' handle' n) :
    route.token = route'.token ∧ route.sessionId = route'.sessionId ∧ handle = handle' ∧
      offset = n := by
  obtain ⟨htoken, hmessage⟩ := Prod.ext_iff.mp h
  simp only [cursorMessage, List.append_assoc, List.cons_append] at htoken hmessage
  obtain ⟨hsession, hrest⟩ := split_mark hs hs' hmessage
  obtain ⟨hhandle, hnumber⟩ := split_mark hh hh' hrest
  refine ⟨String.toList_inj.mp htoken, String.toList_inj.mp hsession,
    String.toList_inj.mp hhandle, ?_⟩
  rw [← ofHex_toDigits offset, hnumber, ofHex_toDigits]

theorem cursorMessage_ne (hs : ':' ∉ route'.sessionId.toList) (number : ℕ) :
    cursorMessage route handle offset ≠ operationMessage route' (Nat.toDigits 16 number) := by
  intro h
  have hcount := congrArg (List.count ':') (Prod.ext_iff.mp h).2
  simp only [cursorMessage, operationMessage, List.append_assoc, List.cons_append,
    List.count_append, List.count_cons_self, List.count_eq_zero_of_not_mem hs,
    List.count_eq_zero_of_not_mem (not_mem_toDigits number (c := ':') (by decide))] at hcount
  omega

theorem eq_of_offsetOf?_cursorOf {messages : Set (List Char × List Char)}
    (hinj : CollisionFree svc messages) (hissued : cursorMessage route handle offset ∈ messages)
    (hasked : cursorMessage route' handle' offset ∈ messages)
    (hs : ':' ∉ route.sessionId.toList) (hs' : ':' ∉ route'.sessionId.toList)
    (hh : ':' ∉ handle.toList) (hh' : ':' ∉ handle'.toList)
    (h : offsetOf? svc route' handle' (some (String.ofList (cursorOf svc route handle offset))) =
      some n) :
    route.token = route'.token ∧ route.sessionId = route'.sessionId ∧ handle = handle' ∧
      offset = n := by
  obtain rfl : n = offset := by
    rw [(offsetOf?_eq_some.mp h).1, String.toList_ofList, cursorOf_eq,
      takeWhile_mark (not_mem_toDigits offset (by decide)), ofHex_toDigits]
  rw [cursorOf_eq] at h
  obtain ⟨-, hsigned⟩ := eq_of_offsetOf?_append (not_mem_toDigits n (by decide)) h
  exact cursorMessage_inj hs hs' hh hh' (hinj hissued hasked hsigned)

theorem not_operationIdMatches_cursorOf {messages : Set (List Char × List Char)}
    (hinj : CollisionFree svc messages) (hissued : cursorMessage route handle offset ∈ messages)
    (hasked : operationMessage route' (Nat.toDigits 16 offset) ∈ messages)
    (hs : ':' ∉ route'.sessionId.toList) :
    ¬ operationIdMatches svc route' (String.ofList (cursorOf svc route handle offset)) := by
  intro h
  rw [operationIdMatches, Bool.and_eq_true, decide_eq_true_eq, decide_eq_true_eq,
    String.toList_ofList, cursorOf_eq, takeWhile_mark (not_mem_toDigits offset (by decide)),
    signOperationId_eq] at h
  have hsigned := (split_mark (not_mem_toDigits offset (by decide))
    (not_mem_toDigits offset (by decide)) h.2).2
  exact cursorMessage_ne hs offset (hinj hissued hasked hsigned)

/-- No operation identifier is accepted as a cursor. -/
theorem offsetOf?_signOperationId {messages : Set (List Char × List Char)}
    (hinj : CollisionFree svc messages) (hissued : operationMessage route nonce ∈ messages)
    (hasked : cursorMessage route' handle' (ofHex nonce) ∈ messages) (hnonce : '.' ∉ nonce)
    (hs : ':' ∉ route.sessionId.toList) :
    offsetOf? svc route' handle' (some (String.ofList (signOperationId svc route nonce))) =
      none := by
  cases h : offsetOf? svc route' handle'
    (some (String.ofList (signOperationId svc route nonce))) with
  | none => rfl
  | some n =>
    have hn := (offsetOf?_eq_some.mp h).1
    rw [String.toList_ofList, signOperationId_eq, takeWhile_mark hnonce] at hn
    rw [signOperationId_eq] at h
    obtain ⟨rfl, hsigned⟩ := eq_of_offsetOf?_append hnonce h
    rw [ofHex_toDigits] at hasked
    exact absurd (hinj hissued hasked hsigned).symm (cursorMessage_ne hs n)

end Cursors

/-! ### The size of a reply -/

section Replies

def isErrorCode (code : String) : Bool := identifier 128 isWord code

/-- The codes an owner of processes answers with are valid. -/
def ProcessView.Coded : ProcessView → Prop
  | refused code | unresolved code => isErrorCode code
  | child _ _ => True

def resultKeys : List String :=
  ["schema_version", "request_id", "session_id", "service_incarnation", "operation",
    "operation_id", "state", "result", "error_code"]

variable {svc : Service} {route : Route} {request : ProcessRequest svc.limits} {body : ProcessBody}
  {operation : WorkerOperationRequest} {view : ProcessView} {cursor : ℕ}

/-- However its cursors are written, the rest of a body takes what it took. -/
theorem length_fields (real : ℚ → List Char) (body : ProcessBody) (c n : Value) :
    ((body.fields c n).write real).length + Canonical.nat body.cursor +
        Canonical.nat body.nextCursor =
      body.size + (c.write real).length + (n.write real).length := by
  have hcode : ∀ code : Option ℤ,
      (((code.map fun i => Value.number (.int i)).getD .null).write real).length =
        (((code.map fun i => Value.number (.int i)).getD .null).write fun _ => []).length := by
    intro code
    rw [length_write_exitCode, length_write_exitCode]
  have htext : ∀ s : String, (text s).write real = (text s).write fun _ => [] := by
    intro s
    rw [text, Value.write, Value.write]
  have hreason : ((body.reason.map text).getD .null).write real =
      ((body.reason.map text).getD .null).write fun _ => [] := by
    cases body.reason with
    | none => rw [Option.map_none, Option.getD_none, Value.write, Value.write]
    | some r => exact htext r
  rw [ProcessBody.size, ProcessBody.fields, ProcessBody.fields,
    length_write_object real ProcessBody.keys rfl (by decide),
    length_write_object _ ProcessBody.keys rfl (by decide)]
  simp only [List.map_cons, List.map_nil, List.sum_cons, List.sum_nil, length_write_nat,
    length_write_bool, htext, hcode, hreason]
  omega

theorem data_le_size (body : ProcessBody) : 4 * ((body.data.length + 2) / 3) ≤ body.size := by
  rw [ProcessBody.size, ProcessBody.fields,
    length_write_object _ ProcessBody.keys rfl (by decide)]
  simp only [List.map_cons, List.map_nil, List.sum_cons, List.sum_nil, length_write_base64]
  omega

theorem isPlain_of_isHex {c : Char} (h : isHex c) : isPlain c := by
  simp only [isHex, Bool.or_eq_true, Bool.and_eq_true, decide_eq_true_eq] at h
  apply isPlain_of_isWord
  rw [isWord, Bool.or_eq_true]
  left
  delta Char.isAlphanum Char.isAlpha
  rw [Bool.or_eq_true, Bool.or_eq_true]
  obtain h | h := h
  · exact .inr h
  · left
    right
    delta Char.isLower
    rw [Bool.and_eq_true, decide_eq_true_eq, decide_eq_true_eq]
    exact ⟨h.1, UInt32.le_trans h.2 (by decide)⟩

theorem plain_of_isRouting {s : String} (h : isRouting s) : Plain s ∧ s.length ≤ 200 := by
  simp only [isRouting, Bool.and_eq_true, decide_eq_true_eq, List.all_eq_true] at h
  refine ⟨fun c hc => isPlain_of_isWord ?_, h.1.2⟩
  have hchar := h.2 c hc
  rw [isWord, Bool.or_eq_true, decide_eq_true_eq]
  rw [Bool.or_eq_true, decide_eq_true_eq] at hchar
  obtain hchar | hchar := hchar
  · exact .inl hchar
  · right
    simp only [List.mem_cons, List.not_mem_nil, or_false] at hchar ⊢
    tauto

theorem plain_of_isOperationId {s : String} (h : isOperationId s) : Plain s ∧ s.length = 129 := by
  have hsplit : List.intercalate ['.'] (s.toList.splitOn '.') = s.toList :=
    List.intercalate_splitOn '.'
  unfold isOperationId isSigned at h
  split at h
  next number digest heq =>
    rw [heq] at hsplit
    simp only [isDigest, Bool.and_eq_true, decide_eq_true_eq, List.all_eq_true] at h
    obtain ⟨⟨hlen, hnumber⟩, hlen', hdigest⟩ := h
    have htext : s.toList = number ++ '.' :: digest := by
      rw [← hsplit]
      simp [List.intercalate, List.intersperse]
    refine ⟨?_, ?_⟩
    · intro c hc
      rw [htext, List.mem_append, List.mem_cons] at hc
      obtain hc | rfl | hc := hc
      · exact isPlain_of_isHex (hnumber c hc)
      · decide
      · exact isPlain_of_isHex (hdigest c hc)
    · rw [← String.length_toList, htext, List.length_append, List.length_cons, hlen, hlen']
  next => cases h

/-- What a service generates and a valid request has been checked for. -/
structure Identified (svc : Service) (route : Route) (request : ProcessRequest svc.limits) :
    Prop where
  requestId : identifier 200 isWord request.requestId
  session : isRouting route.sessionId
  incarnation : isRouting svc.incarnation ∧ svc.incarnation.length = 32

theorem text_le {s : String} {limit : ℕ} (h : identifier limit isWord s) : s.length ≤ limit := by
  simp only [identifier, Bool.and_eq_true, decide_eq_true_eq] at h
  exact h.1.1

theorem operation_text (request : ProcessRequest svc.limits) :
    Plain request.operation.text ∧ request.operation.text.length ≤ 17 := by
  have hknown := request.known
  simp only [processOperations, List.mem_cons, List.not_mem_nil, or_false] at hknown
  obtain h | h | h := hknown <;> rw [h] <;> decide

/-- A response takes what is in its result, and at most 732 bytes and its code besides. -/
theorem length_processResult_le (h : Identified svc route request) {state : String}
    {code : Option String} (hstate : Plain state ∧ state.length ≤ 9)
    (hcode : ∀ c ∈ code, isErrorCode c) (result : Value) :
    ((processResult svc route request state result code).write svc.real).length ≤
      732 + (result.write svc.real).length + (code.map fun _ => 130).getD 4 := by
  have hkeys : keyed resultKeys = 132 := by decide
  have hversion : ((nat 2).write svc.real).length = 1 := by rw [length_write_nat]; decide
  obtain ⟨hoperation, holen⟩ := operation_text request
  obtain ⟨hid, hidlen⟩ := plain_of_isOperationId request.identified.1
  obtain ⟨hsession, hslen⟩ := plain_of_isRouting h.session
  have hincarnation := (plain_of_isRouting h.incarnation.1).1
  have hilen := h.incarnation.2
  have hrlen := text_le h.requestId
  have hcodelen : (((code.map text).getD .null).write svc.real).length ≤
      (code.map fun _ => 130).getD 4 := by
    rw [length_write_text? svc.real fun c hc => plain_of_identifier (hcode c hc)]
    cases code with
    | none => exact le_rfl
    | some c =>
      have hlen := text_le (hcode c rfl)
      rw [Option.map_some, Option.getD_some, Option.map_some, Option.getD_some]
      omega
  rw [processResult, length_write_object svc.real resultKeys rfl (by decide), hkeys]
  simp only [List.map_cons, List.map_nil, List.sum_cons, List.sum_nil, hversion,
    length_write_text svc.real (plain_of_identifier h.requestId),
      length_write_text svc.real hsession,
    length_write_text svc.real hincarnation, length_write_text svc.real hoperation,
    length_write_text svc.real hid, length_write_text svc.real hstate.1]
  omega

/-- The signed cursors take at most 142 bytes more than the numbers they stand for. -/
theorem length_signed_le (route : Route) (hdigest : ∀ k m, isDigest (svc.hmac k m))
    (hc : body.cursor ≤ 65536)
    (hsize : body.size ≤ 65536) :
    ((body.fields (text (String.ofList (cursorOf svc route body.handle body.cursor)))
      (text (String.ofList (cursorOf svc route body.handle body.nextCursor)))).write
      svc.real).length ≤ body.size + 142 := by
  have hcursor : ∀ n < 16 ^ 5,
      ((text (String.ofList (cursorOf svc route body.handle n))).write svc.real).length ≤ 72 := by
    intro n hn
    have hsigned := hdigest (cursorMessage route body.handle n).1
      (cursorMessage route body.handle n).2
    simp only [isDigest, Bool.and_eq_true, decide_eq_true_eq, List.all_eq_true] at hsigned
    have hplain : Plain (String.ofList (cursorOf svc route body.handle n)) := by
      intro c hc
      rw [String.toList_ofList, cursorOf_eq, List.mem_append, List.mem_cons] at hc
      obtain hc | rfl | hc := hc
      · exact isPlain_of_isHex (isHex_toDigits n c hc)
      · decide
      · exact isPlain_of_isHex (hsigned.2 c hc)
    have hdigits : (Nat.toDigits 16 n).length ≤ 5 :=
      (Nat.length_toDigits_le_iff (by decide) (by decide)).mpr hn
    rw [length_write_text svc.real hplain, String.length_ofList, cursorOf_eq, List.length_append,
      List.length_cons, hsigned.1]
    omega
  have hdata := data_le_size body
  have hnext : body.nextCursor < 16 ^ 5 := by
    rw [ProcessBody.nextCursor]
    omega
  have hfields := length_fields svc.real body
    (text (String.ofList (cursorOf svc route body.handle body.cursor)))
    (text (String.ofList (cursorOf svc route body.handle body.nextCursor)))
  have h₁ := hcursor body.cursor (by omega)
  have h₂ := hcursor body.nextCursor hnext
  have h₃ := Canonical.nat_pos body.cursor
  have h₄ := Canonical.nat_pos body.nextCursor
  omega

theorem cursor_of_operateProcess
    (h : operateProcess view operation cursor = .succeeded body) : body.cursor = cursor := by
  cases view with
  | refused code => cases h
  | unresolved code => cases h
  | child handle child =>
    simp only [operateProcess] at h
    split at h
    · cases h
    · split at h
      · cases h
      · rw [envelope_eq] at h
        split at h
        next heq =>
          split at heq
          · cases heq
            cases h
          · split at heq
            · cases heq
              cases h
            · rw [validateWorkerOutcome] at heq
              split at heq
              · cases heq
              · cases heq
                cases h
                rfl
        · cases h

theorem code_of_operateProcess (hview : view.Coded) :
    ∀ code ∈ (operateProcess view operation cursor).errorCode, isErrorCode code := by
  cases view with
  | refused code =>
    intro c hc
    cases hc
    exact hview
  | unresolved code =>
    intro c hc
    cases hc
    exact hview
  | child handle child =>
    simp only [operateProcess]
    split
    · intro c hc
      cases hc
      decide
    · split
      · intro c hc
        cases hc
        decide
      · rw [envelope_eq]
        split
        next heq =>
          split at heq
          · cases heq
            intro c hc
            cases hc
            decide
          · split at heq
            · cases heq
              intro c hc
              cases hc
              decide
            · rw [validateWorkerOutcome] at heq
              split at heq
              · cases heq
              · cases heq
                intro c hc
                cases hc
        · intro c hc
          cases hc
          decide

/-- What a service issues: its own incarnation, and a session for each of its routes. -/
structure Issued (svc : Service) (route : Route) : Prop where
  session : isRouting route.sessionId
  incarnation : isRouting svc.incarnation ∧ svc.incarnation.length = 32

theorem requestId_of_validate {fields : Fields}
    (h : validateProcessRequest fields svc.limits = some request) :
    identifier 200 isWord request.requestId := by
  simp only [validateProcessRequest, Option.bind_eq_bind, Option.bind_eq_some_iff] at h
  obtain ⟨requestId, hid, _, -, _, -, _, -, _, -, _, -, _, -, _, -, hmade⟩ := h
  have hword : identifier 200 isWord requestId := by
    unfold common at hid
    split at hid
    · exact (Option.filter_eq_some_iff.mp hid).2
    · cases hid
  split at hmade
  · cases hmade
    exact hword
  · cases hmade

/-- An outcome has a code of the owner's, or a body within what was asked for. -/
theorem processOperation_spec {a : Native} (hcoded : a.process.Coded)
    {outcome : WorkerOperationOutcome ProcessBody}
    (h : processOperation route a operation cursor = .ok outcome) :
    (∀ code ∈ outcome.errorCode, isErrorCode code) ∧
      ∀ body, outcome = .succeeded body → body.size ≤ operation.maxOutputBytes ∧
        body.cursor = cursor := by
  obtain ⟨_, -, h⟩ := Except.bind_eq_ok_iff.mp h
  obtain ⟨_, -, h⟩ := Except.bind_eq_ok_iff.mp h
  obtain ⟨_, -, h⟩ := Except.bind_eq_ok_iff.mp h
  replace h : validateWorkerOutcome ProcessBody.size operation
      (operateProcess a.process operation cursor) = .ok outcome := h
  have hcodes : ∀ code ∈ (operateProcess a.process operation cursor).errorCode, isErrorCode code :=
    code_of_operateProcess hcoded
  cases hmade : operateProcess a.process operation cursor with
  | succeeded body =>
    rw [hmade] at h hcodes
    simp only [validateWorkerOutcome] at h
    split at h
    · cases h
    next hsize =>
      cases h
      refine ⟨hcodes, ?_⟩
      rintro _ ⟨⟩
      exact ⟨not_lt.mp hsize, cursor_of_operateProcess hmade⟩
  | refused code | failed code | unknown code =>
    rw [hmade] at h hcodes
    cases h
    exact ⟨hcodes, fun _ heq => by cases heq⟩

/-- Whatever becomes of a request for a process, the response fits. -/
theorem length_dispatchProcess_le (h : Identified svc route request)
    (hdigest : ∀ k m, isDigest (svc.hmac k m)) (hbudget : 1024 < request.maxResponseBytes)
    {a : Native} (hcoded : a.process.Coded) {v : Value}
    (hv : dispatchProcess svc route request a = .ok v) :
    (encodePayload svc v).length ≤ request.maxResponseBytes := by
  have hnull : (Value.null.write svc.real).length = 4 := by rw [Value.write]; decide
  have hnone : ∀ state {code : Option String}, Plain state ∧ state.length ≤ 9 →
      (∀ c ∈ code, isErrorCode c) → (encodePayload svc (processResult svc route request
      state .null code)).length ≤ request.maxResponseBytes := by
    intro state code hstate hcode
    have hlen := length_processResult_le h hstate hcode .null
    have hcodelen : (code.map fun _ => 130).getD 4 ≤ 130 := by
      cases code with
      | none => decide
      | some c => exact le_rfl
    rw [length_encodePayload]
    omega
  have hrefused : ∀ code, isErrorCode code → (encodePayload svc (processResult svc route request
      "REFUSED" .null (some code))).length ≤ request.maxResponseBytes :=
    fun code hcode => hnone "REFUSED" (by decide) fun c hc => by cases hc; exact hcode
  unfold dispatchProcess at hv
  split at hv
  · cases hv
    exact hrefused _ (by decide)
  · split at hv
    · cases hv
      exact hrefused _ (by decide)
    next offset hoffset =>
      obtain ⟨operation, hop, hv⟩ := Except.bind_eq_ok_iff.mp hv
      obtain ⟨outcome, hout, hv⟩ := Except.bind_eq_ok_iff.mp hv
      obtain ⟨hcodes, hbody⟩ := processOperation_spec hcoded hout
      cases hv
      cases outcome with
      | succeeded body =>
        obtain ⟨hsize, rfl⟩ := hbody body rfl
        have hmax : operation.maxOutputBytes = processBudget request := by
          simp only [operationRequest] at hop
          split at hop
          · cases hop
            rfl
          · cases hop
        have hcursor : body.cursor ≤ 65536 := by
          cases hc : request.cursor with
          | none =>
            rw [hc, offsetOf?, Option.some.injEq] at hoffset
            omega
          | some cursor =>
            rw [hc] at hoffset
            exact (offsetOf?_eq_some.mp hoffset).2.1
        rw [hmax] at hsize
        have hmin := hsize.trans (min_le_left 65536 (request.maxResponseBytes - 1024))
        have hleft := hsize.trans (min_le_right 65536 (request.maxResponseBytes - 1024))
        have hsigned := length_signed_le route hdigest hcursor hmin
        have hstate : Plain "SUCCEEDED" ∧ "SUCCEEDED".length ≤ 9 := by decide
        have hnocode : ∀ c ∈ (none : Option String), isErrorCode c := fun c hc => by cases hc
        have hlen := length_processResult_le h hstate hnocode (body.fields
          (text (String.ofList (cursorOf svc route body.handle body.cursor)))
          (text (String.ofList (cursorOf svc route body.handle body.nextCursor))))
        rw [Option.map_none, Option.getD_none] at hlen
        rw [length_encodePayload]
        change ((processResult svc route request "SUCCEEDED" (body.fields
            (text (String.ofList (cursorOf svc route body.handle body.cursor)))
            (text (String.ofList (cursorOf svc route body.handle body.nextCursor)))) none).write
          svc.real).length ≤ _
        omega
      | refused code => exact hnone "REFUSED" (by decide) hcodes
      | failed code => exact hnone "FAILED" (by decide) hcodes
      | unknown code => exact hnone "UNKNOWN" (by decide) hcodes

theorem length_processRefusal_le (h : Identified svc route request)
    (hbudget : 1024 < request.maxResponseBytes) {code : String} (hcode : isErrorCode code) :
    (encodePayload svc (processRefusal svc route code (some (.process request)))).length ≤
      request.maxResponseBytes := by
  have heq : processRefusal svc route code (some (.process request)) =
      processResult svc route request "REFUSED" .null (some code) := rfl
  have hnull : (Value.null.write svc.real).length = 4 := by rw [Value.write]; decide
  have hstate : Plain "REFUSED" ∧ "REFUSED".length ≤ 9 := by decide
  have hcodes : ∀ c ∈ some code, isErrorCode c := fun c hc => by cases hc; exact hcode
  have hlen := length_processResult_le h hstate hcodes .null
  rw [hnull, Option.map_some, Option.getD_some] at hlen
  rw [heq, length_encodePayload]
  omega

end Replies

/-! ### Replies and tokens -/

/-- The reply to a request for a process fits what its peer has left for it, and so does a refusal
in its place, so that none is dropped after the operation. A cursor stands for its offset, it is
accepted only for the session, the handle and the offset it was issued for, and neither a cursor
nor an operation identifier is ever taken for the other, as long as no two of the messages that
were signed, or are asked about, have one digest. -/
theorem replies_fit (svc : Service) (hdigest : ∀ key message, isDigest (svc.hmac key message)) :
    (∀ route fields (request : ProcessRequest svc.limits) (a : Native), Issued svc route →
      validateProcessRequest fields svc.limits = some request → 1024 < request.maxResponseBytes →
      a.process.Coded →
      (∀ v, dispatchProcess svc route request a = .ok v →
        (encodePayload svc v).length ≤ min request.maxResponseBytes svc.limits.maxFrameBytes) ∧
      ∀ code, isErrorCode code →
        (encodePayload svc (processRefusal svc route code (some (.process request)))).length ≤
          min request.maxResponseBytes svc.limits.maxFrameBytes) ∧
    (∀ route handle, ∀ offset ≤ 65536,
      offsetOf? svc route handle (some (String.ofList (cursorOf svc route handle offset))) =
        some offset) ∧
    ∀ messages, CollisionFree svc messages → ∀ route route' : Route, ∀ handle handle' offset,
      ':' ∉ route.sessionId.toList → ':' ∉ route'.sessionId.toList → ':' ∉ handle.toList →
      ':' ∉ handle'.toList →
      (cursorMessage route handle offset ∈ messages →
        cursorMessage route' handle' offset ∈ messages → ∀ n,
        offsetOf? svc route' handle' (some (String.ofList (cursorOf svc route handle offset))) =
          some n →
        route.token = route'.token ∧ route.sessionId = route'.sessionId ∧ handle = handle' ∧
          offset = n) ∧
      (cursorMessage route handle offset ∈ messages →
        operationMessage route' (Nat.toDigits 16 offset) ∈ messages →
        ¬ operationIdMatches svc route' (String.ofList (cursorOf svc route handle offset))) ∧
      ∀ nonce, '.' ∉ nonce → operationMessage route nonce ∈ messages →
        cursorMessage route' handle' (ofHex nonce) ∈ messages →
        offsetOf? svc route' handle' (some (String.ofList (signOperationId svc route nonce))) =
          none := by
  refine ⟨?_, ?_, ?_⟩
  · intro route fields request a hissued hvalid hbudget hcoded
    have h : Identified svc route request :=
      ⟨requestId_of_validate hvalid, hissued.session, hissued.incarnation⟩
    have hframe : request.maxResponseBytes ≤ svc.limits.maxFrameBytes :=
      request.within.2.trans svc.limits.frames.1
    rw [min_eq_left hframe]
    exact ⟨fun v hv => length_dispatchProcess_le h hdigest hbudget hcoded hv,
      fun code hcode => length_processRefusal_le h hbudget hcode⟩
  · intro route handle offset hle
    exact offsetOf?_cursorOf hle
  · intro messages hinj route route' handle handle' offset hs hs' hh hh'
    refine ⟨?_, ?_, ?_⟩
    · intro hissued hasked n hn
      exact eq_of_offsetOf?_cursorOf hinj hissued hasked hs hs' hh hh' hn
    · intro hissued hasked
      exact not_operationIdMatches_cursorOf hinj hissued hasked hs'
    · intro nonce hnonce hissued hasked
      exact offsetOf?_signOperationId hinj hissued hasked hnonce hs

namespace Tokens

def runBinding (task : String) : WorkerRunBinding := ⟨"project", "writer", task, "run", 1⟩

/-- The route of one session, and that of another. -/
def route : Route where
  token := "transport-token-for-the-run-of-task-1-00001"
  sessionId := "session-of-the-run-of-task-1-001"
  binding := runBinding "task-1"
  bound := by decide

def other : Route where
  token := "transport-token-for-the-run-of-task-2-00002"
  sessionId := "session-of-the-run-of-task-2-002"
  binding := runBinding "task-2"
  bound := by decide

def nonce : List Char := List.replicate 63 '0' ++ ['2']

/-- The messages with what they are signed with. -/
def signed : List ((List Char × List Char) × Digest) :=
  [(operationMessage route nonce,
      "f634411c2703e575646e5b5d091794984858962f09744e2a57684147b6281270".toList),
    (cursorMessage route "proc-1" 0,
      "623e882a010cdb9fdb5f9e6138127061ce0d5dad792f067801db9966678bcb80".toList),
    (cursorMessage route "proc-1" 2,
      "b9086652830632be372c31313a9a291c2898e8764ce7ec8267c347aaac5dd3a8".toList),
    (cursorMessage other "proc-1" 2,
      "a7ed9fdc8650b68374f706cc1ceb214539cfd2941283989c644e6ac1cfe6707b".toList),
    (operationMessage other (Nat.toDigits 16 2),
      "8e85163fd957839da7aaf6fdde0428f049371681b14238713d1ef4189b1bee33".toList)]

def svc : Service where
  flavour := .process
  limits := {}
  incarnation := "incarnation-of-the-service-00001"
  loads := fun _ => none
  real := fun _ => []
  hmac := fun key message =>
    ((signed.find? fun e => e.1 = (key, message)).map Prod.snd).getD (List.replicate 64 '0')

def fields : Fields :=
  [("schema_version", nat 2), ("request_id", text "request-1"),
    ("session_id", text "session-of-the-run-of-task-1-001"),
    ("operation_id", text (String.ofList (signOperationId svc route nonce))),
    ("operation", text "process.start"), ("target", text "python"), ("cursor", .null),
    ("max_response_bytes", nat 4096)].map fun e => (.str e.1, e.2)

def native : Native where
  process := .child "proc-1" ⟨true, true, false, some 0, some "exited", [72, 105], 2⟩

theorem isDigest_hmac (key message : List Char) : isDigest (svc.hmac key message) := by
  have all : ∀ e ∈ signed, isDigest e.2 := by decide
  change isDigest (((signed.find? fun e => e.1 = (key, message)).map Prod.snd).getD
    (List.replicate 64 '0'))
  cases h : signed.find? fun e => e.1 = (key, message) with
  | none => decide
  | some e => exact all e (List.mem_of_find?_eq_some h)

theorem collisionFree : CollisionFree svc {m | m ∈ signed.map Prod.fst} := by
  have all : ∀ m ∈ signed.map Prod.fst, ∀ n ∈ signed.map Prod.fst,
      svc.hmac m.1 m.2 = svc.hmac n.1 n.2 → m = n := by decide
  intro m hm n hn h
  exact all m hm n hn h

end Tokens

open Tokens in
theorem replies_fit_started :
    (∃ request, validateProcessRequest fields svc.limits = some request ∧
      ∃ v, dispatchProcess svc route request native = .ok v ∧ (encodePayload svc v).length ≤ 4096) ∧
    offsetOf? svc route "proc-1" (some (String.ofList (cursorOf svc route "proc-1" 2))) = some 2 ∧
    offsetOf? svc other "proc-1" (some (String.ofList (cursorOf svc route "proc-1" 2))) = none ∧
    ¬ operationIdMatches svc other (String.ofList (cursorOf svc route "proc-1" 2)) ∧
    offsetOf? svc route "proc-1" (some (String.ofList (signOperationId svc route nonce))) =
      none := by
  obtain ⟨hreplies, hread, htokens⟩ := replies_fit svc isDigest_hmac
  obtain ⟨hcursor, hidentifier, -⟩ := htokens _ collisionFree route other "proc-1" "proc-1" 2
    (by decide) (by decide) (by decide) (by decide)
  refine ⟨?_, hread route "proc-1" 2 (by decide), ?_, ?_, ?_⟩
  · have hvalid : (validateProcessRequest fields svc.limits).any (fun request =>
        1024 < request.maxResponseBytes ∧ request.maxResponseBytes ≤ 4096 ∧
          (dispatchProcess svc route request native).isOk) = true := by
      decide +kernel
    obtain ⟨request, hrequest, hfacts⟩ := (Option.any_eq_true _ _).mp hvalid
    obtain ⟨hbudget, hmax, hok⟩ := of_decide_eq_true hfacts
    obtain ⟨hmade, -⟩ := hreplies route fields request native
      ⟨by decide, by decide, by decide⟩ hrequest hbudget trivial
    cases hv : dispatchProcess svc route request native with
    | error e =>
      rw [hv] at hok
      cases hok
    | ok v =>
      exact ⟨request, hrequest, v, hv,
        (hmade v hv).trans ((min_le_left _ _).trans hmax)⟩
  · cases h : offsetOf? svc other "proc-1"
      (some (String.ofList (cursorOf svc route "proc-1" 2))) with
    | none => rfl
    | some n =>
      obtain ⟨htoken, -⟩ := hcursor (by decide) (by decide) n h
      exact absurd htoken (by decide)
  · exact hidentifier (by decide) (by decide)
  · obtain ⟨-, -, hnonce⟩ := htokens _ collisionFree route route "proc-1" "proc-1" 2
      (by decide) (by decide) (by decide) (by decide)
    exact hnonce nonce (by decide) (by decide) (by decide +kernel)

end OrchKit.Local
