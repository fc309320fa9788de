import OrchKit.Data.Written
import OrchKit.Local.Operations

/-! # How much of its output a reply carries

A reply on a process carries the longest piece of the output from the cursor that its limit leaves
room for. The piece is found by bisection, which is right because a longer piece never makes a
shorter reply: the digits of the next cursor only grow, and the flag that there is more takes one
character less than the flag that there is not.
-/

namespace OrchKit.Local

open Bridge Json

/-! ### Base 64 -/

theorem length_base64 : ∀ data : Bytes, (base64 data).length = 4 * ((data.length + 2) / 3)
  | [] => rfl
  | [_] => by simp [base64]
  | [_, _] => by simp [base64]
  | _ :: _ :: _ :: rest => by
    have ih := length_base64 rest
    simp only [base64, List.length_cons, ih]
    omega

theorem isPlain_digit (n : ℕ) : isPlain (base64.digit n) := by
  have all : "ABCDEFGHIJKLMNOPQRSTUVWXYZabcdefghijklmnopqrstuvwxyz0123456789+/".toList.all
      isPlain := by decide
  unfold base64.digit
  cases hn : ("ABCDEFGHIJKLMNOPQRSTUVWXYZabcdefghijklmnopqrstuvwxyz0123456789+/".toList)[n]? with
  | none => decide
  | some c => exact List.all_eq_true.mp all c (List.mem_of_getElem? hn)

theorem isPlain_base64 : ∀ data : Bytes, ∀ c ∈ base64 data, isPlain c
  | [], _, h => by simp [base64] at h
  | [a], c, h => by
    simp only [base64, List.mem_cons, List.not_mem_nil, or_false] at h
    obtain rfl | rfl | rfl | rfl := h
    · exact isPlain_digit _
    · exact isPlain_digit _
    · decide
    · decide
  | [a, b], c, h => by
    simp only [base64, List.mem_cons, List.not_mem_nil, or_false] at h
    obtain rfl | rfl | rfl | rfl := h
    · exact isPlain_digit _
    · exact isPlain_digit _
    · exact isPlain_digit _
    · decide
  | a :: b :: d :: rest, c, h => by
    simp only [base64, List.mem_cons] at h
    obtain rfl | rfl | rfl | rfl | h := h
    · exact isPlain_digit _
    · exact isPlain_digit _
    · exact isPlain_digit _
    · exact isPlain_digit _
    · exact isPlain_base64 rest c h

def sextet (c : Char) : ℕ :=
  "ABCDEFGHIJKLMNOPQRSTUVWXYZabcdefghijklmnopqrstuvwxyz0123456789+/".toList.idxOf c

/-- `base64.b64decode`, of what is well formed. -/
def unbase64 : List Char → Bytes
  | a :: b :: c :: d :: rest =>
    let first := UInt8.ofNat (sextet a * 4 + sextet b / 16)
    let second := UInt8.ofNat (sextet b % 16 * 16 + sextet c / 4)
    let third := UInt8.ofNat (sextet c % 4 * 64 + sextet d)
    if c = '=' then [first]
    else if d = '=' then [first, second]
    else first :: second :: third :: unbase64 rest
  | _ => []

theorem sextet_digit {n : ℕ} (h : n < 64) : sextet (base64.digit n) = n := by
  have all : ∀ i : Fin 64, sextet (base64.digit i) = i := by decide +kernel
  exact all ⟨n, h⟩

theorem digit_ne {n : ℕ} (h : n < 64) : base64.digit n ≠ '=' := by
  have all : ∀ i : Fin 64, base64.digit i ≠ '=' := by decide +kernel
  exact all ⟨n, h⟩

theorem ofNat_toNat_of_eq {n : ℕ} {a : UInt8} (h : n = a.toNat) : UInt8.ofNat n = a := by
  rw [h, UInt8.ofNat_toNat]

/-- What has been encoded is decoded to what it was. -/
theorem unbase64_base64 : ∀ data : Bytes, unbase64 (base64 data) = data
  | [] => rfl
  | [a] => by
    have ha := a.toNat_lt
    have h₁ := sextet_digit (n := a.toNat / 4) (by omega)
    have h₂ := sextet_digit (n := a.toNat % 4 * 16) (by omega)
    simp only [base64, unbase64, h₁, h₂, if_true]
    congr 1
    exact ofNat_toNat_of_eq (by omega)
  | [a, b] => by
    have ha := a.toNat_lt
    have hb := b.toNat_lt
    have h₁ := sextet_digit (n := a.toNat / 4) (by omega)
    have h₂ := sextet_digit (n := a.toNat % 4 * 16 + b.toNat / 16) (by omega)
    have h₃ := sextet_digit (n := b.toNat % 16 * 4) (by omega)
    have hne := digit_ne (n := b.toNat % 16 * 4) (by omega)
    simp only [base64, unbase64, h₁, h₂, h₃, if_neg hne, if_true]
    congr 1
    · exact ofNat_toNat_of_eq (by omega)
    · congr 1
      exact ofNat_toNat_of_eq (by omega)
  | a :: b :: c :: rest => by
    have ha := a.toNat_lt
    have hb := b.toNat_lt
    have hc := c.toNat_lt
    have h₁ := sextet_digit (n := a.toNat / 4) (by omega)
    have h₂ := sextet_digit (n := a.toNat % 4 * 16 + b.toNat / 16) (by omega)
    have h₃ := sextet_digit (n := b.toNat % 16 * 4 + c.toNat / 64) (by omega)
    have h₄ := sextet_digit (n := c.toNat % 64) (by omega)
    have hne₃ := digit_ne (n := b.toNat % 16 * 4 + c.toNat / 64) (by omega)
    have hne₄ := digit_ne (n := c.toNat % 64) (by omega)
    simp only [base64, unbase64, h₁, h₂, h₃, h₄, if_neg hne₃, if_neg hne₄, unbase64_base64 rest]
    rw [ofNat_toNat_of_eq (a := a) (by omega), ofNat_toNat_of_eq (a := b) (by omega),
      ofNat_toNat_of_eq (a := c) (by omega)]

/-! ### Bisection -/

/-- The search comes to the greatest count that fits, if what is less than what fits fits too. -/
theorem fitting_spec {fits : ℕ → Bool} {top : ℕ}
    (down : ∀ m n, m ≤ n → n ≤ top → fits n → fits m) {low high : ℕ}
    (htop : high ≤ top) (hle : low ≤ high) (hlow : fits low) :
    fitting fits low high ≤ high ∧ fits (fitting fits low high) ∧
      ∀ n ≤ high, fits n → n ≤ fitting fits low high := by
  fun_induction fitting fits low high with
  | case1 low high hlt mid hfits ih =>
    have hmid : mid = (low + high + 1) / 2 := rfl
    exact ih htop (by omega) hfits
  | case2 low high hlt mid hfits ih =>
    have hmid : mid = (low + high + 1) / 2 := rfl
    obtain ⟨h₁, h₂, h₃⟩ := ih (by omega) (by omega) hlow
    refine ⟨by omega, h₂, ?_⟩
    intro n hn hfn
    apply h₃ n _ hfn
    by_contra hbig
    exact hfits (down mid n (by omega) (by omega) hfn)
  | case3 low high hge =>
    exact ⟨by omega, hlow, fun n hn _ => by omega⟩

/-! ### The size of a body -/

section Size

variable (body : ProcessBody)

def ProcessBody.keys : List String :=
  ["schema_version", "handle", "process_state", "exit_code", "reason", "cursor", "next_cursor",
    "output_base64", "total_output_bytes", "retained_output_bytes", "truncated", "has_more"]

/-- What a body takes besides its cursors. -/
def ProcessBody.rest : ℕ :=
  190 + body.handle.length + (if body.exited then 6 else 7) +
    (body.exitCode.map Canonical.int).getD 4 + (body.reason.map fun r => 2 + r.length).getD 4 +
    4 * ((body.data.length + 2) / 3) + Canonical.nat body.total + Canonical.nat body.retained +
    Canonical.bool body.truncated + Canonical.bool body.hasMore

variable {body} (real : ℚ → List Char)

theorem length_write_bool (b : Bool) : ((Value.bool b).write real).length = Canonical.bool b := by
  cases b <;> rw [Value.write] <;> rfl

theorem length_write_exitCode (code : Option ℤ) :
    (((code.map fun i => Value.number (.int i)).getD .null).write real).length =
      (code.map Canonical.int).getD 4 := by
  cases code with
  | none => rw [Option.map_none, Option.getD_none, Value.write]; rfl
  | some i =>
    rw [Option.map_some, Option.getD_some, Value.write, length_writeInt]
    rfl

theorem length_write_text? {s : Option String} (h : ∀ t ∈ s, Plain t) :
    (((s.map text).getD .null).write real).length = (s.map fun t => 2 + t.length).getD 4 := by
  cases s with
  | none => rw [Option.map_none, Option.getD_none, Value.write]; rfl
  | some t =>
    rw [Option.map_some, Option.getD_some, length_write_text real (h t rfl)]
    rfl

theorem length_encodePayload (svc : Service) (v : Value) :
    (encodePayload svc v).length = (v.write svc.real).length := List.length_map _

theorem length_write_base64 (data : Bytes) :
    ((text (String.ofList (base64 data))).write real).length =
      2 + 4 * ((data.length + 2) / 3) := by
  have hplain : Plain (String.ofList (base64 data)) := by
    intro c hc
    rw [String.toList_ofList] at hc
    exact isPlain_base64 data c hc
  rw [length_write_text real hplain, String.length_ofList, length_base64]

/-- A body takes what is there besides its cursors, and its cursors. -/
theorem ProcessBody.length_write_fields (hh : Plain body.handle) (hr : ∀ r ∈ body.reason, Plain r)
    (cursor nextCursor : Value) :
    ((body.fields cursor nextCursor).write real).length =
      body.rest + (cursor.write real).length + (nextCursor.write real).length := by
  have hframe : keyed ProcessBody.keys = 183 := by decide
  have hstate : ((text (if body.exited then "EXITED" else "RUNNING")).write real).length =
      if body.exited then 8 else 9 := by
    split
    · rw [length_write_text real (by decide)]; rfl
    · rw [length_write_text real (by decide)]; rfl
  have hversion : ((nat 1).write real).length = 1 := by rw [length_write_nat]; decide
  rw [ProcessBody.fields, length_write_object real ProcessBody.keys rfl (by decide), hframe]
  simp only [List.map_cons, List.map_nil, List.sum_cons, List.sum_nil, hversion, hstate,
    length_write_text real hh, length_write_exitCode, length_write_text? real hr,
    length_write_base64, length_write_nat, length_write_bool, ProcessBody.rest]
  split <;> omega

theorem ProcessBody.size_eq (body : ProcessBody) (hh : Plain body.handle)
    (hr : ∀ r ∈ body.reason, Plain r) :
    body.size = body.rest + Canonical.nat body.cursor + Canonical.nat body.nextCursor := by
  rw [ProcessBody.size, ProcessBody.length_write_fields _ hh hr, length_write_nat,
    length_write_nat]

end Size

/-! ### Slices -/

def reasons : List String := ["exited", "terminated", "deadline", "owner_cleanup"]

/-- What a child retains never takes more than the largest output, and an exit that has been
recorded has a code of 32 bits. -/
structure Child.Bounded (child : Child) : Prop where
  retained : child.output.length ≤ workerMaxOutputBytes
  reason : ∀ r ∈ child.reason, r ∈ reasons
  code : child.settled → child.recorded → ∀ i ∈ child.exitCode, -2 ^ 31 ≤ i ∧ i < 2 ^ 31

/-- The reply of `_envelope` that carries so many bytes from the cursor on. -/
def Child.body (child : Child) (handle : String) (cursor count : ℕ) : ProcessBody :=
  let ended : Bool := child.settled && child.recorded
  { handle, exited := ended, exitCode := if ended then child.exitCode else none
    reason := child.reason, cursor, data := (child.output.drop cursor).take count
    total := child.total, retained := child.output.length
    truncated := child.output.length < child.total
    hasMore := count < (child.output.drop cursor).length }

section Slices

variable {request : WorkerOperationRequest} {handle : String} {child : Child} {cursor : ℕ}

theorem plain_of_mem_reasons {r : String} (h : r ∈ reasons) : Plain r ∧ r.length ≤ 13 := by
  simp only [reasons, List.mem_cons, List.not_mem_nil, or_false] at h
  obtain rfl | rfl | rfl | rfl := h <;> decide

theorem isPlain_of_isWord {c : Char} (h : isWord c) : isPlain c := by
  simp only [isWord, Bool.or_eq_true, decide_eq_true_eq] at h
  simp only [isPlain, Bool.and_eq_true, decide_eq_true_eq, ne_eq]
  obtain h | h := h
  · delta Char.isAlphanum Char.isAlpha Char.isUpper Char.isLower Char.isDigit at h
    simp only [Bool.or_eq_true, Bool.and_eq_true, decide_eq_true_eq, ge_iff_le,
      UInt32.le_iff_toNat_le] at h
    have hv : c.val.toNat = c.toNat := rfl
    simp only [hv] at h
    refine ⟨⟨⟨?_, ?_⟩, ?_⟩, ?_⟩
    · revert h; simp; omega
    · revert h; simp; omega
    · rintro rfl; revert h; decide
    · rintro rfl; revert h; decide
  · simp only [List.mem_cons, List.not_mem_nil, or_false] at h
    obtain rfl | rfl | rfl := h <;> decide

theorem plain_of_identifier {limit : ℕ} {s : String} (h : identifier limit isWord s) : Plain s := by
  simp only [identifier, Bool.and_eq_true, List.all_eq_true] at h
  exact fun c hc => isPlain_of_isWord (h.2 c hc)

theorem int_le {i : ℤ} (h : -2 ^ 31 ≤ i ∧ i < 2 ^ 31) : Canonical.int i ≤ 11 := by
  obtain ⟨h₁, h₂⟩ := h
  have hdigits : Canonical.nat i.natAbs ≤ 10 := Canonical.nat_le (by decide) (by omega)
  unfold Canonical.int
  split <;> omega

theorem bool_le (b : Bool) : 4 ≤ Canonical.bool b ∧ Canonical.bool b ≤ 5 := by
  cases b <;> decide

theorem minimumFits_iff (hh : Plain handle) :
    minimumFits request handle ↔ 267 + handle.length ≤ request.maxOutputBytes := by
  have hreason : ∀ r ∈ some "owner_cleanup", Plain r := by
    intro r hr
    cases hr
    decide
  have hcode : Canonical.int (-2147483648) = 11 := by decide
  have htotal : Canonical.nat 9223372036854775807 = 19 := by decide
  have hretained : Canonical.nat 65536 = 5 := by decide
  rw [minimumFits, decide_eq_true_eq, ProcessBody.size_eq _ hh hreason, ProcessBody.rest,
    ProcessBody.nextCursor]
  simp only [Option.map_some, Option.getD_some, List.length_nil, Nat.add_zero, hcode, htotal,
    hretained, Canonical.bool, Bool.false_eq_true, if_false]
  rw [show "owner_cleanup".length = 13 from by decide]
  constructor <;> intro h <;> omega

theorem envelope_eq : envelope request handle child cursor =
    if child.isUnknown then .ok (.unknown "process_exit_unconfirmed")
    else if request.maxOutputBytes < (child.body handle cursor 0).size then
      .ok (.refused "process_envelope_too_small")
    else validateWorkerOutcome ProcessBody.size request (.succeeded (child.body handle cursor
      (fitting (fun n => (child.body handle cursor n).size ≤ request.maxOutputBytes) 0
        (child.output.drop cursor).length))) := rfl

theorem length_data {n : ℕ} (hn : n ≤ (child.output.drop cursor).length) :
    (child.body handle cursor n).data.length = n := by
  rw [Child.body, List.length_take, Nat.min_eq_left hn]

theorem size_body (hh : Plain handle) (hb : child.Bounded) {n : ℕ}
    (hn : n ≤ (child.output.drop cursor).length) :
    (child.body handle cursor n).size + Canonical.bool
      (decide (0 < (child.output.drop cursor).length)) +
        Canonical.nat cursor =
      (child.body handle cursor 0).size + 4 * ((n + 2) / 3) + Canonical.nat (cursor + n) +
        Canonical.bool (decide (n < (child.output.drop cursor).length)) := by
  have hr : ∀ r ∈ child.reason, Plain r := fun r hr => (plain_of_mem_reasons (hb.reason r hr)).1
  rw [ProcessBody.size_eq (child.body handle cursor n) hh hr,
    ProcessBody.size_eq (child.body handle cursor 0) hh hr]
  simp only [ProcessBody.rest, ProcessBody.nextCursor, length_data hn, length_data (Nat.zero_le _),
    Nat.add_zero, Nat.zero_add, Nat.reduceDiv, Nat.mul_zero]
  cases hended : child.settled && child.recorded <;> simp only [Child.body, hended] <;> omega

theorem size_body_mono (hh : Plain handle) (hb : child.Bounded) {m n : ℕ} (hmn : m ≤ n)
    (hn : n ≤ (child.output.drop cursor).length) :
    (child.body handle cursor m).size ≤ (child.body handle cursor n).size := by
  have hm := size_body hh hb (hmn.trans hn)
  have hn' := size_body hh hb hn
  have hdigits : Canonical.nat (cursor + m) ≤ Canonical.nat (cursor + n) :=
    Canonical.nat_mono (Nat.add_le_add_left hmn cursor)
  have hgroups : (m + 2) / 3 ≤ (n + 2) / 3 := Nat.div_le_div_right (Nat.add_le_add_right hmn 2)
  have hmore : Canonical.bool (decide (m < (child.output.drop cursor).length)) ≤
      Canonical.bool (decide (n < (child.output.drop cursor).length)) := by
    unfold Canonical.bool
    simp only [decide_eq_true_eq]
    split <;> split <;> omega
  omega

/-- What a slice takes at most, when the total has so many digits. -/
theorem size_body_le (hh : Plain handle) (hb : child.Bounded) {n d : ℕ}
    (hn : n ≤ (child.output.drop cursor).length) (hc : cursor ≤ child.output.length)
    (hd : Canonical.nat child.total ≤ d) :
    (child.body handle cursor n).size ≤ 247 + handle.length + d + 4 * ((n + 2) / 3) := by
  have hr : ∀ r ∈ child.reason, Plain r := fun r hr => (plain_of_mem_reasons (hb.reason r hr)).1
  have hretained := hb.retained
  have hlen : (child.output.drop cursor).length = child.output.length - cursor := List.length_drop
  have hdigits : ∀ k ≤ 65536, Canonical.nat k ≤ 5 := fun k hk =>
    Canonical.nat_le (by decide) (by omega)
  have h₁ := hdigits cursor (hc.trans hretained)
  have h₂ := hdigits (cursor + n) (by rw [workerMaxOutputBytes] at hretained; omega)
  have h₃ := hdigits child.output.length hretained
  have hreason : (child.reason.map fun r => 2 + r.length).getD 4 ≤ 15 := by
    cases hreason : child.reason with
    | none => decide
    | some r =>
      have hlen := (plain_of_mem_reasons (hb.reason r (by rw [hreason]; rfl))).2
      rw [Option.map_some, Option.getD_some]
      omega
  have hcode : (child.settled && child.recorded) = true →
      (child.exitCode.map Canonical.int).getD 4 ≤ 11 := by
    intro hended
    rw [Bool.and_eq_true] at hended
    cases hexit : child.exitCode with
    | none => decide
    | some i => exact int_le (hb.code hended.1 hended.2 i (by rw [hexit]; rfl))
  have htruncated := (bool_le (decide (child.output.length < child.total))).2
  have hmore := (bool_le (decide (n < (child.output.drop cursor).length))).2
  rw [ProcessBody.size_eq (child.body handle cursor n) hh hr]
  simp only [ProcessBody.rest, ProcessBody.nextCursor, length_data hn]
  cases hended : child.settled && child.recorded with
  | false => simp only [Child.body, hended, Bool.false_eq_true, if_false, Option.map_none,
      Option.getD_none]; omega
  | true =>
    have hexit := hcode hended
    simp only [Child.body, hended, if_true]
    omega

theorem empty_fits (hh : Plain handle) (hb : child.Bounded) (hc : cursor ≤ child.output.length)
    (hm : minimumFits request handle) (ht : child.total < 10 ^ 20) :
    (child.body handle cursor 0).size ≤ request.maxOutputBytes := by
  have hd : Canonical.nat child.total ≤ 20 := Canonical.nat_le (by decide) ht
  have hsize := size_body_le (n := 0) hh hb (Nat.zero_le _) hc hd
  rw [minimumFits_iff hh] at hm
  omega

/-- Where a reply without output fits, `_envelope` replies with a slice that fits, and no longer
slice would. -/
theorem envelope_of_fits (hh : Plain handle) (hb : child.Bounded) (hu : ¬ child.isUnknown)
    (hfit : (child.body handle cursor 0).size ≤ request.maxOutputBytes) :
    ∃ n ≤ (child.output.drop cursor).length,
      envelope request handle child cursor = .ok (.succeeded (child.body handle cursor n)) ∧
      (child.body handle cursor n).size ≤ request.maxOutputBytes ∧
      ∀ m ≤ (child.output.drop cursor).length,
        (child.body handle cursor m).size ≤ request.maxOutputBytes → m ≤ n := by
  have down : ∀ m n, m ≤ n → n ≤ (child.output.drop cursor).length →
      decide ((child.body handle cursor n).size ≤ request.maxOutputBytes) →
      decide ((child.body handle cursor m).size ≤ request.maxOutputBytes) := by
    intro m n hmn hn hfn
    rw [decide_eq_true_eq] at hfn ⊢
    exact (size_body_mono hh hb hmn hn).trans hfn
  have hsearch := fitting_spec down le_rfl (Nat.zero_le _) (decide_eq_true hfit)
  obtain ⟨hle, hfits, hmax⟩ := hsearch
  rw [decide_eq_true_eq] at hfits
  refine ⟨_, hle, ?_, hfits, ?_⟩
  · rw [envelope_eq, if_neg hu, if_neg (Nat.not_lt.mpr hfit), validateWorkerOutcome,
      if_neg (Nat.not_lt.mpr hfits)]
  · intro m hm hfm
    exact hmax m hm (decide_eq_true hfm)

end Slices

end OrchKit.Local
