import OrchKit.Bridge.Workspace

/-! # Results fit into their records

The parts of a result are bounded one by one: identifiers by their checks, the target by its
size in UTF-8, numbers by their width. A result for a request that is in order and a file
that can be captured therefore always fits.
-/

namespace OrchKit.Bridge

open Canonical

theorem charSize_of_isAlphanum {c : Char} (h : c.isAlphanum) : charSize c ≤ 1 := by
  delta Char.isAlphanum Char.isAlpha Char.isUpper Char.isLower Char.isDigit at h
  simp only [Bool.or_eq_true, Bool.and_eq_true, decide_eq_true_eq, ge_iff_le,
    UInt32.le_iff_toNat_le] at h
  change ((65 ≤ c.toNat ∧ c.toNat ≤ 90) ∨ 97 ≤ c.toNat ∧ c.toNat ≤ 122) ∨
    48 ≤ c.toNat ∧ c.toNat ≤ 57 at h
  refine (charSize_of_printable ⟨by omega, by omega⟩ ?_ ?_).le
  · rintro rfl
    exact absurd h (by decide)
  · rintro rfl
    exact absurd h (by decide)

theorem charSize_of_isWord {c : Char} (h : isWord c) : charSize c ≤ 1 := by
  simp only [isWord, Bool.or_eq_true, decide_eq_true_eq] at h
  rcases h with h | h
  · exact charSize_of_isAlphanum h
  · simp only [List.mem_cons, List.not_mem_nil, or_false] at h
    rcases h with rfl | rfl | rfl <;> decide

theorem charSize_of_isHex {c : Char} (h : isHex c) : charSize c ≤ 1 := by
  simp only [isHex, Char.isDigit, Bool.or_eq_true, Bool.and_eq_true, decide_eq_true_eq, ge_iff_le,
    Char.le_def, UInt32.le_iff_toNat_le] at h
  change (48 ≤ c.toNat ∧ c.toNat ≤ 57) ∨ 97 ≤ c.toNat ∧ c.toNat ≤ 102 at h
  refine (charSize_of_printable ⟨by omega, by omega⟩ ?_ ?_).le
  · rintro rfl
    exact absurd h (by decide)
  · rintro rfl
    exact absurd h (by decide)

theorem str_le_of_identifier {limit : ℕ} {allowed : Char → Bool} {s : String}
    (h : identifier limit allowed s) (ha : ∀ c, allowed c → charSize c ≤ 1) :
    str s ≤ 2 + limit := by
  simp only [identifier, Bool.and_eq_true, decide_eq_true_eq, List.all_eq_true] at h
  obtain ⟨⟨hl, -⟩, hall⟩ := h
  have hs := chars_le_length fun c hc => ha c (hall c hc)
  rw [String.length_toList] at hs
  exact hs.trans (Nat.add_le_add_left hl 2)

theorem chars_le_of_isDigest {d : Digest} (h : isDigest d) : chars d ≤ 66 := by
  simp only [isDigest, Bool.and_eq_true, decide_eq_true_eq, List.all_eq_true] at h
  obtain ⟨hl, hall⟩ := h
  have hs := chars_le_length fun c hc => charSize_of_isHex (hall c hc)
  rwa [hl] at hs

theorem WorkerRunBinding.bytes_le {binding : WorkerRunBinding} (h : binding.valid) :
    binding.bytes ≤ 900 := by
  simp only [valid, Bool.and_eq_true, decide_eq_true_eq] at h
  obtain ⟨⟨⟨⟨⟨hp, hw⟩, ht⟩, hr⟩, -⟩, ha⟩ := h
  have hproject := str_le_of_identifier hp fun c hc =>
    charSize_of_isWord (Bool.and_eq_true_iff.mp hc).1
  have hwriter := str_le_of_identifier hw fun c hc => by
    rcases Bool.or_eq_true_iff.mp hc with hc | hc
    · exact charSize_of_isWord hc
    · cases of_decide_eq_true hc
      decide
  have htask := str_le_of_identifier ht fun c hc => charSize_of_isWord hc
  have hrun := str_le_of_identifier hr fun c hc => charSize_of_isWord hc
  have hattempt : nat binding.attempt ≤ 7 := nat_le (by decide) (by omega)
  have hframe : frame ["attempt", "project_id", "run_id", "task_id", "writer_key"] = 61 := by
    decide
  simp only [bytes, obj_eq, List.map_cons, List.map_nil, List.sum_cons, List.sum_nil, hframe]
  omega

theorem WorkerOperationRequest.bytes_le {request : WorkerOperationRequest}
    (h : patchRequest request) : request.bytes ≤ 4400 := by
  simp only [patchRequest, valid, Bool.and_eq_true, decide_eq_true_eq] at h
  obtain ⟨⟨⟨⟨⟨hb, ho⟩, ht⟩, -⟩, hm⟩, hk⟩ := h
  rw [hk, if_pos (by decide)] at ht
  simp only [fileTarget, Bool.and_eq_true, decide_eq_true_eq, List.all_eq_true] at ht
  obtain ⟨⟨⟨⟨⟨⟨-, hsize⟩, -⟩, -⟩, -⟩, hchars⟩, -⟩ := ht
  have hbinding := WorkerRunBinding.bytes_le hb
  have hoperation := str_le_of_identifier ho fun c hc => charSize_of_isWord hc
  have htarget := str_le_utf8Size hchars
  have hmax : nat request.maxOutputBytes ≤ 5 := nat_le (by decide) (by
    have : workerMaxOutputBytes = 65536 := rfl
    omega)
  have hkind : word request.kind.text = 12 := by
    rw [hk]
    decide
  have hframe : frame ["binding", "kind", "max_output_bytes", "operation_id", "schema_version",
    "target"] = 84 := by decide
  have hone : nat 1 = 1 := by decide
  simp only [bytes, obj_eq, List.map_cons, List.map_nil, List.sum_cons, List.sum_nil, hframe, hkind,
    hone]
  omega

theorem Inode.bytes_content_le (digests : Digests) {file : Inode} {uid : ℕ}
    (h : file.capturable uid) : (file.content digests).bytes ≤ 600 := by
  simp only [capturable, regular, Bool.and_eq_true, decide_eq_true_eq] at h
  obtain ⟨⟨-, hsize⟩, -⟩ := h
  have hlength : nat file.data.length ≤ 5 := nat_le (by decide) (by
    have : workerMaxOutputBytes = 65536 := rfl
    omega)
  have hsha := chars_le_of_isDigest (digests.isDigest_content file.data)
  have hxattrs := chars_le_of_isDigest (digests.isDigest_xattrs file.xattrs)
  have hnumber : ∀ n : UInt64, nat n.toNat ≤ 20 := fun n => nat_le_of_lt n.toNat_lt
  have hdev := hnumber file.dev
  have hino := hnumber file.ino
  have hmode := hnumber file.mode
  have huid := hnumber file.uid
  have hgid := hnumber file.gid
  have hnlink := hnumber file.nlink
  have hmtime := hnumber file.mtimeNs
  have hctime := hnumber file.ctimeNs
  have hflags := hnumber file.flags
  have hframe : frame ["ctime_ns", "dev", "flags", "gid", "ino", "mode", "mtime_ns",
    "nlink", "size", "uid"] = 87 := by decide
  have hcontent : frame ["identity", "sha256", "size_bytes", "xattrs_digest"] = 54 := by decide
  simp only [content, Content.bytes, signature, FileSignature.bytes, obj_eq, List.map_cons,
    List.map_nil, List.sum_cons, List.sum_nil, hframe, hcontent]
  omega

theorem Inode.valid_content {file : Inode} {uid : ℕ} {digests : Digests}
    (h : file.capturable uid) : (file.content digests).valid uid := by
  simp only [capturable, regular, Bool.and_eq_true, decide_eq_true_eq] at h
  obtain ⟨⟨⟨⟨⟨⟨hregular, huid⟩, hnlink⟩, hmode⟩, hflags⟩, hsize⟩, -⟩ := h
  have hino : file.ino.toNat ≠ 0 := fun h => file.ino_ne_zero (UInt64.toNat_inj.mp h)
  simp only [Content.valid, FileSignature.valid, content, signature, Bool.and_eq_true,
    decide_eq_true_eq, digests.isDigest_content, digests.isDigest_xattrs, hregular, huid, hmode,
    hnlink, hflags, hsize]
  simpa using hino

/-- A result that names a captured file is in order whatever is its outcome. -/
theorem ResultRecord.valid_of (digests : Digests) {file : Inode} {uid : ℕ} {result : ResultRecord}
    (hrequest : patchRequest result.request) (hintent : isDigest result.intentFingerprint)
    (hdispatch : isDigest result.dispatchSha256)
    (hpublication : result.publicationSha256.all isDigest)
    (hc : file.capturable uid) (htarget : result.basis.target = file.content digests)
    (habsent : result.basis.tempAbsent = true) : (ExecutionRecord.result result).valid uid := by
  have hbytes : (ExecutionRecord.result result).bytes ≤ recordMaxBytes := by
    have hrequest' := WorkerOperationRequest.bytes_le hrequest
    have hintent' := chars_le_of_isDigest hintent
    have hdispatch' := chars_le_of_isDigest hdispatch
    have hcontent := Inode.bytes_content_le digests hc
    have hpublication' : result.publicationSha256.elim null chars ≤ 66 := by
      cases h : result.publicationSha256 with
      | none => decide
      | some d =>
        rw [h] at hpublication
        exact chars_le_of_isDigest hpublication
    have hkind : word result.basis.kind.text ≤ 27 := by cases result.basis.kind <;> decide
    have hdisposition : word result.disposition.text ≤ 13 := by cases result.disposition <;> decide
    have hframe : frame ["created_at", "intent_fingerprint", "phase", "request", "schema_version",
      "basis", "dispatch_sha256", "disposition", "publication_sha256"] ≤ 150 := by decide
    have hbasis : frame ["kind", "target", "temp_absent"] ≤ 40 := by decide
    have hphase : word Phase.result.text = 8 := by decide
    have hone : nat 1 = 1 := by decide
    have htime : timeBytes = 29 := rfl
    have hmax : recordMaxBytes = 8192 := rfl
    simp only [ExecutionRecord.bytes, RecordBase.fields, Basis.bytes, obj_eq, htarget, habsent,
      List.map_cons, List.map_nil, List.sum_cons, List.sum_nil, List.cons_append, List.nil_append,
      hphase, hone, htime, hmax, Canonical.bool, if_true]
    omega
  simp only [ExecutionRecord.valid, ExecutionRecord.base, hrequest, hintent, hdispatch,
    hpublication, habsent, htarget, Inode.valid_content hc, hbytes, decide_true, Bool.and_self]

end OrchKit.Bridge
