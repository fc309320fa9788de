import Mathlib.Data.List.Dedup
import OrchKit.Ledger.Readmission

/-! # What a readmission may not widen

The review a new task asks for and the paths it may touch, against those of the task
it supersedes. Both checks compare lists entry by entry; what they are for is that
every change the old task had reviewed is reviewed again, and that no path is
allowed that was not.
-/

namespace OrchKit

open Except

/-! ### Review -/

section Review

variable {matching : String → String → Bool} {before after : ReviewPolicy} {paths : List Path}
  {totalBytes attempt : ℕ}

theorem reviewSignalsBy_ne_nil_iff {policy : ReviewPolicy} :
    reviewSignalsBy matching policy paths totalBytes attempt ≠ [] ↔
      (∃ tag ∈ policy.riskTags, tag ∈ policy.triggerTags) ∨
      (∃ path ∈ paths, pathMatchesBy matching path policy.sensitivePatterns) ∨
      policy.largeDiffFiles ≤ paths.length ∨ policy.largeDiffBytes ≤ totalBytes ∨
      (1 < attempt ∧ policy.reviewOnRetry) := by
  have hsorted (xs : List String) : sorted xs = [] ↔ xs = [] := by
    rw [← List.length_eq_zero_iff, sorted, List.length_insertionSort, List.length_eq_zero_iff]
  simp only [reviewSignalsBy, ne_eq, List.append_eq_nil_iff, List.map_eq_nil_iff,
    List.take_eq_nil_iff, hsorted, List.filter_eq_nil_iff, List.mem_dedup, ite_eq_right_iff,
    List.cons_ne_nil, imp_false, decide_eq_true_eq, ge_iff_le, gt_iff_lt, Nat.reduceEqDiff,
    false_or]
  constructor
  · intro h
    by_contra hnone
    simp only [not_or, not_exists, not_and] at hnone
    obtain ⟨htags, hpaths, hfiles, hbytes, hretry⟩ := hnone
    apply h
    exact ⟨⟨⟨⟨htags, hpaths⟩, hfiles⟩, hbytes⟩, fun hr => hretry hr.1 hr.2⟩
  · rintro h ⟨⟨⟨⟨htags, hpaths⟩, hfiles⟩, hbytes⟩, hretry⟩
    rcases h with ⟨tag, hr, ht⟩ | ⟨path, hp, hm⟩ | h | h | h
    · exact htags tag hr ht
    · exact hpaths path hp hm
    · exact hfiles h
    · exact hbytes h
    · exact hretry h

theorem decideReviewBy_spec (matching : String → String → Bool) {policy : ReviewPolicy}
    {review : Option ReviewConfig} {requiredReview : Bool}
    (h : normalizeReviewPolicy review requiredReview = .ok policy)
    (files : List (Path × ℕ)) (attempt : ℕ) :
    ∃ decision, decideReviewBy matching review requiredReview files attempt = .ok decision ∧
      (decision.required ↔ policy.mode = .required ∨ policy.mode = .riskBased ∧
        reviewSignalsBy matching policy (sorted (files.map Prod.fst)) (files.map Prod.snd).sum
          attempt ≠ []) := by
  rw [decideReviewBy, h]
  refine ⟨_, rfl, ?_⟩
  simp only
  cases policy.mode with
  | off => simp
  | required => simp
  | riskBased => simp

theorem pathMatchesBy_mono {path : Path} {patterns patterns' : List String}
    (h : patterns ⊆ patterns') (hm : pathMatchesBy matching path patterns) :
    pathMatchesBy matching path patterns' := by
  simp only [pathMatchesBy, List.any_eq_true] at hm ⊢
  obtain ⟨pattern, hp, hmatch⟩ := hm
  exact ⟨pattern, h hp, hmatch⟩

/-- What the check of two review policies lets through. -/
structure ReviewKept (before after : ReviewPolicy) : Prop where
  mode : before.mode.level ≤ after.mode.level
  riskTags : before.riskTags ⊆ after.riskTags
  triggerTags : before.triggerTags ⊆ after.triggerTags
  sensitivePatterns : before.sensitivePatterns ⊆ after.sensitivePatterns
  largeDiffFiles : after.largeDiffFiles ≤ before.largeDiffFiles
  largeDiffBytes : after.largeDiffBytes ≤ before.largeDiffBytes
  reviewOnRetry : before.reviewOnRetry → after.reviewOnRetry

theorem reviewKept_of_contract (h : readmissionReviewContract before after = .ok ()) :
    ReviewKept before after := by
  rw [readmissionReviewContract, require_eq_ok_iff] at h
  simp only [not_or, not_and, not_not, not_lt, gt_iff_lt] at h
  obtain ⟨hmode, -, hrisk, htrigger, hsensitive, hfiles, hbytes, hretry⟩ := h
  exact ⟨hmode, hrisk, htrigger, hsensitive, hfiles, hbytes, hretry⟩

theorem ReviewKept.signals (h : ReviewKept before after)
    (hs : reviewSignalsBy matching before paths totalBytes attempt ≠ []) :
    reviewSignalsBy matching after paths totalBytes attempt ≠ [] := by
  rw [reviewSignalsBy_ne_nil_iff] at hs ⊢
  rcases hs with ⟨tag, hr, ht⟩ | ⟨path, hp, hm⟩ | hf | hb | ⟨ha, hr⟩
  · exact .inl ⟨tag, h.riskTags hr, h.triggerTags ht⟩
  · exact .inr (.inl ⟨path, hp, pathMatchesBy_mono h.sensitivePatterns hm⟩)
  · exact .inr (.inr (.inl (h.largeDiffFiles.trans hf)))
  · exact .inr (.inr (.inr (.inl (h.largeDiffBytes.trans hb))))
  · exact .inr (.inr (.inr (.inr ⟨ha, h.reviewOnRetry hr⟩)))

theorem reviewPolicy_eq_ok_iff {payload : TaskPayload} {policy : ReviewPolicy} :
    payload.reviewPolicy = .ok policy ↔
      normalizeReviewPolicy payload.review payload.requiredReview = .ok policy := by
  rw [TaskPayload.reviewPolicy]
  cases normalizeReviewPolicy payload.review payload.requiredReview with
  | error e => simp [Except.mapError]
  | ok policy' => simp [Except.mapError]

end Review

/-! ### Paths -/

section Paths

variable {path : Path} {allowlist old : List String} {p : String}

def EntryAllows (entry : String) (p : Path) : Prop :=
  ∃ item, normalizeRelativePath (String.ofList (entry.toList.rdropWhile (· == '/'))) = .ok item ∧
    (p = item ∨ entry.toList.getLast? = some '/' ∧ item.toList ++ ['/'] <+: p.toList)

theorem pathAllowed_iff : pathAllowed path allowlist ↔
    ∃ p, normalizeRelativePath path = .ok p ∧ ∃ entry ∈ allowlist, EntryAllows entry p := by
  rw [pathAllowed]
  split
  next e h => simp [h]
  next p h =>
    simp only [h, Except.ok.injEq, exists_eq_left', List.any_eq_true]
    refine exists_congr fun entry => and_congr_right fun _ => ?_
    rw [EntryAllows]
    split
    next h' => simp [h']
    next item h' => simp [h']

theorem allowedEntryKept_spec {entry : String} (h : allowedEntryKept old entry = .ok ()) :
    ∃ item, normalizeRelativePath (String.ofList (entry.toList.rdropWhile (· == '/'))) = .ok item ∧
      pathAllowed item old ∧ (entry.toList.getLast? = some '/' →
        ∃ allowed ∈ old, allowed.toList.getLast? = some '/' ∧ pathAllowed item [allowed]) := by
  simp only [allowedEntryKept, bind_eq_ok_iff, require_eq_ok_iff] at h
  obtain ⟨item, hitem, hallowed, hdir⟩ := h
  refine ⟨item, ?_, hallowed, fun hlast => ?_⟩
  · generalize normalizeRelativePath _ = x at hitem ⊢
    cases x with
    | error e => cases hitem
    | ok a => cases hitem; rfl
  · rcases hdir with hdir | hdir
    · exact absurd hlast hdir
    · simpa using hdir

/-- What an entry that was kept allows, the old allowlist allows. -/
theorem EntryAllows.kept {entry : String} (h : allowedEntryKept old entry = .ok ())
    (ha : EntryAllows entry p) : ∃ allowed ∈ old, EntryAllows allowed p := by
  obtain ⟨item, hitem, hallowed, hdirectory⟩ := allowedEntryKept_spec h
  obtain ⟨item', hitem', hp⟩ := ha
  cases hitem.symm.trans hitem'
  rcases hp with rfl | ⟨hlast, hprefix⟩
  · obtain ⟨q, hq, allowed, hmem, hentry⟩ := pathAllowed_iff.mp hallowed
    exact ⟨allowed, hmem, normalizeRelativePath_idem hitem hq ▸ hentry⟩
  · -- a directory is kept below a directory
    obtain ⟨allowed, hmem, hdir, hallows⟩ := hdirectory hlast
    obtain ⟨q, hq, allowed', hmem', top, htop, hbelow⟩ := pathAllowed_iff.mp hallows
    cases List.mem_singleton.mp hmem'
    cases normalizeRelativePath_idem hitem hq
    refine ⟨allowed, hmem, top, htop, .inr ⟨hdir, ?_⟩⟩
    rcases hbelow with rfl | ⟨-, hbelow⟩
    · exact hprefix
    · exact hbelow.trans ((List.prefix_append _ _).trans hprefix)

/-- The new task is allowed no path the old one was not. -/
def PathsKept (old new : TaskPayload) : Prop :=
  ∀ path, pathAllowed path new.allowedPaths → pathAllowed path old.allowedPaths

theorem forM_eq_ok {ε α : Type} {f : α → Except ε Unit} {xs : List α} (h : xs.forM f = .ok ()) :
    ∀ x ∈ xs, f x = .ok () := by
  induction xs with
  | nil => intro x hx; cases hx
  | cons y xs ih =>
    obtain ⟨_, hy, h⟩ := bind_eq_ok_iff.mp h
    intro x hx
    rcases List.mem_cons.mp hx with rfl | hx
    · exact hy
    · exact ih h x hx

theorem pathsKept_of_contract {old new : TaskPayload} {dependencyTaskId : TaskId} {remaining : ℕ}
    (h : readmissionContract old new dependencyTaskId remaining = .ok ()) : PathsKept old new := by
  obtain ⟨-, -, h⟩ := bind_eq_ok_iff.mp h
  obtain ⟨_, hpaths, -⟩ := bind_eq_ok_iff.mp h
  intro path hpath
  obtain ⟨p, hp, entry, hentry, hallows⟩ := pathAllowed_iff.mp hpath
  exact pathAllowed_iff.mpr ⟨p, hp, hallows.kept (forM_eq_ok hpaths entry hentry)⟩

theorem attempts_of_contract {old new : TaskPayload} {dependencyTaskId : TaskId} {remaining : ℕ}
    (h : readmissionContract old new dependencyTaskId remaining = .ok ()) :
    1 ≤ remaining ∧ new.maxAttempts ≤ remaining := by
  obtain ⟨_, hattempts, -⟩ := bind_eq_ok_iff.mp h
  exact require_eq_ok_iff.mp hattempts

end Paths

/-- Whatever the patterns match, a task that passes the review contract has every change
reviewed that the task it supersedes would have. -/
theorem review_not_widened (matching : String → String → Bool) {old new : TaskPayload}
    {before after : ReviewPolicy} (hold : old.reviewPolicy = .ok before)
    (hnew : new.reviewPolicy = .ok after)
    (hcontract : readmissionReviewContract before after = .ok ())
    (files : List (Path × ℕ)) (attempt : ℕ) {decision : ReviewDecision}
    (hdecision : decideReviewBy matching old.review old.requiredReview files attempt = .ok decision)
    (hrequired : decision.required) :
    ∃ decision', decideReviewBy matching new.review new.requiredReview files attempt =
      .ok decision' ∧ decision'.required := by
  obtain ⟨decided, hd, hold'⟩ := decideReviewBy_spec matching
    (reviewPolicy_eq_ok_iff.mp hold) files attempt
  obtain ⟨decided', hd', hnew'⟩ := decideReviewBy_spec matching
    (reviewPolicy_eq_ok_iff.mp hnew) files attempt
  cases hd.symm.trans hdecision
  have hkept := reviewKept_of_contract hcontract
  have hmode := hkept.mode
  refine ⟨decided', hd', hnew'.mpr ?_⟩
  rcases hold'.mp hrequired with hb | ⟨hb, hsignals⟩
  · rw [hb] at hmode
    cases ha : after.mode with
    | required => exact .inl rfl
    | off | riskBased => rw [ha] at hmode; exact absurd hmode (by decide)
  · rw [hb] at hmode
    cases ha : after.mode with
    | required => exact .inl rfl
    | riskBased => exact .inr ⟨rfl, hkept.signals hsignals⟩
    | off => rw [ha] at hmode; exact absurd hmode (by decide)

namespace Scenario

def reviewed (mode : ReviewMode) : TaskPayload where
  id := "t"
  projectId := none
  writerKey := "k"
  workspace := "w"
  allowedPaths := ["f"]
  protectedPaths := []
  checks := []
  requiredReview := false
  review := some { mode := some mode }
  ownerAcceptance := false
  publication := {}
  maxAttempts := 1
  dependencies := []

def reviewPolicy (mode : ReviewMode) : ReviewPolicy where
  mode := mode
  reviewer := .codex
  placement := .postVerify
  riskTags := []
  triggerTags := defaultRiskTags
  sensitivePatterns := defaultSensitivePatterns
  largeDiffFiles := 8
  largeDiffBytes := 20000
  reviewOnRetry := true

end Scenario

open Scenario in
theorem review_not_widened_retry :
    ∃ decision', decideReviewBy fnmatch (reviewed .required).review false [("f", 1)] 2 =
      .ok decision' ∧ decision'.required :=
  @review_not_widened fnmatch (reviewed .riskBased) (reviewed .required)
    (reviewPolicy .riskBased) (reviewPolicy .required) rfl rfl (by decide) [("f", 1)] 2 _ rfl
    (by decide)

end OrchKit
