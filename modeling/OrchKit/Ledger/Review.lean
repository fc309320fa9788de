import Mathlib.Algebra.GroupWithZero.Nat
import Mathlib.Data.List.Sort
import OrchKit.Ledger.Glob
import OrchKit.Ledger.Paths

/-! # Review policy

What a task asks for in the way of review, normalised with its defaults, and the
decision whether a manifest needs one.
-/

namespace OrchKit

inductive ReviewMode
  | off
  | riskBased
  | required
deriving DecidableEq

inductive Reviewer
  | none
  | codex
deriving DecidableEq

inductive Placement
  | postVerify
  | prePublish
deriving DecidableEq

def defaultRiskTags : List String :=
  ["architecture", "auth", "ci", "database", "external_integration", "git_workflow",
    "migration", "security", "tests_changed"]

def defaultSensitivePatterns : List String :=
  ["**/auth/**", "**/security/**", "**/migrations/**", "**/.github/**", "**/auth.*",
    "**/security.*", "**/workflows/**", "workflows/**", "**/tests/**", "tests/**",
    "**/test_*", "test_*", "**/*_test.*", "*_test.*", "AGENTS.md", ".codex/**", ".github/**"]

/-- The `review` object of a task; a field it does not have is `none`. Validation admits only
integers from 1 on as thresholds. -/
structure ReviewConfig where
  mode : Option ReviewMode := none
  reviewer : Option Reviewer := none
  placement : Option Placement := none
  riskTags : Option (List String) := none
  triggerTags : Option (List String) := none
  sensitivePatterns : Option (List String) := none
  largeDiffFiles : Option ℕ := none
  largeDiffBytes : Option ℕ := none
  reviewOnRetry : Option Bool := none
deriving DecidableEq

structure ReviewPolicy where
  mode : ReviewMode
  reviewer : Reviewer
  placement : Placement
  riskTags : List String
  triggerTags : List String
  sensitivePatterns : List String
  largeDiffFiles : ℕ
  largeDiffBytes : ℕ
  reviewOnRetry : Bool
deriving DecidableEq

def normalizeReviewPolicy (review : Option ReviewConfig) (requiredReview : Bool) :
    Except String ReviewPolicy :=
  let raw := review.getD { mode := some (if requiredReview then .required else .off) }
  let mode := raw.mode.getD .off
  let reviewer := raw.reviewer.getD (if mode = .off then .none else .codex)
  if mode ≠ .off ∧ reviewer = .none then
    .error "reviewer_required_for_enabled_review"
  else
    .ok {
      mode := mode
      reviewer := reviewer
      placement := raw.placement.getD .postVerify
      riskTags := raw.riskTags.getD []
      triggerTags := raw.triggerTags.getD defaultRiskTags
      sensitivePatterns := raw.sensitivePatterns.getD defaultSensitivePatterns
      largeDiffFiles := raw.largeDiffFiles.getD 8
      largeDiffBytes := raw.largeDiffBytes.getD 20000
      reviewOnRetry := raw.reviewOnRetry.getD true }

/-- `_path_matches`, with any matcher in the place of `fnmatch`. -/
def pathMatchesBy (matching : String → String → Bool) (path : Path) (patterns : List String) :
    Bool :=
  let normalized := String.ofList (path.toList.map fun c => if c = '\\' then '/' else c)
  patterns.any fun pattern => matching normalized pattern || matching ("/" ++ normalized) pattern

structure ReviewDecision where
  required : Bool
  reviewer : Reviewer
  placement : Placement
  mode : ReviewMode
  signals : List String
  changedFiles : ℕ
  changedBytes : ℕ
deriving DecidableEq

/-- `sorted` on strings. -/
def sorted (xs : List String) : List String := xs.insertionSort (· ≤ ·)

/-- The risks a change carries under a policy, in the order they are reported. -/
def reviewSignalsBy (matching : String → String → Bool) (policy : ReviewPolicy)
    (changedPaths : List Path) (totalBytes attempt : ℕ) : List String :=
  let triggered := sorted (policy.riskTags.dedup.filter (· ∈ policy.triggerTags))
  let sensitive := changedPaths.filter (pathMatchesBy matching · policy.sensitivePatterns)
  triggered.map ("risk_tag:" ++ ·) ++ (sensitive.take 20).map ("sensitive_path:" ++ ·) ++
    (if changedPaths.length ≥ policy.largeDiffFiles then
      ["large_diff_files:" ++ toString changedPaths.length] else []) ++
    (if totalBytes ≥ policy.largeDiffBytes then
      ["large_diff_bytes:" ++ toString totalBytes] else []) ++
    (if attempt > 1 ∧ policy.reviewOnRetry then ["retry_attempt:" ++ toString attempt] else [])

/-- `decide_review` on the changed paths of a manifest and the sizes it records for them. -/
def decideReviewBy (matching : String → String → Bool) (review : Option ReviewConfig)
    (requiredReview : Bool) (files : List (Path × ℕ)) (attempt : ℕ) :
    Except String ReviewDecision :=
  (normalizeReviewPolicy review requiredReview).map fun policy =>
    let changedPaths := sorted (files.map Prod.fst)
    let totalBytes := (files.map Prod.snd).sum
    let signals := reviewSignalsBy matching policy changedPaths totalBytes attempt
    let required := match policy.mode with
      | .off => false
      | .required => true
      | .riskBased => !signals.isEmpty
    { required := required
      reviewer := bif required then policy.reviewer else .none
      placement := policy.placement
      mode := policy.mode
      signals := if policy.mode = .required then "mode:required" :: signals else signals
      changedFiles := changedPaths.length
      changedBytes := totalBytes }

def decideReview (review : Option ReviewConfig) (requiredReview : Bool)
    (files : List (Path × ℕ)) (attempt : ℕ) : Except String ReviewDecision :=
  decideReviewBy fnmatch review requiredReview files attempt

end OrchKit
