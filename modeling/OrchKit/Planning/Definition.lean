import OrchKit.Git.Transport
import OrchKit.Ledger.Declared
import OrchKit.Workspace.Scope

/-! # The definition of a task

What `validate_task_definition` checks of a task before the plan it is in is admitted. The task is
any JSON value, and each of its fields may be of any type; what Python raises for a type that a
check does not expect is raised here as well.
-/

namespace OrchKit.Planning

open Except Json

/-- What differs between interpreters: how JSON is read and how deep it may be nested, which integer
a text stands for, and whether a text in ISO format, if it is one, names a time zone. -/
structure Interpreter where
  loads : List UInt8 → Parsed
  int : Text → Option ℤ
  fromIsoFormat : String → Option Bool

/-- The exit code and the output of a command. -/
structure Completed where
  returncode : ℤ
  stdout : String

/-- What a question about a path may raise: an `OSError`, as for a name that is too long, or a
`RuntimeError`, as for symbolic links that lead round in a circle. -/
inductive Trouble
  | os (message : String)
  | runtime (message : String)

def Trouble.exn : Trouble → Exn
  | os message => .other "OSError" message
  | runtime message => .other "RuntimeError" message

/-- A machine on which Git works. A plan may ask about any path; the hash of a file is refused with
a `ValueError`. -/
structure Site where
  isSymlink : Path → Except Trouble Bool
  isDir : Path → Except Trouble Bool
  isFile : Path → Except Trouble Bool
  present : Path → Except Trouble Bool
  executable : Path → Bool
  resolve : Path → Except Trouble Path
  expandUser : Path → Except Trouble Path
  which : String → Option Path
  sha256File : Path → Except String Hash
  sha256 : String → Hash
  git : Path → List String → Completed

variable {α : Type}

def asked : Except Trouble α → Checked α
  | .ok a => .ok a
  | .error trouble => .error trouble.exn

/-- `known and question`. -/
def andAsked (known : Bool) (question : Except Trouble Bool) : Checked Bool :=
  if known then asked question else .ok false

/-- `known or question`. -/
def orAsked (known : Bool) (question : Except Trouble Bool) : Checked Bool :=
  if known then .ok true else asked question

/-- `path.expanduser().resolve()`. -/
def Site.located (site : Site) (path : Path) : Checked Path := do
  let expanded ← asked (site.expandUser path)
  asked (site.resolve expanded)

/-! ### Fields and texts -/

/-- `sorted(set(fields) - allowed)`. -/
def unknownFields (fields : Fields) (allowed : List String) : List Text :=
  ((fields.map Prod.fst).filter fun t => t ∉ allowed.map Text.str).insertionSort fun s t =>
    s.points ≤ t.points

def knownFields (fields : Fields) (allowed : List String) (error : String) : Checked Unit :=
  noneOf (unknownFields fields allowed) fun t => .value (error ++ t.shown)

/-- `_bounded_text`; a lone surrogate cannot be encoded. -/
def boundedText (value : Value) (error : String) (maxBytes : ℕ) : Checked String :=
  match value with
  | .str (.str s) => do
    require (strip s ≠ "") (.value error)
    require (s.utf8ByteSize ≤ maxBytes) (.value (error ++ "_too_large"))
    require ('\x00' ∉ s.toList ∧ '\r' ∉ s.toList ∧ '\n' ∉ s.toList)
      (.value (error ++ "_control_character"))
    return s
  | .str (.broken _) => .error (.value "surrogates not allowed")
  | _ => .error (.value error)

def checkText (value : Value) (error : String) (maxBytes : ℕ) : Checked Unit := do
  let _ ← boundedText value error maxBytes

/-- A list of bounded texts. -/
def checkTexts (value : Value) (limit : ℕ) (error itemError : String) (maxBytes : ℕ) :
    Checked Unit :=
  match value with
  | .arr values => do
    require (values.length ≤ limit) (.value error)
    values.forM fun v => checkText v itemError maxBytes
  | _ => .error (.value error)

def Bounded (value : Value) (low high : ℤ) : Prop := ∃ i, value.int? = some i ∧ low ≤ i ∧ i ≤ high

instance (value : Value) (low high : ℤ) : Decidable (Bounded value low high) :=
  match h : value.int? with
  | none => isFalse fun ⟨_, hi, _⟩ => by
    rw [h] at hi
    cases hi
  | some i => decidable_of_iff (low ≤ i ∧ i ≤ high) <| by
    rw [Bounded, h]
    simp

/-- `value in table`, raising when it is not. -/
def member (table : List (String × α)) (value : Value) (error : String) : Checked α := do
  let found ← raised (value.among table)
  ofOption found (.value error)

/-! ### The execution budget -/

def budgetFields : List String :=
  ["schema_version", "enforcement", "estimated_work_minutes", "context_budget_tokens",
    "capacity_source", "usage_source", "observed_at", "checkpoint_action"]

def budgetHeader (budget : Fields) : Checked Unit := do
  knownFields budget budgetFields "unknown_execution_budget_field:"
  noneOf (sorted (budgetFields.filter fun name => (field budget name).isNone)) fun name =>
    .value ("missing_execution_budget_field:" ++ name)
  require ((get budget "schema_version").int? = some 1) (.value "invalid_execution_budget_schema")
  require ((get budget "enforcement").text? = some "advisory")
    (.value "invalid_execution_budget_enforcement")

/-- A number of minutes, which is to be finite. -/
def finiteMinutes (value : Value) : Checked Number :=
  match value with
  | .number n => do
    let finite ← raised n.isFinite
    require finite (.value "invalid_estimated_work_minutes")
    return n
  | _ => .error (.value "invalid_estimated_work_minutes")

def validateMinutes (estimate : Value) : Checked Unit :=
  match estimate with
  | .obj fields => do
    require (keysAre fields ["min", "max"]) (.value "invalid_estimated_work_minutes")
    let lower ← finiteMinutes (get fields "min")
    let upper ← finiteMinutes (get fields "max")
    require (0 < lower.value ∧ lower.value ≤ upper.value ∧ upper.value ≤ 1440)
      (.value "invalid_estimated_work_minutes")
  | _ => .error (.value "invalid_estimated_work_minutes")

/-- `s.replace("Z", "+00:00")`. -/
def zoned (s : String) : String :=
  String.ofList (s.toList.flatMap fun c => if c = 'Z' then "+00:00".toList else [c])

section Definition

variable (py : Interpreter) (site : Site)

def budgetSources (budget : Fields) : Checked Unit := do
  let tokens := get budget "context_budget_tokens"
  require (tokens.isNull ∨ Bounded tokens 1 10000000) (.value "invalid_context_budget_tokens")
  checkText (get budget "capacity_source") "invalid_capacity_source" 512
  checkText (get budget "usage_source") "invalid_usage_source" 512
  let observedAt ← boundedText (get budget "observed_at") "invalid_observed_at" 128
  require (observedAt = "UNKNOWN" ∨ py.fromIsoFormat (zoned observedAt) = some true)
    (.value "invalid_observed_at")
  checkText (get budget "checkpoint_action") "invalid_checkpoint_action" 4096

/-- `_validate_execution_budget`, on the budget of the task. -/
def validateExecutionBudget (budget : Value) : Checked Unit :=
  match budget with
  | .null => .ok ()
  | .obj budget => do
    budgetHeader budget
    validateMinutes (get budget "estimated_work_minutes")
    budgetSources py budget
  | _ => .error (.value "invalid_execution_budget")

/-! ### Where the task works -/

def validateWorkspace (fields : Fields) : Checked Unit := do
  let value ← boundedText (get fields "workspace") "invalid_workspace" 4096
  let workspace := writtenPath value.toList
  require (isAbsolute workspace) (.value "workspace_must_be_absolute")
  let link ← asked (site.isSymlink workspace)
  require (¬ link) (.value "workspace_missing_or_unsafe")
  let directory ← asked (site.isDir workspace)
  require directory (.value "workspace_missing_or_unsafe")

/-- `re.fullmatch(r"[A-Za-z0-9._:-]{1,160}", s)`. -/
def isWriterKey (s : String) : Bool :=
  !s.isEmpty && s.length ≤ 160 && s.toList.all fun c =>
    c.isAlphanum || c == '.' || c == '_' || c == ':' || c == '-'

/-- The directory that the worktrees of a repository share, as Git names it. -/
def Site.commonDir (resolved : Path) : Option Path :=
  let top := site.git resolved ["rev-parse", "--is-inside-work-tree"]
  let common := site.git resolved ["rev-parse", "--git-common-dir"]
  if top.returncode = 0 ∧ strip top.stdout = "true" ∧ common.returncode = 0 ∧
      strip common.stdout ≠ "" then
    let raw := writtenPath (strip common.stdout).toList
    some (if isAbsolute raw then raw else joinPath resolved raw)
  else none

def Site.deriveWriterKey (workspace : Path) : Checked WriterKey := do
  let resolved ← site.located workspace
  match site.commonDir resolved with
  | some commonDir => do
    let commonDir ← asked (site.resolve commonDir)
    return "git:" ++ truncate 32 (site.sha256 commonDir)
  | none => return "workspace:" ++ truncate 32 (site.sha256 resolved)

/-- `Path(value)`, before the machine is asked about it. -/
def asPath (value : Value) : Checked Path :=
  match value with
  | .str (.str s) => .ok (writtenPath s.toList)
  | .str (.broken _) => .error (.value "surrogates not allowed")
  | _ => .error (.other "TypeError" "argument should be a str or an os.PathLike object")

def taskWriterKey (fields : Fields) : Checked WriterKey := do
  let value ← asPath (getD fields "workspace" (text ""))
  let workspace ← site.located value
  let derived ← site.deriveWriterKey workspace
  let explicit := get fields "writer_key"
  require (explicit.isNull ∨ explicit.text?.any isWriterKey) (.value "invalid_writer_key")
  require (explicit.isNull ∨ explicit.text? = some derived) (.value "writer_key_mismatch")
  return derived

def validateDependencies (taskId : TaskId) (value : Value) : Checked Unit :=
  match value with
  | .arr deps => do
    require (deps.length ≤ 128) (.value "invalid_dependency")
    let unrepeated ← raised (distinct deps)
    require unrepeated (.value "duplicate_dependency")
    require (∀ dep ∈ deps, dep.text?.any fun d => isProjectId d ∧ d ≠ taskId)
      (.value "invalid_dependency")
  | _ => .error (.value "invalid_dependency")

/-- `s.rstrip("/")`. -/
def dropSlashes (s : String) : String := String.ofList (s.toList.rdropWhile (· == '/'))

def validateAllowedPaths (value : Value) : Checked Unit :=
  match value with
  | .arr allowed => do
    require (allowed ≠ [] ∧ allowed.length ≤ 512) (.value "allowed_paths_required")
    let normalized ← allowed.mapM fun relative => do
      let s ← boundedText relative "invalid_allowed_path" 1024
      normalizePath (dropSlashes s)
    require normalized.Nodup (.value "duplicate_allowed_path")
  | _ => .error (.value "allowed_paths_required")

/-- `re.fullmatch(r"[0-9a-f]{n}", s)`. -/
def isHex (n : ℕ) (s : String) : Bool :=
  s.length = n && s.toList.all fun c => ('0' ≤ c && c ≤ '9') || ('a' ≤ c && c ≤ 'f')

def validateProtectedPaths (value : Value) : Checked Unit :=
  match value with
  | .obj protectedPaths => do
    require (protectedPaths.length ≤ 512) (.value "invalid_protected_paths")
    protectedPaths.forM fun entry => do
      let relative ← boundedText (.str entry.1) "invalid_protected_path" 1024
      let _ ← normalizePath relative
      require (entry.2.text?.any (isHex 64)) (.value "invalid_protected_hash")
  | _ => .error (.value "invalid_protected_paths")

/-! ### Checks -/

def checkFields : List String :=
  ["id", "argv", "cwd", "timeout_sec", "output_tail_chars", "timeout_action", "authority_paths",
    "authority_absent_paths"]

/-- A list of paths that a check takes its authority from. -/
def validateAuthorityPaths (name : String) (value : Value) : Checked Unit :=
  match value with
  | .arr values => do
    require (values.length ≤ 128) (.value ("invalid_" ++ name))
    let unrepeated ← raised (distinct values)
    require unrepeated (.value ("duplicate_" ++ name))
    values.forM fun relative => do
      let s ← boundedText relative ("invalid_" ++ name) 1024
      let _ ← normalizePath s
  | _ => .error (.value ("invalid_" ++ name))

def validateArgv (value : Value) : Checked Unit :=
  match value with
  | .arr argv => do
    require (argv ≠ [] ∧ argv.length ≤ 64) (.value "invalid_check_argv")
    argv.forM fun arg => checkText arg "invalid_check_argv" 4096
  | _ => .error (.value "invalid_check_argv")

def validateCwd (value : Value) : Checked Unit := do
  let cwd ← boundedText value "invalid_check_cwd" 1024
  if cwd = "." then .ok () else do
    let _ ← normalizePath cwd

/-- The checks of a check apart from its authority, after which its id is known. -/
def checkHeader (seen : List String) (check : Fields) : Checked String := do
  knownFields check checkFields "unknown_check_field:"
  let checkId ← boundedText (getD check "id" (text "unnamed")) "invalid_check_id" 128
  require (isIdentifier checkId ∧ checkId.length ≤ 128) (.value "invalid_check_id")
  require (checkId ∉ seen) (.value ("duplicate_check_id:" ++ checkId))
  validateArgv (get check "argv")
  validateCwd (getD check "cwd" (text "."))
  require (Bounded (getD check "timeout_sec" (nat 30)) 1 600) (.value "invalid_check_timeout")
  require (Bounded (getD check "output_tail_chars" (nat 8000)) 1 65536)
    (.value "invalid_check_output_tail_chars")
  require ((getD check "timeout_action" (text "needs_fix")).text? = some "needs_fix")
    (.value "invalid_check_timeout_action")
  return checkId

/-- One round of the loop over the checks, which keeps the ids it has seen. -/
def validateCheck (seen : List String) (check : Value) : Checked (List String) :=
  match check with
  | .obj check => do
    let checkId ← checkHeader seen check
    validateAuthorityPaths "authority_paths" (getD check "authority_paths" (.arr []))
    validateAuthorityPaths "authority_absent_paths" (getD check "authority_absent_paths" (.arr []))
    return checkId :: seen
  | _ => .error (.value "invalid_check")

def validateChecks (value : Value) : Checked Unit :=
  match value with
  | .arr checks => do
    require (checks.length ≤ 64) (.value "invalid_checks")
    let _ ← checks.foldlM validateCheck []
  | _ => .error (.value "invalid_checks")

/-! ### Review -/

def modes : List (String × ReviewMode) :=
  [("off", .off), ("risk_based", .riskBased), ("required", .required)]

def reviewers : List (String × Reviewer) := [("none", .none), ("codex", .codex)]

def placements : List (String × Placement) :=
  [("post_verify", .postVerify), ("pre_publish", .prePublish)]

/-- The policy of a task before its texts and its bounds are checked. -/
structure NormalizedReview where
  mode : ReviewMode
  reviewer : Reviewer
  placement : Placement
  riskTags : List Value
  triggerTags : List Value
  sensitivePatterns : List Value
  largeDiffFiles : ℤ
  largeDiffBytes : ℤ
  reviewOnRetry : Bool

/-- The policy is missing, or an object. -/
def rawReview (fields : Fields) : Checked Fields :=
  match get fields "review" with
  | .null =>
    let required := (getD fields "required_review" (.bool false)).truthy
    .ok [(.str "mode", text (if required then "required" else "off"))]
  | .obj raw => .ok raw
  | _ => .error (.value "invalid_review_policy")

def elements : Value → List Value
  | .arr values => values
  | _ => []

def isArray : Value → Bool
  | .arr _ => true
  | _ => false

def isBool : Value → Bool
  | .bool _ => true
  | _ => false

/-- The checks of `normalize_review_policy` on the types of fields. -/
def reviewTypes (raw : Fields) : Checked Unit := do
  ["risk_tags", "trigger_tags", "sensitive_patterns"].forM fun name =>
    require (isArray (getD raw name (.arr []))) (.value ("invalid_review_" ++ name))
  require (isBool (getD raw "review_on_retry" (.bool true)))
    (.value "invalid_review_review_on_retry")

/-- What decides who reviews, and when. -/
def reviewChoices (raw : Fields) : Checked (ReviewMode × Reviewer × Placement) := do
  let mode ← member modes (getD raw "mode" (text "off")) "invalid_review_mode"
  let usual := if mode = .off then "none" else "codex"
  let reviewer ← member reviewers (getD raw "reviewer" (text usual)) "invalid_reviewer"
  require (mode = .off ∨ reviewer ≠ .none) (.value "reviewer_required_for_enabled_review")
  let placement ← member placements (getD raw "placement" (text "post_verify"))
    "unsupported_review_placement"
  return (mode, reviewer, placement)

def normalizeReviewPolicy (fields : Fields) : Checked NormalizedReview := do
  let raw ← rawReview fields
  reviewTypes raw
  let (mode, reviewer, placement) ← reviewChoices raw
  let largeDiffFiles ← raised ((getD raw "large_diff_files" (nat 8)).toInt py.int)
  let largeDiffBytes ← raised ((getD raw "large_diff_bytes" (nat 20000)).toInt py.int)
  return {
    mode := mode
    reviewer := reviewer
    placement := placement
    riskTags := elements (getD raw "risk_tags" (.arr []))
    triggerTags := elements (getD raw "trigger_tags" (.arr (defaultRiskTags.map text)))
    sensitivePatterns :=
      elements (getD raw "sensitive_patterns" (.arr (defaultSensitivePatterns.map text)))
    largeDiffFiles := largeDiffFiles
    largeDiffBytes := largeDiffBytes
    reviewOnRetry := (getD raw "review_on_retry" (.bool true)).truthy }

def reviewFields : List String :=
  ["mode", "reviewer", "placement", "risk_tags", "trigger_tags", "sensitive_patterns",
    "large_diff_files", "large_diff_bytes", "review_on_retry"]

/-- The review of a task is null or an object with known fields. -/
def reviewHeader (fields : Fields) : Checked Unit :=
  match get fields "review" with
  | .null => .ok ()
  | .obj review => knownFields review reviewFields "unknown_review_field:"
  | _ => .error (.value "invalid_review_policy")

def validateReview (fields : Fields) : Checked Unit := do
  reviewHeader fields
  let review ← normalizeReviewPolicy py fields
  checkTexts (.arr review.riskTags) 128 "invalid_review_risk_tags" "invalid_review_risk_tags" 512
  checkTexts (.arr review.triggerTags) 128 "invalid_review_trigger_tags"
    "invalid_review_trigger_tags" 512
  checkTexts (.arr review.sensitivePatterns) 256 "invalid_review_sensitive_patterns"
    "invalid_review_sensitive_patterns" 512
  require (1 ≤ review.largeDiffFiles ∧ review.largeDiffFiles ≤ 10000 ∧
    1 ≤ review.largeDiffBytes ∧ review.largeDiffBytes ≤ 100 * 1024 * 1024)
    (.value "invalid_review_threshold")

/-! ### Publication -/

def kinds : List (String × PublicationKind) :=
  [("none", .none), ("git", .git), ("git_local", .gitLocal)]

def transports : List (String × TransportKind) :=
  [("file", .file), ("https", .https), ("ssh", .ssh)]

def publicationFields : List String :=
  ["kind", "branch", "remote", "remote_url", "transport_kind", "ref", "expected_base",
    "commit_message"]

def optionalText (value : Value) (error : String) (maxBytes : ℕ) : Checked Unit :=
  if value.isNull then .ok () else checkText value error maxBytes

def publicationTexts (publication : Fields) : Checked Unit := do
  ["branch", "remote", "ref"].forM fun name =>
    optionalText (get publication name) ("invalid_publication_" ++ name) 512
  optionalText (get publication "remote_url") "invalid_publication_remote_url" 4096

def publicationTransport (value : Value) : Checked Unit :=
  if value.isNull then .ok () else do
    let _ ← member transports value "invalid_publication_transport"

def validatePublication (value : Value) : Checked Unit :=
  match value with
  | .obj publication => do
    knownFields publication publicationFields "unknown_publication_field:"
    let _ ← member kinds (getD publication "kind" (text "none")) "invalid_publication_kind"
    publicationTexts publication
    publicationTransport (get publication "transport_kind")
    let base := get publication "expected_base"
    require (base.isNull ∨ base.text?.any fun s => isHex 40 s ∨ isHex 64 s)
      (.value "invalid_publication_expected_base")
    optionalText (get publication "commit_message") "invalid_publication_commit_message" 4096
  | _ => .error (.value "invalid_publication")

/-! ### The task -/

def taskFields : List String :=
  ["id", "project_id", "writer_key", "goal", "non_goals", "workspace", "dependencies",
    "allowed_paths", "protected_paths", "checks", "required_review", "review", "owner_acceptance",
    "publication", "max_attempts", "execution_budget", "acceptance"]

/-- The id of a task, after which its goal is checked. -/
def taskHeader (fields : Fields) : Checked TaskId := do
  knownFields fields taskFields "unknown_task_field:"
  let taskId ← ofOption ((get fields "id").text?.filter isProjectId) (.value "invalid_task_id")
  checkText (get fields "goal") "invalid_goal" (16 * 1024)
  return taskId

/-- What follows on the budget, up to the checks. -/
def taskScope (taskId : TaskId) (fields : Fields) : Checked Unit := do
  checkTexts (getD fields "acceptance" (.arr [])) 128 "invalid_acceptance" "invalid_acceptance_item"
    4096
  checkTexts (getD fields "non_goals" (.arr [])) 128 "invalid_non_goals" "invalid_non_goal" 4096
  validateWorkspace site fields
  let projectId := get fields "project_id"
  require (projectId.isNull ∨ projectId.text?.any isProjectId) (.value "invalid_project_id")
  let _ ← taskWriterKey site fields
  validateDependencies taskId (getD fields "dependencies" (.arr []))
  validateAllowedPaths (getD fields "allowed_paths" (.arr []))
  validateProtectedPaths (getD fields "protected_paths" (.obj []))

def taskFlags (fields : Fields) : Checked Unit := do
  require (isBool (getD fields "required_review" (.bool false))) (.value "invalid_required_review")
  require (isBool (getD fields "owner_acceptance" (.bool false)))
    (.value "invalid_owner_acceptance")

/-- `validate_task_definition`, on an object. -/
def validateTaskFields (fields : Fields) : Checked Unit := do
  let taskId ← taskHeader fields
  validateExecutionBudget py (get fields "execution_budget")
  taskScope site taskId fields
  validateChecks (getD fields "checks" (.arr []))
  taskFlags fields
  validateReview py fields
  validatePublication (getD fields "publication" (object [("kind", text "none")]))
  require (Bounded (getD fields "max_attempts" (nat 2)) 1 20) (.value "invalid_max_attempts")

def validateTaskDefinition (item : Value) : Checked Unit :=
  match item with
  | .obj fields => validateTaskFields py site fields
  | _ => .error (.value "invalid_task")

end Definition

end OrchKit.Planning
