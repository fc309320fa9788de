import OrchKit.Planning.Definition

/-! # Preparing a task

What `prepare_task_payload` makes of a task that was validated: the defaults are filled in, the
review policy is normalised, and each check is bound to its executable and to the files that it
takes its authority from. Everything that stands in the way is a `ValueError`.
-/

namespace OrchKit.Planning

open Except Json

/-! ### Paths -/

def parentPath (path : Path) : Path :=
  match pathRoot path.toList ++ ['/'].intercalate (pathComponents path.toList).dropLast with
  | [] => "."
  | parent => String.ofList parent

/-- `Path(path).name`. -/
def pathName (path : Path) : String := String.ofList ((pathComponents path.toList).getLast?.getD [])

/-- `candidate.relative_to(root).as_posix()`, inside the root. -/
def relativeTo (root candidate : Path) : Path :=
  match ['/'].intercalate ((pathParts candidate).drop (pathParts root).length) with
  | [] => "."
  | relative => String.ofList relative

/-! ### Values of the types that validation leaves -/

def texts (value : Value) : List String := (elements value).filterMap Value.text?

def boolOf : Value → Bool
  | .bool b => b
  | _ => false

def textField (fields : Fields) (name : String) : Field String :=
  match field fields name with
  | none => .missing
  | some value =>
    match value.text? with
    | none => .null
    | some s => .value s

/-! ### Checks -/

section Preparation

variable (py : Interpreter) (site : Site)

def Site.safeWorkspacePath (workspace : Path) (relative : String) (mustExist : Bool) :
    Checked Path := do
  require (relative ≠ "" ∧ ¬ isAbsolute relative ∧ '\x00' ∉ relative.toList)
    (.value "invalid_relative_path")
  let raw := writtenPath (joinPath workspace relative).toList
  let there ← asked (site.present raw)
  let probe ← asked (site.resolve (if there then raw else parentPath raw))
  let root ← asked (site.resolve workspace)
  require (inside root probe) (.value "path_escape")
  let link ← andAsked there (site.isSymlink raw)
  require (¬ link) (.value "symlink_not_allowed")
  require (mustExist → there) (.value "missing_path")
  return raw

def cwdOf (check : Fields) : String := (getD check "cwd" (text ".")).text?.getD ""

def Site.rawCwd (workspace : Path) (check : Fields) : Checked Path :=
  if cwdOf check = "." then .ok workspace
  else site.safeWorkspacePath workspace (cwdOf check) true

def Site.checkCwd (workspace : Path) (check : Fields) : Checked Path := do
  let raw ← site.rawCwd workspace check
  let cwd ← asked (site.resolve raw)
  let directory ← asked (site.isDir cwd)
  require directory (.value "invalid_check_cwd")
  return cwd

/-- What the first argument of a check names. -/
def Site.executableCandidate (workspace cwd : Path) (argv0 : String) : Checked Path :=
  let raw := writtenPath argv0.toList
  if isAbsolute raw then .ok raw
  else if '/' ∈ argv0.toList then do
    let candidate ← asked (site.resolve (joinPath cwd raw))
    let root ← asked (site.resolve workspace)
    require (inside root candidate) (.value "check_executable_path_escape")
    return candidate
  else ofOption (site.which argv0) (.value ("check_executable_not_found:" ++ argv0))

def Site.resolveCheckExecutable (workspace : Path) (check : Fields) (argv0 : String) :
    Checked Path := do
  let cwd ← site.checkCwd workspace check
  let candidate ← site.executableCandidate workspace cwd argv0
  let resolved ← site.located candidate
  let file ← asked (site.isFile resolved)
  require file (.value ("check_executable_unsafe:" ++ argv0))
  let link ← asked (site.isSymlink resolved)
  require (¬ link ∧ site.executable resolved) (.value ("check_executable_unsafe:" ++ argv0))
  return resolved

/-- `sha256_file`, which refuses with a `ValueError`. -/
def Site.hashFile (path : Path) : Checked Hash :=
  match site.sha256File path with
  | .ok hash => .ok hash
  | .error message => .error (.value message)

/-- `_authority_record`. -/
def Site.authorityRecord (workspace : Path) (expected : AuthorityExpectation) (relative : Path) :
    Checked AuthorityFile := do
  let normalized ← normalizePath relative
  let path ← site.safeWorkspacePath workspace normalized false
  let link ← asked (site.isSymlink path)
  require (¬ link) (.value ("check_authority_symlink_not_allowed:" ++ normalized))
  match expected with
  | .file => do
    let file ← asked (site.isFile path)
    require file (.value ("check_authority_file_missing:" ++ normalized))
    let hash ← site.hashFile path
    return ⟨normalized, .file, some hash⟩
  | .absent => do
    let there ← asked (site.present path)
    require (¬ there) (.value ("check_authority_expected_absent:" ++ normalized))
    return ⟨normalized, .absent, none⟩

/-- What an argument of a check leads to; `except OSError` passes over it. -/
def Site.argumentCandidate (raw : Path) : Checked (Option Path) :=
  match site.resolve raw with
  | .ok candidate => .ok (some candidate)
  | .error (.os _) => .ok none
  | .error (.runtime message) => .error (.other "RuntimeError" message)

/-- The file of the workspace that an argument of a check names. -/
def Site.argumentAuthority (workspace cwd : Path) (arg : String) : Checked (Option Path) :=
  if arg = "" ∨ arg.toList.head? = some '-' ∨ isAbsolute arg then .ok none
  else do
    let raw := writtenPath (joinPath cwd arg).toList
    let link ← asked (site.isSymlink raw)
    require (¬ link) (.value ("check_authority_symlink_not_allowed:" ++ arg))
    match ← site.argumentCandidate raw with
    | none => return none
    | some candidate => do
      let file ← andAsked (inside workspace candidate) (site.isFile candidate)
      return if file then some (relativeTo workspace candidate) else none

def packageSettings : List Path :=
  [".npmrc", ".yarnrc", ".yarnrc.yml", ".pnpmfile.cjs", "pnpm-workspace.yaml"]

def runsPackageScript (argv : List String) : Bool :=
  pathName (argv.headD "") ∈ ["npm", "yarn", "pnpm"] && "run" ∈ (argv.drop 1).take 2

/-- Settings of a package manager, if they are there. -/
def Site.packageSetting (workspace relative : Path) : Checked (Option Path) := do
  let there ← asked (site.present (joinPath workspace relative))
  let found ← orAsked there (site.isSymlink (joinPath workspace relative))
  return if found then some relative else none

/-- The settings of a package manager that are there, for a check that runs a script. -/
def Site.packageSettingsPresent (workspace : Path) (argv : List String) : Checked (List Path) :=
  if runsPackageScript argv then do
    let found ← packageSettings.mapM (site.packageSetting workspace)
    return found.filterMap id
  else .ok []

/-- The files that a check takes its authority from, and those that it takes it from if they are
not there. -/
def Site.authorityPaths (workspace cwd : Path) (check : Fields) :
    Checked (List Path × List Path) := do
  let argv := texts (get check "argv")
  let named ← (argv.drop 1).mapM (site.argumentAuthority workspace cwd)
  let settings ← site.packageSettingsPresent workspace argv
  let required := texts (getD check "authority_paths" (.arr [])) ++ named.filterMap id ++
    if runsPackageScript argv then "package.json" :: settings else []
  let absent := texts (getD check "authority_absent_paths" (.arr [])) ++
    if runsPackageScript argv then packageSettings.filter (· ∉ settings) else []
  noneOf (sortedSet (required.filter (· ∈ absent))) fun relative =>
    .value ("check_authority_conflicting_expectation:" ++ relative)
  return (sortedSet required, sortedSet absent)

/-- One check, bound to what it takes its authority from. -/
def Site.bindCheck (workspace : Path) (check : Fields) : Checked Check := do
  let argv := texts (get check "argv")
  let executable ← site.resolveCheckExecutable workspace check (argv.headD "")
  let _ ← site.hashFile executable
  let cwd ← site.checkCwd workspace check
  let paths ← site.authorityPaths workspace cwd check
  let files ← paths.1.mapM (site.authorityRecord workspace .file)
  let missing ← paths.2.mapM (site.authorityRecord workspace .absent)
  return ⟨(getD check "id" (text "unnamed")).text?.getD "", files ++ missing⟩

/-- `dict(raw_check)`, bound. -/
def Site.bindItem (workspace : Path) (check : Value) : Checked Check :=
  match check with
  | .obj check => site.bindCheck workspace check
  | _ => .error (.other "TypeError" "cannot convert dictionary update sequence")

def Site.bindCheckAuthority (fields : Fields) : Checked (List Check) := do
  let value ← asPath (get fields "workspace")
  let workspace ← asked (site.resolve value)
  (elements (getD fields "checks" (.arr []))).mapM (site.bindItem workspace)

/-! ### The payload -/

def reviewOf (review : NormalizedReview) : ReviewConfig where
  mode := some review.mode
  reviewer := some review.reviewer
  placement := some review.placement
  riskTags := some (review.riskTags.filterMap Value.text?)
  triggerTags := some (review.triggerTags.filterMap Value.text?)
  sensitivePatterns := some (review.sensitivePatterns.filterMap Value.text?)
  largeDiffFiles := some review.largeDiffFiles.toNat
  largeDiffBytes := some review.largeDiffBytes.toNat
  reviewOnRetry := some review.reviewOnRetry

def publicationOf (value : Value) : PublicationPolicy :=
  match value with
  | .obj publication => {
      kind := ((kinds.find? fun e =>
        (getD publication "kind" (text "none")).text? = some e.1).map Prod.snd).getD .none
      branch := textField publication "branch"
      remote := textField publication "remote"
      remoteUrl := (get publication "remote_url").text?
      ref := textField publication "ref"
      expectedBase := (get publication "expected_base").text?
      commitMessage := (get publication "commit_message").text? }
  | _ => {}

def protectedOf (value : Value) : List (Path × Hash) :=
  match value with
  | .obj entries => entries.filterMap fun entry =>
      match entry.1, entry.2.text? with
      | .str path, some hash => some (path, hash)
      | _, _ => none
  | _ => []

def taskIdOf (fields : Fields) : TaskId := (get fields "id").text?.getD ""

def dependenciesOf (fields : Fields) : List TaskId := texts (getD fields "dependencies" (.arr []))

def prepareTaskPayload (fields : Fields) : Checked TaskPayload := do
  let review ← normalizeReviewPolicy py fields
  let writerKey ← taskWriterKey site fields
  let checks ← site.bindCheckAuthority fields
  return {
    id := taskIdOf fields
    projectId := (get fields "project_id").text?
    writerKey := writerKey
    workspace := (get fields "workspace").text?.getD ""
    allowedPaths := texts (getD fields "allowed_paths" (.arr []))
    protectedPaths := protectedOf (getD fields "protected_paths" (.obj []))
    checks := checks
    requiredReview := boolOf (getD fields "required_review" (.bool false))
    review := some (reviewOf review)
    ownerAcceptance := boolOf (getD fields "owner_acceptance" (.bool false))
    publication := publicationOf (getD fields "publication" (object [("kind", text "none")]))
    maxAttempts := ((getD fields "max_attempts" (nat 2)).int?.getD 0).toNat
    dependencies := dependenciesOf fields }

end Preparation

end OrchKit.Planning
