import OrchKit.Planning.Admission

/-! # How a plan is refused

Most checks of a plan refuse with a `ValueError` whatever the value is. Some uses of a value raise
something else for some types: the document is parsed, numbers of minutes are held against the
floating point numbers, paths and choices are looked up in sets, and sizes are converted to
integers. The machine is asked about the paths that a plan names, and may raise something else too.
A plan is guarded if each of these uses is kept from such a value by a check before it, and each
question that is come to is answered.
-/

namespace OrchKit.Planning

open Except Json

/-! ### Guards -/

section Questions

variable {α β : Type} (site : Site)

def Answered (x : Except Trouble α) : Prop := ∃ a, x = .ok a

def EachGuarded (f : α → Checked β) (guarded : α → Prop) (xs : List α) : Prop :=
  ∀ done x rest ys, xs = done ++ x :: rest → done.mapM f = .ok ys → guarded x

def LocatedGuarded (path : Path) : Prop :=
  Answered (site.expandUser path) ∧
    ∀ expanded, site.expandUser path = .ok expanded → Answered (site.resolve expanded)

def WorkspaceGuarded (fields : Fields) : Prop :=
  ∀ value, boundedText (get fields "workspace") "invalid_workspace" 4096 = .ok value →
    isAbsolute (writtenPath value.toList) →
      Answered (site.isSymlink (writtenPath value.toList)) ∧
        (site.isSymlink (writtenPath value.toList) = .ok false →
          Answered (site.isDir (writtenPath value.toList)))

def CommonDirGuarded (resolved : Path) : Prop :=
  ∀ commonDir, site.commonDir resolved = some commonDir → Answered (site.resolve commonDir)

def WriterKeyGuarded (workspace : Path) : Prop :=
  LocatedGuarded site workspace ∧ ∀ located, site.located workspace = .ok located →
    LocatedGuarded site located ∧
      ∀ resolved, site.located located = .ok resolved → CommonDirGuarded site resolved

def SafePathGuarded (workspace : Path) (relative : String) : Prop :=
  let raw := writtenPath (joinPath workspace relative).toList
  relative ≠ "" ∧ ¬ isAbsolute relative ∧ '\x00' ∉ relative.toList →
    Answered (site.present raw) ∧ ∀ there, site.present raw = .ok there →
      Answered (site.resolve (if there then raw else parentPath raw)) ∧
        ∀ probe, site.resolve (if there then raw else parentPath raw) = .ok probe →
          Answered (site.resolve workspace) ∧ ∀ root, site.resolve workspace = .ok root →
            inside root probe → there → Answered (site.isSymlink raw)

def CwdGuarded (workspace : Path) (check : Fields) : Prop :=
  (cwdOf check ≠ "." → SafePathGuarded site workspace (cwdOf check)) ∧
    ∀ raw, site.rawCwd workspace check = .ok raw → Answered (site.resolve raw) ∧
      ∀ cwd, site.resolve raw = .ok cwd → Answered (site.isDir cwd)

def CandidateGuarded (workspace cwd : Path) (argv0 : String) : Prop :=
  ¬ isAbsolute (writtenPath argv0.toList) → '/' ∈ argv0.toList →
    Answered (site.resolve (joinPath cwd (writtenPath argv0.toList))) ∧
      ∀ candidate, site.resolve (joinPath cwd (writtenPath argv0.toList)) = .ok candidate →
        Answered (site.resolve workspace)

def ExecutableGuarded (workspace : Path) (check : Fields) (argv0 : String) : Prop :=
  CwdGuarded site workspace check ∧ ∀ cwd, site.checkCwd workspace check = .ok cwd →
    CandidateGuarded site workspace cwd argv0 ∧
      ∀ candidate, site.executableCandidate workspace cwd argv0 = .ok candidate →
        LocatedGuarded site candidate ∧ ∀ resolved, site.located candidate = .ok resolved →
          Answered (site.isFile resolved) ∧
            (site.isFile resolved = .ok true → Answered (site.isSymlink resolved))

def RecordGuarded (workspace : Path) (expected : AuthorityExpectation) (relative : Path) : Prop :=
  ∀ normalized, normalizePath relative = .ok normalized →
    SafePathGuarded site workspace normalized ∧
      ∀ path, site.safeWorkspacePath workspace normalized false = .ok path →
        Answered (site.isSymlink path) ∧ (site.isSymlink path = .ok false →
          match expected with
          | .file => Answered (site.isFile path)
          | .absent => Answered (site.present path))

/-- An `OSError` of `resolve` is caught where an argument is looked at. -/
def ArgumentGuarded (workspace cwd : Path) (arg : String) : Prop :=
  let raw := writtenPath (joinPath cwd arg).toList
  ¬ (arg = "" ∨ arg.toList.head? = some '-' ∨ isAbsolute arg) →
    Answered (site.isSymlink raw) ∧ (site.isSymlink raw = .ok false →
      (∀ message, site.resolve raw ≠ .error (.runtime message)) ∧
        ∀ candidate, site.resolve raw = .ok candidate → inside workspace candidate →
          Answered (site.isFile candidate))

def SettingGuarded (workspace relative : Path) : Prop :=
  Answered (site.present (joinPath workspace relative)) ∧
    (site.present (joinPath workspace relative) = .ok false →
      Answered (site.isSymlink (joinPath workspace relative)))

def PathsGuarded (workspace cwd : Path) (check : Fields) : Prop :=
  let argv := texts (get check "argv")
  EachGuarded (site.argumentAuthority workspace cwd) (ArgumentGuarded site workspace cwd)
      (argv.drop 1) ∧
    ∀ named, (argv.drop 1).mapM (site.argumentAuthority workspace cwd) = .ok named →
      runsPackageScript argv → EachGuarded (site.packageSetting workspace)
        (SettingGuarded site workspace) packageSettings

def BindingGuarded (workspace : Path) (check : Fields) : Prop :=
  let argv := texts (get check "argv")
  ExecutableGuarded site workspace check (argv.headD "") ∧
    ∀ executable, site.resolveCheckExecutable workspace check (argv.headD "") = .ok executable →
      ∀ hash, site.hashFile executable = .ok hash →
        ∀ cwd, site.checkCwd workspace check = .ok cwd → PathsGuarded site workspace cwd check ∧
          ∀ paths, site.authorityPaths workspace cwd check = .ok paths →
            EachGuarded (site.authorityRecord workspace .file) (RecordGuarded site workspace .file)
                paths.1 ∧
              ∀ files, paths.1.mapM (site.authorityRecord workspace .file) = .ok files →
                EachGuarded (site.authorityRecord workspace .absent)
                  (RecordGuarded site workspace .absent) paths.2

def BindingsGuarded (fields : Fields) : Prop :=
  ∀ value, asPath (get fields "workspace") = .ok value → Answered (site.resolve value) ∧
    ∀ workspace, site.resolve value = .ok workspace →
      EachGuarded (site.bindItem workspace)
        (fun check => ∀ object, check = .obj object → BindingGuarded site workspace object)
        (elements (getD fields "checks" (.arr [])))

end Questions

def MinutesGuarded (estimate : Value) : Prop :=
  ∀ fields, estimate = .obj fields → keysAre fields ["min", "max"] →
    ¬ (get fields "min").unrepresentable ∧
      ∀ lower, finiteMinutes (get fields "min") = .ok lower → ¬ (get fields "max").unrepresentable

def BudgetGuarded (budget : Value) : Prop :=
  ∀ fields, budget = .obj fields → budgetHeader fields = .ok () →
    MinutesGuarded (get fields "estimated_work_minutes")

def AuthorityGuarded (value : Value) : Prop :=
  ∀ values, value = .arr values → values.length ≤ 128 → ∀ v ∈ values, v.hashable

def CheckGuarded (seen : List String) (check : Value) : Prop :=
  ∀ fields, check = .obj fields → ∀ checkId, checkHeader seen fields = .ok checkId →
    AuthorityGuarded (getD fields "authority_paths" (.arr [])) ∧
      (validateAuthorityPaths "authority_paths" (getD fields "authority_paths" (.arr [])) = .ok () →
        AuthorityGuarded (getD fields "authority_absent_paths" (.arr [])))

def ChecksGuarded (value : Value) : Prop :=
  ∀ checks, value = .arr checks → checks.length ≤ 64 → ∀ done check rest seen,
    checks = done ++ check :: rest → done.foldlM validateCheck [] = .ok seen →
      CheckGuarded seen check

def usualReviewer (mode : ReviewMode) : String := if mode = .off then "none" else "codex"

def ChoicesGuarded (raw : Fields) : Prop :=
  (getD raw "mode" (text "off")).hashable ∧
    ∀ mode, member modes (getD raw "mode" (text "off")) "invalid_review_mode" = .ok mode →
      (getD raw "reviewer" (text (usualReviewer mode))).hashable ∧
        ∀ reviewer, member reviewers (getD raw "reviewer" (text (usualReviewer mode)))
            "invalid_reviewer" = .ok reviewer → (mode = .off ∨ reviewer ≠ .none) →
          (getD raw "placement" (text "post_verify")).hashable

section Guarded

variable (py : Interpreter) (site : Site)

def SizesGuarded (raw : Fields) : Prop :=
  ¬ (getD raw "large_diff_files" (nat 8)).inconvertible ∧
    ∀ files, (getD raw "large_diff_files" (nat 8)).toInt py.int = .ok files →
      ¬ (getD raw "large_diff_bytes" (nat 20000)).inconvertible

def ReviewGuarded (fields : Fields) : Prop :=
  reviewHeader fields = .ok () → ∀ raw, rawReview fields = .ok raw → reviewTypes raw = .ok () →
    ChoicesGuarded raw ∧ ∀ choices, reviewChoices raw = .ok choices → SizesGuarded py raw

def PublicationGuarded (value : Value) : Prop :=
  ∀ publication, value = .obj publication →
    knownFields publication publicationFields "unknown_publication_field:" = .ok () →
      (getD publication "kind" (text "none")).hashable ∧
        ∀ kind, member kinds (getD publication "kind" (text "none")) "invalid_publication_kind" =
            .ok kind → publicationTexts publication = .ok () →
          (get publication "transport_kind").hashable

def publicationValue (fields : Fields) : Value :=
  getD fields "publication" (object [("kind", text "none")])

def ScopeGuarded (fields : Fields) : Prop :=
  checkTexts (getD fields "acceptance" (.arr [])) 128 "invalid_acceptance"
      "invalid_acceptance_item" 4096 = .ok () →
    checkTexts (getD fields "non_goals" (.arr [])) 128 "invalid_non_goals" "invalid_non_goal"
        4096 = .ok () →
      WorkspaceGuarded site fields ∧ (validateWorkspace site fields = .ok () →
        ((get fields "project_id").isNull ∨ (get fields "project_id").text?.any isProjectId) →
          ∀ value, asPath (getD fields "workspace" (text "")) = .ok value →
            WriterKeyGuarded site value)

def TaskGuarded (fields : Fields) : Prop :=
  ∀ taskId, taskHeader fields = .ok taskId → BudgetGuarded (get fields "execution_budget") ∧
    (validateExecutionBudget py (get fields "execution_budget") = .ok () →
      ScopeGuarded site fields ∧ (taskScope site taskId fields = .ok () →
        ChecksGuarded (getD fields "checks" (.arr [])) ∧
          (validateChecks (getD fields "checks" (.arr [])) = .ok () → taskFlags fields = .ok () →
            ReviewGuarded py fields ∧
              (validateReview py fields = .ok () → PublicationGuarded (publicationValue fields)))))

/-- The document is not nested too deep for the interpreter. -/
def DocumentGuarded (file : PlanFile) : Prop :=
  file.regular → file.bytes.length ≤ planMaxBytes →
    ∀ fault, py.loads file.bytes = .fault fault → fault.IsValueError

def TasksGuarded (items : List Fields) : Prop :=
  ∀ done fields rest, items = done ++ fields :: rest →
    forM done (validateItem py site) = .ok () → checkDependencies fields = .ok () →
      TaskGuarded py site fields

/-- Whatever in the plan would be put to a use that its type does not allow, or asked about though
the machine raises something then, a check before it refuses the plan. -/
def PlanGuarded (file : PlanFile) : Prop :=
  DocumentGuarded py file ∧ ∀ data revision items, readPlanDocument py file = .ok data →
    planHeader data = .ok (revision, items) → TasksGuarded py site items ∧
      (forM items (validateItem py site) = .ok () → validateEdges (edgesOf items) = .ok () →
        EachGuarded (prepareTaskPayload py site) (BindingsGuarded site) items)

end Guarded

/-! ### Checks that refuse every value -/

section Refusals

variable {py : Interpreter} {site : Site} {α : Type} {message error itemError : String}
  {value : Value} {fields : Fields} {maxBytes limit : ℕ}

@[simp] theorem declared_knownFields {allowed : List String} :
    (knownFields fields allowed error).RaisesOnly Declared :=
  declared_noneOf

@[simp] theorem declared_boundedText : (boundedText value error maxBytes).RaisesOnly Declared := by
  cases value with
  | str t => cases t <;> simp [boundedText, raisesOnly_bind]
  | null | bool _ | number _ | arr _ | obj _ => simp [boundedText]

@[simp] theorem declared_checkText : (checkText value error maxBytes).RaisesOnly Declared := by
  simp [checkText]

@[simp] theorem declared_checkTexts :
    (checkTexts value limit error itemError maxBytes).RaisesOnly Declared := by
  cases value <;> simp [checkTexts, raisesOnly_bind]

@[simp] theorem declared_normalizePath {path : Path} :
    (normalizePath path).RaisesOnly Declared := by
  unfold normalizePath
  split <;> simp

@[simp] theorem declared_budgetHeader : (budgetHeader fields).RaisesOnly Declared := by
  simp [budgetHeader, raisesOnly_bind]

@[simp] theorem declared_budgetSources : (budgetSources py fields).RaisesOnly Declared := by
  simp [budgetSources, raisesOnly_bind]

@[simp] theorem declared_validateAllowedPaths :
    (validateAllowedPaths value).RaisesOnly Declared := by
  cases value with
  | arr allowed =>
    simp only [validateAllowedPaths, raisesOnly_bind]
    constructor
    · exact declared_require
    · intro _ _
      constructor
      · apply raisesOnly_mapM
        intro relative _
        simp [raisesOnly_bind]
      · simp
  | null | bool _ | number _ | str _ | obj _ => simp [validateAllowedPaths]

@[simp] theorem declared_validateProtectedPaths :
    (validateProtectedPaths value).RaisesOnly Declared := by
  cases value <;> simp [validateProtectedPaths, raisesOnly_bind]

@[simp] theorem declared_validateArgv : (validateArgv value).RaisesOnly Declared := by
  cases value <;> simp [validateArgv, raisesOnly_bind]

@[simp] theorem declared_validateCwd : (validateCwd value).RaisesOnly Declared := by
  simp only [validateCwd, raisesOnly_bind, declared_boundedText, true_and]
  intro cwd _
  split <;> simp

@[simp] theorem declared_checkHeader {seen : List String} :
    (checkHeader seen fields).RaisesOnly Declared := by
  simp [checkHeader, raisesOnly_bind]

@[simp] theorem declared_reviewTypes : (reviewTypes fields).RaisesOnly Declared := by
  simp [reviewTypes, raisesOnly_bind]

@[simp] theorem declared_rawReview : (rawReview fields).RaisesOnly Declared := by
  unfold rawReview
  split <;> simp

@[simp] theorem declared_reviewHeader : (reviewHeader fields).RaisesOnly Declared := by
  unfold reviewHeader
  split <;> simp

@[simp] theorem declared_optionalText :
    (optionalText value error maxBytes).RaisesOnly Declared := by
  unfold optionalText
  split <;> simp

@[simp] theorem declared_publicationTexts : (publicationTexts fields).RaisesOnly Declared := by
  simp [publicationTexts, raisesOnly_bind]

@[simp] theorem declared_taskHeader : (taskHeader fields).RaisesOnly Declared := by
  simp [taskHeader, raisesOnly_bind]

@[simp] theorem declared_taskFlags : (taskFlags fields).RaisesOnly Declared := by
  simp [taskFlags, raisesOnly_bind]

end Refusals

/-! ### Questions that are answered -/

section Asking

variable {α β : Type} {site : Site} {workspace cwd : Path} {fields : Fields} {relative : String}

theorem declared_asked {x : Except Trouble α} : (asked x).RaisesOnly Declared ↔ Answered x := by
  cases x with
  | ok a => simp [asked, Answered]
  | error trouble => cases trouble <;> simp [asked, Trouble.exn, Answered]

theorem asked_eq_ok_iff {x : Except Trouble α} {a : α} : asked x = .ok a ↔ x = .ok a := by
  cases x <;> simp [asked]

theorem declared_each {f : α → Checked β} {guarded : α → Prop} {xs : List α}
    (h : ∀ x ∈ xs, (f x).RaisesOnly Declared ↔ guarded x) :
    (xs.mapM f).RaisesOnly Declared ↔ EachGuarded f guarded xs := by
  rw [raisesOnly_mapM_iff, EachGuarded]
  refine forall_congr' fun done => forall_congr' fun x => forall_congr' fun rest =>
    forall_congr' fun ys => forall_congr' fun hxs => forall_congr' fun _ => h x ?_
  rw [hxs]
  exact List.mem_append_right _ (List.mem_cons_self ..)

theorem declared_located {path : Path} :
    (site.located path).RaisesOnly Declared ↔ LocatedGuarded site path := by
  simp [Site.located, LocatedGuarded, raisesOnly_bind, declared_asked, asked_eq_ok_iff]

theorem declared_validateWorkspace :
    (validateWorkspace site fields).RaisesOnly Declared ↔ WorkspaceGuarded site fields := by
  simp [validateWorkspace, WorkspaceGuarded, raisesOnly_bind, require_eq_ok_iff, declared_asked,
    asked_eq_ok_iff]

theorem declared_deriveWriterKey : (site.deriveWriterKey workspace).RaisesOnly Declared ↔
    LocatedGuarded site workspace ∧
      ∀ resolved, site.located workspace = .ok resolved → CommonDirGuarded site resolved := by
  simp only [Site.deriveWriterKey, raisesOnly_bind, declared_located]
  refine and_congr_right fun _ => forall_congr' fun resolved => forall_congr' fun _ => ?_
  rw [CommonDirGuarded]
  split <;> simp_all [declared_asked]

theorem declared_andAsked {known : Bool} {question : Except Trouble Bool} :
    (andAsked known question).RaisesOnly Declared ↔ (known → Answered question) := by
  cases known <;> simp [andAsked, declared_asked]

theorem declared_orAsked {known : Bool} {question : Except Trouble Bool} :
    (orAsked known question).RaisesOnly Declared ↔ (known = false → Answered question) := by
  cases known <;> simp [orAsked, declared_asked]

theorem declared_safeWorkspacePath {mustExist : Bool} :
    (site.safeWorkspacePath workspace relative mustExist).RaisesOnly Declared ↔
      SafePathGuarded site workspace relative := by
  simp only [Site.safeWorkspacePath, SafePathGuarded, raisesOnly_bind, declared_require,
    require_eq_ok_iff, declared_asked, asked_eq_ok_iff, declared_andAsked, true_and,
    raisesOnly_pure, implies_true, and_true, forall_const]

theorem declared_checkCwd :
    (site.checkCwd workspace fields).RaisesOnly Declared ↔ CwdGuarded site workspace fields := by
  have hraw : (site.rawCwd workspace fields).RaisesOnly Declared ↔
      (cwdOf fields ≠ "." → SafePathGuarded site workspace (cwdOf fields)) := by
    unfold Site.rawCwd
    split
    next h => simp [h]
    next h => simp [h, declared_safeWorkspacePath]
  simp [Site.checkCwd, CwdGuarded, raisesOnly_bind, declared_asked, asked_eq_ok_iff, hraw]

theorem declared_executableCandidate :
    (site.executableCandidate workspace cwd relative).RaisesOnly Declared ↔
      CandidateGuarded site workspace cwd relative := by
  simp only [Site.executableCandidate, CandidateGuarded]
  split
  next h => simp [h]
  next h =>
    split
    next h' => simp [h, h', raisesOnly_bind, declared_asked, asked_eq_ok_iff]
    next h' => simp [h, h']

theorem declared_resolveCheckExecutable :
    (site.resolveCheckExecutable workspace fields relative).RaisesOnly Declared ↔
      ExecutableGuarded site workspace fields relative := by
  simp [Site.resolveCheckExecutable, ExecutableGuarded, raisesOnly_bind, declared_checkCwd,
    declared_executableCandidate, declared_located, declared_asked, asked_eq_ok_iff,
    require_eq_ok_iff]

@[simp] theorem declared_hashFile {path : Path} : (site.hashFile path).RaisesOnly Declared := by
  unfold Site.hashFile
  split <;> simp

theorem declared_authorityRecord {expected : AuthorityExpectation} :
    (site.authorityRecord workspace expected relative).RaisesOnly Declared ↔
      RecordGuarded site workspace expected relative := by
  cases expected <;>
    simp [Site.authorityRecord, RecordGuarded, raisesOnly_bind, declared_safeWorkspacePath,
      declared_asked, asked_eq_ok_iff, require_eq_ok_iff]

theorem declared_argumentAuthority :
    (site.argumentAuthority workspace cwd relative).RaisesOnly Declared ↔
      ArgumentGuarded site workspace cwd relative := by
  simp only [Site.argumentAuthority, ArgumentGuarded]
  split
  next h => simp [h]
  next h =>
    simp only [h, not_false_eq_true, true_implies, raisesOnly_bind, declared_asked,
      asked_eq_ok_iff, declared_require, require_eq_ok_iff, Site.argumentCandidate]
    refine and_congr_right fun _ => ?_
    rcases hr : site.resolve (writtenPath (joinPath cwd relative).toList) with trouble | candidate
    · cases trouble <;> simp
    · simp [declared_andAsked]

theorem declared_packageSetting :
    (site.packageSetting workspace relative).RaisesOnly Declared ↔
      SettingGuarded site workspace relative := by
  simp only [Site.packageSetting, SettingGuarded, raisesOnly_bind, declared_asked, asked_eq_ok_iff,
    declared_orAsked, raisesOnly_pure, implies_true, and_true]
  simp

theorem declared_authorityPaths :
    (site.authorityPaths workspace cwd fields).RaisesOnly Declared ↔
      PathsGuarded site workspace cwd fields := by
  have hsettings : ∀ argv, (site.packageSettingsPresent workspace argv).RaisesOnly Declared ↔
      (runsPackageScript argv → EachGuarded (site.packageSetting workspace)
        (SettingGuarded site workspace) packageSettings) := by
    intro argv
    unfold Site.packageSettingsPresent
    split
    next h => simp [h, declared_each fun _ _ => declared_packageSetting]
    next h => simp [h]
  simp [Site.authorityPaths, PathsGuarded, raisesOnly_bind, hsettings,
    declared_each fun _ _ => declared_argumentAuthority]

theorem declared_bindCheck :
    (site.bindCheck workspace fields).RaisesOnly Declared ↔
      BindingGuarded site workspace fields := by
  have hcwd : ∀ executable, site.resolveCheckExecutable workspace fields
      ((texts (get fields "argv")).headD "") = .ok executable →
        (site.checkCwd workspace fields).RaisesOnly Declared := by
    intro executable h
    simp only [Site.resolveCheckExecutable, bind_eq_ok_iff] at h
    obtain ⟨cwd, hcwd, -⟩ := h
    rw [hcwd]
    trivial
  simp only [Site.bindCheck, BindingGuarded, raisesOnly_bind, declared_resolveCheckExecutable,
    declared_hashFile, declared_authorityPaths, declared_each fun _ _ => declared_authorityRecord,
    raisesOnly_pure, implies_true, and_true, true_and]
  refine and_congr_right fun _ => forall_congr' fun executable => forall_congr' fun h =>
    forall_congr' fun _ => forall_congr' fun _ => ?_
  rw [and_iff_right (hcwd executable h)]

theorem declared_bindCheckAuthority
    (hworkspace : ∃ path, get fields "workspace" = text path)
    (hchecks : ∀ check ∈ elements (getD fields "checks" (.arr [])), ∃ object, check = .obj object) :
    (site.bindCheckAuthority fields).RaisesOnly Declared ↔ BindingsGuarded site fields := by
  obtain ⟨path, hpath⟩ := hworkspace
  have hitem : ∀ workspace, ∀ check ∈ elements (getD fields "checks" (.arr [])),
      (site.bindItem workspace check).RaisesOnly Declared ↔
        ∀ object, check = .obj object → BindingGuarded site workspace object := by
    intro workspace check hcheck
    obtain ⟨object, rfl⟩ := hchecks check hcheck
    simp [Site.bindItem, declared_bindCheck]
  have hvalue : asPath (get fields "workspace") = .ok (writtenPath path.toList) := by
    rw [hpath]
    rfl
  simp [Site.bindCheckAuthority, BindingsGuarded, raisesOnly_bind, hvalue, declared_asked,
    asked_eq_ok_iff, declared_each (hitem _)]

end Asking

/-! ### Checks that refuse what is guarded -/

section Exactly

variable {py : Interpreter} {site : Site} {α : Type} {error : String} {value : Value}
  {fields : Fields}

theorem declared_member {table : List (String × α)} :
    (member table value error).RaisesOnly Declared ↔ value.hashable := by
  simp [member, raisesOnly_bind, declared_raised, raisesOnly_among]

theorem declared_finiteMinutes : (finiteMinutes value).RaisesOnly Declared ↔
    ¬ value.unrepresentable := by
  cases value with
  | number n =>
    simp [finiteMinutes, raisesOnly_bind, declared_raised, raisesOnly_isFinite,
      Value.unrepresentable]
  | null | bool _ | str _ | arr _ | obj _ => simp [finiteMinutes, Value.unrepresentable]

theorem declared_validateMinutes : (validateMinutes value).RaisesOnly Declared ↔
    MinutesGuarded value := by
  cases value with
  | obj fields =>
    simp [validateMinutes, MinutesGuarded, raisesOnly_bind, require_eq_ok_iff,
      declared_finiteMinutes]
  | null | bool _ | number _ | str _ | arr _ => simp [validateMinutes, MinutesGuarded]

theorem declared_validateExecutionBudget :
    (validateExecutionBudget py value).RaisesOnly Declared ↔ BudgetGuarded value := by
  cases value with
  | obj fields =>
    simp [validateExecutionBudget, BudgetGuarded, raisesOnly_bind, declared_validateMinutes,
      forall_passed_iff]
  | null | bool _ | number _ | str _ | arr _ => simp [validateExecutionBudget, BudgetGuarded]

theorem declared_validateAuthorityPaths :
    (validateAuthorityPaths error value).RaisesOnly Declared ↔ AuthorityGuarded value := by
  cases value with
  | arr values =>
    simp [validateAuthorityPaths, AuthorityGuarded, raisesOnly_bind, require_eq_ok_iff,
      declared_raised, raisesOnly_distinct]
  | null | bool _ | number _ | str _ | obj _ => simp [validateAuthorityPaths, AuthorityGuarded]

theorem declared_validateCheck {seen : List String} :
    (validateCheck seen value).RaisesOnly Declared ↔ CheckGuarded seen value := by
  cases value with
  | obj fields =>
    simp [validateCheck, CheckGuarded, raisesOnly_bind, declared_validateAuthorityPaths,
      forall_passed_iff]
  | null | bool _ | number _ | str _ | arr _ => simp [validateCheck, CheckGuarded]

theorem declared_validateChecks : (validateChecks value).RaisesOnly Declared ↔
    ChecksGuarded value := by
  cases value with
  | arr checks =>
    simp [validateChecks, ChecksGuarded, raisesOnly_bind, require_eq_ok_iff, raisesOnly_foldlM,
      declared_validateCheck]
  | null | bool _ | number _ | str _ | obj _ => simp [validateChecks, ChecksGuarded]

theorem declared_reviewChoices : (reviewChoices fields).RaisesOnly Declared ↔
    ChoicesGuarded fields := by
  simp [reviewChoices, ChoicesGuarded, raisesOnly_bind, require_eq_ok_iff, declared_member,
    usualReviewer]

theorem declared_normalizeReviewPolicy : (normalizeReviewPolicy py fields).RaisesOnly Declared ↔
    ∀ raw, rawReview fields = .ok raw → reviewTypes raw = .ok () →
      ChoicesGuarded raw ∧ ∀ choices, reviewChoices raw = .ok choices → SizesGuarded py raw := by
  simp [normalizeReviewPolicy, SizesGuarded, raisesOnly_bind, declared_reviewChoices,
    declared_raised, raised_eq_ok_iff, raisesOnly_toInt, forall_passed_iff]

theorem declared_validateReview : (validateReview py fields).RaisesOnly Declared ↔
    ReviewGuarded py fields := by
  simp [validateReview, ReviewGuarded, raisesOnly_bind, declared_normalizeReviewPolicy,
    forall_passed_iff]

theorem declared_publicationTransport : (publicationTransport value).RaisesOnly Declared ↔
    value.hashable := by
  cases value with
  | null => simp [publicationTransport, Value.isNull, Value.hashable, Value.key]
  | bool _ | number _ | str _ | arr _ | obj _ =>
    simp [publicationTransport, Value.isNull, declared_member]

theorem declared_validatePublication : (validatePublication value).RaisesOnly Declared ↔
    PublicationGuarded value := by
  cases value with
  | obj publication =>
    simp [validatePublication, PublicationGuarded, raisesOnly_bind, declared_member,
      declared_publicationTransport, forall_passed_iff]
  | null | bool _ | number _ | str _ | arr _ => simp [validatePublication, PublicationGuarded]

theorem boundedText_eq_ok {maxBytes : ℕ} {s : String}
    (h : boundedText value error maxBytes = .ok s) :
    value = text s := by
  cases value with
  | str t =>
    cases t with
    | str t =>
      simp only [boundedText, bind_eq_ok_iff, pure_eq_ok_iff] at h
      obtain ⟨-, -, -, -, -, -, rfl⟩ := h
      rfl
    | broken _ => cases h
  | null | bool _ | number _ | arr _ | obj _ => cases h

theorem asPath_of_validateWorkspace (h : validateWorkspace site fields = .ok ()) :
    ∃ path, get fields "workspace" = text path := by
  simp only [validateWorkspace, bind_eq_ok_iff] at h
  obtain ⟨path, hpath, -⟩ := h
  exact ⟨path, boundedText_eq_ok hpath⟩

theorem declared_taskWriterKey (h : validateWorkspace site fields = .ok ()) :
    (taskWriterKey site fields).RaisesOnly Declared ↔
      ∀ value, asPath (getD fields "workspace" (text "")) = .ok value →
        WriterKeyGuarded site value := by
  obtain ⟨path, hpath⟩ := asPath_of_validateWorkspace h
  have hvalue : getD fields "workspace" (text "") = text path := by
    apply getD_of_get hpath
    rintro ⟨⟩
  rw [taskWriterKey, hvalue]
  simp [asPath, text, raisesOnly_bind, WriterKeyGuarded, declared_located,
    declared_deriveWriterKey]

theorem declared_validateDependencies {taskId other : TaskId}
    (h : ∀ deps, value = .arr deps → deps.all (isOtherName other)) :
    (validateDependencies taskId value).RaisesOnly Declared := by
  cases value with
  | arr deps =>
    have hashable : ∀ dep ∈ deps, dep.hashable := by
      intro dep hdep
      have hname := List.all_eq_true.mp (h deps rfl) dep hdep
      cases dep <;> simp_all [isOtherName, Value.hashable, Value.key]
    simp only [validateDependencies, raisesOnly_bind, declared_raised, raisesOnly_distinct,
      declared_require, true_and, implies_true, and_true]
    intro _ _
    exact hashable
  | null | bool _ | number _ | str _ | obj _ => simp [validateDependencies]

theorem declared_taskScope {taskId : TaskId} (h : checkDependencies fields = .ok ()) :
    (taskScope site taskId fields).RaisesOnly Declared ↔ ScopeGuarded site fields := by
  have hdeps : ∀ deps, getD fields "dependencies" (.arr []) = .arr deps →
      deps.all (isOtherName (taskIdOf fields)) := by
    intro deps hvalue
    rw [checkDependencies, hvalue] at h
    exact require_eq_ok_iff.mp h
  simp only [taskScope, ScopeGuarded, raisesOnly_bind, declared_checkTexts,
    declared_validateWorkspace, declared_require, declared_validateAllowedPaths,
    declared_validateProtectedPaths, declared_validateDependencies hdeps, true_and, implies_true,
    and_true, forall_passed_iff, require_eq_ok_iff, forall_const]
  refine forall_congr' fun _ => forall_congr' fun _ => and_congr_right fun _ =>
    forall_congr' fun hworkspace => forall_congr' fun _ => ?_
  exact declared_taskWriterKey hworkspace

theorem declared_validateTaskFields (h : checkDependencies fields = .ok ()) :
    (validateTaskFields py site fields).RaisesOnly Declared ↔ TaskGuarded py site fields := by
  simp [validateTaskFields, TaskGuarded, raisesOnly_bind, declared_validateExecutionBudget,
    declared_taskScope h, declared_validateChecks, declared_validateReview,
    declared_validatePublication, forall_passed_iff, publicationValue]

theorem declared_checkDependencies : (checkDependencies fields).RaisesOnly Declared := by
  unfold checkDependencies
  split <;> simp

theorem declared_validateItems {items : List Fields} :
    (forM items (validateItem py site)).RaisesOnly Declared ↔ TasksGuarded py site items := by
  simp only [raisesOnly_forM, TasksGuarded, validateItem, raisesOnly_bind,
    declared_checkDependencies, true_and]
  constructor
  · intro h done fields rest hitems hdone hdeps
    exact (declared_validateTaskFields hdeps).mp (h done fields rest hitems hdone () hdeps)
  · intro h done fields rest hitems hdone _ hdeps
    exact (declared_validateTaskFields hdeps).mpr (h done fields rest hitems hdone hdeps)

end Exactly

end OrchKit.Planning
