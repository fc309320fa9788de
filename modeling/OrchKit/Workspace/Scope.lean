import OrchKit.Git.Repository
import OrchKit.Ledger.Outside

/-! # Scope evidence

What has changed in a workspace, as three Git listings tell it, held against the paths
a worker declares and the paths its task allows. The listings fold renames, so the
evidence is complete just where no rename hides a deleted path.
-/

namespace OrchKit

open Except Git

abbrev Content := String

/-- The repository of a workspace that is the top of its working tree. -/
abbrev Workspace := Repo GitPath Content CommitId

abbrev Renames := RenameRule GitPath Content

/-- `sorted(set(xs))`. -/
def sortedSet (xs : List String) : List String := sorted xs.dedup

/-- `normalize_relative_path`, raising. -/
def normalizePath (path : Path) : Checked Path :=
  match normalizeRelativePath path with
  | .ok normalized => .ok normalized
  | .error message => .error (.value message)

def listed (paths : List GitPath) : Checked (List Path) := paths.mapM fun p => normalizePath p.1

/-- `_workspace_scope_evidence`; there is no repository outside of Git. -/
def workspaceScopeEvidence (rule : Renames) (repo : Option Workspace) (payload : TaskPayload)
    (declaredPaths : List Path) : Checked ScopeEvidence := do
  let declared := sortedSet (← declaredPaths.mapM normalizePath)
  match repo with
  | none => return ⟨.nonGitUnavailable, declared, none, [], [], [], [], []⟩
  | some repo =>
    let tracked ← listed (repo.diffNames rule)
    let staged ← listed (repo.cachedNames rule)
    let untracked ← listed repo.others
    let observedAll := sortedSet (tracked ++ staged ++ untracked)
    let protectedSet ← payload.protectedPaths.mapM fun p => normalizePath p.1
    let observed := sorted (observedAll.filter (· ∉ protectedSet))
    let outsideAllowlist := sorted (observed.filter fun p => !pathAllowed p payload.allowedPaths)
    let omittedFromReceipt := sortedSet (observed.filter (· ∉ declared))
    let declaredButUnobserved := sortedSet (declared.filter (· ∉ observed))
    let status := if outsideAllowlist = [] ∧ omittedFromReceipt = [] ∧ declaredButUnobserved = []
      then ScopeStatus.pass else .blocked
    return ⟨status, declared, repo.headCommit, observed,
      sortedSet (observedAll.filter (· ∈ protectedSet)), outsideAllowlist, omittedFromReceipt,
      declaredButUnobserved⟩

theorem mem_sorted {xs : List String} {x : String} : x ∈ sorted xs ↔ x ∈ xs :=
  List.mem_insertionSort _

theorem mem_sortedSet {xs : List String} {x : String} : x ∈ sortedSet xs ↔ x ∈ xs := by
  rw [sortedSet, mem_sorted, List.mem_dedup]

theorem sorted_eq_nil_iff {xs : List String} : sorted xs = [] ↔ xs = [] := by
  simp only [List.eq_nil_iff_forall_not_mem, mem_sorted]

theorem sortedSet_eq_nil_iff {xs : List String} : sortedSet xs = [] ↔ xs = [] := by
  simp only [List.eq_nil_iff_forall_not_mem, mem_sortedSet]

theorem normalizePath_eq_ok_iff {path normalized : Path} :
    normalizePath path = .ok normalized ↔ normalizeRelativePath path = .ok normalized := by
  rw [normalizePath]
  split <;> simp_all

theorem listed_eq (paths : List GitPath) : listed paths = .ok (paths.map Subtype.val) := by
  induction paths with
  | nil => rfl
  | cons p ps ih =>
    rw [listed, List.mapM_cons, normalizePath_eq_ok_iff.mpr (normalizeRelativePath_gitPath p)]
    rw [listed] at ih
    rw [ih]
    rfl

theorem mapM_normalizePath_eq_ok {α : Type} {f : α → Path} {xs : List α} {ys : List Path}
    (h : xs.mapM (fun x => normalizePath (f x)) = .ok ys) {y : Path} :
    y ∈ ys ↔ ∃ x ∈ xs, normalizeRelativePath (f x) = .ok y := by
  induction xs generalizing ys with
  | nil =>
    cases h
    simp
  | cons x xs ih =>
    simp only [List.mapM_cons, bind_eq_ok_iff, pure_eq_ok_iff, normalizePath_eq_ok_iff] at h
    obtain ⟨z, hz, zs, hzs, rfl⟩ := h
    simp only [List.mem_cons, ih hzs, or_and_right, exists_or, exists_eq_left, hz,
      Except.ok.injEq, @eq_comm _ y]

def isProtected (protectedPaths : List (Path × Hash)) (path : Path) : Prop :=
  ∃ p ∈ protectedPaths, normalizeRelativePath p.1 = .ok path

/-- Every path that differs, but for the ignored and the protected, is declared and allowed. -/
def ScopeComplete (repo : Workspace) (payload : TaskPayload) (declaredPaths : List Path) : Prop :=
  ∀ p : GitPath, repo.ignored p = false → ¬ isProtected payload.protectedPaths p.1 →
    repo.Differs p →
      (∃ d ∈ declaredPaths, normalizeRelativePath d = .ok p.1) ∧
        pathAllowed p.1 payload.allowedPaths

variable {rule : Renames} {repo : Workspace} {payload : TaskPayload} {declaredPaths : List Path}
  {evidence : ScopeEvidence}

def Listed (rule : Renames) (repo : Workspace) (p : GitPath) : Prop :=
  p ∈ repo.diffNames rule ∨ p ∈ repo.cachedNames rule ∨ p ∈ repo.others

/-- What scope evidence consists of. -/
theorem workspaceScopeEvidence_spec
    (h : workspaceScopeEvidence rule (some repo) payload declaredPaths = .ok evidence) :
    (∀ d, d ∈ evidence.declaredPaths ↔ ∃ x ∈ declaredPaths, normalizeRelativePath x = .ok d) ∧
      (∀ p : GitPath, p.1 ∈ evidence.observedPaths ↔
        Listed rule repo p ∧ ¬ isProtected payload.protectedPaths p.1) ∧
      (∀ d ∈ evidence.observedPaths, ∃ p : GitPath, p.1 = d) ∧
      evidence.gitHead = repo.headCommit ∧
      (evidence.status = .pass ↔
        (∀ d ∈ evidence.observedPaths, pathAllowed d payload.allowedPaths) ∧
          ∀ d, d ∈ evidence.observedPaths ↔ d ∈ evidence.declaredPaths) := by
  simp only [workspaceScopeEvidence, listed_eq, bind_eq_ok_iff, pure_eq_ok_iff,
    Except.ok.injEq, exists_eq_left'] at h
  obtain ⟨declared, hdeclared, protectedSet, hprotected, rfl⟩ := h
  have hprot : ∀ d, d ∈ protectedSet ↔ isProtected payload.protectedPaths d :=
    fun d => mapM_normalizePath_eq_ok hprotected
  refine ⟨fun d => ?_, fun p => ?_, fun d hd => ?_, rfl, ?_⟩
  · rw [mem_sortedSet]
    exact mapM_normalizePath_eq_ok hdeclared
  · simp [mem_sorted, mem_sortedSet, hprot, Listed, p.2]
  · simp only [mem_sorted, mem_sortedSet, List.mem_filter, List.mem_append, List.mem_map] at hd
    obtain ⟨(⟨p, -, rfl⟩ | ⟨p, -, rfl⟩) | ⟨p, -, rfl⟩, -⟩ := hd <;> exact ⟨p, rfl⟩
  · simp only [sorted_eq_nil_iff, sortedSet_eq_nil_iff, List.filter_eq_nil_iff]
    constructor
    · intro h
      split at h
      next hall =>
        obtain ⟨h₁, h₂, h₃⟩ := hall
        refine ⟨fun d hd => by simpa using h₁ d hd, fun d => ⟨fun hd => ?_, fun hd => ?_⟩⟩
        · simpa using h₂ d hd
        · simpa using h₃ d hd
      next => cases h
    · rintro ⟨hallowed, hsame⟩
      rw [if_pos ⟨fun d hd => by simpa using hallowed d hd,
        fun d hd => by simpa using (hsame d).mp hd, fun d hd => by simpa using (hsame d).mpr hd⟩]

theorem listed_iff_of_pass
    (h : workspaceScopeEvidence rule (some repo) payload declaredPaths = .ok evidence)
    (hpass : evidence.status = .pass) {p : GitPath}
    (hp : ¬ isProtected payload.protectedPaths p.1) :
    Listed rule repo p ↔ (∃ d ∈ declaredPaths, normalizeRelativePath d = .ok p.1) ∧
      pathAllowed p.1 payload.allowedPaths := by
  obtain ⟨hdeclared, hobserved, -, -, hiff⟩ := workspaceScopeEvidence_spec h
  obtain ⟨hallowed, hsame⟩ := hiff.mp hpass
  constructor
  · intro hl
    have ho := (hobserved p).mpr ⟨hl, hp⟩
    exact ⟨(hdeclared _).mp ((hsame _).mp ho), hallowed _ ho⟩
  · rintro ⟨hd, -⟩
    exact ((hobserved p).mp ((hsame _).mpr ((hdeclared _).mpr hd))).1

/-- The evidence of a pass is complete just when no path outside the ignored and the protected
ones is hidden by a rename. -/
theorem scopeComplete_iff
    (h : workspaceScopeEvidence rule (some repo) payload declaredPaths = .ok evidence)
    (hpass : evidence.status = .pass) :
    ScopeComplete repo payload declaredPaths ↔
      ∀ p : GitPath, repo.ignored p = false → ¬ isProtected payload.protectedPaths p.1 →
        ¬ repo.Hidden rule p := by
  constructor
  · intro hc p hi hp hh
    obtain ⟨hd, hdiff, hcached, hothers⟩ := (Repo.hidden_iff hi).mp hh
    rcases (listed_iff_of_pass h hpass hp).mpr (hc p hi hp hd) with hl | hl | hl
    · exact hdiff hl
    · exact hcached hl
    · exact hothers hl
  · intro hc p hi hp hd
    refine (listed_iff_of_pass h hpass hp).mp ?_
    by_contra hl
    simp only [Listed, not_or] at hl
    exact hc p hi hp ((Repo.hidden_iff hi).mpr ⟨hd, hl⟩)

namespace Scenario

/-- A workspace in which a file has been moved, in the index and on disk, from where the task
may not write to where it may. -/
def moved : Workspace where
  commits := AList.insert "c" ⟨none, AList.insert ⟨"secret/key", by decide⟩ ⟨.regular, "x"⟩ ∅⟩ ∅
  refs := AList.insert "refs/heads/main" "c" ∅
  head := "refs/heads/main"
  index := AList.insert ⟨"docs/key", by decide⟩ (.staged ⟨.regular, "x"⟩) ∅
  worktree := AList.insert ⟨"docs/key", by decide⟩ (.file 0o644 "x") ∅
  ignored _ := false

def docsPayload : TaskPayload :=
  ⟨"t", none, "k", "w", ["docs/"], [], [], false, none, false, {}, 1, []⟩

def edited : Workspace :=
  { moved with
    commits := AList.insert "c" ⟨none, AList.insert ⟨"docs/key", by decide⟩ ⟨.regular, "w"⟩ ∅⟩ ∅ }

end Scenario

open Scenario in
theorem scopeComplete_iff_edited : workspaceScopeEvidence (greedy _ _) (some edited) docsPayload
      ["docs/key"] = .ok ⟨.pass, ["docs/key"], some "c", ["docs/key"], [], [], [], []⟩ ∧
    (ScopeComplete edited docsPayload ["docs/key"] ↔ ∀ p : GitPath, edited.ignored p = false →
      ¬ isProtected docsPayload.protectedPaths p.1 → ¬ edited.Hidden (greedy _ _) p) :=
  ⟨rfl, scopeComplete_iff rfl rfl⟩

open Scenario in
theorem not_always_scopeComplete : ¬ ∀ (rule : Renames) (repo : Workspace) (payload : TaskPayload)
    (declaredPaths : List Path) (evidence : ScopeEvidence),
    workspaceScopeEvidence rule (some repo) payload declaredPaths = .ok evidence →
      evidence.status = .pass → ScopeComplete repo payload declaredPaths := by
  intro h
  have hp := h (greedy _ _) moved docsPayload ["docs/key"] _ rfl (by decide)
    ⟨"secret/key", by decide⟩ rfl (by simp [isProtected, docsPayload]) (.inl (by decide))
  exact absurd hp.2 (by decide)

end OrchKit
