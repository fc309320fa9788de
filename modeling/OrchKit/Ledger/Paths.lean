import Mathlib.Data.List.Basic
import Mathlib.Data.List.DropRight
import Mathlib.Tactic.Common

/-! # Relative paths and path authority

Every path a task names is first normalised: leading `./` is stripped and the rest
is read as a POSIX path, which drops empty and `.` components but keeps a root. The
allowlist of a task is matched against normalised paths, an entry that ends in a
slash standing for everything below it.
-/

namespace OrchKit

abbrev Path := String

/-- `value = value[2:]` for as long as the value starts with `./`. -/
def stripDotSlash : List Char → List Char
  | '.' :: '/' :: rest => stripDotSlash rest
  | value => value

/-- The root of a POSIX path: exactly two leading slashes are kept as they are. -/
def pathRoot : List Char → List Char
  | '/' :: '/' :: '/' :: _ => ['/']
  | '/' :: '/' :: _ => ['/', '/']
  | '/' :: _ => ['/']
  | _ => []

def pathComponents (value : List Char) : List (List Char) :=
  (value.splitOn '/').filter fun c => !c.isEmpty && c != ['.']

/-- `Path(value).as_posix()`. -/
def asPosix (value : List Char) : List Char :=
  match pathRoot value ++ ['/'].intercalate (pathComponents value) with
  | [] => ['.']
  | posix => posix

def normalizeRelativePath (relative : Path) : Except String Path :=
  if relative.toList.isEmpty || relative.toList.contains '\x00' ||
      relative.toList.head? == some '/' then
    .error "invalid_relative_path"
  else
    let value := stripDotSlash relative.toList
    if value.isEmpty || (pathComponents value).any (· == ['.', '.']) then
      .error "path_escape"
    else
      .ok (String.ofList (asPosix value))

def pathAllowed (relative : Path) (allowlist : List String) : Bool :=
  match normalizeRelativePath relative with
  | .error _ => false
  | .ok normalized => allowlist.any fun entry =>
    let directory := entry.toList.getLast? == some '/'
    match normalizeRelativePath (String.ofList (entry.toList.rdropWhile (· == '/'))) with
    | .error _ => false
    | .ok item =>
      normalized == item ||
        directory && (item.toList ++ ['/']).isPrefixOf normalized.toList

/-! ### Paths in a repository -/

/-- The paths a Git tree can have: no component is empty, `.` or `..`. -/
def isGitPath (path : Path) : Bool :=
  !path.toList.contains '\x00' &&
    (path.toList.splitOn '/').all fun c => !c.isEmpty && c != ['.'] && c != ['.', '.']

abbrev GitPath : Type := { path : Path // isGitPath path }

section GitPath

variable {l : List Char}

theorem ne_nil_of_components (h : ∀ c ∈ l.splitOn '/', c ≠ []) : l ≠ [] := by
  rintro rfl
  exact h [] (by simp [List.splitOn_nil]) rfl

theorem head_ne_of_components (h : ∀ c ∈ l.splitOn '/', c ≠ []) : l.head? ≠ some '/' := by
  cases l with
  | nil => simp
  | cons x l =>
    rintro ⟨⟩
    exact h [] (by simp [List.splitOn_cons_eq_if_modifyHead]) rfl

theorem getLast_ne_of_components (h : ∀ c ∈ l.splitOn '/', c ≠ []) : l.getLast? ≠ some '/' := by
  intro hl
  obtain ⟨xs, rfl⟩ := List.getLast?_eq_some_iff.mp hl
  exact h [] (by simp [List.splitOn_append_cons_self, List.splitOn_nil]) rfl

theorem stripDotSlash_of_components (h : ∀ c ∈ l.splitOn '/', c ≠ ['.']) :
    stripDotSlash l = l := by
  rw [stripDotSlash.eq_def]
  split
  next rest =>
    have hdot := h ['.'] (by simp [List.splitOn_cons_eq_if_modifyHead])
    exact absurd rfl hdot
  next => rfl

theorem isGitPath_iff {path : Path} : isGitPath path ↔ '\x00' ∉ path.toList ∧
    ∀ c ∈ path.toList.splitOn '/', c ≠ [] ∧ c ≠ ['.'] ∧ c ≠ ['.', '.'] := by
  simp [isGitPath, and_assoc]

theorem asPosix_of_components (h : ∀ c ∈ l.splitOn '/', c ≠ [] ∧ c ≠ ['.']) : asPosix l = l := by
  have hne := ne_nil_of_components fun c hc => (h c hc).1
  have hroot : pathRoot l = [] := by
    have hhead := head_ne_of_components fun c hc => (h c hc).1
    rw [pathRoot.eq_def]
    split <;> simp_all
  have hcomp : pathComponents l = l.splitOn '/' := by
    rw [pathComponents, List.filter_eq_self]
    intro c hc
    simp [h c hc]
  rw [asPosix, hroot, hcomp, List.intercalate_splitOn, List.nil_append]
  obtain ⟨x, l', rfl⟩ := List.exists_cons_of_ne_nil hne
  rfl

theorem normalizeRelativePath_gitPath (p : GitPath) : normalizeRelativePath p.1 = .ok p.1 := by
  obtain ⟨hnul, h⟩ := isGitPath_iff.mp p.2
  have hne := ne_nil_of_components fun c hc => (h c hc).1
  have hhead := head_ne_of_components fun c hc => (h c hc).1
  have hstrip := stripDotSlash_of_components fun c hc => (h c hc).2.1
  have hposix := asPosix_of_components fun c hc => ⟨(h c hc).1, (h c hc).2.1⟩
  have hup : ¬ (pathComponents p.1.toList).any (· == ['.', '.']) := by
    simp only [List.any_eq_true, beq_iff_eq, not_exists, not_and]
    rintro c hc rfl
    exact (h _ (List.mem_of_mem_filter hc)).2.2 rfl
  simp [normalizeRelativePath, hnul, hne, hhead, hstrip, hposix, hup]

end GitPath

/-! ### Normalised paths -/

section Normalized

variable {path p q : Path} {c l : List Char}

theorem slash_notMem_of_mem_splitOn (h : c ∈ l.splitOn '/') : '/' ∉ c := by
  induction l generalizing c with
  | nil =>
    rw [List.splitOn_nil, List.mem_singleton] at h
    simp [h]
  | cons x l ih =>
    rw [List.splitOn_cons_eq_if_modifyHead] at h
    split at h
    next =>
      rcases List.mem_cons.mp h with rfl | h
      · simp
      · exact ih h
    next hx =>
      rcases hl : l.splitOn '/' with _ | ⟨d, rest⟩
      · rw [hl] at h
        cases h
      · rw [hl, List.modifyHead_cons, List.mem_cons] at h
        rcases h with rfl | h
        · have hd := ih (hl ▸ List.mem_cons_self)
          rw [List.mem_cons, not_or]
          exact ⟨fun he => hx (beq_iff_eq.mpr he.symm), hd⟩
        · exact ih (hl ▸ List.mem_cons_of_mem d h)

theorem normalizeRelativePath_eq_ok_iff : normalizeRelativePath path = .ok p ↔
    (path.toList ≠ [] ∧ '\x00' ∉ path.toList ∧ path.toList.head? ≠ some '/') ∧
      stripDotSlash path.toList ≠ [] ∧
      ['.', '.'] ∉ pathComponents (stripDotSlash path.toList) ∧
      String.ofList (asPosix (stripDotSlash path.toList)) = p := by
  rw [normalizeRelativePath]
  split
  next h =>
    simp only [Bool.or_eq_true, List.isEmpty_iff, List.contains_iff_mem, beq_iff_eq] at h
    simp only [reduceCtorEq, false_iff, not_and]
    tauto
  next h =>
    simp only [Bool.or_eq_true, List.isEmpty_iff, List.contains_iff_mem, beq_iff_eq, not_or] at h
    simp only
    split
    next h' =>
      simp only [Bool.or_eq_true, List.isEmpty_iff, List.any_eq_true, beq_iff_eq,
        exists_eq_right] at h'
      simp only [reduceCtorEq, false_iff, not_and]
      tauto
    next h' =>
      simp only [Bool.or_eq_true, List.isEmpty_iff, List.any_eq_true, beq_iff_eq, not_or,
        exists_eq_right] at h'
      simp only [Except.ok.injEq]
      tauto

theorem head_pathRoot (h : pathRoot l ≠ []) : (pathRoot l).head? = some '/' := by
  rw [pathRoot.eq_def] at h ⊢
  split <;> simp_all

theorem pathRoot_eq_nil_iff : pathRoot l = [] ↔ l.head? ≠ some '/' := by
  rw [pathRoot.eq_def]
  split <;> simp_all [List.head?_eq_some_iff]

theorem mem_pathComponents (h : c ∈ pathComponents l) : '/' ∉ c ∧ c ≠ [] ∧ c ≠ ['.'] := by
  have hc := List.of_mem_filter h
  exact ⟨slash_notMem_of_mem_splitOn (List.mem_of_mem_filter h), by simpa using hc⟩

theorem asPosix_of_nil (hroot : pathRoot l = []) (hnil : pathComponents l = []) :
    asPosix l = ['.'] := by
  rw [asPosix, hroot, hnil]
  rfl

theorem splitOn_asPosix (hroot : pathRoot l = []) (hne : pathComponents l ≠ []) :
    (asPosix l).splitOn '/' = pathComponents l := by
  have hsplit := List.splitOn_intercalate '/' (fun c hc => (mem_pathComponents hc).1) hne
  have hvalue : asPosix l = ['/'].intercalate (pathComponents l) := by
    have hjoin := ne_nil_of_components fun c hc => (mem_pathComponents (hsplit ▸ hc)).2.1
    obtain ⟨x, rest, hx⟩ := List.exists_cons_of_ne_nil hjoin
    rw [asPosix, hroot, List.nil_append, hx]
  rw [hvalue, hsplit]

/-- A normalised path that can be normalised at all is left as it is. -/
theorem normalizeRelativePath_idem (h : normalizeRelativePath path = .ok p)
    (h' : normalizeRelativePath p = .ok q) : q = p := by
  obtain ⟨-, -, -, rfl⟩ := normalizeRelativePath_eq_ok_iff.mp h
  obtain ⟨⟨-, -, hhead⟩, -, -, rfl⟩ := normalizeRelativePath_eq_ok_iff.mp h'
  generalize stripDotSlash path.toList = value at hhead
  rw [String.toList_ofList] at hhead ⊢
  -- a path that kept its root would start with a slash
  have hroot : pathRoot value = [] := by
    by_contra hne
    have hr := head_pathRoot hne
    refine hhead ?_
    rw [asPosix]
    split
    next he => rw [List.append_eq_nil_iff] at he; exact absurd he.1 hne
    next => rw [List.head?_append, hr]; rfl
  by_cases hnil : pathComponents value = []
  · rw [asPosix_of_nil hroot hnil]
    decide
  have hmem : ∀ c ∈ (asPosix value).splitOn '/', c ≠ [] ∧ c ≠ ['.'] := by
    intro c hc
    exact (mem_pathComponents (splitOn_asPosix hroot hnil ▸ hc)).2
  rw [stripDotSlash_of_components fun c hc => (hmem c hc).2, asPosix_of_components hmem]

end Normalized

example : normalizeRelativePath "./src//a/./b" = .ok "src/a/b" := by decide

example : pathAllowed "src/a" ["docs/", "src/"] = true := by decide

end OrchKit
