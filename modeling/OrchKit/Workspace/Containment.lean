import OrchKit.Ledger.Paths

/-! # Lexical containment

Paths that tasks name are joined to the root of a workspace, as `pathlib` joins them: a path with a
root of its own takes the place of what it is joined to. Stripping a leading `./` can bring such a
root to light after the check for one; apart from that, a normalised path is relative and stays
below whatever it is joined to.
-/

namespace OrchKit

def isAbsolute (path : Path) : Bool := path.toList.head? == some '/'

/-- `Path(path).parts`. -/
def pathParts (path : Path) : List (List Char) :=
  (if pathRoot path.toList = [] then [] else [pathRoot path.toList]) ++ pathComponents path.toList

/-- `Path(root) / relative`. -/
def joinPath (root relative : Path) : Path :=
  if isAbsolute relative then relative
  else if root.toList.getLast?.all (· == '/') then root ++ relative
  else root ++ "/" ++ relative

/-- `candidate.relative_to(root)` does not raise. -/
def inside (root candidate : Path) : Bool := (pathParts root).isPrefixOf (pathParts candidate)

/-- What normalising a path makes of it is relative, and normalised. -/
def NormalizesRelative (path : Path) : Prop :=
  ∀ p, normalizeRelativePath path = .ok p →
    ¬ isAbsolute p ∧ ['.', '.'] ∉ pathParts p ∧ '\x00' ∉ p.toList ∧ normalizeRelativePath p = .ok p

/-- Wherever a path is authorised, it stays below an absolute root that it is joined to. -/
def StaysInside (path : Path) : Prop :=
  ∀ (allowlist : List String) (root p : Path), isAbsolute root → pathAllowed path allowlist →
    normalizeRelativePath path = .ok p → inside root (joinPath root p)

/-- Behind a leading `./` there is a slash, in a path that is fit for normalisation otherwise. -/
def hidesRoot (path : Path) : Bool :=
  !isAbsolute path && !path.toList.contains '\x00' &&
    (stripDotSlash path.toList).head? == some '/' &&
    !(pathComponents (stripDotSlash path.toList)).contains ['.', '.']

section Containment

variable {path p root relative : Path} {value l m c : List Char} {x : Char}

/-! ### What normalising keeps -/

theorem stripDotSlash_suffix : stripDotSlash l <:+ l := by
  induction l using stripDotSlash.induct with
  | case1 rest ih =>
    rw [stripDotSlash]
    exact ih.trans ⟨['.', '/'], rfl⟩
  | case2 value h =>
    rw [stripDotSlash.eq_def]
    split
    next rest => exact absurd rfl (h rest)
    next => exact List.suffix_rfl

theorem getLast_stripDotSlash (h : stripDotSlash l ≠ []) :
    (stripDotSlash l).getLast? = l.getLast? := by
  obtain ⟨t, ht⟩ := stripDotSlash_suffix (l := l)
  calc
    (stripDotSlash l).getLast? = (t ++ stripDotSlash l).getLast? := by
      rw [List.getLast?_append_of_ne_nil t h]
    _ = l.getLast? := by rw [ht]

theorem mem_of_mem_splitOn (h : c ∈ l.splitOn '/') (hx : x ∈ c) : x ∈ l := by
  induction l generalizing c with
  | nil => simp_all [List.splitOn_nil]
  | cons y l ih =>
    rw [List.splitOn_cons_eq_if_modifyHead] at h
    split at h
    next =>
      rcases List.mem_cons.mp h with rfl | h
      · cases hx
      · exact List.mem_cons_of_mem y (ih h hx)
    next =>
      rcases hl : l.splitOn '/' with _ | ⟨d, rest⟩
      · simp [hl] at h
      · rw [hl, List.modifyHead_cons, List.mem_cons] at h
        rcases h with rfl | h
        · rcases List.mem_cons.mp hx with rfl | hx
          · exact List.mem_cons_self
          · exact List.mem_cons_of_mem y (ih (hl ▸ List.mem_cons_self) hx)
        · exact List.mem_cons_of_mem y (ih (hl ▸ List.mem_cons_of_mem d h) hx)

theorem mem_intercalate {cs : List (List Char)} (h : x ∈ ['/'].intercalate cs) :
    x = '/' ∨ ∃ c ∈ cs, x ∈ c := by
  induction cs with
  | nil => cases h
  | cons c cs ih =>
    by_cases hcs : cs = []
    · simp_all
    · rw [List.intercalate_cons_of_ne_nil hcs] at h
      simp only [List.append_assoc, List.mem_append, List.mem_singleton] at h
      simp only [List.mem_cons, exists_eq_or_imp]
      tauto

theorem mem_asPosix (h : x ∈ asPosix l) : x ∈ l ∨ x = '.' ∨ x = '/' := by
  have hroot : x ∈ pathRoot l → x = '/' := by
    rw [pathRoot.eq_def]
    split <;> simp
  have hjoin : x ∈ ['/'].intercalate (pathComponents l) → x = '/' ∨ x ∈ l := by
    intro hx
    rcases mem_intercalate hx with hx | ⟨c, hc, hx⟩
    · exact .inl hx
    · exact .inr (mem_of_mem_splitOn (List.mem_of_mem_filter hc) hx)
  rw [asPosix] at h
  split at h
  next => simp_all
  next =>
    rw [List.mem_append] at h
    tauto

theorem normalizes_of_relative (hhead : value.head? ≠ some '/') (hnul : '\x00' ∉ value)
    (hup : ['.', '.'] ∉ pathComponents value) (hp : p = String.ofList (asPosix value)) :
    ¬ isAbsolute p ∧ ['.', '.'] ∉ pathParts p ∧ '\x00' ∉ p.toList ∧
      normalizeRelativePath p = .ok p := by
  have hroot := pathRoot_eq_nil_iff.mpr hhead
  have hpl : p.toList = asPosix value := by rw [hp, String.toList_ofList]
  have hnul' : '\x00' ∉ p.toList := by
    intro hmem
    rw [hpl] at hmem
    have := mem_asPosix hmem
    simp_all
  by_cases hnil : pathComponents value = []
  · rw [asPosix_of_nil hroot hnil] at hp
    subst hp
    decide
  have hsplit : p.toList.splitOn '/' = pathComponents value := by
    rw [hpl, splitOn_asPosix hroot hnil]
  have hmem : ∀ c ∈ p.toList.splitOn '/', c ≠ [] ∧ c ≠ ['.'] := by
    intro c hc
    exact (mem_pathComponents (hsplit ▸ hc)).2
  have hhead' := head_ne_of_components fun c hc => (hmem c hc).1
  have hcomponents : pathComponents p.toList = pathComponents value := by
    rw [← hsplit, pathComponents, List.filter_eq_self]
    intro c hc
    simp [hmem c hc]
  have hstrip := stripDotSlash_of_components fun c hc => (hmem c hc).2
  refine ⟨?_, ?_, hnul', ?_⟩
  · simpa [isAbsolute] using hhead'
  · rw [pathParts, if_pos (pathRoot_eq_nil_iff.mpr hhead'), hcomponents]
    simpa using hup
  · rw [normalizeRelativePath_eq_ok_iff, hstrip, hcomponents, asPosix_of_components hmem]
    have hne := ne_nil_of_components fun c hc => (hmem c hc).1
    simp [hne, hnul', hhead', hup]

/-! ### Joining -/

theorem pathRoot_eq : pathRoot l = if l[0]? ≠ some '/' then [] else
    if l[1]? = some '/' ∧ l[2]? ≠ some '/' then ['/', '/'] else ['/'] := by
  rw [pathRoot.eq_def]
  split
  next rest => simp
  next rest h => rcases rest with _ | ⟨a, rest⟩ <;> simp_all
  next rest h _ => rcases rest with _ | ⟨a, rest⟩ <;> simp_all
  next h => rcases l with _ | ⟨a, rest⟩ <;> simp_all

theorem pathRoot_append (hm : m ≠ []) (h : l.head? ≠ some '/' ∨ m.getLast? ≠ some '/') :
    pathRoot (m ++ l) = pathRoot m := by
  rw [pathRoot_eq, pathRoot_eq]
  rcases m with _ | ⟨a, _ | ⟨b, _ | ⟨c, m⟩⟩⟩
  · exact absurd rfl hm
  · rcases l with _ | ⟨d, l⟩ <;> simp_all
    aesop
  · rcases l with _ | ⟨d, l⟩ <;> simp_all
    aesop
  · simp

theorem pathComponents_append :
    pathComponents (m ++ '/' :: l) = pathComponents m ++ pathComponents l := by
  simp [pathComponents, List.splitOn_append_cons_self]

theorem isAbsolute_iff : isAbsolute path ↔ pathRoot path.toList ≠ [] := by
  simp [isAbsolute, pathRoot_eq_nil_iff]

/-- A relative path is joined below the root. -/
theorem pathParts_joinPath (hroot : isAbsolute root) (hrel : ¬ isAbsolute relative) :
    pathParts (joinPath root relative) = pathParts root ++ pathComponents relative.toList := by
  have hne : root.toList ≠ [] := by
    intro hnil
    simp [isAbsolute, hnil] at hroot
  have hhead : relative.toList.head? ≠ some '/' := by simpa [isAbsolute] using hrel
  rw [joinPath, if_neg hrel, List.getLast?_eq_some_getLast hne]
  split
  next hlast =>
    obtain ⟨w, hw⟩ : ∃ w, root.toList = w ++ ['/'] := by
      have hslash : root.toList.getLast hne = '/' := by simpa using hlast
      exact ⟨root.toList.dropLast, hslash ▸ (List.dropLast_append_getLast hne).symm⟩
    have hcomponents : pathComponents (root ++ relative).toList =
        pathComponents root.toList ++ pathComponents relative.toList := by
      have hnil : pathComponents [] = [] := by simp [pathComponents]
      rw [String.toList_append, hw, List.append_assoc, List.singleton_append,
        pathComponents_append, pathComponents_append, hnil, List.append_nil]
    rw [pathParts, pathParts, hcomponents, String.toList_append, pathRoot_append hne (.inl hhead),
      List.append_assoc]
  next hlast =>
    have hend : root.toList.getLast? ≠ some '/' := by
      rw [List.getLast?_eq_some_getLast hne]
      simpa using hlast
    have heq : (root ++ "/" ++ relative).toList = root.toList ++ '/' :: relative.toList := by
      simp
    rw [pathParts, pathParts, heq, pathComponents_append, pathRoot_append hne (.inr hend),
      List.append_assoc]

theorem exists_not_inside (hp : isAbsolute p) :
    ∃ root, isAbsolute root ∧ ¬ inside root (joinPath root p) := by
  have hroot : pathRoot p.toList = ['/'] ∨ pathRoot p.toList = ['/', '/'] := by
    have hne := isAbsolute_iff.mp hp
    rw [pathRoot_eq] at hne ⊢
    split_ifs at hne ⊢ <;> simp_all
  rcases hroot with hroot | hroot
  · refine ⟨"//", by decide, ?_⟩
    have hparts : pathParts "//" = [['/', '/']] := by decide
    rw [joinPath, if_pos hp, inside, hparts, pathParts, hroot]
    simp
  · refine ⟨"/", by decide, ?_⟩
    have hparts : pathParts "/" = [['/']] := by decide
    rw [joinPath, if_pos hp, inside, hparts, pathParts, hroot]
    simp

/-! ### Which paths are contained -/

theorem hidesRoot_iff : hidesRoot path ↔ (stripDotSlash path.toList).head? = some '/' ∧
    normalizeRelativePath path = .ok (String.ofList (asPosix (stripDotSlash path.toList))) := by
  have hne : (stripDotSlash path.toList).head? = some '/' →
      path.toList ≠ [] ∧ stripDotSlash path.toList ≠ [] := by
    intro h
    constructor
    · intro hnil
      rw [hnil] at h
      cases h
    · intro hnil
      rw [hnil] at h
      cases h
  simp only [hidesRoot, isAbsolute, normalizeRelativePath_eq_ok_iff, Bool.and_eq_true,
    Bool.not_eq_true', beq_eq_false_iff_ne, beq_iff_eq, List.contains_eq_mem,
    decide_eq_false_iff_not]
  tauto

theorem isAbsolute_asPosix (h : l.head? = some '/') : isAbsolute (String.ofList (asPosix l)) := by
  have hroot : pathRoot l ≠ [] := fun hnil => pathRoot_eq_nil_iff.mp hnil h
  have hhead := head_pathRoot hroot
  rw [isAbsolute, String.toList_ofList, asPosix]
  split
  next he => simp_all
  next => simp [hhead]

theorem normalizesRelative_iff : NormalizesRelative path ↔ ¬ hidesRoot path := by
  constructor
  · intro h hhides
    obtain ⟨hhead, hok⟩ := hidesRoot_iff.mp hhides
    exact (h _ hok).1 (isAbsolute_asPosix hhead)
  · intro h p hok
    obtain ⟨⟨-, hnul, -⟩, -, hup, rfl⟩ := normalizeRelativePath_eq_ok_iff.mp hok
    have hhead : (stripDotSlash path.toList).head? ≠ some '/' := fun hhead =>
      h (hidesRoot_iff.mpr ⟨hhead, hok⟩)
    exact normalizes_of_relative hhead (fun hmem => hnul (stripDotSlash_suffix.subset hmem)) hup rfl

theorem stripDotSlash_append (h : (stripDotSlash l).head? = some '/') :
    stripDotSlash (l ++ m) = stripDotSlash l ++ m := by
  induction l using stripDotSlash.induct with
  | case1 rest ih =>
    rw [stripDotSlash] at h ⊢
    exact ih h
  | case2 value hvalue =>
    have hself : stripDotSlash value = value := by
      rw [stripDotSlash.eq_def]
      split
      next rest => exact absurd rfl (hvalue rest)
      next => rfl
    rw [hself] at h ⊢
    rcases value with _ | ⟨a, value⟩
    · cases h
    · cases h
      rfl

/-- A path that is there with its root is authorised by some entry. -/
theorem exists_pathAllowed (h : hidesRoot path) : ∃ entry, pathAllowed path [entry] := by
  obtain ⟨hhead, hok⟩ := hidesRoot_iff.mp h
  have hentry : ∀ entry : String, entry.toList.getLast? ≠ some '/' →
      normalizeRelativePath entry = normalizeRelativePath path → pathAllowed path [entry] := by
    intro entry hlast heq
    have hdrop : entry.toList.rdropWhile (· == '/') = entry.toList := by
      rw [List.rdropWhile_eq_self_iff]
      intro hne hl
      rw [List.getLast?_eq_some_getLast hne] at hlast
      simp_all
    simp [pathAllowed, hdrop, heq, hok]
  by_cases hlast : path.toList.getLast? = some '/'
  · -- a dot at the end keeps the slash from being stripped
    refine ⟨path ++ ".", hentry _ (by simp) ?_⟩
    obtain ⟨w, hw⟩ := List.getLast?_eq_some_iff.mp hlast
    have hstrip : stripDotSlash (path ++ ".").toList = stripDotSlash path.toList ++ ['.'] := by
      rw [String.toList_append]
      exact stripDotSlash_append hhead
    obtain ⟨⟨hpath, hnul, habs⟩, hne, hup, hp⟩ := normalizeRelativePath_eq_ok_iff.mp hok
    have hslash : (stripDotSlash path.toList).getLast? = some '/' := by
      rw [getLast_stripDotSlash hne, hlast]
    obtain ⟨v, hv⟩ := List.getLast?_eq_some_iff.mp hslash
    have hroot := pathRoot_append hne (m := stripDotSlash path.toList) (l := ['.']) (.inl (by simp))
    have hcomponents : pathComponents (stripDotSlash path.toList ++ ['.']) =
        pathComponents (stripDotSlash path.toList) := by
      have hdot : pathComponents ['.'] = pathComponents [] := by decide
      rw [hv, List.append_assoc, List.singleton_append, pathComponents_append,
        pathComponents_append, hdot]
    rw [hok, normalizeRelativePath_eq_ok_iff, hstrip, asPosix, hroot, hcomponents, ← asPosix]
    simp_all
  · exact ⟨path, hentry path hlast rfl⟩

theorem staysInside_iff : StaysInside path ↔ ¬ hidesRoot path := by
  constructor
  · intro h hhides
    obtain ⟨hhead, hok⟩ := hidesRoot_iff.mp hhides
    obtain ⟨entry, hentry⟩ := exists_pathAllowed hhides
    obtain ⟨root, hroot, hnot⟩ := exists_not_inside (isAbsolute_asPosix hhead)
    exact hnot (h [entry] root _ hroot hentry hok)
  · intro h allowlist root p hroot _ hok
    have hrel := (normalizesRelative_iff.mpr h p hok).1
    rw [inside, pathParts_joinPath hroot hrel]
    simp

end Containment

/-- Paths are contained unless they hide a root. -/
theorem contained_iff (path : Path) :
    (NormalizesRelative path ↔ ¬ hidesRoot path) ∧ (StaysInside path ↔ ¬ hidesRoot path) :=
  ⟨normalizesRelative_iff, staysInside_iff⟩

theorem not_always_contained : normalizeRelativePath ".//etc/passwd" = .ok "/etc/passwd" ∧
    pathAllowed ".//etc/passwd" [".//etc/"] ∧
    ¬ inside "/srv/workspace" (joinPath "/srv/workspace" "/etc/passwd") ∧
    ¬ (∀ path, NormalizesRelative path ∧ StaysInside path) := by
  have hok : normalizeRelativePath ".//etc/passwd" = .ok "/etc/passwd" := by decide
  refine ⟨hok, by decide, by decide, ?_⟩
  intro h
  exact ((h ".//etc/passwd").1 _ hok).1 (by decide)

end OrchKit
