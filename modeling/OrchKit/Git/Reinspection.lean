import OrchKit.Git.Transport

/-! # Inspecting a canonical URL

A URL that was found ready is inspected again under its canonical form. For a network URL that is
the URL itself, trimmed. For a path it is the resolved path, which the second inspection trims
before it looks at it: a name that ends in white space does not survive.
-/

namespace OrchKit

/-- Resolution gives an absolute path, written out, that resolves to itself. -/
structure Machine.Resolves (machine : Machine) : Prop where
  absolute : ∀ {path target : Path}, machine.resolve path = .ok target → isAbsolute target
  written : ∀ {path target : Path}, machine.resolve path = .ok target →
    writtenPath target.toList = target
  idempotent : ∀ {path target : Path}, machine.resolve path = .ok target →
    machine.resolve target = .ok target

/-- What is ready is ready under its canonical URL, of the same kind, and under the same one. -/
def Reinspects (machine : Machine) (workspace : Path) (rawUrl : String) : Prop :=
  ∀ kind canonical original,
    machine.inspectTransportUrl workspace (some rawUrl) = .ok (.ready kind canonical original) →
    ∃ original', machine.inspectTransportUrl workspace (some canonical) =
      .ok (.ready kind canonical original')

def controlFree (value : String) : Bool :=
  !(['\x00', '\n', '\r'].any (value.toList.contains ·))

/-- Trimmed, a path has no break inside, and it is still the same path or a link to it. -/
def SurvivesTrimming (machine : Machine) (target : Path) : Prop :=
  controlFree (strip target) ∧ (strip target = target ∨
    machine.resolve (writtenPath (strip target).toList) = .ok target)

/-- A URL that leads to a path leads to one that survives trimming. -/
def LeadsToTrimmed (machine : Machine) (workspace : Path) (rawUrl : String) : Prop :=
  ∀ path target, strip rawUrl ≠ "" →
    machine.transportRoute workspace (strip rawUrl).toList = .ok (.path path) →
    machine.resolve path = .ok target → SurvivesTrimming machine target

section Reinspection

variable {machine : Machine} {workspace target : Path} {rawUrl value : String}
  {l root joined : List Char}

theorem not_controlFree_iff : ¬ controlFree value ↔
    '\x00' ∈ value.toList ∨ '\n' ∈ value.toList ∨ '\r' ∈ value.toList := by
  simp [controlFree, imp_iff_not_or]

/-- A written path has no empty component. -/
theorem not_doubled_of_written (h : asPosix l = l) : ¬ "://".toList <:+: l := by
  have hcolon : ':' ∉ pathRoot l := by
    rw [pathRoot.eq_def]
    split <;> simp
  rintro ⟨before, after, hl⟩
  have hl' : pathRoot l ++ ['/'].intercalate (pathComponents l) =
      before ++ ':' :: '/' :: '/' :: after := by
    rw [asPosix] at h
    split at h
    next =>
      have := congrArg List.length hl
      simp [← h] at this
      omega
    next hposix => rw [h, ← hl]; simp
  have hjoin : ∃ u, ['/'].intercalate (pathComponents l) = u ++ ':' :: '/' :: '/' :: after := by
    rcases List.append_eq_append_iff.mp hl' with ⟨u, hbefore, hjoin⟩ | ⟨u, hroot, hrest⟩
    · exact ⟨u, hjoin⟩
    · rcases u with _ | ⟨c, u⟩
      · exact ⟨[], hrest.symm⟩
      · obtain ⟨rfl, -⟩ := List.cons.inj hrest
        simp [hroot] at hcolon
  obtain ⟨u, hjoin⟩ := hjoin
  have hne : pathComponents l ≠ [] := by
    intro hnil
    simp [hnil] at hjoin
  have hsplit := List.splitOn_intercalate '/' (fun c hc => (mem_pathComponents hc).1) hne
  have hempty : [] ∈ pathComponents l := by
    rw [← hsplit, hjoin,
      show u ++ ':' :: '/' :: '/' :: after = (u ++ [':']) ++ '/' :: '/' :: after by simp,
      List.splitOn_append_cons_self, List.splitOn_cons_eq_if_modifyHead]
    simp
  exact (mem_pathComponents hempty).2.1 rfl

theorem not_prefix_of_head {c : Char} {m : List Char} (h : l.head? = some c) (hne : m ≠ [])
    (hm : m.head? ≠ some c) : ¬ m <+: l := by
  rintro ⟨t, rfl⟩
  rw [List.head?_append_of_ne_nil _ hne] at h
  exact hm h

theorem isAbsolute_iff_head : isAbsolute target ↔ target.toList.head? = some '/' := by
  simp [isAbsolute]

theorem head_strip (h : isAbsolute target) : (strip target).toList.head? = some '/' := by
  rw [isAbsolute_iff_head] at h
  have hspace : target.toList.head?.all (!isSpace ·) := by
    rw [h]
    decide
  rw [strip_toList, dropWhile_of_head hspace, head_rdropWhile hspace, h]

theorem expanduser_absolute (h : l.head? = some '/') :
    machine.expanduser l = .ok (writtenPath l) := by
  have hroot : pathRoot l ≠ [] := fun hnil => pathRoot_eq_nil_iff.mp hnil h
  rw [Machine.expanduser]
  split
  next hnil _ => exact absurd hnil hroot
  next => rfl

theorem localTarget_absolute (h : l.head? = some '/') :
    machine.localTarget workspace l = .ok (writtenPath l) := by
  rw [Machine.localTarget, expanduser_absolute h, Except.ok_bind, writtenPath,
    if_pos (isAbsolute_asPosix h)]
  rfl

theorem not_scpLike_absolute (h : l.head? = some '/') : ¬ scpLike.fullmatch l := by
  rw [scpLike_iff]
  rintro ⟨name, path, rfl, hne, hname, -⟩
  obtain ⟨c, name, rfl⟩ := List.exists_cons_of_ne_nil hne
  have := hname c List.mem_cons_self
  simp_all

theorem not_schemeLike_absolute (h : l.head? = some '/') : ¬ schemeLike.prefixMatch l := by
  rw [Regex.prefixMatch_iff, schemeLike]
  rintro ⟨x, hx, hl⟩
  obtain ⟨-, ⟨c, hc, rfl⟩, rest, -, rfl⟩ := Regex.mem_lang_seq.mp hx
  refine not_prefix_of_head h (by simp) ?_ hl
  rintro ⟨⟩
  exact absurd hc (by decide)

/-- A resolved path is taken for a path, whatever trimming it leaves. -/
theorem transportRoute_target (habs : isAbsolute target)
    (hwritten : writtenPath target.toList = target) :
    machine.transportRoute workspace (strip target).toList =
      if controlFree (strip target) then .ok (.path (writtenPath (strip target).toList))
      else .ok (.blocked "remote_url_control_character" none) := by
  have hhead := head_strip habs
  have hposix : asPosix target.toList = target.toList := by
    simpa [writtenPath] using congrArg String.toList hwritten
  rw [Machine.transportRoute]
  have hpre : ∀ m : List Char, m ≠ [] → m.head? ≠ some '/' → ¬ m <+: (strip target).toList :=
    fun m => not_prefix_of_head hhead
  by_cases hfree : controlFree (strip target)
  · have hbreak : ¬ ('\x00' ∈ (strip target).toList ∨ '\n' ∈ (strip target).toList ∨
        '\r' ∈ (strip target).toList) := fun h => not_controlFree_iff.mpr h hfree
    have hdoubled : ¬ "://".toList <:+: (strip target).toList := fun hin =>
      not_doubled_of_written hposix (hin.trans strip_infix)
    have hfile := hpre "file://".toList (by decide) (by decide)
    have hplain := not_or.mpr ⟨hpre "ext::".toList (by decide) (by decide),
      hpre "git::".toList (by decide) (by decide)⟩
    rw [if_pos hfree, if_neg hbreak, if_neg hfile, if_neg hdoubled, if_neg hplain,
      if_neg (not_scpLike_absolute hhead), if_neg (not_schemeLike_absolute hhead),
      localTarget_absolute hhead]
    rfl
  · rw [if_neg hfree, if_pos (not_controlFree_iff.mp hfree)]
    rfl

theorem reinspects_network {kind : TransportKind}
    (h : machine.transportRoute workspace (strip rawUrl).toList = .ok (.network kind))
    (hne : strip rawUrl ≠ "") : machine.inspectTransportUrl workspace (some (strip rawUrl)) =
      .ok (.ready kind (strip rawUrl) (strip rawUrl)) := by
  rw [inspect_eq_ready_iff, strip_strip]
  exact ⟨hne, rfl, .inl ⟨h, rfl⟩⟩

/-- A resolved path is found ready again, under the same canonical URL, if it survives trimming. -/
theorem inspect_target_iff (hm : machine.Resolves) {path : Path}
    (h : machine.resolve path = .ok target) :
    (∃ original, machine.inspectTransportUrl workspace (some target) =
      .ok (.ready .file target original)) ↔ SurvivesTrimming machine target := by
  have hroute : machine.transportRoute workspace (strip target).toList =
      if controlFree (strip target) then .ok (.path (writtenPath (strip target).toList))
      else .ok (.blocked "remote_url_control_character" none) :=
    transportRoute_target (hm.absolute h) (hm.written h)
  have hne : strip target ≠ "" := by
    intro hnil
    have := head_strip (hm.absolute h)
    simp [hnil] at this
  simp only [inspect_eq_ready_iff, hroute]
  constructor
  · rintro ⟨_, -, -, ⟨hnetwork, -⟩ | ⟨-, again, hagain, hresolve⟩⟩
    · split at hnetwork <;> simp at hnetwork
    · split at hagain
      next hfree =>
        rw [Except.ok.injEq, TransportRoute.path.injEq] at hagain
        exact ⟨hfree, .inr (hagain ▸ hresolve)⟩
      next => simp at hagain
  · rintro ⟨hfree, hlink⟩
    refine ⟨_, hne, rfl, .inr ⟨trivial, _, if_pos hfree, ?_⟩⟩
    rcases hlink with heq | hlink
    · rw [heq, hm.written h]
      exact hm.idempotent h
    · exact hlink

end Reinspection

/-! ### Without symbolic links -/

section Lexical

variable {parts : List (List Char)} {path : Path}

theorem lexicalPath_components (h : ∀ c ∈ parts, '/' ∉ c ∧ c ≠ [] ∧ c ≠ ['.']) :
    pathComponents ('/' :: ['/'].intercalate parts) = parts := by
  by_cases hnil : parts = []
  · subst hnil
    decide
  · rw [pathComponents, List.splitOn_cons_eq_if_modifyHead, if_pos (by simp),
      List.splitOn_intercalate '/' (fun c hc => (h c hc).1) hnil, List.filter_cons_of_neg (by simp),
      List.filter_eq_self]
    intro c hc
    simp [h c hc]

theorem mem_foldl_climb {rest : List (List Char)} {c : List Char}
    (h : c ∈ rest.foldl climb parts) : c ∈ parts ∨ c ∈ rest ∧ c ≠ ['.', '.'] := by
  induction rest generalizing parts with
  | nil => exact .inl h
  | cons d rest ih =>
    rcases ih h with hc | ⟨hc, hup⟩
    · rw [climb] at hc
      split at hc
      next => exact .inl (List.mem_of_mem_dropLast hc)
      next hd =>
        rcases List.mem_append.mp hc with hc | hc
        · exact .inl hc
        · obtain rfl := List.mem_singleton.mp hc
          exact .inr ⟨List.mem_cons_self, hd⟩
    · exact .inr ⟨List.mem_cons_of_mem d hc, hup⟩

theorem foldl_climb_eq {rest : List (List Char)} (h : ['.', '.'] ∉ rest) :
    rest.foldl climb parts = parts ++ rest := by
  induction rest generalizing parts with
  | nil => simp
  | cons d rest ih =>
    rw [List.mem_cons, not_or] at h
    rw [List.foldl_cons, climb, if_neg (Ne.symm h.1), ih h.2]
    simp

theorem lexicalMachine_resolves : lexicalMachine.Resolves := by
  have hparts : ∀ value : List Char, ∀ c ∈ (pathComponents value).foldl climb [],
      ('/' ∉ c ∧ c ≠ [] ∧ c ≠ ['.']) ∧ c ≠ ['.', '.'] := by
    intro value c hc
    rcases mem_foldl_climb hc with hc | ⟨hc, hup⟩
    · cases hc
    · exact ⟨mem_pathComponents hc, hup⟩
  have hcomponents : ∀ value : List Char, pathComponents (lexicalPath value) =
      (pathComponents value).foldl climb [] := fun value =>
    lexicalPath_components fun c hc => (hparts value c hc).1
  have hroot : ∀ value : List Char, pathRoot (lexicalPath value) = ['/'] := by
    intro value
    have hhead : (['/'].intercalate ((pathComponents value).foldl climb [])).head? ≠ some '/' := by
      by_cases hnil : (pathComponents value).foldl climb [] = []
      · simp [hnil]
      · apply head_ne_of_components
        rw [List.splitOn_intercalate '/' (fun c hc => (hparts value c hc).1.1) hnil]
        exact fun c hc => (hparts value c hc).1.2.1
    exact pathRoot_append (m := ['/']) (by simp) (.inl hhead)
  constructor
  · rintro path target ⟨⟩
    simp [isAbsolute, lexicalPath]
  · rintro path target ⟨⟩
    rw [writtenPath, String.toList_ofList, asPosix, hroot, hcomponents]
    rfl
  · rintro path target ⟨⟩
    have hup : ['.', '.'] ∉ (pathComponents path.toList).foldl climb [] := fun hmem =>
      (hparts path.toList _ hmem).2 rfl
    have hagain : lexicalPath (lexicalPath path.toList) = lexicalPath path.toList := by
      rw [lexicalPath, hcomponents, foldl_climb_eq hup]
      rfl
    simp [lexicalMachine, hagain]

end Lexical

/-! ### Which URLs can be inspected again -/

/-- A ready URL is ready under its canonical form exactly when the path it leads to, if it leads to
one, survives trimming. -/
theorem reinspects_iff {machine : Machine} (h : machine.Resolves) (workspace : Path)
    (rawUrl : String) :
    Reinspects machine workspace rawUrl ↔ LeadsToTrimmed machine workspace rawUrl := by
  constructor
  · intro hready path target hne hroute hresolve
    refine (inspect_target_iff h hresolve).mp (hready .file target (strip rawUrl) ?_)
    exact inspect_eq_ready_iff.mpr ⟨hne, rfl, .inr ⟨rfl, path, hroute, hresolve⟩⟩
  · intro htrimmed kind canonical original hready
    obtain ⟨hne, -, ⟨hroute, rfl⟩ | ⟨rfl, path, hroute, hresolve⟩⟩ := inspect_eq_ready_iff.mp hready
    · exact ⟨_, reinspects_network hroute hne⟩
    · exact (inspect_target_iff h hresolve).mpr (htrimmed path canonical hne hroute hresolve)

theorem reinspects_decoded : Reinspects lexicalMachine "/srv/workspace" "file:///srv/repo%7E" := by
  have hroute : lexicalMachine.transportRoute "/srv/workspace"
      (strip "file:///srv/repo%7E").toList = .ok (.path "/srv/repo~") := by
    decide
  have hresolve : lexicalMachine.resolve "/srv/repo~" = .ok "/srv/repo~" := by decide
  refine (reinspects_iff lexicalMachine_resolves _ _).mpr fun path target _ hpath htarget => ?_
  rw [hroute, Except.ok.injEq, TransportRoute.path.injEq] at hpath
  rw [← hpath, hresolve, Except.ok.injEq] at htarget
  subst htarget
  exact ⟨by decide, .inl (by decide)⟩

theorem not_always_reinspects :
    lexicalMachine.inspectTransportUrl "/srv/workspace" (some "file:///srv/repo%20") =
      .ok (.ready .file "/srv/repo " "file:///srv/repo%20") ∧
    lexicalMachine.inspectTransportUrl "/srv/workspace" (some "/srv/repo ") =
      .ok (.ready .file "/srv/repo" "/srv/repo") ∧
    ¬ Reinspects lexicalMachine "/srv/workspace" "file:///srv/repo%20" := by
  have hfirst : lexicalMachine.inspectTransportUrl "/srv/workspace" (some "file:///srv/repo%20") =
      .ok (.ready .file "/srv/repo " "file:///srv/repo%20") := by
    decide
  have hsecond : lexicalMachine.inspectTransportUrl "/srv/workspace" (some "/srv/repo ") =
      .ok (.ready .file "/srv/repo" "/srv/repo") := by
    decide
  refine ⟨hfirst, hsecond, fun h => ?_⟩
  obtain ⟨original, hready⟩ := h _ _ _ hfirst
  rw [hsecond] at hready
  simp at hready

end OrchKit
