import OrchKit.Data.Regex
import OrchKit.Data.Url
import OrchKit.Ledger.Outside
import OrchKit.Ledger.Queue
import OrchKit.Workspace.Containment

/-! # Transports

A remote is classified by its URL alone: a URL of the kind `file`, one of an allowed network scheme,
the short form `user@host:path` of SSH, and otherwise a path. The pattern of the short form is
written with a doubled backslash inside a class, which bars backslashes and the letter `s` from user
and host where white space was meant.
-/

namespace OrchKit

inductive TransportKind
  | file
  | https
  | ssh
deriving DecidableEq

/-- The policy that inspecting a URL arrives at. -/
inductive TransportPolicy
  | blocked (reason : String) (scheme : Option String)
  | ready (kind : TransportKind) (canonicalUrl originalUrl : String)
deriving DecidableEq

/-- What a machine makes of hosts, home directories and paths. -/
structure Machine where
  netlocRefusal : List Char → Option String
  gethomedir : List Char → Checked Path
  resolve : Path → Checked Path

/-- `Path(value)`, written out. -/
def writtenPath (value : List Char) : Path := String.ofList (asPosix value)

/-- `_SCP_LIKE` -/
def scpLike : Regex Char :=
  let user := Regex.plus (.one fun c => ! ['/', '@', ':', '\\', 's'].contains c)
  let host := Regex.plus (.one fun c => ! ['/', ':', '\\', 's'].contains c)
  .seq (.opt (.seq user (.one (· == '@'))))
    (.seq host (.seq (.one (· == ':')) (.plus (.one (· != '\n')))))

/-- `^[A-Za-z][A-Za-z0-9+.-]*:` -/
def schemeLike : Regex Char :=
  .seq (.one Url.isAlpha) (.seq (.star (.one Url.isSchemeChar)) (.one (· == ':')))

/-- Where a URL leads: a path is yet to be resolved. -/
inductive TransportRoute
  | blocked (reason : String) (scheme : Option String)
  | network (kind : TransportKind)
  | path (target : Path)
deriving DecidableEq

namespace Machine

variable (machine : Machine)

/-- `Path(value).expanduser()` -/
def expanduser (value : List Char) : Checked Path :=
  match pathRoot value, pathComponents value with
  | [], ('~' :: user) :: rest => do
    let home ← machine.gethomedir user
    return writtenPath (joinPath home (String.ofList (['/'].intercalate rest))).toList
  | _, _ => return writtenPath value

def urlsplit (value : List Char) : Checked Url.SplitUrl :=
  (Url.urlsplit machine.netlocRefusal value).mapError Exn.value

def localTarget (workspace : Path) (value : List Char) : Checked Path := do
  let target ← machine.expanduser value
  if isAbsolute target then
    return target
  else
    return joinPath (← machine.resolve workspace) target

/-- The cases of `inspect_transport_url` for a URL without surrounding white space, up to the
resolution that ends both cases of a path. -/
def transportRoute (workspace : Path) (value : List Char) : Checked TransportRoute :=
  if '\x00' ∈ value ∨ '\n' ∈ value ∨ '\r' ∈ value then
    return .blocked "remote_url_control_character" none
  else if "file://".toList <+: value then do
    let parsed ← machine.urlsplit value
    if parsed.netloc ∉ ["".toList, "localhost".toList] ∨ parsed.path = [] then
      return .blocked "remote_file_host_not_local" none
    else
      .path <$> machine.expanduser (Url.unquote parsed.path)
  else if "://".toList <:+: value then do
    let parsed ← machine.urlsplit value
    let scheme := String.ofList parsed.scheme
    if scheme ∉ ["https", "ssh"] then
      return .blocked (if scheme ∈ ["http", "git"] then "remote_transport_insecure"
        else "remote_transport_unsupported") (some scheme)
    else if parsed.hostname = [] then
      return .blocked "remote_host_missing" (some scheme)
    else if parsed.password ≠ none then
      return .blocked "remote_embedded_password" (some scheme)
    else if parsed.fragment ≠ [] then
      return .blocked "remote_url_fragment" (some scheme)
    else
      return .network (if scheme = "https" then .https else .ssh)
  else if "ext::".toList <+: value ∨ "git::".toList <+: value then
    return .blocked "remote_transport_unsupported" none
  else if scpLike.fullmatch value then
    if "-".toList <+: value then
      return .blocked "remote_url_invalid" none
    else
      return .network .ssh
  else if schemeLike.prefixMatch value then
    return .blocked "remote_transport_unsupported" none
  else
    .path <$> machine.localTarget workspace value

def routePolicy (value : String) : TransportRoute → Checked TransportPolicy
  | .blocked reason scheme => return .blocked reason scheme
  | .network kind => return .ready kind value value
  | .path target => return .ready .file (← machine.resolve target) value

/-- A URL that is not a string is none. -/
def inspectTransportUrl (workspace : Path) (rawUrl : Option String) : Checked TransportPolicy :=
  match rawUrl.map strip with
  | none => return .blocked "remote_url_missing" none
  | some value =>
    if value = "" then
      return .blocked "remote_url_missing" none
    else
      machine.transportRoute workspace value.toList >>= machine.routePolicy value

end Machine

/-! ### A machine without symbolic links -/

def climb (parts : List (List Char)) (part : List Char) : List (List Char) :=
  if part = ['.', '.'] then parts.dropLast else parts ++ [part]

def lexicalPath (value : List Char) : List Char :=
  '/' :: ['/'].intercalate ((pathComponents value).foldl climb [])

/-- Relative paths are below the root of the machine, and nobody has a home. -/
def lexicalMachine : Machine where
  netlocRefusal _ := none
  gethomedir _ := .error (.other "RuntimeError" "Could not determine home directory.")
  resolve path := .ok (String.ofList (lexicalPath path.toList))

/-! ### Surrounding white space -/

section Strip

variable {l : List Char} {s : String}

theorem strip_toList : (strip s).toList = (s.toList.dropWhile isSpace).rdropWhile isSpace := by
  rw [strip, String.toList_ofList]

theorem strip_infix : (strip s).toList <:+: s.toList := by
  rw [strip_toList]
  exact (List.rdropWhile_prefix _ _).isInfix.trans (List.dropWhile_suffix _).isInfix

theorem head_rdropWhile (h : l.head?.all (!isSpace ·)) :
    (l.rdropWhile isSpace).head? = l.head? := by
  rcases l with _ | ⟨a, l⟩
  · rfl
  have hne : (a :: l).rdropWhile isSpace ≠ [] := by
    intro hnil
    have := List.rdropWhile_eq_nil_iff.mp hnil a List.mem_cons_self
    simp_all
  obtain ⟨t, ht⟩ := List.rdropWhile_prefix isSpace (a :: l)
  calc
    ((a :: l).rdropWhile isSpace).head? = ((a :: l).rdropWhile isSpace ++ t).head? := by
      rw [List.head?_append_of_ne_nil _ hne]
    _ = (a :: l).head? := by rw [ht]

theorem dropWhile_of_head (h : l.head?.all (!isSpace ·)) : l.dropWhile isSpace = l := by
  rcases l with _ | ⟨a, l⟩
  · rfl
  · simp_all

theorem strip_strip : strip (strip s) = strip s := by
  have hhead : (s.toList.dropWhile isSpace).head?.all (!isSpace ·) := by
    have := List.head?_dropWhile_not isSpace s.toList
    rcases hl : (s.toList.dropWhile isSpace).head? with _ | a <;> simp_all
  have hkept : (strip s).toList.head?.all (!isSpace ·) := by
    rwa [strip_toList, head_rdropWhile hhead]
  rw [strip.eq_1 (strip s), dropWhile_of_head hkept, strip_toList, List.rdropWhile_idempotent,
    ← strip_toList, String.ofList_toList]

end Strip

/-! ### What is ready -/

section Ready

variable {machine : Machine} {workspace : Path} {raw value canonical original : String}
  {kind : TransportKind} {route : TransportRoute}

theorem routePolicy_eq_ready_iff :
    machine.routePolicy value route = .ok (.ready kind canonical original) ↔ original = value ∧
      ((route = .network kind ∧ canonical = value) ∨
        (kind = .file ∧ ∃ target, route = .path target ∧
          machine.resolve target = .ok canonical)) := by
  cases route with
  | blocked reason scheme => simp [Machine.routePolicy, pure, Except.pure]
  | network k =>
    simp only [Machine.routePolicy, pure, Except.pure, Except.ok.injEq, TransportPolicy.ready.injEq,
      TransportRoute.network.injEq, reduceCtorEq, false_and, exists_false, and_false, or_false]
    tauto
  | path target =>
    simp only [Machine.routePolicy, Except.bind_eq_ok_iff, Except.pure_eq_ok_iff,
      TransportPolicy.ready.injEq, TransportRoute.path.injEq, reduceCtorEq, false_and, false_or]
    constructor
    · rintro ⟨_, hresolve, rfl, rfl, rfl⟩
      exact ⟨rfl, rfl, target, rfl, hresolve⟩
    · rintro ⟨rfl, rfl, _, rfl, hresolve⟩
      exact ⟨canonical, hresolve, rfl, rfl, rfl⟩

theorem inspect_eq_ready_iff :
    machine.inspectTransportUrl workspace (some raw) = .ok (.ready kind canonical original) ↔
      strip raw ≠ "" ∧ original = strip raw ∧
      ((machine.transportRoute workspace (strip raw).toList = .ok (.network kind) ∧
          canonical = strip raw) ∨
        (kind = .file ∧ ∃ target,
          machine.transportRoute workspace (strip raw).toList = .ok (.path target) ∧
            machine.resolve target = .ok canonical)) := by
  rw [Machine.inspectTransportUrl, Option.map_some]
  by_cases hblank : strip raw = ""
  · simp [hblank, Except.pure_eq_ok_iff]
  · simp only [if_neg hblank, Except.bind_eq_ok_iff, routePolicy_eq_ready_iff]
    constructor
    · rintro ⟨_, hroute, rfl, ⟨rfl, rfl⟩ | ⟨rfl, target, rfl, hresolve⟩⟩
      · exact ⟨hblank, rfl, .inl ⟨hroute, rfl⟩⟩
      · exact ⟨hblank, rfl, .inr ⟨rfl, target, hroute, hresolve⟩⟩
    · rintro ⟨-, rfl, ⟨hroute, rfl⟩ | ⟨rfl, target, hroute, hresolve⟩⟩
      · exact ⟨_, hroute, rfl, .inl ⟨rfl, rfl⟩⟩
      · exact ⟨_, hroute, rfl, .inr ⟨rfl, target, rfl, hresolve⟩⟩

end Ready

/-! ### The short form -/

def ScpName (name : List Char) : Prop :=
  name ≠ [] ∧ ∀ c ∈ name, c ∉ ['/', ':', '@'] ∧ ¬ isSpace c

instance (name : List Char) : Decidable (ScpName name) :=
  @instDecidableAnd _ _ _ (List.decidableBAll _ name)

/-- `[user@]host:path`, and nothing that has another meaning. -/
structure ScpForm (value : String) : Prop where
  form : ∃ user host path, (user = [] ∨ ∃ name, ScpName name ∧ user = name ++ ['@']) ∧
    ScpName host ∧ path ≠ [] ∧ value.toList = user ++ host ++ ':' :: path
  schemeless : ¬ "://".toList <:+: value.toList
  printable : '\x00' ∉ value.toList ∧ '\n' ∉ value.toList ∧ '\r' ∉ value.toList
  trimmed : strip value = value
  plain : ¬ "-".toList <+: value.toList ∧ ¬ "ext::".toList <+: value.toList ∧
    ¬ "git::".toList <+: value.toList

/-- The short form is taken for SSH, and a string that is taken for a path is not of that form. -/
structure ClassifiesScp (machine : Machine) (workspace : Path) (value : String) : Prop where
  ssh : ScpForm value →
    machine.inspectTransportUrl workspace (some value) = .ok (.ready .ssh value value)
  file : ∀ canonical original,
    machine.inspectTransportUrl workspace (some value) = .ok (.ready .file canonical original) →
    "file://".toList <+: (strip value).toList ∨ ¬ ScpForm value

/-- The user or the host has a letter that the pattern bars by mistake. -/
def BarredLetter (value : String) : Prop :=
  ∃ c ∈ value.toList.takeWhile (· != ':'), c = 's' ∨ c = '\\'

section Scp

variable {machine : Machine} {workspace : Path} {value : String} {l : List Char}

theorem scpLike_iff : scpLike.fullmatch l ↔ ∃ name path, l = name ++ ':' :: path ∧ name ≠ [] ∧
    (∀ c ∈ name, c ∉ ['/', ':', '\\', 's']) ∧ path ≠ [] ∧ '\n' ∉ path := by
  have hpath : ∀ path : List Char, path ∈ (Regex.plus (.one (· != '\n'))).lang ↔
      path ≠ [] ∧ '\n' ∉ path := by
    intro path
    rw [Regex.mem_lang_plus_one]
    refine and_congr_right fun _ => ⟨fun h hmem => ?_, fun h a ha => ?_⟩
    · simpa using h _ hmem
    · simp only [bne_iff_ne, ne_eq]
      rintro rfl
      exact h ha
  rw [Regex.fullmatch_iff, scpLike]
  constructor
  · intro h
    obtain ⟨user, huser, rest, hrest, rfl⟩ := Regex.mem_lang_seq.mp h
    obtain ⟨host, hhost, after, hafter, rfl⟩ := Regex.mem_lang_seq.mp hrest
    obtain ⟨-, ⟨colon, hcolon, rfl⟩, path, hmem, rfl⟩ := Regex.mem_lang_seq.mp hafter
    obtain rfl : colon = ':' := by simpa using hcolon
    obtain ⟨hne, hhost⟩ := Regex.mem_lang_plus_one.mp hhost
    refine ⟨user ++ host, path, by simp, by simp [hne], ?_, (hpath path).mp hmem⟩
    intro c hc
    rcases List.mem_append.mp hc with hc | hc
    · rcases Regex.mem_lang_opt.mp huser with huser | rfl
      · obtain ⟨name, hname, -, ⟨sign, hsign, rfl⟩, rfl⟩ := Regex.mem_lang_seq.mp huser
        rcases List.mem_append.mp hc with hc | hc
        · have := (Regex.mem_lang_plus_one.mp hname).2 c hc
          simp_all
        · simp_all
      · cases hc
    · have := hhost c hc
      simp_all
  · rintro ⟨name, path, rfl, hne, hname, hmem⟩
    refine Regex.mem_lang_seq.mpr ⟨[], Regex.mem_lang_opt.mpr (.inr rfl), _, ?_, List.nil_append _⟩
    refine Regex.mem_lang_seq.mpr ⟨name, Regex.mem_lang_plus_one.mpr ⟨hne, ?_⟩, _, ?_, rfl⟩
    · intro c hc
      simpa using hname c hc
    · exact Regex.mem_lang_seq.mpr ⟨_, ⟨':', by simp, rfl⟩, path, (hpath path).mpr hmem, rfl⟩

theorem takeWhile_of_notMem {name path : List Char} (h : ':' ∉ name) :
    (name ++ ':' :: path).takeWhile (· != ':') = name := by
  rw [List.takeWhile_append_of_pos, List.takeWhile_cons_of_neg (by simp), List.append_nil]
  intro c hc
  simp only [bne_iff_ne, ne_eq]
  rintro rfl
  exact h hc

/-- The pattern finds the short form unless it bars a letter of it. -/
theorem ScpForm.fullmatch_iff (h : ScpForm value) :
    scpLike.fullmatch value.toList ↔ ¬ BarredLetter value := by
  obtain ⟨user, host, path, huser, hhost, hpath, hvalue⟩ := h.form
  have hletters : ∀ c ∈ user ++ host, c ≠ '/' ∧ c ≠ ':' := by
    intro c hc
    rcases List.mem_append.mp hc with hc | hc
    · rcases huser with rfl | ⟨name, hname, rfl⟩
      · cases hc
      · rcases List.mem_append.mp hc with hc | hc
        · have := (hname.2 c hc).1
          simp_all
        · simp_all
    · have := (hhost.2 c hc).1
      simp_all
  have hcolon : ':' ∉ user ++ host := fun hc => (hletters ':' hc).2 rfl
  have htake : value.toList.takeWhile (· != ':') = user ++ host := by
    rw [hvalue, takeWhile_of_notMem hcolon]
  rw [scpLike_iff, BarredLetter, htake]
  constructor
  · rintro ⟨name, rest, heq, -, hname, -⟩ ⟨c, hc, hbarred⟩
    have hcolon' : ':' ∉ name := fun hc => by simpa using hname ':' hc
    rw [heq, takeWhile_of_notMem hcolon'] at htake
    have := hname c (htake ▸ hc)
    simp_all
  · intro hbarred
    have hline : '\n' ∉ path := by
      intro hmem
      apply h.printable.2.1
      simp [hvalue, hmem]
    refine ⟨user ++ host, path, hvalue, by simp [hhost.1], ?_, hpath, hline⟩
    intro c hc
    have hslash := hletters c hc
    have hc' : c ≠ 's' ∧ c ≠ '\\' := by
      constructor
      · exact fun he => hbarred ⟨c, hc, .inl he⟩
      · exact fun he => hbarred ⟨c, hc, .inr he⟩
    simp [hslash, hc']

theorem ScpForm.ne_empty (h : ScpForm value) : value ≠ "" := by
  rintro rfl
  obtain ⟨user, host, path, -, -, -, hvalue⟩ := h.form
  simp at hvalue

theorem ScpForm.transportRoute_eq (h : ScpForm value) :
    machine.transportRoute workspace value.toList =
      if scpLike.fullmatch value.toList then .ok (.network .ssh)
      else if schemeLike.prefixMatch value.toList then
        .ok (.blocked "remote_transport_unsupported" none)
      else .path <$> machine.localTarget workspace value.toList := by
  have hfile : ¬ "file://".toList <+: value.toList := by
    intro hpre
    have hin : "://".toList <:+: "file://".toList := by decide
    exact h.schemeless (hin.trans hpre.isInfix)
  obtain ⟨hnul, hline, hreturn⟩ := h.printable
  obtain ⟨hdash, hplain⟩ := h.plain
  rw [Machine.transportRoute, if_neg (not_or.mpr ⟨hnul, not_or.mpr ⟨hline, hreturn⟩⟩),
    if_neg hfile, if_neg h.schemeless, if_neg (not_or.mpr hplain), if_neg hdash]
  rfl

theorem ScpForm.inspect_eq_iff (h : ScpForm value) :
    machine.inspectTransportUrl workspace (some value) = .ok (.ready .ssh value value) ↔
      scpLike.fullmatch value.toList := by
  rw [inspect_eq_ready_iff, h.trimmed, h.transportRoute_eq]
  constructor
  · rintro ⟨-, -, ⟨hroute, -⟩ | ⟨hkind, -⟩⟩
    · by_contra hmatch
      rw [if_neg hmatch] at hroute
      split at hroute
      next => cases hroute
      next => rcases hlocal : machine.localTarget workspace value.toList <;> simp [hlocal] at hroute
    · cases hkind
  · intro hmatch
    rw [if_pos hmatch]
    exact ⟨h.ne_empty, rfl, .inl ⟨rfl, rfl⟩⟩

end Scp

/-- Where a user or a host has no letter that the pattern bars, the short form is classified. -/
theorem classifiesScp_iff (machine : Machine) (workspace : Path) (value : String) :
    ClassifiesScp machine workspace value ↔ ¬ (ScpForm value ∧ BarredLetter value) := by
  constructor
  · rintro ⟨hssh, -⟩ ⟨h, hbarred⟩
    exact h.fullmatch_iff.mp (h.inspect_eq_iff.mp (hssh h)) hbarred
  · intro hfree
    have hready : ScpForm value →
        machine.inspectTransportUrl workspace (some value) = .ok (.ready .ssh value value) := by
      intro h
      exact h.inspect_eq_iff.mpr (h.fullmatch_iff.mpr fun hbarred => hfree ⟨h, hbarred⟩)
    constructor
    · exact hready
    · intro canonical original hfile
      refine .inr fun h => ?_
      rw [hready h] at hfile
      cases hfile

theorem not_always_classifiesScp :
    lexicalMachine.inspectTransportUrl "/srv/workspace" (some "git@gits.example.com:repo.git") =
      .ok (.ready .file "/srv/workspace/git@gits.example.com:repo.git"
        "git@gits.example.com:repo.git") ∧
    ¬ ClassifiesScp lexicalMachine "/srv/workspace" "git@gits.example.com:repo.git" := by
  have hfile : lexicalMachine.inspectTransportUrl "/srv/workspace"
      (some "git@gits.example.com:repo.git") =
      .ok (.ready .file "/srv/workspace/git@gits.example.com:repo.git"
        "git@gits.example.com:repo.git") := by
    decide
  have hform : ScpForm "git@gits.example.com:repo.git" := by
    constructor
    · refine ⟨"git@".toList, "gits.example.com".toList, "repo.git".toList, .inr ?_, ?_⟩
      · exact ⟨"git".toList, by decide, by decide⟩
      · decide
    all_goals decide
  refine ⟨hfile, fun h => ?_⟩
  have hready := h.ssh hform
  rw [hfile] at hready
  cases hready

end OrchKit
