import OrchKit.Retention.Prune
import OrchKit.Retention.Tree

/-! # Deleting a tree by its record

A tree is deleted entry by entry, the deepest first, each only while it is what the record says.
Others may change the tree between two entries, and the operating system may refuse or fail at
any of them; what is reported is what has been taken away.
-/

namespace OrchKit.Retention

/-! ### The calls that take something away -/

structure Removal where
  path : List String
  entry : Entry

/-- The tree under a name, with a history of what has been taken away from it. -/
structure TreeSite where
  root : Option Entry
  removals : List Removal := []

namespace TreeSite

def at? (site : TreeSite) (path : List String) : Option Entry := site.root.bind fun e => e.at? path

def has (site : TreeSite) (path : List String) : Bool := (site.at? path).isSome

def disturb (f : Entry → Entry) (site : TreeSite) : TreeSite :=
  { site with root := site.root.map f }

def take (site : TreeSite) (path : List String) (entry : Entry) : TreeSite where
  root := if path = [] then none else site.root.map fun e => e.remove path
  removals := site.removals ++ [⟨path, entry⟩]

/-- `os.unlink`. -/
def unlink (site : TreeSite) (path : List String) (refused : Bool) : Option TreeSite :=
  match site.at? path with
  | none | some (.directory _ _) => none
  | some entry => if refused then none else some (site.take path entry)

/-- `os.rmdir`. -/
def rmdir (site : TreeSite) (path : List String) (refused : Bool) : Option TreeSite :=
  match site.at? path with
  | some (.directory stat []) => if refused then none else
      some (site.take path (.directory stat []))
  | _ => none

end TreeSite

/-! ### The deletion -/

/-- What others do to the tree, meanwhile; they do not put another directory in its place. -/
structure Interference where
  step : ℕ → Entry → Entry
  object : ∀ n e, (step n e).object = e.object

/-- An exception that is not caught, or a refusal to take an entry away. -/
inductive TreeFault
  | raises
  | refused
deriving DecidableEq

inductive TreeStatus
  | deleted
  | changed
  | failed
deriving DecidableEq

structure TreeOutcome where
  status : TreeStatus
  reason : Option String := none
  relative : Option Path := none
  deletedBytes : ℕ
  deletedPaths : List Path
deriving DecidableEq

/-- An entry of the record that is to be taken away. -/
structure TreeEntry where
  relative : Path
  parts : List String
  stat : StatIdentity
  sha256 : Option Hash

/-- `Path(relative).parts`. -/
def treeParts (relative : Path) : List String := (pathParts relative).map String.ofList

/-- The entries of a record, but for the root. -/
def treeEntries : List (Path × StatIdentity × Option Hash) → Option (List TreeEntry)
  | [] => some []
  | (relative, stat, sha256) :: rest =>
    if relative = "." then treeEntries rest
    else
      let parts := treeParts relative
      if parts = [] ∨ isAbsolute relative ∨ parts.any (["", ".", ".."].contains ·) then none
      else (treeEntries rest).map (⟨relative, parts, stat, sha256⟩ :: ·)

/-- Deeper entries come first, and later paths among equals. -/
def deeper (a b : TreeEntry) : Prop :=
  b.parts.length < a.parts.length ∨ (a.parts.length = b.parts.length ∧ b.relative ≤ a.relative)

instance : DecidableRel deeper := fun a b => by unfold deeper; infer_instance

/-- The body of the loop over the entries: a status with a reason, or what is reported. -/
def deleteEntry (e : TreeEntry) (refused : Bool) (site : TreeSite) :
    Except (TreeStatus × String) (Path × ℕ × TreeSite) :=
  match site.at? e.parts.dropLast with
  | some (.directory _ _) =>
    if isRegular e.stat.mode then
      match site.at? e.parts with
      | some (.file f) =>
        if f.stat = e.stat ∧ some f.sha256 = e.sha256 then
          match site.unlink e.parts refused with
          | none => .error (.failed, "tree_file_delete_failed")
          | some site => .ok (e.relative, e.stat.size, site)
        else .error (.changed, "tree_file_changed")
      | _ => .error (.changed, "tree_file_changed")
    else if ¬ isDirectory e.stat.mode then .error (.changed, "tree_entry_type_invalid")
    else
      match site.at? e.parts with
      | some (.directory stat children) =>
        if stat.object ≠ e.stat.object then .error (.changed, "tree_directory_changed")
        else if children ≠ [] then .error (.changed, "tree_directory_not_empty")
        else
          match site.rmdir e.parts refused with
          | none => .error (.failed, "tree_directory_delete_failed")
          | some site => .ok (e.relative ++ "/", 0, site)
      | _ => .error (.changed, "tree_directory_changed")
  | _ => .error (.changed, "tree_parent_changed")

section Deletion

variable (world : Interference) (fault : ℕ → Option TreeFault)

/-- The loop over the entries, and the removal of the root; `n` counts the entries before. There
is no outcome when an exception is not caught. -/
def deleteEntries : ℕ → List TreeEntry → ℕ → List Path → TreeSite → Option TreeOutcome × TreeSite
  | n, [], bytes, paths, site =>
    let site := site.disturb (world.step n)
    if fault n = some .raises then (none, site)
    else
      match site.root with
      | some (.directory _ (_ :: _)) =>
        (some ⟨.changed, some "tree_root_not_empty", none, bytes, paths⟩, site)
      | _ =>
        match site.rmdir [] (fault n = some .refused) with
        | none => (some ⟨.failed, some "tree_root_delete_failed", none, bytes, paths⟩, site)
        | some site => (some ⟨.deleted, none, none, bytes, paths⟩, site)
  | n, e :: rest, bytes, paths, site =>
    let site := site.disturb (world.step n)
    if fault n = some .raises then (none, site)
    else
      match deleteEntry e (fault n = some .refused) site with
      | .error (status, reason) => (some ⟨status, some reason, some e.relative, bytes, paths⟩, site)
      | .ok (path, size, site) => deleteEntries (n + 1) rest (bytes + size) (paths ++ [path]) site

/-- `_delete_tree_from_record`. -/
def deleteTreeFromRecord (expected : ArtifactRecord) (site : TreeSite) :
    Option TreeOutcome × TreeSite :=
  match site.root with
  | some (.directory stat children) =>
    if (Entry.directory stat children).treeRecord ≠ some expected then
      (some ⟨.changed, some "tree_changed", none, 0, []⟩, site)
    else
      match treeEntries expected.identity with
      | none => (some ⟨.changed, some "tree_binding_invalid", none, 0, []⟩, site)
      | some entries => deleteEntries world fault 0 (entries.insertionSort deeper) 0 [] site
  | _ => (some ⟨.changed, some "tree_root_changed", none, 0, []⟩, site)

end Deletion

/-! ### One entry -/

variable {e : TreeEntry} {site site' site₀ : TreeSite} {refused : Bool} {path : Path} {size : ℕ}

/-- The entry is what was recorded: a file the same in every respect, a directory the same object.
-/
def SameIdentity (stat : StatIdentity) (sha256 : Option Hash) : Entry → Prop
  | .file f => f.stat = stat ∧ some f.sha256 = sha256
  | .directory stat' children => stat'.object = stat.object ∧ children = []
  | .other => False

def TreeEntry.Matches (e : TreeEntry) (r : Removal) : Prop :=
  r.path = e.parts ∧ SameIdentity e.stat e.sha256 r.entry

/-- How an entry is reported once it has been taken away. -/
def TreeEntry.reported (e : TreeEntry) : Path :=
  if isRegular e.stat.mode then e.relative else e.relative ++ "/"

def Removal.bytes (r : Removal) : ℕ :=
  match r.entry with
  | .file f => f.stat.size
  | _ => 0

theorem TreeSite.eq_take_of_unlink {f : FileNode} {path : List String}
    (hat : site.at? path = some (.file f)) (h : site.unlink path refused = some site') :
    site' = site.take path (.file f) := by
  rw [unlink, hat] at h
  simp only [Option.ite_none_left_eq_some, Option.some.injEq] at h
  exact h.2.symm

theorem TreeSite.eq_take_of_rmdir {path : List String} (h : site.rmdir path refused = some site') :
    ∃ stat, site.at? path = some (.directory stat []) ∧
      site' = site.take path (.directory stat []) := by
  rw [rmdir] at h
  split at h
  next stat hat =>
    simp only [Option.ite_none_left_eq_some, Option.some.injEq] at h
    exact ⟨stat, hat, h.2.symm⟩
  next => cases h

/-- What is taken away and reported is an entry that matches the record. -/
theorem deleteEntry_ok (h : deleteEntry e refused site = .ok (path, size, site')) :
    ∃ entry, site.at? e.parts = some entry ∧ entry.Leaf ∧ site' = site.take e.parts entry ∧
      e.Matches ⟨e.parts, entry⟩ ∧ path = e.reported ∧ size = Removal.bytes ⟨e.parts, entry⟩ := by
  simp only [deleteEntry] at h
  split at h
  next =>
    by_cases hregular : isRegular e.stat.mode
    · rw [if_pos hregular] at h
      split at h
      next f hat =>
        split at h
        next hsame =>
          split at h
          next => cases h
          next hunlink =>
            simp only [Except.ok.injEq, Prod.mk.injEq] at h
            obtain ⟨rfl, rfl, rfl⟩ := h
            refine ⟨.file f, hat, trivial, TreeSite.eq_take_of_unlink hat hunlink,
              ⟨rfl, hsame⟩, ?_, ?_⟩
            · rw [TreeEntry.reported, if_pos hregular]
            · rw [← hsame.1]
              rfl
        next => cases h
      next => cases h
    · rw [if_neg hregular] at h
      split at h
      next => cases h
      next =>
        split at h
        next stat children hat =>
          split at h
          next => cases h
          next hobject =>
            split at h
            next => cases h
            next =>
              split at h
              next => cases h
              next hrmdir =>
                simp only [Except.ok.injEq, Prod.mk.injEq] at h
                obtain ⟨rfl, rfl, rfl⟩ := h
                obtain ⟨stat', hat', htake⟩ := TreeSite.eq_take_of_rmdir hrmdir
                rw [hat] at hat'
                cases hat'
                refine ⟨_, hat, rfl, htake, ⟨rfl, not_not.mp hobject, rfl⟩, ?_, rfl⟩
                rw [TreeEntry.reported, if_neg hregular]
        next => cases h
  next => cases h

theorem deleteEntry_error {status : TreeStatus} {reason : String}
    (h : deleteEntry e refused site = .error (status, reason)) : status ≠ .deleted := by
  rintro rfl
  simp only [deleteEntry] at h
  repeat' split at h
  all_goals cases h

/-! ### The loop over the entries -/

variable {world : Interference} {fault : ℕ → Option TreeFault} {object : ℕ × ℕ × ℕ}
  {done entries : List TreeEntry} {below top : List Removal} {bytes n : ℕ} {paths : List Path}
  {result : Option TreeOutcome × TreeSite}

def TreeSite.Rooted (object : ℕ × ℕ × ℕ) (site : TreeSite) : Prop :=
  ∃ root, site.root = some root ∧ root.object = some object

theorem TreeSite.Rooted.disturb (h : site.Rooted object) :
    (site.disturb (world.step n)).Rooted object := by
  obtain ⟨root, hroot, hobject⟩ := h
  refine ⟨world.step n root, ?_, ?_⟩
  · simp [TreeSite.disturb, hroot]
  · rw [world.object, hobject]

theorem TreeSite.Rooted.take (h : site.Rooted object) {path : List String} (hpath : path ≠ [])
    {entry : Entry} : (site.take path entry).Rooted object := by
  obtain ⟨root, hroot, hobject⟩ := h
  refine ⟨root.remove path, ?_, ?_⟩
  · simp [TreeSite.take, hpath, hroot]
  · rw [Entry.object_remove, hobject]

/-- What the loop has done: the entries that are gone, the root if it is gone, and the report. -/
structure Accounts (object : ℕ × ℕ × ℕ) (done : List TreeEntry) (below top : List Removal)
    (bytes : ℕ) (paths : List Path) (site : TreeSite) (result : Option TreeOutcome × TreeSite) :
    Prop where
  matched : List.Forall₂ TreeEntry.Matches done below
  removals : result.2.removals = site.removals ++ (below ++ top)
  root : top = [] ∨ ∃ stat, stat.object = object ∧ top = [⟨[], .directory stat []⟩]
  report : ∀ outcome, result.1 = some outcome →
    outcome.deletedPaths = paths ++ done.map TreeEntry.reported ∧
    outcome.deletedBytes = bytes + (below.map Removal.bytes).sum ∧
    (outcome.status = .deleted ↔ top ≠ [])

theorem Accounts.stop {status : TreeStatus} {reason : Option String} {relative : Option Path}
    (h : status ≠ .deleted) (hremovals : site'.removals = site.removals) :
    Accounts object [] [] [] bytes paths site
      (some ⟨status, reason, relative, bytes, paths⟩, site') where
  matched := .nil
  removals := by simpa using hremovals
  root := .inl rfl
  report outcome ho := by
    cases ho
    simp [h]

theorem Accounts.raise (hremovals : site'.removals = site.removals) :
    Accounts object [] [] [] bytes paths site (none, site') where
  matched := .nil
  removals := by simpa using hremovals
  root := .inl rfl
  report outcome ho := by cases ho

/-- The loop takes away entries that match the record, in their order, and reports just these. -/
theorem deleteEntries_accounts (hparts : ∀ e ∈ entries, e.parts ≠ [])
    (hroot : site.Rooted object) : ∃ done below top, done <+: entries ∧
      Accounts object done below top bytes paths site
        (deleteEntries world fault n entries bytes paths site) := by
  induction entries generalizing n bytes paths site with
  | nil =>
    rw [deleteEntries]
    have hroot' : (site.disturb (world.step n)).Rooted object := hroot.disturb
    split
    next => exact ⟨[], [], [], List.prefix_rfl, .raise rfl⟩
    next =>
      split
      next => exact ⟨[], [], [], List.prefix_rfl, .stop (by simp) rfl⟩
      next =>
        split
        next => exact ⟨[], [], [], List.prefix_rfl, .stop (by simp) rfl⟩
        next last hrmdir =>
          obtain ⟨stat, hat, rfl⟩ := TreeSite.eq_take_of_rmdir hrmdir
          obtain ⟨root, hsome, hobject⟩ := hroot'
          rw [TreeSite.at?, hsome, Option.bind_some, Entry.at?] at hat
          cases hat
          refine ⟨[], [], [⟨[], .directory stat []⟩], List.prefix_rfl, .nil, ?_, ?_, ?_⟩
          · simp [TreeSite.take, TreeSite.disturb]
          · exact .inr ⟨stat, Option.some.inj hobject, rfl⟩
          · intro outcome ho
            cases ho
            simp
  | cons e rest ih =>
    rw [deleteEntries]
    have hroot' : (site.disturb (world.step n)).Rooted object := hroot.disturb
    split
    next => exact ⟨[], [], [], List.nil_prefix, .raise rfl⟩
    next =>
      split
      next status reason herror =>
        exact ⟨[], [], [], List.nil_prefix, .stop (deleteEntry_error herror) rfl⟩
      next path size site' hok =>
        obtain ⟨entry, -, -, rfl, hmatches, rfl, rfl⟩ := deleteEntry_ok hok
        have hpath : e.parts ≠ [] := hparts e List.mem_cons_self
        obtain ⟨done, below, top, hprefix, hmatched, hremovals, htop, hreport⟩ :=
          @ih _ (bytes + Removal.bytes ⟨e.parts, entry⟩) (n + 1) (paths ++ [e.reported])
            (fun e he => hparts e (List.mem_cons_of_mem _ he)) (hroot'.take hpath)
        refine ⟨e :: done, ⟨e.parts, entry⟩ :: below, top,
          List.cons_prefix_cons.mpr ⟨rfl, hprefix⟩, .cons hmatches hmatched, ?_, htop, ?_⟩
        · rw [hremovals]
          simp [TreeSite.take, TreeSite.disturb]
        · intro outcome ho
          obtain ⟨hpaths, hbytes, hstatus⟩ := hreport outcome ho
          refine ⟨?_, ?_, hstatus⟩
          · rw [hpaths, List.map_cons, List.append_assoc, List.singleton_append]
          · rw [hbytes, List.map_cons, List.sum_cons, Nat.add_assoc]

/-! ### What is left of the tree -/

/-- What has been taken away since is gone, and all else is still there. -/
def LeftBy (site₀ site : TreeSite) : Prop := ∃ removed,
  site.removals = site₀.removals ++ removed ∧
    ∀ path, site.has path ↔ site₀.has path ∧ path ∉ removed.map Removal.path

theorem LeftBy.trans {s₁ s₂ s₃ : TreeSite} (h : LeftBy s₁ s₂) (h' : LeftBy s₂ s₃) :
    LeftBy s₁ s₃ := by
  obtain ⟨removed, hremovals, hhas⟩ := h
  obtain ⟨removed', hremovals', hhas'⟩ := h'
  refine ⟨removed ++ removed', ?_, ?_⟩
  · rw [hremovals', hremovals, List.append_assoc]
  · intro path
    rw [hhas', hhas, List.map_append, List.mem_append, not_or, and_assoc]

theorem leftBy_disturb {f : Entry → Entry} (hf : ∀ e path, (f e).has path ↔ e.has path) :
    LeftBy site (site.disturb f) := by
  refine ⟨[], by simp [TreeSite.disturb], ?_⟩
  intro path
  simp only [TreeSite.has, TreeSite.at?, TreeSite.disturb, List.map_nil, List.not_mem_nil,
    not_false_eq_true, and_true]
  rcases site.root with _ | root
  · rfl
  · exact hf root path

theorem leftBy_take {path : List String} {entry : Entry} (hat : site.at? path = some entry)
    (hleaf : entry.Leaf) : LeftBy site (site.take path entry) := by
  refine ⟨[⟨path, entry⟩], rfl, ?_⟩
  intro path'
  obtain ⟨root, hroot, hat'⟩ := Option.bind_eq_some_iff.mp hat
  simp only [TreeSite.has, TreeSite.at?, TreeSite.take, hroot, List.map_singleton,
    List.mem_singleton, Option.bind_some]
  by_cases hpath : path = []
  · subst hpath
    rw [Entry.at?] at hat'
    cases hat'
    rw [if_pos rfl, ← Entry.has, hleaf.has]
    simp
  · rw [if_neg hpath]
    exact Entry.has_remove_leaf hpath hat' hleaf

theorem deleteEntries_leftBy (hworld : ∀ n e path, (world.step n e).has path ↔ e.has path) :
    LeftBy site (deleteEntries world fault n entries bytes paths site).2 := by
  induction entries generalizing n bytes paths site with
  | nil =>
    rw [deleteEntries]
    have hdisturb : LeftBy site (site.disturb (world.step n)) := leftBy_disturb (hworld n)
    split
    next => exact hdisturb
    next =>
      split
      next => exact hdisturb
      next =>
        split
        next => exact hdisturb
        next hrmdir =>
          obtain ⟨stat, hat, rfl⟩ := TreeSite.eq_take_of_rmdir hrmdir
          exact hdisturb.trans (leftBy_take hat rfl)
  | cons e rest ih =>
    rw [deleteEntries]
    have hdisturb : LeftBy site (site.disturb (world.step n)) := leftBy_disturb (hworld n)
    split
    next => exact hdisturb
    next =>
      split
      next => exact hdisturb
      next hok =>
        obtain ⟨entry, hat, hleaf, rfl, -⟩ := deleteEntry_ok hok
        exact (hdisturb.trans (leftBy_take hat hleaf)).trans ih

/-! ### The record -/

theorem treeParts_append_slash {relative : Path} (h : ¬ isAbsolute relative)
    (hparts : treeParts relative ≠ []) : treeParts (relative ++ "/") = treeParts relative := by
  have hne : relative.toList ≠ [] := by
    intro hnil
    apply hparts
    simp [treeParts, pathParts, hnil, pathRoot, pathComponents]
  have habsolute : ¬ isAbsolute (relative ++ "/") := by
    rcases hlist : relative.toList with _ | ⟨c, cs⟩
    · exact absurd hlist hne
    · simp only [isAbsolute, String.toList_append, hlist] at h ⊢
      exact h
  have hroot : pathRoot relative.toList = [] := by
    rwa [isAbsolute_iff, not_not] at h
  have hroot' : pathRoot (relative ++ "/").toList = [] := by
    rwa [isAbsolute_iff, not_not] at habsolute
  have hcomponents : pathComponents (relative ++ "/").toList = pathComponents relative.toList := by
    have hnil : pathComponents [] = [] := by simp [pathComponents]
    have happend : (relative ++ "/").toList = relative.toList ++ '/' :: [] := by simp
    rw [happend, pathComponents_append, hnil, List.append_nil]
  rw [treeParts, treeParts, pathParts, pathParts, hroot, hroot', hcomponents]

/-- The entry is in the record, below the root. -/
structure TreeEntry.In (identity : List (Path × StatIdentity × Option Hash)) (e : TreeEntry) :
    Prop where
  recorded : (e.relative, e.stat, e.sha256) ∈ identity
  parts : e.parts = treeParts e.relative
  below : e.parts ≠ []
  relative : ¬ isAbsolute e.relative

theorem mem_treeEntries {identity : List (Path × StatIdentity × Option Hash)}
    (h : treeEntries identity = some entries) (he : e ∈ entries) : e.In identity := by
  induction identity generalizing entries with
  | nil =>
    rw [treeEntries] at h
    cases h
    cases he
  | cons record identity ih =>
    obtain ⟨relative, stat, sha256⟩ := record
    have hlater : ∀ {rest}, treeEntries identity = some rest → e ∈ rest →
        e.In ((relative, stat, sha256) :: identity) := by
      intro rest hrest hmem
      obtain ⟨hrecorded, hparts, hbelow, hrelative⟩ := ih hrest hmem
      exact ⟨List.mem_cons_of_mem _ hrecorded, hparts, hbelow, hrelative⟩
    simp only [treeEntries] at h
    split at h
    next => exact hlater h he
    next =>
      split at h
      next => cases h
      next hvalid =>
        obtain ⟨rest, hrest, rfl⟩ := Option.map_eq_some_iff.mp h
        simp only [not_or] at hvalid
        rcases List.mem_cons.mp he with rfl | hmem
        · exact ⟨List.mem_cons_self, rfl, hvalid.1, hvalid.2.1⟩
        · exact hlater hrest hmem

theorem pairwise_deeper (entries : List TreeEntry) :
    (entries.insertionSort deeper).Pairwise deeper := by
  refine List.pairwise_insertionSort_lex (fun e : TreeEntry => OrderDual.toDual e.parts.length)
    (fun e => OrderDual.toDual e.relative) deeper ?_ entries
  intro a b
  simp only [deeper, OrderDual.toDual_lt_toDual, OrderDual.toDual_le_toDual,
    EmbeddingLike.apply_eq_iff_eq]

/-! ### The whole deletion -/

def Recorded (expected : ArtifactRecord) (r : Removal) : Prop :=
  ∃ relative stat sha256, (relative, stat, sha256) ∈ expected.identity ∧
    treeParts relative = r.path ∧ SameIdentity stat sha256 r.entry

/-- What was taken away is in the record, children before their parents, and the report is of
this and nothing else; that the root is gone is what the status says. -/
structure DeletesExactly (expected : ArtifactRecord) (removed : List Removal)
    (outcome : Option TreeOutcome) : Prop where
  recorded : ∀ r ∈ removed, Recorded expected r
  childrenFirst : removed.Pairwise fun r r' => r.path <+: r'.path → r.path = r'.path
  paths : ∀ o ∈ outcome, o.deletedPaths.map treeParts =
    (removed.map Removal.path).filter fun path => path ≠ []
  bytes : ∀ o ∈ outcome, o.deletedBytes = (removed.map Removal.bytes).sum
  root : ∀ o ∈ outcome, o.status = .deleted ↔ [] ∈ removed.map Removal.path

theorem deletesExactly_nil (expected : ArtifactRecord) {outcome : Option TreeOutcome}
    (h : ∀ o ∈ outcome, o.status ≠ .deleted ∧ o.deletedBytes = 0 ∧ o.deletedPaths = []) :
    DeletesExactly expected [] outcome where
  recorded r hr := by cases hr
  childrenFirst := .nil
  paths o ho := by simp [(h o ho).2.2]
  bytes o ho := (h o ho).2.1
  root o ho := by simp [(h o ho).1]

/-- Where the account of the loop is right, the whole deletion is exact. -/
theorem Accounts.deletesExactly {expected : ArtifactRecord} {stat : StatIdentity}
    (hroot : (".", stat, none) ∈ expected.identity) (hin : ∀ e ∈ done, e.In expected.identity)
    (hsorted : done.Pairwise deeper)
    (h : Accounts stat.object done below top 0 [] site result) :
    DeletesExactly expected (below ++ top) result.1 := by
  have hpaths : below.map Removal.path = done.map TreeEntry.parts := by
    have hmatched := h.matched
    clear hsorted hin h
    induction hmatched with
    | nil => rfl
    | cons hmatch _ ih => rw [List.map_cons, List.map_cons, ih, hmatch.1]
  have hbelow : ∀ r ∈ below, ∃ e ∈ done, e.Matches r := by
    have hmatched := h.matched
    clear hsorted hin h hpaths
    induction hmatched with
    | nil => simp
    | cons hmatch _ ih =>
      intro r hr
      rcases List.mem_cons.mp hr with rfl | hr
      · exact ⟨_, List.mem_cons_self, hmatch⟩
      · obtain ⟨e, he, hmatch⟩ := ih r hr
        exact ⟨e, List.mem_cons_of_mem _ he, hmatch⟩
  have htop : ∀ r ∈ top, ∃ stat', stat'.object = stat.object ∧ r = ⟨[], .directory stat' []⟩ := by
    intro r hr
    rcases h.root with hnil | ⟨stat', hobject, hone⟩
    · rw [hnil] at hr
      cases hr
    · rw [hone, List.mem_singleton] at hr
      exact ⟨stat', hobject, hr⟩
  have hne : ∀ r ∈ below, r.path ≠ [] := by
    intro r hr
    obtain ⟨e, he, hmatch⟩ := hbelow r hr
    rw [hmatch.1]
    exact (hin e he).below
  constructor
  · intro r hr
    rcases List.mem_append.mp hr with hr | hr
    · obtain ⟨e, he, hpath, hsame⟩ := hbelow r hr
      refine ⟨e.relative, e.stat, e.sha256, (hin e he).recorded, ?_, hsame⟩
      rw [hpath, (hin e he).parts]
    · obtain ⟨stat', hobject, rfl⟩ := htop r hr
      have hdot : treeParts "." = [] := by decide
      exact ⟨".", stat, none, hroot, hdot, hobject, rfl⟩
  · rw [List.pairwise_append]
    refine ⟨?_, ?_, ?_⟩
    · have hdeep : (below.map Removal.path).Pairwise fun p q => q.length ≤ p.length := by
        rw [hpaths, List.pairwise_map]
        refine hsorted.imp fun hab => ?_
        rcases hab with hab | hab
        · omega
        · omega
      rw [List.pairwise_map] at hdeep
      exact hdeep.imp fun hle hprefix => hprefix.eq_of_length_le hle
    · rcases h.root with hnil | ⟨stat', -, hone⟩
      · simp [hnil]
      · simp [hone]
    · intro r hr r' hr' hprefix
      obtain ⟨stat', -, rfl⟩ := htop r' hr'
      exact absurd (List.prefix_nil.mp hprefix) (hne r hr)
  · intro o ho
    obtain ⟨hdeleted, -, -⟩ := h.report o ho
    have hreported : (done.map TreeEntry.reported).map treeParts = below.map Removal.path := by
      rw [hpaths, List.map_map]
      apply List.map_congr_left
      intro e he
      obtain ⟨-, hparts, hbelow, hrelative⟩ := hin e he
      rw [Function.comp_apply, TreeEntry.reported, hparts]
      split
      · rfl
      · exact treeParts_append_slash hrelative (hparts ▸ hbelow)
    have hleft : (below.map Removal.path).filter
        (fun path => path ≠ []) = below.map Removal.path := by
      rw [List.filter_eq_self]
      intro path hpath
      obtain ⟨r, hr, rfl⟩ := List.mem_map.mp hpath
      simpa using hne r hr
    have hright : (top.map Removal.path).filter (fun path => path ≠ []) = [] := by
      rw [List.filter_eq_nil_iff]
      intro path hpath
      obtain ⟨r, hr, rfl⟩ := List.mem_map.mp hpath
      obtain ⟨stat', -, rfl⟩ := htop r hr
      simp
    rw [hdeleted, List.nil_append, hreported, List.map_append, List.filter_append, hleft, hright,
      List.append_nil]
  · intro o ho
    obtain ⟨-, hbytes, -⟩ := h.report o ho
    have hnone : (top.map Removal.bytes).sum = 0 := by
      rcases h.root with hnil | ⟨stat', -, hone⟩
      · simp [hnil]
      · simp [hone, Removal.bytes]
    rw [hbytes, List.map_append, List.sum_append, hnone]
    omega
  · intro o ho
    obtain ⟨-, -, hstatus⟩ := h.report o ho
    rw [hstatus, List.map_append, List.mem_append]
    constructor
    · intro hsome
      rcases h.root with hnil | ⟨stat', -, hone⟩
      · exact absurd hnil hsome
      · simp [hone]
    · rintro (hmem | hmem)
      · obtain ⟨r, hr, hpath⟩ := List.mem_map.mp hmem
        exact absurd hpath (hne r hr)
      · rintro rfl
        cases hmem

/-- Whatever the tree is and whatever others do to it meanwhile, and whichever calls fail, a tree
is deleted exactly as it is reported. What has been taken away is gone, and everything else is
left as long as others leave it. -/
theorem deleteTreeFromRecord_exact (world : Interference) (fault : ℕ → Option TreeFault)
    (expected : ArtifactRecord) (site : TreeSite) : ∃ removed,
      (deleteTreeFromRecord world fault expected site).2.removals = site.removals ++ removed ∧
      DeletesExactly expected removed (deleteTreeFromRecord world fault expected site).1 ∧
      ((∀ n e path, (world.step n e).has path ↔ e.has path) →
        ∀ path, (deleteTreeFromRecord world fault expected site).2.has path ↔
          site.has path ∧ path ∉ removed.map Removal.path) := by
  have hstop : ∀ reason, ∃ removed, site.removals = site.removals ++ removed ∧
      DeletesExactly expected removed (some ⟨.changed, some reason, none, 0, []⟩) ∧
      ((∀ n e path, (world.step n e).has path ↔ e.has path) →
        ∀ path, site.has path ↔ site.has path ∧ path ∉ removed.map Removal.path) := by
    intro reason
    refine ⟨[], by simp, deletesExactly_nil expected ?_, by simp⟩
    intro o ho
    cases ho
    simp
  rw [deleteTreeFromRecord]
  split
  next stat children hroot =>
    split
    next => exact hstop _
    next hsame =>
      split
      next => exact hstop _
      next entries hentries =>
        have hin : ∀ e ∈ entries.insertionSort deeper, e.In expected.identity := fun e he =>
          mem_treeEntries hentries ((List.mem_insertionSort deeper).mp he)
        have hrooted : site.Rooted stat.object := ⟨_, hroot, rfl⟩
        obtain ⟨done, below, top, hpre, haccounts⟩ :=
          @deleteEntries_accounts site world fault stat.object (entries.insertionSort deeper) 0 0 []
            (fun e he => (hin e he).below) hrooted
        refine ⟨below ++ top, haccounts.removals, ?_, ?_⟩
        · have hrecorded : (".", stat, none) ∈ expected.identity := by
            rw [not_not, Entry.treeRecord, Option.map_eq_some_iff] at hsame
            obtain ⟨record, -, rfl⟩ := hsame
            exact List.mem_cons_self
          exact haccounts.deletesExactly hrecorded (fun e he => hin e (hpre.subset he))
            ((pairwise_deeper entries).sublist hpre.sublist)
        · intro hworld
          obtain ⟨removed, hremovals, hhas⟩ := @deleteEntries_leftBy site world fault
            (entries.insertionSort deeper) 0 0 [] hworld
          have heq : removed = below ++ top :=
            List.append_cancel_left (hremovals.symm.trans haccounts.removals)
          rw [← heq]
          exact hhas
  next => exact hstop _

/-- A directory with two files, the deletion of the second of which is refused. -/
example : (deleteTreeFromRecord ⟨fun _ e => e, fun _ _ => rfl⟩
    (fun n => if n = 1 then some .refused else none)
    ⟨7, [(".", ⟨1, 2, 0o40700, 64, 0, 0⟩, none), ("a", ⟨1, 3, 0o100600, 2, 0, 0⟩, some "g"),
      ("b", ⟨1, 4, 0o100600, 5, 0, 0⟩, some "h")]⟩
    ⟨some (.directory ⟨1, 2, 0o40700, 64, 0, 0⟩ [("a", .file ⟨⟨1, 3, 0o100600, 2, 0, 0⟩, "g"⟩),
      ("b", .file ⟨⟨1, 4, 0o100600, 5, 0, 0⟩, "h"⟩)]), []⟩).1 =
    some ⟨.failed, some "tree_file_delete_failed", some "a", 5, ["b"]⟩ := by decide

end OrchKit.Retention
