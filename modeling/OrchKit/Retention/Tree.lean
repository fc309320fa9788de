import OrchKit.Retention.Inventory
import OrchKit.Workspace.Containment

/-! # Directory trees on disk

A tree as the operating system shows it through an open directory: what stands at a path, what is
recorded of it, and the two calls that take an entry away.
-/

namespace OrchKit.Retention

/-- What stands under a name. A directory lists its children in the order of their names. -/
inductive Entry
  | file (f : FileNode)
  | directory (stat : StatIdentity) (children : List (String × Entry))
  | other

/-- The device, the inode and the mode, which a directory keeps while its children change. -/
def StatIdentity.object (s : StatIdentity) : ℕ × ℕ × ℕ := (s.dev, s.ino, s.mode)

def Entry.object : Entry → Option (ℕ × ℕ × ℕ)
  | .directory stat _ => some stat.object
  | _ => none

/-- `S_ISREG`. -/
def isRegular (mode : ℕ) : Bool := mode / 0o10000 % 16 = 8

/-- `S_ISDIR`. -/
def isDirectory (mode : ℕ) : Bool := mode / 0o10000 % 16 = 4

/-- `_validate_child_name`. -/
def validChildName (name : String) : Bool :=
  ! ["", ".", ".."].contains name && !name.toList.contains '/' && !name.toList.contains '\x00'

/-! ### Records -/

mutual

/-- What is recorded of an entry under the path `relative`. -/
def Entry.walk (relative : Path) : Entry → Option ArtifactRecord
  | .file f => some ⟨f.stat.size, [(relative, f.stat, some f.sha256)]⟩
  | .directory stat children => do
    let below ← walkChildren relative children
    some ⟨below.bytes, (relative, stat, none) :: below.identity⟩
  | .other => none

/-- What is recorded of the children of a directory, `parent` being its path. -/
def walkChildren (parent : Path) : List (String × Entry) → Option ArtifactRecord
  | [] => some ⟨0, []⟩
  | (name, e) :: rest =>
    if validChildName name then do
      let first ← e.walk (if parent = "" then name else parent ++ "/" ++ name)
      let rest ← walkChildren parent rest
      some ⟨first.bytes + rest.bytes, first.identity ++ rest.identity⟩
    else none

end

/-- `_tree_record_from_fd`. -/
def Entry.treeRecord : Entry → Option ArtifactRecord
  | .directory stat children =>
    (walkChildren "" children).map fun below => ⟨below.bytes, (".", stat, none) :: below.identity⟩
  | _ => none

example : (Entry.directory ⟨1, 2, 0o40700, 64, 0, 0⟩
    [("a", .directory ⟨1, 3, 0o40700, 64, 0, 0⟩
      [("b", .file ⟨⟨1, 4, 0o100600, 5, 0, 0⟩, "h"⟩)])]).treeRecord =
    some ⟨5, [(".", ⟨1, 2, 0o40700, 64, 0, 0⟩, none), ("a", ⟨1, 3, 0o40700, 64, 0, 0⟩, none),
      ("a/b", ⟨1, 4, 0o100600, 5, 0, 0⟩, some "h")]⟩ := by decide

/-! ### Paths -/

/-- What stands at a path below an entry. -/
def Entry.at? : Entry → List String → Option Entry
  | e, [] => some e
  | .directory _ children, name :: names => (children.lookup name).bind fun e => e.at? names
  | _, _ :: _ => none

def Entry.has (e : Entry) (path : List String) : Bool := (e.at? path).isSome

/-- The entry without what stands at a path below it. -/
def Entry.remove : Entry → List String → Entry
  | .directory stat children, [name] => .directory stat (children.filter fun c => c.1 ≠ name)
  | .directory stat children, name :: names => .directory stat
    (children.map fun c => if c.1 = name then (c.1, c.2.remove names) else c)
  | e, _ => e

theorem Entry.object_remove {e : Entry} {path : List String} :
    (e.remove path).object = e.object := by
  rcases e with f | ⟨stat, children⟩ | _
  · simp [remove]
  · rcases path with _ | ⟨name, _ | ⟨name', names⟩⟩ <;> simp [remove, object]
  · simp [remove]

section Children

variable {children : List (String × Entry)} {name name' : String}

theorem lookup_filter_ne : (children.filter fun c => c.1 ≠ name).lookup name' =
    if name' = name then none else children.lookup name' := by
  induction children with
  | nil => simp
  | cons c children ih =>
    obtain ⟨n, e⟩ := c
    by_cases hn : n = name
    · subst hn
      by_cases hname : name' = n
      · simpa [hname] using ih
      · have hbeq : (name' == n) = false := by simpa using hname
        simpa [hname, List.lookup_cons, hbeq] using ih
    · by_cases hname : name' = n
      · subst hname
        simp [hn]
      · have hbeq : (name' == n) = false := by simpa using hname
        simpa [hn, List.lookup_cons, hbeq] using ih

variable (children name name') in
theorem lookup_map_if (f : Entry → Entry) :
    (children.map fun c => if c.1 = name then (c.1, f c.2) else c).lookup name' =
      if name' = name then (children.lookup name').map f else children.lookup name' := by
  induction children with
  | nil => simp
  | cons c children ih =>
    obtain ⟨n, e⟩ := c
    by_cases hn : n = name
    · subst hn
      by_cases hname : name' = n
      · subst hname
        simp
      · have hbeq : (name' == n) = false := by simpa using hname
        simpa [hname, List.lookup_cons, hbeq] using ih
    · by_cases hname : name' = n
      · subst hname
        simp [hn]
      · have hbeq : (name' == n) = false := by simpa using hname
        simpa [hn, List.lookup_cons, hbeq] using ih

end Children

theorem Entry.has_cons {stat : StatIdentity} {children : List (String × Entry)} {name : String}
    {names : List String} : (Entry.directory stat children).has (name :: names) =
      (children.lookup name).any fun e => e.has names := by
  rw [has, at?]
  rcases children.lookup name with _ | e <;> rfl

/-- A removal takes away what is at the path and below it, and nothing else. -/
theorem Entry.has_remove {e : Entry} {path path' : List String} (hpath : path ≠ []) :
    (e.remove path).has path' ↔ e.has path' ∧ ¬ path <+: path' := by
  induction path generalizing e path' with
  | nil => exact absurd rfl hpath
  | cons name names ih =>
    rcases path' with _ | ⟨name', names'⟩
    · simp [has, at?]
    rcases e with f | ⟨stat, children⟩ | _
    · simp [remove, has, at?]
    · rcases names with _ | ⟨second, names⟩
      · rw [remove, has_cons, has_cons, lookup_filter_ne]
        by_cases hname : name' = name
        · simp [hname]
        · simp [hname, Ne.symm hname]
      · have hlookup := lookup_map_if children name name'
          fun e => e.remove (second :: names)
        rw [remove, has_cons, has_cons, hlookup]
        · by_cases hname : name' = name
          · subst hname
            rcases children.lookup name' with _ | c
            · simp
            · simp only [if_true, Option.map_some, Option.any_some, List.cons_prefix_cons, true_and]
              exact ih (List.cons_ne_nil _ _)
          · simp [hname, Ne.symm hname]
        · simp
    · simp [remove, has, at?]

theorem Entry.at?_append {e : Entry} {path path' : List String} :
    e.at? (path ++ path') = (e.at? path).bind fun e => e.at? path' := by
  induction path generalizing e with
  | nil => rw [List.nil_append, at?, Option.bind_some]
  | cons name names ih =>
    rcases e with f | ⟨stat, children⟩ | _
    · rfl
    · rw [List.cons_append, at?, at?]
      rcases children.lookup name with _ | c
      · rfl
      · exact ih
    · rfl

/-- Nothing stands below a file or an empty directory. -/
def Entry.Leaf : Entry → Prop
  | .file _ => True
  | .directory _ children => children = []
  | .other => True

theorem Entry.Leaf.has {e : Entry} (h : e.Leaf) {path : List String} : e.has path ↔ path = [] := by
  rcases path with _ | ⟨name, names⟩
  · simp [Entry.has, at?]
  · rcases e with f | ⟨stat, children⟩ | _
    · simp [Entry.has, at?]
    · rw [Leaf] at h
      subst h
      simp [Entry.has, at?]
    · simp [Entry.has, at?]

theorem Entry.has_remove_leaf {e leaf : Entry} {path path' : List String} (hpath : path ≠ [])
    (hat : e.at? path = some leaf) (hleaf : leaf.Leaf) :
    (e.remove path).has path' ↔ e.has path' ∧ path' ≠ path := by
  rw [has_remove hpath]
  constructor
  · rintro ⟨hhas, hprefix⟩
    refine ⟨hhas, ?_⟩
    rintro rfl
    exact hprefix List.prefix_rfl
  · rintro ⟨hhas, hne⟩
    refine ⟨hhas, ?_⟩
    rintro ⟨rest, rfl⟩
    rw [has, at?_append, hat, Option.bind_some, ← has, hleaf.has] at hhas
    simp [hhas] at hne

end OrchKit.Retention
