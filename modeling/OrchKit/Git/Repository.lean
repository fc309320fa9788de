import OrchKit.Git.Diff

/-! # Repositories

A repository has commits, refs, an index and a working tree. Three listings tell what
has happened in it: the working tree against the index, the index against the head,
and the untracked files. Together they miss just the paths that folded renames hide.
-/

namespace Git

variable {κ β ι : Type}

/-- What the working tree holds at a path. -/
inductive Node (β : Type)
  | file (permissions : ℕ) (content : β)
  | symlink (target : β)
deriving DecidableEq

/-- What a node is stored as: only the owner's execute bit of a file counts. -/
def Node.entry : Node β → Entry β
  | file permissions content => ⟨if permissions.testBit 6 then .executable else .regular, content⟩
  | symlink target => ⟨.symlink, target⟩

inductive IndexEntry (β : Type)
  | staged (entry : Entry β)
  | intentToAdd
deriving DecidableEq

def IndexEntry.entry? : IndexEntry β → Option (Entry β)
  | staged entry => some entry
  | intentToAdd => none

structure Commit (κ β ι : Type) where
  parent : Option ι
  tree : Tree κ β

/-- A repository with a working tree; `head` is the ref the symbolic `HEAD` names. -/
structure Repo (κ β ι : Type) where
  commits : Table ι (Commit κ β ι)
  refs : Table String ι
  head : String
  index : Table κ (IndexEntry β)
  worktree : Table κ (Node β)
  ignored : κ → Bool

namespace Repo

section Trees

variable (r : Repo κ β ι)

def headCommit : Option ι := r.refs.lookup r.head

def treeOf [DecidableEq ι] (commit : ι) : Option (Tree κ β) :=
  (r.commits.lookup commit).map Commit.tree

def headTree [DecidableEq ι] : Tree κ β := (r.headCommit.bind r.treeOf).getD ∅

def indexTree : Tree κ β := r.index.filterMap fun _ e => e.entry?

def workTree : Tree κ β := r.worktree.filterMap fun _ n => some n.entry

variable [DecidableEq κ]

def trackedTree : Tree κ β :=
  r.worktree.filterMap fun p n => if (r.index.lookup p).isSome then some n.entry else none

/-- `ls-files --others --exclude-standard`. -/
def others : List κ := r.worktree.keys.filter fun p => (r.index.lookup p).isNone && !r.ignored p

variable {r} {p : κ}

theorem lookup_indexTree : r.indexTree.lookup p = (r.index.lookup p).bind IndexEntry.entry? :=
  Table.lookup_filterMap

theorem lookup_workTree : r.workTree.lookup p = (r.worktree.lookup p).map Node.entry := by
  rw [workTree, Table.lookup_filterMap]
  cases r.worktree.lookup p <;> rfl

theorem lookup_trackedTree : r.trackedTree.lookup p =
    if r.index.lookup p = none then none else r.workTree.lookup p := by
  rw [trackedTree, Table.lookup_filterMap, lookup_workTree]
  cases r.index.lookup p <;> cases r.worktree.lookup p <;> rfl

theorem mem_others : p ∈ r.others ↔
    r.workTree.lookup p ≠ none ∧ r.index.lookup p = none ∧ r.ignored p = false := by
  simp [others, Table.mem_keys, lookup_workTree]

end Trees

section Listings

variable [DecidableEq κ] [DecidableEq β] [DecidableEq ι] (r : Repo κ β ι) (rule : RenameRule κ β)

/-- `diff --name-only`. -/
def diffNames : List κ := rule.names r.indexTree r.trackedTree

/-- `diff --cached --name-only`. -/
def cachedNames : List κ := rule.names r.headTree r.indexTree

/-- The path is not the same in the head, the index and the working tree. -/
def Differs (p : κ) : Prop :=
  r.headTree.lookup p ≠ r.indexTree.lookup p ∨ r.indexTree.lookup p ≠ r.workTree.lookup p

/-- The path is missing from the working tree and folded into a rename: a staged one, or an
unstaged one while the head has it as the index does. -/
def Hidden (p : κ) : Prop :=
  r.workTree.lookup p = none ∧
    (p ∈ rule.sources r.headTree r.indexTree ∨
      p ∈ rule.sources r.indexTree r.trackedTree ∧
        r.headTree.lookup p = r.indexTree.lookup p)

variable {r rule} {p : κ}

/-- The three listings together miss just the hidden paths. -/
theorem hidden_iff (hp : r.ignored p = false) : r.Hidden rule p ↔
    r.Differs p ∧ p ∉ r.diffNames rule ∧ p ∉ r.cachedNames rule ∧ p ∉ r.others := by
  simp only [diffNames, cachedNames, RenameRule.mem_names, not_and, not_not]
  constructor
  · rintro ⟨hw, hs | ⟨hs, he⟩⟩
    · obtain ⟨hh, hi⟩ := mem_deleted.mp (RenameRule.deleted_of_mem_sources hs)
      refine ⟨.inl (hi ▸ hh), fun hd => absurd ?_ hd, fun _ => hs, fun ho =>
        (mem_others.mp ho).1 hw⟩
      rw [lookup_trackedTree, hi, hw, ite_self]
    · obtain ⟨hi, -⟩ := mem_deleted.mp (RenameRule.deleted_of_mem_sources hs)
      exact ⟨.inr (hw ▸ hi), fun _ => hs, fun hh => absurd he hh,
        fun ho => (mem_others.mp ho).1 hw⟩
  · rintro ⟨hd, hdiff, hcached, ho⟩
    have staged (hi : r.indexTree.lookup p ≠ none) : r.index.lookup p ≠ none := by
      intro hn
      rw [lookup_indexTree, hn] at hi
      exact hi rfl
    have source_gone (hs : p ∈ rule.sources r.headTree r.indexTree) :
        r.indexTree.lookup p = none :=
      (mem_deleted.mp (RenameRule.deleted_of_mem_sources hs)).2
    by_cases hw : r.workTree.lookup p = none
    · refine ⟨hw, ?_⟩
      by_cases he : r.headTree.lookup p = r.indexTree.lookup p
      · have hi : r.indexTree.lookup p ≠ none := by
          rcases hd with hd | hd
          · exact absurd he hd
          · exact hw ▸ hd
        refine .inr ⟨hdiff ?_, he⟩
        rw [lookup_trackedTree, hw, ite_self]
        exact hi
      · exact .inl (hcached he)
    · -- a path that is in the working tree is never the source of a rename
      exfalso
      by_cases hn : r.index.lookup p = none
      · exact ho (mem_others.mpr ⟨hw, hn, hp⟩)
      · have ht : r.trackedTree.lookup p = r.workTree.lookup p := by
          rw [lookup_trackedTree, if_neg hn]
        have he : r.indexTree.lookup p = r.workTree.lookup p := by
          by_contra he
          have hs := hdiff (ht ▸ he)
          exact hw (ht ▸ (mem_deleted.mp (RenameRule.deleted_of_mem_sources hs)).2)
        rcases hd with hd | hd
        · exact hw (he ▸ source_gone (hcached hd))
        · exact hd he

end Listings

end Repo

end Git
