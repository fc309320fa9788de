import OrchKit.Git.Reflog
import OrchKit.Git.Site
import OrchKit.Program.Projection

/-! # The clones that publications work in

Every workspace is a clone with a branch checked out, and nobody else moves its refs, writes
commits into it or pushes to its remotes. Whatever else is asked of the outside is answered in any
way, any command of Git may fail, and an update of a ref or a push that is reported as failed may
have been made all the same.
-/

namespace OrchKit

open Program Git

/-- What Git makes of a commit: its name, and what is seen of its changes. A name belongs to one
commit only, and a commit is younger than its parent. -/
structure Objects where
  commitId : CommitObject → String → String → CommitId
  shows : TaskPayload → CommitObject → Manifest → Bool
  url : TaskPayload → String → String
  age : CommitId → ℕ
  commitId_injective : ∀ {o o' message message' stamp stamp'},
    commitId o message stamp = commitId o' message' stamp' → o = o'
  age_parent : ∀ o message stamp, age o.parent < age (commitId o message stamp)

/-- `held` lists all that the remotes have held, and `reflog` the updates of the branch. -/
structure Clone where
  branch : String
  refs : Table String CommitId
  commits : Table CommitId CommitObject
  remotes : Table (String × String) CommitId
  reflog : List (RefUpdate CommitId)
  held : List ((String × String) × CommitId)

namespace Clone

variable (g : Clone)

def head : Option CommitId := g.refs.lookup g.branch

def withCommit (id : CommitId) (object : CommitObject) : Clone :=
  { g with commits := g.commits.put id object }

def withRef (ref : String) (new old : CommitId) : Clone :=
  { g with
    refs := g.refs.put ref new
    reflog := if ref = g.branch then ⟨old, new⟩ :: g.reflog else g.reflog }

def withRemote (url ref : String) (commit : CommitId) : Clone :=
  { g with
    remotes := g.remotes.put (url, ref) commit
    held := ((url, ref), commit) :: g.held }

def HasBeenAt (c : CommitId) : Prop := Was g.reflog g.head c

def HasMovedTo (c : CommitId) : Prop := MovedTo g.reflog c

/-- The commit is on the base and its changes are those of the manifest. -/
def Proves (git : Objects) (payload : TaskPayload) (commit base : CommitId) (manifest : Manifest) :
    Prop :=
  ∃ object, g.commits.lookup commit = some object ∧ object.parent = base ∧
    git.shows payload object manifest

end Clone

abbrev Clones := Path → Clone

/-- What the outside does at a step: its answers, and whether what it reports as failed is done. -/
structure Surroundings where
  host : Host
  arrives : Bool

namespace Objects

variable (git : Objects)

/-- The commit is proven by the clone. -/
def proves (g : Clone) (payload : TaskPayload) (commit base : CommitId) (manifest : Manifest) :
    Bool :=
  match g.commits.lookup commit with
  | none => false
  | some object => object.parent = base && git.shows payload object manifest

/-- The answers at a step. A command that does not fail tells how things are. -/
def answer (w : Clones) (v : View) : View
  | .revParseHead payload =>
    (v (.revParseHead payload)).map fun shown => shown.bind fun _ => (w payload.workspace).head
  | .symbolicRef payload =>
    (v (.symbolicRef payload)).map fun shown => shown.map fun _ => (w payload.workspace).branch
  | .commitTree payload tree parent message =>
    (v (.commitTree payload tree parent message)).map fun made =>
      made.map fun stamp => git.commitId ⟨tree, parent⟩ message stamp
  | .commitMatchesSnapshot payload commit expectedBase manifest =>
    (v (.commitMatchesSnapshot payload commit expectedBase manifest)).map fun shown =>
      shown && git.proves (w payload.workspace) payload commit expectedBase manifest
  | .updateRef payload ref new old =>
    (v (.updateRef payload ref new old)).map fun free =>
      free && (w payload.workspace).refs.lookup ref == some old
  | .inspectTransportUrl payload remoteUrl =>
    (v (.inspectTransportUrl payload remoteUrl)).map fun policy =>
      policy.map fun _ => git.url payload remoteUrl
  | .lsRemote payload url ref =>
    (v (.lsRemote payload url ref)).map fun shown =>
      shown.bind fun _ => (w payload.workspace).remotes.lookup (url, ref)
  | o => v o

/-- The clones after an operation. -/
def after (e : Surroundings) (w : Clones) : Outside → Clones
  | .commitTree payload tree parent message =>
    match git.answer w (e.host 0) (.commitTree payload tree parent message) with
    | .ok (some id) => Function.update w payload.workspace
        ((w payload.workspace).withCommit id ⟨tree, parent⟩)
    | _ => w
  | .updateRef payload ref new old =>
    match git.answer w (e.host 0) (.updateRef payload ref new old) with
    | .ok true => Function.update w payload.workspace ((w payload.workspace).withRef ref new old)
    | _ =>
      if e.arrives ∧ (w payload.workspace).refs.lookup ref = some old then
        Function.update w payload.workspace ((w payload.workspace).withRef ref new old)
      else w
  | .push payload url commit ref =>
    match git.answer w (e.host 0) (.push payload url commit ref) with
    | .ok (some _) => Function.update w payload.workspace
        ((w payload.workspace).withRemote url ref commit)
    | _ =>
      if e.arrives then Function.update w payload.workspace
        ((w payload.workspace).withRemote url ref commit)
      else w
  | _ => w

def afterOp (e : Surroundings) (w : Clones) : Op → Clones
  | .outside o => git.after e w o
  | _ => w

/-- The ledger and the clones. -/
def semantics (sha : Sha256) : Semantics orchSig (Ledger × Clones) Surroundings where
  answer e x o :=
    let answered := (ledgerSemantics sha).answer (fun n => git.answer x.2 (e.host n)) x.1 o
    (answered.1, answered.2, git.afterOp e x.2 o)

theorem projects (sha : Sha256) : Projects (git.semantics sha) (ledgerSemantics sha) Prod.fst :=
  fun e x _ => ⟨fun n => git.answer x.2 (e.host n), rfl, rfl⟩

variable {git} {g : Clone} {payload : TaskPayload} {commit base : CommitId} {manifest : Manifest}

theorem proves_iff : git.proves g payload commit base manifest ↔
    g.Proves git payload commit base manifest := by
  rw [proves, Clone.Proves]
  cases g.commits.lookup commit with
  | none => simp
  | some object => simp

end Objects

/-! ### What clones keep -/

namespace Clone

/-- A clone that only publications have worked on since it was as in `g₀`. -/
structure Sound (git : Objects) (g₀ g : Clone) : Prop where
  branch : g.branch = g₀.branch
  others : ∀ ref, ref ≠ g.branch → g.refs.lookup ref = g₀.refs.lookup ref
  addressed : ∀ id object, g.commits.lookup id = some object →
    ∃ message stamp, git.commitId object message stamp = id
  leads : Leads g₀.head g.reflog g.head
  onParent : ∀ u ∈ g.reflog, ∃ object, g.commits.lookup u.new = some object ∧ object.parent = u.old
  held : ∀ key c, g.remotes.lookup key = some c → (key, c) ∈ g.held
  pushed : ∀ entry ∈ g.held, entry ∈ g₀.held ∨ g.HasMovedTo entry.2

/-- What a later clone still has of an earlier one. -/
structure Onward (g g' : Clone) : Prop where
  branch : g'.branch = g.branch
  commits : ∀ id object, g.commits.lookup id = some object → g'.commits.lookup id = some object
  hasBeenAt : ∀ c, g.HasBeenAt c → g'.HasBeenAt c
  hasMovedTo : ∀ c, g.HasMovedTo c → g'.HasMovedTo c
  held : ∀ entry ∈ g.held, entry ∈ g'.held

variable {git : Objects} {g₀ g g' g'' : Clone} {payload : TaskPayload}
  {commit base new old : CommitId}
  {manifest : Manifest}

theorem Onward.refl (g : Clone) : Onward g g :=
  ⟨rfl, fun _ _ h => h, fun _ h => h, fun _ h => h, fun _ h => h⟩

theorem Onward.trans (h : Onward g g') (h' : Onward g' g'') : Onward g g'' where
  branch := h'.branch.trans h.branch
  commits id object ho := h'.commits id object (h.commits id object ho)
  hasBeenAt c hc := h'.hasBeenAt c (h.hasBeenAt c hc)
  hasMovedTo c hc := h'.hasMovedTo c (h.hasMovedTo c hc)
  held entry he := h'.held entry (h.held entry he)

theorem Proves.later (h : g.Proves git payload commit base manifest) (hg : Onward g g') :
    g'.Proves git payload commit base manifest := by
  obtain ⟨object, ho, hparent, hshows⟩ := h
  exact ⟨object, hg.commits commit object ho, hparent, hshows⟩

theorem Sound.onward_withCommit (h : Sound git g₀ g) (object : CommitObject)
    (message stamp : String) :
    Onward g (g.withCommit (git.commitId object message stamp) object) where
  branch := rfl
  commits id object' ho := by
    obtain ⟨message', stamp', hid⟩ := h.addressed id object' ho
    simp only [withCommit, Table.lookup_put]
    split
    next heq =>
      rw [← hid] at heq
      rw [git.commitId_injective heq]
    next => exact ho
  hasBeenAt _ hc := hc
  hasMovedTo _ hc := hc
  held _ he := he

theorem Sound.withCommit (h : Sound git g₀ g) (object : CommitObject) (message stamp : String) :
    Sound git g₀ (g.withCommit (git.commitId object message stamp) object) where
  branch := h.branch
  others := h.others
  addressed id object' ho := by
    simp only [Clone.withCommit, Table.lookup_put] at ho
    split at ho
    next heq =>
      cases ho
      exact ⟨message, stamp, heq.symm⟩
    next => exact h.addressed id object' ho
  leads := h.leads
  onParent u hu := by
    obtain ⟨object', ho, hparent⟩ := h.onParent u hu
    exact ⟨object', (h.onward_withCommit object message stamp).commits _ _ ho, hparent⟩
  held := h.held
  pushed := h.pushed

theorem onward_withRef (hold : g.head = some old) :
    Onward g (g.withRef g.branch new old) where
  branch := rfl
  commits _ _ ho := ho
  hasBeenAt c hc := by
    simp only [HasBeenAt, head, withRef, if_pos, Table.lookup_put]
    exact was_cons old new hc hold
  hasMovedTo c hc := by
    simp only [HasMovedTo, withRef, if_pos]
    exact hc.cons _
  held _ he := he

theorem hasMovedTo_withRef : (g.withRef g.branch new old).HasMovedTo new := by
  simp only [HasMovedTo, withRef, if_pos]
  exact movedTo_cons_self old new

/-- The branch is moved to a proven commit. -/
theorem Sound.withRef (h : Sound git g₀ g) (hold : g.head = some old)
    (hnew : g.Proves git payload new old manifest) :
    Sound git g₀ (g.withRef g.branch new old) where
  branch := h.branch
  others ref href := by
    simp only [Clone.withRef, Table.lookup_put]
    rw [if_neg (show ref ≠ g.branch from href)]
    exact h.others ref href
  addressed := h.addressed
  leads := by
    simp only [head, Clone.withRef, if_pos, Table.lookup_put]
    exact h.leads.cons hold
  onParent u hu := by
    simp only [Clone.withRef, if_pos] at hu
    rcases List.mem_cons.mp hu with rfl | hu
    · obtain ⟨object, ho, hparent, -⟩ := hnew
      exact ⟨object, ho, hparent⟩
    · exact h.onParent u hu
  held := h.held
  pushed entry he := (h.pushed entry he).imp_right ((onward_withRef hold).hasMovedTo _)

theorem onward_withRemote (url ref : String) (c : CommitId) : Onward g (g.withRemote url ref c) :=
  ⟨rfl, fun _ _ ho => ho, fun _ hc => hc, fun _ hc => hc, fun _ he => List.mem_cons_of_mem _ he⟩

/-- A commit that the branch was moved to is pushed. -/
theorem Sound.withRemote (h : Sound git g₀ g) (url ref : String) (hmoved : g.HasMovedTo commit) :
    Sound git g₀ (g.withRemote url ref commit) where
  branch := h.branch
  others := h.others
  addressed := h.addressed
  leads := h.leads
  onParent := h.onParent
  held key c' hc' := by
    simp only [Clone.withRemote, Table.lookup_put] at hc'
    split at hc'
    next heq =>
      cases hc'
      rw [heq]
      exact List.mem_cons_self
    next => exact List.mem_cons_of_mem _ (h.held key c' hc')
  pushed entry he := by
    rcases List.mem_cons.mp he with rfl | he
    · exact .inr hmoved
    · exact h.pushed entry he

theorem Sound.age_lt (h : Sound git g₀ g) : ∀ u ∈ g.reflog, git.age u.old < git.age u.new := by
  intro u hu
  obtain ⟨object, ho, hparent⟩ := h.onParent u hu
  obtain ⟨message, stamp, hid⟩ := h.addressed u.new object ho
  rw [← hid, ← hparent]
  exact git.age_parent object message stamp

theorem Sound.nodup (h : Sound git g₀ g) : (g.reflog.map RefUpdate.new).Nodup :=
  h.leads.nodup h.age_lt

theorem Sound.hasMovedTo (h : Sound git g₀ g) (hhead : g.head = some commit)
    (hbase : g.HasBeenAt base) (hne : commit ≠ base) : g.HasMovedTo commit := by
  have hleads := h.leads
  rw [HasBeenAt] at hbase
  rw [hhead] at hleads hbase
  exact hleads.movedTo hbase hne

end Clone

end OrchKit
