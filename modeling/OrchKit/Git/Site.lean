import OrchKit.Ledger.Publication
import OrchKit.Program.Alone

/-! # A workspace that nobody else touches

The answers a publication gets when the work tree, the index, the configuration and the remotes are
left alone: whatever is not changed by the publication itself is answered the same every time. It
can move the branch, write commits, and push. (`git add` is not used to take up a publication that
was interrupted, so the index is fixed.)
-/

namespace OrchKit

open Program

/-- What the proof of a commit looks at. -/
structure CommitObject where
  tree : Hash
  parent : CommitId

structure GitState where
  head : Option CommitId
  commits : Table CommitId CommitObject
  remotes : Table (String × String) CommitId
  acyclic : ∀ id object, commits.lookup id = some object → object.parent ≠ id

/-- Everything that stays. A commit is not its own parent, and it is proven against the parent it
has. -/
structure Site where
  view : Option CommitId → View
  staged : Option CommitId → TaskPayload → Manifest → Bool
  commitId : Table CommitId CommitObject → CommitObject → String → CommitId
  content : TaskPayload → CommitObject → CommitId → Manifest → Checked Bool
  accepts : Table (String × String) CommitId → Outside → Checked (Option Unit)
  listed : Table (String × String) CommitId → Outside → Checked (Option CommitId)
  commitId_ne_parent : ∀ commits object message, commitId commits object message ≠ object.parent
  parent_of_content : ∀ payload object base manifest,
    content payload object base manifest = .ok true → object.parent = base

namespace GitState

variable (s : GitState)

def withHead (commit : CommitId) : GitState := { s with head := some commit }

def withRemote (url ref : String) (commit : CommitId) : GitState :=
  { s with remotes := s.remotes.put (url, ref) commit }

def withCommit (id : CommitId) (object : CommitObject) (h : object.parent ≠ id) : GitState where
  head := s.head
  commits := s.commits.put id object
  remotes := s.remotes
  acyclic := by
    intro id' object' hlookup
    rw [Table.lookup_put] at hlookup
    split at hlookup
    next heq =>
      cases hlookup
      exact heq ▸ h
    next => exact s.acyclic id' object' hlookup

end GitState

namespace Site

variable (site : Site)

/-- The answers in a state. A push of what is there already is up to date. -/
def answer (s : GitState) : View
  | .revParseHead _ => .ok s.head
  | .stagedMatchesSnapshot payload manifest => .ok (site.staged s.head payload manifest)
  | .commitTree payload tree parent message =>
    (site.view s.head (.commitTree payload tree parent message)).map fun made =>
      made.map fun _ => site.commitId s.commits ⟨tree, parent⟩ message
  | .commitMatchesSnapshot payload commit expectedBase manifest =>
    match s.commits.lookup commit with
    | none => .ok false
    | some object => site.content payload object expectedBase manifest
  | .updateRef payload ref new old =>
    (site.view s.head (.updateRef payload ref new old)).map fun free =>
      free && s.head == some old
  | .push payload url commit ref =>
    if s.remotes.lookup (url, ref) = some commit then .ok (some ())
    else site.accepts s.remotes (.push payload url commit ref)
  | .lsRemote payload url ref => site.listed s.remotes (.lsRemote payload url ref)
  | o => site.view s.head o

/-- The state after an operation. The branch that is updated is the one that is checked out. -/
def after (s : GitState) : Outside → GitState
  | .commitTree payload tree parent message =>
    match site.view s.head (.commitTree payload tree parent message) with
    | .ok (some _) =>
      s.withCommit (site.commitId s.commits ⟨tree, parent⟩ message) ⟨tree, parent⟩
        (site.commitId_ne_parent s.commits ⟨tree, parent⟩ message).symm
    | _ => s
  | .updateRef payload ref new old =>
    match site.answer s (.updateRef payload ref new old), site.view s.head
      (.symbolicRef payload) with
    | .ok true, .ok (some current) => if current = ref then s.withHead new else s
    | _, _ => s
  | .push payload url commit ref =>
    match site.answer s (.push payload url commit ref) with
    | .ok (some _) => s.withRemote url ref commit
    | _ => s
  | _ => s

def afterOp (s : GitState) : Op → GitState
  | .outside o => site.after s o
  | _ => s

/-- The ledger and the workspace, with nobody else at either. -/
def semantics (sha : Sha256) : Semantics orchSig (Ledger × GitState) Unit where
  answer _ x o :=
    let answered := (ledgerSemantics sha).answer (fun _ => site.answer x.2) x.1 o
    (answered.1, answered.2, site.afterOp x.2 o)

end Site

/-- What is answered the same for as long as the branch stays where it is. -/
def Outside.isPlain : Outside → Bool
  | .commitTree .. | .commitMatchesSnapshot .. | .updateRef .. | .push .. | .lsRemote .. => false
  | _ => true

def Op.isPlain : Op → Bool
  | .outside o => o.isPlain
  | _ => false

section Plain

variable {site : Site} {sha : Sha256} {L L' : Ledger} {s s' : GitState} {o : Outside} {α : Type}
  {p : Script α}

theorem answer_of_isPlain (h : o.isPlain) (hs : s.head = s'.head) :
    site.answer s o = site.answer s' o := by
  cases o <;> first
    | exact congrArg (fun head => site.view head _) hs
    | exact congrArg Except.ok hs
    | exact congrArg (fun head => Except.ok (site.staged head _ _)) hs
    | cases h

theorem after_of_isPlain (h : o.isPlain) : site.after s o = s := by
  cases o <;> first | rfl | cases h

/-- A script of plain operations ends alike wherever the branch is the same, and changes nothing. -/
theorem runAll_plain (hp : p.Issues fun o : Op => o.isPlain) (hs : s.head = s'.head)
    (L L' : Ledger) : ∃ x, p.runAll (site.semantics sha) () (L, s) = (x, (L, s)) ∧
      p.runAll (site.semantics sha) () (L', s') = (x, (L', s')) := by
  have hanswer : ∀ o : Op, o.isPlain → ((site.semantics sha).answer () (L, s) o).1 =
      ((site.semantics sha).answer () (L', s') o).1 := by
    intro o ho
    cases o with
    | outside o =>
      change site.answer s o = site.answer s' o
      exact answer_of_isPlain ho hs
    | _ => cases ho
  have hafter : ∀ (L : Ledger) (s : GitState) (o : Op), o.isPlain →
      (site.semantics sha).after () (L, s) o = (L, s) := by
    intro L s o ho
    cases o with
    | outside o => exact congrArg (L, ·) (after_of_isPlain ho)
    | _ => cases ho
  obtain ⟨x, -, hx, hx'⟩ := Prog.runAll_congr hp hanswer (hafter L s) (hafter L' s')
  exact ⟨x, hx, hx'⟩

theorem runAll_outside (hp : p.Issues fun o : Op => ∃ o', o = .outside o') (s : GitState) :
    ∃ x t, ∀ L, p.runAll (site.semantics sha) () (L, s) = (x, (L, t)) := by
  induction p generalizing s with
  | ret a => exact ⟨_, s, fun _ => rfl⟩
  | raise e => exact ⟨_, s, fun _ => rfl⟩
  | call o k ih =>
    obtain ⟨⟨o, rfl⟩, hk⟩ := hp
    exact ih (site.answer s o) (hk _) (site.after s o)

end Plain

/-! ### What scripts return -/

section Yields

variable {site : Site} {sha : Sha256} {L : Ledger} {s : GitState} {y : Ledger × GitState}
  {α β : Type} {a : α} {b : β} {e : Exn}

theorem yields_selectRun_bind {runId : RunId} {f : Option Run → Script α} :
    (Script.selectRun runId >>= f).Yields (site.semantics sha) () (L, s) a y ↔
      (f (L.runs.lookup runId)).Yields (site.semantics sha) () (L, s) a y := Iff.rfl

theorem yields_selectTask_bind {taskId : TaskId} {f : Option Task → Script α} :
    (Script.selectTask taskId >>= f).Yields (site.semantics sha) () (L, s) a y ↔
      (f (L.tasks.lookup taskId)).Yields (site.semantics sha) () (L, s) a y := Iff.rfl

theorem yields_selectSnapshot_bind {snapshotId : Option SnapshotId}
    {f : Option Snapshot → Script α} :
    (Script.selectSnapshot snapshotId >>= f).Yields (site.semantics sha) () (L, s) a y ↔
      (f (snapshotId.bind L.snapshots.lookup)).Yields (site.semantics sha) () (L, s) a y := by
  cases snapshotId <;> rfl

theorem yields_selectPublication_bind {runId : RunId} {f : Option Publication → Script α} :
    (Script.selectPublication runId >>= f).Yields (site.semantics sha) () (L, s) a y ↔
      (f (L.publications.lookup runId)).Yields (site.semantics sha) () (L, s) a y := Iff.rfl

theorem yields_demand_bind {o : Option β} {f : β → Script α} :
    (Script.demand o e >>= f).Yields (site.semantics sha) () (L, s) a y ↔
      ∃ b, o = some b ∧ (f b).Yields (site.semantics sha) () (L, s) a y := by
  cases o <;> simp [Script.demand]

theorem yields_require_bind {p : Prop} [Decidable p] {f : Unit → Script α} :
    (Script.require p e >>= f).Yields (site.semantics sha) () (L, s) a y ↔
      p ∧ (f ()).Yields (site.semantics sha) () (L, s) a y := by
  by_cases hp : p <;> simp [Script.require, hp]

theorem yields_ask {o : Outside} {v : o.Value} :
    (Script.ask o).Yields (site.semantics sha) () (L, s) v y ↔
      site.answer s o = .ok v ∧ y = (L, site.after s o) := by
  change Prog.Yields _ _ (Script.ofChecked (site.answer s o)) (L, site.after s o) v y ↔ _
  cases site.answer s o <;> simp [Script.ofChecked, eq_comm]

theorem raises_ask {o : Outside} :
    (Script.ask o).Raises (site.semantics sha) () (L, s) e y ↔
      site.answer s o = .error e ∧ y = (L, site.after s o) := by
  change Prog.Raises _ _ (Script.ofChecked (site.answer s o)) (L, site.after s o) e y ↔ _
  cases site.answer s o <;> simp [Script.ofChecked, eq_comm]

theorem yields_ask_bind {o : Outside} {f : o.Value → Script α} :
    (Script.ask o >>= f).Yields (site.semantics sha) () (L, s) a y ↔
      ∃ v, site.answer s o = .ok v ∧
        (f v).Yields (site.semantics sha) () (L, site.after s o) a y := by
  simp only [Prog.yields_bind, yields_ask]
  constructor
  · rintro ⟨v, _, ⟨hv, rfl⟩, h⟩
    exact ⟨v, hv, h⟩
  · rintro ⟨v, hv, h⟩
    exact ⟨v, _, ⟨hv, rfl⟩, h⟩

theorem raises_ask_bind {o : Outside} {f : o.Value → Script α} :
    (Script.ask o >>= f).Raises (site.semantics sha) () (L, s) e y ↔
      (site.answer s o = .error e ∧ y = (L, site.after s o)) ∨
        ∃ v, site.answer s o = .ok v ∧
          (f v).Raises (site.semantics sha) () (L, site.after s o) e y := by
  simp only [Prog.raises_bind, raises_ask, yields_ask]
  constructor
  · rintro (h | ⟨v, _, ⟨hv, rfl⟩, h⟩)
    · exact .inl h
    · exact .inr ⟨v, hv, h⟩
  · rintro (h | ⟨v, hv, h⟩)
    · exact .inl h
    · exact .inr ⟨v, _, ⟨hv, rfl⟩, h⟩

theorem yields_attempt_ok {p : Script α} :
    (Script.attempt p).Yields (site.semantics sha) () (L, s) (.ok a) y ↔
      p.Yields (site.semantics sha) () (L, s) a y := by
  rw [Script.attempt, Prog.yields_catching, Prog.yields_bind]
  constructor
  · rintro (⟨a', u, hp, hret⟩ | ⟨e, u, -, hret⟩)
    · rw [Prog.yields_ret, Except.ok.injEq] at hret
      obtain ⟨rfl, rfl⟩ := hret
      exact hp
    · cases e <;> simp at hret
  · intro hp
    exact .inl ⟨a, y, hp, by simp⟩

theorem yields_attempt_error {p : Script α} {message : String} :
    (Script.attempt p).Yields (site.semantics sha) () (L, s) (.error message) y ↔
      p.Raises (site.semantics sha) () (L, s) (.value message) y := by
  rw [Script.attempt, Prog.yields_catching, Prog.yields_bind]
  constructor
  · rintro (⟨a', u, -, hret⟩ | ⟨e, u, hp, hret⟩)
    · simp at hret
    · rw [Prog.raises_bind] at hp
      rcases hp with hp | ⟨a', u', -, hp⟩
      · cases e with
        | value m =>
          rw [Prog.yields_ret, Except.error.injEq] at hret
          obtain ⟨rfl, rfl⟩ := hret
          exact hp
        | other kind m => simp at hret
      · simp at hp
  · intro hp
    exact .inr ⟨.value message, y, Prog.raises_bind.mpr (.inl hp), by simp⟩

end Yields

end OrchKit
