import OrchKit.Git.Publishing

/-! # Recoveries tell the truth

`reconcile_publication` finds out from the branch and the remote what has happened, and records
that. So the chronicle holds after every sequence of commands, wherever each is cut off. There is
one clone for each text that a task has as its workspace, and the remotes of a clone are its own:
two texts for one directory are two clones, and what one clone pushes no other finds.
-/

namespace OrchKit

open Except Program Script Ledger Git

/-! ### reconcile_publication -/

section Reconcile

variable {git : Objects} {sha : Sha256} {w₀ w : Clones} {L : Ledger} {α : Type}
  {commitId : CommitId}
  {row : Publication} {patch : PublicationPatch} {status : PublicationStatus} {staged : Bool}
  {Q : Except Exn α → Ledger × Clones → Prop}

/-- The journal tells the truth for the publication that is reconciled. -/
abbrev Reconciling.InJournal (c : Reconciling) (git : Objects) (sha : Sha256) (L : Ledger)
    (w : Clones) (row : Publication) : Prop :=
  OrchKit.InJournal git sha L w c.runId c.payload c.manifest c.expectedBase row

theorem update_chronicling (c : Reconciling) {f : Option Publication → Script α}
    (h : c.InJournal git sha L w row)
    (hp : Records git (w c.payload.workspace) c.payload c.manifest c.expectedBase row patch)
    (hf : ∀ L', c.InJournal git sha L' w (patch.apply row) →
      (chronicling git sha w₀).Safe (f (some (patch.apply row))) Q (L', w)) :
    (chronicling git sha w₀).Safe (publicationUpdate c.runId (some row) patch >>= f) Q (L, w) := by
  refine Theory.Safe.bind ((publicationUpdate_chronicling h hp).mono ?_)
  rintro _ _ ⟨L', rfl, rfl, h'⟩
  exact hf L' h'

theorem Reconciling.finalize_chronicling (c : Reconciling) {remoteCommit : Option CommitId}
    {kind : PublicationKind} (h : c.InJournal git sha L w row) (hc : row.commitId = some commitId)
    (hdone : Happened git (w c.payload.workspace) c.payload (some commitId) .complete) :
    (chronicling git sha w₀).Safe (c.finalize commitId remoteCommit kind (some row))
      (fun _ _ => True) (L, w) :=
  (OrchKit.finalize_chronicling h hc hdone).mono fun _ _ _ => trivial

theorem reconcileRemote_chronicling (c : Reconciling) (h : c.InJournal git sha L w row)
    (hc : row.commitId = some commitId)
    (hmoved : (w c.payload.workspace).HasMovedTo commitId) :
    (chronicling git sha w₀).Safe (reconcileRemote c commitId (some row)) (fun _ _ => True)
      (L, w) := by
  rw [reconcileRemote]
  split
  next => trivial
  next url hurl =>
    refine onwards_bind transportLsRemote_chronicling (fun remoteCommit w hw hheld => ?_)
      fun _ _ _ => trivial
    have h := h.later hw
    have hmoved := (hw _).hasMovedTo _ hmoved
    split
    next hremote =>
      have hheld : (w c.payload.workspace).Holds git c.payload commitId :=
        ⟨url, hurl, hheld commitId hremote⟩
      refine update_chronicling c h (h.records hc rfl ⟨commitId, rfl, hmoved, hheld⟩)
        fun L h => ?_
      exact c.finalize_chronicling h rfl ⟨commitId, rfl, hmoved, fun _ => hheld⟩
    next =>
      split
      · trivial
      · split
        · trivial
        · refine onwards_bind (transportPush_chronicling hmoved) (fun pushed w hw hpushed => ?_)
            fun _ _ _ => trivial
          have h := h.later hw
          have hmoved := (hw _).hasMovedTo _ hmoved
          cases pushed with
          | none =>
            exact update_chronicling c h (h.records hc rfl ⟨commitId, rfl, hmoved⟩)
              fun _ _ => trivial
          | some _ =>
            have hheld : (w c.payload.workspace).Holds git c.payload commitId :=
              ⟨url, hurl, hpushed rfl⟩
            refine update_chronicling c h (h.records hc rfl ⟨commitId, rfl, hmoved, hheld⟩)
              fun L h => ?_
            refine onwards_bind transportLsRemote_chronicling (fun remoteCommit w hw _ => ?_)
              fun _ _ _ => trivial
            have h := h.later hw
            have hmoved := (hw _).hasMovedTo _ hmoved
            have hheld := hheld.later (hw _)
            split
            · trivial
            · refine update_chronicling c h (h.records rfl rfl ⟨commitId, rfl, hmoved, hheld⟩)
                fun L h => ?_
              exact c.finalize_chronicling h rfl ⟨commitId, rfl, hmoved, fun _ => hheld⟩

theorem reconcileCommitted_chronicling (c : Reconciling) (h : c.InJournal git sha L w row)
    (hc : row.commitId = some commitId)
    (hmoved : (w c.payload.workspace).HasMovedTo commitId) :
    (chronicling git sha w₀).Safe (reconcileCommitted c commitId status (some row))
      (fun _ _ => True) (L, w) := by
  have proceed {row : Publication} {L : Ledger} (h : c.InJournal git sha L w row)
      (hc : row.commitId = some commitId) : (chronicling git sha w₀).Safe
        (ask (.commitMatchesSnapshot c.payload commitId c.expectedBase c.manifest) >>=
          fun proven : Bool => if ¬ proven then return c.blocked "commit_not_proven"
            else if c.payload.publication.kind = .gitLocal then
              c.finalize commitId none .gitLocal (some row)
            else reconcileRemote c commitId (some row) : Script Reply) (fun _ _ => True)
              (L, w) := by
    refine chronicling_bind_still (ask_still rfl) (fun proven => ?_) fun _ => trivial
    split
    · trivial
    · split
      next hkind =>
        refine c.finalize_chronicling h hc ⟨commitId, rfl, hmoved, fun hgit => ?_⟩
        exact absurd (hkind.symm.trans hgit) (by decide)
      next => exact reconcileRemote_chronicling c h hc hmoved
  rw [reconcileCommitted]
  split
  · exact proceed h hc
  · exact update_chronicling c h (h.records hc rfl ⟨commitId, rfl, hmoved⟩)
      fun L h => proceed h rfl

theorem reconcilePrepared_chronicling (c : Reconciling) (h : c.InJournal git sha L w row)
    (hc : row.commitId = some commitId) :
    (chronicling git sha w₀).Safe (reconcilePrepared c staged commitId (some row))
      (fun _ _ => True) (L, w) := by
  rw [reconcilePrepared]
  split
  · trivial
  · refine onwards_bind (attempt_onwards (still_onwards (publicationWorkspaceGuard_still _ _ _)))
      (fun guarded w hw _ => ?_) fun _ _ _ => trivial
    cases guarded with
    | error reason => trivial
    | ok _ =>
      simp only
      split
      · trivial
      · refine onwards_bind (attempt_onwards (casUpdateBranch_chronicling _ (h.later hw) hc))
          (fun updated w' hw' hmoved => ?_) fun _ _ _ => trivial
        cases updated with
        | error _ => trivial
        | ok _ =>
          have h := (h.later hw).later hw'
          have hmoved := hmoved () rfl
          refine update_chronicling c h (h.records hc rfl ⟨commitId, rfl, hmoved⟩) fun L h => ?_
          exact reconcileCommitted_chronicling c h rfl hmoved

theorem reconcileStaged_chronicling (c : Reconciling) (h : c.InJournal git sha L w row)
    (hc : row.commitId = none) :
    (chronicling git sha w₀).Safe (reconcileStaged c staged status (some row))
      (fun _ _ => True) (L, w) := by
  rw [reconcileStaged]
  split
  · refine chronicling_bind_still (ask_still rfl) (fun stagedRaw => ?_) fun _ => trivial
    split
    · exact update_chronicling c h (records_of_none rfl hc) fun _ _ => trivial
    · trivial
  · refine onwards_bind (attempt_onwards (still_onwards (publicationWorkspaceGuard_still _ _ _)))
      (fun guarded w hw _ => ?_) fun _ _ _ => trivial
    have h := h.later hw
    cases guarded with
    | error reason => trivial
    | ok _ =>
      simp only
      split
      · trivial
      · refine Theory.Safe.bind (Theory.Safe.catching (Theory.Safe.bind
          ((prepareSnapshotCommit_chronicling _).mono ?_)))
        rintro (e | commitId) ⟨L', w⟩ ⟨hL, hw, hproves⟩
        · cases hL
          have h := h.later hw
          exact update_chronicling c h (records_of_none rfl hc) fun _ _ => trivial
        · cases hL
          have h := h.later hw
          refine update_chronicling c h (records_of_proves hc rfl (hproves _ rfl) trivial)
            fun L h => ?_
          exact reconcilePrepared_chronicling c h rfl

/-- What the journal records has happened, though its commit is still to be proven. -/
theorem reconcileJournal_chronicling (c : Reconciling)
    (hrow : L.publications.lookup c.runId = some row)
    (hconcerns : L.Concerns sha c.runId c.payload c.manifest)
    (hbase : row.expectedBase = some c.expectedBase)
    (hat : (w c.payload.workspace).HasBeenAt c.expectedBase)
    (hhappened : Happened git (w c.payload.workspace) c.payload row.commitId row.status) :
    (chronicling git sha w₀).Safe (reconcileJournal c row) (fun _ _ => True) (L, w) := by
  have recorded (hproves : ∀ d, row.commitId = some d →
      (w c.payload.workspace).Proves git c.payload d c.expectedBase c.manifest) :
      c.InJournal git sha L w row := ⟨hrow, hconcerns, hbase, hat, hproves, hhappened⟩
  rw [reconcileJournal]
  refine chronicling_bind_ask rfl (fun hsound v head hhead => ?_) fun _ => trivial
  refine chronicling_bind_still (ask_still rfl) (fun staged => ?_) fun _ => trivial
  -- the branch is at a commit that it was moved to
  have moved {d : CommitId} (hd : head = some d) (hne : d ≠ c.expectedBase) :
      (w c.payload.workspace).HasMovedTo d := by
    subst hd
    exact (hsound _).hasMovedTo (head_of_revParse hhead) hat hne
  split
  next commitId hc =>
    refine chronicling_bind_ask rfl (fun _ v proven hproven => ?_) fun _ => trivial
    split
    · trivial
    next hp =>
      rw [not_not] at hp
      subst hp
      have h : c.InJournal git sha L w row := recorded fun d hd => by
        cases hc.symm.trans hd
        exact proves_of_commitMatches hproven
      split
      · exact reconcilePrepared_chronicling c h hc
      next hne =>
        split
        next hcommit =>
          exact reconcileCommitted_chronicling c h hc (moved hcommit fun heq => hne (heq ▸ hcommit))
        · trivial
  next hc =>
    have h : c.InJournal git sha L w row := recorded fun d hd => by
      cases hc.symm.trans hd
    cases head with
    | none => trivial
    | some observed =>
      simp only
      split
      · exact reconcileStaged_chronicling c h hc
      next hne =>
        refine chronicling_bind_ask rfl (fun _ v proven hproven => ?_) fun _ => trivial
        split
        · trivial
        next hp =>
          rw [not_not] at hp
          subst hp
          have hmoved := moved rfl hne
          refine update_chronicling c h (records_of_proves hc rfl
            (proves_of_commitMatches hproven) ⟨observed, rfl, hmoved⟩) fun L h => ?_
          exact reconcileCommitted_chronicling c h rfl hmoved

theorem reconcilePublication_chronicling (r : RunId) (resume : Bool) :
    (chronicling git sha w₀).Safe (reconcilePublication r resume) (fun _ _ => True) (L, w) := by
  refine chronicling_call fun hx _ => ⟨trivial, fun e => ?_⟩
  refine chronicling_call fun _ _ => ⟨trivial, fun _ => ?_⟩
  rcases hp : L.publications.lookup r with _ | row
  · have hrow : ((git.semantics sha).answer e (L, w) (.selectPublication r)).1 = none := hp
    rw [hrow]
    trivial
  have hrow : ((git.semantics sha).answer e (L, w) (.selectPublication r)).1 = some row := hp
  rw [hrow]
  obtain ⟨payload, manifest, base, ⟨run, task, hr, ht, rfl, -⟩, htold⟩ := hx.told r row hp
  change (chronicling git sha w₀).Safe (demand (L.runs.lookup r) _ >>= _) _ (L, w)
  rw [hr]
  refine chronicling_call fun _ _ => ⟨trivial, fun _ => ?_⟩
  change (chronicling git sha w₀).Safe (demand (L.tasks.lookup run.taskId) _ >>= _) _ (L, w)
  rw [ht]
  change (chronicling git sha w₀).Safe (selectSnapshot run.snapshotId >>= _) _ (L, w)
  rcases hsid : run.snapshotId with _ | s
  · trivial
  refine chronicling_call fun _ _ => ⟨trivial, fun _ => ?_⟩
  change (chronicling git sha w₀).Safe (demand (L.snapshots.lookup s) _ >>= _) _ (L, w)
  rcases hsnap : L.snapshots.lookup s with _ | snap
  · trivial
  have hconcerns : L.Concerns sha r task.payload snap.manifest :=
    ⟨run, task, hr, ht, rfl, by rw [hsid, hx.accounted.gated.addressed s snap hsnap]⟩
  change (chronicling git sha w₀).Safe (if row.status = .complete then _ else _) _ (L, w)
  split
  · trivial
  · rw [htold.expectedBase]
    exact reconcileJournal_chronicling _ hp hconcerns htold.expectedBase htold.hasBeenAt
      htold.happened

end Reconcile

/-! ### Sequences -/

section Sequences

variable {git : Objects} {sha : Sha256} {w₀ : Clones}

theorem script_chronicling (c : Command) (x : Ledger × Clones) :
    (chronicling git sha w₀).Safe c.script (fun _ _ => True) x := by
  have untouching (hp : ∀ r, c ≠ .publish r) (hr : ∀ r resume, c ≠ .reconcilePublication r resume) :
      (chronicling git sha w₀).Safe c.script (fun _ _ => True) x := by
    refine (Theory.Safe.of_within (I := fun _ => True) (chronicling_stable _) ?_
      (fun _ _ _ _ _ _ _ => trivial) (script_untouching c hp hr) trivial).mono fun _ _ _ => trivial
    exact fun _ _ _ _ _ ho => justified_of_untouching ho
  cases c with
  | publish r => exact publish_chronicling r
  | reconcilePublication r resume => exact reconcilePublication_chronicling r resume
  | _ => exact untouching nofun nofun

/-- The theory of commands that do not overlap, over the ledger and the clones. -/
def chronicled (git : Objects) (sha : Sha256) (w₀ : Clones) : Theory (git.semantics sha) where
  inv := Chronicled git sha w₀
  ok _ _ := True
  pre x o := Informed x.1 o ∧ Justified git sha x o
  rely _ _ := False
  inv_after _ hx _ hpre := hx.after hpre.1 hpre.2

theorem chronicled_alone : (chronicled git sha w₀).Alone := ⟨fun _ _ => trivial, fun _ _ h => h⟩

theorem chronicled_after (cs : List (Command × List Surroundings)) {x : Ledger × Clones}
    (hx : Chronicled git sha w₀ x) :
    Chronicled git sha w₀ (session (git.semantics sha) Command.script cs x) := by
  refine chronicled_alone.session (T := chronicled git sha w₀) (fun c x hx => ?_) cs hx
  have known : (informed sha (fun _ => True) fun _ _ _ _ _ _ _ _ => trivial).Safe c.script
      (fun _ _ => True) x.1 := script_informed c ⟨hx.orderly, hx.covered, trivial⟩
  have lifted := known.lift (git.projects sha)
  have written : (chronicling git sha w₀).Safe c.script (fun _ _ => True) x :=
    script_chronicling c x
  refine chronicled_alone.safe_of_both ?_ ?_ ?_ lifted written hx
  · exact fun x hx => ⟨⟨hx.orderly, hx.covered, trivial⟩, hx⟩
  · exact fun _ _ => ⟨trivial, id⟩
  · exact fun _ _ h₁ h₂ => ⟨h₁, h₂⟩

theorem chronicled_empty (h : ∀ ws, (w₀ ws).Fresh git) :
    Chronicled git sha w₀ (Ledger.empty, w₀) where
  orderly := orderly_empty
  covered := covered_empty
  accounted := ⟨tracked_empty, gated_empty, completionBacked_empty⟩
  sound ws :=
    { branch := rfl
      others := fun _ _ => rfl
      addressed := (h ws).addressed
      leads := by rw [(h ws).reflog]; rfl
      onParent := fun u hu => by rw [(h ws).reflog] at hu; cases hu
      held := (h ws).held
      pushed := fun _ he => .inl he }
  told _ _ hr := by cases hr
  journaled ws u hu := by
    rw [(h ws).reflog] at hu
    cases hu

/-- What publications have made of the clone of a workspace. -/
structure Ledger.Published (git : Objects) (sha : Sha256) (L : Ledger) (ws : Path) (g₀ g : Clone) :
    Prop where
  others : ∀ ref, ref ≠ g₀.branch → g.refs.lookup ref = g₀.refs.lookup ref
  leads : Leads g₀.head g.reflog g.head
  once : (g.reflog.map RefUpdate.new).Nodup
  named : ∀ u ∈ g.reflog, ∃ r row payload manifest, L.publications.lookup r = some row ∧
    L.Concerns sha r payload manifest ∧ payload.workspace = ws ∧ row.commitId = some u.new ∧
      row.expectedBase = some u.old ∧ g.Proves git payload u.new u.old manifest
  pushed : ∀ entry ∈ g.held, entry ∈ g₀.held ∨ g.HasMovedTo entry.2

theorem Chronicled.published {x : Ledger × Clones} (h : Chronicled git sha w₀ x) (ws : Path) :
    x.1.Published git sha ws (w₀ ws) (x.2 ws) where
  others ref href := (h.sound ws).others ref ((h.sound ws).branch ▸ href)
  leads := (h.sound ws).leads
  once := (h.sound ws).nodup
  named u hu := by
    obtain ⟨r, row, payload, manifest, hr, ⟨run, task, hrun, htask, rfl, -⟩, rfl, hnew, hold⟩ :=
      h.journaled ws u hu
    obtain ⟨payload, manifest, base, hc, htold⟩ := h.told r row hr
    obtain ⟨run', task', hrun', htask', rfl, hsnap⟩ := hc
    cases hrun.symm.trans hrun'
    cases htask.symm.trans htask'
    cases hold.symm.trans htold.expectedBase
    exact ⟨r, row, task.payload, manifest, hr, ⟨run, task, hrun, htask, rfl, hsnap⟩, rfl, hnew,
      hold, htold.proven _ hnew⟩
  pushed := (h.sound ws).pushed

/-- After every sequence of commands, wherever each is cut off, the branch of every workspace has
been moved from where it was by steps to new commits only, each the proven snapshot of a run on the
commit before it, as the journal of the run has it; no other ref has changed, and only commits of
such steps have been pushed. And every journal is true: the commit it names and what its stage
stands for have come to be. -/
theorem clones_session (git : Objects) (sha : Sha256) (w₀ : Clones)
    (h₀ : ∀ ws, (w₀ ws).Fresh git) (cs : List (Command × List Surroundings)) :
    (∀ ws, (session (git.semantics sha) Command.script cs (Ledger.empty, w₀)).1.Published git sha ws
        (w₀ ws) ((session (git.semantics sha) Command.script cs (Ledger.empty, w₀)).2 ws)) ∧
      ∀ r row, (session (git.semantics sha) Command.script cs
          (Ledger.empty, w₀)).1.publications.lookup r = some row →
        Told git sha (session (git.semantics sha) Command.script cs (Ledger.empty, w₀)) r row :=
  have h := chronicled_after cs (chronicled_empty h₀)
  ⟨h.published, h.told⟩

end Sequences

/-! ### A publication -/

namespace Scenario

def spelled (o : CommitObject) : List Char :=
  o.tree.toList.flatMap (fun c => ['x', c]) ++ 'y' :: o.parent.toList

theorem spelled_inj {a b p q : List Char}
    (h : a.flatMap (fun c => ['x', c]) ++ 'y' :: p = b.flatMap (fun c => ['x', c]) ++ 'y' :: q) :
    a = b ∧ p = q := by
  induction a generalizing b with
  | nil =>
    cases b with
    | nil => exact ⟨rfl, (List.cons.inj h).2⟩
    | cons d b => exact absurd (List.cons.inj h).1 (by decide)
  | cons c a ih =>
    cases b with
    | nil => exact absurd (List.cons.inj h).1 (by decide)
    | cons d b =>
      obtain ⟨hcd, h⟩ := List.cons.inj (List.cons.inj h).2
      obtain ⟨rfl, rfl⟩ := ih h
      exact ⟨congrArg (· :: a) hcd, rfl⟩

def objects : Objects where
  commitId o _ _ := String.ofList (spelled o)
  shows _ _ _ := true
  url _ url := url
  age c := c.length
  commitId_injective {o o'} _ _ _ _ h := by
    obtain ⟨htree, hparent⟩ := spelled_inj (String.ofList_injective h)
    cases o
    cases o'
    rw [CommitObject.mk.injEq]
    exact ⟨String.toList_injective htree, String.toList_injective hparent⟩
  age_parent o _ _ := by
    rw [String.length_ofList, spelled, List.length_append, List.length_cons, String.length]
    omega

def clones : Clones := fun _ =>
  ⟨"refs/heads/main", (∅ : Table String CommitId).put "refs/heads/main" "c", ∅, ∅, [], []⟩

theorem clones_fresh (ws : Path) : (clones ws).Fresh objects where
  addressed _ _ h := by cases h
  reflog := rfl
  held _ _ h := by cases h

/-- The commands of `delivered`, on the clones. -/
def deliveredClones : List (Command × List Surroundings) :=
  delivered.map fun c => (c.1, c.2.map fun host => ⟨host, false⟩)

end Scenario

set_option maxRecDepth 8000 in
open Scenario in
theorem clones_session_delivered :
    ((session (objects.semantics Scenario.sha) Command.script deliveredClones
        (Ledger.empty, clones)).2 "w").reflog.map RefUpdate.old = ["c"] ∧
      (∀ ws, (session (objects.semantics Scenario.sha) Command.script deliveredClones
        (Ledger.empty, clones)).1.Published objects Scenario.sha ws (clones ws)
          ((session (objects.semantics Scenario.sha) Command.script deliveredClones
            (Ledger.empty, clones)).2 ws)) ∧
        ∀ r row, (session (objects.semantics Scenario.sha) Command.script deliveredClones
            (Ledger.empty, clones)).1.publications.lookup r = some row →
          Told objects Scenario.sha (session (objects.semantics Scenario.sha) Command.script
            deliveredClones (Ledger.empty, clones)) r row :=
  ⟨by decide, clones_session objects Scenario.sha clones clones_fresh deliveredClones⟩

end OrchKit
