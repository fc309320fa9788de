import OrchKit.Git.Clones
import OrchKit.Ledger.Untouching
import OrchKit.Lifecycle.Gates

/-! # What the journals tell of the branches

A journal names a commit only once the commit has been proven to be the run's snapshot on the base
the journal began at, and a stage only once what it stands for has happened. Every update of a
branch is by a commit that some journal names, so that a run puts no second commit on it, wherever
its publication and the attempts to reconcile it are cut off.
-/

namespace OrchKit

open Except Program Script Ledger Git

/-- The run is of a task with the payload, and at the snapshot of the manifest. -/
def Ledger.Concerns (sha : Sha256) (L : Ledger) (r : RunId) (payload : TaskPayload)
    (manifest : Manifest) : Prop :=
  ∃ run task, L.runs.lookup r = some run ∧ L.tasks.lookup run.taskId = some task ∧
    task.payload = payload ∧ run.snapshotId = some (sha.snapshotId manifest)

def Clone.Holds (git : Objects) (g : Clone) (payload : TaskPayload) (c : CommitId) : Prop :=
  ∃ url, payload.publication.url = some url ∧
    ((git.url payload url, payload.publication.refName), c) ∈ g.held

/-- What a stage stands for has happened to the clone, with the commit that the journal names. -/
def Happened (git : Objects) (g : Clone) (payload : TaskPayload) (c : Option CommitId) :
    PublicationStatus → Prop
  | .intent | .staged | .abandoned => c = none
  | .prepared => True
  | .committed => ∃ d, c = some d ∧ g.HasMovedTo d
  | .pushed | .remoteVerified => ∃ d, c = some d ∧ g.HasMovedTo d ∧ g.Holds git payload d
  | .complete => ∃ d, c = some d ∧ g.HasMovedTo d ∧
    (payload.publication.kind = .git → g.Holds git payload d)

/-- A journal tells the truth about a clone. -/
structure TrueOf (git : Objects) (g : Clone) (payload : TaskPayload) (manifest : Manifest)
    (base : CommitId) (row : Publication) : Prop where
  expectedBase : row.expectedBase = some base
  hasBeenAt : g.HasBeenAt base
  proven : ∀ c, row.commitId = some c → g.Proves git payload c base manifest
  happened : Happened git g payload row.commitId row.status

/-- A journal tells the truth about the clone of its run's task. -/
def Told (git : Objects) (sha : Sha256) (x : Ledger × Clones) (r : RunId) (row : Publication) :
    Prop :=
  ∃ payload manifest base, x.1.Concerns sha r payload manifest ∧
    TrueOf git (x.2 payload.workspace) payload manifest base row

/-- A journal names the commit of an update. -/
def Journaled (sha : Sha256) (L : Ledger) (ws : Path) (u : RefUpdate CommitId) : Prop :=
  ∃ r row payload manifest, L.publications.lookup r = some row ∧
    L.Concerns sha r payload manifest ∧ payload.workspace = ws ∧ row.commitId = some u.new ∧
      row.expectedBase = some u.old

/-- Ledger and clones as commands leave them that began with the clones `w₀`. -/
structure Chronicled (git : Objects) (sha : Sha256) (w₀ : Clones) (x : Ledger × Clones) : Prop where
  orderly : Orderly x.1
  covered : x.1.Covered
  accounted : x.1.Accounted sha
  sound : ∀ ws, Clone.Sound git (w₀ ws) (x.2 ws)
  told : ∀ r row, x.1.publications.lookup r = some row → Told git sha x r row
  journaled : ∀ ws, ∀ u ∈ (x.2 ws).reflog, Journaled sha x.1 ws u

/-- What a write of a journal records is so, a branch is moved only to a commit that a journal
names, and only a commit that it was moved to is pushed. -/
def Justified (git : Objects) (sha : Sha256) (x : Ledger × Clones) : Op → Prop
  | .deletePublication r _ => ∀ row, x.1.publications.lookup r = some row → row.commitId = none
  | .insertPublication r row _ => Told git sha x r row
  | .updatePublication r patch _ => ∀ row, x.1.publications.lookup r = some row →
    Told git sha x r (patch.apply row) ∧
      ∀ c, row.commitId = some c → (patch.apply row).commitId = some c
  | .transaction (.finalizePublication r _ c remoteCommit _ _) => ∀ row,
    x.1.publications.lookup r = some row → row.commitId = some c ∧ Told git sha x r { row with
      status := .complete, commitId := some c, remoteCommit := remoteCommit, error := none }
  | .outside (.updateRef payload ref new old) => ref = (x.2 payload.workspace).branch ∧
    ∃ r row manifest, x.1.publications.lookup r = some row ∧
      x.1.Concerns sha r payload manifest ∧ row.commitId = some new ∧
        row.expectedBase = some old ∧
          (x.2 payload.workspace).Proves git payload new old manifest
  | .outside (.push payload _ commit _) => (x.2 payload.workspace).HasMovedTo commit
  | _ => True

/-- A clone as it is before any command. -/
structure Clone.Fresh (git : Objects) (g : Clone) : Prop where
  addressed : ∀ id object, g.commits.lookup id = some object →
    ∃ message stamp, git.commitId object message stamp = id
  reflog : g.reflog = []
  held : ∀ key c, g.remotes.lookup key = some c → (key, c) ∈ g.held

section Steps

variable {git : Objects} {sha : Sha256} {w₀ w : Clones} {L L' : Ledger} {x : Ledger × Clones}
  {r : RunId} {row : Publication} {payload : TaskPayload} {manifest : Manifest} {g g' : Clone}
  {o : Op} {e : Surroundings}

theorem justified_of_untouching (h : o.Untouching) : Justified git sha x o := by
  cases o with
  | outside o => cases o <;> trivial
  | transaction t => cases t <;> trivial
  | deletePublication | insertPublication | updatePublication => exact h.elim
  | _ => trivial

theorem Clone.Holds.later {c : CommitId} (h : g.Holds git payload c) (hg : Clone.Onward g g') :
    g'.Holds git payload c := by
  obtain ⟨url, hurl, hheld⟩ := h
  exact ⟨url, hurl, hg.held _ hheld⟩

theorem Happened.later {c : Option CommitId} {status : PublicationStatus}
    (h : Happened git g payload c status) (hg : Clone.Onward g g') :
    Happened git g' payload c status := by
  cases status with
  | intent | staged | abandoned => exact h
  | prepared => trivial
  | committed =>
    obtain ⟨d, hd, hmoved⟩ := h
    exact ⟨d, hd, hg.hasMovedTo d hmoved⟩
  | pushed | remoteVerified =>
    obtain ⟨d, hd, hmoved, hheld⟩ := h
    exact ⟨d, hd, hg.hasMovedTo d hmoved, hheld.later hg⟩
  | complete =>
    obtain ⟨d, hd, hmoved, hheld⟩ := h
    exact ⟨d, hd, hg.hasMovedTo d hmoved, fun hkind => (hheld hkind).later hg⟩

theorem TrueOf.later {base : CommitId} (h : TrueOf git g payload manifest base row)
    (hg : Clone.Onward g g') : TrueOf git g' payload manifest base row where
  expectedBase := h.expectedBase
  hasBeenAt := hg.hasBeenAt base h.hasBeenAt
  proven c hc := (h.proven c hc).later hg
  happened := h.happened.later hg

theorem Effect.concerns (h : Effect sha L o L') (hok : InOrder L o) (hcleared : L.Cleared r)
    (hc : L.Concerns sha r payload manifest) : L'.Concerns sha r payload manifest := by
  obtain ⟨run, task, hr, ht, hp, hsnap⟩ := hc
  obtain ⟨row, -, hrow, hs, -⟩ := hcleared
  rw [hr] at hrow
  cases hrow
  obtain ⟨run', hstays⟩ := h.stays hok hr hs
  obtain ⟨task', ht', hp'⟩ := h.tasksKept _ task ht
  exact ⟨run', task', hstays.found, hstays.taskId ▸ ht', hp'.trans hp,
    hstays.snapshotId.trans hsnap⟩

theorem Told.later {w' : Clones} (h : Told git sha (L, w) r row) (he : Effect sha L o L')
    (hok : InOrder L o) (hcleared : L.Cleared r) (hw : ∀ ws, Clone.Onward (w ws) (w' ws)) :
    Told git sha (L', w') r row := by
  obtain ⟨payload, manifest, base, hc, ht⟩ := h
  exact ⟨payload, manifest, base, he.concerns hok hcleared hc, ht.later (hw _)⟩

/-- How a row comes to be in the journal. -/
theorem Effect.row_cases (h : Effect sha L o L') {row' : Publication}
    (hr : L'.publications.lookup r = some row') :
    L.publications.lookup r = some row' ∨ (∃ seen, o = .insertPublication r row' seen) ∨
      (∃ row patch seen, o = .updatePublication r patch seen ∧
        L.publications.lookup r = some row ∧ row' = patch.apply row) ∨
      ∃ row t c remoteCommit kind seen,
        o = .transaction (.finalizePublication r t c remoteCommit kind seen) ∧
          L.publications.lookup r = some row ∧ row' = { row with
            status := .complete, commitId := some c, remoteCommit := remoteCommit,
            error := none } := by
  have same (heq : L'.publications = L.publications) : L.publications.lookup r = some row' :=
    heq ▸ hr
  cases h with
  | quiet _ h | queued _ h => exact .inl (same h.publications)
  | started h => exact .inl (same h.publications)
  | moved _ _ _ _ h | accepted _ _ _ _ _ h | completed _ _ _ _ _ _ _ h | waiting _ _ h =>
    exact .inl (same h.publications)
  | approved _ _ _ _ _ h => exact .inl (same h)
  | result h => obtain ⟨_, _, _, -, -, -, h, -⟩ := verifyResult_spec h; exact .inl (same h)
  | unclaimed h => exact .inl (same (capabilityCreateFailed_spec h).2.2)
  | @finalized runId taskId commitId remoteCommit kind seen _ _ h =>
    rw [(finalizePublication_spec h).2.2, Table.lookup_modify] at hr
    split at hr
    next hid =>
      subst hid
      obtain ⟨row, hrow, rfl⟩ := Option.map_eq_some_iff.mp hr
      exact .inr (.inr (.inr ⟨row, _, _, _, _, _, rfl, hrow, rfl⟩))
    next => exact .inl hr
  | deleted runId seen =>
    simp only [Table.lookup_delete] at hr
    split at hr
    next => cases hr
    next => exact .inl hr
  | inserted runId row seen =>
    simp only [Table.lookup_put] at hr
    split at hr
    next hid =>
      subst hid
      cases hr
      exact .inr (.inl ⟨seen, rfl⟩)
    next => exact .inl hr
  | updated runId patch seen =>
    simp only [Table.lookup_modify] at hr
    split at hr
    next hid =>
      subst hid
      obtain ⟨row, hrow, rfl⟩ := Option.map_eq_some_iff.mp hr
      exact .inr (.inr (.inl ⟨row, patch, seen, rfl, hrow, rfl⟩))
    next => exact .inl hr

/-- The commit a journal names stays named, on the base it is on. -/
theorem Effect.row_kept (h : Effect sha L o L') (hj : Justified git sha (L, w) o) {c : CommitId}
    (hr : L.publications.lookup r = some row) (hc : row.commitId = some c) :
    ∃ row', L'.publications.lookup r = some row' ∧ row'.commitId = some c ∧
      row'.expectedBase = row.expectedBase := by
  have same (heq : L'.publications.lookup r = L.publications.lookup r) :
      ∃ row', L'.publications.lookup r = some row' ∧ row'.commitId = some c ∧
        row'.expectedBase = row.expectedBase := ⟨row, heq.trans hr, hc, rfl⟩
  cases h with
  | quiet _ h | queued _ h => exact same (by rw [h.publications])
  | started h => exact same (by rw [h.publications])
  | moved _ _ _ _ h | accepted _ _ _ _ _ h | completed _ _ _ _ _ _ _ h | waiting _ _ h =>
    exact same (by rw [h.publications])
  | approved _ _ _ _ _ h => exact same (by rw [h])
  | result h => obtain ⟨_, _, _, -, -, -, h, -⟩ := verifyResult_spec h; exact same (by rw [h])
  | unclaimed h => exact same (by rw [(capabilityCreateFailed_spec h).2.2])
  | @finalized runId _ commitId _ _ _ _ _ h =>
    rw [(finalizePublication_spec h).2.2, Table.lookup_modify]
    split
    next hid =>
      subst hid
      obtain ⟨hcommit, -⟩ := hj row hr
      rw [hc] at hcommit
      cases hcommit
      rw [hr]
      exact ⟨_, rfl, rfl, rfl⟩
    next => exact ⟨row, hr, hc, rfl⟩
  | deleted runId seen =>
    simp only [Table.lookup_delete]
    split
    next hid =>
      subst hid
      have hnone := hj row hr
      rw [hc] at hnone
      cases hnone
    next => exact ⟨row, hr, hc, rfl⟩
  | inserted runId row' seen fresh =>
    simp only [Table.lookup_put]
    split
    next hid =>
      subst hid
      rw [hr] at fresh
      cases fresh
    next => exact ⟨row, hr, hc, rfl⟩
  | updated runId patch seen =>
    simp only [Table.lookup_modify]
    split
    next hid =>
      subst hid
      rw [hr]
      exact ⟨_, rfl, (hj row hr).2 c hc, rfl⟩
    next => exact ⟨row, hr, hc, rfl⟩

/-- What an operation makes of the clones. -/
structure ClonesWorked (git : Objects) (w₀ w w' : Clones) (o : Op) : Prop where
  sound : ∀ ws, Clone.Sound git (w₀ ws) (w' ws)
  onward : ∀ ws, Clone.Onward (w ws) (w' ws)
  updates : ∀ ws, ∀ u ∈ (w' ws).reflog, u ∈ (w ws).reflog ∨ ∃ payload ref,
    o = .outside (.updateRef payload ref u.new u.old) ∧ payload.workspace = ws

theorem ClonesWorked.of_sound (hw : ∀ ws, Clone.Sound git (w₀ ws) (w ws)) :
    ClonesWorked git w₀ w w o :=
  ⟨hw, fun _ => Clone.Onward.refl _, fun _ _ hu => .inl hu⟩

theorem ClonesWorked.update {ws : Path} (hw : ∀ ws, Clone.Sound git (w₀ ws) (w ws))
    (hsound : Clone.Sound git (w₀ ws) g) (hon : Clone.Onward (w ws) g)
    (hupdates : ∀ u ∈ g.reflog, u ∈ (w ws).reflog ∨ ∃ payload ref,
      o = .outside (.updateRef payload ref u.new u.old) ∧ payload.workspace = ws) :
    ClonesWorked git w₀ w (Function.update w ws g) o := by
  refine ⟨fun ws' => ?_, fun ws' => ?_, fun ws' u hu => ?_⟩
  all_goals
    by_cases hws : ws' = ws
    · subst hws
      simp only [Function.update_self] at *
      first | exact hsound | exact hon | exact hupdates u hu
    · simp only [Function.update_of_ne hws] at *
      first | exact hw ws' | exact Clone.Onward.refl _ | exact .inl hu

theorem head_of_updateRef {ref : String} {new old : CommitId} {v : View}
    (h : git.answer w v (.updateRef payload ref new old) = .ok true)
    (href : ref = (w payload.workspace).branch) : (w payload.workspace).head = some old := by
  simp only [Objects.answer] at h
  obtain ⟨free, -, h⟩ := map_eq_ok_iff.mp h
  rw [Bool.and_eq_true, beq_iff_eq] at h
  rw [Clone.head, ← href]
  exact h.2

theorem clonesWorked_afterOp (hw : ∀ ws, Clone.Sound git (w₀ ws) (w ws))
    (hj : Justified git sha (L, w) o) :
    ClonesWorked git w₀ w (git.afterOp e w o) o := by
  have push (payload : TaskPayload) (url ref : String) (commit : CommitId)
      (hmoved : (w payload.workspace).HasMovedTo commit) :
      ClonesWorked git w₀ w (Function.update w payload.workspace
        ((w payload.workspace).withRemote url ref commit))
          (.outside (.push payload url commit ref)) :=
    .update hw ((hw _).withRemote _ _ hmoved) (Clone.onward_withRemote _ _ _) fun _ hu => .inl hu
  cases o with
  | outside o =>
    cases o with
    | commitTree payload tree parent message =>
      simp only [Objects.afterOp, Objects.after]
      split
      next id hid =>
        simp only [Objects.answer] at hid
        obtain ⟨made, -, hmade⟩ := map_eq_ok_iff.mp hid
        obtain ⟨stamp, -, rfl⟩ := Option.map_eq_some_iff.mp hmade
        exact .update hw ((hw _).withCommit _ _ _) ((hw _).onward_withCommit _ _ _)
          fun _ hu => .inl hu
      next => exact .of_sound hw
    | updateRef payload ref new old =>
      obtain ⟨href, r, row, manifest, -, -, -, -, hproves⟩ := hj
      simp only at href hproves
      subst href
      have moved (hold : (w payload.workspace).head = some old) : ClonesWorked git w₀ w
          (Function.update w payload.workspace
            ((w payload.workspace).withRef (w payload.workspace).branch new old))
          (.outside (.updateRef payload (w payload.workspace).branch new old)) := by
        refine .update hw ((hw _).withRef hold hproves) (Clone.onward_withRef hold) fun u hu => ?_
        simp only [Clone.withRef, if_pos] at hu
        rcases List.mem_cons.mp hu with rfl | hu
        · exact .inr ⟨payload, _, rfl, rfl⟩
        · exact .inl hu
      simp only [Objects.afterOp, Objects.after]
      split
      next hok => exact moved (head_of_updateRef hok rfl)
      next =>
        split
        next harrives => exact moved harrives.2
        next => exact .of_sound hw
    | push payload url commit ref =>
      simp only [Objects.afterOp, Objects.after]
      split
      · exact push _ _ _ _ hj
      · split
        · exact push _ _ _ _ hj
        · exact .of_sound hw
    | _ => exact .of_sound hw
  | _ => exact .of_sound hw

/-- What every justified operation keeps. -/
theorem Chronicled.after (h : Chronicled git sha w₀ x) (ho : Informed x.1 o)
    (hj : Justified git sha x o) : Chronicled git sha w₀ ((git.semantics sha).after e x o) := by
  obtain ⟨L, w⟩ := x
  have he : Effect sha L o ((ledgerSemantics sha).after (fun n => git.answer w (e.host n)) L o) :=
    Effect.after sha _ L o
  have hw : ClonesWorked git w₀ w (git.afterOp e w o) o := clonesWorked_afterOp h.sound hj
  change Chronicled git sha w₀ ((ledgerSemantics sha).after _ L o, git.afterOp e w o)
  generalize (ledgerSemantics sha).after (fun n => git.answer w (e.host n)) L o = L' at he
  generalize git.afterOp e w o = w' at hw
  have kept {r : RunId} {row : Publication} (hr : L.publications.lookup r = some row)
      {row' : Publication} (ht : Told git sha (L, w) r row') : Told git sha (L', w') r row' :=
    ht.later he ho.inOrder (h.covered r (by rw [hr]; rfl)) hw.onward
  refine ⟨he.orderly h.orderly ho.inOrder ho.grounded, he.covered h.covered ho.inOrder ho.bound,
    ⟨(he.advance ho.inOrder ho.grounded).tracked h.orderly.sound h.accounted.tracked,
      he.gated h.covered h.accounted.gated ho,
      he.completionBacked h.accounted.backed ho.fresh ho.wellSeen⟩, hw.sound, fun r row' hr => ?_,
    fun ws u hu => ?_⟩
  · rcases he.row_cases hr with hr | ⟨seen, rfl⟩ | ⟨row, patch, seen, rfl, hrow, rfl⟩ |
      ⟨row, t, c, remoteCommit, kind, seen, rfl, hrow, rfl⟩
    · exact kept hr (h.told r row' hr)
    · exact Told.later hj he ho.inOrder ho.bound hw.onward
    · exact kept hrow (hj row hrow).1
    · exact kept hrow (hj row hrow).2
  · have named : Journaled sha L ws u := by
      rcases hw.updates ws u hu with hu | ⟨payload, ref, rfl, rfl⟩
      · exact h.journaled ws u hu
      · obtain ⟨-, r, row, manifest, hr, hc, hnew, hold, -⟩ := hj
        exact ⟨r, row, payload, manifest, hr, hc, rfl, hnew, hold⟩
    obtain ⟨r, row, payload, manifest, hr, hc, hws, hnew, hold⟩ := named
    obtain ⟨row', hr', hnew', hbase⟩ := he.row_kept hj hr hnew
    exact ⟨r, row', payload, manifest, hr',
      he.concerns ho.inOrder (h.covered r (by rw [hr]; rfl)) hc, hws, hnew', hbase.trans hold⟩

end Steps

end OrchKit
