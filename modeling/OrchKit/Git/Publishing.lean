import OrchKit.Git.Chronicle

/-! # Publications tell the truth

Every stage of `publish` writes to the journal what has happened, and the branch is moved to a
commit only once the journal names it. Where it is interrupted, the stage it records is one that it
has reached.
-/

namespace OrchKit

open Except Program Script Ledger Git

/-- The theory of commands that write only what has happened. -/
def chronicling (git : Objects) (sha : Sha256) (w₀ : Clones) : Theory (git.semantics sha) where
  inv := Chronicled git sha w₀
  ok x := Informed x.1
  pre := Justified git sha
  rely _ _ := False
  inv_after _ hx ho hj := hx.after ho hj

def Later (w w' : Clones) : Prop := ∀ ws, Clone.Onward (w ws) (w' ws)

theorem Later.refl (w : Clones) : Later w w := fun _ => Clone.Onward.refl _

theorem Later.trans {w w' w'' : Clones} (h : Later w w') (h' : Later w' w'') : Later w w'' :=
  fun ws => (h ws).trans (h' ws)

def Onwards {α : Type} (L : Ledger) (w : Clones) (R : α → Clones → Prop) :
    Except Exn α → Ledger × Clones → Prop :=
  fun y x => x.1 = L ∧ Later w x.2 ∧ ∀ a, y = .ok a → R a x.2

section Rules

variable {git : Objects} {sha : Sha256} {w₀ w : Clones} {L : Ledger} {α β ε : Type}

theorem chronicling_stable (I : Ledger × Clones → Prop) : (chronicling git sha w₀).Stable I :=
  fun _ _ _ _ h => False.elim h

theorem chronicling_call {o : Op} {k : o.Ans → Prog orchSig ε α} {x : Ledger × Clones}
    {Q : Except ε α → Ledger × Clones → Prop}
    (h : Chronicled git sha w₀ x → Informed x.1 o → Justified git sha x o ∧ ∀ e : Surroundings,
      (chronicling git sha w₀).Safe (k ((git.semantics sha).answer e x o).1) Q
        ((git.semantics sha).after e x o)) :
    (chronicling git sha w₀).Safe (.call o k) Q x :=
  Theory.Safe.call (I := (· = x)) (chronicling_stable _) rfl <| by
    rintro _ hx rfl ho
    exact h hx ho

theorem after_of_still {e : Surroundings} {x : Ledger × Clones} {o : Op} (h : o.Still) :
    (git.semantics sha).after e x o = x := by
  obtain ⟨L, w⟩ := x
  refine Prod.ext (after_of_quiet h.quiet) ?_
  change git.afterOp e w o = w
  cases o with
  | outside o => cases o <;> first | rfl | cases h
  | _ => rfl

theorem chronicling_still {p : Prog orchSig ε α} {E : Except ε α → Prop} {x : Ledger × Clones}
    (hp : p.Within Op.Still E) :
    (chronicling git sha w₀).Safe p (fun y z => E y ∧ z = x) x := by
  refine Theory.Safe.of_within (I := (· = x)) (chronicling_stable _) ?_ ?_ hp rfl
  · exact fun t o _ _ _ ho => justified_of_untouching ho.untouching
  · rintro t o e - rfl - ho
    exact after_of_still ho

theorem chronicling_bind_still {p : Prog orchSig ε β} {f : β → Prog orchSig ε α}
    {x : Ledger × Clones} {Q : Except ε α → Ledger × Clones → Prop} (hp : p.Issues Op.Still)
    (hf : ∀ b, (chronicling git sha w₀).Safe (f b) Q x) (herr : ∀ e, Q (.error e) x) :
    (chronicling git sha w₀).Safe (p >>= f) Q x := by
  refine Theory.Safe.bind ((chronicling_still hp).mono ?_)
  rintro (e | b) t ⟨-, rfl⟩
  · exact herr e
  · exact hf b

theorem chronicling_bind_ask {o : Outside} {f : o.Value → Script α}
    {Q : Except Exn α → Ledger × Clones → Prop} (ho : o.writes = false)
    (hf : (∀ ws, Clone.Sound git (w₀ ws) (w ws)) → ∀ v a, git.answer w v o = .ok a →
      (chronicling git sha w₀).Safe (f a) Q (L, w)) (herr : ∀ e, Q (.error e) (L, w)) :
    (chronicling git sha w₀).Safe (ask o >>= f) Q (L, w) := by
  have hstill : Op.Still (.outside o) := ho
  refine chronicling_call fun hx _ => ⟨justified_of_untouching hstill.untouching, fun e => ?_⟩
  rw [after_of_still hstill]
  change (chronicling git sha w₀).Safe (ofChecked (git.answer w (e.host 0) o) >>= f) Q (L, w)
  rcases ha : git.answer w (e.host 0) o with err | a
  · exact herr err
  · exact hf hx.sound _ a ha

theorem ask_onwards {o : Outside} {R : o.Value → Clones → Prop}
    (hj : Justified git sha (L, w) (.outside o))
    (hR : (∀ ws, Clone.Sound git (w₀ ws) (w ws)) → ∀ e a, git.answer w (e.host 0) o = .ok a →
      R a (git.after e w o)) :
    (chronicling git sha w₀).Safe (ask o) (Onwards L w R) (L, w) := by
  refine chronicling_call fun hx _ => ⟨hj, fun e => ?_⟩
  have hworked : ClonesWorked git w₀ w (git.after e w o) (.outside o) :=
    clonesWorked_afterOp (e := e) hx.sound hj
  change (chronicling git sha w₀).Safe (ofChecked (git.answer w (e.host 0) o)) _
    (L, git.after e w o)
  rcases ha : git.answer w (e.host 0) o with err | a
  · exact ⟨rfl, hworked.onward, fun _ h => by cases h⟩
  · refine ⟨rfl, hworked.onward, ?_⟩
    rintro _ ⟨⟩
    exact hR hx.sound e a ha

theorem onwards_bind {p : Script β} {f : β → Script α} {R : β → Clones → Prop}
    {Q : Except Exn α → Ledger × Clones → Prop}
    (hp : (chronicling git sha w₀).Safe p (Onwards L w R) (L, w))
    (hf : ∀ b w', Later w w' → R b w' → (chronicling git sha w₀).Safe (f b) Q (L, w'))
    (herr : ∀ e w', Later w w' → Q (.error e) (L, w')) :
    (chronicling git sha w₀).Safe (p >>= f) Q (L, w) := by
  refine Theory.Safe.bind (hp.mono ?_)
  rintro (e | b) ⟨L', w'⟩ ⟨hL, hw, hR⟩
  · cases hL
    exact herr e w' hw
  · cases hL
    exact hf b w' hw (hR b rfl)

theorem Onwards.error {R : α → Clones → Prop} {e : Exn} {w' : Clones} (hw : Later w w') :
    Onwards L w R (.error e) (L, w') := ⟨rfl, hw, fun _ h => by cases h⟩

theorem Onwards.ok {R : α → Clones → Prop} {a : α} {w' : Clones} (hw : Later w w')
    (hR : R a w') : Onwards L w R (.ok a) (L, w') :=
  ⟨rfl, hw, fun _ h => by cases h; exact hR⟩

theorem Onwards.since {R : α → Clones → Prop} {w' : Clones} (hw : Later w w') {y : Except Exn α}
    {x : Ledger × Clones} (h : Onwards L w' R y x) : Onwards L w R y x :=
  ⟨h.1, hw.trans h.2.1, h.2.2⟩

theorem still_onwards {p : Script α} (hp : p.Issues Op.Still) :
    (chronicling git sha w₀).Safe p (Onwards L w fun _ _ => True) (L, w) := by
  refine (chronicling_still hp).mono ?_
  rintro y _ ⟨-, rfl⟩
  exact ⟨rfl, Later.refl w, fun _ _ => trivial⟩

theorem attempt_onwards {p : Script α} {R : α → Clones → Prop}
    (hp : (chronicling git sha w₀).Safe p (Onwards L w R) (L, w)) :
    (chronicling git sha w₀).Safe (attempt p)
      (Onwards L w fun y w' => ∀ a, y = .ok a → R a w') (L, w) := by
  refine Theory.Safe.catching (Theory.Safe.bind (hp.mono ?_))
  rintro (e | a) ⟨L', w'⟩ ⟨hL, hw, hR⟩
  · cases hL
    cases e with
    | value message =>
      refine ⟨rfl, hw, ?_⟩
      rintro _ ⟨⟩ _ ⟨⟩
    | other => exact Onwards.error hw
  · cases hL
    refine ⟨rfl, hw, ?_⟩
    rintro _ ⟨⟩ _ ⟨⟩
    exact hR a rfl

end Rules

/-! ### What Git answers -/

section Answers

variable {git : Objects} {w : Clones} {v : View} {payload : TaskPayload} {c base : CommitId}
  {manifest : Manifest} {ref url : String}

theorem head_of_revParse (h : git.answer w v (.revParseHead payload) = .ok (some c)) :
    (w payload.workspace).head = some c := by
  obtain ⟨shown, -, h⟩ := map_eq_ok_iff.mp h
  obtain ⟨_, -, h⟩ := Option.bind_eq_some_iff.mp h
  exact h

theorem branch_of_symbolicRef (h : git.answer w v (.symbolicRef payload) = .ok (some ref)) :
    ref = (w payload.workspace).branch := by
  obtain ⟨shown, -, h⟩ := map_eq_ok_iff.mp h
  obtain ⟨_, -, h⟩ := Option.map_eq_some_iff.mp h
  exact h.symm

theorem proves_of_commitMatches
    (h : git.answer w v (.commitMatchesSnapshot payload c base manifest) = .ok true) :
    (w payload.workspace).Proves git payload c base manifest := by
  obtain ⟨shown, -, h⟩ := map_eq_ok_iff.mp h
  rw [Bool.and_eq_true] at h
  exact Objects.proves_iff.mp h.2

theorem url_of_inspect {reply : Except String String}
    (h : git.answer w v (.inspectTransportUrl payload url) = .ok reply) {canonical : String}
    (hreply : reply = .ok canonical) : canonical = git.url payload url := by
  subst hreply
  obtain ⟨policy, -, h⟩ := map_eq_ok_iff.mp h
  obtain ⟨_, -, h⟩ := map_eq_ok_iff.mp h
  exact h.symm

theorem remote_of_lsRemote (h : git.answer w v (.lsRemote payload url ref) = .ok (some c)) :
    (w payload.workspace).remotes.lookup (url, ref) = some c := by
  obtain ⟨shown, -, h⟩ := map_eq_ok_iff.mp h
  obtain ⟨_, -, h⟩ := Option.bind_eq_some_iff.mp h
  exact h

end Answers


/-! ### Parts of a publication -/

/-- The journal of the run is as the call last saw it, and tells the truth. -/
structure InJournal (git : Objects) (sha : Sha256) (L : Ledger) (w : Clones) (r : RunId)
    (payload : TaskPayload) (manifest : Manifest) (base : CommitId) (row : Publication) :
    Prop where
  fresh : L.publications.lookup r = some row
  concerns : L.Concerns sha r payload manifest
  truthful : TrueOf git (w payload.workspace) payload manifest base row

section Parts

variable {git : Objects} {sha : Sha256} {w₀ w w' : Clones} {L : Ledger} {r : RunId}
  {payload : TaskPayload} {manifest : Manifest} {base c : CommitId} {row : Publication}
  {patch : PublicationPatch} {intent : Option PublicationIntent} {url ref : String}

theorem InJournal.later (h : InJournal git sha L w r payload manifest base row) (hw : Later w w') :
    InJournal git sha L w' r payload manifest base row :=
  ⟨h.fresh, h.concerns, h.truthful.later (hw _)⟩

theorem InJournal.proves (h : InJournal git sha L w r payload manifest base row)
    (hc : row.commitId = some c) : (w payload.workspace).Proves git payload c base manifest :=
  h.truthful.proven c hc

theorem Ledger.Concerns.of_eq {L' : Ledger} (h : L.Concerns sha r payload manifest)
    (hruns : L'.runs = L.runs) (htasks : L'.tasks = L.tasks) :
    L'.Concerns sha r payload manifest := by
  obtain ⟨run, task, hr, ht, hp⟩ := h
  exact ⟨run, task, hruns ▸ hr, htasks ▸ ht, hp⟩

/-- A patch that keeps the commit a journal names, and records what has happened. -/
structure Records (git : Objects) (g : Clone) (payload : TaskPayload) (manifest : Manifest)
    (base : CommitId) (row : Publication) (patch : PublicationPatch) : Prop where
  keeps : ∀ c, row.commitId = some c → patch.commitId.or row.commitId = some c
  proven : ∀ c, patch.commitId = some c → g.Proves git payload c base manifest
  happened : Happened git g payload (patch.commitId.or row.commitId) patch.status

theorem Records.truthful {g : Clone} (h : TrueOf git g payload manifest base row)
    (hp : Records git g payload manifest base row patch) :
    TrueOf git g payload manifest base (patch.apply row) where
  expectedBase := h.expectedBase
  hasBeenAt := h.hasBeenAt
  proven c hc := by
    rcases Option.or_eq_some_iff.mp (show patch.commitId.or row.commitId = some c from hc) with
      hc | ⟨-, hc⟩
    · exact hp.proven c hc
    · exact h.proven c hc
  happened := hp.happened

theorem InJournal.records (h : InJournal git sha L w r payload manifest base row)
    (hc : row.commitId = some c) (hpatch : patch.commitId = some c)
    (hhappened : Happened git (w payload.workspace) payload (some c) patch.status) :
    Records git (w payload.workspace) payload manifest base row patch := by
  refine ⟨fun d hd => ?_, fun d hd => ?_, ?_⟩
  · rwa [hpatch, ← hc, Option.or_self]
  · rw [hpatch] at hd
    cases hd
    exact h.proves hc
  · rwa [hpatch]

theorem records_of_proves {g : Clone} (hc : row.commitId = none) (hpatch : patch.commitId = some c)
    (hproves : g.Proves git payload c base manifest)
    (hhappened : Happened git g payload (some c) patch.status) :
    Records git g payload manifest base row patch := by
  refine ⟨fun d hd => ?_, fun d hd => ?_, ?_⟩
  · rw [hc] at hd
    cases hd
  · rw [hpatch] at hd
    cases hd
    exact hproves
  · rwa [hpatch]

theorem records_of_none {g : Clone} (hpatch : patch.commitId = none)
    (hhappened : Happened git g payload row.commitId patch.status) :
    Records git g payload manifest base row patch := by
  refine ⟨fun d hd => ?_, fun d hd => ?_, ?_⟩
  · rwa [hpatch]
  · rw [hpatch] at hd
    cases hd
  · rwa [hpatch]

theorem publicationUpdate_chronicling (h : InJournal git sha L w r payload manifest base row)
    (hp : Records git (w payload.workspace) payload manifest base row patch) :
    (chronicling git sha w₀).Safe (publicationUpdate r (some row) patch intent)
      (fun y x => ∃ L', y = .ok (some (patch.apply row)) ∧ x = (L', w) ∧
        InJournal git sha L' w r payload manifest base (patch.apply row)) (L, w) := by
  have ht := hp.truthful h.truthful
  refine chronicling_call fun _ _ => ⟨trivial, fun _ => ?_⟩
  have hrow : ((git.semantics sha).answer ‹Surroundings› (L, w) (.selectPublication r)).1 =
    some row := h.fresh
  rw [hrow]
  refine chronicling_call fun _ _ => ⟨fun row' hrow' => ?_, fun _ => ?_⟩
  · have hsame := h.fresh.symm.trans hrow'
    cases hsame
    exact ⟨⟨payload, manifest, base, h.concerns, ht⟩, hp.keeps⟩
  · refine ⟨_, rfl, rfl, ?_, Concerns.of_eq h.concerns rfl rfl, ht⟩
    change (L.publications.modify r patch.apply).lookup r = _
    rw [Table.lookup_modify, if_pos rfl, h.fresh]
    rfl

theorem transportUrl_chronicling :
    (chronicling git sha w₀).Safe (transportUrl payload url)
      (Onwards L w fun canonical _ => canonical = git.url payload url) (L, w) := by
  refine chronicling_bind_ask rfl (fun _ v policy ha => ?_) fun _ => Onwards.error (Later.refl w)
  cases policy with
  | ok canonical => exact Onwards.ok (Later.refl w) (url_of_inspect ha rfl)
  | error => exact Onwards.error (Later.refl w)

theorem transportPush_chronicling (hmoved : (w payload.workspace).HasMovedTo c) :
    (chronicling git sha w₀).Safe (transportPush payload url c ref) (Onwards L w
      fun pushed w' => pushed = some () →
        ((git.url payload url, ref), c) ∈ (w' payload.workspace).held) (L, w) := by
  refine onwards_bind transportUrl_chronicling (fun canonical w' hw hcanonical => ?_)
    fun _ _ hw => Onwards.error hw
  subst hcanonical
  refine (ask_onwards (o := .push payload _ c ref) ((hw _).hasMovedTo c hmoved)
    fun _ e pushed ha => ?_).mono fun _ _ => Onwards.since hw
  rintro rfl
  simp only [Objects.after, ha, Function.update_self]
  exact List.mem_cons_self

theorem transportLsRemote_chronicling :
    (chronicling git sha w₀).Safe (transportLsRemote payload url ref) (Onwards L w
      fun remoteCommit w' => ∀ c, remoteCommit = some c →
        ((git.url payload url, ref), c) ∈ (w' payload.workspace).held) (L, w) := by
  refine onwards_bind transportUrl_chronicling (fun canonical w' hw hcanonical => ?_)
    fun _ _ hw => Onwards.error hw
  subst hcanonical
  refine
    (ask_onwards (o := .lsRemote payload _ ref) trivial fun hsound e remoteCommit ha => ?_).mono
    fun _ _ => Onwards.since hw
  rintro c rfl
  exact (hsound _).held _ c (remote_of_lsRemote ha)

theorem prepareSnapshotCommit_chronicling (message : String) :
    (chronicling git sha w₀).Safe (prepareSnapshotCommit payload base manifest message)
      (Onwards L w fun c w' => (w' payload.workspace).Proves git payload c base manifest)
      (L, w) := by
  refine chronicling_bind_ask rfl (fun _ v tree _ => ?_) fun _ => Onwards.error (Later.refl w)
  cases tree with
  | none => exact Onwards.error (Later.refl w)
  | some tree =>
    change (chronicling git sha w₀).Safe (ask (.commitTree payload tree base message) >>= _) _
      (L, w)
    refine onwards_bind (ask_onwards (o := .commitTree payload tree base message)
      (R := fun _ _ => True) trivial fun _ _ _ _ => trivial) (fun commit w' hw _ => ?_)
      fun _ _ hw => Onwards.error hw
    cases commit with
    | none => exact Onwards.error hw
    | some commit =>
      refine chronicling_bind_ask rfl (fun _ v proven ha => ?_) fun _ => Onwards.error hw
      cases proven with
      | false => exact Onwards.error hw
      | true => exact Onwards.ok hw (proves_of_commitMatches ha)

theorem casUpdateBranch_chronicling (branch : String)
    (h : InJournal git sha L w r payload manifest base row) (hc : row.commitId = some c) :
    (chronicling git sha w₀).Safe (casUpdateBranch payload branch c base)
      (Onwards L w fun _ w' => (w' payload.workspace).HasMovedTo c) (L, w) := by
  refine chronicling_bind_ask rfl (fun _ v symbolic ha => ?_) fun _ => Onwards.error (Later.refl w)
  by_cases href : symbolic = some ("refs/heads/" ++ branch)
  swap
  · rw [Script.require, if_neg href]
    exact Onwards.error (Later.refl w)
  rw [Script.require, if_pos href]
  subst href
  have hbranch := branch_of_symbolicRef ha
  refine onwards_bind (R := fun updated w' => updated = true →
      (w' payload.workspace).HasMovedTo c) (ask_onwards ?_ fun _ e updated hu => ?_)
    (fun updated w' hw hmoved => ?_) fun _ _ hw => Onwards.error hw
  · exact ⟨hbranch, r, row, manifest, h.fresh, h.concerns, hc, h.truthful.expectedBase,
      h.proves hc⟩
  · rintro rfl
    simp only [Objects.after, hu, Function.update_self, hbranch]
    exact Clone.hasMovedTo_withRef
  · cases updated with
    | true => exact Onwards.ok hw (hmoved rfl)
    | false =>
      exact chronicling_bind_ask rfl (fun _ _ _ _ => Onwards.error hw) fun _ => Onwards.error hw

end Parts

/-! ### publish -/

/-- What a part of `publish` returns, or what it knows of the journal where it is interrupted. -/
def Interrupts {α : Type} (git : Objects) (sha : Sha256) (c : Publishing)
    (R : α → Ledger × Clones → Prop) : Except Interrupted α → Ledger × Clones → Prop
  | .ok a, x => R a x
  | .error i, x => ∃ row, i.seen = some row ∧
    InJournal git sha x.1 x.2 c.runId c.payload c.manifest c.expectedBase row ∧
      Happened git (x.2 c.payload.workspace) c.payload row.commitId i.phase

section Publish

variable {git : Objects} {sha : Sha256} {w₀ w : Clones} {L : Ledger} {α β : Type} {c : Publishing}
  {commitId : CommitId} {row : Publication} {phase : PublicationStatus} {patch : PublicationPatch}
  {R : β → Ledger × Clones → Prop}

/-- The journal tells the truth for the publication that is under way. -/
abbrev Publishing.InJournal (c : Publishing) (git : Objects) (sha : Sha256) (L : Ledger)
    (w : Clones) (row : Publication) : Prop :=
  OrchKit.InJournal git sha L w c.runId c.payload c.manifest c.expectedBase row

theorem interrupts_bind_onwards {p : Script α} {f : α → Prog orchSig Interrupted β}
    {S : α → Clones → Prop} (h : c.InJournal git sha L w row)
    (hphase : Happened git (w c.payload.workspace) c.payload row.commitId phase)
    (hp : (chronicling git sha w₀).Safe p (Onwards L w S) (L, w))
    (hf : ∀ a w', c.InJournal git sha L w' row → Later w w' → S a w' →
      (chronicling git sha w₀).Safe (f a) (Interrupts git sha c R) (L, w')) :
    (chronicling git sha w₀).Safe (inPhase phase (some row) p >>= f) (Interrupts git sha c R)
      (L, w) := by
  refine Theory.Safe.bind (Theory.Safe.catching (hp.mono ?_))
  rintro (e | a) ⟨L', w'⟩ ⟨hL, hw, hR⟩
  · cases hL
    exact ⟨row, rfl, h.later hw, hphase.later (hw _)⟩
  · cases hL
    exact hf a w' (h.later hw) hw (hR a rfl)

theorem interrupts_bind_update {f : Option Publication → Prog orchSig Interrupted β}
    (h : c.InJournal git sha L w row)
    (hp : Records git (w c.payload.workspace) c.payload c.manifest c.expectedBase row patch)
    (hf : ∀ L', c.InJournal git sha L' w (patch.apply row) →
      (chronicling git sha w₀).Safe (f (some (patch.apply row))) (Interrupts git sha c R)
        (L', w)) :
    (chronicling git sha w₀).Safe
      (inPhase phase (some row) (publicationUpdate c.runId (some row) patch) >>= f)
      (Interrupts git sha c R) (L, w) := by
  refine Theory.Safe.bind (Theory.Safe.catching ((publicationUpdate_chronicling h hp).mono ?_))
  rintro _ _ ⟨L', rfl, rfl, h'⟩
  exact hf L' h'

theorem finalize_chronicling {r : RunId} {t : TaskId} {payload : TaskPayload}
    {manifest : Manifest} {base : CommitId} {remoteCommit : Option CommitId}
    {kind : PublicationKind} (h : InJournal git sha L w r payload manifest base row)
    (hc : row.commitId = some commitId)
    (hdone : Happened git (w payload.workspace) payload (some commitId) .complete) :
    (chronicling git sha w₀).Safe
      (transact (.finalizePublication r t commitId remoteCommit kind (some row)))
      (fun y _ => ∃ reply, y = .ok reply) (L, w) := by
  refine chronicling_call fun _ _ => ⟨fun row' hrow' => ?_, fun _ => ⟨_, rfl⟩⟩
  have hsame := h.fresh.symm.trans hrow'
  cases hsame
  refine ⟨hc, payload, manifest, base, h.concerns, h.truthful.expectedBase, h.truthful.hasBeenAt,
    fun d hd => ?_, hdone⟩
  cases hd
  exact h.proves hc

theorem publishRemote_chronicling (h : c.InJournal git sha L w row)
    (hc : row.commitId = some commitId)
    (hmoved : (w c.payload.workspace).HasMovedTo commitId) :
    (chronicling git sha w₀).Safe (publishRemote c commitId (some row))
      (Interrupts git sha c fun _ _ => True) (L, w) := by
  have finalized {L : Ledger} {w : Clones} {row : Publication} {remoteCommit : Option CommitId}
      {kind : PublicationKind} {phase : PublicationStatus} (h : c.InJournal git sha L w row)
      (hc : row.commitId = some commitId)
      (hdone : Happened git (w c.payload.workspace) c.payload (some commitId) .complete) :
      (chronicling git sha w₀).Safe (inPhase phase (some row)
        (transact (.finalizePublication c.runId c.taskId commitId remoteCommit kind (some row))))
        (Interrupts git sha c fun _ _ => True) (L, w) := by
    refine Theory.Safe.catching ((finalize_chronicling h hc hdone).mono ?_)
    rintro _ _ ⟨reply, rfl⟩
    trivial
  rw [publishRemote]
  split
  next hkind => exact finalized h hc ⟨commitId, rfl, hmoved, fun hgit => absurd hgit hkind⟩
  next =>
    refine interrupts_bind_onwards (S := fun _ w' => (w' c.payload.workspace).Holds git c.payload
      commitId) h ⟨commitId, hc, hmoved⟩ ?_ fun remoteUrl w' h hw hheld => ?_
    · rcases hurl : c.payload.publication.url with _ | url
      · exact Onwards.error (Later.refl w)
      change (chronicling git sha w₀).Safe (transportPush c.payload url commitId
        c.payload.publication.refName >>= _) _ (L, w)
      refine onwards_bind (transportPush_chronicling hmoved) (fun pushed w' hw hheld => ?_)
        fun _ _ hw => Onwards.error hw
      cases pushed with
      | none => exact Onwards.error hw
      | some _ => exact Onwards.ok hw ⟨url, hurl, hheld rfl⟩
    have hmoved := (hw _).hasMovedTo _ hmoved
    refine interrupts_bind_update h (h.records hc rfl ⟨commitId, rfl, hmoved, hheld⟩)
      fun L h => ?_
    refine interrupts_bind_onwards (S := fun _ _ => True) h ⟨commitId, rfl, hmoved, hheld⟩ ?_
      fun remoteCommit w'' h hw _ => ?_
    · refine onwards_bind transportLsRemote_chronicling (fun remoteCommit w'' hw _ => ?_)
        fun _ _ hw => Onwards.error hw
      by_cases hremote : remoteCommit = some commitId
      · rw [Script.require, if_pos hremote]
        exact Onwards.ok hw trivial
      · rw [Script.require, if_neg hremote]
        exact Onwards.error hw
    have hmoved := (hw _).hasMovedTo _ hmoved
    have hheld := hheld.later (hw _)
    refine interrupts_bind_update h (h.records rfl rfl ⟨commitId, rfl, hmoved, hheld⟩)
      fun L h => ?_
    exact finalized h rfl ⟨commitId, rfl, hmoved, fun _ => hheld⟩

theorem publishStages_chronicling (h : c.InJournal git sha L w row) (hc : row.commitId = none) :
    (chronicling git sha w₀).Safe (publishStages c (some row))
      (Interrupts git sha c fun _ _ => True) (L, w) := by
  rw [publishStages]
  refine interrupts_bind_onwards (S := fun _ _ => True) h hc (still_onwards ?_)
    fun _ w h hw _ => ?_
  · exact Prog.Issues.bind (ask_still rfl) fun _ => Prog.Issues.bind (demand_issues _ _) fun _ =>
      Prog.Issues.bind (ask_still rfl) fun _ => require_issues _ _
  refine interrupts_bind_update h (records_of_none rfl hc) fun L h => ?_
  refine interrupts_bind_onwards h hc (prepareSnapshotCommit_chronicling _)
    fun commitId w h hw hproves => ?_
  refine interrupts_bind_update h (records_of_proves hc rfl hproves trivial) fun L h => ?_
  refine interrupts_bind_onwards h trivial (S := fun _ w' =>
    (w' c.payload.workspace).HasMovedTo commitId) ?_ fun _ w h hw hmoved => ?_
  · refine chronicling_bind_still (publicationWorkspaceGuard_still _ _ _) (fun _ => ?_)
      fun _ => Onwards.error (Later.refl w)
    exact casUpdateBranch_chronicling _ h rfl
  refine interrupts_bind_update h (h.records rfl rfl ⟨commitId, rfl, hmoved⟩) fun L h => ?_
  exact publishRemote_chronicling h rfl hmoved

theorem publishFromIntent_chronicling (operationId : String)
    (hnone : L.publications.lookup c.runId = none)
    (hconcerns : L.Concerns sha c.runId c.payload c.manifest)
    (hbase : (w c.payload.workspace).HasBeenAt c.expectedBase) :
    (chronicling git sha w₀).Safe (publishFromIntent c operationId) (fun _ _ => True) (L, w) := by
  refine chronicling_call fun _ _ => ⟨trivial, fun _ => ?_⟩
  have hrow : ((git.semantics sha).answer ‹Surroundings› (L, w) (.selectPublication c.runId)).1 =
    none := hnone
  rw [hrow]
  have ht : TrueOf git (w c.payload.workspace) c.payload c.manifest c.expectedBase
      ⟨operationId, c.payload.publication.kind, .intent, some c.expectedBase, none, none, none,
        none⟩ := ⟨rfl, hbase, nofun, rfl⟩
  refine chronicling_call fun _ _ => ⟨⟨c.payload, c.manifest, c.expectedBase, hconcerns, ht⟩,
    fun _ => ?_⟩
  simp only [Semantics.after, Objects.semantics, ledgerSemantics, hnone, if_pos]
  refine Theory.Safe.catching ((publishStages_chronicling ⟨?_, ?_, ht⟩ rfl).mono ?_)
  · simp only [Table.lookup_put, if_pos]
  · exact Concerns.of_eq hconcerns rfl rfl
  rintro (⟨phase, seen, cause⟩ | reply) ⟨L, w⟩ hi
  · obtain ⟨row, rfl, h, hhappened⟩ := hi
    refine Theory.Safe.bind ((publicationUpdate_chronicling h
      (records_of_none rfl hhappened)).mono ?_)
    rintro _ _ ⟨L', rfl, rfl, -⟩
    trivial
  · trivial

theorem publishPreflight_chronicling {r : RunId} {run : Run} {payload : TaskPayload}
    {manifest : Manifest} : (chronicling git sha w₀).Safe (publishPreflight r run payload manifest)
      (fun y x => Returns (fun c : Publishing => c.runId = r ∧ c.payload = payload ∧
        c.manifest = manifest ∧ (w payload.workspace).head = some c.expectedBase) y ∧ x = (L, w))
      (L, w) := by
  rw [publishPreflight]
  refine chronicling_bind_still (require_issues _ _) (fun _ => ?_) fun _ => ⟨trivial, rfl⟩
  refine chronicling_bind_still (require_issues _ _) (fun _ => ?_) fun _ => ⟨trivial, rfl⟩
  refine chronicling_bind_still (ask_still rfl) (fun _ => ?_) fun _ => ⟨trivial, rfl⟩
  refine chronicling_bind_still (ask_still rfl) (fun _ => ?_) fun _ => ⟨trivial, rfl⟩
  refine chronicling_bind_still (demand_issues _ _) (fun branch => ?_) fun _ => ⟨trivial, rfl⟩
  refine chronicling_bind_still (require_issues _ _) (fun _ => ?_) fun _ => ⟨trivial, rfl⟩
  refine chronicling_bind_still (demand_issues _ _) (fun expectedBase => ?_) fun _ => ⟨trivial, rfl⟩
  refine chronicling_bind_ask rfl (fun _ v head ha => ?_) fun _ => ⟨trivial, rfl⟩
  by_cases hhead : head = some expectedBase
  swap
  · rw [Script.require, if_neg hhead]
    exact ⟨trivial, rfl⟩
  rw [Script.require, if_pos hhead]
  subst hhead
  refine chronicling_bind_still trivial (fun _ => ?_) fun _ => ⟨trivial, rfl⟩
  refine chronicling_bind_still (ask_still rfl) (fun _ => ?_) fun _ => ⟨trivial, rfl⟩
  refine chronicling_bind_still (require_issues _ _) (fun _ => ?_) fun _ => ⟨trivial, rfl⟩
  refine chronicling_bind_still (publicationWorkspaceGuard_still _ _ _) (fun _ => ?_) fun _ =>
    ⟨trivial, rfl⟩
  exact ⟨⟨rfl, rfl, rfl, head_of_revParse ha⟩, rfl⟩

/-- A journal that is there already ends the call, or names no commit and is deleted. -/
theorem publishExisting_chronicling {r : RunId} {f : Option Reply → Script α}
    (hf : ∀ L', L'.runs = L.runs → L'.tasks = L.tasks → L'.publications.lookup r = none →
      (chronicling git sha w₀).Safe (f none) (fun _ _ => True) (L', w))
    (hreply : ∀ reply, (chronicling git sha w₀).Safe (f (some reply)) (fun _ _ => True) (L, w)) :
    (chronicling git sha w₀).Safe (publishExisting r >>= f) (fun _ _ => True) (L, w) := by
  refine chronicling_call fun hx _ => ⟨trivial, fun e => ?_⟩
  rcases hp : L.publications.lookup r with _ | existing
  · have hrow : ((git.semantics sha).answer e (L, w) (.selectPublication r)).1 = none := hp
    rw [hrow]
    exact hf L rfl rfl hp
  · have hrow : ((git.semantics sha).answer e (L, w) (.selectPublication r)).1 = some existing := hp
    rw [hrow]
    change (chronicling git sha w₀).Safe ((if existing.status = .complete then _ else _) >>= f) _
      (L, w)
    split
    · refine chronicling_call fun _ _ => ⟨trivial, fun e => ?_⟩
      have hrow : ((git.semantics sha).answer e (L, w) (.selectPublication r)).1 =
        some existing := hp
      rw [hrow]
      exact hreply _
    · by_cases hs : existing.status = .abandoned
      · rw [Script.require, if_pos hs]
        refine chronicling_call fun _ _ => ⟨fun row hrow => ?_, fun _ => ?_⟩
        · cases hp.symm.trans hrow
          obtain ⟨payload, manifest, base, -, ht⟩ := hx.told r existing hp
          have hnone := ht.happened
          rwa [hs] at hnone
        · refine hf _ rfl rfl ?_
          change (L.publications.delete r).lookup r = none
          rw [Table.lookup_delete, if_pos rfl]
      · rw [Script.require, if_neg hs]
        trivial

theorem publish_chronicling (r : RunId) :
    (chronicling git sha w₀).Safe (publish r) (fun _ _ => True) (L, w) := by
  refine chronicling_call fun hx _ => ⟨trivial, fun _ => ?_⟩
  change (chronicling git sha w₀).Safe (demand (L.runs.lookup r) _ >>= _) _ (L, w)
  rcases hr : L.runs.lookup r with _ | run
  · trivial
  change (chronicling git sha w₀).Safe (Script.require (run.state = .verified) _ >>= _) _ (L, w)
  by_cases hs : run.state = .verified
  swap
  · rw [Script.require, if_neg hs]
    trivial
  rw [Script.require, if_pos hs]
  refine chronicling_call fun _ _ => ⟨trivial, fun _ => ?_⟩
  change (chronicling git sha w₀).Safe (demand (L.tasks.lookup run.taskId) _ >>= _) _ (L, w)
  rcases ht : L.tasks.lookup run.taskId with _ | task
  · trivial
  change (chronicling git sha w₀).Safe (selectSnapshot run.snapshotId >>= _) _ (L, w)
  rcases hsid : run.snapshotId with _ | s
  · trivial
  refine chronicling_call fun _ _ => ⟨trivial, fun _ => ?_⟩
  change (chronicling git sha w₀).Safe (demand (L.snapshots.lookup s) _ >>= _) _ (L, w)
  rcases hsnap : L.snapshots.lookup s with _ | snap
  · trivial
  have hconcerns : L.Concerns sha r task.payload snap.manifest :=
    ⟨run, task, hr, ht, rfl, by rw [hsid, hx.accounted.gated.addressed s snap hsnap]⟩
  change (chronicling git sha w₀).Safe
    (ask (.assertManifestCurrent task.payload snap.manifest) >>= _) _ (L, w)
  refine chronicling_bind_still (ask_still rfl) (fun _ => ?_) fun _ => trivial
  refine publishExisting_chronicling (fun L' hruns htasks hnone => ?_) fun _ => trivial
  have hconcerns := Concerns.of_eq hconcerns hruns htasks
  refine chronicling_bind_still (requireApproval_still r run task.payload) (fun _ => ?_)
    fun _ => trivial
  refine Theory.Safe.bind (publishPreflight_chronicling.mono ?_)
  rintro (e | c) _ ⟨hc, rfl⟩
  · trivial
  obtain ⟨rfl, hpayload, hmanifest, hhead⟩ := hc
  rw [← hpayload] at hhead hconcerns
  rw [← hmanifest] at hconcerns
  refine chronicling_bind_still (ask_still rfl) (fun operationId => ?_) fun _ => trivial
  exact publishFromIntent_chronicling operationId hnone hconcerns (.inl hhead)

end Publish

end OrchKit
