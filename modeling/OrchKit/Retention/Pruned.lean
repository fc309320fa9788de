import OrchKit.Retention.Prune

/-! # What pruning takes away

As long as nothing fails, a pass deletes every artifact of the runs it comes to, and nothing
else. A failure only ends the pruning for the budget, so that a pass never touches an artifact
of a run that would not have been pruned without failures.
-/

namespace OrchKit.Retention

/-! ### Deletions -/

def Artifact.Of (d : Disk) (a : Artifact) : Prop :=
  (d.node a.kind a.name).bind (Node.record? a.kind) = some a.record

/-- The disk holds what `d₀` holds, except for what is gone. -/
def Lacks (d₀ : Disk) (gone : List (ArtifactKind × String)) (d : Disk) : Prop :=
  ∀ kind name, d.node kind name = if (kind, name) ∈ gone then none else d₀.node kind name

def Disk.eraseAll (d : Disk) (artifacts : List Artifact) : Disk :=
  artifacts.foldl (fun d a => d.erase a.kind a.name) d

variable {d₀ d : Disk} {gone : List (ArtifactKind × String)} {a : Artifact} {as : List Artifact}

theorem lacks_nil : Lacks d [] d := fun _ _ => rfl

theorem Lacks.binding (h : Lacks d₀ gone d) (ha : a.Of d₀) :
    d.binding a = if a.key ∈ gone then .missing else .matching := by
  have hnode : d.node a.kind a.name = if a.key ∈ gone then none else d₀.node a.kind a.name :=
    h a.kind a.name
  by_cases hgone : a.key ∈ gone
  · rw [if_pos hgone] at hnode ⊢
    rw [Disk.binding, hnode]
  · obtain ⟨node, hseen, hrecord⟩ := Option.bind_eq_some_iff.mp ha
    rw [if_neg hgone, hseen] at hnode
    rw [if_neg hgone, Disk.binding, hnode]
    exact if_pos hrecord

theorem Lacks.eraseAll (h : Lacks d₀ gone d) : Lacks d₀ (as.map Artifact.key ++ gone)
    (d.eraseAll as) := by
  induction as generalizing d gone with
  | nil => exact h
  | cons a as ih =>
    have hone : Lacks d₀ (a.key :: gone) (d.erase a.kind a.name) := by
      intro kind name
      rw [Disk.node_erase, h kind name]
      by_cases hkey : kind = a.kind ∧ name = a.name
      · have hmem : (kind, name) ∈ a.key :: gone := by
          rw [hkey.1, hkey.2]
          exact List.mem_cons_self
        rw [if_pos hkey, if_pos hmem]
      · have hne : (kind, name) ≠ a.key := fun he => hkey (Prod.mk.inj he)
        rw [if_neg hkey]
        simp only [List.mem_cons, hne, false_or]
    intro kind name
    change ((d.erase a.kind a.name).eraseAll as).node kind name = _
    rw [ih hone kind name]
    have hiff : (kind, name) ∈ as.map Artifact.key ++ a.key :: gone ↔
        (kind, name) ∈ (a :: as).map Artifact.key ++ gone := by
      simp only [List.mem_append, List.mem_cons, List.map_cons]
      tauto
    by_cases hmem : (kind, name) ∈ as.map Artifact.key ++ a.key :: gone
    · rw [if_pos hmem, if_pos (hiff.mp hmem)]
    · rw [if_neg hmem, if_neg fun hm => hmem (hiff.mpr hm)]

theorem Disk.deleteBound_none (h : d.binding a = .matching) :
    d.deleteBound a none = (.deleted, d.erase a.kind a.name) := by
  simp only [Disk.deleteBound, h]

theorem Disk.deleteBound_node {failure : Option Failure} {kind : ArtifactKind} {name : String}
    (hne : a.key ≠ (kind, name)) : (d.deleteBound a failure).2.node kind name =
    d.node kind name := by
  have hkey : ¬ (kind = a.kind ∧ name = a.name) := by
    rintro ⟨rfl, rfl⟩
    exact hne rfl
  simp only [Disk.deleteBound]
  split
  next => rfl
  next => rfl
  next =>
    rcases failure with _ | _ | ⟨ctimeNs, deletedBytes⟩
    · simp only
      rw [node_erase, if_neg hkey]
    · rfl
    · simp only
      split
      · rw [node_erase, if_neg hkey]
      · rw [node, restore, Table.lookup_modify, if_neg fun he => hne he.symm]
        rfl

/-- A deletion that does not fail is as if nothing could. -/
theorem Disk.deleteBound_of_ok {failure : Option Failure}
    (h : ∀ bytes, (d.deleteBound a failure).1 ≠ .failed bytes) :
    d.deleteBound a failure = d.deleteBound a none := by
  simp only [Disk.deleteBound] at h ⊢
  split
  next => rfl
  next => rfl
  next hb =>
    rw [hb] at h
    rcases failure with _ | _ | ⟨ctimeNs, deletedBytes⟩
    · rfl
    · exact absurd rfl (h 0)
    · simp only at h
      split at h
      · exact absurd rfl (h deletedBytes)
      · exact absurd rfl (h 0)

variable {policy : RetentionPolicy} {ageDue : Bool} {runId : RunId}
  {failure : Artifact → Option Failure} {freed : ℕ} {st : Pruning}

variable (policy ageDue runId failure freed st) in
theorem deleteOne_node {kind : ArtifactKind} {name : String} (hne : a.key ≠ (kind, name)) :
    (deleteOne policy ageDue runId failure a freed st).2.2.disk.node kind name =
      st.disk.node kind name := by
  have hdisk : (st.disk.deleteBound a (failure a)).2.node kind name = st.disk.node kind name :=
    Disk.deleteBound_node hne
  rw [deleteOne]
  split
  next disk hdelete => rwa [hdelete] at hdisk
  next => rfl
  next => rfl
  next bytes disk hdelete => rwa [hdelete] at hdisk

variable (policy ageDue runId failure freed st) in
/-- Nothing changes but the artifacts. -/
theorem deleteMatched_node {kind : ArtifactKind} {name : String}
    (h : ∀ a ∈ as, a.key ≠ (kind, name)) :
    (deleteMatched policy ageDue runId failure as freed st).2.disk.node kind name =
      st.disk.node kind name := by
  induction as generalizing freed st with
  | nil => rfl
  | cons a as ih =>
    have hone := deleteOne_node policy ageDue runId failure freed st (h a List.mem_cons_self)
    rw [deleteMatched]
    split
    next freed' st' he =>
      rw [he] at hone
      exact (ih freed' st' fun b hb => h b (List.mem_cons_of_mem _ hb)).trans hone
    next r he =>
      rw [he] at hone
      exact hone

/-- What has been removed is one of the artifacts, for the run. -/
def Removes (runId : RunId) (as : List Artifact) (st st' : Pruning) : Prop :=
  st.removed <+: st'.removed ∧ ∀ e ∈ st'.removed, e ∈ st.removed ∨ e.1 = runId ∧ e.2 ∈ as

theorem Removes.of_eq {st' : Pruning} (h : st'.removed = st.removed) : Removes runId as st st' := by
  rw [Removes, h]
  exact ⟨List.prefix_rfl, fun e he => .inl he⟩

theorem Removes.one {st' : Pruning} (h : st'.removed = st.removed ++ [(runId, a)]) :
    Removes runId [a] st st' := by
  rw [Removes, h]
  refine ⟨List.prefix_append _ _, fun e he => ?_⟩
  rcases List.mem_append.mp he with he | he
  · exact .inl he
  · rw [List.mem_singleton.mp he]
    exact .inr ⟨rfl, List.mem_cons_self⟩

theorem Removes.trans {bs : List Artifact} {s₁ s₂ s₃ : Pruning} (h : Removes runId as s₁ s₂)
    (h' : Removes runId bs s₂ s₃) : Removes runId (as ++ bs) s₁ s₃ := by
  refine ⟨h.1.trans h'.1, fun e he => ?_⟩
  rcases h'.2 e he with he | ⟨hr, he⟩
  · rcases h.2 e he with he | ⟨hr, he⟩
    · exact .inl he
    · exact .inr ⟨hr, List.mem_append_left _ he⟩
  · exact .inr ⟨hr, List.mem_append_right _ he⟩

theorem Removes.mono {bs : List Artifact} {st' : Pruning} (h : Removes runId as st st')
    (hsub : as ⊆ bs) : Removes runId bs st st' :=
  ⟨h.1, fun e he => (h.2 e he).imp id fun ⟨hr, hmem⟩ => ⟨hr, hsub hmem⟩⟩

variable (a policy ageDue runId failure freed st) in
theorem deleteOne_removes :
    Removes runId [a] st (deleteOne policy ageDue runId failure a freed st).2.2 := by
  rw [deleteOne]
  split
  next => exact .one rfl
  next => exact .of_eq rfl
  next => exact .of_eq rfl
  next bytes disk hdelete =>
    by_cases hsome : (disk.node a.kind a.name).isSome
    · exact .of_eq (if_pos hsome)
    · exact .one (if_neg hsome)

variable (as policy ageDue runId failure freed st) in
theorem deleteMatched_removes :
    Removes runId as st (deleteMatched policy ageDue runId failure as freed st).2 := by
  induction as generalizing freed st with
  | nil => exact .of_eq rfl
  | cons a as ih =>
    have hone := deleteOne_removes a policy ageDue runId failure freed st
    rw [deleteMatched]
    split
    next freed' st' he =>
      rw [he] at hone
      exact hone.trans (ih freed' st')
    next r he =>
      rw [he] at hone
      exact hone.mono (List.cons_subset_cons _ (List.nil_subset _))

theorem deleteOne_budget
    (h : (deleteOne policy ageDue runId failure a freed st).2.2.budgetAllowed) :
    st.budgetAllowed ∧ deleteOne policy ageDue runId failure a freed st =
      deleteOne policy ageDue runId (fun _ => none) a freed st := by
  have hok : ∀ bytes, (st.disk.deleteBound a (failure a)).1 ≠ .failed bytes := by
    intro bytes hbytes
    rw [deleteOne] at h
    split at h
    next hdelete => rw [hdelete] at hbytes; cases hbytes
    next hdelete => rw [hdelete] at hbytes; cases hbytes
    next => cases h
    next => cases h
  constructor
  · rw [deleteOne] at h
    split at h
    next => exact h
    next => exact h
    next => cases h
    next => cases h
  · rw [deleteOne, deleteOne, Disk.deleteBound_of_ok hok]

/-- Deletions that leave the pruning for the budget on have met no failure. -/
theorem deleteMatched_budget
    (h : (deleteMatched policy ageDue runId failure as freed st).2.budgetAllowed) :
    st.budgetAllowed ∧ deleteMatched policy ageDue runId failure as freed st =
      deleteMatched policy ageDue runId (fun _ => none) as freed st := by
  induction as generalizing freed st with
  | nil => exact ⟨h, rfl⟩
  | cons a as ih =>
    have hone : ∀ {b : Bool} {r : ℕ × Pruning},
        deleteOne policy ageDue runId failure a freed st = (b, r) →
        r.2.budgetAllowed → st.budgetAllowed ∧
          deleteOne policy ageDue runId (fun _ => none) a freed st = (b, r) := by
      intro b r he hr
      have hallowed : (deleteOne policy ageDue runId failure a freed st).2.2.budgetAllowed := by
        rw [he]
        exact hr
      obtain ⟨hst, heq⟩ := deleteOne_budget hallowed
      exact ⟨hst, heq ▸ he⟩
    rw [deleteMatched] at h ⊢
    rw [deleteMatched]
    split at h
    next freed' st' he =>
      obtain ⟨hst', heq⟩ := ih h
      obtain ⟨hst, heq'⟩ := hone he hst'
      rw [heq']
      exact ⟨hst, heq⟩
    next r he =>
      obtain ⟨hst, heq'⟩ := hone he h
      rw [heq']
      exact ⟨hst, rfl⟩

/-- What matches is deleted, as long as nothing fails. -/
theorem deleteMatched_of_ok (hf : ∀ a, failure a = none) (h : Lacks d₀ gone st.disk)
    (hof : ∀ a ∈ as, a.Of d₀) (hgone : ∀ a ∈ as, a.key ∉ gone)
    (hnodup : (as.map Artifact.key).Nodup) :
    deleteMatched policy ageDue runId failure as freed st = (freed + bytesOf as, { st with
      disk := st.disk.eraseAll as, removed := st.removed ++ as.map fun a => (runId, a) }) := by
  induction as generalizing gone freed st with
  | nil =>
    rw [deleteMatched, List.map_nil, List.append_nil]
    rfl
  | cons a as ih =>
    obtain ⟨hfresh, hnodup⟩ := List.nodup_cons.mp hnodup
    have hmatch : st.disk.binding a = .matching := by
      rw [h.binding (hof a List.mem_cons_self), if_neg (hgone a List.mem_cons_self)]
    have hnext : Lacks d₀ ([a].map Artifact.key ++ gone) (st.disk.erase a.kind a.name) :=
      h.eraseAll
    rw [deleteMatched, deleteOne, hf, Disk.deleteBound_none hmatch]
    simp only
    rw [ih hnext (fun b hb => hof b (List.mem_cons_of_mem _ hb)) ?_ hnodup]
    · simp only [bytesOf, List.map_cons, List.sum_cons, List.append_assoc, List.singleton_append,
        Disk.eraseAll, List.foldl_cons, Nat.add_assoc]
    · intro b hb hmem
      rcases List.mem_append.mp hmem with hmem | hmem
      · rw [List.map_singleton, List.mem_singleton] at hmem
        exact hfresh (hmem ▸ List.mem_map_of_mem hb)
      · exact hgone b (List.mem_cons_of_mem _ hb) hmem

/-! ### One run -/

variable {cutoff : ℚ} {newestKeep : List RunId} {failures : RunId → Artifact → Option Failure}
  {item : ManagedRun}

/-- The inventory saw all artifacts of the run, each once. -/
structure ManagedRun.Of (d : Disk) (item : ManagedRun) : Prop where
  seen : ∀ a ∈ item.artifacts, a.Of d
  once : (item.artifacts.map Artifact.key).Nodup

/-- The artifacts of a run that are gone already, as another run has them too. -/
def ManagedRun.lost (item : ManagedRun) (gone : List (ArtifactKind × String)) : List Artifact :=
  item.artifacts.filter fun a => a.key ∈ gone

def ManagedRun.intact (item : ManagedRun) (gone : List (ArtifactKind × String)) : List Artifact :=
  item.artifacts.filter fun a => a.key ∉ gone

theorem bytesOf_lost_add_intact :
    bytesOf (item.lost gone) + bytesOf (item.intact gone) = item.bytes := by
  rw [ManagedRun.lost, ManagedRun.intact, ManagedRun.bytes]
  induction item.artifacts with
  | nil => rfl
  | cons a as ih =>
    simp only [bytesOf, List.filter_cons, List.map_cons, List.sum_cons] at ih ⊢
    by_cases ha : a.key ∈ gone
    · simp only [ha, decide_true, not_true_eq_false, decide_false, if_true, List.map_cons,
        List.sum_cons, Bool.false_eq_true, if_false]
      omega
    · simp only [ha, decide_false, not_false_eq_true, decide_true, if_true, List.map_cons,
        List.sum_cons, Bool.false_eq_true, if_false]
      omega

section Undisturbed

variable (h : Lacks d₀ gone st.disk) (hi : item.Of d₀)
include h hi

theorem missing_eq :
    item.artifacts.filter (fun a => st.disk.binding a = .missing) = item.lost gone := by
  apply List.filter_congr
  intro a ha
  rw [h.binding (hi.seen a ha)]
  by_cases hgone : a.key ∈ gone <;> simp [hgone]

theorem matched_eq :
    item.artifacts.filter (fun a => st.disk.binding a = .matching) = item.intact gone := by
  apply List.filter_congr
  intro a ha
  rw [h.binding (hi.seen a ha)]
  by_cases hgone : a.key ∈ gone <;> simp [hgone]

theorem not_changed : ¬ ∃ a ∈ item.artifacts, st.disk.binding a = .changed := by
  rintro ⟨a, ha, hchanged⟩
  rw [h.binding (hi.seen a ha)] at hchanged
  split at hchanged <;> cases hchanged

/-- A run that is due loses all its artifacts. -/
theorem pruneRun_of_due (hf : ∀ a, failures item.runId a = none)
    (hdue : item.referenceTs ≤ cutoff ∨ st.budgetAllowed ∧ item.runId ∉ newestKeep ∧
      policy.maxEvidenceBytes + bytesOf (item.lost gone) < st.total) :
    pruneRun policy cutoff newestKeep failures st item = { st with
      disk := st.disk.eraseAll (item.intact gone)
      total := st.total - item.bytes
      removed := st.removed ++ (item.intact gone).map fun a => (item.runId, a) } := by
  have hbytes : bytesOf (item.lost gone) + bytesOf (item.intact gone) = item.bytes :=
    bytesOf_lost_add_intact
  have hdelete : ∀ total, deleteMatched policy (decide (item.referenceTs ≤ cutoff)) item.runId
      (failures item.runId) (item.intact gone) 0 { st with total := total } =
        (0 + bytesOf (item.intact gone), { st with
          disk := st.disk.eraseAll (item.intact gone), total := total,
          removed := st.removed ++ (item.intact gone).map fun a => (item.runId, a) }) := by
    intro total
    refine deleteMatched_of_ok hf h ?_ ?_ ?_
    · exact fun a ha => hi.seen a (List.mem_of_mem_filter ha)
    · intro a ha
      exact of_decide_eq_true (List.mem_filter.mp ha).2
    · exact (List.filter_sublist.map Artifact.key).nodup hi.once
  have hgo : ¬ (¬ decide (item.referenceTs ≤ cutoff) = true ∧
      ¬ (st.budgetAllowed && decide (policy.maxEvidenceBytes < st.total) &&
        decide (item.runId ∉ newestKeep)) = true) := by
    rintro ⟨hage, hbudget⟩
    rcases hdue with hdue | ⟨hallowed, hnewest, hlt⟩
    · exact hage (decide_eq_true hdue)
    · apply hbudget
      simp only [hallowed, Bool.true_and, Bool.and_eq_true, decide_eq_true_eq]
      exact ⟨by omega, hnewest⟩
  have hover : ¬ (¬ decide (item.referenceTs ≤ cutoff) = true ∧
      st.total - bytesOf (item.lost gone) ≤ policy.maxEvidenceBytes) := by
    rintro ⟨hage, hle⟩
    rcases hdue with hdue | ⟨-, -, hlt⟩
    · exact hage (decide_eq_true hdue)
    · omega
  simp only [pruneRun]
  rw [if_neg hgo, if_neg (not_changed h hi), missing_eq h hi, matched_eq h hi,
    if_neg hover, hdelete]
  simp only [Pruning.mk.injEq, and_true, true_and]
  omega

variable (policy cutoff newestKeep failures) in
/-- A run that is not due keeps its artifacts. -/
theorem pruneRun_of_not_due (hallowed : st.budgetAllowed)
    (hdue : ¬ (item.referenceTs ≤ cutoff ∨ st.budgetAllowed ∧ item.runId ∉ newestKeep ∧
      policy.maxEvidenceBytes + bytesOf (item.lost gone) < st.total)) :
    ∃ total, pruneRun policy cutoff newestKeep failures st item = { st with total := total } ∧
      (total = st.total ∧ (item.runId ∈ newestKeep ∨ st.total ≤ policy.maxEvidenceBytes) ∨
        total = st.total - bytesOf (item.lost gone) ∧ total ≤ policy.maxEvidenceBytes) := by
  rw [not_or] at hdue
  obtain ⟨hage, hbudget⟩ := hdue
  have hage' : decide (item.referenceTs ≤ cutoff) ≠ true := fun he => hage (of_decide_eq_true he)
  simp only [pruneRun]
  by_cases hgo : (st.budgetAllowed && decide (policy.maxEvidenceBytes < st.total) &&
      decide (item.runId ∉ newestKeep)) = true
  · simp only [Bool.and_eq_true, decide_eq_true_eq] at hgo
    obtain ⟨⟨-, hover⟩, hnewest⟩ := hgo
    have hle : st.total - bytesOf (item.lost gone) ≤ policy.maxEvidenceBytes := by
      by_contra hlt
      exact hbudget ⟨hallowed, hnewest, by omega⟩
    refine ⟨st.total - bytesOf (item.lost gone), ?_, .inr ⟨rfl, hle⟩⟩
    rw [if_neg (by simp [hallowed, hover, hnewest]), if_neg (not_changed h hi), missing_eq h hi,
      if_pos ⟨hage', hle⟩]
  · refine ⟨st.total, ?_, .inl ⟨rfl, ?_⟩⟩
    · rw [if_pos ⟨hage', hgo⟩]
    · simp only [hallowed, Bool.true_and, Bool.and_eq_true, decide_eq_true_eq, not_and] at hgo
      by_contra hne
      rw [not_or, not_le] at hne
      exact hgo hne.2 hne.1

end Undisturbed

variable (policy st cutoff newestKeep failures item) in
/-- What a pass does to a run, whatever fails. -/
theorem pruneRun_cases :
    (∃ total allowed, pruneRun policy cutoff newestKeep failures st item =
      { st with total := total, budgetAllowed := allowed } ∧ (allowed → st.budgetAllowed)) ∨
    ∃ as total freed st', as ⊆ item.artifacts ∧
      deleteMatched policy (decide (item.referenceTs ≤ cutoff)) item.runId (failures item.runId)
        as 0 { st with total := total } = (freed, st') ∧
      pruneRun policy cutoff newestKeep failures st item =
        { st' with total := st'.total - freed } := by
  simp only [pruneRun]
  split
  next => exact .inl ⟨st.total, st.budgetAllowed, rfl, id⟩
  next =>
    split
    next => exact .inl ⟨_, false, rfl, fun h => by cases h⟩
    next =>
      split
      next => exact .inl ⟨_, st.budgetAllowed, rfl, id⟩
      next =>
        exact .inr ⟨_, _, _, _, fun a ha => List.mem_of_mem_filter ha, rfl, rfl⟩

theorem pruneRun_node {kind : ArtifactKind} {name : String}
    (h : ∀ a ∈ item.artifacts, a.key ≠ (kind, name)) :
    (pruneRun policy cutoff newestKeep failures st item).disk.node kind name =
      st.disk.node kind name := by
  rcases pruneRun_cases policy st cutoff newestKeep failures item with
    ⟨total, allowed, he, -⟩ | ⟨as, total, freed, st', hsub, hdelete, he⟩
  · rw [he]
  · have hnode := deleteMatched_node policy (decide (item.referenceTs ≤ cutoff)) item.runId
      (failures item.runId) 0 { st with total := total } fun a ha => h a (hsub ha)
    rw [hdelete] at hnode
    rw [he]
    exact hnode

theorem pruneRun_removes : Removes item.runId item.artifacts st
    (pruneRun policy cutoff newestKeep failures st item) := by
  rcases pruneRun_cases policy st cutoff newestKeep failures item with
    ⟨total, allowed, he, -⟩ | ⟨as, total, freed, st', hsub, hdelete, he⟩
  · rw [he]
    exact .of_eq rfl
  · have hremoves := deleteMatched_removes as policy (decide (item.referenceTs ≤ cutoff)) item.runId
      (failures item.runId) 0 { st with total := total }
    rw [hdelete] at hremoves
    rw [he]
    exact hremoves.mono hsub

/-- A pass that leaves the pruning for the budget on has met no failure. -/
theorem pruneRun_budget
    (h : (pruneRun policy cutoff newestKeep failures st item).budgetAllowed) :
    st.budgetAllowed ∧ pruneRun policy cutoff newestKeep failures st item =
      pruneRun policy cutoff newestKeep (fun _ _ => none) st item := by
  simp only [pruneRun] at h ⊢
  split at h
  next hgo =>
    rw [if_pos hgo, if_pos hgo]
    exact ⟨h, rfl⟩
  next hgo =>
    split at h
    next => cases h
    next hchanged =>
      rw [if_neg hgo, if_neg hgo, if_neg hchanged, if_neg hchanged]
      split at h
      next hover =>
        rw [if_pos hover, if_pos hover]
        exact ⟨h, rfl⟩
      next hover =>
        obtain ⟨hst, heq⟩ := deleteMatched_budget h
        rw [if_neg hover, if_neg hover, heq]
        exact ⟨hst, rfl⟩

/-- Where every move to quarantine fails, the disk stays as it is. -/
theorem pruneRun_of_rename (hf : ∀ a, failures item.runId a = some .rename) :
    (pruneRun policy cutoff newestKeep failures st item).disk = st.disk := by
  have hdelete : ∀ (as : List Artifact) (freed : ℕ) (st : Pruning),
      (deleteMatched policy (decide (item.referenceTs ≤ cutoff)) item.runId (failures item.runId) as
        freed st).2.disk = st.disk := by
    intro as
    induction as with
    | nil => exact fun _ _ => rfl
    | cons a as ih =>
      intro freed st
      have hone : (deleteOne policy (decide (item.referenceTs ≤ cutoff)) item.runId
          (failures item.runId) a freed st).2.2.disk = st.disk := by
        have hbound : (st.disk.deleteBound a (failures item.runId a)).2 = st.disk := by
          rw [hf]
          simp only [Disk.deleteBound]
          split <;> rfl
        rw [deleteOne]
        split
        next he => rwa [he] at hbound
        next => rfl
        next => rfl
        next he => rwa [he] at hbound
      rw [deleteMatched]
      split
      next he =>
        rw [he] at hone
        exact (ih _ _).trans hone
      next he =>
        rw [he] at hone
        exact hone
  rcases pruneRun_cases policy st cutoff newestKeep failures item with
    ⟨total, allowed, he, -⟩ | ⟨as, total, freed, st', hsub, hd, he⟩
  · rw [he]
  · have hdisk := hdelete as 0 { st with total := total }
    rw [hd] at hdisk
    rw [he]
    exact hdisk

end OrchKit.Retention
