import OrchKit.Retention.Attribution
import OrchKit.Retention.Backups

/-! # What a pass without failures leaves

Where every artifact is found for one run only, the books agree with the disk at every point of a
pass. It ends within the budget, or with nothing left but what it may not touch; and it has been
over the budget whenever it deleted for it.
-/

namespace OrchKit.Retention

variable {L : Ledger} {times : RunId → RunTimes} {d d₀ : Disk} {runId : RunId}
  {policy : RetentionPolicy} {cutoff : ℚ} {inventory pre post : List ManagedRun}
  {item : ManagedRun} {st : Pruning}

def AttributedOnce (inventory : List ManagedRun) : Prop :=
  ∀ item ∈ inventory, ∀ item' ∈ inventory, ∀ a ∈ item.artifacts, ∀ a' ∈ item'.artifacts,
    a.key = a'.key → item.runId = item'.runId

instance : Decidable (AttributedOnce inventory) := by unfold AttributedOnce; infer_instance

/-- The runs that have lost their evidence when a pass comes to the end of `pre`. -/
def prunedOf (policy : RetentionPolicy) (cutoff : ℚ) (inventory pre : List ManagedRun) :
    List ManagedRun := pre.filter fun item => Due policy cutoff inventory item

theorem mem_prunedOf : item ∈ prunedOf policy cutoff inventory pre ↔
    item ∈ pre ∧ Due policy cutoff inventory item := by
  rw [prunedOf, List.mem_filter, decide_eq_true_eq]

theorem prunedOf_concat : prunedOf policy cutoff inventory (pre ++ [item]) =
    if Due policy cutoff inventory item then prunedOf policy cutoff inventory pre ++ [item]
    else prunedOf policy cutoff inventory pre := by
  rw [prunedOf, List.filter_append]
  by_cases hdue : Due policy cutoff inventory item <;> simp [hdue, prunedOf]

def entriesOf (items : List ManagedRun) : List (RunId × Artifact) :=
  items.flatMap fun item => item.artifacts.map fun a => (item.runId, a)

theorem entriesOf_concat : entriesOf (pre ++ [item]) =
    entriesOf pre ++ item.artifacts.map fun a => (item.runId, a) := by
  simp [entriesOf]

theorem mem_entriesOf {e : RunId × Artifact} :
    e ∈ entriesOf pre ↔ ∃ item ∈ pre, item.runId = e.1 ∧ e.2 ∈ item.artifacts := by
  rw [entriesOf, List.mem_flatMap]
  refine exists_congr fun item => and_congr_right fun _ => ?_
  rw [List.mem_map]
  constructor
  · rintro ⟨a, ha, rfl⟩
    exact ⟨rfl, ha⟩
  · rintro ⟨hid, ha⟩
    exact ⟨e.2, ha, Prod.ext hid rfl⟩

theorem eraseAll_append {as bs : List Artifact} :
    d.eraseAll (as ++ bs) = (d.eraseAll as).eraseAll bs := List.foldl_append

/-! ### The evidence on the disk -/

theorem mem_artifactsOf_of_lacks {gone : List (ArtifactKind × String)} (h : Lacks d₀ gone d)
    {a : Artifact} : a ∈ artifactsOf d runId ↔ a ∈ artifactsOf d₀ runId ∧ a.key ∉ gone := by
  rw [mem_artifactsOf, mem_artifactsOf, h a.kind a.name]
  by_cases hgone : (a.kind, a.name) ∈ gone <;> simp [Artifact.key, hgone]

theorem bytesOf_artifactsOf_of_lacks {gone : List (ArtifactKind × String)} (h : Lacks d₀ gone d) :
    bytesOf (artifactsOf d runId) =
      bytesOf ((artifactsOf d₀ runId).filter fun a => a.key ∉ gone) := by
  have hperm : (artifactsOf d runId).Perm
      ((artifactsOf d₀ runId).filter fun a => a.key ∉ gone) := by
    apply (List.perm_ext_iff_of_nodup nodup_artifactsOf.of_map
      (nodup_artifactsOf.of_map.filter _)).mpr
    intro a
    rw [mem_artifactsOf_of_lacks h, List.mem_filter, decide_eq_true_eq]
  exact (hperm.map _).sum_nat

theorem evidenceBytes_of_lacks {gone : List (ArtifactKind × String)} (h : Lacks d₀ gone d) :
    evidenceBytes (retentionInventory L times d) =
      ((retentionInventory L times d₀).map fun item => bytesOf (item.intact gone)).sum := by
  have hentries : ∀ entries : List ((_ : RunId) × Run),
      ((entries.filterMap fun e => (L.tasks.lookup e.2.taskId).map fun task =>
        ({ runId := e.1
           isProtected := protectedRun L e.1 e.2 task
           referenceTs := (times e.1).reference
           artifacts := artifactsOf d e.1 } : ManagedRun)).map ManagedRun.bytes).sum =
      ((entries.filterMap fun e => (L.tasks.lookup e.2.taskId).map fun task =>
        ({ runId := e.1
           isProtected := protectedRun L e.1 e.2 task
           referenceTs := (times e.1).reference
           artifacts := artifactsOf d₀ e.1 } : ManagedRun)).map fun item =>
            bytesOf (item.intact gone)).sum := by
    intro entries
    induction entries with
    | nil => rfl
    | cons e entries ih =>
      rw [List.filterMap_cons, List.filterMap_cons]
      rcases L.tasks.lookup e.2.taskId with _ | task
      · exact ih
      · simp only [Option.map_some, List.map_cons, List.sum_cons]
        rw [ih, ManagedRun.bytes, bytesOf_artifactsOf_of_lacks h]
        rfl
  exact hentries L.runs.entries

section Once

variable (hinv : InventoryOf d₀ inventory) (honce : AttributedOnce inventory)
  {pruned : List ManagedRun} (hsub : pruned ⊆ inventory) (hitem : item ∈ inventory)
  {gone : List (ArtifactKind × String)} (hgone : ∀ key, key ∈ gone ↔ key ∈ keysOf pruned)
include hinv honce hsub hitem hgone

theorem lost_eq_nil (hfresh : item ∉ pruned) : item.lost gone = [] := by
  rw [ManagedRun.lost, List.filter_eq_nil_iff]
  intro a ha
  rw [decide_eq_true_eq, hgone, mem_keysOf]
  rintro ⟨other, hother, hkey⟩
  obtain ⟨a', ha', hkey⟩ := List.mem_map.mp hkey
  have hid : other.runId = item.runId := honce other (hsub hother) item hitem a' ha' a ha hkey
  exact hfresh (List.inj_on_of_nodup_map hinv.once (hsub hother) hitem hid ▸ hother)

/-- A run loses everything with its own pruning. -/
theorem bytesOf_intact : bytesOf (item.intact gone) = if item ∈ pruned then 0 else item.bytes := by
  split
  next hmem =>
    have hnil : item.intact gone = [] := by
      rw [ManagedRun.intact, List.filter_eq_nil_iff]
      intro a ha
      have hkey : a.key ∈ gone := (hgone _).mpr
        (mem_keysOf.mpr ⟨item, hmem, List.mem_map_of_mem ha⟩)
      simp [hkey]
    rw [hnil]
    rfl
  next hmem =>
    have hbytes : bytesOf (item.lost gone) + bytesOf (item.intact gone) = item.bytes :=
      bytesOf_lost_add_intact
    rwa [lost_eq_nil hinv honce hsub hitem hgone hmem, bytesOf, List.map_nil, List.sum_nil,
      Nat.zero_add] at hbytes

end Once

theorem evidenceBytes_append {items : List ManagedRun} :
    evidenceBytes (pre ++ items) = evidenceBytes pre + evidenceBytes items := by
  simp [evidenceBytes]

/-- What some of the runs do not have, the others have. -/
theorem sum_notMem_add_evidenceBytes {pruned : List ManagedRun} (hnodup : inventory.Nodup)
    (hpruned : pruned.Nodup) (hsub : pruned ⊆ inventory) :
    (inventory.map fun item => if item ∈ pruned then 0 else item.bytes).sum + evidenceBytes pruned =
      evidenceBytes inventory := by
  have hperm : pruned.Perm (inventory.filter fun item => item ∈ pruned) := by
    apply (List.perm_ext_iff_of_nodup hpruned (hnodup.filter _)).mpr
    intro item
    rw [List.mem_filter, decide_eq_true_eq]
    exact ⟨fun h => ⟨hsub h, h⟩, And.right⟩
  have hbytes : evidenceBytes pruned = evidenceBytes (inventory.filter fun item => item ∈ pruned) :=
    (hperm.map _).sum_nat
  rw [hbytes]
  clear hperm hpruned hsub hnodup hbytes
  simp only [evidenceBytes]
  induction inventory with
  | nil => rfl
  | cons item inventory ih =>
    rw [List.map_cons, List.sum_cons, List.map_cons, List.sum_cons, List.filter_cons]
    by_cases hmem : item ∈ pruned
    · simp only [hmem, if_true, decide_true, List.map_cons, List.sum_cons]
      omega
    · simp only [hmem, if_false, decide_false, Bool.false_eq_true]
      omega

/-! ### The books -/

theorem nodup_of_split (hinv : InventoryOf d₀ inventory)
    (hT : terminalRuns inventory = pre ++ post) :
    pre.Nodup := by
  have hnodup := (nodup_terminalRuns hinv.once).of_map
  rw [hT] at hnodup
  exact hnodup.of_append_left

theorem prunedOf_subset (hT : terminalRuns inventory = pre ++ post) :
    prunedOf policy cutoff inventory pre ⊆ inventory := by
  intro item hitem
  have hmem : item ∈ terminalRuns inventory :=
    hT ▸ List.mem_append_left _ (mem_prunedOf.mp hitem).1
  exact (mem_terminalRuns.mp hmem).1

theorem mem_keysOf_prunedOf {key : ArtifactKind × String} :
    key ∈ keysOf (prunedOf policy cutoff inventory pre) ↔
      ∃ other ∈ pre, Due policy cutoff inventory other ∧
        key ∈ other.artifacts.map Artifact.key := by
  simp only [mem_keysOf, mem_prunedOf, and_assoc]

section Books

variable (honce : AttributedOnce inventory) (hinv : InventoryOf d₀ inventory)
include honce hinv

theorem lost_eq_nil_of_split (hT : terminalRuns inventory = pre ++ item :: post)
    {gone : List (ArtifactKind × String)} (hgone : ∀ key, key ∈ gone ↔ ∃ other ∈ pre,
      Due policy cutoff inventory other ∧ key ∈ other.artifacts.map Artifact.key) :
    item.lost gone = [] := by
  have hmem : item ∈ terminalRuns inventory := by simp [hT]
  have hT' : terminalRuns inventory = (pre ++ [item]) ++ post := by simp [hT]
  have hfresh : item ∉ prunedOf policy cutoff inventory pre := by
    intro hpruned
    have hnodup := nodup_of_split hinv hT'
    rw [List.nodup_append] at hnodup
    exact hnodup.2.2 _ (mem_prunedOf.mp hpruned).1 _ (List.mem_singleton_self _) rfl
  exact lost_eq_nil hinv honce (prunedOf_subset hT) (mem_terminalRuns.mp hmem).1
    (fun key => (hgone key).trans mem_keysOf_prunedOf.symm) hfresh

theorem due_iff (hT : terminalRuns inventory = pre ++ item :: post) :
    Due policy cutoff inventory item ↔ item.referenceTs ≤ cutoff ∨
      item.runId ∉ newestRuns policy inventory ∧ policy.maxEvidenceBytes <
        (pass policy cutoff inventory (fun _ _ => none) d₀ pre).total := by
  have hsound := passSound policy cutoff hinv hT
  obtain ⟨gone, -, hgone, hnow⟩ := hsound.due_iff hinv hT
  rw [← hnow, lost_eq_nil_of_split honce hinv hT hgone]
  simp [hsound.allowed, bytesOf]

omit honce in
theorem sum_prunedOf (hT : terminalRuns inventory = pre ++ post) :
    (inventory.map fun item =>
      if item ∈ prunedOf policy cutoff inventory pre then 0 else item.bytes).sum +
      evidenceBytes (prunedOf policy cutoff inventory pre) = evidenceBytes inventory :=
  sum_notMem_add_evidenceBytes hinv.once.of_map ((nodup_of_split hinv hT).filter _)
    (prunedOf_subset hT)

theorem intact_eq_of_split (hT : terminalRuns inventory = pre ++ item :: post)
    {gone : List (ArtifactKind × String)} (hgone : ∀ key, key ∈ gone ↔ ∃ other ∈ pre,
      Due policy cutoff inventory other ∧ key ∈ other.artifacts.map Artifact.key) :
    item.intact gone = item.artifacts := by
  have hlost := lost_eq_nil_of_split honce hinv hT hgone
  rw [ManagedRun.lost, List.filter_eq_nil_iff] at hlost
  rw [ManagedRun.intact, List.filter_eq_self]
  intro a ha
  simpa using hlost a ha

/-- What a pass removes, and what it leaves. -/
theorem pass_removed (hT : terminalRuns inventory = pre ++ post) :
    (pass policy cutoff inventory (fun _ _ => none) d₀ pre).removed =
        entriesOf (prunedOf policy cutoff inventory pre) ∧
      (pass policy cutoff inventory (fun _ _ => none) d₀ pre).disk =
        d₀.eraseAll ((entriesOf (prunedOf policy cutoff inventory pre)).map Prod.snd) := by
  induction pre using List.reverseRecOn generalizing post with
  | nil => exact ⟨rfl, rfl⟩
  | append_singleton pre item ih =>
    rw [List.append_assoc, List.singleton_append] at hT
    obtain ⟨hremoved, hdisk⟩ := ih hT
    have hmem : item ∈ terminalRuns inventory := by simp [hT]
    have hof : item.Of d₀ := hinv.items item (mem_terminalRuns.mp hmem).1
    obtain ⟨gone, hlacks, hgone, hnow⟩ := (passSound policy cutoff hinv hT).due_iff hinv hT
    rw [pass_concat, prunedOf_concat]
    by_cases hdue : Due policy cutoff inventory item
    · rw [if_pos hdue, pruneRun_of_due hlacks hof (fun _ => rfl) (hnow.mpr hdue),
        intact_eq_of_split honce hinv hT hgone, entriesOf_concat, hremoved, hdisk,
        List.map_append, eraseAll_append]
      simp [Function.comp_def]
    · obtain ⟨total, he⟩ := pruneRun_of_not_due_pass (fun _ _ => none) hinv hT hdue
      rw [if_neg hdue, he]
      exact ⟨hremoved, hdisk⟩

theorem pass_total (hT : terminalRuns inventory = pre ++ post) :
    (pass policy cutoff inventory (fun _ _ => none) d₀ pre).total +
      evidenceBytes (prunedOf policy cutoff inventory pre) = evidenceBytes inventory := by
  induction pre using List.reverseRecOn generalizing post with
  | nil => rfl
  | append_singleton pre item ih =>
    have hsum := @sum_prunedOf d₀ policy cutoff _ _ _ hinv hT
    rw [List.append_assoc, List.singleton_append] at hT
    have htotal := ih hT
    have hmem : item ∈ terminalRuns inventory := by simp [hT]
    have hof : item.Of d₀ := hinv.items item (mem_terminalRuns.mp hmem).1
    have hsound := passSound policy cutoff hinv hT
    obtain ⟨gone, hlacks, hgone, hnow⟩ := hsound.due_iff hinv hT
    rw [pass_concat]
    by_cases hdue : Due policy cutoff inventory item
    · have hconcat : prunedOf policy cutoff inventory (pre ++ [item]) =
          prunedOf policy cutoff inventory pre ++ [item] := by rw [prunedOf_concat, if_pos hdue]
      rw [hconcat, evidenceBytes_concat] at hsum ⊢
      rw [pruneRun_of_due hlacks hof (fun _ => rfl) (hnow.mpr hdue)]
      simp only
      omega
    · have hlost : item.lost gone = [] := lost_eq_nil_of_split honce hinv hT hgone
      obtain ⟨total, he, hcases⟩ := pruneRun_of_not_due policy cutoff
        (newestRuns policy inventory) (fun _ _ => none) hlacks hof hsound.allowed
        (fun hd => hdue (hnow.mp hd))
      rw [prunedOf_concat, if_neg hdue, he]
      simp only [hlost, bytesOf, List.map_nil, List.sum_nil, Nat.sub_zero] at hcases
      rcases hcases with ⟨rfl, -⟩ | ⟨rfl, -⟩
      · exact htotal
      · exact htotal

end Books

/-- The books agree with the disk. -/
theorem pass_evidenceBytes (honce : AttributedOnce (retentionInventory L times d))
    (hT : terminalRuns (retentionInventory L times d) = pre ++ post) :
    evidenceBytes (retentionInventory L times
      (pass policy cutoff (retentionInventory L times d) (fun _ _ => none) d pre).disk) =
        (pass policy cutoff (retentionInventory L times d) (fun _ _ => none) d pre).total := by
  have hinv := inventoryOf L times d
  have htotal := @pass_total d policy cutoff _ pre post honce hinv hT
  have hsum := @sum_prunedOf d policy cutoff _ pre post hinv hT
  obtain ⟨gone, hlacks, hgone⟩ := (passSound policy cutoff hinv hT).disk
  have hdisk : ((retentionInventory L times d).map fun item => bytesOf (item.intact gone)) =
      (retentionInventory L times d).map fun item => if item ∈ prunedOf policy cutoff
        (retentionInventory L times d) pre then 0 else item.bytes := by
    apply List.map_congr_left
    intro item hitem
    exact bytesOf_intact hinv honce (prunedOf_subset hT) hitem
      fun key => (hgone key).trans mem_keysOf_prunedOf.symm
  rw [evidenceBytes_of_lacks hlacks, hdisk]
  omega

/-! ### What a pass ends with -/

def Pruning.deletedRuns (st : Pruning) : List RunId := st.removed.map Prod.fst

/-- One run before another: by the reference times, and by the ids among equals. -/
def Older (times : RunId → RunTimes) (r r' : RunId) : Prop :=
  (times r).reference < (times r').reference ∨
    ((times r).reference = (times r').reference ∧ r < r')

instance : DecidableRel (Older times) := fun r r' => by unfold Older; infer_instance

def ManagedRun.Prunable (item : ManagedRun) : Prop := ¬ item.isProtected ∧ 0 < item.bytes

instance : DecidablePred ManagedRun.Prunable := fun item => by
  unfold ManagedRun.Prunable
  infer_instance

/-- Fewer prunable runs come after this one than the policy keeps. -/
def AmongNewest (policy : RetentionPolicy) (times : RunId → RunTimes) (inventory : List ManagedRun)
    (runId : RunId) : Prop :=
  (inventory.countP fun other => other.Prunable ∧ Older times runId other.runId) <
    policy.keepRecentRuns

/-- What `prune_retention` promises of runs. -/
structure RunsPruned (policy : RetentionPolicy) (L : Ledger) (times : RunId → RunTimes) (d : Disk)
    (now : ℚ) (st : Pruning) : Prop where
  /-- The evidence is within the budget, or all that is left is protected or among the newest. -/
  within : evidenceBytes (retentionInventory L times st.disk) ≤ policy.maxEvidenceBytes ∨
    ∀ item ∈ retentionInventory L times st.disk, item.Prunable →
      AmongNewest policy times (retentionInventory L times d) item.runId
  /-- Nothing is gone from the disk but what was removed. -/
  disk : st.disk = d.eraseAll (st.removed.map Prod.snd)
  prunable : ∀ runId ∈ st.deletedRuns, ∃ item ∈ retentionInventory L times d,
    item.runId = runId ∧ item.Prunable
  whole : ∀ runId ∈ st.deletedRuns, artifactsOf st.disk runId = []
  oldestFirst : st.deletedRuns.Pairwise fun r r' => r = r' ∨ Older times r r'
  /-- When the first of its artifacts was removed, a run was old enough, or it was not among the
  newest, all older ones had been deleted, and the evidence exceeded the budget. -/
  reason : ∀ before runId a after, st.removed = before ++ (runId, a) :: after →
    runId ∉ before.map Prod.fst →
    (times runId).reference ≤ now - 86400 * policy.olderThanDays ∨
      ¬ AmongNewest policy times (retentionInventory L times d) runId ∧
      (∀ other ∈ retentionInventory L times d, other.Prunable → Older times other.runId runId →
        other.runId ∈ before.map Prod.fst) ∧
      policy.maxEvidenceBytes < evidenceBytes (retentionInventory L times
        (d.eraseAll (before.map Prod.snd)))

section Order

variable (hitems : ∀ item ∈ inventory, item.referenceTs = (times item.runId).reference)
  (hnodup : (inventory.map ManagedRun.runId).Nodup)
include hitems hnodup

theorem pairwise_older :
    (terminalRuns inventory).Pairwise fun a b => Older times a.runId b.runId := by
  have hids := List.pairwise_map.mp (nodup_terminalRuns hnodup)
  have hsorted := (pairwise_terminalRuns inventory).and hids
  refine hsorted.imp_of_mem fun {a b} ha hb hab => ?_
  obtain ⟨hlt | ⟨heq, hle⟩, hne⟩ := hab
  all_goals
    have hta := hitems a (mem_terminalRuns.mp ha).1
    have htb := hitems b (mem_terminalRuns.mp hb).1
  · exact .inl (by rwa [hta, htb] at hlt)
  · exact .inr ⟨by rwa [hta, htb] at heq, lt_of_le_of_ne hle hne⟩

omit hitems hnodup in
theorem not_older_of_older {r r' : RunId} (h : Older times r r') : ¬ Older times r' r := by
  rintro (hlt | ⟨heq, hlt⟩) <;> rcases h with hlt' | ⟨heq', hlt'⟩
  · exact lt_asymm hlt hlt'
  · exact absurd heq' hlt.ne'
  · exact absurd heq hlt'.ne'
  · exact lt_asymm hlt hlt'

omit hitems hnodup in
theorem not_older_self {r : RunId} : ¬ Older times r r := fun h => not_older_of_older h h

variable (hT : terminalRuns inventory = pre ++ item :: post)
include hT

theorem mem_pre_iff {other : ManagedRun} (hother : other ∈ terminalRuns inventory) :
    other ∈ pre ↔ Older times other.runId item.runId := by
  have hsorted := pairwise_older hitems hnodup
  rw [hT, List.pairwise_append, List.pairwise_cons] at hsorted
  constructor
  · intro ho
    exact hsorted.2.2 other ho item List.mem_cons_self
  · intro holder
    rw [hT] at hother
    rcases List.mem_append.mp hother with ho | ho
    · exact ho
    · rcases List.mem_cons.mp ho with rfl | ho
      · exact absurd holder not_older_self
      · exact absurd holder (not_older_of_older (hsorted.2.1.1 other ho))

/-- The newest runs are those the budget spares. -/
theorem amongNewest_iff :
    AmongNewest policy times inventory item.runId ↔ item.runId ∈ newestRuns policy inventory := by
  have hsorted := pairwise_older hitems hnodup
  rw [hT, List.pairwise_append, List.pairwise_cons] at hsorted
  have hcount : (inventory.countP fun other => decide (other.Prunable ∧
      Older times item.runId other.runId)) = post.length := by
    have hfilter : (inventory.countP fun other => decide (other.Prunable ∧
        Older times item.runId other.runId)) =
        (terminalRuns inventory).countP fun other => Older times item.runId other.runId := by
      rw [terminalRuns, (List.perm_insertionSort _ _).countP_eq, List.countP_filter]
      apply List.countP_congr
      intro other _
      simp [ManagedRun.Prunable, and_comm]
    have hpre : (pre.countP fun other => Older times item.runId other.runId) = 0 := by
      rw [List.countP_eq_zero]
      intro other ho
      simpa using not_older_of_older (hsorted.2.2 other ho item List.mem_cons_self)
    have hpost : (post.countP fun other => Older times item.runId other.runId) = post.length := by
      rw [List.countP_eq_length]
      intro other ho
      simpa using hsorted.2.1.1 other ho
    rw [hfilter, hT, List.countP_append, hpre, List.countP_cons_of_neg, hpost, Nat.zero_add]
    simpa using not_older_self
  rw [mem_newestRuns_iff hT hnodup, AmongNewest, hcount]

end Order

theorem total_le_of_split (hinv : InventoryOf d₀ inventory) (honce : AttributedOnce inventory)
    (hT : terminalRuns inventory = pre ++ post) :
    (pass policy cutoff inventory (fun _ _ => none) d₀ (terminalRuns inventory)).total ≤
      (pass policy cutoff inventory (fun _ _ => none) d₀ pre).total := by
  have hpre := @pass_total d₀ policy cutoff inventory pre post honce hinv hT
  have hall := @pass_total d₀ policy cutoff inventory _ [] honce hinv (List.append_nil _).symm
  have happend : prunedOf policy cutoff inventory (terminalRuns inventory) =
      prunedOf policy cutoff inventory pre ++ prunedOf policy cutoff inventory post := by
    rw [hT, prunedOf, List.filter_append]
    rfl
  rw [happend, evidenceBytes_append] at hall
  omega

section Whole

variable (policy) (now : ℚ) (honce : AttributedOnce (retentionInventory L times d))

theorem referenceTs_eq (hitem : item ∈ retentionInventory L times d) :
    item.referenceTs = (times item.runId).reference := by
  obtain ⟨-, -, -, -, -, href, -⟩ := mem_retentionInventory.mp hitem
  exact href

/-- Where the books agree with the disk, a run that keeps evidence was not due. -/
theorem within_of_pass (cutoff : ℚ) (honce : AttributedOnce (retentionInventory L times d))
    {st : Pruning}
    (hst : pass policy cutoff (retentionInventory L times d) (fun _ _ => none) d
      (terminalRuns (retentionInventory L times d)) = st) :
    evidenceBytes (retentionInventory L times st.disk) ≤ policy.maxEvidenceBytes ∨
      ∀ item ∈ retentionInventory L times st.disk, item.Prunable →
        AmongNewest policy times (retentionInventory L times d) item.runId := by
  have hinv := inventoryOf L times d
  have hall : terminalRuns (retentionInventory L times d) =
    terminalRuns (retentionInventory L times d) ++ [] := (List.append_nil _).symm
  subst hst
  by_contra hnot
  rw [not_or, not_le] at hnot
  obtain ⟨hover, hleft⟩ := hnot
  apply hleft
  rintro item hitem ⟨hprotected, hbytes⟩
  obtain ⟨run, task, hrun, htask, hp, href, hartifacts⟩ := mem_retentionInventory.mp hitem
  let before : ManagedRun :=
    ⟨item.runId, item.isProtected, item.referenceTs, artifactsOf d item.runId⟩
  have hbefore : before ∈ retentionInventory L times d :=
    mem_retentionInventory.mpr ⟨run, task, hrun, htask, hp, href, rfl⟩
  obtain ⟨gone, hlacks, hgone⟩ := (passSound policy cutoff hinv hall).disk
  have hleft : item.bytes = bytesOf (before.intact gone) := by
    rw [ManagedRun.bytes, hartifacts]
    exact bytesOf_artifactsOf_of_lacks hlacks
  have hintact := bytesOf_intact hinv honce (prunedOf_subset hall) hbefore
    fun key => (hgone key).trans mem_keysOf_prunedOf.symm
  have hterminal : before ∈ terminalRuns (retentionInventory L times d) := by
    refine mem_terminalRuns.mpr ⟨hbefore, hprotected, ?_⟩
    have hsum : bytesOf (before.lost gone) + bytesOf (before.intact gone) = before.bytes :=
      bytesOf_lost_add_intact
    omega
  obtain ⟨pre, post, hT⟩ := List.append_of_mem hterminal
  change AmongNewest policy times _ before.runId
  rw [amongNewest_iff (fun _ h => referenceTs_eq h) hinv.once hT]
  by_contra hnewest
  have htotal := @total_le_of_split d policy cutoff _ pre _ hinv honce hT
  rw [pass_evidenceBytes honce hall] at hover
  have hdue : Due policy cutoff (retentionInventory L times d) before :=
    (due_iff honce hinv hT).mpr (.inr ⟨hnewest, hover.trans_le htotal⟩)
  rw [if_pos (mem_prunedOf.mpr ⟨hterminal, hdue⟩)] at hintact
  omega

theorem exists_of_due (hdue : Due policy cutoff inventory item) :
    ∃ a as, item.artifacts = a :: as := by
  obtain ⟨-, -, hbytes⟩ := mem_terminalRuns.mp hdue.1
  rcases hartifacts : item.artifacts with _ | ⟨a, as⟩
  · rw [ManagedRun.bytes, hartifacts] at hbytes
    cases hbytes
  · exact ⟨a, as, rfl⟩

theorem mem_map_entriesOf {runId : RunId} :
    runId ∈ (entriesOf (prunedOf policy cutoff inventory pre)).map Prod.fst ↔
      ∃ item ∈ pre, item.runId = runId ∧ Due policy cutoff inventory item := by
  rw [List.mem_map]
  constructor
  · rintro ⟨e, he, rfl⟩
    obtain ⟨item, hitem, hid, -⟩ := mem_entriesOf.mp he
    obtain ⟨hmem, hdue⟩ := mem_prunedOf.mp hitem
    exact ⟨item, hmem, hid, hdue⟩
  · rintro ⟨item, hmem, rfl, hdue⟩
    obtain ⟨a, as, hartifacts⟩ := exists_of_due policy hdue
    refine ⟨(item.runId, a), mem_entriesOf.mpr ⟨item, mem_prunedOf.mpr ⟨hmem, hdue⟩, rfl, ?_⟩, rfl⟩
    rw [hartifacts]
    exact List.mem_cons_self

theorem artifactsOf_of_due (hinv : InventoryOf d (retentionInventory L times d))
    (hT : terminalRuns (retentionInventory L times d) = pre ++ post)
    (hmem : item ∈ pre) (hdue : Due policy cutoff (retentionInventory L times d) item) :
    artifactsOf (pass policy cutoff (retentionInventory L times d) (fun _ _ => none) d pre).disk
      item.runId = [] := by
  obtain ⟨gone, hlacks, hgone⟩ := (passSound policy cutoff hinv hT).disk
  rw [List.eq_nil_iff_forall_not_mem]
  intro a ha
  obtain ⟨hfound, hkept⟩ := (mem_artifactsOf_of_lacks hlacks).mp ha
  obtain ⟨-, -, -, -, -, -, hartifacts⟩ :=
    mem_retentionInventory.mp (mem_terminalRuns.mp hdue.1).1
  rw [← hartifacts] at hfound
  exact hkept ((hgone _).mpr ⟨item, hmem, hdue, List.mem_map_of_mem hfound⟩)

theorem pairwise_entriesOf (hitems : ∀ item ∈ inventory, item.referenceTs =
    (times item.runId).reference) (hnodup : (inventory.map ManagedRun.runId).Nodup) :
    ((entriesOf (prunedOf policy cutoff inventory (terminalRuns inventory))).map Prod.fst).Pairwise
      fun r r' => r = r' ∨ Older times r r' := by
  rw [entriesOf, List.map_flatMap, List.pairwise_flatMap]
  constructor
  · intro item _
    rw [List.map_map, List.pairwise_map]
    exact List.pairwise_of_forall fun _ _ => .inl rfl
  · refine ((pairwise_older hitems hnodup).filter _).imp ?_
    intro a b hab r hr r' hr'
    simp only [List.map_map, List.mem_map, Function.comp_apply] at hr hr'
    obtain ⟨_, -, rfl⟩ := hr
    obtain ⟨_, -, rfl⟩ := hr'
    exact .inr hab

theorem takeWhile_of_split {α : Type} {p : α → Bool} {xs ys zs : List α} {x : α}
    (h : xs = ys ++ x :: zs) (hys : ∀ y ∈ ys, p y) (hx : ¬ p x) : xs.takeWhile p = ys := by
  rw [h, List.takeWhile_append_of_pos hys, List.takeWhile_cons_of_neg hx, List.append_nil]

/-- When a pass comes to a run that is due, it has removed what comes before its entries. -/
theorem before_of_split {runId : RunId} {a : Artifact} {before after : List (RunId × Artifact)}
    (hinv : InventoryOf d₀ inventory) (hT : terminalRuns inventory = pre ++ item :: post)
    (hdue : Due policy cutoff inventory item) (hid : item.runId = runId)
    (hsplit : entriesOf (prunedOf policy cutoff inventory (terminalRuns inventory)) =
      before ++ (runId, a) :: after) (hfirst : runId ∉ before.map Prod.fst) :
    entriesOf (prunedOf policy cutoff inventory pre) = before := by
  obtain ⟨b, bs, hartifacts⟩ := exists_of_due policy hdue
  have hnodup := nodup_terminalRuns hinv.once
  rw [hT, List.map_append, List.map_cons, List.nodup_append] at hnodup
  have hentries : entriesOf (prunedOf policy cutoff inventory (terminalRuns inventory)) =
      entriesOf (prunedOf policy cutoff inventory pre) ++ (runId, b) ::
        (bs.map (fun a => (runId, a)) ++ entriesOf (prunedOf policy cutoff inventory post)) := by
    rw [hT, prunedOf, List.filter_append,
      List.filter_cons_of_pos (p := fun item => decide (Due policy cutoff inventory item))
        (decide_eq_true hdue)]
    simp [entriesOf, prunedOf, hartifacts, hid]
  have hpre : ∀ e ∈ entriesOf (prunedOf policy cutoff inventory pre),
      decide (e.1 ≠ runId) = true := by
    intro e he
    obtain ⟨other, hother, heq, -⟩ := mem_entriesOf.mp he
    rw [decide_eq_true_eq, ← heq, ← hid]
    exact hnodup.2.2 _ (List.mem_map_of_mem (mem_prunedOf.mp hother).1) _ List.mem_cons_self
  have hbefore : ∀ e ∈ before, decide (e.1 ≠ runId) = true := by
    intro e he
    rw [decide_eq_true_eq]
    rintro rfl
    exact hfirst (List.mem_map_of_mem he)
  exact (takeWhile_of_split hentries hpre (by simp)).symm.trans
    (takeWhile_of_split hsplit hbefore (by simp))

theorem pruneRetention_runsPruned (honce : AttributedOnce (retentionInventory L times d)) :
    RunsPruned policy L times d now (pruneRetention policy (fun _ _ => none) L times d now) := by
  have hinv := inventoryOf L times d
  let cutoff : ℚ := now - 86400 * policy.olderThanDays
  have hall : terminalRuns (retentionInventory L times d) =
    terminalRuns (retentionInventory L times d) ++ [] := (List.append_nil _).symm
  have hitems : ∀ item ∈ retentionInventory L times d,
      item.referenceTs = (times item.runId).reference := fun _ h => referenceTs_eq h
  obtain ⟨hremoved, hdisk⟩ := @pass_removed d policy cutoff _ _ _ honce hinv hall
  rw [pruneRetention, ← pass]
  have hdeleted : ∀ runId ∈ (pass policy cutoff (retentionInventory L times d) (fun _ _ => none) d
      (terminalRuns (retentionInventory L times d))).deletedRuns,
      ∃ item ∈ terminalRuns (retentionInventory L times d), item.runId = runId ∧
        Due policy cutoff (retentionInventory L times d) item := by
    intro runId hrun
    rw [Pruning.deletedRuns, hremoved] at hrun
    exact (mem_map_entriesOf policy).mp hrun
  constructor
  · exact within_of_pass policy cutoff honce rfl
  · rw [hremoved, hdisk]
  · intro runId hrun
    obtain ⟨item, hmem, hid, -⟩ := hdeleted runId hrun
    obtain ⟨hitem, hprunable⟩ := mem_terminalRuns.mp hmem
    exact ⟨item, hitem, hid, hprunable⟩
  · intro runId hrun
    obtain ⟨item, hmem, rfl, hdue⟩ := hdeleted runId hrun
    exact artifactsOf_of_due policy hinv hall hmem hdue
  · rw [Pruning.deletedRuns, hremoved]
    exact pairwise_entriesOf policy hitems hinv.once
  · intro before runId a after hsplit hfirst
    rw [hremoved] at hsplit
    have hmem : (runId, a) ∈ entriesOf (prunedOf policy cutoff (retentionInventory L times d)
        (terminalRuns (retentionInventory L times d))) := by
      rw [hsplit]
      exact List.mem_append_right _ List.mem_cons_self
    obtain ⟨item, hitem, hid, -⟩ := mem_entriesOf.mp hmem
    obtain ⟨hterminal, hdue⟩ := mem_prunedOf.mp hitem
    obtain ⟨pre, post, hT⟩ := List.append_of_mem hterminal
    have hbefore := before_of_split policy hinv hT hdue hid hsplit hfirst
    obtain ⟨-, hdisk⟩ := @pass_removed d policy cutoff _ pre _ honce hinv hT
    rw [hbefore] at hdisk
    simp only at hid
    rw [← hid, ← hitems item (mem_terminalRuns.mp hterminal).1]
    rcases (due_iff honce hinv hT).mp hdue with hage | ⟨hnewest, hover⟩
    · exact .inl hage
    · refine .inr ⟨?_, ?_, ?_⟩
      · rwa [amongNewest_iff hitems hinv.once hT]
      · intro other hother hprunable holder
        have ho := (mem_pre_iff hitems hinv.once hT
          (mem_terminalRuns.mpr ⟨hother, hprunable⟩)).mpr holder
        have hbeyond := (passSound policy cutoff hinv hT).beyond
          (notMem_newestRuns hT hinv.once hnewest) hover
        rw [← hbefore]
        exact (mem_map_entriesOf policy).mpr ⟨other, ho, rfl, hbeyond.2 other ho⟩
      · rw [← hdisk, pass_evidenceBytes honce hT]
        exact hover

end Whole

/-! ### What the pruning of backups ends with -/

variable {dir : BackupDir} {backupPolicy : BackupPolicy}

/-- One backup before another: by the modification times, and by the names where these are the same
float. -/
def Backup.Before (a b : Backup) : Prop :=
  a.mtimeNs < b.mtimeNs ∨ (a.mtime = b.mtime ∧ a.name ≤ b.name)

/-- What `prune_retention` promises of backups. -/
structure BackupsPruned (policy : BackupPolicy) (dir : BackupDir) (st : BackupPruning) : Prop where
  /-- Nothing but the deleted backups is gone. -/
  rest : st.deleted ⊆ backupInventory dir ∧ Without (st.deleted.map Backup.name) dir st.dir
  oldestFirst : st.deleted.Pairwise Backup.Before ∧
    ∀ b ∈ st.deleted, ∀ c ∈ backupInventory st.dir, b.Before c
  /-- Up to the year 2242, none is deleted that is newer by a microsecond than one that is left. -/
  margin : ∀ b ∈ st.deleted, ∀ c ∈ backupInventory st.dir, b.mtimeNs < 2 ^ 33 * 10 ^ 9 →
    b.mtimeNs < c.mtimeNs + 1000
  /-- Before each deletion, the backups in the directory exceeded the limits. -/
  exceeded : ∀ pre b post, st.deleted = pre ++ b :: post → ExceedsBackups policy
    (backupInventory (pre.foldl (fun dir b => dir.delete b.name) dir))
  /-- The backups that are left are within the limits, or there is one. -/
  within : ¬ ExceedsBackups policy (backupInventory st.dir) ∨ (backupInventory st.dir).length ≤ 1
  last : backupInventory dir ≠ [] → backupInventory st.dir ≠ []

theorem Backup.before_of_older {a b : Backup} (h : olderBackup a b) : a.Before b := by
  rcases h with hlt | heq
  · refine .inl (Nat.lt_of_not_le fun hle => ?_)
    exact absurd (Double.quotient_mono (by decide) hle) (not_le.mpr hlt)
  · exact .inr heq

theorem Backup.Before.margin {a b : Backup} (h : a.Before b) (ha : a.mtimeNs < 2 ^ 33 * 10 ^ 9) :
    a.mtimeNs < b.mtimeNs + 1000 := by
  rcases h with hlt | ⟨heq, -⟩
  · omega
  · by_contra hge
    have hclose := Double.le_of_quotient_eq (k := 33) (by decide) (by decide)
      (show b.mtimeNs ≤ a.mtimeNs by omega) (by omega) heq.symm
    omega

theorem without_foldl (names : List Backup) :
    Without (names.map Backup.name) dir (names.foldl (fun dir b => dir.delete b.name) dir) := by
  induction names using List.reverseRecOn with
  | nil => exact without_nil
  | append_singleton names b ih =>
    rw [List.foldl_append, List.map_append]
    exact ih.delete

theorem exceedsBackups_congr {live live' : List Backup} (h : live.Perm live') :
    ExceedsBackups backupPolicy live ↔ ExceedsBackups backupPolicy live' := by
  have hbytes : backupBytes live = backupBytes live' := (h.map _).sum_nat
  rw [ExceedsBackups, ExceedsBackups, h.length_eq, hbytes]

variable (backupPolicy dir) in
theorem pruneBackupRetention_backupsPruned (ctimeNs : ℕ) :
    BackupsPruned backupPolicy dir
      (pruneBackupRetention backupPolicy (fun _ => none) ctimeNs dir) := by
  obtain ⟨kept, hkept, hsound⟩ := pruneBackupRetention_spec dir backupPolicy ctimeNs
  have hperm := perm_backupInventory hsound.split hsound.disk
  have hsorted := (pairwise_sortedBackups dir).imp Backup.before_of_older
  rw [hsound.split, List.pairwise_append] at hsorted
  have hbefore : ∀ b ∈ surplus backupPolicy (sortedBackups dir), ∀ c ∈ backupInventory
      (pruneBackupRetention backupPolicy (fun _ => none) ctimeNs dir).dir, b.Before c :=
    fun b hb c hc => hsorted.2.2 b hb c (hperm.mem_iff.mp hc)
  constructor
  · rw [hsound.deleted]
    refine ⟨fun b hb => ?_, hsound.disk⟩
    rw [mem_backupInventory, ← mem_sortedBackups]
    exact (surplus_isPrefix _).subset hb
  · rw [hsound.deleted]
    exact ⟨hsorted.1, hbefore⟩
  · rw [hsound.deleted]
    exact fun b hb c hc => (hbefore b hb c hc).margin
  · intro pre b post hdeleted
    rw [hsound.deleted] at hdeleted
    have hsplit : sortedBackups dir = pre ++ (b :: post ++ kept) := by
      rw [← List.append_assoc, ← hdeleted]
      exact hkept
    rw [exceedsBackups_congr (perm_backupInventory hsplit (without_foldl pre))]
    exact exceeds_of_surplus hkept hdeleted
  · rw [exceedsBackups_congr hperm, hperm.length_eq]
    exact surplus_spec hkept
  · intro hsome hnone
    rw [hnone] at hperm
    have hall : sortedBackups dir ≠ [] := by
      rw [sortedBackups]
      intro hnil
      have hlength := (List.perm_insertionSort olderBackup (backupInventory dir)).length_eq
      rw [hnil] at hlength
      exact hsome (List.length_eq_zero_iff.mp hlength.symm)
    rw [← hperm.nil_eq, List.append_nil] at hkept
    exact surplus_ne hall hkept.symm

/-! ### The whole command -/

structure RetentionResult where
  runs : Pruning
  backups : BackupPruning

/-- `prune_retention`: first runs, then backups. -/
def pruneRetentionWhole (policy : RetentionPolicy) (backupPolicy : BackupPolicy)
    (failure : RunId → Artifact → Option Failure) (backupFailure : Backup → Option BackupFailure)
    (ctimeNs : ℕ) (L : Ledger) (times : RunId → RunTimes) (d : Disk) (dir : BackupDir) (now : ℚ) :
    Except String RetentionResult :=
  if backupPolicy.keepBackups < 1 then .error "invalid_retention_policy"
  else .ok
    { runs := pruneRetention policy failure L times d now
      backups := pruneBackupRetention backupPolicy backupFailure ctimeNs dir }

namespace Scenario

/-- The evidence of the aborted run. -/
def aborted : Disk where
  nodes := (∅ : Table (ArtifactKind × String) Node).put
    (.log, LogKind.checkAuthority.fileName "t-A1-0123456789")
    (.file ⟨⟨1, 2, 0o100600, 10, 0, 0⟩, "h"⟩)
  writtenFor name :=
    if name = LogKind.checkAuthority.fileName "t-A1-0123456789" then
      some "t-A1-0123456789" else none

/-- Two backups, the one that comes first by its name a nanosecond newer. -/
def backups : BackupDir :=
  ((∅ : BackupDir).put "orch-state-1.zip"
    (.file ⟨⟨1, 3, 0o100600, 10, 1700000000000000001, 0⟩, "b"⟩)).put "orch-state-2.zip"
      (.file ⟨⟨1, 4, 0o100600, 10, 1700000000000000000, 1⟩, "c"⟩)

end Scenario

end OrchKit.Retention
