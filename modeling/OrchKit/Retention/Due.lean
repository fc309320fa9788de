import OrchKit.Retention.Pruned

/-! # The runs that are due

Which runs a pass prunes can be told from the inventory: those that are old enough, and, oldest
first, those that the evidence is over its budget with. A pass without failures takes away what
they have, and no pass touches anything else.
-/

namespace OrchKit.Retention

variable (policy : RetentionPolicy) (cutoff : ℚ) (inventory : List ManagedRun) (item : ManagedRun)

def earlier : List ManagedRun :=
  (terminalRuns inventory).takeWhile fun other => other.runId ≠ item.runId

def keysOf (items : List ManagedRun) : List (ArtifactKind × String) :=
  items.flatMap fun item => item.artifacts.map Artifact.key

/-- The run may be pruned, and is old enough, or is not among the newest and the evidence is over
its budget without the runs before it and what it shares with them. -/
def Due : Prop :=
  item ∈ terminalRuns inventory ∧ (item.referenceTs ≤ cutoff ∨
    item.runId ∉ newestRuns policy inventory ∧
      policy.maxEvidenceBytes + evidenceBytes (earlier inventory item) +
        bytesOf (item.lost (keysOf (earlier inventory item))) < evidenceBytes inventory)

instance : Decidable (Due policy cutoff inventory item) := by unfold Due; infer_instance

variable {policy cutoff inventory item} {d₀ : Disk} {pre post : List ManagedRun} {st : Pruning}
  {failures : RunId → Artifact → Option Failure}

/-- An inventory of a disk. -/
structure InventoryOf (d : Disk) (inventory : List ManagedRun) : Prop where
  items : ∀ item ∈ inventory, item.Of d
  once : (inventory.map ManagedRun.runId).Nodup

theorem sublist_keys {names : List String} {d : Disk} {kind : ArtifactKind} :
    ((names.filterMap (artifact? d kind)).map Artifact.key).Sublist
      (names.map fun name => (kind, name)) := by
  induction names with
  | nil => exact .slnil
  | cons name names ih =>
    rw [List.filterMap_cons, List.map_cons]
    split
    next => exact ih.cons _
    next a ha =>
      obtain ⟨hkind, hname, -⟩ := artifact?_eq_some_iff.mp ha
      rw [List.map_cons, Artifact.key, hkind, hname]
      exact ih.cons_cons _

theorem nodup_names {d : Disk} {kind : ArtifactKind} : (d.names kind).Nodup := by
  refine List.Nodup.filterMap ?_ d.nodes.keys_nodup
  rintro ⟨k, n⟩ ⟨k', n'⟩ name h h'
  simp only [Option.mem_def, Option.ite_none_right_eq_some, Option.some.injEq] at h h'
  obtain ⟨rfl, rfl⟩ := h
  obtain ⟨rfl, rfl⟩ := h'
  rfl

theorem nodup_artifactsOf {d : Disk} {runId : RunId} :
    ((artifactsOf d runId).map Artifact.key).Nodup := by
  have hlogs : (sorted ((d.names .log).filter (logPattern runId))).Nodup :=
    (List.perm_insertionSort _ _).nodup_iff.mpr (nodup_names.sublist List.filter_sublist)
  have hone : ∀ kind name, ((artifact? d kind name).toList.map Artifact.key).Sublist
      [(kind, name)] := by
    intro kind name
    rcases ha : artifact? d kind name with _ | a
    · exact List.nil_sublist _
    · obtain ⟨hkind, hname, -⟩ := artifact?_eq_some_iff.mp ha
      rw [Option.toList_some, List.map_singleton, Artifact.key, hkind, hname]
  rw [artifactsOf, List.map_append, List.map_append]
  refine List.Nodup.sublist ((sublist_keys.append (hone _ _)).append (hone _ _)) ?_
  simp [List.nodup_append, hlogs.map fun _ _ h => (Prod.mk.inj h).2]

theorem inventoryOf (L : Ledger) (times : RunId → RunTimes) (d : Disk) :
    InventoryOf d (retentionInventory L times d) where
  items item hitem := by
    obtain ⟨-, -, -, -, -, -, hartifacts⟩ := mem_retentionInventory.mp hitem
    refine ⟨fun a ha => ?_, hartifacts ▸ nodup_artifactsOf⟩
    rw [hartifacts] at ha
    exact (mem_artifactsOf.mp ha).2
  once := by
    have hsub : ∀ entries : List ((_ : RunId) × Run),
        ((entries.filterMap fun e => (L.tasks.lookup e.2.taskId).map fun task =>
          ({ runId := e.1
             isProtected := protectedRun L e.1 e.2 task
             referenceTs := (times e.1).reference
             artifacts := artifactsOf d e.1 } : ManagedRun)).map ManagedRun.runId).Sublist
          entries.keys := by
      intro entries
      induction entries with
      | nil => exact .slnil
      | cons e entries ih =>
        rw [List.filterMap_cons, List.keys_cons]
        rcases L.tasks.lookup e.2.taskId with _ | task
        · exact ih.cons _
        · exact ih.cons_cons _
    exact List.Nodup.sublist (hsub _) L.runs.nodupKeys

section Order

theorem mem_terminalRuns : item ∈ terminalRuns inventory ↔
    item ∈ inventory ∧ ¬ item.isProtected ∧ 0 < item.bytes := by
  rw [terminalRuns, List.mem_insertionSort, List.mem_filter]
  simp only [decide_eq_true_eq]

variable (inventory) in
theorem pairwise_terminalRuns : (terminalRuns inventory).Pairwise older :=
  List.pairwise_insertionSort_lex ManagedRun.referenceTs ManagedRun.runId older
    (fun _ _ => Iff.rfl) _

theorem nodup_terminalRuns (h : (inventory.map ManagedRun.runId).Nodup) :
    ((terminalRuns inventory).map ManagedRun.runId).Nodup := by
  have hperm := (List.perm_insertionSort older
    (inventory.filter fun item => ¬ item.isProtected ∧ 0 < item.bytes)).map ManagedRun.runId
  rw [terminalRuns, hperm.nodup_iff]
  exact (List.filter_sublist.map ManagedRun.runId).nodup h

variable (hT : terminalRuns inventory = pre ++ item :: post)
include hT

theorem earlier_eq (h : (inventory.map ManagedRun.runId).Nodup) : earlier inventory item = pre := by
  have hnodup := nodup_terminalRuns h
  rw [hT, List.map_append, List.map_cons, List.nodup_append] at hnodup
  have hne : ∀ other ∈ pre, decide (other.runId ≠ item.runId) = true := fun other ho =>
    decide_eq_true (hnodup.2.2 _ (List.mem_map_of_mem ho) _ List.mem_cons_self)
  rw [earlier, hT, List.takeWhile_append_of_pos hne, List.takeWhile_cons_of_neg (by simp),
    List.append_nil]

/-- The newest runs are those with few runs behind them. -/
theorem mem_newestRuns_iff (h : (inventory.map ManagedRun.runId).Nodup) :
    item.runId ∈ newestRuns policy inventory ↔ post.length < policy.keepRecentRuns := by
  have hreverse : (terminalRuns inventory).reverse = post.reverse ++ item :: pre.reverse := by
    rw [hT, List.reverse_append, List.reverse_cons, List.append_assoc, List.singleton_append]
  constructor
  · intro hmem
    by_contra hle
    have hnodup := nodup_terminalRuns h
    rw [hT, List.map_append, List.map_cons, List.nodup_append, List.nodup_cons] at hnodup
    rw [newestRuns, hreverse, List.take_append_of_le_length (by simpa using hle)] at hmem
    obtain ⟨b, hb, hid⟩ := List.mem_map.mp hmem
    refine hnodup.2.1.1 (hid ▸ List.mem_map_of_mem ?_)
    exact List.mem_reverse.mp (List.mem_of_mem_take hb)
  · intro hlt
    rw [newestRuns, hreverse]
    apply List.mem_map_of_mem
    rw [← List.length_reverse] at hlt
    obtain ⟨k, hk⟩ := Nat.exists_eq_add_of_lt hlt
    rw [hk, Nat.add_assoc, List.take_length_add_append, List.take_succ_cons]
    exact List.mem_append_right _ List.mem_cons_self

theorem notMem_newestRuns (h : (inventory.map ManagedRun.runId).Nodup)
    (hi : item.runId ∉ newestRuns policy inventory) :
    ∀ other ∈ pre, other.runId ∉ newestRuns policy inventory := by
  intro other ho hmem
  obtain ⟨before, after, rfl⟩ := List.append_of_mem ho
  rw [mem_newestRuns_iff hT h] at hi
  rw [List.append_assoc, List.cons_append] at hT
  rw [mem_newestRuns_iff hT h, List.length_append, List.length_cons] at hmem
  omega

end Order

/-! ### A pass without failures -/

/-- The pass over a list of runs. -/
def pass (policy : RetentionPolicy) (cutoff : ℚ) (inventory : List ManagedRun)
    (failures : RunId → Artifact → Option Failure) (d : Disk) (items : List ManagedRun) : Pruning :=
  items.foldl (pruneRun policy cutoff (newestRuns policy inventory) failures)
    { disk := d, total := evidenceBytes inventory }

theorem pass_concat {items : List ManagedRun} :
    pass policy cutoff inventory failures d₀ (items ++ [item]) =
      pruneRun policy cutoff (newestRuns policy inventory) failures
        (pass policy cutoff inventory failures d₀ items) item := List.foldl_append

/-- What holds in the middle of a pass without failures: the due runs among those before have
lost what they have, and the evidence is what it was without them. -/
structure PassSound (policy : RetentionPolicy) (cutoff : ℚ) (inventory : List ManagedRun)
    (d₀ : Disk) (pre : List ManagedRun) (st : Pruning) : Prop where
  allowed : st.budgetAllowed
  disk : ∃ gone, Lacks d₀ gone st.disk ∧ ∀ key, key ∈ gone ↔
    ∃ other ∈ pre, Due policy cutoff inventory other ∧ key ∈ other.artifacts.map Artifact.key
  atLeast : evidenceBytes inventory ≤ st.total + evidenceBytes pre
  beyond : (∀ other ∈ pre, other.runId ∉ newestRuns policy inventory) →
    policy.maxEvidenceBytes < st.total → st.total + evidenceBytes pre = evidenceBytes inventory ∧
      ∀ other ∈ pre, Due policy cutoff inventory other

theorem evidenceBytes_concat {items : List ManagedRun} :
    evidenceBytes (items ++ [item]) = evidenceBytes items + item.bytes := by
  rw [evidenceBytes, evidenceBytes, List.map_append, List.sum_append, List.map_singleton,
    List.sum_singleton]

theorem lost_congr {gone gone' : List (ArtifactKind × String)}
    (h : ∀ key, key ∈ gone ↔ key ∈ gone') :
    item.lost gone = item.lost gone' := by
  rw [ManagedRun.lost, ManagedRun.lost]
  apply List.filter_congr
  intro a _
  simp only [h]

theorem mem_keysOf {items : List ManagedRun} {key : ArtifactKind × String} :
    key ∈ keysOf items ↔ ∃ item ∈ items, key ∈ item.artifacts.map Artifact.key := List.mem_flatMap

theorem bytesOf_lost_le {gone : List (ArtifactKind × String)} :
    bytesOf (item.lost gone) ≤ item.bytes :=
  (Nat.le_add_right _ _).trans_eq bytesOf_lost_add_intact

section Pass

variable (hinv : InventoryOf d₀ inventory)
include hinv

/-- In the middle of a pass, the books say of the next run what the inventory says. -/
theorem PassSound.due_iff (hT : terminalRuns inventory = pre ++ item :: post)
    (h : PassSound policy cutoff inventory d₀ pre st) :
    ∃ gone, Lacks d₀ gone st.disk ∧ (∀ key, key ∈ gone ↔ ∃ other ∈ pre,
        Due policy cutoff inventory other ∧ key ∈ other.artifacts.map Artifact.key) ∧
      (item.referenceTs ≤ cutoff ∨ st.budgetAllowed ∧ item.runId ∉ newestRuns policy inventory ∧
          policy.maxEvidenceBytes + bytesOf (item.lost gone) < st.total ↔
        Due policy cutoff inventory item) := by
  obtain ⟨hallowed, ⟨gone, hlacks, hgone⟩, hatLeast, hover⟩ := h
  have hmem : item ∈ terminalRuns inventory := by
    rw [hT]
    exact List.mem_append_right _ List.mem_cons_self
  have hearlier := earlier_eq hT hinv.once
  have hall : (∀ other ∈ pre, Due policy cutoff inventory other) →
      item.lost gone = item.lost (keysOf pre) := by
    intro hdue
    apply lost_congr
    intro key
    rw [hgone, mem_keysOf]
    constructor
    · rintro ⟨other, ho, -, hk⟩
      exact ⟨other, ho, hk⟩
    · rintro ⟨other, ho, hk⟩
      exact ⟨other, ho, hdue other ho, hk⟩
  refine ⟨gone, hlacks, hgone, ?_⟩
  rw [Due, hearlier]
  constructor
  · rintro (hage | ⟨-, hnewest, hlt⟩)
    · exact ⟨hmem, .inl hage⟩
    · obtain ⟨htotal, hdue⟩ := hover (notMem_newestRuns hT hinv.once hnewest) (by omega)
      rw [hall hdue] at hlt
      exact ⟨hmem, .inr ⟨hnewest, by omega⟩⟩
  · rintro ⟨-, hage | ⟨hnewest, hlt⟩⟩
    · exact .inl hage
    · obtain ⟨htotal, hdue⟩ := hover (notMem_newestRuns hT hinv.once hnewest) (by omega)
      rw [← hall hdue] at hlt
      exact .inr ⟨hallowed, hnewest, by omega⟩

/-- A run that is due is pruned, and one that is not is passed over. -/
theorem PassSound.step (hT : terminalRuns inventory = pre ++ item :: post)
    (h : PassSound policy cutoff inventory d₀ pre st) :
    PassSound policy cutoff inventory d₀ (pre ++ [item])
      (pruneRun policy cutoff (newestRuns policy inventory) (fun _ _ => none) st item) := by
  obtain ⟨gone, hlacks, hgone, hnow⟩ := h.due_iff hinv hT
  obtain ⟨hallowed, -, hatLeast, hover⟩ := h
  have hmem : item ∈ terminalRuns inventory := by
    rw [hT]
    exact List.mem_append_right _ List.mem_cons_self
  have hi : item.Of d₀ := hinv.items item (mem_terminalRuns.mp hmem).1
  have hlost : bytesOf (item.lost gone) ≤ item.bytes := bytesOf_lost_le
  by_cases hdue : Due policy cutoff inventory item
  · rw [pruneRun_of_due hlacks hi (fun _ => rfl) (hnow.mpr hdue)]
    refine ⟨hallowed, ⟨_, hlacks.eraseAll, ?_⟩, ?_, ?_⟩
    · intro key
      rw [List.mem_append, hgone]
      simp only [List.mem_append, List.mem_singleton, or_and_right, exists_or, exists_eq_left]
      constructor
      · rintro (hk | hk)
        · obtain ⟨a, ha, rfl⟩ := List.mem_map.mp hk
          exact .inr ⟨hdue, List.mem_map_of_mem (List.mem_of_mem_filter ha)⟩
        · exact .inl hk
      · rintro (hk | ⟨-, hk⟩)
        · exact .inr hk
        · obtain ⟨a, ha, rfl⟩ := List.mem_map.mp hk
          by_cases hg : a.key ∈ gone
          · exact .inr ((hgone _).mp hg)
          · exact .inl (List.mem_map_of_mem (List.mem_filter.mpr ⟨ha, decide_eq_true hg⟩))
    · rw [evidenceBytes_concat]
      change evidenceBytes inventory ≤ st.total - item.bytes + (evidenceBytes pre + item.bytes)
      omega
    · intro hnewest hlt
      change policy.maxEvidenceBytes < st.total - item.bytes at hlt
      obtain ⟨htotal, hpre⟩ := hover (fun other ho => hnewest other (List.mem_append_left _ ho))
        (by omega)
      rw [evidenceBytes_concat]
      refine ⟨?_, ?_⟩
      · change st.total - item.bytes + (evidenceBytes pre + item.bytes) = evidenceBytes inventory
        omega
      · intro other ho
        rcases List.mem_append.mp ho with ho | ho
        · exact hpre other ho
        · rw [List.mem_singleton.mp ho]
          exact hdue
  · obtain ⟨total, he, htotal⟩ := pruneRun_of_not_due policy cutoff
      (newestRuns policy inventory) (fun _ _ => none) hlacks hi hallowed
        (fun hd => hdue (hnow.mp hd))
    rw [he]
    refine ⟨hallowed, ⟨gone, hlacks, ?_⟩, ?_, ?_⟩
    · intro key
      rw [hgone]
      constructor
      · rintro ⟨other, ho, hd⟩
        exact ⟨other, List.mem_append_left _ ho, hd⟩
      · rintro ⟨other, ho, hd⟩
        rcases List.mem_append.mp ho with ho | ho
        · exact ⟨other, ho, hd⟩
        · rw [List.mem_singleton.mp ho] at hd
          exact absurd hd.1 hdue
    · rw [evidenceBytes_concat]
      change evidenceBytes inventory ≤ total + (evidenceBytes pre + item.bytes)
      rcases htotal with ⟨rfl, -⟩ | ⟨rfl, -⟩ <;> omega
    · intro hnewest hlt
      change policy.maxEvidenceBytes < total at hlt
      rcases htotal with ⟨rfl, hin | hle⟩ | ⟨rfl, hle⟩
      · exact absurd hin (hnewest item (List.mem_append_right _ (List.mem_singleton_self _)))
      · exact absurd hlt (not_lt.mpr hle)
      · exact absurd hlt (not_lt.mpr hle)

variable (policy cutoff) in
theorem passSound (hT : terminalRuns inventory = pre ++ post) :
    PassSound policy cutoff inventory d₀ pre
      (pass policy cutoff inventory (fun _ _ => none) d₀ pre) := by
  induction pre using List.reverseRecOn generalizing post with
  | nil =>
    refine ⟨rfl, ⟨[], lacks_nil, ?_⟩, ?_, ?_⟩
    · intro key
      simp
    · exact Nat.le_refl _
    · intro _ _
      exact ⟨Nat.add_zero _, fun other ho => by cases ho⟩
  | append_singleton pre item ih =>
    rw [List.append_assoc, List.singleton_append] at hT
    rw [pass_concat]
    exact PassSound.step hinv hT (ih hT)

end Pass

/-! ### A pass with failures -/

theorem pass_of_budget
    (h : (pass policy cutoff inventory failures d₀ pre).budgetAllowed) :
    pass policy cutoff inventory failures d₀ pre =
      pass policy cutoff inventory (fun _ _ => none) d₀ pre := by
  induction pre using List.reverseRecOn with
  | nil => rfl
  | append_singleton pre item ih =>
    rw [pass_concat] at h ⊢
    obtain ⟨hpre, heq⟩ := pruneRun_budget h
    rw [heq, ih hpre, pass_concat]

variable (failures) in
/-- A run that is not due is passed over, whatever has failed before. -/
theorem pruneRun_of_not_due_pass (hinv : InventoryOf d₀ inventory)
    (hT : terminalRuns inventory = pre ++ item :: post)
    (hdue : ¬ Due policy cutoff inventory item) : ∃ total,
      pruneRun policy cutoff (newestRuns policy inventory) failures
        (pass policy cutoff inventory failures d₀ pre) item =
          { pass policy cutoff inventory failures d₀ pre with total := total } := by
  have hmem : item ∈ terminalRuns inventory := by
    rw [hT]
    exact List.mem_append_right _ List.mem_cons_self
  have hage : ¬ item.referenceTs ≤ cutoff := fun hage => hdue ⟨hmem, .inl hage⟩
  by_cases hallowed : (pass policy cutoff inventory failures d₀ pre).budgetAllowed
  · have hsound : PassSound policy cutoff inventory d₀ pre
        (pass policy cutoff inventory failures d₀ pre) := by
      rw [pass_of_budget hallowed]
      exact passSound policy cutoff hinv hT
    obtain ⟨gone, hlacks, -, hnow⟩ := hsound.due_iff hinv hT
    obtain ⟨total, he, -⟩ := pruneRun_of_not_due policy cutoff
      (newestRuns policy inventory) failures hlacks
      (hinv.items item (mem_terminalRuns.mp hmem).1) hallowed fun hd => hdue (hnow.mp hd)
    exact ⟨total, he⟩
  · refine ⟨(pass policy cutoff inventory failures d₀ pre).total, ?_⟩
    rw [Bool.not_eq_true] at hallowed
    simp only [pruneRun, hallowed, Bool.false_and]
    rw [if_pos ⟨fun h => hage (of_decide_eq_true h), Bool.false_ne_true⟩, ← hallowed]

variable (policy cutoff failures) in
/-- Whatever fails, a pass removes nothing but artifacts of runs that are due, and leaves the
rest of the disk as it was. -/
theorem pass_due (hinv : InventoryOf d₀ inventory) (hT : terminalRuns inventory = pre ++ post) :
    (∀ e ∈ (pass policy cutoff inventory failures d₀ pre).removed, ∃ item,
      Due policy cutoff inventory item ∧ e.1 = item.runId ∧ e.2 ∈ item.artifacts) ∧
    ∀ kind name, (∀ item, Due policy cutoff inventory item →
        (kind, name) ∉ item.artifacts.map Artifact.key) →
      (pass policy cutoff inventory failures d₀ pre).disk.node kind name = d₀.node kind name := by
  induction pre using List.reverseRecOn generalizing post with
  | nil => exact ⟨fun e he => absurd he List.not_mem_nil, fun _ _ _ => rfl⟩
  | append_singleton pre item ih =>
    rw [List.append_assoc, List.singleton_append] at hT
    obtain ⟨hremoved, hnode⟩ := ih hT
    rw [pass_concat]
    by_cases hdue : Due policy cutoff inventory item
    · constructor
      · intro e he
        rcases pruneRun_removes.2 e he with he | ⟨hid, he⟩
        · exact hremoved e he
        · exact ⟨item, hdue, hid, he⟩
      · intro kind name hclear
        rw [pruneRun_node, hnode kind name hclear]
        intro a ha hkey
        exact hclear item hdue (hkey ▸ List.mem_map_of_mem ha)
    · obtain ⟨total, he⟩ := pruneRun_of_not_due_pass failures hinv hT hdue
      rw [he]
      exact ⟨hremoved, hnode⟩

end OrchKit.Retention
